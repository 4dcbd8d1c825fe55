import Quokka.Scheduler.Sharding
import Quokka.Scheduler.VerdictFold

/-!
# The verdict of a documentation test target

A documentation test target is one action with one synthetic member. Observations that its
output holds are recorded under their own names, while the result is reported under the
synthetic name. `doctest_result_iff` says for which outputs the reported result agrees with the
observations and the exit code.
-/

namespace Quokka

section Single

variable [External] {ctx : TargetCtx} {plan : TargetPlan} {path : List Nat}
  {selection : TestSelection String} {names : List String} {repeatIndex : Nat}

/-- No failing member is retried if a single attempt is allowed. -/
theorem retry_pending_of_single (hretry : attemptBound ctx plan ≤ 1) {failing retried : List String}
    (h : retryPending ctx plan 0 failing = .ok retried) : retried = [] := by
  by_contra hne
  have hbound := retry_pending_bound ctx plan h hne
  omega

/-- An action of one member with a single attempt reports what its one group execution
recorded. -/
theorem execute_single_attempt {name : String} {outcome : GroupOutcome}
    {finished : List FinishedTest} (hretry : attemptBound ctx plan ≤ 1)
    (houtcome : (runGroup ctx plan path selection [name] repeatIndex 0 0).outcome = .ok outcome)
    (hdisposition : outcome.disposition ≠ some .completeActionTimeout)
    (h : (executeTestAction ctx plan path selection [name] repeatIndex 0
      MemberTables.empty).finished = .ok finished) :
    finished.map FinishedTest.summary =
      [(recordOutcome plan.translator.listingStrategy.isWholeTarget [name] [name]
        MemberTables.empty outcome).summary repeatIndex name] := by
  have hindex : ctx.profile.addU32 0 0 = .ok 0 := BuildProfile.add_u32_of_lt _ (by decide)
  let start := ActionState.start [name] MemberTables.empty
  let run := runGroup ctx plan path selection [name] repeatIndex 0 0
  let state := recordRun plan [name] start run outcome
  have hbody : (actionLoop ctx plan path selection [name] repeatIndex 0).body start =
      afterOutcome ctx plan [name] state outcome.disposition := by
    show actionBody ctx plan path selection [name] repeatIndex 0 start = _
    unfold actionBody
    have hstart : ctx.profile.addU32 0 start.executionAttempt = .ok 0 := hindex
    have hrun : (nextRun ctx plan path selection repeatIndex start 0).outcome = .ok outcome :=
      houtcome
    rw [hstart]
    dsimp only
    rw [hrun]
    rfl
  have hafter : ∃ ending, afterOutcome ctx plan [name] state outcome.disposition =
      .leave ⟨state, ending⟩ ∧ (ending = .report ∨ ∃ message, ending = .panicked message) := by
    unfold afterOutcome
    dsimp only
    split
    · exact ⟨_, rfl, .inl rfl⟩
    split
    case h_1 message _ => exact ⟨_, rfl, .inr ⟨message, rfl⟩⟩
    case h_2 retried hretried =>
      rw [retry_pending_of_single hretry hretried]
      exact ⟨_, rfl, .inl rfl⟩
  obtain ⟨ending, hleave, hending⟩ := hafter
  unfold executeTestAction executeTestActionWith at h
  have hrun := BoundedLoop.run_of_leave _ (hbody.trans hleave)
  rw [hrun] at h
  rcases hending with rfl | ⟨message, rfl⟩
  · exact report_members_ok ctx plan h
  · cases h

end Single

/-! ## Whole-target results -/

/-- No observation is a failure and the process exited with 0. -/
def CleanRun (decoded : Table String PerTestObservation) (status : ProcessOutcome) : Prop :=
  (∀ name obs, decoded.lookup name = some obs → obs.status.isFailure = false) ∧
    status = .finished 0

/-- The group that a completed action without resource markers is. -/
def observedGroup (decoded : Table String PerTestObservation) (action : CompletedAction) :
    ObservedGroup where
  observations := decoded
  raw := action.status
  stdout := action.stdout
  stderr := action.stderr
  actionOom := none
  executionTime := action.executionTime
  maxMemory := action.maxMemoryUsedBytes
  execution := .fromExecKind action.execKind

/-- The best result under the synthetic name: without observations it is decided by the process
outcome, with observations it is what was observed under the synthetic name itself. -/
theorem synthetic_best (decoded : Table String PerTestObservation) (action : CompletedAction) :
    (recordOutcome true [doctestResultName] [doctestResultName] MemberTables.empty
        (.observed (observedGroup decoded action))).bestOf doctestResultName =
      if decoded.keys = [] then
        some ((observedGroup decoded action).memberResult true true doctestResultName).toBest
      else
        (decoded.lookup doctestResultName).map fun _ =>
          ((observedGroup decoded action).memberResult true true doctestResultName).toBest := by
  have hsingle : (!decide (1 < [doctestResultName].length)) = true := rfl
  rw [recordOutcome, best_of_record, memberResults, hsingle, Bool.true_or]
  by_cases hempty : decoded.keys = []
  · have hnames : (observedGroup decoded action).testNames true [doctestResultName] =
        [doctestResultName] := by
      simp [ObservedGroup.testNames, observedGroup, hempty]
    rw [hnames, if_pos hempty, results_of_map (List.nodup_singleton _),
      if_pos (List.mem_singleton_self _)]
    exact StickyFold.fold_from_none_singleton _
  · have hnames : (observedGroup decoded action).testNames true [doctestResultName] =
        decoded.keys := by
      have hkeys : decoded.keys.isEmpty = false := by simpa using hempty
      simp [ObservedGroup.testNames, observedGroup, hkeys]
    rw [hnames, if_neg hempty, results_of_map (AList.keys_nodup decoded)]
    cases hlookup : decoded.lookup doctestResultName with
    | none =>
        have hnot : doctestResultName ∉ decoded.keys := by
          rw [AList.lookup_eq_none] at hlookup
          exact hlookup
        rw [if_neg hnot]
        rfl
    | some obs =>
        have hmem : doctestResultName ∈ decoded.keys := by
          have hsome : (decoded.lookup doctestResultName).isSome := by rw [hlookup]; rfl
          exact AList.lookup_isSome.mp hsome
        rw [if_pos hmem]
        exact StickyFold.fold_from_none_singleton _

/-- The reported result of a target counts as non-failing. -/
def FinishedTest.NonFailing (finished : FinishedTest) : Prop :=
  reportDisposition finished.status finished.integrity false ≠ .failure

/-- A complete result is non-failing exactly if its status is. -/
theorem complete_non_failing_iff (status : TestVerdict) :
    reportDisposition status .complete false ≠ .failure ↔ status.isFailure = false := by
  cases status <;> decide

/-- The member result under the synthetic name. -/
theorem synthetic_result_non_failing_iff (decoded : Table String PerTestObservation)
    (action : CompletedAction) :
    let result := (observedGroup decoded action).memberResult true true doctestResultName
    reportDisposition result.status result.integrity false ≠ .failure ↔
      match decoded.lookup doctestResultName with
      | some obs => obs.status.isFailure = false
      | none => action.status = .finished 0 := by
  unfold ObservedGroup.memberResult observedGroup
  cases hlookup : decoded.lookup doctestResultName with
  | some obs => simp [complete_non_failing_iff]
  | none =>
      simp only [if_true, complete_non_failing_iff]
      unfold absentNameVerdict
      cases action.status with
      | timedOut after => simp [TestVerdict.isFailure]
      | finished exitCode =>
          by_cases hzero : exitCode = 0 <;> simp [hzero, TestVerdict.isFailure]

/-- When the synthetic result is non-failing: without observations if the process exited with 0,
with observations if one under the synthetic name itself is not a failure. -/
theorem synthetic_non_failing_iff (decoded : Table String PerTestObservation)
    (action : CompletedAction) {summary : Summary} {repeatIndex : Nat}
    (hsummary : summary = (recordOutcome true [doctestResultName] [doctestResultName]
      MemberTables.empty (.observed (observedGroup decoded action))).summary repeatIndex
        doctestResultName) :
    reportDisposition summary.status summary.integrity false ≠ .failure ↔
      if decoded.keys = [] then action.status = .finished 0
      else ∃ obs, decoded.lookup doctestResultName = some obs ∧ obs.status.isFailure = false := by
  have hresult := synthetic_result_non_failing_iff decoded action
  have hbest := synthetic_best decoded action
  subst hsummary
  unfold MemberTables.summary MemberTables.outcomeOf
  rw [hbest]
  by_cases hempty : decoded.keys = []
  · have hlookup : decoded.lookup doctestResultName = none := by
      rw [AList.lookup_eq_none]
      show doctestResultName ∉ decoded.keys
      rw [hempty]
      exact List.not_mem_nil
    rw [hlookup] at hresult
    rw [if_pos hempty, if_pos hempty]
    exact hresult
  · rw [if_neg hempty, if_neg hempty]
    cases hlookup : decoded.lookup doctestResultName with
    | none =>
        have hmissing : reportDisposition .fatal .missingTerminalResult false = .failure := rfl
        simp [BestObs.missing, BestObs.intoOutcome, hmissing]
    | some obs =>
        rw [hlookup] at hresult
        simpa [MemberResult.toBest, BestObs.intoOutcome] using hresult

/-- The outputs for which the synthetic result follows the observations and the exit code: those
without observations, those of a run that is not clean without a passing observation under the
synthetic name, and those of a clean run with an observation under the synthetic name. -/
def SyntheticFollows (decoded : Table String PerTestObservation) (status : ProcessOutcome) :
    Prop :=
  decoded.keys = [] ∨
    (¬CleanRun decoded status ∧
      ∀ obs, decoded.lookup doctestResultName = some obs → obs.status.isFailure = true) ∨
    (CleanRun decoded status ∧ ∃ obs, decoded.lookup doctestResultName = some obs)

/-- The synthetic result is non-failing exactly for clean runs, on the outputs of
`SyntheticFollows` and on no others. -/
theorem synthetic_follows_iff (decoded : Table String PerTestObservation)
    (status : ProcessOutcome) :
    ((if decoded.keys = [] then status = .finished 0
        else ∃ obs, decoded.lookup doctestResultName = some obs ∧
          obs.status.isFailure = false) ↔ CleanRun decoded status) ↔
      SyntheticFollows decoded status := by
  unfold SyntheticFollows
  by_cases hempty : decoded.keys = []
  · have hnone : ∀ name, decoded.lookup name = none := by
      intro name
      rw [AList.lookup_eq_none]
      show name ∉ decoded.keys
      rw [hempty]
      exact List.not_mem_nil
    simp [hempty, CleanRun, hnone]
  · rw [if_neg hempty]
    cases hlookup : decoded.lookup doctestResultName with
    | none =>
        by_cases hclean : CleanRun decoded status <;> simp [hempty, hclean]
    | some obs =>
        by_cases hclean : CleanRun decoded status
        · have hpass := hclean.1 _ _ hlookup
          simp [hempty, hclean, hpass]
        · cases hfailing : obs.status.isFailure <;> simp [hempty, hclean, hfailing]

section Doctest

variable [External] {ctx : TargetCtx} {plan : TargetPlan}

/-- The action of a documentation test target with a single attempt. -/
theorem doctest_action_iff {path : List Nat} {repeatIndex : Nat} {memoryMax : CgroupMemoryMax}
    {response : ExecuteResponse2} {action : CompletedAction} {finished : List FinishedTest}
    (hwhole : plan.translator.listingStrategy.isWholeTarget = true)
    (hretry : attemptBound ctx plan ≤ 1)
    (hmax : cgroupMemoryMaxForAction ctx.config.cgroupMemoryMax
      ctx.config.cgroupMemoryMaxOverrides plan.spec.display [doctestResultName] = .ok memoryMax)
    (hcall : ctx.orch.execute2 path 0 = .ok response)
    (hcompleted : decodeResponse response = .completed action)
    (hmarkers : parseResourceFailures action.stderr
      (testingToken ctx plan (.explicit [doctestResultName])) = [])
    (hfinished : (executeTestAction ctx plan path (.explicit [doctestResultName])
      [doctestResultName] repeatIndex 0 MemberTables.empty).finished = .ok finished) :
    ∃ test, finished = [test] ∧ test.testId.name = doctestResultName ∧
      ((test.NonFailing ↔
          CleanRun (plan.translator.parseResults action.stdout action.stderr) action.status) ↔
        SyntheticFollows (plan.translator.parseResults action.stdout action.stderr)
          action.status) := by
  have hclassified : classifyResponse ctx plan [doctestResultName]
      (testingToken ctx plan (.explicit [doctestResultName])) (ctx.orch.execute2 path 0) =
      some (.observed (observedGroup
        (plan.translator.parseResults action.stdout action.stderr) action)) := by
    rw [hcall]
    simp only [classifyResponse, hcompleted, classifyCompleted, hmarkers]
    rfl
  have hindex : ctx.profile.addU32 0 0 = .ok 0 := BuildProfile.add_u32_of_lt _ (by decide)
  have houtcome : (runGroup ctx plan path (.explicit [doctestResultName]) [doctestResultName]
      repeatIndex 0 0).outcome = .ok (.observed (observedGroup
        (plan.translator.parseResults action.stdout action.stderr) action)) := by
    rw [run_group_of_answer hindex hmax hclassified]
  have hsummaries := execute_single_attempt hretry houtcome (by simp [GroupOutcome.disposition])
    hfinished
  obtain ⟨test, hfinishedTest, hsummary⟩ := List.map_eq_singleton_iff.mp hsummaries
  refine ⟨test, hfinishedTest, congrArg Summary.name hsummary, ?_⟩
  rw [hwhole] at hsummary
  rw [← synthetic_follows_iff, ← synthetic_non_failing_iff _ _ hsummary]
  rfl

/-- The plan of a documentation test target uses the documentation test translator. -/
theorem derive_doctest (hplan : TargetPlan.derive plan.spec ctx.config = .ok plan)
    (htype : plan.spec.testType = "rust_doctest_v1") :
    plan.translator = doctestTranslator ctx.config := by
  unfold TargetPlan.derive at hplan
  rw [htype] at hplan
  exact congrArg TargetPlan.translator (Except.ok.inj hplan).symm

/-- The synthetic test of a target that cannot tell results apart is batched alone. -/
theorem build_batches_singleton {target name : String} {targetMode : Option BatchMode}
    {batches : List (TestSelection String)}
    (h : buildBatches target [syntheticTest name] ctx.config ctx.estimates ctx.profile
      .singletonOnly targetMode = .ok batches) :
    batches = [.explicit [name]] := by
  have hmode : effectiveBatchMode ctx.config .singletonOnly targetMode = .perTest := by
    unfold effectiveBatchMode
    split <;> rfl
  unfold buildBatches at h
  rw [hmode] at h
  cases h
  rfl

/-- The result that a documentation test target without retries reports follows its observations
and its exit code exactly on the outputs of `SyntheticFollows`. -/
theorem doctest_result_iff {specProto : ExternalRunnerSpec} {task : ActionTask}
    {response : ExecuteResponse2} {action : CompletedAction} {finished : List FinishedTest}
    (hspec : TargetSpec.fromProto specProto = .ok plan.spec)
    (hplan : TargetPlan.derive plan.spec ctx.config = .ok plan)
    (htype : plan.spec.testType = "rust_doctest_v1")
    (hretry : attemptBound ctx plan ≤ 1)
    (htask : task ∈ (runTarget ctx specProto).actions)
    (hcall : ctx.orch.execute2 [0, task.repeatIndex] 0 = .ok response)
    (hcompleted : decodeResponse response = .completed action)
    (hmarkers : parseResourceFailures action.stderr
      (testingToken ctx plan (.explicit [doctestResultName])) = [])
    (hfinished : task.run.finished = .ok finished) :
    ∃ test, finished = [test] ∧ test.testId.name = doctestResultName ∧
      ((test.NonFailing ↔
          CleanRun (plan.translator.parseResults action.stdout action.stderr) action.status) ↔
        SyntheticFollows (plan.translator.parseResults action.stdout action.stderr)
          action.status) := by
  obtain ⟨other, tests, batches, hexecutes, hnonempty, hmem⟩ := executes_of_mem_actions ctx htask
  -- The plan of the action is the one that the specification gives.
  have hsame : other = plan := by
    have hspecs : other.spec = plan.spec := Except.ok.inj (hexecutes.spec_ok.symm.trans hspec)
    have hplans := hexecutes.plan_ok
    rw [hspecs, hplan] at hplans
    exact (Except.ok.inj hplans).symm
  subst hsame
  have htranslator := derive_doctest hplan htype
  have hlisting := hexecutes.listing
  unfold ListingSucceeds at hlisting
  rw [htranslator] at hlisting
  have htests : tests = [syntheticTest doctestResultName] := hlisting
  subst htests
  have hbatches := hexecutes.batches_ok
  rw [htranslator] at hbatches
  have hkept : keptTests ctx other [syntheticTest doctestResultName] =
      [syntheticTest doctestResultName] := by
    have hpos := List.length_pos_of_ne_nil hnonempty
    exact (kept_sublist ctx other [syntheticTest doctestResultName]).eq_of_length_le hpos
  rw [hkept] at hbatches hmem
  -- One synthetic test makes one batch, so every action is about it.
  have hbatch := build_batches_singleton hbatches
  rw [hbatch] at hmem
  obtain ⟨repeatIndex, hrepeat, rfl⟩ : ∃ repeatIndex, repeatIndex < other.repetition.count ∧
      task =
        { selection := .explicit [doctestResultName]
          expectedMembers := [doctestResultName]
          repeatIndex
          run := executeTestAction ctx other [0, repeatIndex] (.explicit [doctestResultName])
            [doctestResultName] repeatIndex 0 MemberTables.empty } := by
    obtain ⟨⟨batch, batchIndex⟩, hbatchMem, htaskMem⟩ := List.mem_flatMap.mp hmem
    obtain ⟨repeatIndex, hrepeat, rfl⟩ := List.mem_map.mp htaskMem
    cases List.mem_singleton.mp hbatchMem
    exact ⟨repeatIndex, List.mem_range.mp hrepeat, rfl⟩
  exact doctest_action_iff (by rw [htranslator]; rfl) hretry
    (override_free_of_valid hexecutes.overrides fun hbig => by
      rw [htype] at hbig; exact absurd hbig.1 (by decide)) hcall hcompleted
    hmarkers hfinished

end Doctest

/-- A documentation test run whose only test fails is reported as failing. -/
theorem failing_doctest_run_fails :
    letI := External.inert
    let ctx := TargetCtx.textFormats
      (.always (.finished 101 "test src/lib.rs - f (line 1) ... FAILED\n"))
    ∃ task ∈ (runTarget ctx (.plain "rust_doctest_v1" [])).actions, ∃ test,
      task.run.finished = .ok [test] ∧ ¬test.NonFailing := by
  let := External.inert
  intro ctx
  let plan := TargetPlan.plain "rust_doctest_v1" [] (doctestTranslator ctx.config) ctx.config
  obtain ⟨task, htask, hrepeat, hreturns⟩ : ∃ task,
      (runTarget ctx (.plain "rust_doctest_v1" [])).actions = [task] ∧ task.repeatIndex = 0 ∧
      task.run.finished.toOption.isSome = true :=
    ⟨_, rfl, rfl, by decide +kernel⟩
  have hmem : task ∈ (runTarget ctx (.plain "rust_doctest_v1" [])).actions := by
    rw [htask]
    exact List.mem_singleton_self task
  have hspec : TargetSpec.fromProto (.plain "rust_doctest_v1" []) = .ok plan.spec := rfl
  cases hfinished : task.run.finished with
  | error message => rw [hfinished] at hreturns; cases hreturns
  | ok finished =>
      obtain ⟨test, rfl, -, hiff⟩ := doctest_result_iff hspec rfl rfl (by decide) hmem
        (by rw [hrepeat]; rfl) rfl rfl hfinished
      have hunclean : ∀ decoded, ¬CleanRun decoded (.finished 101) := fun decoded hclean => by
        cases hclean.2
      refine ⟨task, hmem, test, hfinished, fun hpassing => hunclean _ ((hiff.mpr ?_).mp hpassing)⟩
      refine .inr (.inl ⟨hunclean _, fun obs hobs => ?_⟩)
      -- The only observation has a name of its own.
      have hdecoded : plan.translator.parseResults
          (Text.bytes "test src/lib.rs - f (line 1) ... FAILED\n") [] =
            AList.insert "src/lib.rs - f (line 1)" ⟨.fail, "", none⟩ ∅ :=
        AList.ext (by decide +kernel)
      have hnone : AList.lookup doctestResultName (plan.translator.parseResults
          (Text.bytes "test src/lib.rs - f (line 1) ... FAILED\n") []) = none := by
        rw [hdecoded, AList.lookup_insert_ne (by decide)]
        rfl
      exact absurd (hnone.symm.trans hobs) nofun

/-- A documentation test run whose only test is reported as ok and that exits with 0 is
reported as a fatal failure without a terminal result. -/
theorem passing_doctest_run_fails :
    letI := External.inert
    let ctx := TargetCtx.textFormats (.always (.finished 0 "test src/lib.rs - f (line 1) ... ok\n"))
    let plan := TargetPlan.plain "rust_doctest_v1" [] (doctestTranslator ctx.config) ctx.config
    attemptBound ctx plan ≤ 1 ∧
      CleanRun (plan.translator.parseResults
        (Text.bytes "test src/lib.rs - f (line 1) ... ok\n") []) (.finished 0) ∧
      ((runTarget ctx (.plain "rust_doctest_v1" [])).finishedTests.map fun test =>
          (test.testId.name, test.status, test.integrity)) =
        [(doctestResultName, .fatal, .missingTerminalResult)] := by
  let := External.inert
  intro ctx plan
  refine ⟨by decide, ⟨?_, rfl⟩, by decide +kernel⟩
  have hdecoded : plan.translator.parseResults
      (Text.bytes "test src/lib.rs - f (line 1) ... ok\n") [] =
        AList.insert "src/lib.rs - f (line 1)" ⟨.pass, "", none⟩ ∅ :=
    AList.ext (by decide +kernel)
  rw [hdecoded]
  intro name obs hobs
  by_cases hname : name = "src/lib.rs - f (line 1)"
  · subst hname
    rw [AList.lookup_insert] at hobs
    cases hobs
    rfl
  · rw [AList.lookup_insert_ne hname] at hobs
    cases hobs

end Quokka
