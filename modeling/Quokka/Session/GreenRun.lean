import Quokka.Session.Safety

/-!
# What buck2 is told

What a session has reported when it ends. If the reporter finished and no target task panicked,
the results reported to buck2 are those of the received targets, none lost and none twice
(`session_reports_each_result_once`). If the exit code is 0, this holds by itself, and every
received target was listed and ran every test of its shard, in every repetition, without a
failure that counts (`green_session_sound`).

`steps_reported_eq` is the reporter's part: it reports what it consumes, in that order.
`green_target` is the target's part: a target that sends no message that fails the run has
reported all its tests.
-/

namespace Quokka

/-! ## The reporter -/

section Reporter

variable [HashKey] {profile : BuildProfile} {io : ReporterIo}

/-- One finished test is reported. -/
theorem report_finished_eq {state next : ReporterState} {finished : FinishedTest}
    (h : reportFinished profile io state finished = .ok next) :
    next.reported = state.reported ++ [finished.result] := by
  have hcounted : (countFinished (writeCiTest io state) finished).reported =
      (writeCiTest io state).reported := by
    unfold countFinished
    dsimp only
    split <;> rfl
  rw [(record_observations_same h).reported_eq, reportResult, hcounted,
    (write_ci_test_same state).reported_eq]

/-- A batch is reported in its order. -/
theorem batch_reported_eq {batch : List FinishedTest} {state next : ReporterState}
    (h : batch.foldlM (reportFinished profile io) state = .ok next) :
    next.reported = state.reported ++ batch.map FinishedTest.result := by
  induction batch generalizing state with
  | nil => cases h; simp
  | cons finished batch ih =>
      obtain ⟨middle, hfirst, hrest⟩ := Except.foldlM_cons_eq_ok.mp h
      rw [ih hrest, report_finished_eq hfirst, List.append_assoc, List.map_cons]
      rfl

/-- The finished tests of a message are reported. -/
theorem step_reported_eq {state next : ReporterState} {message : ReporterMessage}
    (h : reporterStep profile io state message = .ok next) :
    next.reported = state.reported ++ message.finishedTests.map FinishedTest.result := by
  cases message with
  | finished batch => exact batch_reported_eq h
  | discovered tests => cases h; simp [ReporterMessage.finishedTests]
  | targetDropped reason => cases h; simp [ReporterMessage.finishedTests]

/-- What is reported is what the messages carry. -/
theorem steps_reported_eq {messages : List ReporterMessage} {state final : ReporterState}
    (h : messages.foldlM (reporterStep profile io) state = .ok final) :
    final.reported = state.reported ++ (finishedAmong messages).map FinishedTest.result := by
  induction messages generalizing state with
  | nil => cases h; simp [finishedAmong]
  | cons message messages ih =>
      obtain ⟨middle, hfirst, hrest⟩ := Except.foldlM_cons_eq_ok.mp h
      rw [ih hrest, step_reported_eq hfirst]
      simp [finishedAmong]

/-- What the reporter has reported in the end. -/
theorem reporter_task_reported_eq {context : SessionContext} {db : DurationDb}
    {messages : List ReporterMessage} {final : ReporterState}
    (h : reporterTask profile io context db messages = .ok final) :
    final.reported = (finishedAmong messages).map FinishedTest.result := by
  obtain ⟨last, hlast, rfl⟩ := Except.map_eq_ok.mp h
  have hstart : (ReporterState.start io db).reported = [] :=
    List.length_eq_zero_iff.mp (start_reckoned db).reported_length
  rw [(finish_session_same context last).reported_eq, steps_reported_eq hlast, hstart,
    List.nil_append]

end Reporter

/-- A message that fails the run does so. -/
theorem fails_by_of_message {io : ReporterIo} {messages : List ReporterMessage}
    {message : ReporterMessage} (hmem : message ∈ messages) (hfails : message.FailsRun) :
    FailsBy io (finishedAmong messages) (droppedAmong messages) := by
  cases message with
  | finished batch =>
      obtain ⟨finished, hfinished, hfailure⟩ := hfails
      exact .inr (.inl ⟨finished, List.mem_flatMap.mpr ⟨_, hmem, hfinished⟩, hfailure⟩)
  | discovered tests => exact hfails.elim
  | targetDropped reason => exact .inl (List.countP_pos_iff.mpr ⟨_, hmem, rfl⟩)

/-! ## The targets -/

section Targets

variable [External] (ctx : TargetCtx)

/-- A target that was listed and, unless the run only lists, ran every test of its shard in every
repetition, without a failure that counts. -/
structure GreenTarget (specProto : ExternalRunnerSpec) (plan : TargetPlan)
    (tests : List TestCase) : Prop where
  spec_ok : TargetSpec.fromProto specProto = .ok plan.spec
  plan_ok : TargetPlan.derive plan.spec ctx.config = .ok plan
  listing : ListingSucceeds ctx plan tests
  overrides : validateCgroupMemoryOverrides plan ctx.config tests = .ok ()
  ran : ctx.config.libtestListOnly = false →
    ((runTarget ctx specProto).finishedTests.map FinishedTest.key).Perm
      ((keptTests ctx plan tests).flatMap fun test =>
        (List.range plan.repetition.count).map fun repeatIndex => (test.name, repeatIndex))
  no_failure : ∀ finished ∈ (runTarget ctx specProto).finishedTests,
    finished.disposition ≠ .failure

variable {ctx}

omit [External] in
/-- A failure of the target itself that is reported after something fails the run, whatever the
target's labels. -/
theorem target_failure_fails_run (ctx : TargetCtx) (run : TargetRun) (spec : TargetSpec)
    (quarantined : Bool) (repetition : RepeatKind) (failure : TargetFailure) :
    ∃ message ∈ (run.thenReport
        (reportTargetFailureForSpec ctx spec quarantined repetition failure)).messages,
      message.FailsRun :=
  ⟨_, List.mem_append_right _ (List.mem_singleton_self _), _, List.mem_singleton_self _, rfl⟩

/-- The batches of a target that sends no message that fails the run. -/
theorem batches_of_quiet {specProto : ExternalRunnerSpec} {plan : TargetPlan}
    {tests : List TestCase} (hspec : TargetSpec.fromProto specProto = .ok plan.spec)
    (hplan : TargetPlan.derive plan.spec ctx.config = .ok plan)
    (hlisting : ListingSucceeds ctx plan tests)
    (hoverrides : validateCgroupMemoryOverrides plan ctx.config tests = .ok ())
    (hlistOnly : ctx.config.libtestListOnly = false) (hkept : keptTests ctx plan tests ≠ [])
    (hquiet : ∀ message ∈ (runTarget ctx specProto).messages, ¬message.FailsRun) :
    ∃ batches, Executes ctx specProto plan tests batches := by
  cases hbatches : buildBatches plan.spec.display (keptTests ctx plan tests) ctx.config
      ctx.estimates ctx.profile plan.translator.parserCapability plan.batchMode with
  | ok batches => exact ⟨batches, hspec, hplan, hlisting, hoverrides, hlistOnly, hbatches⟩
  | error panic =>
      exfalso
      have hnonempty : (shardFilter plan.spec.display tests ctx.config).isEmpty = false := by
        simpa [keptTests] using hkept
      unfold keptTests at hbatches
      have hlisted : (runListed ctx plan tests).panicked = some panic := by
        simp [runListed, hnonempty, hlistOnly, runKept, hbatches]
      rw [run_target_listed ctx hspec hplan hlisting hoverrides] at hquiet
      simp only [catchPanic, hlisted] at hquiet
      obtain ⟨message, hmessage, hfails⟩ := target_failure_fails_run ctx _ plan.spec false
        plan.repetition ⟨.fatal, "target " ++ plan.spec.display ++ " panicked: " ++ panic⟩
      exact hquiet message hmessage hfails

/-- No action of a target panicked that sends no message that fails the run. -/
theorem actions_of_quiet {plan : TargetPlan} {kept : List TestCase}
    {batches : List (TestSelection String)}
    (hquiet : ∀ message ∈ (runBatches ctx plan kept batches).messages, ¬message.FailsRun) :
    (actionTasks ctx plan kept batches).any ActionTask.panicked = false := by
  by_contra hpanicked
  rw [Bool.not_eq_false] at hpanicked
  unfold runBatches at hquiet
  simp only [hpanicked, if_true] at hquiet
  obtain ⟨message, hmessage, hfails⟩ := target_failure_fails_run ctx _ plan.spec
    plan.quarantined plan.repetition ⟨.fatal, "a test action task panicked"⟩
  exact hquiet message hmessage hfails

/-- A target that executes its batches without a panic reports each kept test once in each
repetition. -/
theorem executed_keys_perm {specProto : ExternalRunnerSpec} {plan : TargetPlan}
    {tests : List TestCase} {batches : List (TestSelection String)}
    (h : Executes ctx specProto plan tests batches) (hkept : keptTests ctx plan tests ≠ [])
    (hquiet : ∀ message ∈ (runTarget ctx specProto).messages, ¬message.FailsRun) :
    ((runTarget ctx specProto).finishedTests.map FinishedTest.key).Perm
      ((keptTests ctx plan tests).flatMap fun test =>
        (List.range plan.repetition.count).map fun repeatIndex => (test.name, repeatIndex)) := by
  obtain ⟨-, hmessages⟩ := run_target_actions ctx h hkept
  have hnone := actions_of_quiet fun message hmessage =>
    hquiet message (by rw [hmessages]; exact List.mem_cons_of_mem _ hmessage)
  have hsent : (runTarget ctx specProto).finishedTests =
      (actionTasks ctx plan (keptTests ctx plan tests) batches).flatMap
        ActionTask.finishedTests := by
    rw [TargetRun.finishedTests, hmessages, ← finished_tests_of_tasks]
    simp [runBatches, hnone, discoveryMessage, ReporterMessage.finishedTests]
  rw [hsent, List.map_flatMap]
  refine (List.Perm.flatMap_left _ fun task htask => ?_).trans
    (task_members_perm ctx (build_batches_perm ctx h.batches_ok))
  exact task_keys_perm ctx htask (by simpa using List.any_eq_false.mp hnone task htask)

/-- A target that sends no message that fails the run is green. -/
theorem green_target {specProto : ExternalRunnerSpec}
    (hquiet : ∀ message ∈ (runTarget ctx specProto).messages, ¬message.FailsRun) :
    ∃ plan tests, GreenTarget ctx specProto plan tests := by
  have haccepted : Accepted ctx specProto := by
    by_contra hnot
    cases rejection_of_not_accepted ctx hnot with
    | dropped reason hrun =>
        rw [hrun] at hquiet
        exact hquiet _ (List.mem_singleton_self _) trivial
    | failed spec quarantined repetition failure requests hrun =>
        rw [hrun] at hquiet
        exact hquiet _ (List.mem_singleton_self _) ⟨_, List.mem_singleton_self _, rfl⟩
  obtain ⟨spec, plan, tests, hspec, hplan, hlisting, hoverrides⟩ := haccepted
  obtain rfl := derive_spec hplan
  refine ⟨plan, tests, hspec, hplan, hlisting, hoverrides, fun hlistOnly => ?_, ?_⟩
  · by_cases hkept : keptTests ctx plan tests = []
    · have hnone : (runTarget ctx specProto).messages = [] := by
        rw [run_target_listed ctx hspec hplan hlisting hoverrides]
        unfold keptTests at hkept
        simp [catchPanic, runListed, hkept]
      simp [hkept, TargetRun.finishedTests, hnone]
    · obtain ⟨batches, hexecutes⟩ :=
        batches_of_quiet hspec hplan hlisting hoverrides hlistOnly hkept hquiet
      exact executed_keys_perm hexecutes hkept hquiet
  · intro finished hfinished hfailure
    obtain ⟨message, hmessage, hmem⟩ := List.mem_flatMap.mp hfinished
    cases message with
    | finished batch => exact hquiet _ hmessage ⟨finished, hmem, hfailure⟩
    | discovered tests => cases hmem
    | targetDropped reason => cases hmem

end Targets

/-! ## The session -/

section Session

variable [External] (setup : SessionSetup)

/-- What the received targets report. -/
def targetsReport (specs : List ExternalRunnerSpec) : List FinishedTest :=
  specs.zipIdx.flatMap fun received =>
    (runTarget (setup.targetCtx received.2) received.1).finishedTests

variable {setup}

omit [External] in
theorem finished_among_append (first second : List ReporterMessage) :
    finishedAmong (first ++ second) = finishedAmong first ++ finishedAmong second :=
  List.flatMap_append

omit [External] in
/-- Lists that correspond give corresponding results. -/
theorem flat_map_perm_of_forall₂ {α β γ : Type} {f : α → List γ} {g : β → List γ} {xs : List α}
    {ys : List β} (h : List.Forall₂ (fun x y => (g y).Perm (f x)) xs ys) :
    (ys.flatMap g).Perm (xs.flatMap f) := by
  induction h with
  | nil => exact List.Perm.refl _
  | cons hhead htail ih =>
      rw [List.flatMap_cons, List.flatMap_cons]
      exact hhead.append ih

/-- Tasks that did not panic send what their targets report. -/
theorem sent_report_perm {specs : List ExternalRunnerSpec} {tasks : List TargetTask}
    (htasks : TasksOf setup specs tasks) (hquiet : ∀ task ∈ tasks, task.panicked = false) :
    (finishedAmong (sentMessages setup.config specs tasks)).Perm (targetsReport setup specs) := by
  have hmissing : ∀ targets : List String,
      finishedAmong (targets.map missingTargetMessage) = [] := by
    intro targets
    induction targets with
    | nil => rfl
    | cons target rest ih => exact ih
  have hmessages : List.Forall₂ (fun received task =>
      (task.messages.flatMap ReporterMessage.finishedTests).Perm
        (runTarget (setup.targetCtx received.2) received.1).finishedTests) specs.zipIdx tasks := by
    refine List.forall₂_iff_get.mpr ⟨htasks.length_eq, fun k hk htask => ?_⟩
    obtain ⟨unsent, hperm, hnone⟩ := (List.forall₂_iff_get.mp htasks).2 k hk htask
    rw [hnone (hquiet _ (List.get_mem _ _)), List.append_nil] at hperm
    exact hperm.flatMap_right _
  unfold sentMessages
  rw [finished_among_append]
  have hrest := flat_map_perm_of_forall₂ hmessages
  rw [← List.flatMap_assoc] at hrest
  exact (List.Perm.of_eq (congrArg (· ++ _) (hmissing _))).trans hrest

/-- If the reporter finished and no target task panicked, what has been reported when the session
ends is what the targets report that were received, up to the order: no result is lost or
reported twice, however the parties' steps were interleaved. -/
theorem session_reports_each_result_once (setup : SessionSetup) (events : List SessionEvent)
    (state : SessionState) (exitCode : Int) (final : ReporterState)
    (hreaches : Reaches setup events state) (hended : state.pc = .ended exitCode)
    (hfinished : state.reporter.finalState = some final)
    (hquiet : ∀ process ∈ state.targets, process.status ≠ .panicked) :
    final.reported.Perm
      ((targetsReport setup (receivedSpecs state.accepted)).map FinishedTest.result) := by
  have hvalid := valid_of_reaches hreaches
  unfold SessionState.Valid at hvalid
  cases hidle : setup.idleExit with
  | some idleExit =>
      rw [hidle] at hvalid
      rw [hvalid.no_reporter] at hfinished
      cases hfinished
  | none =>
      rw [hidle] at hvalid
      obtain ⟨hreceived, htasks, -, -⟩ := live_ended setup hidle hvalid hended
      have hdelivered := hvalid.delivered
      have hreporter : state.reporter = .finished final := by
        cases hat : state.reporter with
        | finished other => rw [hat] at hfinished; cases hfinished; rfl
        | _ => rw [hat] at hfinished; cases hfinished
      simp only [Delivered, hreporter] at hdelivered
      obtain ⟨hreporter, harrived, -⟩ := hdelivered
      have hscheduler := hvalid.scheduler
      simp only [SchedulerSent, hended] at hscheduler
      rw [all_sent_eq setup state hscheduler] at harrived
      rw [reporter_task_reported_eq hreporter, hreceived]
      refine ((harrived.flatMap_right _).trans (sent_report_perm htasks ?_)).map _
      intro task htask
      obtain ⟨process, hprocess, rfl⟩ := List.mem_map.mp htask
      simpa [TargetProcess.task] using hquiet process hprocess

/-- A session that runs targets and ends with exit code 0 has reported what its targets report,
every report was accepted, no override target was missing, and each target that was acknowledged
before the end of requests was listed and, unless the run only lists, ran every test of its shard
in every repetition without a failure that counts. -/
theorem green_session_sound (setup : SessionSetup) (events : List SessionEvent)
    (state : SessionState) (hreaches : Reaches setup events state)
    (hended : state.pc = .ended 0) (hruns : setup.idleExit = none) :
    ∃ final, reporterTask setup.profile setup.io setup.context setup.reporterDb state.arrived =
        .ok final ∧
      final.reported.Perm
        ((targetsReport setup (receivedSpecs state.accepted)).map FinishedTest.result) ∧
      (∀ k < final.reported.length, setup.io.reportTestResult k = none) ∧
      missingCgroupOverrideTargets setup.config
        (receivedOverrideTargets setup.config (receivedSpecs state.accepted)) = [] ∧
      ∀ received ∈ (receivedSpecs state.accepted).zipIdx, ∃ plan tests,
        GreenTarget (setup.targetCtx received.2) received.1 plan tests := by
  have hvalid := valid_of_reaches hreaches
  unfold SessionState.Valid at hvalid
  rw [hruns] at hvalid
  obtain ⟨hreceived, htasks, hexit, harrived⟩ := live_ended setup hruns hvalid hended
  rw [hreceived]
  obtain ⟨hhelp, husage⟩ := idle_exit_eq_none setup hruns
  have hok : ∀ panic, reporterTask setup.profile setup.io setup.context setup.reporterDb
      state.arrived ≠ .error panic := by
    intro panic hpanic
    unfold run sessionVerdict at hexit
    simp only [hhelp, husage, hpanic, ite_self] at hexit
    exact absurd hexit (by decide)
  have hsent : state.arrived.Perm (sentMessages setup.config state.received
      (state.targets.map TargetProcess.task)) := by
    obtain hsent | ⟨panic, hpanic⟩ := harrived
    · exact hsent
    · exact absurd hpanic (hok panic)
  obtain ⟨⟨final, hreporter, hpass⟩, hmissing, hquiet⟩ :=
    (run_eq_zero_iff hhelp husage hsent).mp hexit.symm
  have hreckoned := reporter_task_reckoned hreporter
  have hnot : ¬FailsBy setup.io (finishedAmong state.arrived) (droppedAmong state.arrived) := by
    intro hfails
    rw [hreckoned.verdict_iff.mpr hfails] at hpass
    cases hpass
  refine ⟨final, hreporter, ?_, fun k hk => ?_, hmissing, fun received hmem => green_target ?_⟩
  · rw [reporter_task_reported_eq hreporter]
    exact ((hsent.flatMap_right _).trans (sent_report_perm htasks hquiet)).map _
  · rw [hreckoned.reported_length] at hk
    by_contra hrejected
    exact hnot (.inr (.inr ⟨k, hk, Option.isSome_iff_ne_none.mpr hrejected⟩))
  · intro message hmessage hfails
    obtain ⟨k, hk, rfl⟩ := List.getElem_of_mem hmem
    have htask : k < (state.targets.map TargetProcess.task).length := by
      rw [← htasks.length_eq]
      exact hk
    obtain ⟨unsent, hperm, hnone⟩ := (List.forall₂_iff_get.mp htasks).2 k hk htask
    rw [hnone (hquiet _ (List.get_mem _ _)), List.append_nil] at hperm
    have harrives : message ∈ state.arrived :=
      hsent.mem_iff.mpr (List.mem_append_right _ (List.mem_flatMap.mpr
        ⟨_, List.get_mem _ ⟨k, htask⟩, hperm.mem_iff.mpr hmessage⟩))
    exact hnot (fails_by_of_message harrives hfails)

end Session

/-- A session with the text formats whose targets list one test, which passes. -/
def SessionSetup.onePassingTest : SessionSetup :=
  { SessionSetup.withoutFlags with
    config := { RunnerConfig.withoutFlags with listFormat := .text, runFormat := .text }
    orch := fun _ => .listingThen (.finished 0 "a: test\n") (.finished 0 "test a ... ok\n") }

/-- Steps of a session with one target that lists one test, up to its end. -/
def oneTestSession : List SessionEvent :=
  [.request (.externalRunnerSpec (some (.plain "rust" []))), .request .endOfTestRequests,
    .receive, .receive, .missingSent, .targetSend 0 0, .reporterReceive, .targetSend 0 0,
    .targetFinish 0, .joinTargets, .reporterReceive, .reporterFinish, .awaitReporter,
    .endOfTestResults]

/-- The result of the passing test is reported once. -/
theorem passing_test_reported_once :
    letI := External.inert
    ∃ (state : SessionState) (final : ReporterState),
      Reaches SessionSetup.onePassingTest oneTestSession state ∧ final.reported.length = 1 ∧
        final.reported.Perm ((targetsReport SessionSetup.onePassingTest
          (receivedSpecs state.accepted)).map FinishedTest.result) := by
  let := External.inert
  have hends : (Runs.after (sessionStep SessionSetup.onePassingTest)
      (SessionState.start SessionSetup.onePassingTest) oneTestSession).any (fun state =>
        decide (state.pc = .ended 0) &&
          (state.reporter.finalState.any fun final => final.reported.length == 1) &&
          state.targets.all fun process => decide (process.status ≠ .panicked)) = true := by
    decide +kernel
  obtain ⟨state, hreaches, hstate⟩ := (Option.any_eq_true _ _).mp hends
  simp only [Bool.and_eq_true, decide_eq_true_eq, List.all_eq_true] at hstate
  obtain ⟨⟨hended, hfinished⟩, hquiet⟩ := hstate
  obtain ⟨final, hfinal, hlength⟩ := (Option.any_eq_true _ _).mp hfinished
  exact ⟨state, final, hreaches, by simpa using hlength,
    session_reports_each_result_once _ _ _ _ _ hreaches hended hfinal hquiet⟩

/-- The session with the passing test is green, and its target has run that test. -/
theorem passing_test_session_sound :
    letI := External.inert
    ∃ state : SessionState, Reaches SessionSetup.onePassingTest oneTestSession state ∧
      ∀ received ∈ (receivedSpecs state.accepted).zipIdx, ∃ plan tests,
        GreenTarget (SessionSetup.onePassingTest.targetCtx received.2) received.1 plan tests := by
  let := External.inert
  have hends : (Runs.after (sessionStep SessionSetup.onePassingTest)
      (SessionState.start SessionSetup.onePassingTest) oneTestSession).any (fun state =>
        decide (state.pc = .ended 0)) = true := by
    decide +kernel
  obtain ⟨state, hreaches, hended⟩ := (Option.any_eq_true _ _).mp hends
  rw [decide_eq_true_eq] at hended
  obtain ⟨_, -, -, -, -, hgreen⟩ := green_session_sound _ _ state hreaches hended rfl
  exact ⟨state, hreaches, hgreen⟩

end Quokka
