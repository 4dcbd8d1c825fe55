import Quokka.Scheduler.Attempts

/-!
# When a failed process fails a member

The process outcome of a completed action is consulted only for members without a decoded
result. So an action whose output reports every requested member as non-failing is all green,
whatever its exit code. `failed_process_fails_member_iff` says exactly when a process that did
not exit with 0 fails some member.
-/

namespace Quokka

/-- The attempt gives some member a failing status. -/
def FailsSomeMember (isWholeTarget : Bool) (expectedMembers names : List String)
    (outcome : GroupOutcome) : Prop :=
  ∃ entry ∈ memberResults isWholeTarget expectedMembers names outcome,
    entry.2.status.isFailure = true

/-! ## Resource markers -/

/-- An action memory failure, or a failing result for some member. -/
def MarkerState.Marked (names : List String) (state : MarkerState) : Prop :=
  state.actionOom.isSome = true ∨
    ∃ name ∈ names, ∃ obs, state.observations.lookup name = some obs ∧
      obs.status.isFailure = true

section Markers

variable {granularity : CgroupGranularity} {names : List String} {action : CompletedAction}

/-- A resource marker that fails the group gives it a failing status. -/
theorem apply_marker_error {state : MarkerState} {marker : ResourceFailure}
    {failure : FailedGroup}
    (h : applyMarker granularity names action state marker = .error failure) :
    failure.status.isFailure = true := by
  have hlogical : ∀ {status index details},
      applyLogicalMarker granularity names action status index details state = .error failure →
        failure.status.isFailure = true := by
    intro status index details h
    unfold applyLogicalMarker at h
    split at h
    · cases h; rfl
    split at h
    · cases h; rfl
    · cases h
  cases marker with
  | logicalTimeout index details => exact hlogical h
  | logicalOom index details => exact hlogical h
  | actionTimeout details =>
      simp only [applyMarker] at h
      split at h
      · cases h; rfl
      · cases h; rfl
  | actionOom details =>
      simp only [applyMarker] at h
      split at h
      · cases h; rfl
      · cases h
  | setup details => cases h; rfl
  | malformed details => cases h; rfl

/-- A resource marker that does not fail the group marks it. -/
theorem apply_marker_ok {state next : MarkerState} {marker : ResourceFailure}
    (h : applyMarker granularity names action state marker = .ok next) : next.Marked names := by
  have hlogical : ∀ {status index details}, status.isFailure = true →
      applyLogicalMarker granularity names action status index details state = .ok next →
        next.Marked names := by
    intro status index details hstatus h
    unfold applyLogicalMarker at h
    split at h
    · cases h
    split at h
    · cases h
    case h_2 name hname =>
      cases h
      exact .inr ⟨name, List.mem_of_getElem? hname, _, AList.lookup_insert _, hstatus⟩
  cases marker with
  | logicalTimeout index details => exact hlogical rfl h
  | logicalOom index details => exact hlogical rfl h
  | actionTimeout details =>
      simp only [applyMarker] at h
      split at h
      · cases h
      · cases h
  | actionOom details =>
      simp only [applyMarker] at h
      split at h
      · cases h
      · cases h; exact .inl rfl
  | setup details => cases h
  | malformed details => cases h

/-- Resource markers that fail the group give it a failing status. -/
theorem apply_markers_error {markers : List ResourceFailure} {state : MarkerState}
    {failure : FailedGroup}
    (h : markers.foldlM (applyMarker granularity names action) state = .error failure) :
    failure.status.isFailure = true := by
  induction markers generalizing state with
  | nil => cases h
  | cons marker markers ih =>
      rw [List.foldlM_cons] at h
      cases hfirst : applyMarker granularity names action state marker with
      | error first =>
          rw [hfirst] at h
          cases h
          exact apply_marker_error hfirst
      | ok next =>
          rw [hfirst] at h
          exact ih h

/-- Resource markers that do not fail the group mark it, if there are any. -/
theorem apply_markers_ok {markers : List ResourceFailure} {state final : MarkerState}
    (h : markers.foldlM (applyMarker granularity names action) state = .ok final)
    (hne : markers ≠ []) : final.Marked names := by
  induction markers generalizing state with
  | nil => exact absurd rfl hne
  | cons marker markers ih =>
      rw [List.foldlM_cons] at h
      cases hfirst : applyMarker granularity names action state marker with
      | error first => rw [hfirst] at h; cases h
      | ok next =>
          rw [hfirst] at h
          cases markers with
          | nil => cases h; exact apply_marker_ok hfirst
          | cons second markers => exact ih h (List.cons_ne_nil _ _)

end Markers

/-! ## Members -/

/-- A member without a result of its own fails in a per-test group. -/
theorem absent_name_verdict_failing (raw : ProcessOutcome) (singleton : Bool)
    (stdout stderr : List UInt8) :
    (absentNameVerdict raw false singleton stdout stderr).1.isFailure = true := by
  unfold absentNameVerdict
  cases raw with
  | timedOut after => rfl
  | finished exitCode =>
      by_cases hzero : exitCode = 0
      · simp [hzero, TestVerdict.isFailure]
      · cases singleton <;> simp [hzero, TestVerdict.isFailure]

/-- A member of a per-test group fails on an action memory failure and unless its own result is
not a failure. -/
theorem member_result_failing_iff (group : ObservedGroup) (singleton : Bool) (name : String) :
    (group.memberResult false singleton name).status.isFailure = true ↔
      group.actionOom.isSome = true ∨
        ∀ obs, group.observations.lookup name = some obs → obs.status.isFailure = true := by
  unfold ObservedGroup.memberResult
  cases hoom : group.actionOom with
  | some details => cases singleton <;> simp [TestVerdict.isFailure]
  | none =>
      cases hlookup : group.observations.lookup name with
      | some obs => simp
      | none => simp [absent_name_verdict_failing]

section Result

variable {ctx : TargetCtx} {plan : TargetPlan} {names expectedMembers : List String}
  {token : ResourceMarkerToken} {action : CompletedAction}

/-- A completed action fails a member if it carries a resource marker and has a member, or some
member has no decoded result or a failing one. -/
theorem fails_some_member_iff
    (hperTest : plan.translator.listingStrategy.isWholeTarget = false) :
    FailsSomeMember plan.translator.listingStrategy.isWholeTarget expectedMembers names
        (classifyCompleted ctx.config.cgroupGranularity names action plan.translator token) ↔
      ∃ name ∈ names, parseResourceFailures action.stderr token ≠ [] ∨
        ∀ obs, (plan.translator.parseResults action.stdout action.stderr).lookup name =
          some obs → obs.status.isFailure = true := by
  rw [hperTest]
  unfold FailsSomeMember classifyCompleted
  dsimp only
  cases hmarkers : parseResourceFailures action.stderr token with
  | nil =>
      simp only [List.foldlM_nil, pure, Except.pure, memberResults, ObservedGroup.testNames,
        Bool.false_and, Bool.false_eq_true, if_false, List.mem_map, exists_exists_and_eq_and,
        member_result_failing_iff, Option.isSome_none, false_or, ne_eq, not_true_eq_false]
  | cons marker markers =>
      simp only [ne_eq, reduceCtorEq, not_false_eq_true, true_or, and_true]
      cases hfold : (marker :: markers).foldlM
          (applyMarker ctx.config.cgroupGranularity names action)
          ⟨plan.translator.parseResults action.stdout action.stderr, none⟩ with
      | error failure =>
          have hfailing := apply_markers_error hfold
          simp [memberResults, FailedGroup.memberResult, hfailing]
      | ok final =>
          have hmarked := apply_markers_ok hfold (List.cons_ne_nil _ _)
          simp only [memberResults, ObservedGroup.testNames, Bool.false_and, Bool.false_eq_true,
            if_false, List.mem_map, exists_exists_and_eq_and, member_result_failing_iff]
          constructor
          · rintro ⟨name, hname, -⟩
            exact ⟨name, hname⟩
          · rintro ⟨name, hname⟩
            rcases hmarked with hoom | ⟨member, hmember, obs, hlookup, hfailing⟩
            · exact ⟨name, hname, .inl hoom⟩
            · refine ⟨member, hmember, .inr ?_⟩
              intro other hother
              rw [hlookup] at hother
              cases hother
              exact hfailing

/-- A process that did not exit with 0 fails some requested member of a per-test group exactly if
its standard error carries a resource marker or its output does not report every requested
member as non-failing. -/
theorem failed_process_fails_member_iff {response : ExecuteResponse2}
    (hperTest : plan.translator.listingStrategy.isWholeTarget = false)
    (hcompleted : decodeResponse response = .completed action) :
    ∃ outcome, classifyResponse ctx plan names token (.ok response) = some outcome ∧
      ((action.status ≠ .finished 0 →
          FailsSomeMember plan.translator.listingStrategy.isWholeTarget expectedMembers names
            outcome) ↔
        action.status = .finished 0 ∨
          ∃ name ∈ names, parseResourceFailures action.stderr token ≠ [] ∨
            ∀ obs, (plan.translator.parseResults action.stdout action.stderr).lookup name =
              some obs → obs.status.isFailure = true) := by
  refine ⟨classifyCompleted ctx.config.cgroupGranularity names action plan.translator token,
    by simp [classifyResponse, hcompleted], ?_⟩
  rw [fails_some_member_iff hperTest]
  by_cases hzero : action.status = .finished 0
  · simp [hzero]
  · simp [hzero]

end Result

/-- A failing line of a process that exited with 101 fails its member. -/
theorem failing_line_fails_member :
    letI := External.inert
    let ctx := TargetCtx.textFormats
      (.always (.finished 101 "test a ... ok\ntest b ... FAILED\n"))
    let plan := TargetPlan.plain "rust" [] (libtestTranslator ctx.config) ctx.config
    ∃ outcome,
      classifyResponse ctx plan ["a", "b"] (testingToken ctx plan (.explicit ["a", "b"]))
        (ctx.orch.execute2 [0, 0] 0) = some outcome ∧
      FailsSomeMember false ["a", "b"] ["a", "b"] outcome := by
  let := External.inert
  intro ctx plan
  obtain ⟨outcome, houtcome, hiff⟩ := @failed_process_fails_member_iff ctx plan ["a", "b"]
    ["a", "b"] (testingToken ctx plan (.explicit ["a", "b"])) _
    (.finished 101 "test a ... ok\ntest b ... FAILED\n") rfl rfl
  refine ⟨outcome, houtcome, hiff.mpr (.inr ⟨"b", by decide, .inr ?_⟩) (by decide)⟩
  intro obs hobs
  have hfailed : (plan.translator.parseResults
      (Text.bytes "test a ... ok\ntest b ... FAILED\n") []).lookup "b" =
        some ⟨.fail, "", none⟩ := by decide +kernel
  cases hobs.symm.trans hfailed
  rfl

/-- A process that reports its test as ok and exits with 101 turns the test into a complete
pass. -/
theorem crashed_process_all_green :
    letI := External.inert
    let response := ExecuteResponse2.finished 101 "test a ... ok\n"
    let ctx := TargetCtx.textFormats (.always response)
    let plan := TargetPlan.plain "rust" [] (libtestTranslator ctx.config) ctx.config
    (∃ action, decodeResponse response = .completed action ∧ action.status = .finished 101) ∧
      (∃ outcome,
        classifyResponse ctx plan ["a"] (testingToken ctx plan (.explicit ["a"]))
          (.ok response) = some outcome ∧
        ¬FailsSomeMember plan.translator.listingStrategy.isWholeTarget ["a"] ["a"] outcome) ∧
      ((executeTestAction ctx plan [0, 0] (.explicit ["a"]) ["a"] 0 0
          MemberTables.empty).finished.map fun finished =>
            finished.map fun test => (test.testId.name, test.status, test.integrity)) =
        .ok [("a", .pass, .complete)] := by
  let := External.inert
  intro response ctx plan
  refine ⟨⟨_, rfl, rfl⟩, ⟨_, rfl, ?_⟩, by decide +kernel⟩
  unfold FailsSomeMember
  decide +kernel

end Quokka
