import Quokka.DurationDb.Counters
import Quokka.Scheduler.RetryBudget
import Quokka.Scheduler.VerdictFold

/-!
# How often an action is executed

Every pass of the retry loop spends a failure retry or a timeout rerun, so the loop of a batch
has at most as many group executions as its members are allowed attempts, and two more for
timeouts (`Spent`). Every group execution after the first asks only for members whose best
result so far is a failure (`Narrowed`). The isolation runs of failing members do the same for
one member each, starting from its best result (`retries_are_narrowed_and_bounded`).

Panics are described by `OverflowOnly`: a computation can panic only because an addition does not
fit.
-/

namespace Quokka

section Action

variable [External] (ctx : TargetCtx) (plan : TargetPlan)

theorem overflow_only_allowed_attempts (name : String) :
    OverflowOnly ctx.profile (allowedAttempts ctx plan name) := by
  unfold allowedAttempts isFlake
  refine Except.FailsOnly.bind ?_ fun _ _ => Except.fails_only_ok _
  exact (ctx.estimates.overflow_only_flake_of none _).bind fun _ _ => Except.fails_only_ok _

theorem overflow_only_retry_pending (failureAttempt : Nat) (names : List String) :
    OverflowOnly ctx.profile (retryPending ctx plan failureAttempt names) := by
  induction names with
  | nil => exact Except.fails_only_ok _
  | cons name rest ih =>
      unfold retryPending
      exact (overflow_only_allowed_attempts ctx plan name).bind fun _ _ =>
        ih.bind fun _ _ => Except.fails_only_ok _

theorem overflow_only_make_finished (path : List Nat) (logIndex : Nat) (baseName : String)
    (repeatIndex : Nat) (outcome : TestOutcome) (observations : List DbObservation)
    (history : List AttemptObservation) :
    OverflowOnly ctx.profile (makeFinished ctx plan path logIndex baseName repeatIndex outcome
      observations history) := by
  refine Except.FailsOnly.map ?_ _
  unfold finalDetails
  dsimp only
  split
  · refine Except.FailsOnly.map ?_ _
    exact (ctx.estimates.overflow_only_flake_of none _).bind fun _ _ => Except.fails_only_ok _
  · exact Except.fails_only_ok _

theorem overflow_only_report_members (path : List Nat) (repeatIndex logIndex : Nat)
    (members : MemberTables) (names : List String) :
    OverflowOnly ctx.profile (reportMembers ctx plan path repeatIndex logIndex members names) := by
  induction names generalizing logIndex members with
  | nil => exact Except.fails_only_ok _
  | cons name rest ih =>
      unfold reportMembers
      exact (overflow_only_make_finished ctx plan _ _ _ _ _ _ _).bind fun _ _ =>
        (ih _ _).bind fun _ _ => Except.fails_only_ok _

/-- A group execution panics only because of its attempt index. -/
theorem overflow_only_run_group (path : List Nat) (selection : TestSelection String)
    (names : List String) (repeatIndex : Nat) (attemptIndex : UInt32) (firstCall : Nat) :
    OverflowOnly ctx.profile
      (runGroup ctx plan path selection names repeatIndex attemptIndex firstCall).outcome := by
  refine (infraLoop ctx plan path selection names repeatIndex attemptIndex
    firstCall).run_invariant (fun _ => True) (fun exit => OverflowOnly ctx.profile exit.outcome)
    (fun _ _ _ _ => trivial) ?_ ⟨0, []⟩ trivial
  intro state exit _ hbody
  cases infra_body_leave _ _ _ _ _ _ _ _ hbody with
  | overflowed hindex =>
      intro other herror
      cases herror
      exact overflow_only_add_u32 _ _ _ hindex
  | rejected => exact Except.fails_only_ok _
  | answered => exact Except.fails_only_ok _

/-- The retry loop panics only because of an addition. -/
theorem overflow_only_after_outcome (expectedMembers : List String) (state : ActionState)
    (disposition : Option GroupFailureDisposition) {exit : ActionExit} {message : String}
    (h : afterOutcome ctx plan expectedMembers state disposition = .leave exit)
    (hending : exit.ending = .panicked message) :
    ctx.profile.overflowChecks = true ∧ message = overflowMessage := by
  have hnext : ∀ {pending failureAttempt actionTimeoutAttempts},
      nextAttempt ctx state pending failureAttempt actionTimeoutAttempts = .leave exit →
        ctx.profile.overflowChecks = true ∧ message = overflowMessage := by
    intro pending failureAttempt actionTimeoutAttempts hleave
    unfold nextAttempt at hleave
    split at hleave
    case h_1 error hadd =>
      cases hleave
      cases hending
      exact overflow_only_add_u32 _ _ message hadd
    case h_2 => cases hleave
  unfold afterOutcome at h
  dsimp only at h
  split at h
  · cases h; cases hending
  split at h
  · split at h
    · exact hnext h
    · cases h; cases hending
  split at h
  case h_1 error hretry =>
    cases h
    cases hending
    exact overflow_only_retry_pending ctx plan _ _ message hretry
  split at h
  · exact hnext h
  split at h
  · cases h; cases hending
  · cases h; cases hending

theorem overflow_only_action_loop (path : List Nat) (selection : TestSelection String)
    (expectedMembers : List String) (repeatIndex : Nat) (firstAttemptIndex : UInt32)
    (prior : MemberTables) {message : String}
    (h : ((actionLoop ctx plan path selection expectedMembers repeatIndex firstAttemptIndex).run
      (ActionState.start expectedMembers prior)).ending = .panicked message) :
    ctx.profile.overflowChecks = true ∧ message = overflowMessage := by
  refine (actionLoop ctx plan path selection expectedMembers repeatIndex
    firstAttemptIndex).run_invariant (fun _ => True)
    (fun exit => exit.ending = .panicked message →
      ctx.profile.overflowChecks = true ∧ message = overflowMessage)
    (fun _ _ _ _ => trivial) ?_ _ trivial h
  intro state exit _ hbody hending
  cases action_body_leave _ _ _ _ _ _ _ hbody with
  | overflowed hindex =>
      cases hending
      exact overflow_only_add_u32 _ _ message hindex
  | panicked _ hrun =>
      cases hending
      exact overflow_only_run_group ctx plan _ _ _ _ _ _ message hrun
  | recorded _ _ hafter =>
      exact overflow_only_after_outcome ctx plan expectedMembers _ _ hafter hending

/-- An action panics only because of an addition. -/
theorem overflow_only_finish_action {path : List Nat} {expectedMembers : List String}
    {repeatIndex : Nat} {firstAttemptIndex : UInt32} {rerun : Rerun} {exit : ActionExit}
    (hexit : ∀ message, exit.ending = .panicked message →
      ctx.profile.overflowChecks = true ∧ message = overflowMessage)
    (hrerun : ∀ failing, exit.ending = .isolate failing → ∀ path name attemptIndex prior,
      OverflowOnly ctx.profile (rerun path name attemptIndex prior).finished) :
    OverflowOnly ctx.profile (finishAction ctx plan path expectedMembers repeatIndex
      firstAttemptIndex rerun exit).finished := by
  unfold finishAction
  split
  case h_1 message hending =>
    intro other herror
    cases herror
    exact hexit message hending
  case h_2 => exact overflow_only_report_members ctx plan _ _ _ _ _
  case h_3 failing hending =>
    have hmembers : ∀ (child : Nat) (members : MemberTables) (attemptIndex : UInt32)
        (names : List String), OverflowOnly ctx.profile
          (isolateMembers path rerun attemptIndex child members names).finished := by
      intro child members attemptIndex names
      induction names generalizing child members with
      | nil => exact Except.fails_only_ok _
      | cons name rest ih =>
          exact (hrerun failing hending _ _ _ _).bind fun _ _ =>
            (ih _ _).bind fun _ _ => Except.fails_only_ok _
    split
    case h_1 message hindex =>
      intro other herror
      cases herror
      have hadd : OverflowOnly ctx.profile
          (isolationAttemptIndex ctx firstAttemptIndex exit.state.executionAttempt) :=
        (overflow_only_add_u32 _ _).bind fun _ _ => overflow_only_add_u32 _ _
      exact hadd message hindex
    case h_2 attemptIndex _ =>
      unfold isolateFailures
      dsimp only
      split
      case h_1 message hreport =>
        intro other herror
        cases herror
        exact overflow_only_report_members ctx plan _ _ _ _ _ message hreport
      case h_2 => exact Except.FailsOnly.map (hmembers _ _ _ _) _

theorem overflow_only_execute_test_action (path : List Nat) (selection : TestSelection String)
    (expectedMembers : List String) (repeatIndex : Nat) (firstAttemptIndex : UInt32)
    (prior : MemberTables) :
    OverflowOnly ctx.profile (executeTestAction ctx plan path selection expectedMembers
      repeatIndex firstAttemptIndex prior).finished := by
  unfold executeTestAction executeTestActionWith
  refine overflow_only_finish_action ctx plan
    (fun message => overflow_only_action_loop ctx plan _ _ _ _ _ _) ?_
  intro failing _ path name attemptIndex prior
  unfold executeSingleton executeTestActionWith
  refine overflow_only_finish_action ctx plan
    (fun message => overflow_only_action_loop ctx plan _ _ _ _ _ _) ?_
  -- A single member is never isolated again.
  intro others hending
  have hbatched := (action_loop_isolates ctx plan _ _ _ _ _ hending).1
  exact absurd hbatched (Nat.lt_irrefl 1)

end Action

/-! ## The number of executions -/

section Spent

variable [External] (ctx : TargetCtx) (plan : TargetPlan)

/-- The largest number of attempts allowed to one of the members, and at least the number that
the target's labels allow. -/
def maximalAllowance (names : List String) : Nat :=
  names.foldr (fun name most => max ((allowedAttempts ctx plan name).toOption.getD 0) most)
    plan.retry.maxAttempts

theorem maximal_allowance_pos (names : List String) : 0 < maximalAllowance ctx plan names := by
  induction names with
  | nil => exact plan.retry.maxAttempts_pos
  | cons name rest ih => exact Nat.lt_of_lt_of_le ih (Nat.le_max_right _ _)

theorem le_maximal_allowance {names : List String} {name : String} {allowed : Nat}
    (hname : name ∈ names) (h : allowedAttempts ctx plan name = .ok allowed) :
    allowed ≤ maximalAllowance ctx plan names := by
  induction names with
  | nil => cases hname
  | cons first rest ih =>
      cases hname with
      | head =>
          show allowed ≤ max ((allowedAttempts ctx plan name).toOption.getD 0) _
          rw [h]
          exact Nat.le_max_left _ _
      | tail _ hmem => exact Nat.le_trans (ih hmem) (Nat.le_max_right _ _)

/-- Fewer members are allowed no more. -/
theorem maximal_allowance_mono {names others : List String} (h : names ⊆ others) :
    maximalAllowance ctx plan names ≤ maximalAllowance ctx plan others := by
  induction names with
  | nil =>
      induction others with
      | nil => exact Nat.le_refl _
      | cons first rest ih => exact Nat.le_trans (ih (by simp)) (Nat.le_max_right _ _)
  | cons name rest ih =>
      obtain ⟨hname, hrest⟩ := List.cons_subset.mp h
      refine Nat.max_le.mpr ⟨?_, ih hrest⟩
      cases hallowed : allowedAttempts ctx plan name with
      | error message => exact Nat.zero_le _
      | ok allowed => exact le_maximal_allowance ctx plan hname hallowed

variable (path : List Nat) (selection : TestSelection String) (expectedMembers : List String)
  (repeatIndex : Nat) (firstAttemptIndex : UInt32)

/-- Every execution of the retry loop but the first was paid for with a failure retry or a
timeout rerun. -/
structure Spent (state : ActionState) : Prop where
  runs_length : state.runs.length = state.failureAttempt + state.actionTimeoutAttempts
  failure_lt : state.failureAttempt < maximalAllowance ctx plan expectedMembers
  timeout_lt : state.actionTimeoutAttempts < infraMaxAttempts

/-- Going round again spends a retry or a rerun. -/
theorem Spent.again {state next : ActionState} (h : Spent ctx plan expectedMembers state)
    (hbody : actionBody ctx plan path selection expectedMembers repeatIndex firstAttemptIndex
      state = .again next) :
    Spent ctx plan expectedMembers next := by
  obtain ⟨attemptIndex, outcome, -, -, hafter⟩ := action_body_again _ _ _ _ _ _ _ hbody
  let run := nextRun ctx plan path selection repeatIndex state attemptIndex
  have hlength : (state.runs ++ [run]).length =
      state.failureAttempt + state.actionTimeoutAttempts + 1 := by
    rw [List.length_append, h.runs_length, List.length_singleton]
  obtain ⟨executionAttempt, ⟨-, hbudget, rfl⟩ | ⟨-, retried, hne, hretried, rfl⟩⟩ :=
    after_outcome_again _ _ _ hafter
  · refine ⟨?_, h.failure_lt, hbudget⟩
    show (state.runs ++ [run]).length = state.failureAttempt + (state.actionTimeoutAttempts + 1)
    omega
  · refine ⟨?_, ?_, h.timeout_lt⟩
    · show (state.runs ++ [run]).length =
        (state.failureAttempt + 1) + state.actionTimeoutAttempts
      omega
    · obtain ⟨name, hname⟩ := List.exists_mem_of_ne_nil retried hne
      obtain ⟨hfailing, allowed, hallowed, hlt⟩ := allowed_of_mem_retried ctx plan hretried hname
      have hle := le_maximal_allowance ctx plan (List.mem_of_mem_filter hfailing) hallowed
      show state.failureAttempt + 1 < maximalAllowance ctx plan expectedMembers
      have hlt' : state.failureAttempt + 1 < allowed := hlt
      omega

/-- The retry loop executes its members at most as often as one of them is allowed, and two more
times for action timeouts. -/
theorem action_loop_length (prior : MemberTables) :
    ((actionLoop ctx plan path selection expectedMembers repeatIndex firstAttemptIndex).run
      (ActionState.start expectedMembers prior)).state.runs.length ≤
        maximalAllowance ctx plan expectedMembers + 2 := by
  refine (actionLoop ctx plan path selection expectedMembers repeatIndex
    firstAttemptIndex).run_invariant (Spent ctx plan expectedMembers)
    (fun exit => exit.state.runs.length ≤ maximalAllowance ctx plan expectedMembers + 2)
    (fun _ _ h hbody => h.again _ _ _ _ _ _ _ hbody) ?_ _
    ⟨rfl, maximal_allowance_pos ctx plan expectedMembers, show 0 < 3 by omega⟩
  intro state exit h hbody
  have hspent : state.runs.length + 1 ≤ maximalAllowance ctx plan expectedMembers + 2 := by
    have hfailure := h.failure_lt
    have htimeout : state.actionTimeoutAttempts < 3 := h.timeout_lt
    rw [h.runs_length]
    omega
  rcases action_body_leave_runs _ _ _ _ _ _ _ hbody with hsame | ⟨attemptIndex, hmore⟩
  · rw [hsame]
    omega
  · rw [hmore, List.length_append, List.length_singleton]
    exact hspent

/-- A group execution sends at most three requests. -/
theorem run_group_requests_le (names : List String) (attemptIndex : UInt32) (firstCall : Nat) :
    (runGroup ctx plan path selection names repeatIndex attemptIndex firstCall).requests.length ≤
      3 := by
  refine (infraLoop ctx plan path selection names repeatIndex attemptIndex
    firstCall).run_invariant
    (fun state => state.requests.length = state.infraAttempt ∧
      state.infraAttempt < infraMaxAttempts)
    (fun exit => exit.requests.length ≤ 3) ?_ ?_ ⟨0, []⟩ ⟨rfl, by decide⟩
  · intro state next h hbody
    obtain ⟨hbudget, _, _, -, -, rfl⟩ := infra_body_again _ _ _ _ _ _ _ _ hbody
    exact ⟨by rw [List.length_append, h.1, List.length_singleton], hbudget⟩
  · intro state exit h hbody
    obtain ⟨hlength, hlt⟩ := h
    have hbudget : state.infraAttempt < 3 := hlt
    cases infra_body_leave _ _ _ _ _ _ _ _ hbody with
    | overflowed =>
        show state.requests.length ≤ 3
        omega
    | rejected =>
        show state.requests.length ≤ 3
        omega
    | answered =>
        rw [List.length_append, hlength, List.length_singleton]
        omega

end Spent

/-! ## The members that are executed again -/

/-- The best result that a log shows for a member is a failure. -/
def BestFails (log : List GroupRun) (name : String) : Prop :=
  ∃ status integrity, foldAttempts (attemptsOf log name) = some (status, integrity) ∧
    status.isFailure = true

/-- Every execution of a log that comes after another one, in the log or in `earlier`, asks only
for members whose best result so far is a failure. -/
def NarrowedAfter (earlier runs : List GroupRun) : Prop :=
  ∀ before run after, runs = before ++ run :: after → earlier ++ before ≠ [] →
    ∀ name ∈ run.names, BestFails (earlier ++ before) name

theorem NarrowedAfter.nil (earlier : List GroupRun) : NarrowedAfter earlier [] := by
  intro before run after hsplit
  simp at hsplit

theorem NarrowedAfter.append {earlier runs others : List GroupRun}
    (h : NarrowedAfter earlier runs) (hothers : NarrowedAfter (earlier ++ runs) others) :
    NarrowedAfter earlier (runs ++ others) := by
  intro before run after hsplit hne name hname
  rcases List.append_eq_append_iff.mp hsplit with ⟨middle, rfl, hrest⟩ | ⟨middle, hruns, hrest⟩
  · rw [← List.append_assoc] at hne ⊢
    exact hothers middle run after hrest hne name hname
  · cases middle with
    | nil =>
        rw [List.append_nil] at hruns
        subst hruns
        have hfails := hothers [] run after hrest.symm (by rwa [List.append_nil]) name hname
        rwa [List.append_nil] at hfails
    | cons first middle =>
        cases hrest
        exact h before run middle hruns hne name hname

/-- A log with one more execution. -/
theorem NarrowedAfter.concat {earlier runs : List GroupRun} (h : NarrowedAfter earlier runs)
    {run : GroupRun} (hrun : earlier ++ runs ≠ [] → ∀ name ∈ run.names,
      BestFails (earlier ++ runs) name) : NarrowedAfter earlier (runs ++ [run]) := by
  intro before other after hsplit hne name hname
  rcases split_concat hsplit with ⟨rfl, rfl⟩ | ⟨rest, hrest⟩
  · exact hrun hne name hname
  · exact h before other rest hrest hne name hname

/-- An execution asks for its members by name, or for the whole batch under the batch's own
selection. -/
def AsksFor (selection : TestSelection String) (expectedMembers : List String) (run : GroupRun) :
    Prop :=
  run.selection = .explicit run.names ∨
    (run.selection = selection ∧ run.names = expectedMembers)

/-- The best result in the tables is the one that the log shows. -/
def Summarizes (members : MemberTables) (log : List GroupRun) (name : String) : Prop :=
  ∃ results : List MemberResult,
    members.bestOf name = StickyFold.foldFrom BestObs.incomplete BestObs.passing none
      (results.map MemberResult.toBest) ∧
    results.map MemberResult.attempt = attemptsOf log name

/-- A failing member has a failing best result. -/
theorem failing_iff {members : MemberTables} {name : String} :
    members.failing name = true ↔
      ∀ best, members.bestOf name = some best → best.passing = false := by
  unfold MemberTables.failing BestObs.passing
  cases members.bestOf name <;> simp

/-- A failing member that was attempted has a failing best result in the log. -/
theorem Summarizes.best_fails {members : MemberTables} {log : List GroupRun} {name : String}
    (h : Summarizes members log name) (hfailing : members.failing name = true)
    (hattempted : attemptsOf log name ≠ []) : BestFails log name := by
  obtain ⟨results, hbest, hattempts⟩ := h
  have hresults : results ≠ [] := by
    rintro rfl
    exact hattempted hattempts.symm
  cases hfold : StickyFold.foldFrom BestObs.incomplete BestObs.passing none
      (results.map MemberResult.toBest) with
  | none =>
      rw [StickyFold.fold_eq_pick, StickyFold.pick_eq_none] at hfold
      exact absurd (List.map_eq_nil_iff.mp hfold) hresults
  | some best =>
      rw [hfold] at hbest
      have hstatus := failing_iff.mp hfailing best hbest
      refine ⟨best.status, best.integrity, ?_, by simpa [BestObs.passing] using hstatus⟩
      rw [← hattempts]
      exact fold_attempts_of_best hfold

section Narrowed

variable [External] {ctx : TargetCtx} {plan : TargetPlan} {path : List Nat}
  {selection : TestSelection String} {expectedMembers : List String} {repeatIndex : Nat}
  {firstAttemptIndex : UInt32}

/-- Recorded executions extend the log that the tables summarize. -/
theorem Recorded.summarizes {prior members : MemberTables} {earlier runs : List GroupRun}
    (hlisted : plan.translator.listingStrategy.isWholeTarget = false)
    (hnodup : expectedMembers.Nodup)
    (h : Recorded ctx plan selection expectedMembers repeatIndex prior members runs)
    {name : String} (hprior : Summarizes prior earlier name) :
    Summarizes members (earlier ++ runs) name := by
  obtain ⟨results, hbest, hattempts⟩ := hprior
  refine ⟨results ++ memberAttempts false expectedMembers runs name,
    best_recorded hlisted h hbest, ?_⟩
  rw [List.map_append, hattempts, member_attempts_eq hnodup h.executed, attempts_of_append]

omit [External] in
/-- A failed group leaves failing members failing. -/
theorem failing_of_failed_group {members : MemberTables} {failure : FailedGroup}
    {pending : List String} {name : String} (hfailing : members.failing name = true)
    (hstatus : failure.status.isFailure = true) :
    (recordOutcome plan.translator.listingStrategy.isWholeTarget expectedMembers pending members
      (.groupFailed failure)).failing name = true := by
  rw [failing_iff] at hfailing ⊢
  intro best hbest
  rw [recordOutcome, best_of_record] at hbest
  refine StickyFold.unsettled_of_fold hfailing (fun item hitem => ?_) hbest
  obtain ⟨result, hresult, rfl⟩ := List.mem_map.mp hitem
  obtain ⟨entry, hentry, hsome⟩ := List.mem_filterMap.mp hresult
  obtain ⟨member, -, rfl⟩ := List.mem_map.mp hentry
  by_cases hmember : member = name
  · have hresult : failure.memberResult = result :=
      Option.some.inj ((if_pos hmember).symm.trans hsome)
    simp [BestObs.passing, MemberResult.toBest, FailedGroup.memberResult, hstatus, ← hresult]
  · cases (if_neg hmember).symm.trans hsome

/-- The tables from which the loop of some members starts, after the executions `earlier`. -/
structure StartsAfter (earlier : List GroupRun) (prior : MemberTables) (names : List String) :
    Prop where
  summarizes : ∀ name ∈ names, Summarizes prior earlier name
  failing : ∀ name ∈ names, prior.failing name = true
  attempted : earlier ≠ [] → ∀ name ∈ names, attemptsOf earlier name ≠ []

omit [External] in
/-- An action starts after nothing. -/
theorem starts_after_nil (names : List String) : StartsAfter [] MemberTables.empty names where
  summarizes _ _ := ⟨[], rfl, rfl⟩
  failing _ _ := rfl
  attempted hne := absurd rfl hne

variable (ctx plan selection expectedMembers repeatIndex) in
/-- The members that the retry loop asks for next are failing ones. -/
structure Narrowing (earlier : List GroupRun) (prior : MemberTables) (state : ActionState) :
    Prop where
  loop : LoopInv ctx plan selection expectedMembers repeatIndex prior state
  pending_failing : ∀ name ∈ state.pending, state.members.failing name = true
  whole : state.failureAttempt = 0 → state.pending = expectedMembers
  narrowed : NarrowedAfter earlier state.runs
  asks : ∀ run ∈ state.runs, AsksFor selection expectedMembers run

variable (path) in
/-- The next execution asks for failing members only. -/
theorem Narrowing.log_next {earlier : List GroupRun} {prior : MemberTables} {state : ActionState}
    (hlisted : plan.translator.listingStrategy.isWholeTarget = false)
    (hnodup : expectedMembers.Nodup) (hstart : StartsAfter earlier prior expectedMembers)
    (h : Narrowing ctx plan selection expectedMembers repeatIndex earlier prior state)
    (attemptIndex : UInt32) :
    let run := nextRun ctx plan path selection repeatIndex state attemptIndex
    NarrowedAfter earlier (state.runs ++ [run]) ∧
      ∀ other ∈ state.runs ++ [run], AsksFor selection expectedMembers other := by
  intro run
  constructor
  · refine h.narrowed.concat fun hne name hname => ?_
    have hexpected := h.loop.pending_sublist.subset hname
    have hsummarizes := h.loop.recorded.summarizes hlisted hnodup
      (hstart.summarizes name hexpected)
    refine hsummarizes.best_fails (h.pending_failing name hname) ?_
    -- The first execution of the loop asked for every member; before it, `earlier` had.
    rw [attempts_of_append]
    intro hnone
    obtain ⟨hbefore, hown⟩ := List.append_eq_nil_iff.mp hnone
    by_cases hruns : state.runs = []
    · have hearlier : earlier ≠ [] := by simpa [hruns] using hne
      exact hstart.attempted hearlier name hexpected hbefore
    · exact attempts_of_ne_nil h.loop.recorded hruns hexpected hown
  · intro other hother
    rcases List.mem_append.mp hother with hold | hnew
    · exact h.asks other hold
    · rw [List.mem_singleton.mp hnew]
      by_cases hfirst : state.failureAttempt = 0
      · exact .inr ⟨if_pos hfirst, h.whole hfirst⟩
      · exact .inl (if_neg hfirst)

/-- Going round again asks for failing members, and for all of them until the first retry. -/
theorem Narrowing.again {earlier : List GroupRun} {prior : MemberTables}
    {state next : ActionState}
    (hlisted : plan.translator.listingStrategy.isWholeTarget = false)
    (hnodup : expectedMembers.Nodup) (hstart : StartsAfter earlier prior expectedMembers)
    (h : Narrowing ctx plan selection expectedMembers repeatIndex earlier prior state)
    (hbody : actionBody ctx plan path selection expectedMembers repeatIndex firstAttemptIndex
      state = .again next) :
    Narrowing ctx plan selection expectedMembers repeatIndex earlier prior next := by
  obtain ⟨attemptIndex, outcome, -, houtcome, hafter⟩ := action_body_again _ _ _ _ _ _ _ hbody
  obtain ⟨hnarrowed, hasks⟩ := h.log_next path hlisted hnodup hstart attemptIndex
  let run := nextRun ctx plan path selection repeatIndex state attemptIndex
  let recorded := recordRun plan expectedMembers state run outcome
  obtain ⟨hmembers, hruns, hpending, -⟩ := after_outcome_pending ctx plan expectedMembers hafter
  have hlog : next.runs = state.runs ++ [run] := hruns
  refine ⟨h.loop.again _ _ _ _ _ _ _ hbody, fun name hname => ?_, fun hzero => ?_,
    hlog ▸ hnarrowed, hlog ▸ hasks⟩
  · rw [hmembers]
    exact (List.mem_filter.mp (hpending.subset hname)).2
  · obtain ⟨executionAttempt, ⟨htimeout, -, rfl⟩ | ⟨-, retried, -, -, rfl⟩⟩ :=
      after_outcome_again _ _ _ hafter
    · -- A timed out execution of all members leaves all of them failing.
      have hall : state.pending = expectedMembers := h.whole hzero
      cases outcome with
      | observed group => cases htimeout
      | groupFailed failure =>
          have hdisposition : failure.disposition = .completeActionTimeout :=
            Option.some.inj htimeout
          have hstatus : failure.status.isFailure = true := by
            rcases run_group_failed houtcome with hfailed | ⟨-, hincomplete⟩
            · exact hfailed
            · rw [hdisposition] at hincomplete
              cases hincomplete
          show stillFailing expectedMembers recorded.members = expectedMembers
          refine List.filter_eq_self.mpr fun name hname => ?_
          exact failing_of_failed_group (h.pending_failing name (hall ▸ hname)) hstatus
    · cases hzero

variable (path selection repeatIndex firstAttemptIndex) in
/-- The executions of the retry loop are narrowed to failing members. -/
theorem action_loop_narrowed {earlier : List GroupRun} {prior : MemberTables}
    (hlisted : plan.translator.listingStrategy.isWholeTarget = false)
    (hnodup : expectedMembers.Nodup) (hstart : StartsAfter earlier prior expectedMembers) :
    let runs := ((actionLoop ctx plan path selection expectedMembers repeatIndex
      firstAttemptIndex).run (ActionState.start expectedMembers prior)).state.runs
    NarrowedAfter earlier runs ∧ ∀ run ∈ runs, AsksFor selection expectedMembers run := by
  refine (actionLoop ctx plan path selection expectedMembers repeatIndex
    firstAttemptIndex).run_invariant
    (Narrowing ctx plan selection expectedMembers repeatIndex earlier prior)
    (fun exit => NarrowedAfter earlier exit.state.runs ∧
      ∀ run ∈ exit.state.runs, AsksFor selection expectedMembers run)
    (fun _ _ h hbody => h.again hlisted hnodup hstart hbody) ?_ _
    ⟨loop_inv_start _ _ _ _ _ _, hstart.failing, fun _ => rfl, .nil earlier, by
      simp [ActionState.start]⟩
  intro state exit h hbody
  rcases action_body_leave_runs _ _ _ _ _ _ _ hbody with hsame | ⟨attemptIndex, hmore⟩
  · rw [hsame]
    exact ⟨h.narrowed, h.asks⟩
  · rw [hmore]
    exact h.log_next _ hlisted hnodup hstart attemptIndex

/-! ### Isolation -/

/-- The log of the isolation run of one member. -/
structure IsolationLog (most : Nat) (name : String) (runs : List GroupRun) : Prop where
  length_le : runs.length ≤ most
  names_eq : ∀ run ∈ runs, run.names = [name]
  selection_eq : ∀ run ∈ runs, run.selection = .explicit [name]

omit [External] in
theorem IsolationLog.mono {most other : Nat} {name : String} {runs : List GroupRun}
    (h : IsolationLog most name runs) (hle : most ≤ other) : IsolationLog other name runs :=
  ⟨Nat.le_trans h.length_le hle, h.names_eq, h.selection_eq⟩

variable (ctx plan repeatIndex path firstAttemptIndex) in
/-- The isolation run of a member asks for this member only. -/
theorem isolation_log {earlier : List GroupRun} {prior : MemberTables} {name : String}
    (hlisted : plan.translator.listingStrategy.isWholeTarget = false)
    (hstart : StartsAfter earlier prior [name]) :
    let runs := (executeSingleton ctx plan repeatIndex path name firstAttemptIndex prior).runs
    IsolationLog (maximalAllowance ctx plan [name] + 2) name runs ∧ NarrowedAfter earlier runs ∧
      ∀ run ∈ runs, Executed ctx plan (.explicit [name]) [name] repeatIndex run := by
  intro runs
  have hruns : runs = _ := execute_singleton_runs ctx plan repeatIndex path name
    firstAttemptIndex prior
  have hexecuted : ∀ run ∈ runs, Executed ctx plan (.explicit [name]) [name] repeatIndex run := by
    rw [hruns]
    exact (action_loop_exit ctx plan path (.explicit [name]) [name] repeatIndex
      firstAttemptIndex prior).executed
  have hnames : ∀ run ∈ runs, run.names = [name] := by
    intro run hrun
    have hne := (hexecuted run hrun).names_ne (List.cons_ne_nil _ _)
    exact (hexecuted run hrun).names_sublist.eq_of_length_le (List.length_pos_of_ne_nil hne)
  obtain ⟨hnarrowed, hasks⟩ := action_loop_narrowed path (.explicit [name]) repeatIndex
    firstAttemptIndex hlisted (List.nodup_singleton name) hstart
  rw [← hruns] at hnarrowed hasks
  refine ⟨⟨?_, hnames, fun run hrun => ?_⟩, hnarrowed, hexecuted⟩
  · rw [hruns]
    exact action_loop_length ctx plan path _ _ _ _ _
  · rcases hasks run hrun with hexplicit | ⟨hown, -⟩
    · rw [hexplicit, hnames run hrun]
    · exact hown

variable (path) in
/-- The isolation runs of failing members, after the executions `earlier`. -/
theorem isolate_members_narrowed {earlier : List GroupRun} {members : MemberTables}
    {names : List String} (attemptIndex : UInt32) (child : Nat)
    (hlisted : plan.translator.listingStrategy.isWholeTarget = false) (hnodup : names.Nodup)
    (hearlier : earlier ≠ []) (hstart : StartsAfter earlier members names) :
    let runs := (isolateMembers path (executeSingleton ctx plan repeatIndex) attemptIndex child
      members names).runs
    NarrowedAfter earlier runs ∧
      ∃ isolated : List (String × List GroupRun), runs = isolated.flatMap Prod.snd ∧
        isolated.map Prod.fst = names ∧
        ∀ entry ∈ isolated,
          IsolationLog (maximalAllowance ctx plan names + 2) entry.1 entry.2 := by
  induction names generalizing earlier members child with
  | nil => exact ⟨.nil earlier, [], rfl, rfl, by simp⟩
  | cons name rest ih =>
      obtain ⟨hfresh, hdistinct⟩ := List.nodup_cons.mp hnodup
      let single := executeSingleton ctx plan repeatIndex (path ++ [child]) name attemptIndex
        (members.only name)
      have hsingle : StartsAfter earlier (members.only name) [name] := by
        refine ⟨fun other hother => ?_, fun other hother => ?_, fun hne other hother => ?_⟩
        all_goals rw [List.mem_singleton.mp hother]
        · obtain ⟨results, hbest, hattempts⟩ := hstart.summarizes name List.mem_cons_self
          exact ⟨results, (best_of_only members name).trans hbest, hattempts⟩
        · have hfailing := hstart.failing name List.mem_cons_self
          rwa [MemberTables.failing, best_of_only]
        · exact hstart.attempted hne name List.mem_cons_self
      obtain ⟨hlog, hnarrowed, hexecuted⟩ := isolation_log ctx plan (path ++ [child])
        repeatIndex attemptIndex hlisted hsingle
      -- The isolation run of another member leaves what the log shows of the rest alone.
      have hkept : ∀ other ∈ rest, attemptsOf (earlier ++ single.runs) other =
          attemptsOf earlier other := by
        intro other hother
        have hne : other ≠ name := fun heq => hfresh (heq ▸ hother)
        rw [attempts_of_append, attempts_of_other hne hexecuted, List.append_nil]
      have hothers : StartsAfter (earlier ++ single.runs) (members.remove name) rest := by
        refine ⟨fun other hother => ?_, fun other hother => ?_, fun _ other hother => ?_⟩
        · obtain ⟨results, hbest, hattempts⟩ :=
            hstart.summarizes other (List.mem_cons_of_mem _ hother)
          exact ⟨results, hbest, hattempts.trans (hkept other hother).symm⟩
        · exact hstart.failing other (List.mem_cons_of_mem _ hother)
        · rw [hkept other hother]
          exact hstart.attempted hearlier other (List.mem_cons_of_mem _ hother)
      obtain ⟨hrest, isolated, hruns, hfirst, hisolated⟩ :=
        ih (child + 1) hdistinct (List.append_ne_nil_of_left_ne_nil hearlier _) hothers
      refine ⟨hnarrowed.append hrest, (name, single.runs) :: isolated, ?_, ?_, ?_⟩
      · rw [List.flatMap_cons, ← hruns]
        rfl
      · rw [List.map_cons, hfirst]
      · intro entry hentry
        have hmost : ∀ {others : List String}, others ⊆ name :: rest →
            maximalAllowance ctx plan others + 2 ≤
              maximalAllowance ctx plan (name :: rest) + 2 :=
          fun hsubset => Nat.add_le_add_right (maximal_allowance_mono ctx plan hsubset) 2
        cases hentry with
        | head => exact hlog.mono (hmost (by simp))
        | tail _ hmem => exact (hisolated entry hmem).mono (hmost (by simp))

end Narrowed

/-! ## The result -/

/-- A member whose best result is not a failure is not executed again. -/
theorem NarrowedAfter.not_passing {runs before after : List GroupRun} {run : GroupRun}
    (h : NarrowedAfter [] runs) (hsplit : runs = before ++ run :: after) {name : String}
    {status : TestVerdict} {integrity : ResultIntegrity}
    (hfold : foldAttempts (attemptsOf before name) = some (status, integrity))
    (hpassing : status.isFailure = false) : name ∉ run.names := by
  intro hname
  have hbefore : [] ++ before ≠ [] := by
    intro hnil
    rw [List.nil_append] at hnil
    rw [hnil] at hfold
    cases hfold
  obtain ⟨other, _, hother, hfails⟩ := h before run after hsplit hbefore name hname
  have hsame : (other, _) = (status, integrity) := Option.some.inj (hother.symm.trans hfold)
  cases hsame
  rw [hpassing] at hfails
  cases hfails

section Result

variable [External] (ctx : TargetCtx) (plan : TargetPlan) (path : List Nat)
  (selection : TestSelection String) (expectedMembers : List String) (repeatIndex : Nat)
  (firstAttemptIndex : UInt32)

/-- An execution of an action sends at most three requests. -/
theorem execute_test_action_requests_le (prior : MemberTables) :
    ∀ run ∈ (executeTestAction ctx plan path selection expectedMembers repeatIndex
      firstAttemptIndex prior).runs, run.requests.length ≤ 3 := by
  intro run hrun
  have hexecuted : ∃ path selection names attemptIndex firstCall, run =
      runGroup ctx plan path selection names repeatIndex attemptIndex firstCall := by
    rcases execute_test_action_executed ctx plan repeatIndex hrun with hown | ⟨_, _, hsingle⟩
    · obtain ⟨path, attemptIndex, firstCall, heq⟩ := hown.eq_run_group
      exact ⟨path, _, _, attemptIndex, firstCall, heq⟩
    · obtain ⟨path, attemptIndex, firstCall, heq⟩ := hsingle.eq_run_group
      exact ⟨path, _, _, attemptIndex, firstCall, heq⟩
  obtain ⟨path, selection, names, attemptIndex, firstCall, rfl⟩ := hexecuted
  exact run_group_requests_le _ _ _ _ _ _ _ _

/-- The executions of an action are those of its own loop and then those of the members that it
isolates, all of them narrowed. -/
theorem execute_test_action_narrowed
    (hlisted : plan.translator.listingStrategy.isWholeTarget = false)
    (hnodup : expectedMembers.Nodup) :
    let action := executeTestAction ctx plan path selection expectedMembers repeatIndex
      firstAttemptIndex MemberTables.empty
    let most := maximalAllowance ctx plan expectedMembers + 2
    NarrowedAfter [] action.runs ∧
      ∃ (main : List GroupRun) (isolated : List (String × List GroupRun)),
        action.runs = main ++ isolated.flatMap Prod.snd ∧ main.length ≤ most ∧
        (∀ run ∈ main, run.names.Sublist expectedMembers ∧
          AsksFor selection expectedMembers run) ∧
        (isolated ≠ [] → 1 < expectedMembers.length) ∧
        (isolated.map Prod.fst).Sublist expectedMembers ∧
        ∀ entry ∈ isolated, IsolationLog most entry.1 entry.2 := by
  intro action most
  let exit := (actionLoop ctx plan path selection expectedMembers repeatIndex
    firstAttemptIndex).run (ActionState.start expectedMembers MemberTables.empty)
  have hexit := action_loop_exit ctx plan path selection expectedMembers repeatIndex
    firstAttemptIndex MemberTables.empty
  have hlength : exit.state.runs.length ≤ most := action_loop_length _ _ _ _ _ _ _ _
  obtain ⟨hnarrowed, hasks⟩ := action_loop_narrowed path selection repeatIndex
    firstAttemptIndex hlisted hnodup (starts_after_nil expectedMembers)
  have hmain : ∀ run ∈ exit.state.runs, run.names.Sublist expectedMembers ∧
      AsksFor selection expectedMembers run :=
    fun run hrun => ⟨(hexit.executed run hrun).names_sublist, hasks run hrun⟩
  rcases execute_test_action_log ctx plan repeatIndex path selection expectedMembers
    firstAttemptIndex MemberTables.empty with hsame |
      ⟨failing, attemptIndex, members, hending, -, hbest, hruns⟩
  · rw [show action.runs = exit.state.runs from hsame]
    exact ⟨hnarrowed, exit.state.runs, [], by simp, hlength, hmain, by simp, by simp, by simp⟩
  · obtain ⟨hbatched, rfl, hrecorded, hne⟩ := action_loop_isolates ctx plan path selection
      expectedMembers repeatIndex firstAttemptIndex hending
    let failing := stillFailing expectedMembers exit.state.members
    have hsublist : failing.Sublist expectedMembers := List.filter_sublist
    -- The failing members are isolated with the best results that the loop has recorded.
    have hstart : StartsAfter exit.state.runs members failing := by
      refine ⟨fun name hname => ?_, fun name hname => ?_, fun _ name hname => ?_⟩
      · obtain ⟨results, hfold, hattempts⟩ := hrecorded.summarizes hlisted hnodup
          ((starts_after_nil expectedMembers).summarizes name (hsublist.subset hname))
        exact ⟨results, (hbest name).trans hfold, hattempts⟩
      · have hfails := (List.mem_filter.mp hname).2
        rwa [MemberTables.failing, hbest]
      · exact attempts_of_ne_nil hrecorded hne (hsublist.subset hname)
    obtain ⟨hisolated, isolated, hisolatedRuns, hfirst, hentries⟩ :=
      isolate_members_narrowed path attemptIndex 0 hlisted (hnodup.sublist hsublist) hne hstart
    have hle : maximalAllowance ctx plan failing + 2 ≤ most :=
      Nat.add_le_add_right (maximal_allowance_mono ctx plan hsublist.subset) 2
    rw [show action.runs = _ from hruns]
    refine ⟨hnarrowed.append hisolated, exit.state.runs, isolated, ?_, hlength, hmain,
      fun _ => hbatched, hfirst ▸ hsublist, fun entry hentry => (hentries entry hentry).mono hle⟩
    rw [← hisolatedRuns]

/-- An action over distinct members of a per-test target ends for every sequence of responses,
and panics only because of an addition. Its own loop executes the members at most as often as
one of them is allowed and two more times, an execution sends at most three requests, and
isolation adds as many executions for each member of a batch. Every execution after the first
asks only for members whose best result so far is a failure, so a member with another one is
not executed again. -/
theorem retries_are_narrowed_and_bounded
    (hlisted : plan.translator.listingStrategy.isWholeTarget = false)
    (hnodup : expectedMembers.Nodup) :
    let action := executeTestAction ctx plan path selection expectedMembers repeatIndex
      firstAttemptIndex MemberTables.empty
    let most := maximalAllowance ctx plan expectedMembers + 2
    OverflowOnly ctx.profile action.finished ∧
      (∀ run ∈ action.runs, run.requests.length ≤ 3) ∧
      NarrowedAfter [] action.runs ∧
      (∀ before run after, action.runs = before ++ run :: after → ∀ name status integrity,
        foldAttempts (attemptsOf before name) = some (status, integrity) →
          status.isFailure = false → name ∉ run.names) ∧
      ∃ (main : List GroupRun) (isolated : List (String × List GroupRun)),
        action.runs = main ++ isolated.flatMap Prod.snd ∧
        main.length ≤ most ∧
        (∀ run ∈ main, run.names.Sublist expectedMembers ∧
          AsksFor selection expectedMembers run) ∧
        (isolated ≠ [] → 1 < expectedMembers.length) ∧
        (isolated.map Prod.fst).Sublist expectedMembers ∧
        ∀ entry ∈ isolated, IsolationLog most entry.1 entry.2 := by
  intro action most
  obtain ⟨hnarrowed, hlog⟩ := execute_test_action_narrowed ctx plan path selection
    expectedMembers repeatIndex firstAttemptIndex hlisted hnodup
  exact ⟨overflow_only_execute_test_action _ _ _ _ _ _ _ _,
    execute_test_action_requests_le _ _ _ _ _ _ _ _, hnarrowed,
    fun before run after hsplit name status integrity => hnarrowed.not_passing hsplit, hlog⟩

end Result

/-- A batch of which one member passes and the other one fails in every attempt. -/
theorem mixed_batch_is_narrowed :
    letI := External.inert
    let ctx := TargetCtx.textFormats
      (.always (.finished 101 "test a ... ok\ntest b ... FAILED\n"))
    ∃ plan, TargetPlan.derive (.plain "rust" []) ctx.config = .ok plan ∧
      let runs := (executeTestAction ctx plan [0, 0] (.explicit ["a", "b"]) ["a", "b"] 0 0
        MemberTables.empty).runs
      NarrowedAfter [] runs ∧ ∀ run ∈ runs, run.requests.length ≤ 3 := by
  let := External.inert
  intro ctx
  obtain ⟨plan, hplan, hlisted⟩ : ∃ plan,
      TargetPlan.derive (.plain "rust" []) ctx.config = .ok plan ∧
      plan.translator.listingStrategy.isWholeTarget = false := ⟨_, rfl, rfl⟩
  refine ⟨plan, hplan, ?_⟩
  have hbounded := retries_are_narrowed_and_bounded ctx plan [0, 0] (.explicit ["a", "b"])
    ["a", "b"] 0 0 hlisted (by decide)
  exact ⟨hbounded.2.2.1, hbounded.2.1⟩

end Quokka
