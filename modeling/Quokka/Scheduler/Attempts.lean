import Quokka.Library.StickyFold
import Quokka.Scheduler.Action

/-!
# What the retry loop has recorded

The invariant of the retry loop of `executeTestAction`: at every point the tables of a member
hold what its own attempts showed, in execution order. `memberAttempts` reads the attempts of a
member off the log of group executions, and `Recorded` says that the tables agree with it;
`Executed` says what every logged execution asked for.

`record_run_recorded` is the step and `action_loop_exit` the run.
-/

namespace Quokka

/-- An incomplete result absorbs every complete one. -/
def BestObs.incomplete (obs : BestObs) : Bool := obs.integrity == .missingTerminalResult

/-- A non-failing result is kept. -/
def BestObs.passing (obs : BestObs) : Bool := !obs.status.isFailure

/-- Merging results is a sticky fold. -/
theorem better_obs_eq_keep (existing : Option BestObs) (incoming : BestObs) :
    betterObs existing incoming =
      StickyFold.keep BestObs.incomplete BestObs.passing existing incoming := by
  cases existing with
  | none => simp [betterObs, StickyFold.keep, BestObs.incomplete]
  | some existing => simp [betterObs, StickyFold.keep, BestObs.incomplete, BestObs.passing]

/-! ## Recording a list of member results -/

/-- The results recorded for one member. -/
def resultsOf (name : String) (entries : List (String × MemberResult)) : List MemberResult :=
  entries.filterMap fun (member, result) => if member = name then some result else none

@[simp] theorem results_of_nil (name : String) : resultsOf name [] = [] := rfl

theorem results_of_cons (name member : String) (result : MemberResult)
    (entries : List (String × MemberResult)) :
    resultsOf name ((member, result) :: entries) =
      (if member = name then [result] else []) ++ resultsOf name entries := by
  by_cases h : member = name <;> simp [resultsOf, h]

/-- One result for each of some distinct names is one result for each of them. -/
theorem results_of_map {names : List String} (hnodup : names.Nodup) (f : String → MemberResult)
    (name : String) :
    resultsOf name (names.map fun member => (member, f member)) =
      if name ∈ names then [f name] else [] := by
  induction names with
  | nil => rfl
  | cons member names ih =>
      obtain ⟨hnot, hrest⟩ := List.nodup_cons.mp hnodup
      rw [List.map_cons, results_of_cons, ih hrest]
      by_cases h : member = name
      · subst h; simp [hnot]
      · simp [h, Ne.symm h]

section Fold

variable (members : MemberTables) (entries : List (String × MemberResult)) (name : String)

/-- Recording results folds a member's own results into its best one. -/
theorem best_of_record :
    (entries.foldl recordResult members).bestOf name =
      StickyFold.foldFrom BestObs.incomplete BestObs.passing (members.bestOf name)
        ((resultsOf name entries).map MemberResult.toBest) := by
  induction entries generalizing members with
  | nil => rfl
  | cons entry entries ih =>
      obtain ⟨member, result⟩ := entry
      rw [List.foldl_cons, ih, results_of_cons, List.map_append, StickyFold.fold_from_append]
      congr 1
      by_cases h : member = name
      · subst h
        simp [recordResult, MemberTables.bestOf, mergeBest, StickyFold.foldFrom,
          better_obs_eq_keep]
      · simp [recordResult, MemberTables.bestOf, mergeBest, StickyFold.foldFrom, h,
          Table.lookup_update_ne _ (Ne.symm h)]

/-- Recording results appends a member's own observations. -/
theorem attempts_of_record :
    ((entries.foldl recordResult members).attempts.lookup name).getD [] =
      (members.attempts.lookup name).getD [] ++
        (resultsOf name entries).filterMap MemberResult.toObservation := by
  induction entries generalizing members with
  | nil => simp
  | cons entry entries ih =>
      obtain ⟨member, result⟩ := entry
      rw [List.foldl_cons, ih, results_of_cons, List.filterMap_append, ← List.append_assoc]
      congr 1
      cases hobservation : result.toObservation with
      | none => by_cases h : member = name <;> simp [recordResult, hobservation, h]
      | some observation =>
          by_cases h : member = name
          · subst h
            simp [recordResult, hobservation, Table.getD_lookup_push]
          · simp [recordResult, hobservation, Table.getD_lookup_push, h, Ne.symm h]

/-- Recording results appends a member's own attempts to its history. -/
theorem history_of_record :
    ((entries.foldl recordResult members).attemptHistory.lookup name).getD [] =
      (members.attemptHistory.lookup name).getD [] ++
        (resultsOf name entries).map MemberResult.toAttempt := by
  induction entries generalizing members with
  | nil => simp
  | cons entry entries ih =>
      obtain ⟨member, result⟩ := entry
      rw [List.foldl_cons, ih, results_of_cons, List.map_append, ← List.append_assoc]
      congr 1
      by_cases h : member = name
      · subst h
        simp [recordResult, Table.getD_lookup_push]
      · simp [recordResult, Table.getD_lookup_push, h, Ne.symm h]

end Fold

/-! ## The attempts in a log -/

/-- The member results of one logged group execution. -/
def GroupRun.results (isWholeTarget : Bool) (expectedMembers : List String) (run : GroupRun) :
    List (String × MemberResult) :=
  match run.outcome with
  | .ok outcome => memberResults isWholeTarget expectedMembers run.names outcome
  | .error _ => []

/-- The results of a member's attempts in a log, in execution order. -/
def memberAttempts (isWholeTarget : Bool) (expectedMembers : List String) (runs : List GroupRun)
    (name : String) : List MemberResult :=
  runs.flatMap fun run => resultsOf name (run.results isWholeTarget expectedMembers)

section Records

variable [External] (ctx : TargetCtx) (plan : TargetPlan) (selection : TestSelection String)
  (expectedMembers : List String) (repeatIndex : Nat)

/-- A group execution of an action: it asks for some of the expected members, under the batch's
own selection or by their names. -/
structure Executed (run : GroupRun) : Prop where
  names_sublist : run.names.Sublist expectedMembers
  names_ne : expectedMembers ≠ [] → run.names ≠ []
  selection_eq : run.selection = selection ∨ run.selection = .explicit run.names
  eq_run_group : ∃ path attemptIndex firstCall,
    run = runGroup ctx plan path run.selection run.names repeatIndex attemptIndex firstCall

/-- The tables hold what the attempts of a log showed, starting from `prior`. Every logged
group execution completed, and the first one asked for all the expected members. -/
structure Recorded (prior members : MemberTables) (runs : List GroupRun) : Prop where
  executed : ∀ run ∈ runs, Executed ctx plan selection expectedMembers repeatIndex run
  first_names : ∀ run, runs.head? = some run → run.names = expectedMembers
  completed : ∀ run ∈ runs, ∃ outcome, run.outcome = .ok outcome
  best : ∀ name, members.bestOf name =
    StickyFold.foldFrom BestObs.incomplete BestObs.passing (prior.bestOf name)
      ((memberAttempts plan.translator.listingStrategy.isWholeTarget expectedMembers runs
        name).map MemberResult.toBest)
  attempts : ∀ name, (members.attempts.lookup name).getD [] =
    (prior.attempts.lookup name).getD [] ++
      (memberAttempts plan.translator.listingStrategy.isWholeTarget expectedMembers runs
        name).filterMap MemberResult.toObservation
  history : ∀ name, (members.attemptHistory.lookup name).getD [] =
    (prior.attemptHistory.lookup name).getD [] ++
      (memberAttempts plan.translator.listingStrategy.isWholeTarget expectedMembers runs
        name).map MemberResult.toAttempt

/-- Nothing is recorded before the first attempt. -/
theorem recorded_start (prior : MemberTables) :
    Recorded ctx plan selection expectedMembers repeatIndex prior prior [] where
  executed := by simp
  first_names := by simp
  completed := by simp
  best := by simp [memberAttempts, StickyFold.foldFrom]
  attempts := by simp [memberAttempts]
  history := by simp [memberAttempts]

variable {ctx plan selection expectedMembers repeatIndex}

/-- Recording one more group execution. -/
theorem Recorded.step {prior members : MemberTables} {runs : List GroupRun}
    (h : Recorded ctx plan selection expectedMembers repeatIndex prior members runs)
    {run : GroupRun} {outcome : GroupOutcome} (houtcome : run.outcome = .ok outcome)
    (hrun : Executed ctx plan selection expectedMembers repeatIndex run)
    (hfirst : runs = [] → run.names = expectedMembers) :
    Recorded ctx plan selection expectedMembers repeatIndex prior
      (recordOutcome plan.translator.listingStrategy.isWholeTarget expectedMembers run.names
        members outcome)
      (runs ++ [run]) := by
  have hresults : run.results plan.translator.listingStrategy.isWholeTarget expectedMembers =
      memberResults plan.translator.listingStrategy.isWholeTarget expectedMembers run.names
        outcome := by
    simp [GroupRun.results, houtcome]
  have hattempts : ∀ name,
      memberAttempts plan.translator.listingStrategy.isWholeTarget expectedMembers
          (runs ++ [run]) name =
        memberAttempts plan.translator.listingStrategy.isWholeTarget expectedMembers runs name ++
          resultsOf name (memberResults plan.translator.listingStrategy.isWholeTarget
            expectedMembers run.names outcome) := by
    intro name
    simp [memberAttempts, hresults]
  constructor
  · intro other hother
    rcases List.mem_append.mp hother with hold | hnew
    · exact h.executed other hold
    · rw [List.mem_singleton.mp hnew]; exact hrun
  · intro other hother
    cases runs with
    | nil => cases hother; exact hfirst rfl
    | cons first rest => exact h.first_names other (by simpa using hother)
  · intro other hother
    rcases List.mem_append.mp hother with hold | hnew
    · exact h.completed other hold
    · rw [List.mem_singleton.mp hnew]; exact ⟨outcome, houtcome⟩
  · intro name
    rw [recordOutcome, best_of_record, h.best, hattempts, List.map_append,
      StickyFold.fold_from_append]
  · intro name
    rw [recordOutcome, attempts_of_record, h.attempts, hattempts, List.filterMap_append,
      List.append_assoc]
  · intro name
    rw [recordOutcome, history_of_record, h.history, hattempts, List.map_append,
      List.append_assoc]

end Records

/-! ## The loop -/

section Loop

variable [External] (ctx : TargetCtx) (plan : TargetPlan) (path : List Nat)
  (selection : TestSelection String) (expectedMembers : List String) (repeatIndex : Nat)
  (firstAttemptIndex : UInt32)

/-- Only members with budget left are retried. -/
theorem retry_pending_sublist {failureAttempt : Nat} {names retried : List String}
    (h : retryPending ctx plan failureAttempt names = .ok retried) : retried.Sublist names := by
  induction names generalizing retried with
  | nil => cases h; exact List.Sublist.refl _
  | cons name rest ih =>
      unfold retryPending at h
      cases hallowed : allowedAttempts ctx plan name with
      | error message => rw [hallowed] at h; cases h
      | ok allowed =>
          cases hrest : retryPending ctx plan failureAttempt rest with
          | error message => rw [hallowed, hrest] at h; cases h
          | ok others =>
              rw [hallowed, hrest] at h
              cases h
              by_cases hlt : failureAttempt + 1 < allowed
              · simpa [hlt] using (ih hrest).cons_cons name
              · simpa [hlt] using (ih hrest).cons name

/-- How the loop can end after a recorded outcome. -/
inductive EndsWith (state : ActionState) : Ending → Prop where
  | panicked (message : String) : EndsWith state (.panicked message)
  | report : EndsWith state .report
  | isolate (hbatched : 1 < expectedMembers.length)
      (hpolicy : ctx.config.batchFailurePolicy = .rerunPerTestToIsolate) :
      EndsWith state (.isolate (stillFailing expectedMembers state.members))

/-- Leaving the loop after an outcome leaves its state alone. -/
theorem after_outcome_leave {state : ActionState} {exit : ActionExit}
    {disposition : Option GroupFailureDisposition}
    (h : afterOutcome ctx plan expectedMembers state disposition = .leave exit) :
    exit.state = state ∧ EndsWith ctx expectedMembers state exit.ending := by
  have hnext : ∀ {pending failureAttempt actionTimeoutAttempts},
      nextAttempt ctx state pending failureAttempt actionTimeoutAttempts = .leave exit →
        exit.state = state ∧ EndsWith ctx expectedMembers state exit.ending := by
    intro pending failureAttempt actionTimeoutAttempts h
    unfold nextAttempt at h
    split at h
    · cases h; exact ⟨rfl, .panicked _⟩
    · cases h
  unfold afterOutcome at h
  dsimp only at h
  split at h
  · cases h; exact ⟨rfl, .report⟩
  split at h
  · split at h
    · exact hnext h
    · cases h; exact ⟨rfl, .report⟩
  split at h
  · cases h; exact ⟨rfl, .panicked _⟩
  split at h
  · exact hnext h
  split at h
  case isTrue hisolate =>
    cases h
    simp only [Bool.and_eq_true, decide_eq_true_eq] at hisolate
    exact ⟨rfl, .isolate hisolate.1 hisolate.2⟩
  case isFalse => cases h; exact ⟨rfl, .report⟩

/-- How the retry loop leaves: its log is the one before, or has one more execution. -/
theorem action_body_leave_runs {state : ActionState} {exit : ActionExit}
    (h : actionBody ctx plan path selection expectedMembers repeatIndex firstAttemptIndex state =
      .leave exit) :
    exit.state.runs = state.runs ∨ ∃ attemptIndex, exit.state.runs =
      state.runs ++ [nextRun ctx plan path selection repeatIndex state attemptIndex] := by
  cases action_body_leave _ _ _ _ _ _ _ h with
  | overflowed => exact .inl rfl
  | panicked => exact .inr ⟨_, rfl⟩
  | recorded _ _ hafter =>
      obtain ⟨hstate, -⟩ := after_outcome_leave ctx plan expectedMembers hafter
      rw [hstate]
      exact .inr ⟨_, rfl⟩

/-- The members asked for next are among those asked for before or expected. -/
theorem after_outcome_pending {state next : ActionState}
    {disposition : Option GroupFailureDisposition}
    (h : afterOutcome ctx plan expectedMembers state disposition = .again next) :
    next.members = state.members ∧ next.runs = state.runs ∧
      next.pending.Sublist (stillFailing expectedMembers state.members) ∧
      next.pending ≠ [] := by
  have hfailing : stillFailing expectedMembers state.members ≠ [] := by
    intro hnone
    unfold afterOutcome at h
    simp [hnone] at h
  obtain ⟨_, hnext | hnext⟩ := after_outcome_again ctx plan expectedMembers h
  · obtain ⟨_, _, rfl⟩ := hnext
    exact ⟨rfl, rfl, List.Sublist.refl _, hfailing⟩
  · obtain ⟨_, retried, hne, hretried, rfl⟩ := hnext
    exact ⟨rfl, rfl, retry_pending_sublist ctx plan hretried, hne⟩

/-- The next group execution asks for the pending members. -/
theorem next_run_executed {state : ActionState} (hpending : state.pending.Sublist expectedMembers)
    (hne : expectedMembers ≠ [] → state.pending ≠ []) (attemptIndex : UInt32) :
    Executed ctx plan selection expectedMembers repeatIndex
      (nextRun ctx plan path selection repeatIndex state attemptIndex) where
  names_sublist := hpending
  names_ne := hne
  selection_eq := by
    show currentSelection selection state = selection ∨
      currentSelection selection state = .explicit state.pending
    unfold currentSelection
    split
    · exact .inl rfl
    · exact .inr rfl
  eq_run_group := ⟨path, attemptIndex, state.calls, rfl⟩

/-- The invariant of the retry loop. -/
structure LoopInv (prior : MemberTables) (state : ActionState) : Prop where
  recorded : Recorded ctx plan selection expectedMembers repeatIndex prior state.members
    state.runs
  pending_sublist : state.pending.Sublist expectedMembers
  pending_ne : expectedMembers ≠ [] → state.pending ≠ []
  pending_first : state.runs = [] → state.pending = expectedMembers

/-- One group execution keeps the invariant. -/
theorem record_run_recorded {prior : MemberTables} {state : ActionState}
    (h : LoopInv ctx plan selection expectedMembers repeatIndex prior state)
    {attemptIndex : UInt32} {outcome : GroupOutcome}
    (houtcome : (nextRun ctx plan path selection repeatIndex state attemptIndex).outcome =
      .ok outcome) :
    let run := nextRun ctx plan path selection repeatIndex state attemptIndex
    Recorded ctx plan selection expectedMembers repeatIndex prior
      (recordRun plan expectedMembers state run outcome).members
      (recordRun plan expectedMembers state run outcome).runs :=
  h.recorded.step houtcome
    (next_run_executed ctx plan path selection expectedMembers repeatIndex h.pending_sublist
      h.pending_ne attemptIndex)
    h.pending_first

/-- One repeated pass keeps the invariant. -/
theorem LoopInv.again {prior : MemberTables} {state next : ActionState}
    (h : LoopInv ctx plan selection expectedMembers repeatIndex prior state)
    (hbody : actionBody ctx plan path selection expectedMembers repeatIndex firstAttemptIndex
      state = .again next) :
    LoopInv ctx plan selection expectedMembers repeatIndex prior next := by
  obtain ⟨attemptIndex, outcome, _, houtcome, hafter⟩ :=
    action_body_again ctx plan path selection expectedMembers repeatIndex firstAttemptIndex
      hbody
  have hrecorded := record_run_recorded ctx plan path selection expectedMembers repeatIndex
    h houtcome
  obtain ⟨hmembers, hruns, hpending, hne⟩ :=
    after_outcome_pending ctx plan expectedMembers hafter
  constructor
  · rw [hmembers, hruns]; exact hrecorded
  · exact hpending.trans List.filter_sublist
  · exact fun _ => hne
  · rw [hruns]; intro hnone; simp [recordRun] at hnone

/-- At the start nothing is recorded and every member is asked for. -/
theorem loop_inv_start (prior : MemberTables) :
    LoopInv ctx plan selection expectedMembers repeatIndex prior
      (ActionState.start expectedMembers prior) :=
  ⟨recorded_start _ _ _ _ _ _, List.Sublist.refl _, id, fun _ => rfl⟩

/-- How the retry loop ends: its log holds executions of this action only, and unless it
panicked the tables agree with the log. -/
structure Exited (prior : MemberTables) (exit : ActionExit) : Prop where
  executed : ∀ run ∈ exit.state.runs,
    Executed ctx plan selection expectedMembers repeatIndex run
  recorded : (∃ message, exit.ending = .panicked message) ∨
    (Recorded ctx plan selection expectedMembers repeatIndex prior exit.state.members
        exit.state.runs ∧
      exit.state.runs ≠ [] ∧ EndsWith ctx expectedMembers exit.state exit.ending)

/-- The end of the retry loop. -/
theorem action_loop_exit (prior : MemberTables) :
    Exited ctx plan selection expectedMembers repeatIndex prior
      ((actionLoop ctx plan path selection expectedMembers repeatIndex firstAttemptIndex).run
        (ActionState.start expectedMembers prior)) := by
  refine (actionLoop ctx plan path selection expectedMembers repeatIndex
    firstAttemptIndex).run_invariant
    (LoopInv ctx plan selection expectedMembers repeatIndex prior)
    (Exited ctx plan selection expectedMembers repeatIndex prior)
    ?_ ?_ _ (loop_inv_start ctx plan selection expectedMembers repeatIndex prior)
  · exact fun state next hinv hbody => hinv.again _ _ _ _ _ _ _ hbody
  · intro state exit hinv hbody
    cases action_body_leave _ _ _ _ _ _ _ hbody with
    | overflowed => exact ⟨hinv.recorded.executed, .inl ⟨_, rfl⟩⟩
    | @panicked attemptIndex =>
        refine ⟨?_, .inl ⟨_, rfl⟩⟩
        intro run hrun
        rcases List.mem_append.mp hrun with hold | hnew
        · exact hinv.recorded.executed run hold
        · rw [List.mem_singleton.mp hnew]
          exact next_run_executed ctx plan path selection expectedMembers repeatIndex
            hinv.pending_sublist hinv.pending_ne attemptIndex
    | recorded _ houtcome hafter =>
        have hrecorded := record_run_recorded ctx plan path selection expectedMembers repeatIndex
          hinv houtcome
        obtain ⟨hstate, hends⟩ := after_outcome_leave ctx plan expectedMembers hafter
        constructor
        · rw [hstate]; exact hrecorded.executed
        · rw [hstate]; exact .inr ⟨hrecorded, by simp [recordRun], hends⟩

/-- What is known when an action isolates its failing members. -/
theorem action_loop_isolates {prior : MemberTables} {failing : List String}
    (h : ((actionLoop ctx plan path selection expectedMembers repeatIndex firstAttemptIndex).run
      (ActionState.start expectedMembers prior)).ending = .isolate failing) :
    let state := ((actionLoop ctx plan path selection expectedMembers repeatIndex
      firstAttemptIndex).run (ActionState.start expectedMembers prior)).state
    1 < expectedMembers.length ∧ failing = stillFailing expectedMembers state.members ∧
      Recorded ctx plan selection expectedMembers repeatIndex prior state.members state.runs ∧
      state.runs ≠ [] := by
  have hexit := action_loop_exit ctx plan path selection expectedMembers repeatIndex
    firstAttemptIndex prior
  rcases hexit.recorded with ⟨message, hpanicked⟩ | ⟨hrecorded, hruns, hends⟩
  · rw [h] at hpanicked
    cases hpanicked
  · rw [h] at hends
    cases hends with
    | isolate hbatched hpolicy => exact ⟨hbatched, rfl, hrecorded, hruns⟩

/-- The retry loop starts with an execution of all members under the index zero. -/
theorem action_loop_first (prior : MemberTables) :
    ∃ rest, ((actionLoop ctx plan path selection expectedMembers repeatIndex 0).run
        (ActionState.start expectedMembers prior)).state.runs =
      runGroup ctx plan path selection expectedMembers repeatIndex 0 0 :: rest := by
  let loop := actionLoop ctx plan path selection expectedMembers repeatIndex 0
  let first := runGroup ctx plan path selection expectedMembers repeatIndex 0 0
  let start := ActionState.start expectedMembers prior
  have hindex : ctx.profile.addU32 0 start.executionAttempt = .ok 0 := by
    show ctx.profile.addU32 0 0 = .ok 0
    exact BuildProfile.add_u32_of_lt _ (by decide)
  cases hbody : loop.body start with
  | leave exit =>
      rw [BoundedLoop.run_of_leave loop hbody]
      cases action_body_leave _ _ _ _ _ _ _ hbody with
      | overflowed hoverflow =>
          rw [hindex] at hoverflow
          cases hoverflow
      | panicked hattempt =>
          rw [hindex] at hattempt
          cases hattempt
          exact ⟨[], rfl⟩
      | recorded hattempt _ hafter =>
          rw [hindex] at hattempt
          cases hattempt
          obtain ⟨hstate, -⟩ := after_outcome_leave ctx plan expectedMembers hafter
          rw [hstate]
          exact ⟨[], rfl⟩
  | again next =>
      rw [BoundedLoop.run_of_again loop hbody]
      have hnext : next.runs = [first] := by
        obtain ⟨attemptIndex, outcome, hattempt, -, hafter⟩ :=
          action_body_again _ _ _ _ _ _ _ hbody
        obtain ⟨-, hruns, -⟩ := after_outcome_pending ctx plan expectedMembers hafter
        rw [hindex] at hattempt
        cases hattempt
        rw [hruns]
        rfl
      -- Later passes append to the log, so its head stays.
      refine loop.run_invariant (fun state => ∃ rest, state.runs = first :: rest)
        (fun exit => ∃ rest, exit.state.runs = first :: rest) ?_ ?_ next ⟨[], hnext⟩
      · rintro state later ⟨rest, hstate⟩ hagain
        obtain ⟨attemptIndex, outcome, -, -, hafter⟩ := action_body_again _ _ _ _ _ _ _ hagain
        obtain ⟨-, hruns, -⟩ := after_outcome_pending ctx plan expectedMembers hafter
        refine ⟨rest ++ [nextRun ctx plan path selection repeatIndex state attemptIndex], ?_⟩
        rw [hruns]
        show state.runs ++ _ = _
        rw [hstate, List.cons_append]
      · rintro state exit ⟨rest, hstate⟩ hleave
        rcases action_body_leave_runs _ _ _ _ _ _ _ hleave with hsame | ⟨attemptIndex, hmore⟩
        · exact ⟨rest, hsame.trans hstate⟩
        · rw [hmore, hstate]
          exact ⟨_, List.cons_append⟩

end Loop

end Quokka
