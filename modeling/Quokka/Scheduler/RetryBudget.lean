import Quokka.Scheduler.ActionResults

/-!
# The retry budget of a member

A failed group execution spends failure budget and a complete action timeout does not. A retry
asks for the failing members with budget left, but the rerun of a timed out execution asks for
all the failing members, also for those that have spent theirs. `Budgeted` relates the log of
the retry loop to its failure counter, `Covered` says which executions a failing member took
part in, and `budget_kept_iff` says exactly when a batch keeps the budget of every member.
-/

namespace Quokka

/-- A list whose matches all stand before `bound` has at most `bound` of them. -/
theorem countP_le_of_position {α : Type} {p : α → Bool} {bound : Nat} {list : List α}
    (h : ∀ before a after, list = before ++ a :: after → p a = true → before.length < bound) :
    list.countP p ≤ bound := by
  have hdrop : (list.drop bound).countP p = 0 := by
    refine List.countP_eq_zero.mpr fun a ha hp => ?_
    obtain ⟨before, after, hsplit⟩ := List.append_of_mem ha
    have hlist : list = (list.take bound ++ before) ++ a :: after := by
      rw [List.append_assoc, ← hsplit, List.take_append_drop]
    have hlt := h _ _ _ hlist hp
    have hbound : bound < list.length := by
      refine Nat.lt_of_not_le fun hle => ?_
      rw [List.drop_eq_nil_of_le hle] at ha
      cases ha
    rw [List.length_append, List.length_take] at hlt
    omega
  rw [← List.take_append_drop bound list, List.countP_append, hdrop, Nat.add_zero]
  exact Nat.le_trans List.countP_le_length (List.length_take_le bound list)

/-- Where an element of an extended list stands. -/
theorem split_concat {α : Type} {list before after : List α} {last a : α}
    (h : list ++ [last] = before ++ a :: after) :
    (before = list ∧ a = last) ∨ ∃ rest, list = before ++ a :: rest := by
  rcases List.eq_nil_or_concat after with rfl | ⟨rest, other, rfl⟩
  · obtain ⟨hbefore, hlast⟩ := List.append_inj' h rfl
    exact .inl ⟨hbefore.symm, (List.cons.inj hlast).1.symm⟩
  · have hassoc : list ++ [last] = (before ++ a :: rest) ++ [other] := by simpa using h
    exact .inr ⟨rest, (List.append_inj' hassoc rfl).1⟩

/-! ## Executions that spend budget -/

/-- Whether a group execution ended in a complete action timeout. -/
def GroupRun.timedOut (run : GroupRun) : Bool :=
  match run.outcome with
  | .ok outcome => outcome.disposition == some .completeActionTimeout
  | .error _ => false

/-- The group executions that did not end in a complete action timeout. -/
def settled (runs : List GroupRun) : List GroupRun := runs.filter fun run => !run.timedOut

/-- The number of group executions that include a member. -/
def executionsOf (name : String) (runs : List GroupRun) : Nat :=
  runs.countP fun run => run.names.contains name

/-- The number of group executions of a member that ended in a complete action timeout. -/
def timeoutsOf (name : String) (runs : List GroupRun) : Nat :=
  executionsOf name (runs.filter GroupRun.timedOut)

@[simp] theorem settled_nil : settled [] = [] := rfl

theorem settled_append (runs others : List GroupRun) :
    settled (runs ++ others) = settled runs ++ settled others := List.filter_append _ _

theorem settled_concat_of_timed_out {runs : List GroupRun} {run : GroupRun}
    (h : run.timedOut = true) : settled (runs ++ [run]) = settled runs := by
  simp [settled, h]

theorem settled_concat {runs : List GroupRun} {run : GroupRun}
    (h : run.timedOut = false) : settled (runs ++ [run]) = settled runs ++ [run] := by
  simp [settled, h]

/-- A member's executions either timed out or settled. -/
theorem executions_eq (name : String) (runs : List GroupRun) :
    executionsOf name runs = executionsOf name (settled runs) + timeoutsOf name runs := by
  unfold timeoutsOf executionsOf settled
  induction runs with
  | nil => rfl
  | cons run runs ih =>
      cases htimeout : run.timedOut with
      | true =>
          rw [List.filter_cons_of_neg (by simp [htimeout]), List.filter_cons_of_pos htimeout,
            List.countP_cons, List.countP_cons, ih]
          omega
      | false =>
          rw [List.filter_cons_of_pos (by simp [htimeout]),
            List.filter_cons_of_neg (by simp [htimeout]), List.countP_cons, List.countP_cons, ih]
          omega

/-- The executions before a settled one that settled themselves. -/
theorem exists_of_settled {runs before after : List GroupRun} {run : GroupRun}
    (h : settled runs = before ++ run :: after) :
    ∃ earlier later, runs = earlier ++ run :: later ∧ settled earlier = before ∧
      run.timedOut = false := by
  obtain ⟨earlier, rest, rfl, hearlier, hrest⟩ := List.filter_eq_append_iff.mp h
  obtain ⟨skipped, later, rfl, hskipped, hrun, -⟩ := List.filter_eq_cons_iff.mp hrest
  refine ⟨earlier ++ skipped, later, by simp, ?_, by simpa using hrun⟩
  have hnone : settled skipped = [] := List.filter_eq_nil_iff.mpr hskipped
  rw [settled_append, hnone, List.append_nil]
  exact hearlier

section Budget

variable [External] (ctx : TargetCtx) (plan : TargetPlan)

/-- Every member is executed at most as often as it is allowed, timeouts apart. -/
def BudgetKept (expectedMembers : List String) (runs : List GroupRun) : Prop :=
  ∀ name ∈ expectedMembers, ∀ allowed, allowedAttempts ctx plan name = .ok allowed →
    executionsOf name runs ≤ allowed + timeoutsOf name runs

/-- The members of an execution have failure budget left after the executions `before` it. -/
def Funded (before : List GroupRun) (run : GroupRun) : Prop :=
  ∀ name ∈ run.names, ∀ allowed, allowedAttempts ctx plan name = .ok allowed →
    (settled before).length < allowed

/-- Every execution that follows a complete action timeout, and does not time out as well, asks
only for members with failure budget left. -/
def RerunsFunded (runs : List GroupRun) : Prop :=
  ∀ earlier timeout run later, runs = earlier ++ timeout :: run :: later →
    timeout.timedOut = true → run.timedOut = false → Funded ctx plan earlier run

/-- A retried member was failing and has failure budget left. -/
theorem mem_retry_pending {failureAttempt : Nat} {names retried : List String}
    (h : retryPending ctx plan failureAttempt names = .ok retried) {name : String}
    {allowed : Nat} (hallowed : allowedAttempts ctx plan name = .ok allowed) :
    name ∈ retried ↔ name ∈ names ∧ failureAttempt + 1 < allowed := by
  induction names generalizing retried with
  | nil => cases h; simp
  | cons first rest ih =>
      unfold retryPending at h
      cases hfirst : allowedAttempts ctx plan first with
      | error message => rw [hfirst] at h; cases h
      | ok granted =>
          cases hrest : retryPending ctx plan failureAttempt rest with
          | error message => rw [hfirst, hrest] at h; cases h
          | ok others =>
              rw [hfirst, hrest] at h
              cases h
              have hothers := ih hrest
              by_cases heq : name = first
              · subst heq
                rw [hallowed] at hfirst
                cases hfirst
                by_cases hlt : failureAttempt + 1 < allowed <;> simp [hlt, hothers]
              · by_cases hlt : failureAttempt + 1 < granted <;> simp [hlt, hothers, heq]

/-- Every test is allowed an attempt. -/
theorem allowed_attempts_pos {name : String} {allowed : Nat}
    (h : allowedAttempts ctx plan name = .ok allowed) : 0 < allowed := by
  unfold allowedAttempts at h
  cases hflake : isFlake ctx plan name with
  | error message => rw [hflake] at h; cases h
  | ok flake =>
      rw [hflake] at h
      cases h
      exact Nat.lt_of_lt_of_le plan.retry.maxAttempts_pos (Nat.le_max_left _ _)

/-! ## The retry loop -/

/-- The last execution of a log, if there is one, did not time out. -/
def LastSettled (runs : List GroupRun) : Prop :=
  ∀ last, runs.getLast? = some last → last.timedOut = false

/-- Every execution of a log, unless it timed out or reran a timed out one, asks only for
members with failure budget left. -/
def RetriesFunded (runs : List GroupRun) : Prop :=
  ∀ before run after, runs = before ++ run :: after → run.timedOut = false →
    LastSettled before → Funded ctx plan before run

/-- The failure counter of the retry loop agrees with its log. -/
structure Budgeted (state : ActionState) : Prop where
  spent_eq : (settled state.runs).length = state.failureAttempt
  pending_funded : LastSettled state.runs → ∀ name ∈ state.pending, ∀ allowed,
    allowedAttempts ctx plan name = .ok allowed → state.failureAttempt < allowed
  retries_funded : RetriesFunded ctx plan state.runs

/-- A member took part in the first settled executions of a log, as many as it is allowed. -/
def TookPart (name : String) (runs : List GroupRun) : Prop :=
  ∀ allowed, allowedAttempts ctx plan name = .ok allowed →
    ∀ run ∈ (settled runs).take allowed, name ∈ run.names

/-- Every execution of a log asks for members that took part in the settled ones before it. -/
def LogCovered (expectedMembers : List String) (runs : List GroupRun) : Prop :=
  ∀ before run after, runs = before ++ run :: after → ∀ name ∈ run.names,
    name ∈ expectedMembers ∧ TookPart ctx plan name before

/-- The failing members have taken part in every execution that their budget allows. -/
structure Covered (expectedMembers : List String) (state : ActionState) : Prop where
  pending_subset : ∀ name ∈ state.pending, name ∈ expectedMembers
  took_part : ∀ name ∈ expectedMembers,
    (name ∈ state.pending ∨ state.members.failing name = true) →
      TookPart ctx plan name state.runs
  pending_of_failing : ∀ name ∈ expectedMembers, state.members.failing name = true →
    ∀ allowed, allowedAttempts ctx plan name = .ok allowed → state.failureAttempt < allowed →
      name ∈ state.pending
  log : LogCovered ctx plan expectedMembers state.runs

variable {ctx plan} {path : List Nat} {selection : TestSelection String}
  {expectedMembers : List String} {repeatIndex : Nat} {firstAttemptIndex : UInt32}

omit [External] in
/-- Whether an execution timed out. -/
theorem timed_out_eq {run : GroupRun} {outcome : GroupOutcome} (h : run.outcome = .ok outcome) :
    run.timedOut = (outcome.disposition == some .completeActionTimeout) := by
  unfold GroupRun.timedOut
  rw [h]

/-- The log with one more execution. -/
theorem Budgeted.log_next {state : ActionState} (h : Budgeted ctx plan state) {run : GroupRun}
    (hnames : run.names = state.pending) : RetriesFunded ctx plan (state.runs ++ [run]) := by
  intro before other after hsplit hsettled hlast
  rcases split_concat hsplit with ⟨rfl, rfl⟩ | ⟨rest, hrest⟩
  · intro name hname allowed hallowed
    rw [h.spent_eq]
    exact h.pending_funded hlast name (hnames ▸ hname) allowed hallowed
  · exact h.retries_funded before other rest hrest hsettled hlast

/-- One pass of the retry loop counts its execution. -/
theorem Budgeted.again {state next : ActionState} (h : Budgeted ctx plan state)
    (hbody : actionBody ctx plan path selection expectedMembers repeatIndex firstAttemptIndex
      state = .again next) :
    Budgeted ctx plan next := by
  obtain ⟨attemptIndex, outcome, -, houtcome, hafter⟩ := action_body_again _ _ _ _ _ _ _ hbody
  let run := nextRun ctx plan path selection repeatIndex state attemptIndex
  have htimedOut : run.timedOut = (outcome.disposition == some .completeActionTimeout) :=
    timed_out_eq houtcome
  have hlog : RetriesFunded ctx plan (state.runs ++ [run]) := h.log_next rfl
  obtain ⟨executionAttempt, ⟨htimeout, -, rfl⟩ | ⟨hother, retried, -, hretried, rfl⟩⟩ :=
    after_outcome_again _ _ _ hafter
  · rw [htimeout] at htimedOut
    refine ⟨?_, fun hlast => ?_, hlog⟩
    · show (settled (state.runs ++ [run])).length = state.failureAttempt
      rw [settled_concat_of_timed_out htimedOut, h.spent_eq]
    · have hsettled : run.timedOut = false := hlast run List.getLast?_concat
      rw [htimedOut] at hsettled
      cases hsettled
  · have hsettled : run.timedOut = false := by
      rw [htimedOut]
      simpa using hother
    refine ⟨?_, fun _ name hname allowed hallowed => ?_, hlog⟩
    · show (settled (state.runs ++ [run])).length = state.failureAttempt + 1
      rw [settled_concat hsettled, List.length_append, h.spent_eq, List.length_singleton]
    · exact ((mem_retry_pending ctx plan hretried hallowed).mp hname).2

/-! ### The members that an execution asks for -/

omit [External] in
/-- Recording a group execution makes only members fail that it asked for. -/
theorem failing_of_record {members : MemberTables} {pending : List String}
    {outcome : GroupOutcome} {name : String}
    (h : (recordOutcome false expectedMembers pending members outcome).failing name = true)
    (hname : name ∉ pending) : members.failing name = true := by
  have hnone : resultsOf name (memberResults false expectedMembers pending outcome) = [] := by
    refine List.filterMap_eq_nil_iff.mpr fun entry hentry => ?_
    have hmember : entry.1 ∈ pending := by
      cases outcome with
      | observed group =>
          obtain ⟨member, hmember, rfl⟩ := List.mem_map.mp hentry
          exact hmember
      | groupFailed failure =>
          obtain ⟨member, hmember, rfl⟩ := List.mem_map.mp hentry
          exact hmember
    exact if_neg fun heq : entry.1 = name => hname (heq ▸ hmember)
  unfold recordOutcome MemberTables.failing at h
  rw [best_of_record, hnone] at h
  exact h

/-- A member that takes part in the next settled execution. -/
theorem TookPart.concat {name : String} {runs : List GroupRun} {run : GroupRun}
    (h : TookPart ctx plan name runs)
    (hrun : run.timedOut = false → ∀ allowed, allowedAttempts ctx plan name = .ok allowed →
      (settled runs).length < allowed → name ∈ run.names) :
    TookPart ctx plan name (runs ++ [run]) := by
  intro allowed hallowed other hother
  cases htimeout : run.timedOut with
  | true =>
      rw [settled_concat_of_timed_out htimeout] at hother
      exact h allowed hallowed other hother
  | false =>
      rw [settled_concat htimeout, List.take_append] at hother
      rcases List.mem_append.mp hother with hold | hnew
      · exact h allowed hallowed other hold
      · have hlt : (settled runs).length < allowed := by
          refine Nat.lt_of_not_le fun hle => ?_
          rw [Nat.sub_eq_zero_of_le hle] at hnew
          cases hnew
        rw [List.mem_singleton.mp (List.mem_of_mem_take hnew)]
        exact hrun htimeout allowed hallowed hlt

/-- The log with one more execution. -/
theorem Covered.log_next {state : ActionState} (h : Covered ctx plan expectedMembers state)
    {run : GroupRun} (hnames : run.names = state.pending) :
    LogCovered ctx plan expectedMembers (state.runs ++ [run]) := by
  intro before other after hsplit name hname
  rcases split_concat hsplit with ⟨rfl, rfl⟩ | ⟨rest, hrest⟩
  · have hpending := hnames ▸ hname
    have hexpected := h.pending_subset name hpending
    exact ⟨hexpected, h.took_part name hexpected (.inl hpending)⟩
  · exact h.log before other rest hrest name hname

/-- One pass of the retry loop asks for every failing member with budget left. -/
theorem Covered.again {state next : ActionState} (h : Covered ctx plan expectedMembers state)
    (hbudgeted : Budgeted ctx plan state)
    (hlisted : plan.translator.listingStrategy.isWholeTarget = false)
    (hbody : actionBody ctx plan path selection expectedMembers repeatIndex firstAttemptIndex
      state = .again next) :
    Covered ctx plan expectedMembers next := by
  obtain ⟨attemptIndex, outcome, -, houtcome, hafter⟩ := action_body_again _ _ _ _ _ _ _ hbody
  let run := nextRun ctx plan path selection repeatIndex state attemptIndex
  let recorded := recordRun plan expectedMembers state run outcome
  have hlog : LogCovered ctx plan expectedMembers (state.runs ++ [run]) := h.log_next rfl
  -- A member that was not asked for keeps its record.
  have hfailing : ∀ name ∈ expectedMembers, recorded.members.failing name = true →
      name ∈ state.pending ∨ state.members.failing name = true := by
    intro name _ hname
    by_cases hpending : name ∈ state.pending
    · exact .inl hpending
    · have hrecorded : recorded.members = recordOutcome false expectedMembers state.pending
          state.members outcome := by
        rw [← hlisted]
        rfl
      rw [hrecorded] at hname
      exact .inr (failing_of_record hname hpending)
  have htook : ∀ name ∈ expectedMembers, recorded.members.failing name = true →
      TookPart ctx plan name (state.runs ++ [run]) := by
    intro name hexpected hname
    have hbefore := hfailing name hexpected hname
    refine (h.took_part name hexpected hbefore).concat fun _ allowed hallowed hlt => ?_
    rw [hbudgeted.spent_eq] at hlt
    show name ∈ state.pending
    rcases hbefore with hpending | hfailed
    · exact hpending
    · exact h.pending_of_failing name hexpected hfailed allowed hallowed hlt
  obtain ⟨hmembers, hruns, hpending, -⟩ := after_outcome_pending ctx plan expectedMembers hafter
  have hasked : ∀ name ∈ next.pending,
      name ∈ expectedMembers ∧ recorded.members.failing name = true :=
    fun name hname => List.mem_filter.mp (hpending.subset hname)
  refine ⟨fun name hname => (hasked name hname).1, fun name hexpected hname => ?_,
    fun name hexpected hname allowed hallowed hlt => ?_, ?_⟩
  · rw [hruns]
    rw [hmembers] at hname
    exact htook name hexpected (hname.elim (fun hmem => (hasked name hmem).2) id)
  · rw [hmembers] at hname
    have hstill : name ∈ stillFailing expectedMembers recorded.members :=
      List.mem_filter.mpr ⟨hexpected, hname⟩
    obtain ⟨executionAttempt, ⟨-, -, rfl⟩ | ⟨-, retried, -, hretried, rfl⟩⟩ :=
      after_outcome_again _ _ _ hafter
    · exact hstill
    · exact (mem_retry_pending ctx plan hretried hallowed).mpr ⟨hstill, hlt⟩
  · rw [hruns]
    exact hlog

/-! ### The whole log -/

/-- The start of the retry loop, where nothing is spent. -/
theorem budgeted_start (prior : MemberTables) :
    Budgeted ctx plan (ActionState.start expectedMembers prior) where
  spent_eq := rfl
  pending_funded _ _ _ _ hallowed := allowed_attempts_pos ctx plan hallowed
  retries_funded := by
    intro before run after hsplit
    simp [ActionState.start] at hsplit

/-- At the start every expected member is asked for. -/
theorem covered_start (prior : MemberTables) :
    Covered ctx plan expectedMembers (ActionState.start expectedMembers prior) where
  pending_subset _ hname := hname
  took_part := by simp [TookPart, ActionState.start]
  pending_of_failing _ hexpected _ _ _ _ := hexpected
  log := by
    intro before run after hsplit
    simp [ActionState.start] at hsplit

variable (path selection firstAttemptIndex repeatIndex) in
/-- The executions of the retry loop, reruns of timed out ones apart, ask only for members with
budget left. -/
theorem action_loop_funded (prior : MemberTables) :
    RetriesFunded ctx plan
      ((actionLoop ctx plan path selection expectedMembers repeatIndex firstAttemptIndex).run
        (ActionState.start expectedMembers prior)).state.runs := by
  refine (actionLoop ctx plan path selection expectedMembers repeatIndex
    firstAttemptIndex).run_invariant (Budgeted ctx plan)
    (fun exit => RetriesFunded ctx plan exit.state.runs)
    (fun _ _ h hbody => h.again hbody) ?_ _ (budgeted_start prior)
  intro state exit h hbody
  rcases action_body_leave_runs _ _ _ _ _ _ _ hbody with hsame | ⟨attemptIndex, hmore⟩
  · rw [hsame]
    exact h.retries_funded
  · rw [hmore]
    exact h.log_next rfl

variable (path selection firstAttemptIndex repeatIndex) in
/-- The executions of the retry loop ask only for members that took part as often as they were
allowed to. -/
theorem action_loop_covered (prior : MemberTables)
    (hlisted : plan.translator.listingStrategy.isWholeTarget = false) :
    LogCovered ctx plan expectedMembers
      ((actionLoop ctx plan path selection expectedMembers repeatIndex firstAttemptIndex).run
        (ActionState.start expectedMembers prior)).state.runs := by
  refine (actionLoop ctx plan path selection expectedMembers repeatIndex
    firstAttemptIndex).run_invariant
    (fun state => Budgeted ctx plan state ∧ Covered ctx plan expectedMembers state)
    (fun exit => LogCovered ctx plan expectedMembers exit.state.runs)
    (fun _ _ h hbody => ⟨h.1.again hbody, h.2.again h.1 hlisted hbody⟩) ?_ _
    ⟨budgeted_start prior, covered_start prior⟩
  intro state exit h hbody
  rcases action_body_leave_runs _ _ _ _ _ _ _ hbody with hsame | ⟨attemptIndex, hmore⟩
  · rw [hsame]
    exact h.2.log
  · rw [hmore]
    exact h.2.log_next rfl

/-- Without isolation the log of an action is that of its retry loop. -/
theorem fail_all_runs (hpolicy : ctx.config.batchFailurePolicy = .failAll)
    (prior : MemberTables) :
    (executeTestAction ctx plan path selection expectedMembers repeatIndex firstAttemptIndex
        prior).runs =
      ((actionLoop ctx plan path selection expectedMembers repeatIndex firstAttemptIndex).run
        (ActionState.start expectedMembers prior)).state.runs := by
  have hexit := action_loop_exit ctx plan path selection expectedMembers repeatIndex
    firstAttemptIndex prior
  obtain ⟨isolated, hruns, hisolated⟩ := execute_test_action_runs ctx plan repeatIndex path
    selection expectedMembers firstAttemptIndex prior
  have hnone : isolated = [] := by
    refine List.eq_nil_iff_forall_not_mem.mpr fun run hrun => ?_
    obtain ⟨failing, _, hending, -⟩ := hisolated run hrun
    rcases hexit.recorded with ⟨message, hpanicked⟩ | ⟨-, -, hends⟩
    · rw [hending] at hpanicked
      cases hpanicked
    · rw [hending] at hends
      cases hends with
      | isolate _ hrerun =>
          rw [hpolicy] at hrerun
          cases hrerun
  rw [hruns, hnone, List.append_nil]

/-- With funded reruns every settled execution has a position within its members' budgets. -/
theorem RetriesFunded.budget_kept {runs : List GroupRun} (h : RetriesFunded ctx plan runs)
    (hreruns : RerunsFunded ctx plan runs) : BudgetKept ctx plan expectedMembers runs := by
  intro name _ allowed hallowed
  have hcount : executionsOf name (settled runs) ≤ allowed := by
    refine countP_le_of_position fun before run after hsplit hname => ?_
    obtain ⟨earlier, later, hruns, rfl, hsettled⟩ := exists_of_settled hsplit
    have hmember : name ∈ run.names := by simpa using hname
    by_cases hlast : LastSettled earlier
    · exact h earlier run later hruns hsettled hlast name hmember allowed hallowed
    · -- the execution reran a timed out one, which spent nothing
      obtain ⟨timeout, hgetLast, htimeout⟩ : ∃ timeout, earlier.getLast? = some timeout ∧
          timeout.timedOut = true := by simpa [LastSettled] using hlast
      obtain ⟨first, rfl⟩ := List.getLast?_eq_some_iff.mp hgetLast
      rw [settled_concat_of_timed_out htimeout]
      exact hreruns first timeout run later (by simpa using hruns) htimeout hsettled name
        hmember allowed hallowed
  rw [executions_eq]
  omega

/-- A rerun without budget is one execution too many for a member that used all of its budget. -/
theorem LogCovered.reruns_funded {runs : List GroupRun}
    (h : LogCovered ctx plan expectedMembers runs)
    (hkept : BudgetKept ctx plan expectedMembers runs) : RerunsFunded ctx plan runs := by
  intro earlier timeout run later hruns htimeout hsettled name hname allowed hallowed
  refine Nat.lt_of_not_le fun hspent => ?_
  have hsplit : runs = (earlier ++ [timeout]) ++ run :: later := by rw [hruns]; simp
  obtain ⟨hexpected, htook⟩ := h _ run later hsplit name hname
  have hbefore := htook allowed hallowed
  rw [settled_concat_of_timed_out htimeout] at hbefore
  have hall : executionsOf name ((settled earlier).take allowed) = allowed := by
    have hlength : ((settled earlier).take allowed).length = allowed :=
      List.length_take_of_le hspent
    rw [executionsOf, List.countP_eq_length.mpr (by simpa using hbefore), hlength]
  have hsettledRuns : settled runs = settled earlier ++ run :: settled later := by
    rw [hsplit, settled_append, settled_concat_of_timed_out htimeout]
    congr 1
    exact List.filter_cons_of_pos (by simp [hsettled])
  have hmore : allowed + 1 ≤ executionsOf name (settled runs) := by
    have htake : executionsOf name ((settled earlier).take allowed) ≤
        executionsOf name (settled earlier) :=
      (List.take_sublist _ _).countP_le
    rw [hsettledRuns]
    unfold executionsOf at *
    rw [List.countP_append, List.countP_cons_of_pos (by simpa using hname)]
    omega
  have hwithin := hkept name hexpected allowed hallowed
  rw [executions_eq] at hwithin
  omega

/-- Without isolation an action keeps the budget of every member if the reruns of timed out
executions ask only for members with budget left. Where tests are listed one by one, it does so
only then. -/
theorem budget_kept_iff (hpolicy : ctx.config.batchFailurePolicy = .failAll)
    (path : List Nat) (selection : TestSelection String) (expectedMembers : List String)
    (repeatIndex : Nat) (firstAttemptIndex : UInt32) (prior : MemberTables) :
    let runs := (executeTestAction ctx plan path selection expectedMembers repeatIndex
      firstAttemptIndex prior).runs
    (RerunsFunded ctx plan runs → BudgetKept ctx plan expectedMembers runs) ∧
      (plan.translator.listingStrategy.isWholeTarget = false →
        BudgetKept ctx plan expectedMembers runs → RerunsFunded ctx plan runs) := by
  intro runs
  have hruns : runs = ((actionLoop ctx plan path selection expectedMembers repeatIndex
      firstAttemptIndex).run (ActionState.start expectedMembers prior)).state.runs :=
    fail_all_runs hpolicy prior
  rw [hruns]
  exact ⟨(action_loop_funded path selection repeatIndex firstAttemptIndex prior).budget_kept,
    fun hlisted => (action_loop_covered path selection repeatIndex firstAttemptIndex prior
      hlisted).reruns_funded⟩

end Budget

/-! ### A batch with different budgets -/

/-- Where only the first execution times out, its rerun has the whole budget left. -/
theorem reruns_funded_of_first [External] {ctx : TargetCtx} {plan : TargetPlan}
    {runs : List GroupRun} (hsettled : ∀ run ∈ runs.tail, run.timedOut = false) :
    RerunsFunded ctx plan runs := by
  intro earlier timeout run later hruns htimeout _ name _ allowed hallowed
  cases earlier with
  | nil => exact allowed_attempts_pos ctx plan hallowed
  | cons first earlier =>
      have hfalse := hsettled timeout (by simp [hruns])
      rw [htimeout] at hfalse
      cases hfalse

/-- The response of an action that the supervisor stopped at its timeout. -/
def ExecuteResponse2.actionTimeout (token : ResourceMarkerToken) : ExecuteResponse2 where
  response := some (.result
    { status := some (some (.finished 124))
      stdout := none
      stderr := some (some (Text.bytes
        ("quokka resource " ++ token.text ++ " test action timeout: seconds=300\n")))
      executionTime := none
      executionDetails := none
      maxMemoryUsedBytes := none })

/-- An orchestrator that gives the calls of every action these responses, and then the last. -/
def Orchestrator.scripted (responses : List ExecuteResponse2) (last : ExecuteResponse2) :
    Orchestrator where
  execute2 _ call := .ok (responses.getD call last)
  upload _ _ := .skipped ""

/-- Decoders that accept nothing, and keys that tell the test `b` from the others. -/
@[reducible] def External.keyed : External :=
  { External.inert with hashKey := fun testId => if testId.name = "b" then 1 else 0 }

/-- A database that knows one failed run of the test under key 1. -/
def DurationDb.oneFailure : DurationDb :=
  { DurationDb.ephemeral with
    flake := fun _ => (∅ : Table UInt64 FlakeRecord).insert 1 ⟨1, 1, none, none⟩ }

/-- A run without isolation that retries tests with recorded failures. -/
def RunnerConfig.failAll : RunnerConfig :=
  { RunnerConfig.withoutFlags with
    batchFailurePolicy := .failAll
    quokkaConfig := ⟨some ⟨3⟩⟩ }

/-- A batch whose first execution times out: it is executed again before anything is spent, and
then `b` is retried alone. -/
theorem timed_out_batch_keeps_budget :
    letI := External.keyed
    let ctx : TargetCtx := ⟨.failAll, .oneFailure, ⟨true⟩, .always (.finished 1 "")⟩
    ∃ plan, TargetPlan.derive (.plain "rust" []) ctx.config = .ok plan ∧
      let stopped := ExecuteResponse2.actionTimeout (testingToken ctx plan (.explicit ["a", "b"]))
      let ctx := { ctx with orch := .scripted [stopped] (.finished 1 "") }
      let runs := (executeTestAction ctx plan [0, 0] (.explicit ["a", "b"]) ["a", "b"] 0 0
        MemberTables.empty).runs
      allowedAttempts ctx plan "a" = .ok 1 ∧ allowedAttempts ctx plan "b" = .ok 3 ∧
      runs.map GroupRun.names = [["a", "b"], ["a", "b"], ["b"], ["b"]] ∧
      runs.map GroupRun.timedOut = [true, false, false, false] ∧
      BudgetKept ctx plan ["a", "b"] runs := by
  let := External.keyed
  intro ctx
  refine ⟨_, rfl, ?_⟩
  intro stopped ctx runs
  refine ⟨by decide, by decide, by decide +kernel, by decide +kernel, ?_⟩
  exact (budget_kept_iff rfl [0, 0] (.explicit ["a", "b"]) ["a", "b"] 0 0
    MemberTables.empty).1 (reruns_funded_of_first (by decide +kernel))

/-- The same batch, where the retry of `b` times out: `a` is executed twice. -/
theorem timeout_reruns_spent_member :
    letI := External.keyed
    let ctx : TargetCtx := ⟨.failAll, .oneFailure, ⟨true⟩, .always (.finished 1 "")⟩
    ∃ plan, TargetPlan.derive (.plain "rust" []) ctx.config = .ok plan ∧
      let stopped := ExecuteResponse2.actionTimeout (testingToken ctx plan (.explicit ["b"]))
      let ctx := { ctx with orch := .scripted [.finished 1 "", stopped] (.finished 1 "") }
      allowedAttempts ctx plan "a" = .ok 1 ∧ allowedAttempts ctx plan "b" = .ok 3 ∧
      ¬BudgetKept ctx plan ["a", "b"] (executeTestAction ctx plan [0, 0]
        (.explicit ["a", "b"]) ["a", "b"] 0 0 MemberTables.empty).runs := by
  let := External.keyed
  intro ctx
  refine ⟨_, rfl, ?_⟩
  intro stopped ctx
  refine ⟨by decide, by decide, fun hkept => ?_⟩
  have hwithin := hkept "a" (by decide) 1 (by decide)
  revert hwithin
  decide +kernel

end Quokka
