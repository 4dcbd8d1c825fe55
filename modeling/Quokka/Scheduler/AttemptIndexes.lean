import Quokka.Scheduler.ActionResults

/-!
# Attempt indexes and caching

The attempt index of a request is the sum of three counters: the first index of the action, its
group executions and the infrastructure retries of the group. `Numbered` says that the group
executions of a log have consecutive first indexes, and `action_loop_numbered` that the retry
loop numbers its log so. Test-execution caching needs the index zero, so only the first request
of an action can have it, unless the 32-bit sum wraps (`retries_never_enable_caching`).
-/

namespace Quokka

/-- The requests of an action, in the order of its log. -/
def ActionRun.requests (run : ActionRun) : List TestingRequest :=
  run.runs.flatMap GroupRun.requests

/-- Sums up to `bound` are exact: an addition that does not fit panics, or all of them fit. -/
def BuildProfile.Exact (profile : BuildProfile) (bound : Nat) : Prop :=
  profile.overflowChecks = true ∨ bound < UInt32.size

/-- An addition that does not wrap. -/
theorem BuildProfile.Exact.add {profile : BuildProfile} {bound : Nat} (h : profile.Exact bound)
    {a b c : UInt32} (hadd : profile.addU32 a b = .ok c) (hbound : a.toNat + b.toNat ≤ bound) :
    c.toNat = a.toNat + b.toNat := by
  unfold BuildProfile.addU32 at hadd
  split at hadd
  case isTrue => cases hadd
  case isFalse hfits =>
    cases hadd
    have hlt : a.toNat + b.toNat < UInt32.size := by
      rcases h with hchecks | hsmall
      · simpa [hchecks] using hfits
      · omega
    rw [UInt32.toNat_add]
    exact Nat.mod_eq_of_lt hlt

/-- An element behind the head of a list of lists is not the first one of the first list. -/
theorem exists_of_mem_tail_flatMap {α β : Type} {f : α → List β} {list : List α} {b : β}
    (h : b ∈ (list.flatMap f).tail) :
    ∃ (position call : Nat) (a : α),
      list[position]? = some a ∧ (f a)[call]? = some b ∧ 0 < position + call := by
  cases list with
  | nil => cases h
  | cons first rest =>
      have hrest : b ∈ rest.flatMap f → ∃ (position call : Nat) (a : α),
          (first :: rest)[position]? = some a ∧ (f a)[call]? = some b ∧ 0 < position + call := by
        intro hmem
        obtain ⟨a, ha, hb⟩ := List.mem_flatMap.mp hmem
        obtain ⟨position, hposition⟩ := List.mem_iff_getElem?.mp ha
        obtain ⟨call, hcall⟩ := List.mem_iff_getElem?.mp hb
        exact ⟨position + 1, call, a, hposition, hcall, by omega⟩
      rw [List.flatMap_cons] at h
      cases hfirst : f first with
      | nil =>
          rw [hfirst, List.nil_append] at h
          exact hrest (List.mem_of_mem_tail h)
      | cons head others =>
          rw [hfirst, List.cons_append, List.tail_cons] at h
          rcases List.mem_append.mp h with hother | hmem
          · obtain ⟨call, hcall⟩ := List.mem_iff_getElem?.mp hother
            exact ⟨0, call + 1, first, rfl, by rw [hfirst]; exact hcall, by omega⟩
          · exact hrest hmem

section Requests

variable [External] (ctx : TargetCtx) (plan : TargetPlan)

/-- A later attempt runs uncached. -/
theorem group_caching_of_pos {names : List String} {attemptIndex : UInt32}
    (h : 0 < attemptIndex.toNat) : groupCaching ctx plan names attemptIndex = .disabled := by
  have hpos : 0 < attemptIndex := h
  unfold groupCaching TestExecutionCaching.resolve
  simp [hpos]

/-- The requests of a group execution under consecutive attempt indexes. -/
structure Indexed (selection : TestSelection String) (names : List String) (repeatIndex : Nat)
    (attemptIndex : UInt32) (requests : List TestingRequest) : Prop where
  length_le : requests.length ≤ infraMaxAttempts
  request : ∀ position request, requests[position]? = some request →
    ∃ index cgroupMemoryMax,
      ctx.profile.addU32 attemptIndex (.ofNat position) = .ok index ∧
      request = testingRequest ctx plan selection names repeatIndex index cgroupMemoryMax

variable {ctx plan} {path : List Nat} {selection : TestSelection String} {names : List String}
  {repeatIndex : Nat} {attemptIndex : UInt32} {firstCall : Nat}

/-- One more request. -/
theorem Indexed.concat {requests : List TestingRequest} {index : UInt32}
    {cgroupMemoryMax : CgroupMemoryMax}
    (h : Indexed ctx plan selection names repeatIndex attemptIndex requests)
    (hlength : requests.length < infraMaxAttempts)
    (hindex : ctx.profile.addU32 attemptIndex (.ofNat requests.length) = .ok index) :
    Indexed ctx plan selection names repeatIndex attemptIndex
      (requests ++ [testingRequest ctx plan selection names repeatIndex index
        cgroupMemoryMax]) where
  length_le := by
    rw [List.length_append, List.length_singleton]
    omega
  request position request hrequest := by
    rcases Nat.lt_trichotomy position requests.length with hlt | rfl | hgt
    · rw [List.getElem?_append_left hlt] at hrequest
      exact h.request position request hrequest
    · rw [List.getElem?_concat_length] at hrequest
      cases hrequest
      exact ⟨index, cgroupMemoryMax, hindex, rfl⟩
    · rw [List.getElem?_eq_none (by simp; omega)] at hrequest
      cases hrequest

/-- The requests of a group execution. -/
theorem run_group_indexed :
    Indexed ctx plan selection names repeatIndex attemptIndex
      (runGroup ctx plan path selection names repeatIndex attemptIndex firstCall).requests := by
  refine (infraLoop ctx plan path selection names repeatIndex attemptIndex
    firstCall).run_invariant
    (fun state => Indexed ctx plan selection names repeatIndex attemptIndex state.requests ∧
      state.requests.length = state.infraAttempt ∧ state.infraAttempt < infraMaxAttempts)
    (fun exit => Indexed ctx plan selection names repeatIndex attemptIndex exit.requests)
    ?_ ?_ ⟨0, []⟩ ⟨⟨Nat.zero_le _, by simp⟩, rfl, by decide⟩
  · rintro state next ⟨hindexed, hlength, hlt⟩ hbody
    obtain ⟨hbudget, index, _, hindex, -, rfl⟩ := infra_body_again _ _ _ _ _ _ _ _ hbody
    refine ⟨hindexed.concat (by omega) (by rw [hlength]; exact hindex), ?_, hbudget⟩
    rw [List.length_append, hlength]
    rfl
  · rintro state exit ⟨hindexed, hlength, hlt⟩ hbody
    cases infra_body_leave _ _ _ _ _ _ _ _ hbody with
    | overflowed => exact hindexed
    | rejected => exact hindexed
    | answered hindex => exact hindexed.concat (by omega) (by rw [hlength]; exact hindex)

end Requests

section Loop

variable [External] (ctx : TargetCtx) (plan : TargetPlan) (path : List Nat)
  (selection : TestSelection String) (expectedMembers : List String) (repeatIndex : Nat)
  (firstAttemptIndex : UInt32)

/-- The group executions of a log have consecutive attempt indexes from `first` on. -/
def Numbered (first : Nat) (runs : List GroupRun) : Prop :=
  ∀ position run, runs[position]? = some run → ∃ path attemptIndex firstCall,
    attemptIndex.toNat = first + position ∧
    run = runGroup ctx plan path run.selection run.names repeatIndex attemptIndex firstCall

/-- The counters of the retry loop agree with its log. -/
structure Counted (first : Nat) (state : ActionState) : Prop where
  attempt_eq : state.executionAttempt.toNat = state.failureAttempt + state.actionTimeoutAttempts
  length_eq : state.runs.length = state.failureAttempt + state.actionTimeoutAttempts
  failure_lt : state.failureAttempt < attemptBound ctx plan
  timeout_lt : state.actionTimeoutAttempts < infraMaxAttempts
  numbered : Numbered ctx plan repeatIndex first state.runs

/-- How the log and the counters are when the retry loop ends. -/
structure CountedExit (first : Nat) (exit : ActionExit) : Prop where
  numbered : Numbered ctx plan repeatIndex first exit.state.runs
  attempt_le : exit.state.executionAttempt.toNat ≤ attemptBound ctx plan + 1
  length_le : exit.state.runs.length ≤ attemptBound ctx plan + 2
  length_eq : ∀ failing, exit.ending = .isolate failing →
    exit.state.runs.length = exit.state.executionAttempt.toNat + 1

omit [External] in
theorem attempt_bound_pos : 0 < attemptBound ctx plan :=
  Nat.lt_of_lt_of_le plan.retry.maxAttempts_pos (Nat.le_max_left _ _)

variable {ctx plan path selection expectedMembers repeatIndex firstAttemptIndex}

theorem Counted.attempt_le {first : Nat} {state : ActionState}
    (h : Counted ctx plan repeatIndex first state) :
    state.executionAttempt.toNat ≤ attemptBound ctx plan + 1 := by
  have hattempt := h.attempt_eq
  have hfailure := h.failure_lt
  have htimeout := h.timeout_lt
  unfold infraMaxAttempts at htimeout
  omega

/-- One more group execution. -/
theorem Numbered.concat {first : Nat} {runs : List GroupRun} {run : GroupRun}
    (h : Numbered ctx plan repeatIndex first runs) {path : List Nat} {attemptIndex : UInt32}
    {firstCall : Nat} (hindex : attemptIndex.toNat = first + runs.length)
    (hrun : run =
      runGroup ctx plan path run.selection run.names repeatIndex attemptIndex firstCall) :
    Numbered ctx plan repeatIndex first (runs ++ [run]) := by
  intro position other hother
  rcases Nat.lt_trichotomy position runs.length with hlt | rfl | hgt
  · rw [List.getElem?_append_left hlt] at hother
    exact h position other hother
  · rw [List.getElem?_concat_length] at hother
    cases hother
    exact ⟨path, attemptIndex, firstCall, hindex, hrun⟩
  · rw [List.getElem?_eq_none (by simp; omega)] at hother
    cases hother

/-- Going round again counts one more execution. -/
theorem after_outcome_again_attempt {state next : ActionState}
    {disposition : Option GroupFailureDisposition}
    (h : afterOutcome ctx plan expectedMembers state disposition = .again next) :
    ctx.profile.addU32 state.executionAttempt 1 = .ok next.executionAttempt := by
  have hnext : ∀ {pending failureAttempt actionTimeoutAttempts},
      nextAttempt ctx state pending failureAttempt actionTimeoutAttempts = .again next →
        ctx.profile.addU32 state.executionAttempt 1 = .ok next.executionAttempt := by
    intro pending failureAttempt actionTimeoutAttempts hagain
    unfold nextAttempt at hagain
    split at hagain
    · cases hagain
    case h_2 executionAttempt hadd => cases hagain; exact hadd
  unfold afterOutcome at h
  dsimp only at h
  split at h
  · cases h
  split at h
  · split at h
    · exact hnext h
    · cases h
  split at h
  · cases h
  split at h
  · exact hnext h
  split at h <;> cases h

variable (path selection) in
/-- The log with the next group execution. -/
theorem Counted.numbered_next {bound : Nat} {state : ActionState}
    (h : Counted ctx plan repeatIndex firstAttemptIndex.toNat state)
    (hexact : ctx.profile.Exact bound)
    (hbound : firstAttemptIndex.toNat + attemptBound ctx plan + 1 ≤ bound)
    {attemptIndex : UInt32}
    (hindex : ctx.profile.addU32 firstAttemptIndex state.executionAttempt = .ok attemptIndex) :
    Numbered ctx plan repeatIndex firstAttemptIndex.toNat
      (state.runs ++ [nextRun ctx plan path selection repeatIndex state attemptIndex]) := by
  have hattempt := h.attempt_le
  have hsum : attemptIndex.toNat = firstAttemptIndex.toNat + state.runs.length := by
    rw [hexact.add hindex (by omega), h.attempt_eq, h.length_eq]
  exact h.numbered.concat hsum rfl

/-- One pass of the retry loop. -/
theorem Counted.again {bound : Nat} {state next : ActionState}
    (h : Counted ctx plan repeatIndex firstAttemptIndex.toNat state)
    (hexact : ctx.profile.Exact bound)
    (hbound : firstAttemptIndex.toNat + attemptBound ctx plan + 1 ≤ bound)
    (hbody : actionBody ctx plan path selection expectedMembers repeatIndex firstAttemptIndex
      state = .again next) :
    Counted ctx plan repeatIndex firstAttemptIndex.toNat next := by
  obtain ⟨attemptIndex, outcome, hindex, houtcome, hafter⟩ := action_body_again _ _ _ _ _ _ _ hbody
  have hnumbered := h.numbered_next path selection hexact hbound hindex
  have hattempt := h.attempt_eq
  have hlength := h.length_eq
  have hfailure := h.failure_lt
  have htimeout : state.actionTimeoutAttempts < 3 := h.timeout_lt
  have hsum : state.executionAttempt.toNat + 1 ≤ bound →
      next.executionAttempt.toNat = state.executionAttempt.toNat + 1 :=
    hexact.add (after_outcome_again_attempt hafter)
  have hruns : (state.runs ++ [nextRun ctx plan path selection repeatIndex state
      attemptIndex]).length = state.failureAttempt + state.actionTimeoutAttempts + 1 := by
    rw [List.length_append, hlength, List.length_singleton]
  obtain ⟨executionAttempt, ⟨-, hbudget, rfl⟩ | ⟨-, retried, hne, hretried, rfl⟩⟩ :=
    after_outcome_again _ _ _ hafter
  · have hreruns : state.actionTimeoutAttempts + 1 < 3 := hbudget
    refine ⟨?_, hruns, hfailure, hbudget, hnumbered⟩
    rw [hsum (by omega), hattempt]
    rfl
  · have hbudget : state.failureAttempt + 1 < attemptBound ctx plan :=
      retry_pending_bound _ _ hretried hne
    refine ⟨?_, ?_, hbudget, htimeout, hnumbered⟩
    · rw [hsum (by omega), hattempt]
      exact Nat.add_right_comm _ _ _
    · exact hruns.trans (Nat.add_right_comm _ _ _)

/-- The retry loop numbers its log. -/
theorem action_loop_numbered {bound : Nat} (hexact : ctx.profile.Exact bound)
    (hbound : firstAttemptIndex.toNat + attemptBound ctx plan + 1 ≤ bound)
    (prior : MemberTables) :
    CountedExit ctx plan repeatIndex firstAttemptIndex.toNat
      ((actionLoop ctx plan path selection expectedMembers repeatIndex firstAttemptIndex).run
        (ActionState.start expectedMembers prior)) := by
  refine (actionLoop ctx plan path selection expectedMembers repeatIndex
    firstAttemptIndex).run_invariant
    (Counted ctx plan repeatIndex firstAttemptIndex.toNat)
    (CountedExit ctx plan repeatIndex firstAttemptIndex.toNat)
    (fun _ _ h hbody => h.again hexact hbound hbody) ?_ _
    ⟨rfl, rfl, attempt_bound_pos _ _, Nat.zero_lt_succ 2,
      by simp [Numbered, ActionState.start]⟩
  intro state exit h hbody
  have hattempt := h.attempt_le
  have hlength : state.runs.length = state.executionAttempt.toNat := by
    rw [h.length_eq, h.attempt_eq]
  have hnext : ∀ attemptIndex, (state.runs ++ [nextRun ctx plan path selection repeatIndex state
      attemptIndex]).length = state.executionAttempt.toNat + 1 := by
    intro attemptIndex
    rw [List.length_append, h.length_eq, h.attempt_eq, List.length_singleton]
  cases action_body_leave _ _ _ _ _ _ _ hbody with
  | overflowed => exact ⟨h.numbered, h.attempt_le, show state.runs.length ≤ _ by omega, nofun⟩
  | panicked hindex =>
      exact ⟨h.numbered_next path selection hexact hbound hindex, h.attempt_le,
        by rw [hnext]; omega, nofun⟩
  | recorded hindex _ hafter =>
      obtain ⟨hstate, -⟩ := after_outcome_leave ctx plan expectedMembers hafter
      refine ⟨?_, ?_, ?_, ?_⟩
      · rw [hstate]; exact h.numbered_next path selection hexact hbound hindex
      · rw [hstate]; exact h.attempt_le
      · rw [hstate]; exact (hnext _).trans_le (Nat.succ_le_succ h.attempt_le)
      · rw [hstate]; exact fun _ _ => hnext _

/-! ## Caching -/

/-- A group execution with a positive attempt index runs uncached, and so do the later calls of
the first one. -/
theorem Numbered.caching {bound first : Nat} {runs : List GroupRun}
    (h : Numbered ctx plan repeatIndex first runs) (hexact : ctx.profile.Exact bound)
    (hbound : first + runs.length + 1 ≤ bound) {position call : Nat} {run : GroupRun}
    {request : TestingRequest} (hrun : runs[position]? = some run)
    (hrequest : run.requests[call]? = some request) (hpos : 0 < first + position + call) :
    request.caching = .disabled := by
  obtain ⟨path, attemptIndex, firstCall, hindex, heq⟩ := h position run hrun
  have hposition : position < runs.length := (List.getElem?_eq_some_iff.mp hrun).1
  have hindexed := @run_group_indexed _ ctx plan path run.selection run.names repeatIndex
    attemptIndex firstCall
  rw [← heq] at hindexed
  obtain ⟨index, cgroupMemoryMax, hadd, rfl⟩ := hindexed.request call request hrequest
  have hcall : call < 3 :=
    Nat.lt_of_lt_of_le (List.getElem?_eq_some_iff.mp hrequest).1 hindexed.length_le
  have hcallNat : (UInt32.ofNat call).toNat = call :=
    UInt32.toNat_ofNat_of_lt (Nat.lt_trans hcall (by decide))
  have hsum := hexact.add hadd (by omega)
  exact group_caching_of_pos ctx plan (by omega)

/-- An execution in the log of an isolation run is uncached. -/
theorem isolated_caching {bound : Nat} {name : String} {attemptIndex : UInt32}
    {prior : MemberTables} (hexact : ctx.profile.Exact bound) (hpos : 0 < attemptIndex.toNat)
    (hbound : attemptIndex.toNat + attemptBound ctx plan + 3 ≤ bound) {run : GroupRun}
    (hrun : run ∈ (executeSingleton ctx plan repeatIndex path name attemptIndex prior).runs)
    {request : TestingRequest} (hrequest : request ∈ run.requests) :
    request.caching = .disabled := by
  rw [execute_singleton_runs] at hrun
  have hexit := @action_loop_numbered _ ctx plan path (.explicit [name]) [name] repeatIndex
    attemptIndex bound hexact (by omega) prior
  have hlength := hexit.length_le
  obtain ⟨position, hposition⟩ := List.mem_iff_getElem?.mp hrun
  obtain ⟨call, hcall⟩ := List.mem_iff_getElem?.mp hrequest
  exact hexit.numbered.caching hexact (by omega) hposition hcall (by omega)

omit [External] in
/-- The index from which the isolation runs count. -/
theorem isolation_attempt_index_eq {bound : Nat} {executionAttempt attemptIndex : UInt32}
    (hexact : ctx.profile.Exact bound) (hbound : executionAttempt.toNat + 1 ≤ bound)
    (h : isolationAttemptIndex ctx 0 executionAttempt = .ok attemptIndex) :
    attemptIndex.toNat = executionAttempt.toNat + 1 := by
  have hzero : (0 : UInt32).toNat = 0 := rfl
  unfold isolationAttemptIndex at h
  cases hreached : ctx.profile.addU32 0 executionAttempt with
  | error message => rw [hreached] at h; cases h
  | ok reached =>
      rw [hreached] at h
      have hsum := hexact.add hreached (by omega)
      have hnext := hexact.add h (show reached.toNat + 1 ≤ bound by omega)
      rw [hnext, hsum, hzero, Nat.zero_add]
      rfl

end Loop

section Action

variable [External] (ctx : TargetCtx) (plan : TargetPlan) (path : List Nat)
  (selection : TestSelection String) (expectedMembers : List String) (repeatIndex : Nat)

/-- What makes a request run uncached whatever its attempt index is. -/
def Uncacheable (names : List String) : Prop :=
  plan.cacheClass = .disabled ∨ ctx.config.variant.isDefault = false ∨
    plan.repetition.isStress = true ∨
    (ctx.config.durationDb.cacheBustsUnseenTests = true ∧ ∃ name ∈ names,
      ctx.estimates.estimate none (testIdentity plan.spec.display ctx.config name) = .unseen)

theorem group_caching_of_uncacheable {names : List String} (h : Uncacheable ctx plan names)
    (attemptIndex : UInt32) : groupCaching ctx plan names attemptIndex = .disabled := by
  unfold groupCaching TestExecutionCaching.resolve hasUnseen
  rcases h with hclass | hvariant | hstress | ⟨hbusts, name, hname, hunseen⟩
  · simp [hclass]
  · simp [hvariant]
  · simp [hstress]
  · have hany : (names.any fun name => ctx.estimates.estimate none
        (testIdentity plan.spec.display ctx.config name) == .unseen) = true :=
      List.any_eq_true.mpr ⟨name, hname, by rw [hunseen]; rfl⟩
    simp [hbusts, hany]

/-- Only the first request of an action can have test-execution caching enabled, and none has it
when its target, variant, repetition or a member without history forbids it, as long as the
attempt indexes are exact: additions are checked, or no allowance is near `2 ^ 31`. -/
theorem retries_never_enable_caching
    (hexact : ctx.profile.Exact (2 * attemptBound ctx plan + 5)) :
    let action := executeTestAction ctx plan path selection expectedMembers repeatIndex 0
      MemberTables.empty
    (∀ request ∈ action.requests.tail, request.caching = .disabled) ∧
      ∀ run ∈ action.runs, ∀ request ∈ run.requests, Uncacheable ctx plan run.names →
        request.caching = .disabled := by
  intro action
  have hexit := @action_loop_numbered _ ctx plan path selection expectedMembers repeatIndex 0
    _ hexact (by show 0 + _ + 1 ≤ _; omega) MemberTables.empty
  obtain ⟨isolated, hruns, hisolated⟩ := execute_test_action_runs ctx plan repeatIndex path
    selection expectedMembers 0 MemberTables.empty
  generalize (actionLoop ctx plan path selection expectedMembers repeatIndex 0).run
    (ActionState.start expectedMembers MemberTables.empty) = exit at hexit hruns hisolated
  have hlength := hexit.length_le
  have hattempt := hexit.attempt_le
  refine ⟨fun request hrequest => ?_, fun run hrun request hrequest huncacheable => ?_⟩
  · obtain ⟨position, call, run, hrun, hcall, hpos⟩ := exists_of_mem_tail_flatMap hrequest
    have hmem := List.mem_of_getElem? hrun
    rw [hruns] at hrun hmem
    by_cases hmain : position < exit.state.runs.length
    · rw [List.getElem?_append_left hmain] at hrun
      have hzero : (0 : UInt32).toNat = 0 := rfl
      exact hexit.numbered.caching hexact (by omega) hrun hcall (by omega)
    · rw [List.getElem?_append_right (by omega)] at hrun
      obtain ⟨failing, attemptIndex, -, hindex, name, -, childPath, prior, hmem⟩ :=
        hisolated run (List.mem_of_getElem? hrun)
      have hindexed := isolation_attempt_index_eq hexact (by omega) hindex
      exact isolated_caching hexact (by omega) (by omega) hmem (List.mem_of_getElem? hcall)
  · have hgroup : ∃ path attemptIndex firstCall, run =
        runGroup ctx plan path run.selection run.names repeatIndex attemptIndex firstCall := by
      rcases execute_test_action_executed ctx plan repeatIndex hrun with hown | ⟨_, _, hother⟩
      · exact hown.eq_run_group
      · exact hother.eq_run_group
    obtain ⟨runPath, attemptIndex, firstCall, heq⟩ := hgroup
    rw [heq] at hrequest
    obtain ⟨index, cgroupMemoryMax, -, rfl⟩ := run_group_requests ctx plan repeatIndex hrequest
    exact group_caching_of_uncacheable ctx plan huncacheable index

end Action

/-- A batch in a build with overflow checks. -/
theorem checked_retries_never_enable_caching :
    letI := External.inert
    let ctx := TargetCtx.withoutFlags (.always (.finished 1 ""))
    ∃ plan, TargetPlan.derive (.plain "rust" ["rust:flaky"]) ctx.config = .ok plan ∧
      let action := executeTestAction ctx plan [0, 0] (.explicit ["a", "b"]) ["a", "b"] 0 0
        MemberTables.empty
      (∀ request ∈ action.requests.tail, request.caching = .disabled) ∧
        ∀ run ∈ action.runs, ∀ request ∈ run.requests, Uncacheable ctx plan run.names →
          request.caching = .disabled := by
  let := External.inert
  intro ctx
  exact ⟨_, rfl, retries_never_enable_caching ctx _ [0, 0] (.explicit ["a", "b"]) ["a", "b"] 0
    (.inl rfl)⟩

/-! ## An index that wraps -/

/-- Additions that are not checked always succeed. -/
theorem BuildProfile.add_u32_unchecked {profile : BuildProfile}
    (h : profile.overflowChecks = false) (a b : UInt32) : profile.addU32 a b = .ok (a + b) := by
  simp [BuildProfile.addU32, h]

section Wrap

variable [External] {ctx : TargetCtx} {plan : TargetPlan} {path : List Nat} {name error : String}
  {repeatIndex failures : Nat} {memoryMax : CgroupMemoryMax} {state : ActionState}

/-- The retry loop of one member after some failed attempts. -/
structure FailedAttempts (name : String) (count : Nat) (state : ActionState) : Prop where
  pending_eq : state.pending = [name]
  failure_eq : state.failureAttempt = count
  attempt_eq : state.executionAttempt = .ofNat count
  calls_eq : state.calls = count

omit [External] in
/-- A member of a failed group keeps failing. -/
theorem failing_of_group_failed {isWholeTarget : Bool} {members : MemberTables}
    {failure : FailedGroup} (hincomplete : failure.disposition = .incomplete)
    (hstatus : failure.status.isFailure = true) :
    stillFailing [name] (recordOutcome isWholeTarget [name] [name] members
      (.groupFailed failure)) = [name] := by
  have hbest : (recordOutcome isWholeTarget [name] [name] members
      (.groupFailed failure)).bestOf name = some failure.memberResult.toBest := by
    show (mergeBest members.best name failure.memberResult.toBest).lookup name = _
    unfold mergeBest
    rw [Table.lookup_update_self]
    have hmissing : failure.memberResult.toBest.integrity = .missingTerminalResult := by
      show failure.disposition.integrity = _
      rw [hincomplete]
      rfl
    unfold betterObs
    rw [if_pos hmissing]
  refine List.filter_eq_self.mpr fun member hmember => ?_
  rw [List.mem_singleton.mp hmember, MemberTables.failing, hbest]
  exact hstatus

/-- What follows a failed attempt of one member. -/
theorem after_failed_attempt {failure : FailedGroup} {run : GroupRun} {allowed : Nat}
    (hallowed : allowedAttempts ctx plan name = .ok allowed)
    (hincomplete : failure.disposition = .incomplete)
    (hstatus : failure.status.isFailure = true) (hpending : state.pending = [name]) :
    let recorded := recordRun plan [name] state run (.groupFailed failure)
    afterOutcome ctx plan [name] recorded (GroupOutcome.groupFailed failure).disposition =
      if state.failureAttempt + 1 < allowed then
        nextAttempt ctx recorded [name] (state.failureAttempt + 1) state.actionTimeoutAttempts
      else .leave ⟨recorded, .report⟩ := by
  intro recorded
  have hfailing : stillFailing [name] recorded.members = [name] := by
    show stillFailing [name] (recordOutcome _ [name] state.pending _ _) = _
    rw [hpending]
    exact failing_of_group_failed hincomplete hstatus
  have hretry : retryPending ctx plan state.failureAttempt [name] =
      .ok (if state.failureAttempt + 1 < allowed then [name] else []) := by
    unfold retryPending
    rw [hallowed]
    rfl
  unfold afterOutcome
  dsimp only
  rw [hfailing, show (GroupOutcome.groupFailed failure).disposition = some failure.disposition
    from rfl, hincomplete, show recorded.failureAttempt = state.failureAttempt from rfl, hretry]
  by_cases hlt : state.failureAttempt + 1 < allowed <;> simp [hlt]
  rfl

/-- The next group execution. -/
theorem FailedAttempts.next_run {count : Nat} (h : FailedAttempts name count state)
    (attemptIndex : UInt32) :
    nextRun ctx plan path (.explicit [name]) repeatIndex state attemptIndex =
      runGroup ctx plan path (.explicit [name]) [name] repeatIndex attemptIndex count := by
  have hselection : currentSelection (.explicit [name]) state = .explicit [name] := by
    unfold currentSelection
    rw [h.pending_eq, ite_self]
  rw [nextRun, hselection, h.pending_eq, h.calls_eq]

/-- A failed call of one member, within its allowance. -/
theorem FailedAttempts.again {count allowed : Nat} (h : FailedAttempts name count state)
    (hunchecked : ctx.profile.overflowChecks = false)
    (hmax : cgroupMemoryMaxForAction ctx.config.cgroupMemoryMax
      ctx.config.cgroupMemoryMaxOverrides plan.spec.display [name] = .ok memoryMax)
    (hallowed : allowedAttempts ctx plan name = .ok allowed) (hlt : count + 1 < allowed)
    (hdown : ctx.orch.execute2 path count = .error error) :
    ∃ next, actionBody ctx plan path (.explicit [name]) [name] repeatIndex 0 state = .again next ∧
      FailedAttempts name (count + 1) next := by
  let run := nextRun ctx plan path (.explicit [name]) repeatIndex state (.ofNat count)
  let failure := FailedGroup.unmeasured .fatal ("Execute2 RPC failed: " ++ error)
  have hindex : ctx.profile.addU32 0 state.executionAttempt = .ok (.ofNat count) := by
    rw [BuildProfile.add_u32_unchecked hunchecked, UInt32.zero_add, h.attempt_eq]
  have hrun : run =
      { selection := .explicit [name], names := [name]
        requests := [testingRequest ctx plan (.explicit [name]) [name] repeatIndex
          (.ofNat count) memoryMax]
        outcome := .ok (.groupFailed failure) } := by
    refine (h.next_run _).trans (run_group_of_answer ?_ hmax ?_)
    · rw [BuildProfile.add_u32_unchecked hunchecked, UInt32.add_zero]
    · rw [hdown]
      rfl
  have hbody : actionBody ctx plan path (.explicit [name]) [name] repeatIndex 0 state =
      afterOutcome ctx plan [name] (recordRun plan [name] state run (.groupFailed failure))
        (GroupOutcome.groupFailed failure).disposition := by
    have houtcome : run.outcome = .ok (.groupFailed failure) := by rw [hrun]
    unfold actionBody
    rw [hindex]
    dsimp only
    rw [houtcome]
  rw [hbody, after_failed_attempt hallowed rfl rfl h.pending_eq, h.failure_eq, if_pos hlt]
  unfold nextAttempt
  rw [BuildProfile.add_u32_unchecked hunchecked]
  refine ⟨_, rfl, rfl, rfl, ?_, ?_⟩
  · show state.executionAttempt + 1 = _
    rw [h.attempt_eq, UInt32.ofNat_add]
    rfl
  · show state.calls + run.requests.length = count + 1
    rw [hrun, h.calls_eq]
    rfl

/-- The retry loop reaches the last attempt that its allowance grants. -/
theorem exists_failed_attempts {prior : MemberTables}
    (hunchecked : ctx.profile.overflowChecks = false)
    (hmax : cgroupMemoryMaxForAction ctx.config.cgroupMemoryMax
      ctx.config.cgroupMemoryMaxOverrides plan.spec.display [name] = .ok memoryMax)
    (hallowed : allowedAttempts ctx plan name = .ok (failures + 1))
    (hdown : ∀ call < failures, ctx.orch.execute2 path call = .error error) :
    let loop := actionLoop ctx plan path (.explicit [name]) [name] repeatIndex 0
    ∃ state, FailedAttempts name failures state ∧
      loop.run (ActionState.start [name] prior) = loop.run state := by
  intro loop
  have hreached : ∀ count ≤ failures, ∃ state, FailedAttempts name count state ∧
      loop.run (ActionState.start [name] prior) = loop.run state := by
    intro count hcount
    induction count with
    | zero => exact ⟨_, ⟨rfl, rfl, rfl, rfl⟩, rfl⟩
    | succ count ih =>
        obtain ⟨state, hstate, hrun⟩ := ih (by omega)
        obtain ⟨next, hbody, hnext⟩ := hstate.again hunchecked hmax hallowed (by omega)
          (hdown count (by omega))
        exact ⟨next, hnext, hrun.trans (loop.run_of_again hbody)⟩
  exact hreached failures (Nat.le_refl _)

/-- A member that failed `2 ^ 32 - 2` times and then times out in the queue twice: the index of
the last call wraps to zero. -/
theorem wrapped_index_is_cached {prior : MemberTables}
    (hunchecked : ctx.profile.overflowChecks = false)
    (hmax : cgroupMemoryMaxForAction ctx.config.cgroupMemoryMax
      ctx.config.cgroupMemoryMaxOverrides plan.spec.display [name] = .ok memoryMax)
    (hfailures : failures + 2 = UInt32.size)
    (hallowed : allowedAttempts ctx plan name = .ok (failures + 1))
    (hdown : ∀ call < failures, ctx.orch.execute2 path call = .error error)
    (hqueued : ∀ call, failures ≤ call → ctx.orch.execute2 path call =
      .ok ⟨some (.cancelled (some reQueueTimeout))⟩) :
    ∃ sent, (executeTestAction ctx plan path (.explicit [name]) [name] repeatIndex 0
        prior).requests = sent ++ [testingRequest ctx plan (.explicit [name]) [name] repeatIndex 0
          memoryMax] ∧ sent ≠ [] := by
  obtain ⟨state, hstate, hloop⟩ := @exists_failed_attempts _ ctx plan path name error repeatIndex
    failures memoryMax prior hunchecked hmax hallowed hdown
  let index := UInt32.ofNat failures
  let request := fun attemptIndex =>
    testingRequest ctx plan (.explicit [name]) [name] repeatIndex attemptIndex memoryMax
  let run := nextRun ctx plan path (.explicit [name]) repeatIndex state index
  have hwrap : index + 2 = 0 := by
    show UInt32.ofNat failures + UInt32.ofNat 2 = _
    rw [← UInt32.ofNat_add, hfailures]
    rfl
  have hrun : run =
      { selection := .explicit [name], names := [name]
        requests := [index, index + 1, 0].map request
        outcome := .ok infraExhausted } := by
    refine (hstate.next_run _).trans
      (run_group_of_queue_timeouts ?_ ?_ ?_ hmax fun call hcall => ?_)
    · rw [BuildProfile.add_u32_unchecked hunchecked, UInt32.add_zero]
    · rw [BuildProfile.add_u32_unchecked hunchecked]
    · rw [BuildProfile.add_u32_unchecked hunchecked, hwrap]
    · rw [hqueued call hcall]
      rfl
  let recorded := recordRun plan [name] state run infraExhausted
  have hbody : actionBody ctx plan path (.explicit [name]) [name] repeatIndex 0 state =
      .leave ⟨recorded, .report⟩ := by
    have houtcome : run.outcome = .ok infraExhausted := by rw [hrun]
    have hlast : ¬state.failureAttempt + 1 < failures + 1 := by
      rw [hstate.failure_eq]
      exact Nat.lt_irrefl _
    unfold actionBody
    rw [BuildProfile.add_u32_unchecked hunchecked, UInt32.zero_add, hstate.attempt_eq]
    dsimp only
    rw [houtcome]
    exact (after_failed_attempt hallowed rfl rfl hstate.pending_eq).trans (if_neg hlast)
  have hexit := hloop.trans (BoundedLoop.run_of_leave _ hbody)
  have hruns : (executeTestAction ctx plan path (.explicit [name]) [name] repeatIndex 0
      prior).runs = state.runs ++ [run] := by
    unfold executeTestAction executeTestActionWith
    rw [hexit]
    rfl
  refine ⟨state.runs.flatMap GroupRun.requests ++ [index, index + 1].map request, ?_, by simp⟩
  unfold ActionRun.requests
  rw [hruns, List.flatMap_append, List.flatMap_singleton, hrun]
  simp [request]

end Wrap

/-- An orchestrator that cannot be reached at first and then has no free worker. -/
def Orchestrator.downThenQueued (failures : Nat) : Orchestrator where
  execute2 _ call :=
    if call < failures then .error "unavailable"
    else .ok ⟨some (.cancelled (some reQueueTimeout))⟩
  upload _ _ := .skipped ""

/-- The same with a test that is allowed `2 ^ 32 - 1` attempts. -/
theorem wrapped_retry_is_cached :
    letI := External.inert
    let config := { RunnerConfig.withoutFlags with flakyAttempts := UInt32.size - 1 }
    let ctx : TargetCtx := ⟨config, .ephemeral, ⟨false⟩, .downThenQueued (UInt32.size - 2)⟩
    ∃ plan, TargetPlan.derive (.plain "rust" ["rust:flaky"]) ctx.config = .ok plan ∧
      ∃ request ∈ (executeTestAction ctx plan [0, 0] (.explicit ["a"]) ["a"] 0 0
        MemberTables.empty).requests.tail, request.caching = .enabled := by
  let := External.inert
  intro config ctx
  obtain ⟨plan, hplan, hallowed, hmax, hcaching⟩ : ∃ plan,
      TargetPlan.derive (.plain "rust" ["rust:flaky"]) config = .ok plan ∧
      allowedAttempts ctx plan "a" = .ok (UInt32.size - 2 + 1) ∧
      cgroupMemoryMaxForAction config.cgroupMemoryMax config.cgroupMemoryMaxOverrides
        plan.spec.display ["a"] = .ok config.cgroupMemoryMax ∧
      groupCaching ctx plan ["a"] 0 = .enabled :=
    ⟨_, rfl, by decide, rfl, by decide⟩
  have hdown : ∀ call < UInt32.size - 2, ctx.orch.execute2 [0, 0] call = .error "unavailable" :=
    fun call hcall => if_pos hcall
  have hqueued : ∀ call, UInt32.size - 2 ≤ call → ctx.orch.execute2 [0, 0] call =
      .ok ⟨some (.cancelled (some reQueueTimeout))⟩ :=
    fun call hcall => if_neg (Nat.not_lt.mpr hcall)
  obtain ⟨sent, hrequests, hsent⟩ := @wrapped_index_is_cached _ ctx plan [0, 0] "a" "unavailable" 0
    (UInt32.size - 2) _ MemberTables.empty rfl hmax (by decide) hallowed hdown hqueued
  refine ⟨plan, hplan, testingRequest ctx plan (.explicit ["a"]) ["a"] 0 0 config.cgroupMemoryMax,
    ?_, hcaching⟩
  rw [hrequests, List.tail_append_of_ne_nil hsent]
  exact List.mem_append_right _ List.mem_cons_self

end Quokka
