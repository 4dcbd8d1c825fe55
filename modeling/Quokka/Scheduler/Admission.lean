import Quokka.Library.Semaphore
import Quokka.Scheduler.Action

/-!
# Admission of actions

How the actions of all targets share the permits of the scheduler, after `run_group`,
`execute_test_action` and `isolate_failures` of `scheduler.rs`. An action takes a permit of its
target before it prepares its request and a global one before it issues the call; it gives both
back when the call has returned. Then it ends, or retries, or runs its failing tests as actions
of their own and waits for them.

`admissionStep` is one step of one action; a run is any sequence of steps. What a call answers,
and so what an action does next, is left open. A target is one call of `run_target`, whose
actions share a semaphore. `AdmissionState.Valid` is the invariant, and
`not_all_blocked` says that some action can always go on.
-/

namespace Quokka

open Function

/-- The concurrency limits of test actions; resolving the arguments makes them positive. -/
structure SchedulerLimits where
  maxInflightTestActions : Nat
  maxInflightPerTarget : Nat
  test_actions_pos : 0 < maxInflightTestActions
  per_target_pos : 0 < maxInflightPerTarget

theorem limit_pos (limit : Nat) : 0 < max limit 1 := by
  omega

/-- The limits for the given arguments. -/
def SchedulerLimits.resolve (maxInflightTestActions maxInflightPerTarget : Nat) :
    SchedulerLimits where
  maxInflightTestActions := max maxInflightTestActions 1
  maxInflightPerTarget := max maxInflightPerTarget 1
  test_actions_pos := limit_pos maxInflightTestActions
  per_target_pos := limit_pos maxInflightPerTarget

/-- Where an action is. -/
inductive ActionPc where
  /-- At the top of the loop of `run_group`. -/
  | admission
  | queuedForTarget
  | preparing
  | queuedForGlobal
  | inFlight
  /-- The call has returned and the global permit is released. -/
  | answered
  /-- Both permits are released, and what comes next depends on the answer. -/
  | settled
  /-- Waiting for the actions of the isolated tests. -/
  | joining (children : List Nat)
  | finished
  deriving DecidableEq, Repr

/-- An action of a target: `members` is the number of its tests, `allowedAttempts` the largest
number of attempts that one of them has. -/
structure AdmittedAction (τ : Type) where
  target : τ
  members : Nat
  allowedAttempts : Nat
  pc : ActionPc := .admission
  infraAttempt : Nat := 0
  actionTimeoutAttempts : Nat := 0
  failureAttempt : Nat := 0

/-- Why a group is run again. -/
inductive RetryReason where
  | queueTimeout
  | actionTimeout
  | failure
  deriving DecidableEq, Repr

namespace AdmittedAction

variable {τ : Type}

/-- The budget of a retry. -/
def MayRetry (action : AdmittedAction τ) : RetryReason → Prop
  | .queueTimeout => action.infraAttempt + 1 < infraMaxAttempts
  | .actionTimeout => action.actionTimeoutAttempts + 1 < infraMaxAttempts
  | .failure => action.failureAttempt + 1 < action.allowedAttempts

instance (action : AdmittedAction τ) (reason : RetryReason) :
    Decidable (action.MayRetry reason) := by
  cases reason <;> exact Nat.decLt _ _

/-- Run the group again. -/
def retry (action : AdmittedAction τ) : RetryReason → AdmittedAction τ
  | .queueTimeout => { action with pc := .admission, infraAttempt := action.infraAttempt + 1 }
  | .actionTimeout =>
      { action with
        pc := .admission
        infraAttempt := 0
        actionTimeoutAttempts := action.actionTimeoutAttempts + 1 }
  | .failure =>
      { action with
        pc := .admission
        infraAttempt := 0
        failureAttempt := action.failureAttempt + 1 }

/-- The call of the action is in flight, under a global permit. -/
@[simp] def holdsGlobal (action : AdmittedAction τ) : Bool := action.pc = .inFlight

/-- The action is queued for a global permit. -/
@[simp] def waitsGlobal (action : AdmittedAction τ) : Bool := action.pc = .queuedForGlobal

variable [DecidableEq τ]

/-- The action has a permit of a target. -/
@[simp] def holdsTarget (target : τ) (action : AdmittedAction τ) : Bool :=
  action.target = target ∧
    (action.pc = .preparing ∨ action.pc = .queuedForGlobal ∨ action.pc = .inFlight ∨
      action.pc = .answered)

/-- The action is queued for a permit of a target. -/
@[simp] def waitsTarget (target : τ) (action : AdmittedAction τ) : Bool :=
  action.target = target ∧ action.pc = .queuedForTarget

end AdmittedAction

/-- The semaphores and all actions, in the order in which they were spawned. -/
structure AdmissionState (τ : Type) where
  global : Semaphore
  perTarget : τ → Semaphore
  actions : List (AdmittedAction τ)

/-- A step of an action. -/
inductive AdmissionAct where
  | acquireTarget
  /-- The memory limit of the group is not unique, and `run_group` returns early. -/
  | rejectRequest
  | acquireGlobal
  | answer
  | releaseTarget
  | retry (reason : RetryReason)
  | isolate (failing : Nat)
  | join
  | finish
  deriving DecidableEq, Repr

/-- A new action of a target, or a step of an action. -/
inductive AdmissionEvent (τ : Type) where
  | spawn (target : τ) (members allowedAttempts : Nat)
  | act (action : Nat) (step : AdmissionAct)

namespace AdmissionState

variable {τ : Type}

/-- Before the first target has arrived. -/
def start (limits : SchedulerLimits) : AdmissionState τ where
  global := .new limits.maxInflightTestActions
  perTarget _ := .new limits.maxInflightPerTarget
  actions := []

/-- An action has ended. -/
def Finished (s : AdmissionState τ) (action : Nat) : Prop :=
  ∃ a, s.actions[action]? = some a ∧ a.pc = .finished

instance (s : AdmissionState τ) (action : Nat) : Decidable (s.Finished action) :=
  match h : s.actions[action]? with
  | some a => decidable_of_iff (a.pc = .finished) (by simp [Finished, h])
  | none => isFalse (by simp [Finished, h])

/-- When an action can do a step. -/
def Enabled (s : AdmissionState τ) (a : AdmittedAction τ) : AdmissionAct → Prop
  | .acquireTarget => a.pc = .admission
  | .rejectRequest => a.pc = .preparing
  | .acquireGlobal => a.pc = .preparing
  | .answer => a.pc = .inFlight
  | .releaseTarget => a.pc = .answered
  | .retry reason => a.pc = .settled ∧ a.MayRetry reason
  | .isolate failing => a.pc = .settled ∧ 1 < a.members ∧ 0 < failing ∧ failing ≤ a.members
  | .join =>
      match a.pc with
      | .joining children => ∀ child ∈ children, s.Finished child
      | _ => False
  | .finish => a.pc = .settled

instance (s : AdmissionState τ) (a : AdmittedAction τ) (step : AdmissionAct) :
    Decidable (s.Enabled a step) := by
  cases step
  case join => unfold Enabled; cases a.pc <;> infer_instance
  all_goals unfold Enabled; infer_instance

/-- An action joins its isolated tests when all of them have ended. -/
theorem enabled_join {s : AdmissionState τ} {a : AdmittedAction τ} :
    s.Enabled a .join ↔
      ∃ children, a.pc = .joining children ∧ ∀ child ∈ children, s.Finished child := by
  show (match a.pc with
    | .joining children => ∀ child ∈ children, s.Finished child
    | _ => False) ↔ _
  split
  · rename_i children hjoining
    simp [hjoining]
  · rename_i hother
    simp only [false_iff]
    rintro ⟨children, hjoining, -⟩
    exact hother children hjoining

/-- A waiting action gets a permit. -/
def grant (actions : List (AdmittedAction τ)) (next : Option Nat) (pc : ActionPc) :
    List (AdmittedAction τ) :=
  match next with
  | none => actions
  | some next =>
      match actions[next]? with
      | some a => actions.set next { a with pc }
      | none => actions

variable [DecidableEq τ]

/-- Give the permit of the target back. -/
def giveBack (s : AdmissionState τ) (i : Nat) (a : AdmittedAction τ) : AdmissionState τ :=
  let (next, sem) := (s.perTarget a.target).release
  { s with
    perTarget := update s.perTarget a.target sem
    actions := grant (s.actions.set i { a with pc := .settled }) next .preparing }

/-- The state after a step of the action at position `i`. -/
def next (s : AdmissionState τ) (i : Nat) (a : AdmittedAction τ) : AdmissionAct → AdmissionState τ
  | .acquireTarget =>
      let (granted, sem) := (s.perTarget a.target).acquire i
      { s with
        perTarget := update s.perTarget a.target sem
        actions := s.actions.set i
          { a with pc := if granted then .preparing else .queuedForTarget } }
  | .rejectRequest => s.giveBack i a
  | .acquireGlobal =>
      let (granted, sem) := s.global.acquire i
      { s with
        global := sem
        actions := s.actions.set i
          { a with pc := if granted then .inFlight else .queuedForGlobal } }
  | .answer =>
      let (next, sem) := s.global.release
      { s with
        global := sem
        actions := grant (s.actions.set i { a with pc := .answered }) next .inFlight }
  | .releaseTarget => s.giveBack i a
  | .retry reason => { s with actions := s.actions.set i (a.retry reason) }
  | .isolate failing =>
      let children := List.range' s.actions.length failing
      let child : AdmittedAction τ :=
        { target := a.target, members := 1, allowedAttempts := a.allowedAttempts }
      { s with
        actions := s.actions.set i { a with pc := .joining children } ++
          List.replicate failing child }
  | .join => { s with actions := s.actions.set i { a with pc := .finished } }
  | .finish => { s with actions := s.actions.set i { a with pc := .finished } }

end AdmissionState

variable {τ : Type} [DecidableEq τ]

/-- One step of a run; `none` if the action cannot do it. -/
def admissionStep (s : AdmissionState τ) : AdmissionEvent τ → Option (AdmissionState τ)
  | .spawn target members allowedAttempts =>
      some { s with actions := s.actions ++ [{ target, members, allowedAttempts }] }
  | .act i step =>
      match s.actions[i]? with
      | some a => if s.Enabled a step then some (s.next i a step) else none
      | none => none

/-- A run, from before the first target. -/
def admissionRun (limits : SchedulerLimits) (events : List (AdmissionEvent τ)) :
    Option (AdmissionState τ) :=
  events.foldlM admissionStep (AdmissionState.start limits)

/-! ## The invariant -/

namespace AdmissionState

variable {limits : SchedulerLimits} {s : AdmissionState τ} {i : Nat} {a b : AdmittedAction τ}

/-- An action that exists and has one test. -/
def Single (actions : List (AdmittedAction τ)) (child : Nat) : Prop :=
  ∃ c, actions[child]? = some c ∧ c.members ≤ 1

/-- Only actions of several tests wait for others, and only for actions of one test. -/
def Isolated (actions : List (AdmittedAction τ)) : Prop :=
  ∀ a ∈ actions, ∀ children, a.pc = .joining children →
    1 < a.members ∧ ∀ child ∈ children, Single actions child

/-- The invariant of the runs. -/
structure Valid (limits : SchedulerLimits) (s : AdmissionState τ) : Prop where
  global : s.global.Governs limits.maxInflightTestActions AdmittedAction.holdsGlobal
    AdmittedAction.waitsGlobal s.actions
  perTarget : ∀ target, (s.perTarget target).Governs limits.maxInflightPerTarget
    (AdmittedAction.holdsTarget target) (AdmittedAction.waitsTarget target) s.actions
  isolated : Isolated s.actions

omit [DecidableEq τ] in
theorem Single.set {actions : List (AdmittedAction τ)} {child : Nat} (h : Single actions child)
    (ha : actions[i]? = some a) (hmembers : b.members = a.members) :
    Single (actions.set i b) child := by
  obtain ⟨c, hc, hsingle⟩ := h
  by_cases hi : i = child
  · subst hi
    cases Option.some.inj (ha.symm.trans hc)
    have hlt := (List.getElem?_eq_some_iff.mp hc).1
    exact ⟨b, List.getElem?_set_self hlt, hmembers ▸ hsingle⟩
  · exact ⟨c, (List.getElem?_set_ne hi).trans hc, hsingle⟩

omit [DecidableEq τ] in
theorem Single.append {actions : List (AdmittedAction τ)} {child : Nat} (h : Single actions child)
    (added : List (AdmittedAction τ)) : Single (actions ++ added) child := by
  obtain ⟨c, hc, hsingle⟩ := h
  have hlt := (List.getElem?_eq_some_iff.mp hc).1
  exact ⟨c, (List.getElem?_append_left hlt).trans hc, hsingle⟩

omit [DecidableEq τ] in
/-- An action that changes but does not start to wait for others. -/
theorem Isolated.set {actions : List (AdmittedAction τ)} (h : Isolated actions)
    (ha : actions[i]? = some a) (hmembers : b.members = a.members)
    (hpc : ∀ children, b.pc ≠ .joining children) : Isolated (actions.set i b) := by
  intro x hx children hjoining
  rcases List.mem_or_eq_of_mem_set hx with hold | rfl
  · obtain ⟨hsize, hchildren⟩ := h x hold children hjoining
    exact ⟨hsize, fun child hchild => (hchildren child hchild).set ha hmembers⟩
  · exact absurd hjoining (hpc children)

omit [DecidableEq τ] in
/-- New actions do not wait for others. -/
theorem Isolated.append {actions added : List (AdmittedAction τ)} (h : Isolated actions)
    (hadded : ∀ x ∈ added, x.pc = .admission) : Isolated (actions ++ added) := by
  intro x hx children hjoining
  rcases List.mem_append.mp hx with hold | hnew
  · obtain ⟨hsize, hchildren⟩ := h x hold children hjoining
    exact ⟨hsize, fun child hchild => (hchildren child hchild).append added⟩
  · rw [hadded x hnew] at hjoining
    cases hjoining

/-- A step that only changes where an action is, between places without permits. -/
theorem Valid.set_idle (h : Valid limits s) (ha : s.actions[i]? = some a)
    (hmembers : b.members = a.members)
    (hbefore : a.pc = .settled ∨ ∃ children, a.pc = .joining children)
    (hafter : b.pc = .admission ∨ b.pc = .finished) :
    Valid limits { s with actions := s.actions.set i b } := by
  have hidle : ∀ x : AdmittedAction τ, (x.pc = .settled ∨ (∃ children, x.pc = .joining children) ∨
      x.pc = .admission ∨ x.pc = .finished) → x.holdsGlobal = false ∧ x.waitsGlobal = false ∧
      ∀ target, x.holdsTarget target = false ∧ x.waitsTarget target = false := by
    intro x hx
    rcases hx with hpc | ⟨children, hpc⟩ | hpc | hpc <;> simp [hpc]
  have hold := hidle a (hbefore.imp_right .inl)
  have hnew := hidle b (.inr (.inr hafter))
  refine ⟨?_, fun target => ?_, h.isolated.set ha hmembers ?_⟩
  · exact h.global.set_same ha (hnew.1.trans hold.1.symm) (hnew.2.1.trans hold.2.1.symm)
  · exact (h.perTarget target).set_same ha
      ((hnew.2.2 target).1.trans (hold.2.2 target).1.symm)
      ((hnew.2.2 target).2.trans (hold.2.2 target).2.symm)
  · intro children hjoining
    rcases hafter with hpc | hpc <;> rw [hpc] at hjoining <;> cases hjoining

/-- An action asks for a permit of its target. -/
theorem Valid.acquire_target (h : Valid limits s) (ha : s.actions[i]? = some a)
    (hpc : a.pc = .admission) : Valid limits (s.next i a .acquireTarget) := by
  unfold next
  cases hacquire : (s.perTarget a.target).acquire i with
  | mk granted sem =>
      refine ⟨?_, fun target => ?_, h.isolated.set ha rfl (by cases granted <;> nofun)⟩
      · refine h.global.set_same ha ?_ ?_ <;>
          cases granted <;> simp [hpc]
      · by_cases htarget : target = a.target
        · subst htarget
          show (update s.perTarget a.target sem a.target).Governs _ _ _ _
          rw [update_self]
          have hnot : a.holdsTarget a.target = false ∧ a.waitsTarget a.target = false := by
            simp [hpc]
          cases granted with
          | true =>
              refine (h.perTarget a.target).granted ha hnot.1 hnot.2 ?_ ?_ hacquire <;>
                simp
          | false =>
              refine (h.perTarget a.target).queued ha hnot.1 hnot.2 ?_ ?_ hacquire <;>
                simp
        · show (update s.perTarget a.target sem target).Governs _ _ _ _
          rw [update_of_ne htarget]
          refine (h.perTarget target).set_same ha ?_ ?_ <;>
            simp [Ne.symm htarget]

/-- An action with a permit of its target asks for a global one. -/
theorem Valid.acquire_global (h : Valid limits s) (ha : s.actions[i]? = some a)
    (hpc : a.pc = .preparing) : Valid limits (s.next i a .acquireGlobal) := by
  unfold next
  cases hacquire : s.global.acquire i with
  | mk granted sem =>
      refine ⟨?_, fun target => ?_, h.isolated.set ha rfl (by cases granted <;> nofun)⟩
      · have hnot : a.holdsGlobal = false ∧ a.waitsGlobal = false := by
          simp [hpc]
        cases granted with
        | true => exact h.global.granted ha hnot.1 hnot.2 rfl rfl hacquire
        | false => exact h.global.queued ha hnot.1 hnot.2 rfl rfl hacquire
      · refine (h.perTarget target).set_same ha ?_ ?_ <;>
          cases granted <;> simp [hpc]

omit [DecidableEq τ] in
/-- A waiting action gets the permit. -/
theorem grant_set {actions : List (AdmittedAction τ)} {next : Nat} {x : AdmittedAction τ}
    (hne : next ≠ i) (hx : actions[next]? = some x) (pc : ActionPc) :
    grant (actions.set i b) (some next) pc = (actions.set i b).set next { x with pc } := by
  have hnext : (actions.set i b)[next]? = some x := (List.getElem?_set_ne hne.symm).trans hx
  simp only [grant, hnext]

/-- An action gives the permit of its target back, and the first action of the target that is
queued gets it. -/
theorem Valid.give_back (h : Valid limits s) (ha : s.actions[i]? = some a)
    (hpc : a.pc = .preparing ∨ a.pc = .answered) : Valid limits (s.giveBack i a) := by
  have hheld : a.holdsTarget a.target = true ∧ a.waitsTarget a.target = false := by
    rcases hpc with hpc | hpc <;> simp [hpc]
  have hglobal : a.pc ≠ .inFlight ∧ a.pc ≠ .queuedForGlobal := by
    rcases hpc with hpc | hpc <;> simp [hpc]
  have hisolated : Isolated (s.actions.set i { a with pc := .settled }) :=
    h.isolated.set ha rfl nofun
  unfold giveBack
  cases hrelease : (s.perTarget a.target).release with
  | mk next sem =>
      cases next with
      | none =>
          -- Nobody waits for the permit: it is free again.
          refine ⟨?_, fun target => ?_, hisolated⟩
          · exact h.global.set_same ha (by simp [hglobal.1]) (by simp [hglobal.2])
          · by_cases htarget : target = a.target
            · subst htarget
              show (update s.perTarget a.target sem a.target).Governs _ _ _ _
              rw [update_self]
              exact (h.perTarget a.target).freed ha hheld.1 hheld.2 (by simp) (by simp) hrelease
            · show (update s.perTarget a.target sem target).Governs _ _ _ _
              rw [update_of_ne htarget]
              refine (h.perTarget target).set_same ha ?_ ?_ <;> simp [Ne.symm htarget]
      | some next =>
          obtain ⟨x, hne, hx, hwaits, hhanded⟩ :=
            (h.perTarget a.target).handed (b := { a with pc := .settled }) ha hheld.1 hheld.2
              (by simp) (by simp) hrelease
          obtain ⟨hxTarget, hxPc⟩ : x.target = a.target ∧ x.pc = .queuedForTarget := by
            simpa using hwaits
          have hx' : (s.actions.set i { a with pc := .settled })[next]? = some x :=
            (List.getElem?_set_ne hne.symm).trans hx
          show Valid limits { s with
            perTarget := update s.perTarget a.target sem
            actions := grant (s.actions.set i { a with pc := .settled }) (some next) .preparing }
          -- Two actions change at once: this one and the one that gets its permit.
          rw [grant_set hne hx]
          refine ⟨?_, fun target => ?_, hisolated.set hx' rfl nofun⟩
          · exact (h.global.set_same ha (by simp [hglobal.1]) (by simp [hglobal.2])).set_same hx'
              (by simp [hxPc]) (by simp [hxPc])
          · by_cases htarget : target = a.target
            · subst htarget
              show (update s.perTarget a.target sem a.target).Governs _ _ _ _
              rw [update_self]
              exact hhanded (by simp [hxPc]) (by simp [hxTarget]) (by simp)
            · show (update s.perTarget a.target sem target).Governs _ _ _ _
              rw [update_of_ne htarget]
              refine ((h.perTarget target).set_same ha ?_ ?_).set_same hx' ?_ ?_ <;>
                simp [hxTarget, Ne.symm htarget]

/-- A call returns, and the first action that is queued for the global permit gets it. -/
theorem Valid.answer (h : Valid limits s) (ha : s.actions[i]? = some a)
    (hpc : a.pc = .inFlight) : Valid limits (s.next i a .answer) := by
  have hisolated : Isolated (s.actions.set i { a with pc := .answered }) :=
    h.isolated.set ha rfl nofun
  unfold next
  cases hrelease : s.global.release with
  | mk next sem =>
      cases next with
      | none =>
          refine ⟨?_, fun target => ?_, hisolated⟩
          · exact h.global.freed ha (by simp [hpc]) (by simp [hpc]) (by simp) (by simp) hrelease
          · refine (h.perTarget target).set_same ha ?_ ?_ <;> simp [hpc]
      | some next =>
          obtain ⟨x, hne, hx, hwaits, hhanded⟩ :=
            h.global.handed (b := { a with pc := .answered }) ha (by simp [hpc]) (by simp [hpc])
              (by simp) (by simp) hrelease
          have hxPc : x.pc = .queuedForGlobal := by simpa using hwaits
          have hx' : (s.actions.set i { a with pc := .answered })[next]? = some x :=
            (List.getElem?_set_ne hne.symm).trans hx
          show Valid limits { s with
            global := sem
            actions := grant (s.actions.set i { a with pc := .answered }) (some next) .inFlight }
          rw [grant_set hne hx]
          refine ⟨?_, fun target => ?_, hisolated.set hx' rfl nofun⟩
          · exact hhanded (by simp [hxPc]) (by simp) (by simp)
          · refine ((h.perTarget target).set_same ha ?_ ?_).set_same hx' ?_ ?_ <;>
              simp [hpc, hxPc]

/-- New actions have no permits. -/
theorem Valid.append (h : Valid limits s) {added : List (AdmittedAction τ)}
    (hadded : ∀ x ∈ added, x.pc = .admission) :
    Valid limits { s with actions := s.actions ++ added } where
  global := h.global.append (fun x hx => by simp [hadded x hx]) fun x hx => by simp [hadded x hx]
  perTarget target :=
    (h.perTarget target).append (fun x hx => by simp [hadded x hx])
      fun x hx => by simp [hadded x hx]
  isolated := h.isolated.append hadded

/-- An action runs failing tests as new actions of one test each, and waits for them. -/
theorem Valid.isolate (h : Valid limits s) (ha : s.actions[i]? = some a)
    (hpc : a.pc = .settled) (hmembers : 1 < a.members) (failing : Nat) :
    Valid limits (s.next i a (.isolate failing)) := by
  generalize hchild : ({ target := a.target, members := 1, allowedAttempts := a.allowedAttempts } :
    AdmittedAction τ) = child
  have hadded : ∀ x ∈ List.replicate failing child, x.pc = .admission := by
    intro x hx
    rw [List.eq_of_mem_replicate hx, ← hchild]
  unfold next
  simp only [hchild]
  refine ⟨?_, fun target => ?_, ?_⟩
  · refine (h.global.set_same ha ?_ ?_).append ?_ ?_
    · simp [hpc]
    · simp [hpc]
    · exact fun x hx => by simp [hadded x hx]
    · exact fun x hx => by simp [hadded x hx]
  · refine ((h.perTarget target).set_same ha ?_ ?_).append ?_ ?_
    · simp [hpc]
    · simp [hpc]
    · exact fun x hx => by simp [hadded x hx]
    · exact fun x hx => by simp [hadded x hx]
  · intro x hx children hjoining
    rcases List.mem_append.mp hx with hold | hnew
    · rcases List.mem_or_eq_of_mem_set hold with hold | rfl
      · obtain ⟨hsize, hchildren⟩ := h.isolated x hold children hjoining
        refine ⟨hsize, fun child hchild => Single.append ?_ _⟩
        exact (hchildren child hchild).set ha rfl
      · refine ⟨hmembers, fun position hposition => ?_⟩
        cases hjoining
        obtain ⟨hlow, hhigh⟩ := List.mem_range'_1.mp hposition
        refine ⟨child, ?_, by rw [← hchild]⟩
        rw [List.getElem?_append_right (by simpa using hlow), List.length_set,
          List.getElem?_replicate, if_pos (by omega)]
    · rw [hadded x hnew] at hjoining
      cases hjoining

/-- Every step keeps the invariant. -/
theorem Valid.step (h : Valid limits s) {event : AdmissionEvent τ} {s' : AdmissionState τ}
    (hstep : admissionStep s event = some s') : Valid limits s' := by
  cases event with
  | spawn target members allowedAttempts =>
      cases hstep
      exact h.append fun x hx => by rw [List.mem_singleton.mp hx]
  | act i step =>
      simp only [admissionStep] at hstep
      split at hstep
      case h_2 => cases hstep
      rename_i a ha
      split at hstep
      case isFalse => cases hstep
      rename_i henabled
      cases hstep
      cases step with
      | acquireTarget => exact h.acquire_target ha henabled
      | rejectRequest => exact h.give_back ha (.inl henabled)
      | acquireGlobal => exact h.acquire_global ha henabled
      | answer => exact h.answer ha henabled
      | releaseTarget => exact h.give_back ha (.inr henabled)
      | retry reason =>
          refine h.set_idle ha ?_ (.inl henabled.1) (.inl ?_) <;> cases reason <;> rfl
      | isolate failing => exact h.isolate ha henabled.1 henabled.2.1 failing
      | join =>
          obtain ⟨children, hjoining, -⟩ := enabled_join.mp henabled
          exact h.set_idle ha rfl (.inr ⟨children, hjoining⟩) (.inr rfl)
      | finish => exact h.set_idle ha rfl (.inl henabled) (.inr rfl)

/-- Before the first target, the invariant holds. -/
theorem valid_start (limits : SchedulerLimits) :
    Valid limits (start limits : AdmissionState τ) where
  global := Semaphore.governs_new _ _ _
  perTarget _ := Semaphore.governs_new _ _ _
  isolated _ h := absurd h List.not_mem_nil

/-- The invariant holds along every run. -/
theorem valid_of_run {events : List (AdmissionEvent τ)}
    (h : admissionRun limits events = some s) : Valid limits s := by
  have hrun : ∀ (events : List (AdmissionEvent τ)) {first last : AdmissionState τ},
      Valid limits first → events.foldlM admissionStep first = some last → Valid limits last := by
    intro events
    induction events with
    | nil =>
        intro first last hfirst hlast
        cases hlast
        exact hfirst
    | cons event events ih =>
        intro first last hfirst hlast
        rw [List.foldlM_cons] at hlast
        obtain ⟨second, hsecond, hlast⟩ := Option.bind_eq_some_iff.mp hlast
        exact ih (hfirst.step hsecond) hlast
  exact hrun events (valid_start limits) h

/-! ## Progress -/

/-- An action that has not ended. -/
def Unfinished (s : AdmissionState τ) (i : Nat) : Prop :=
  ∃ a, s.actions[i]? = some a ∧ a.pc ≠ .finished

/-- An action that cannot do a step. -/
def Blocked (s : AdmissionState τ) (i : Nat) : Prop :=
  ∀ step, admissionStep s (.act i step) = none

omit [DecidableEq τ] in
theorem exists_position {a : AdmittedAction τ} (ha : a ∈ s.actions) :
    ∃ i : Nat, s.actions[i]? = some a := List.getElem?_of_mem ha

/-- An action is not blocked if it can do a step. -/
theorem not_blocked (step : AdmissionAct) (ha : s.actions[i]? = some a)
    (henabled : s.Enabled a step) : ¬ s.Blocked i := by
  intro hblocked
  have hstep := hblocked step
  simp only [admissionStep, ha, if_pos henabled] at hstep
  cases hstep

/-- An action that is blocked waits for a permit or for other actions, or has ended. -/
theorem pc_of_blocked (ha : s.actions[i]? = some a) (hblocked : s.Blocked i) :
    a.pc = .queuedForTarget ∨ a.pc = .queuedForGlobal ∨ (∃ children, a.pc = .joining children) ∨
      a.pc = .finished := by
  cases hpc : a.pc with
  | queuedForTarget | queuedForGlobal | joining | finished => simp
  | admission => exact absurd hblocked (not_blocked .acquireTarget ha hpc)
  | preparing => exact absurd hblocked (not_blocked .acquireGlobal ha hpc)
  | inFlight => exact absurd hblocked (not_blocked .answer ha hpc)
  | answered => exact absurd hblocked (not_blocked .releaseTarget ha hpc)
  | settled => exact absurd hblocked (not_blocked .finish ha hpc)

/-- Some action that has not ended can go on. If all were blocked, none would hold a global
permit, so none would be queued for one; then none would hold a permit of a target, so none
would be queued for one; and then the actions that wait for isolated tests could go on. -/
theorem Valid.not_all_blocked (h : Valid limits s) (hunfinished : ∃ i, s.Unfinished i) :
    ∃ i, s.Unfinished i ∧ ¬ s.Blocked i := by
  by_contra hnone
  have hblocked : ∀ i, s.Unfinished i → s.Blocked i := by
    intro i hi
    by_contra hi'
    exact hnone ⟨i, hi, hi'⟩
  have hpc : ∀ a ∈ s.actions, a.pc = .queuedForTarget ∨ a.pc = .queuedForGlobal ∨
      (∃ children, a.pc = .joining children) ∨ a.pc = .finished := by
    intro a ha
    obtain ⟨i, ha⟩ := exists_position ha
    by_cases hfinished : a.pc = .finished
    · exact .inr (.inr (.inr hfinished))
    · exact pc_of_blocked ha (hblocked i ⟨a, ha, hfinished⟩)
  -- A queued action implies a holder, and a holder of a global permit is in flight.
  have hglobal : ∀ a ∈ s.actions, a.pc ≠ .queuedForGlobal := by
    intro a ha hqueued
    obtain ⟨i, ha⟩ := exists_position ha
    obtain ⟨holder, hholder, hholds⟩ :=
      h.global.holder_of_waiting limits.test_actions_pos ha (by simp [hqueued])
    have hinFlight : holder.pc = .inFlight := by simpa using hholds
    have hplace := hpc holder hholder
    simp [hinFlight] at hplace
  have htarget : ∀ a ∈ s.actions, a.pc ≠ .queuedForTarget := by
    intro a ha hqueued
    obtain ⟨i, ha⟩ := exists_position ha
    obtain ⟨holder, hholder, hholds⟩ :=
      (h.perTarget a.target).holder_of_waiting limits.per_target_pos ha (by simp [hqueued])
    obtain ⟨-, hheld⟩ : holder.target = a.target ∧ (holder.pc = .preparing ∨
        holder.pc = .queuedForGlobal ∨ holder.pc = .inFlight ∨ holder.pc = .answered) := by
      simpa using hholds
    have hplace := hpc holder hholder
    rcases hheld with hheld | hheld | hheld | hheld
    case inr.inl => exact hglobal holder hholder hheld
    all_goals simp [hheld] at hplace
  have hjoining : ∀ a ∈ s.actions, (∃ children, a.pc = .joining children) ∨ a.pc = .finished := by
    intro a ha
    rcases hpc a ha with hqueued | hqueued | hrest
    · exact absurd hqueued (htarget a ha)
    · exact absurd hqueued (hglobal a ha)
    · exact hrest
  obtain ⟨i, a, ha, hfinished⟩ := hunfinished
  have hmem := List.mem_of_getElem? ha
  obtain ⟨children, hchildren⟩ := (hjoining a hmem).resolve_right hfinished
  have hready : s.Enabled a .join := by
    refine enabled_join.mpr ⟨children, hchildren, fun child hchild => ?_⟩
    obtain ⟨c, hc, hsingle⟩ := (h.isolated a hmem children hchildren).2 child hchild
    have hcMem := List.mem_of_getElem? hc
    refine ⟨c, hc, (hjoining c hcMem).resolve_left ?_⟩
    rintro ⟨grandchildren, hwaits⟩
    have := (h.isolated c hcMem grandchildren hwaits).1
    omega
  exact not_blocked .join ha hready (hblocked i ⟨a, ha, hfinished⟩)

/-- The calls in flight. -/
def inFlight (s : AdmissionState τ) : Nat := s.actions.countP (·.pc = .inFlight)

/-- The actions of a target that are preparing their request, queued for a global permit or in
flight. -/
def admitted (s : AdmissionState τ) (target : τ) : Nat :=
  s.actions.countP fun a =>
    a.target = target ∧ (a.pc = .preparing ∨ a.pc = .queuedForGlobal ∨ a.pc = .inFlight)

/-- In every state of every run the limits are kept, in total and for each target, and some
action that has not ended, if there is one, is not blocked. -/
theorem admission_bounded_and_live {events : List (AdmissionEvent τ)}
    (hrun : admissionRun limits events = some s) :
    s.inFlight ≤ limits.maxInflightTestActions ∧
      (∀ target, s.admitted target ≤ limits.maxInflightPerTarget) ∧
      ((∃ i, s.Unfinished i) → ∃ i, s.Unfinished i ∧ ¬ s.Blocked i) := by
  have hvalid := valid_of_run hrun
  refine ⟨hvalid.global.count_le, fun target => ?_, hvalid.not_all_blocked⟩
  refine Nat.le_trans (List.countP_mono_left fun a _ ha => ?_) (hvalid.perTarget target).count_le
  simp only [decide_eq_true_eq] at ha
  simp only [AdmittedAction.holdsTarget, decide_eq_true_eq]
  exact ⟨ha.1, by tauto⟩

/-- Two targets under limits of one: an action isolates two tests, of which the first is in
flight, while the action of the other target is queued behind it. -/
def isolationRun : List (AdmissionEvent Nat) :=
  [.spawn 0 2 1, .spawn 1 1 1,
    .act 0 .acquireTarget, .act 0 .acquireGlobal, .act 0 .answer, .act 0 .releaseTarget,
    .act 0 (.isolate 2),
    .act 2 .acquireTarget, .act 3 .acquireTarget, .act 2 .acquireGlobal,
    .act 1 .acquireTarget, .act 1 .acquireGlobal]

theorem isolation_run_goes_on :
    ∃ s, admissionRun (.resolve 1 1) isolationRun = some s ∧
      s.actions.map (·.pc) =
        [.joining [2, 3], .queuedForGlobal, .inFlight, .queuedForTarget] ∧
      s.inFlight ≤ 1 ∧ (∀ target, s.admitted target ≤ 1) ∧
      ∃ i, s.Unfinished i ∧ ¬ s.Blocked i := by
  refine ⟨_, rfl, rfl, ?_⟩
  have hrun : admissionRun (.resolve 1 1) isolationRun = some _ := rfl
  obtain ⟨htotal, htarget, hlive⟩ := admission_bounded_and_live hrun
  exact ⟨htotal, htarget, hlive ⟨0, _, rfl, nofun⟩⟩

end AdmissionState

end Quokka
