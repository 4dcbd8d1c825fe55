import Mathlib.Order.Basic

/-!
# Runs of a partial step function

A system is a function `step : σ → ε → Option σ`: the state after an event, or nothing where the
event cannot happen. `Runs.after` performs a list of events. `after_invariant` and
`after_related` are the rules for what a step preserves.

Some events belong to the system itself, the others to its environment. `Drains` says that the
system's own events use up a work measure and that one of them is possible until the system is
done; then `Drains.length_le`, `Drains.done_of_stuck` and `Drains.completes` say that the system
comes to its end by itself, whichever of its events happens first.
-/

namespace Runs

variable {σ ε : Type*} (step : σ → ε → Option σ)

/-- The state after some events, if each of them is possible when its turn comes. -/
def after (state : σ) (events : List ε) : Option σ :=
  events.foldlM step state

/-- No event that satisfies `own` is possible. -/
def Stuck (own : ε → Prop) (state : σ) : Prop :=
  ∀ event, own event → step state event = none

variable {step}

@[simp] theorem after_nil (state : σ) : after step state [] = some state :=
  rfl

theorem after_cons_eq_some {state final : σ} {event : ε} {events : List ε} :
    after step state (event :: events) = some final ↔
      ∃ middle, step state event = some middle ∧ after step middle events = some final := by
  simp only [after, List.foldlM_cons]
  exact Option.bind_eq_some_iff

/-- What every step preserves holds after every run. -/
theorem after_invariant {P : σ → Prop}
    (hstep : ∀ {state event next}, P state → step state event = some next → P next)
    {state final : σ} {events : List ε} (h : P state)
    (hafter : after step state events = some final) : P final := by
  induction events generalizing state with
  | nil => cases hafter; exact h
  | cons event events ih =>
      obtain ⟨middle, hfirst, hrest⟩ := after_cons_eq_some.mp hafter
      exact ih (hstep h hfirst) hrest

/-- A reflexive and transitive relation that holds across every step from a state with the
invariant `P` holds across every run. -/
theorem after_related {P : σ → Prop} {R : σ → σ → Prop} (hrefl : ∀ state, R state state)
    (htrans : ∀ {first second third}, R first second → R second third → R first third)
    (hstep : ∀ {state event next}, P state → step state event = some next →
      P next ∧ R state next)
    {state final : σ} {events : List ε} (h : P state)
    (hafter : after step state events = some final) : R state final := by
  induction events generalizing state with
  | nil => cases hafter; exact hrefl _
  | cons event events ih =>
      obtain ⟨middle, hfirst, hrest⟩ := after_cons_eq_some.mp hafter
      obtain ⟨hmiddle, hrelated⟩ := hstep h hfirst
      exact htrans hrelated (ih hmiddle hrest)

/-! ## Systems that come to an end by themselves -/

variable {own : ε → Prop} {P Done : σ → Prop} {work : σ → Nat}

variable (step own P Done work) in
/-- The system's own events keep `P` and use up work, and while the system is not done one of
them is possible. -/
structure Drains : Prop where
  keeps : ∀ {state event next}, P state → own event → step state event = some next → P next
  decreases : ∀ {state event next}, P state → own event → step state event = some next →
    work next < work state
  progress : ∀ {state}, P state → ¬Done state → ∃ event, own event ∧ (step state event).isSome

namespace Drains

variable (h : Drains step own P Done work)

include h

/-- The system's own events keep `P`. -/
theorem keeps_after {state final : σ} {events : List ε} (hstate : P state)
    (hown : ∀ event ∈ events, own event) (hafter : after step state events = some final) :
    P final := by
  induction events generalizing state with
  | nil => cases hafter; exact hstate
  | cons event events ih =>
      obtain ⟨middle, hfirst, hrest⟩ := after_cons_eq_some.mp hafter
      exact ih (h.keeps hstate (hown event (by simp)) hfirst)
        (fun other hother => hown other (by simp [hother])) hrest

/-- A run of the system's own events is bounded by the work that it uses up. -/
theorem length_le {state final : σ} {events : List ε} (hstate : P state)
    (hown : ∀ event ∈ events, own event) (hafter : after step state events = some final) :
    events.length + work final ≤ work state := by
  induction events generalizing state with
  | nil => cases hafter; simp
  | cons event events ih =>
      obtain ⟨middle, hfirst, hrest⟩ := after_cons_eq_some.mp hafter
      have hevent := hown event (by simp)
      have hused := h.decreases hstate hevent hfirst
      have hbound := ih (h.keeps hstate hevent hfirst)
        (fun other hother => hown other (by simp [hother])) hrest
      rw [List.length_cons]
      omega

/-- A run of the system's own events that cannot go on has come to the end. -/
theorem done_of_stuck {state final : σ} {events : List ε} (hstate : P state)
    (hown : ∀ event ∈ events, own event) (hafter : after step state events = some final)
    (hstuck : Stuck step own final) : Done final := by
  by_contra hnot
  obtain ⟨event, hevent, hpossible⟩ := h.progress (h.keeps_after hstate hown hafter) hnot
  rw [hstuck event hevent] at hpossible
  cases hpossible

/-- The system's own events lead to the end. -/
theorem completes {state : σ} (hstate : P state) :
    ∃ events final, (∀ event ∈ events, own event) ∧ after step state events = some final ∧
      Done final := by
  induction hwork : work state using Nat.strongRecOn generalizing state with
  | ind bound ih =>
      by_cases hdone : Done state
      · exact ⟨[], state, by simp, rfl, hdone⟩
      · obtain ⟨event, hevent, hpossible⟩ := h.progress hstate hdone
        obtain ⟨middle, hfirst⟩ := Option.isSome_iff_exists.mp hpossible
        have hused := h.decreases hstate hevent hfirst
        obtain ⟨events, final, hown, hrest, hfinal⟩ :=
          ih (work middle) (by omega) (h.keeps hstate hevent hfirst) rfl
        refine ⟨event :: events, final, ?_, after_cons_eq_some.mpr ⟨middle, hfirst, hrest⟩, hfinal⟩
        simpa using ⟨hevent, hown⟩

end Drains

end Runs
