import Mathlib.Order.Basic

/-!
# Loops with a decreasing measure

A `BoundedLoop σ ρ` is the body of a `loop { .. }` over the state `σ` with result `ρ`, packed
with the measure that bounds it: every pass that goes round again makes the measure smaller.
`BoundedLoop.run` executes it. The execution is structural in a fuel that the measure
provides, so it is total and can be evaluated.

Read `run_eq` first: it is the loop's defining equation. `run_induction` is the rule for
properties of a start state and the result reached from it, and `run_invariant` is the
rule for an invariant that the passes preserve.
-/

/-- What one pass through a loop body does: go round again with a new state, or leave the loop
with a result. -/
inductive LoopFlow (σ ρ : Type*) where
  | again (state : σ)
  | leave (result : ρ)

/-- A loop body together with a measure that every repeated pass decreases. -/
structure BoundedLoop (σ ρ : Type*) where
  body : σ → LoopFlow σ ρ
  measure : σ → Nat
  decreases : ∀ {state next : σ}, body state = .again next → measure next < measure state

namespace BoundedLoop

variable {σ ρ : Type*} (loop : BoundedLoop σ ρ)

/-- Execute at most `fuel` passes; `none` when they do not suffice. -/
def runFor : Nat → σ → Option ρ
  | 0, _ => none
  | fuel + 1, state =>
      match loop.body state with
      | .again next => runFor fuel next
      | .leave result => some result

/-- Fuel above the measure always reaches a result. -/
theorem run_for_is_some {fuel : Nat} {state : σ} (h : loop.measure state < fuel) :
    (loop.runFor fuel state).isSome := by
  induction fuel generalizing state with
  | zero => omega
  | succ fuel ih =>
      cases hbody : loop.body state with
      | leave result => simp [runFor, hbody]
      | again next =>
          have hnext := loop.decreases hbody
          simpa [runFor, hbody] using @ih next (by omega)

/-- Execute the loop to its end. -/
def run (state : σ) : ρ :=
  (loop.runFor (loop.measure state + 1) state).get (loop.run_for_is_some (Nat.lt_succ_self _))

/-- Any fuel above the measure computes `run`. -/
theorem run_for_eq_run {fuel : Nat} {state : σ} (h : loop.measure state < fuel) :
    loop.runFor fuel state = some (loop.run state) := by
  have hmono : ∀ (fuel extra : Nat) (state : σ), loop.measure state < fuel →
      loop.runFor (fuel + extra) state = loop.runFor fuel state := by
    intro fuel
    induction fuel with
    | zero => intro _ _ h; omega
    | succ fuel ih =>
        intro extra state h
        rw [Nat.succ_add]
        cases hbody : loop.body state with
        | leave result => simp [runFor, hbody]
        | again next =>
            have hnext := loop.decreases hbody
            simpa [runFor, hbody] using ih extra next (by omega)
  obtain ⟨extra, rfl⟩ : ∃ extra, fuel = loop.measure state + 1 + extra :=
    ⟨fuel - (loop.measure state + 1), by omega⟩
  rw [hmono _ _ _ (Nat.lt_succ_self _)]
  simp [run]

/-- The loop's equation: one pass, and the rest of the loop if that pass goes round again. -/
theorem run_eq (state : σ) :
    loop.run state =
      match loop.body state with
      | .again next => loop.run next
      | .leave result => result := by
  have hrun := loop.run_for_eq_run (Nat.lt_succ_self (loop.measure state))
  cases hbody : loop.body state with
  | leave result => simpa [runFor, hbody] using hrun.symm
  | again next =>
      simp only [runFor, hbody] at hrun
      rw [loop.run_for_eq_run (loop.decreases hbody)] at hrun
      simpa using hrun.symm

/-- A pass that leaves gives the loop's result. -/
theorem run_of_leave {state : σ} {result : ρ} (h : loop.body state = .leave result) :
    loop.run state = result := by
  rw [run_eq, h]

/-- A pass that goes round again does not change the loop's result. -/
theorem run_of_again {state next : σ} (h : loop.body state = .again next) :
    loop.run state = loop.run next := by
  rw [run_eq, h]

/-- Induction over the passes: a relation between a state and the result reached from it holds
if the last pass establishes it and every earlier pass carries it backwards. -/
theorem run_induction {P : σ → ρ → Prop}
    (hleave : ∀ state result, loop.body state = .leave result → P state result)
    (hagain : ∀ state next result, loop.body state = .again next → P next result →
      P state result)
    (state : σ) : P state (loop.run state) := by
  induction hn : loop.measure state using Nat.strongRecOn generalizing state with
  | _ n ih =>
      cases hbody : loop.body state with
      | leave result => rw [loop.run_of_leave hbody]; exact hleave state result hbody
      | again next =>
          rw [loop.run_of_again hbody]
          exact hagain state next _ hbody (ih _ (hn ▸ loop.decreases hbody) next rfl)

/-- An invariant that repeated passes preserve and the last pass turns into `Post` gives `Post`
of the result. -/
theorem run_invariant (Inv : σ → Prop) (Post : ρ → Prop)
    (hstep : ∀ state next, Inv state → loop.body state = .again next → Inv next)
    (hleave : ∀ state result, Inv state → loop.body state = .leave result → Post result)
    (state : σ) (h : Inv state) : Post (loop.run state) :=
  loop.run_induction (P := fun state result => Inv state → Post result)
    (fun state result hbody hinv => hleave state result hinv hbody)
    (fun state next _ hbody hrest hinv => hrest (hstep state next hinv hbody)) state h

end BoundedLoop
