import Mathlib.Logic.Basic

/-!
# Computations that fail in one way

`Except.OkIff failure p x` says that the computation `x` returns exactly when `p` holds, and that
it can fail with `failure` only. `OkIff.bind` composes such facts along a computation, where the
condition of the second part may speak about the value of the first, and `OkIff.foldlM` is the
rule for a fold: the condition of the fold is split into that of its first step and the rest.

`Except.FailsOnly P x` says only how `x` can fail, and composes without conditions.
-/

namespace Except

universe u v

variable {ε : Type u} {α β : Type v} {failure : ε} {p q : Prop} {x : Except ε α}

/-- The computation returns exactly when `p` holds, and fails with `failure` otherwise. -/
def OkIff (failure : ε) (p : Prop) : Except ε α → Prop
  | .ok _ => p
  | .error e => ¬p ∧ e = failure

theorem OkIff.exists_ok (h : OkIff failure p x) : (∃ a, x = .ok a) ↔ p := by
  cases x with
  | ok a => exact iff_of_true ⟨a, rfl⟩ h
  | error e => exact iff_of_false nofun h.1

theorem OkIff.of_eq_ok {a : α} (h : OkIff failure p x) (hx : x = .ok a) : p :=
  h.exists_ok.mp ⟨a, hx⟩

/-- It fails in one way only. -/
theorem OkIff.error_eq {e : ε} (h : OkIff failure p x) (hx : x = .error e) : e = failure := by
  subst hx
  exact h.2

theorem OkIff.congr (h : OkIff failure p x) (hpq : p ↔ q) : OkIff failure q x := by
  cases x with
  | ok a => exact hpq.mp h
  | error e => exact ⟨mt hpq.mpr h.1, h.2⟩

theorem ok_iff_pure (a : α) : OkIff failure True (.ok a : Except ε α) :=
  trivial

/-- A second part, whose condition may depend on the value of the first one. -/
theorem OkIff.bind {f : α → Except ε β} {q : α → Prop} (h : OkIff failure p x)
    (hf : ∀ a, x = .ok a → OkIff failure (q a) (f a)) :
    OkIff failure (p ∧ ∀ a, x = .ok a → q a) (x >>= f) := by
  cases x with
  | error e => exact ⟨fun hpq => h.1 hpq.1, h.2⟩
  | ok a =>
      have hcond : q a ↔ p ∧ ∀ b, (.ok a : Except ε α) = .ok b → q b := by
        refine ⟨fun hq => ⟨h, fun b hb => ?_⟩, fun hpq => hpq.2 a rfl⟩
        cases hb
        exact hq
      exact (hf a rfl).congr hcond

/-- A second part whose condition does not depend on the first one. -/
theorem OkIff.and {f : α → Except ε β} (h : OkIff failure p x)
    (hf : ∀ a, x = .ok a → OkIff failure q (f a)) : OkIff failure (p ∧ q) (x >>= f) := by
  refine (h.bind hf).congr (and_congr_right fun hp => ?_)
  obtain ⟨a, ha⟩ := h.exists_ok.mpr hp
  exact ⟨fun hq => hq a ha, fun hq _ _ => hq⟩

/-- A second part that never fails. -/
theorem OkIff.then_pure {f : α → Except ε β} (h : OkIff failure p x)
    (hf : ∀ a, x = .ok a → ∃ b, f a = .ok b) : OkIff failure p (x >>= f) := by
  refine (h.and fun a ha => ?_).congr (iff_of_eq (and_true p))
  obtain ⟨b, hb⟩ := hf a ha
  rw [hb]
  exact ok_iff_pure b

theorem OkIff.map (h : OkIff failure p x) (f : α → β) : OkIff failure p (x.map f) := by
  cases x with
  | ok a => exact h
  | error e => exact h

/-- Two computations that return under the same condition, and then return the same. -/
theorem OkIff.eq_of_ok_eq {y : Except ε α} (hx : OkIff failure p x) (hy : OkIff failure p y)
    (h : ∀ a b, x = .ok a → y = .ok b → a = b) : x = y := by
  cases x with
  | ok a =>
      obtain ⟨b, hb⟩ := hy.exists_ok.mpr hx
      rw [hb, h a b rfl hb]
  | error e =>
      cases y with
      | ok b => exact absurd hy hx.1
      | error e' => rw [hx.2, hy.2]

/-- Two computations that return under the same condition are equal exactly when that condition
fails or they return the same. -/
theorem OkIff.eq_iff {y : Except ε α} {a b : α} (hx : OkIff failure p x) (hy : OkIff failure p y)
    (ha : ∀ a', x = .ok a' → a' = a) (hb : ∀ b', y = .ok b' → b' = b) :
    x = y ↔ ¬p ∨ a = b := by
  constructor
  · intro heq
    by_cases hp : p
    · obtain ⟨c, hc⟩ := hx.exists_ok.mpr hp
      exact .inr ((ha c hc).symm.trans (hb c (heq ▸ hc)))
    · exact .inl hp
  · intro h
    refine hx.eq_of_ok_eq hy fun a' b' ha' hb' => ?_
    rw [ha a' ha', hb b' hb']
    exact h.resolve_left fun hp => hp (hx.of_eq_ok ha')

/-- A fold under an invariant: `P b l` is the condition for folding `l` from `b`. -/
theorem OkIff.foldlM {f : β → α → Except ε β} (Inv : β → List α → Prop)
    {P : β → List α → Prop} {step : β → α → Prop} (hnil : ∀ b, Inv b [] → P b [])
    (hstep : ∀ b a l, Inv b (a :: l) → OkIff failure (step b a) (f b a))
    (hcons : ∀ b a l, Inv b (a :: l) →
      (P b (a :: l) ↔ step b a ∧ ∀ next, f b a = .ok next → P next l))
    (hinv : ∀ b a l next, Inv b (a :: l) → f b a = .ok next → Inv next l)
    {b : β} {l : List α} (h : Inv b l) : OkIff failure (P b l) (l.foldlM f b) := by
  induction l generalizing b with
  | nil => exact hnil b h
  | cons a l ih =>
      rw [List.foldlM_cons]
      refine OkIff.congr ?_ (hcons b a l h).symm
      exact (hstep b a l h).bind fun next hnext => ih (hinv b a l next h hnext)

/-! ## Failures only -/

/-- Every failure of the computation satisfies `P`. -/
def FailsOnly (P : ε → Prop) (x : Except ε α) : Prop :=
  ∀ e, x = .error e → P e

section FailsOnly

variable {P : ε → Prop}

theorem fails_only_ok (a : α) : FailsOnly P (.ok a : Except ε α) :=
  nofun

theorem FailsOnly.bind {f : α → Except ε β} (h : FailsOnly P x)
    (hf : ∀ a, x = .ok a → FailsOnly P (f a)) : FailsOnly P (x >>= f) := by
  cases x with
  | error e => exact fun _ he => h _ (congrArg Except.error (Except.error.inj he))
  | ok a => exact hf a rfl

theorem FailsOnly.map (h : FailsOnly P x) (f : α → β) : FailsOnly P (x.map f) := by
  cases x with
  | error e => exact fun _ he => h _ (congrArg Except.error (Except.error.inj he))
  | ok a => exact nofun

theorem FailsOnly.foldlM {f : β → α → Except ε β} (hf : ∀ b a, FailsOnly P (f b a)) (b : β)
    (l : List α) : FailsOnly P (l.foldlM f b) := by
  induction l generalizing b with
  | nil => exact fails_only_ok b
  | cons a l ih =>
      rw [List.foldlM_cons]
      exact (hf b a).bind fun next _ => ih next

end FailsOnly

end Except
