import Mathlib.Data.List.Induction
import Mathlib.Data.List.Sort

/-!
# Keeping the first entries of a sorted list

A bounded collection that sorts what it has together with a new entry and keeps the first `n`.
For a total order this forgets nothing that matters: keeping the first entries after each
arrival is the same as sorting all arrivals and keeping the first entries once
(`take_insertionSort_concat`), also when collections are merged (`take_insertionSort_append`).
What is kept depends on the arrivals but not on their order (`Perm.insertionSort_eq`).

Positions in a sorted list are numbers of entries: `lt_countP_getElem` and
`countP_le_of_not_getElem` say how many entries come before a value or are equal to it.
-/

namespace List

variable {α : Type*} (r : α → α → Prop) [DecidableRel r]

/-- What is cut off does not come back when an entry is inserted. -/
theorem take_orderedInsert (a : α) (l : List α) (n : Nat) :
    ((l.take n).orderedInsert r a).take n = (l.orderedInsert r a).take n := by
  induction l generalizing n with
  | nil => simp
  | cons b l ih =>
      cases n with
      | zero => simp
      | succ n =>
          show (orderedInsert r a (b :: l.take n)).take (n + 1) = _
          by_cases hab : r a b
          · -- The entry comes first, so that one entry of the rest is cut off.
            have htake : take n (b :: l.take n) = take n (b :: l) := by
              rw [← take_succ_cons, take_take, Nat.min_eq_left (Nat.le_succ n)]
            rw [orderedInsert_cons_of_le r _ hab, orderedInsert_cons_of_le r _ hab,
              take_succ_cons, take_succ_cons, htake]
          · rw [orderedInsert_of_not_le r _ hab, orderedInsert_of_not_le r _ hab,
              take_succ_cons, take_succ_cons, ih n]

variable [Std.Total r] [IsTrans α r] [Std.Antisymm r]

/-- Sorting with one entry more inserts it. -/
theorem insertionSort_concat (l : List α) (a : α) :
    (l ++ [a]).insertionSort r = (l.insertionSort r).orderedInsert r a := by
  refine Perm.eq_of_pairwise' (pairwise_insertionSort r _)
    ((pairwise_insertionSort r l).orderedInsert a _) ?_
  calc (l ++ [a]).insertionSort r
    _ ~ l ++ [a] := perm_insertionSort r _
    _ ~ a :: l := perm_append_singleton a l
    _ ~ a :: l.insertionSort r := (perm_insertionSort r l).symm.cons a
    _ ~ (l.insertionSort r).orderedInsert r a := (perm_orderedInsert r a _).symm

/-- Keeping the first entries after each arrival is keeping the first entries of all. -/
theorem take_insertionSort_concat (l : List α) (a : α) (n : Nat) :
    ((((l.insertionSort r).take n) ++ [a]).insertionSort r).take n =
      ((l ++ [a]).insertionSort r).take n := by
  have hsorted : ((l.insertionSort r).take n).Pairwise r :=
    (pairwise_insertionSort r l).sublist (take_sublist n _)
  rw [insertionSort_concat, insertionSort_concat, hsorted.insertionSort_eq,
    take_orderedInsert]

/-- Sorting forgets the order. -/
theorem Perm.insertionSort_eq {l₁ l₂ : List α} (h : l₁ ~ l₂) :
    l₁.insertionSort r = l₂.insertionSort r := by
  refine Perm.eq_of_pairwise' (pairwise_insertionSort r l₁) (pairwise_insertionSort r l₂) ?_
  exact (perm_insertionSort r l₁).trans (h.trans (perm_insertionSort r l₂).symm)

/-- What a merge cuts off does not come back. -/
theorem take_insertionSort_take_append (l₁ l₂ : List α) (n : Nat) :
    ((((l₁.insertionSort r).take n) ++ l₂).insertionSort r).take n =
      ((l₁ ++ l₂).insertionSort r).take n := by
  induction l₂ using reverseRecOn with
  | nil =>
      have hsorted : ((l₁.insertionSort r).take n).Pairwise r :=
        (pairwise_insertionSort r l₁).sublist (take_sublist n _)
      rw [append_nil, append_nil, hsorted.insertionSort_eq, take_take, Nat.min_self]
  | append_singleton l₂ a ih =>
      rw [← append_assoc, ← append_assoc, ← take_insertionSort_concat r _ a, ih,
        take_insertionSort_concat r _ a]

/-- Merging the first entries of two lists keeps the first entries of both together. -/
theorem take_insertionSort_append (l₁ l₂ : List α) (n : Nat) :
    ((((l₁.insertionSort r).take n) ++ ((l₂.insertionSort r).take n)).insertionSort r).take n =
      ((l₁ ++ l₂).insertionSort r).take n := by
  rw [take_insertionSort_take_append, perm_append_comm.insertionSort_eq r,
    take_insertionSort_take_append, perm_append_comm.insertionSort_eq r]

omit [Std.Antisymm r] in
/-- What is kept comes before what is not. -/
theorem rel_of_mem_take_insertionSort {l : List α} {n : Nat} {a b : α}
    (ha : a ∈ (l.insertionSort r).take n) (hb : b ∈ (l.insertionSort r).drop n) : r a b := by
  have hsorted := pairwise_insertionSort r l
  rw [← take_append_drop n (l.insertionSort r), pairwise_append] at hsorted
  exact hsorted.2.2 a ha b hb

section Positions

variable {r} {l : List α} (h : l.Pairwise r)

include h

omit [IsTrans α r] [Std.Antisymm r] in
/-- An entry and all before it come before the entry or are it. -/
theorem lt_countP_getElem {i : Nat} (hi : i < l.length) : i < l.countP fun a => r a l[i] := by
  have hall : ∀ a ∈ l.take (i + 1), decide (r a l[i]) = true := by
    intro a ha
    obtain ⟨j, hj, rfl⟩ := mem_take_iff_getElem.mp ha
    rw [decide_eq_true_eq]
    rcases Nat.lt_or_ge j i with hlt | hge
    · exact pairwise_iff_getElem.mp h j i _ hi hlt
    · obtain rfl : j = i := by omega
      exact (Std.Total.total l[j] l[j]).elim id id
  have hsublist := (take_sublist (i + 1) l).countP_le (p := fun a => decide (r a l[i]))
  rw [countP_eq_length.mpr hall, length_take] at hsublist
  omega

omit [Std.Total r] [Std.Antisymm r] in
/-- Only entries before position `i` come before a value that the entry at `i` does not come
before. -/
theorem countP_le_of_not_getElem {i : Nat} (hi : i < l.length) {w : α} (hw : ¬r l[i] w) :
    (l.countP fun a => r a w) ≤ i := by
  have hnone : (l.drop i).countP (fun a => r a w) = 0 := by
    rw [countP_eq_zero]
    intro a ha hrel
    obtain ⟨j, hj, rfl⟩ := mem_drop_iff_getElem.mp ha
    rw [decide_eq_true_eq] at hrel
    rcases Nat.eq_zero_or_pos j with rfl | hpos
    · exact hw hrel
    · exact hw (IsTrans.trans _ _ _ (pairwise_iff_getElem.mp h i (i + j) hi _ (by omega)) hrel)
  have hsplit : (l.take i ++ l.drop i).countP (fun a => decide (r a w)) =
      (l.take i).countP (fun a => decide (r a w)) + (l.drop i).countP (fun a => decide (r a w)) :=
    countP_append
  rw [take_append_drop, hnone] at hsplit
  have hle := countP_le_length (p := fun a => decide (r a w)) (l := l.take i)
  rw [length_take] at hle
  omega

end Positions

end List
