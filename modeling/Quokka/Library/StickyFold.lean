import Mathlib.Data.List.Induction

/-!
# Sticky folds

A sticky fold keeps one of a sequence of observations. An `absorbing` one always replaces what
was kept and is replaced only by another absorbing one; among the others the first `settled`
one stays, and until it comes the last one is kept.

`fold_eq_pick` computes what is kept from the sequence as a whole. Whether the kept
observation is bad, that is absorbing or not settled, is the same for every order of the
sequence: `bad_of_perm`.
-/

namespace StickyFold

variable {α β : Type*} (absorbing settled : α → Bool)

/-- Which of the kept and the incoming observation is kept. -/
def keep (existing : Option α) (incoming : α) : α :=
  if absorbing incoming then incoming
  else
    match existing with
    | none => incoming
    | some existing =>
        if absorbing existing then existing
        else if settled existing then existing
        else incoming

/-- Keep one observation of a sequence, starting from `kept`. -/
def foldFrom (kept : Option α) (items : List α) : Option α :=
  items.foldl (fun kept item => some (keep absorbing settled kept item)) kept

/-- The last absorbing observation, else the first settled one, else the last one. -/
def pick (items : List α) : Option α :=
  match (items.filter absorbing).getLast? with
  | some item => some item
  | none =>
      match items.find? settled with
      | some item => some item
      | none => items.getLast?

variable {absorbing settled}

theorem fold_from_append (kept : Option α) (first second : List α) :
    foldFrom absorbing settled kept (first ++ second) =
      foldFrom absorbing settled (foldFrom absorbing settled kept first) second :=
  List.foldl_append

/-- A single observation is kept. -/
@[simp] theorem fold_from_none_singleton (item : α) :
    foldFrom absorbing settled none [item] = some item := by
  simp [foldFrom, keep]

/-- Without settled observations the kept one is not settled. -/
theorem unsettled_of_fold {items : List α} {kept : Option α}
    (hkept : ∀ item, kept = some item → settled item = false)
    (hitems : ∀ item ∈ items, settled item = false) {final : α}
    (h : foldFrom absorbing settled kept items = some final) : settled final = false := by
  induction items generalizing kept with
  | nil => exact hkept final h
  | cons item items ih =>
      have hitem := hitems item List.mem_cons_self
      refine ih (fun next hnext => ?_) (fun other hother => hitems other (by simp [hother])) h
      cases hnext
      unfold keep
      split
      · exact hitem
      · cases kept with
        | none => exact hitem
        | some existing =>
            dsimp only
            split
            · exact hkept existing rfl
            split
            · exact hkept existing rfl
            · exact hitem

/-- An absorbing observation that comes last is picked. -/
theorem pick_append_absorbing {items : List α} {item : α} (h : absorbing item) :
    pick absorbing settled (items ++ [item]) = some item := by
  simp [pick, List.filter_append, h]

/-- After an observation that does not absorb, the choice is the one of `keep`. -/
theorem pick_append_other {items : List α} {item : α} (h : absorbing item = false) :
    pick absorbing settled (items ++ [item]) =
      some (keep absorbing settled (pick absorbing settled items) item) := by
  have hfilter : (items ++ [item]).filter absorbing = items.filter absorbing := by
    simp [List.filter_append, h]
  unfold pick
  rw [hfilter]
  cases habsorbed : (items.filter absorbing).getLast? with
  | some last =>
      have hlast : absorbing last := by
        have hmem := List.mem_of_getLast? habsorbed
        exact (List.mem_filter.mp hmem).2
      simp [keep, h, hlast]
  | none =>
      have hnone : ∀ a ∈ items, absorbing a = false := by
        rw [List.getLast?_eq_none_iff, List.filter_eq_nil_iff] at habsorbed
        exact fun a ha => by simpa using habsorbed a ha
      rw [List.find?_append]
      cases hsettled : items.find? settled with
      | some first =>
          have hfirst := hnone first (List.mem_of_find?_eq_some hsettled)
          have hgood := List.find?_some hsettled
          simp [keep, h, hfirst, hgood]
      | none =>
          have hunsettled : ∀ a ∈ items, settled a = false := by
            rw [List.find?_eq_none] at hsettled
            exact fun a ha => by simpa using hsettled a ha
          cases hlast : items.getLast? with
          | none => cases hitem : settled item <;> simp [keep, h, hitem]
          | some last =>
              have hmem := List.mem_of_getLast? hlast
              cases hitem : settled item <;>
                simp [keep, h, hitem, hnone last hmem, hunsettled last hmem]

/-- What is kept in the end is what `pick` says. -/
theorem fold_eq_pick (items : List α) :
    foldFrom absorbing settled none items = pick absorbing settled items := by
  induction items using List.reverseRecOn with
  | nil => rfl
  | append_singleton items item ih =>
      rw [fold_from_append, ih]
      cases h : absorbing item with
      | true => rw [pick_append_absorbing h]; simp [foldFrom, keep, h]
      | false => rw [pick_append_other h]; rfl

/-- `pick` commutes with a map that respects the predicates. -/
theorem pick_map {f : β → α} (items : List β) :
    pick absorbing settled (items.map f) =
      (pick (absorbing ∘ f) (settled ∘ f) items).map f := by
  unfold pick
  rw [List.filter_map, List.getLast?_map, List.find?_map, List.getLast?_map]
  cases (items.filter (absorbing ∘ f)).getLast? with
  | some item => rfl
  | none =>
      cases items.find? (settled ∘ f) with
      | some item => rfl
      | none => rfl

/-- Something is picked exactly from a non-empty sequence. -/
theorem pick_eq_none {items : List α} : pick absorbing settled items = none ↔ items = [] := by
  constructor
  · intro h
    unfold pick at h
    split at h
    · cases h
    split at h
    · cases h
    simpa using h
  · rintro rfl
    rfl

/-- What is picked is one of the observations. -/
theorem mem_of_pick_eq_some {items : List α} {item : α}
    (h : pick absorbing settled items = some item) : item ∈ items := by
  unfold pick at h
  split at h
  case h_1 last hlast =>
    cases h
    exact (List.mem_filter.mp (List.mem_of_getLast? hlast)).1
  case h_2 =>
    split at h
    case h_1 first hfirst => cases h; exact List.mem_of_find?_eq_some hfirst
    case h_2 => exact List.mem_of_getLast? h

/-- A picked observation that does not absorb means that none absorbs. -/
theorem absorbing_of_pick {items : List α} {item : α}
    (h : pick absorbing settled items = some item) (hitem : absorbing item = false) :
    ∀ other ∈ items, absorbing other = false := by
  unfold pick at h
  split at h
  case h_1 last hlast =>
    cases h
    have habsorbing := (List.mem_filter.mp (List.mem_of_getLast? hlast)).2
    rw [hitem] at habsorbing
    cases habsorbing
  case h_2 hnone =>
    rw [List.getLast?_eq_none_iff, List.filter_eq_nil_iff] at hnone
    exact fun other hother => by simpa using hnone other hother

/-- The picked observation is bad exactly when one absorbs or none is settled. -/
theorem bad_pick_iff {items : List α} {item : α} (h : pick absorbing settled items = some item) :
    (absorbing item ∨ settled item = false) ↔
      ((∃ other ∈ items, absorbing other) ∨ ∀ other ∈ items, settled other = false) := by
  unfold pick at h
  split at h
  case h_1 last hlast =>
    cases h
    obtain ⟨hmem, habsorbing⟩ := List.mem_filter.mp (List.mem_of_getLast? hlast)
    exact ⟨fun _ => .inl ⟨_, hmem, habsorbing⟩, fun _ => .inl habsorbing⟩
  case h_2 hnone =>
    rw [List.getLast?_eq_none_iff, List.filter_eq_nil_iff] at hnone
    split at h
    case h_1 first hfirst =>
      cases h
      have hmem := List.mem_of_find?_eq_some hfirst
      have hgood := List.find?_some hfirst
      constructor
      · rintro (habsorbing | hunsettled)
        · exact absurd habsorbing (hnone _ hmem)
        · rw [hgood] at hunsettled; cases hunsettled
      · rintro (⟨other, hother, habsorbing⟩ | hall)
        · exact absurd habsorbing (hnone _ hother)
        · rw [hall _ hmem] at hgood; cases hgood
    case h_2 hunsettled =>
      rw [List.find?_eq_none] at hunsettled
      have hall : ∀ other ∈ items, settled other = false :=
        fun other hother => by simpa using hunsettled other hother
      exact ⟨fun _ => .inr hall, fun _ => .inr (hall _ (List.mem_of_getLast? h))⟩

/-- Whether the picked observation is bad does not depend on the order. -/
theorem bad_of_perm {items others : List α} {item other : α} (hperm : items.Perm others)
    (hitem : pick absorbing settled items = some item)
    (hother : pick absorbing settled others = some other) :
    (absorbing item ∨ settled item = false) ↔ (absorbing other ∨ settled other = false) := by
  rw [bad_pick_iff hitem, bad_pick_iff hother]
  simp [hperm.mem_iff]

end StickyFold
