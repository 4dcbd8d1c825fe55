import Mathlib.Data.List.Permutation
import Mathlib.Order.Basic

/-!
# Last writer wins

A register that keeps the entry with the greatest time; among entries of one time, the one that
came last. `later` merges two registers and `latest` is what a list of entries leaves.

Merging is associative with the empty register as identity, but it is commutative only where no
two different entries have the same time (`later_comm_iff`), and the order of the entries does
not matter exactly when the newest ones are all equal (`latest_perm_iff`).
-/

namespace Latest

variable {α τ : Type*} [LinearOrder τ] (time : α → τ)

/-- The second entry replaces the first one unless it is older. -/
def later : Option α → Option α → Option α
  | first, none => first
  | none, some second => some second
  | some first, some second => if time first ≤ time second then some second else some first

/-- The entry that remains of a list. -/
def latest (entries : List α) : Option α :=
  entries.foldl (fun kept entry => later time kept (some entry)) none

/-- An entry that is as new as any. -/
def Newest (entries : List α) (entry : α) : Prop :=
  entry ∈ entries ∧ ∀ other ∈ entries, time other ≤ time entry

/-- Different entries are the newest ones. -/
def Tied (entries : List α) : Prop :=
  ∃ first second, Newest time entries first ∧ Newest time entries second ∧ first ≠ second

/-! ## Merging -/

@[simp] theorem later_none (first : Option α) : later time first none = first := by
  cases first <;> rfl

@[simp] theorem none_later (second : Option α) : later time none second = second := by
  cases second <;> rfl

@[simp] theorem latest_nil : latest time [] = none := rfl

theorem later_of_le {first second : α} (h : time first ≤ time second) :
    later time (some first) (some second) = some second :=
  if_pos h

theorem later_of_lt {first second : α} (h : time second < time first) :
    later time (some first) (some second) = some first :=
  if_neg (not_le.mpr h)

theorem later_assoc (first second third : Option α) :
    later time (later time first second) third = later time first (later time second third) := by
  cases third with
  | none => rw [later_none, later_none]
  | some c =>
      cases second with
      | none => rw [later_none, none_later]
      | some b =>
          cases first with
          | none => rw [none_later, none_later]
          | some a =>
              -- The newest of the three remains, the last one if there are several.
              rcases le_or_gt (time b) (time c) with hbc | hbc
              · rw [later_of_le time hbc]
                rcases le_or_gt (time a) (time b) with hab | hab
                · rw [later_of_le time hab, later_of_le time hbc,
                    later_of_le time (hab.trans hbc)]
                · rw [later_of_lt time hab]
              · rw [later_of_lt time hbc]
                rcases le_or_gt (time a) (time b) with hab | hab
                · rw [later_of_le time hab, later_of_lt time hbc]
                · rw [later_of_lt time hab, later_of_lt time (hbc.trans hab)]

/-- Merging commutes exactly when the two entries are not different ones of one time. -/
theorem later_comm_iff (first second : Option α) :
    later time first second = later time second first ↔
      ¬∃ a b, first = some a ∧ second = some b ∧ time a = time b ∧ a ≠ b := by
  constructor
  · rintro h ⟨a, b, rfl, rfl, htime, hne⟩
    rw [later_of_le time htime.le, later_of_le time htime.ge] at h
    exact hne (Option.some.inj h).symm
  · intro h
    cases first with
    | none => rw [none_later, later_none]
    | some a =>
        cases second with
        | none => rw [none_later, later_none]
        | some b =>
            rcases lt_trichotomy (time a) (time b) with hlt | heq | hgt
            · rw [later_of_le time hlt.le, later_of_lt time hlt]
            · have hsame : a = b := by
                by_contra hne
                exact h ⟨a, b, rfl, rfl, heq, hne⟩
              rw [hsame]
            · rw [later_of_lt time hgt, later_of_le time hgt.le]

/-! ## Lists of entries -/

theorem latest_concat (entries : List α) (entry : α) :
    latest time (entries ++ [entry]) = later time (latest time entries) (some entry) := by
  simp [latest]

/-- What remains of two lists is the merge of what remains of each. -/
theorem latest_append (first second : List α) :
    latest time (first ++ second) = later time (latest time first) (latest time second) := by
  induction second using List.reverseRecOn with
  | nil => rw [List.append_nil, latest_nil, later_none]
  | append_singleton second entry ih =>
      rw [← List.append_assoc, latest_concat, ih, later_assoc, ← latest_concat]

/-- The entries of parts that have at most one each. -/
theorem latest_filterMap_cons {ρ : Type*} (entryOf : ρ → Option α) (part : ρ) (parts : List ρ) :
    latest time ((part :: parts).filterMap entryOf) =
      later time (entryOf part) (latest time (parts.filterMap entryOf)) := by
  rw [List.filterMap_cons]
  cases entryOf part with
  | none => rw [none_later]
  | some entry => exact latest_append time [entry] _

/-- The registers of several parts, merged in order. -/
theorem latest_filterMap_latest {ρ : Type*} (entriesOf : ρ → List α) (parts : List ρ) :
    latest time (parts.filterMap fun part => latest time (entriesOf part)) =
      latest time (parts.flatMap entriesOf) := by
  induction parts with
  | nil => rfl
  | cons part parts ih =>
      rw [List.flatMap_cons, latest_append, ← ih, latest_filterMap_cons]

/-- Something remains unless there is nothing, and it is as new as any entry. -/
theorem latest_spec (entries : List α) :
    (entries = [] ∧ latest time entries = none) ∨
      ∃ entry, latest time entries = some entry ∧ Newest time entries entry := by
  induction entries using List.reverseRecOn with
  | nil => exact .inl ⟨rfl, rfl⟩
  | append_singleton entries last ih =>
      refine .inr ?_
      rw [latest_concat]
      obtain ⟨rfl, hnone⟩ | ⟨kept, hkept, hmem, hmax⟩ := ih
      · refine ⟨last, by rw [hnone, none_later], List.mem_singleton_self _, ?_⟩
        exact fun other hother => (congrArg time (List.mem_singleton.mp hother)).le
      · rw [hkept]
        rcases le_or_gt (time kept) (time last) with hle | hlt
        · refine ⟨last, later_of_le time hle, by simp, fun other hother => ?_⟩
          rcases List.mem_append.mp hother with hother | hother
          · exact (hmax other hother).trans hle
          · exact (congrArg time (List.mem_singleton.mp hother)).le
        · refine ⟨kept, later_of_lt time hlt, List.mem_append_left _ hmem, fun other hother => ?_⟩
          rcases List.mem_append.mp hother with hother | hother
          · exact hmax other hother
          · rw [List.mem_singleton.mp hother]
            exact hlt.le

theorem newest_of_latest {entries : List α} {entry : α} (h : latest time entries = some entry) :
    Newest time entries entry := by
  obtain ⟨-, hnone⟩ | ⟨kept, hkept, hnewest⟩ := latest_spec time entries
  · rw [hnone] at h
    cases h
  · rw [hkept] at h
    exact Option.some.inj h ▸ hnewest

/-- A newest entry that comes last remains. -/
theorem latest_concat_of_newest {entries : List α} {entry : α}
    (h : ∀ other ∈ entries, time other ≤ time entry) :
    latest time (entries ++ [entry]) = some entry := by
  rw [latest_concat]
  cases hkept : latest time entries with
  | none => exact none_later time _
  | some kept => exact later_of_le time (h kept (newest_of_latest time hkept).1)

variable {time}

theorem Newest.perm {entries other : List α} {entry : α} (h : Newest time entries entry)
    (hperm : entries.Perm other) : Newest time other entry :=
  ⟨hperm.subset h.1, fun a ha => h.2 a (hperm.symm.subset ha)⟩

/-- Without a tie the order does not matter. -/
theorem latest_perm {entries other : List α} (h : ¬Tied time entries)
    (hperm : entries.Perm other) : latest time entries = latest time other := by
  obtain ⟨rfl, hnone⟩ | ⟨kept, hkept, hnewest⟩ := latest_spec time entries
  · rw [hperm.nil_eq]
  · obtain ⟨rfl, -⟩ | ⟨kept', hkept', hnewest'⟩ := latest_spec time other
    · rw [hperm.eq_nil]
    · have hsame : kept = kept' := by
        by_contra hne
        exact h ⟨kept, kept', hnewest, hnewest'.perm hperm.symm, hne⟩
      rw [hkept, hkept', hsame]

/-- An older entry before the others does not matter unless they are all older than it. -/
theorem later_latest_of_le {old : Option α} {entries : List α} {entry : α}
    (h : Newest time entries entry) (hold : ∀ a, old = some a → time a ≤ time entry) :
    later time old (latest time entries) = latest time entries := by
  obtain ⟨rfl, -⟩ | ⟨kept, hkept, hnewest⟩ := latest_spec time entries
  · cases h.1
  · rw [hkept]
    cases old with
    | none => exact none_later time _
    | some a => exact later_of_le time ((hold a rfl).trans (hnewest.2 entry h.1))

/-- Parts with at most one entry each, merged in any order after an old entry: the order does not
matter exactly when the old entry is newer than all others or the newest ones are all equal. -/
theorem later_latest_perm_iff {ρ : Type*} (old : Option α) (entryOf : ρ → Option α)
    (parts : List ρ) :
    (∀ other : List ρ, other.Perm parts →
      later time old (latest time (other.filterMap entryOf)) =
        later time old (latest time (parts.filterMap entryOf))) ↔
      (∃ a, old = some a ∧ ∀ entry ∈ parts.filterMap entryOf, time entry < time a) ∨
        ¬Tied time (parts.filterMap entryOf) := by
  constructor
  · intro h
    by_contra hcontra
    obtain ⟨hold, htied⟩ := not_or.mp hcontra
    obtain ⟨first, second, hfirst, hsecond, hne⟩ := not_not.mp htied
    -- Either of the two remains when its part comes last.
    have hlast : ∀ entry, Newest time (parts.filterMap entryOf) entry →
        later time old (latest time (parts.filterMap entryOf)) = some entry := by
      intro entry hentry
      obtain ⟨part, hpart, hof⟩ := List.mem_filterMap.mp hentry.1
      obtain ⟨before, after, rfl⟩ := List.append_of_mem hpart
      have hperm : ((before ++ after) ++ [part]).Perm (before ++ part :: after) :=
        (List.perm_append_singleton part _).trans List.perm_middle.symm
      have hentries : ((before ++ after) ++ [part]).filterMap entryOf =
          (before ++ after).filterMap entryOf ++ [entry] := by
        rw [List.filterMap_append, List.filterMap_cons_some hof, List.filterMap_nil]
      have hnewest := hentry.perm (hperm.symm.filterMap entryOf)
      rw [← h _ hperm, later_latest_of_le hnewest, hentries]
      · refine latest_concat_of_newest time fun other hother => hnewest.2 other ?_
        rw [hentries]
        exact List.mem_append_left _ hother
      · intro a ha
        by_contra hlt
        refine hold ⟨a, ha, fun other hother => ?_⟩
        exact (hentry.2 other hother).trans_lt (not_le.mp hlt)
    exact hne (Option.some.inj ((hlast first hfirst).symm.trans (hlast second hsecond)))
  · rintro (⟨a, rfl, hold⟩ | htied) other hperm
    · have holder : ∀ l : List ρ, l.Perm parts →
          later time (some a) (latest time (l.filterMap entryOf)) = some a := by
        intro l hl
        cases hkept : latest time (l.filterMap entryOf) with
        | none => exact later_none time _
        | some kept =>
            have hmem := (newest_of_latest time hkept).1
            exact later_of_lt time (hold kept ((hl.filterMap entryOf).subset hmem))
      rw [holder other hperm, holder parts (List.Perm.refl _)]
    · rw [latest_perm htied (hperm.symm.filterMap entryOf)]

/-- The order of the parts matters exactly when different entries are the newest ones. -/
theorem latest_perm_iff {ρ : Type*} (entryOf : ρ → Option α) (parts : List ρ) :
    (∀ other : List ρ, other.Perm parts →
      latest time (other.filterMap entryOf) = latest time (parts.filterMap entryOf)) ↔
      ¬Tied time (parts.filterMap entryOf) := by
  have h := @later_latest_perm_iff α τ _ time ρ none entryOf parts
  simp only [none_later] at h
  rw [h]
  exact or_iff_right fun ⟨_, hnone, _⟩ => nomatch hnone

end Latest
