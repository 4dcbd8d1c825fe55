import Quokka.Library.KeyedUpdate
import Mathlib.Data.List.AList

/-!
# Finite tables

A hash map as an association list with distinct keys. Only look-ups are observable: no
statement depends on the order of the entries. `update` is the entry API, and `lastOf` is what
inserting entries one after another leaves at a key. `foldlM_entries` is the rule for merging one
table into another: a key changes as its own entry says.
-/

/-- A finite map from keys to values. -/
abbrev Table (κ ν : Type) := AList (fun _ : κ => ν)

namespace Table

variable {κ ν : Type} [DecidableEq κ]

/-- Replace the value at `key` by a function of what was there. -/
def update (table : Table κ ν) (key : κ) (f : Option ν → ν) : Table κ ν :=
  table.insert key (f (table.lookup key))

@[simp] theorem lookup_update_self (table : Table κ ν) (key : κ) (f : Option ν → ν) :
    (table.update key f).lookup key = some (f (table.lookup key)) := by
  simp [update]

/-- Updating one key leaves the others alone. -/
theorem lookup_update_ne (table : Table κ ν) {key other : κ} (h : other ≠ key)
    (f : Option ν → ν) : (table.update key f).lookup other = table.lookup other := by
  simp [update, AList.lookup_insert_ne h]

/-- Append to the list stored at `key`. -/
def push (table : Table κ (List ν)) (key : κ) (value : ν) : Table κ (List ν) :=
  table.update key fun existing => existing.getD [] ++ [value]

/-- Pushing at one key extends that key's list only. -/
theorem getD_lookup_push (table : Table κ (List ν)) (key other : κ) (value : ν) :
    ((table.push key value).lookup other).getD [] =
      (table.lookup other).getD [] ++ if other = key then [value] else [] := by
  by_cases h : other = key
  · subst h; simp [push]
  · simp [push, lookup_update_ne _ h, h]

/-- The table with at most one entry. -/
def single (key : κ) (value : Option ν) : Table κ ν :=
  match value with
  | some v => AList.singleton key v
  | none => ∅

@[simp] theorem lookup_single_self (key : κ) (value : Option ν) :
    (single key value).lookup key = value := by
  cases value with
  | none => simp [single]
  | some v => exact @List.dlookup_cons_eq κ (fun _ => ν) _ [] key v

/-- The value of the last entry for `key`. -/
def lastOf (key : κ) : List (κ × ν) → Option ν
  | [] => none
  | (other, value) :: entries =>
      (lastOf key entries).or (if other = key then some value else none)

theorem last_of_eq_none {key : κ} {entries : List (κ × ν)} :
    lastOf key entries = none ↔ ∀ entry ∈ entries, entry.1 ≠ key := by
  induction entries with
  | nil => simp [lastOf]
  | cons entry entries ih => simp [lastOf, ih, and_comm]

/-- What the last entry holds is held by an entry. -/
theorem mem_of_last_of {key : κ} {entries : List (κ × ν)} {value : ν}
    (h : lastOf key entries = some value) : (key, value) ∈ entries := by
  induction entries with
  | nil => cases h
  | cons entry entries ih =>
      obtain ⟨other, first⟩ := entry
      rcases Option.or_eq_some_iff.mp h with hrest | ⟨-, hfirst⟩
      · exact List.mem_cons_of_mem _ (ih hrest)
      · split at hfirst
        case isTrue heq =>
          cases hfirst
          subst heq
          exact List.mem_cons_self
        case isFalse => cases hfirst

/-- Of distinct keys each has one value. -/
theorem last_of_distinct {key : κ} {value : ν} {entries : List (κ × ν)}
    (hkeys : (entries.map Prod.fst).Nodup) (h : (key, value) ∈ entries) :
    lastOf key entries = some value := by
  cases hlast : lastOf key entries with
  | none => exact absurd rfl (last_of_eq_none.mp hlast _ h)
  | some other =>
      have hsame := List.inj_on_of_nodup_map hkeys (mem_of_last_of hlast) h rfl
      rw [(Prod.mk.inj hsame).2]

theorem last_of_append (key : κ) (first second : List (κ × ν)) :
    lastOf key (first ++ second) = (lastOf key second).or (lastOf key first) := by
  induction first with
  | nil => simp [lastOf]
  | cons entry first ih =>
      obtain ⟨other, value⟩ := entry
      rw [List.cons_append, lastOf, ih, lastOf, Option.or_assoc]

/-- A function of the values is one of the last value. -/
theorem last_of_map {μ : Type} (f : ν → μ) (key : κ) (entries : List (κ × ν)) :
    lastOf key (entries.map fun entry => (entry.1, f entry.2)) =
      (lastOf key entries).map f := by
  induction entries with
  | nil => rfl
  | cons entry entries ih =>
      rw [List.map_cons, lastOf, lastOf, ih, Option.map_or]
      congr 1
      split <;> rfl

/-- Inserted entries are found, the last one of each key. -/
theorem lookup_foldl_insert (entries : List (κ × ν)) (table : Table κ ν) (key : κ) :
    (entries.foldl (fun table (other, value) => table.insert other value) table).lookup key =
      (lastOf key entries).or (table.lookup key) := by
  induction entries generalizing table with
  | nil => simp [lastOf]
  | cons entry entries ih =>
      obtain ⟨other, value⟩ := entry
      rw [List.foldl_cons, ih, lastOf, Option.or_assoc]
      congr 1
      by_cases h : other = key
      · subst h
        simp
      · rw [AList.lookup_insert_ne (Ne.symm h), if_neg h, Option.none_or]

/-- Entries of distinct keys, taken by steps that change only the entry's key, change every key as
its own entry does. -/
theorem foldlM_entries {σ μ ε : Type} {look : σ → κ → Option ν}
    {changes : Option ν → μ → Option ν → Prop} {step : σ → (Sigma fun _ : κ => μ) → Except ε σ}
    (hstep : ∀ state entry next, step state entry = .ok next →
      changes (look state entry.1) entry.2 (look next entry.1) ∧
        ∀ key, key ≠ entry.1 → look next key = look state key)
    {other : Table κ μ} {state final : σ} (h : other.entries.foldlM step state = .ok final)
    (key : κ) :
    (∀ value, other.lookup key = some value → changes (look state key) value (look final key)) ∧
      (other.lookup key = none → look final key = look state key) := by
  show (∀ value, other.entries.dlookup key = some value → _) ∧
    (other.entries.dlookup key = none → _)
  have hnodup := other.nodupKeys
  generalize other.entries = entries at h hnodup
  induction entries generalizing state with
  | nil =>
      cases h
      exact ⟨nofun, fun _ => rfl⟩
  | cons entry entries ih =>
      obtain ⟨next, hnext, hrest⟩ := Except.foldlM_cons_eq_ok.mp h
      obtain ⟨hchanges, hothers⟩ := hstep state entry next hnext
      obtain ⟨hnotMem, hnodup⟩ := List.nodupKeys_cons.mp hnodup
      have hlater := ih hrest hnodup
      by_cases hkey : key = entry.1
      · -- No later entry is about the key of the first one.
        subst hkey
        have hfinal := hlater.2 (List.dlookup_eq_none.mpr hnotMem)
        rw [List.dlookup_cons_eq, hfinal]
        exact ⟨fun value hvalue => Option.some.inj hvalue ▸ hchanges, nofun⟩
      · rw [List.dlookup_cons_ne _ _ hkey, ← hothers key hkey]
        exact hlater

/-- A table has at most as many entries as there are keys that it may have. -/
theorem length_le_of_lookup {table : Table κ ν} {keys : List κ}
    (h : ∀ key value, table.lookup key = some value → key ∈ keys) :
    table.entries.length ≤ keys.length := by
  have hlength : table.keys.length = table.entries.length := by simp [AList.keys, List.keys]
  rw [← hlength]
  refine (List.subperm_of_subset table.keys_nodup ?_).length_le
  intro key hkey
  obtain ⟨value, hvalue⟩ := Option.isSome_iff_exists.mp (AList.lookup_isSome.mpr hkey)
  exact h key value hvalue

/-- Tables in which the same is found have as many entries. -/
theorem length_le_of_lookup_eq {table other : Table κ ν}
    (h : ∀ key, table.lookup key = other.lookup key) :
    table.entries.length ≤ other.entries.length := by
  have hlength : other.keys.length = other.entries.length := by simp [AList.keys, List.keys]
  rw [← hlength]
  refine length_le_of_lookup fun key value hvalue => ?_
  rw [h key] at hvalue
  exact AList.lookup_isSome.mp (by rw [hvalue]; rfl)

end Table
