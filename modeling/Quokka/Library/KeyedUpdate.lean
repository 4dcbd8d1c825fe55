import Mathlib.Logic.Function.Basic
import Mathlib.Data.List.Basic

/-!
# Replaying keyed records

A `KeyedUpdate` says which key a record is about and what it makes of the value there; `replay`
applies records to a map one after another. A record may be refused, which ends the replay.

A replay is a fold that may fail, for which `Except.foldlM_cons_eq_ok` is the step. `replay_at` is
the rule that the value at one key is determined by the records of that key, and
`replay_invariant` the rule for a property of all values.
-/

/-- What a record does: the key that it is about and the new value at that key. -/
structure KeyedUpdate (κ ν ρ ε : Type*) where
  key : ρ → κ
  value : Option ν → ρ → Except ε ν

/-- A computation that may fail goes through its first part, then through its second. -/
theorem Except.bind_eq_ok.{u, v} {α β : Type u} {ε : Type v} {first : Except ε α}
    {second : α → Except ε β} {b : β} :
    first >>= second = .ok b ↔ ∃ a, first = .ok a ∧ second a = .ok b := by
  cases first with
  | error failure => exact ⟨nofun, fun ⟨_, h, _⟩ => nomatch h⟩
  | ok a => exact ⟨fun h => ⟨a, rfl, h⟩, fun ⟨_, h, hrest⟩ => Except.ok.inj h ▸ hrest⟩

theorem Except.map_eq_ok {α β ε : Type*} {x : Except ε α} {f : α → β} {b : β} :
    x.map f = .ok b ↔ ∃ a, x = .ok a ∧ f a = b := by
  cases x with
  | error failure => exact ⟨nofun, fun ⟨_, h, _⟩ => nomatch h⟩
  | ok a => exact ⟨fun h => ⟨a, rfl, Except.ok.inj h⟩, fun ⟨_, h, hb⟩ =>
      congrArg Except.ok (Except.ok.inj h ▸ hb)⟩

/-- Computations are equal when an injective function makes the same of their values. -/
theorem Except.map_inj {α β ε : Type*} {f : α → β} (hf : Function.Injective f)
    {x y : Except ε α} : x.map f = y.map f ↔ x = y := by
  refine ⟨fun h => ?_, fun h => h ▸ rfl⟩
  cases x with
  | error failure =>
      cases y with
      | error failure' => exact congrArg Except.error (Except.error.inj h)
      | ok b => cases h
  | ok a =>
      cases y with
      | error failure' => cases h
      | ok b => exact congrArg Except.ok (hf (Except.ok.inj h))

/-- A fold that may fail takes its first step, then the others. -/
theorem Except.foldlM_cons_eq_ok {α β ε : Type*} {f : β → α → Except ε β} {b c : β} {a : α}
    {l : List α} :
    (a :: l).foldlM f b = .ok c ↔ ∃ next, f b a = .ok next ∧ l.foldlM f next = .ok c := by
  rw [List.foldlM_cons]
  exact bind_eq_ok

/-- A fold that may fail goes through the first list, then through the second. -/
theorem Except.foldlM_append_eq_ok {α β ε : Type*} {f : β → α → Except ε β} {b c : β}
    {first second : List α} :
    (first ++ second).foldlM f b = .ok c ↔
      ∃ middle, first.foldlM f b = .ok middle ∧ second.foldlM f middle = .ok c := by
  rw [List.foldlM_append]
  exact bind_eq_ok

namespace KeyedUpdate

variable {κ ν ρ ε : Type*} [DecidableEq κ] (update : KeyedUpdate κ ν ρ ε)

/-- Apply one record. -/
def apply (contents : κ → Option ν) (record : ρ) : Except ε (κ → Option ν) :=
  (update.value (contents (update.key record)) record).map fun value =>
    Function.update contents (update.key record) (some value)

/-- Apply records in order. -/
def replay (contents : κ → Option ν) (records : List ρ) : Except ε (κ → Option ν) :=
  records.foldlM update.apply contents

/-- Apply the records of one key to the value there. -/
def replayAt (value : Option ν) (records : List ρ) : Except ε (Option ν) :=
  records.foldlM (fun value record => (update.value value record).map some) value

@[simp] theorem replay_nil (contents : κ → Option ν) : update.replay contents [] = .ok contents :=
  rfl

@[simp] theorem replay_singleton (contents : κ → Option ν) (record : ρ) :
    update.replay contents [record] = update.apply contents record := by
  rw [replay, List.foldlM_cons]
  cases update.apply contents record <;> rfl

/-- Replaying a history in two parts. -/
theorem replay_append (contents : κ → Option ν) (first second : List ρ) :
    update.replay contents (first ++ second) =
      update.replay contents first >>= fun middle => update.replay middle second :=
  List.foldlM_append

/-- A record that is applied gives its key a new value and leaves the others alone. -/
theorem apply_eq_ok {contents next : κ → Option ν} {record : ρ}
    (h : update.apply contents record = .ok next) :
    ∃ value, update.value (contents (update.key record)) record = .ok value ∧
      next = Function.update contents (update.key record) (some value) := by
  unfold apply at h
  cases hvalue : update.value (contents (update.key record)) record with
  | error failure => rw [hvalue] at h; cases h
  | ok value =>
      rw [hvalue] at h
      cases h
      exact ⟨value, rfl, rfl⟩

/-- A record whose value is not refused is applied. -/
theorem apply_of_value {contents : κ → Option ν} {record : ρ} {value : ν}
    (h : update.value (contents (update.key record)) record = .ok value) :
    update.apply contents record =
      .ok (Function.update contents (update.key record) (some value)) := by
  rw [apply, h]
  rfl

/-- The value at a key depends on the records of that key only. -/
theorem replay_at {contents final : κ → Option ν} {records : List ρ}
    (h : update.replay contents records = .ok final) (key : κ) :
    update.replayAt (contents key) (records.filter fun record => update.key record = key) =
      .ok (final key) := by
  induction records generalizing contents with
  | nil => cases h; rfl
  | cons record records ih =>
      obtain ⟨next, happly, hrest⟩ := Except.foldlM_cons_eq_ok.mp h
      have htail := ih hrest
      obtain ⟨value, hvalue, rfl⟩ := update.apply_eq_ok happly
      by_cases hkey : update.key record = key
      · subst hkey
        rw [Function.update_self] at htail
        rw [List.filter_cons_of_pos (by simp), replayAt, List.foldlM_cons, hvalue]
        exact htail
      · rw [Function.update_of_ne (Ne.symm hkey)] at htail
        rw [List.filter_cons_of_neg (by simpa using hkey)]
        exact htail

/-- A key that no record is about keeps its value. -/
theorem replay_of_not_mem {contents final : κ → Option ν} {records : List ρ}
    (h : update.replay contents records = .ok final) {key : κ}
    (hkey : ∀ record ∈ records, update.key record ≠ key) : final key = contents key := by
  have hnone : records.filter (fun record => update.key record = key) = [] := by
    rw [List.filter_eq_nil_iff]
    intro record hrecord
    simpa using hkey record hrecord
  have hvalue := update.replay_at h key
  rw [hnone] at hvalue
  exact (Except.ok.inj hvalue).symm

/-- A property that every record gives to the value it writes is a property of all values. -/
theorem replay_invariant {P : κ → ν → Prop} {records : List ρ}
    (hvalue : ∀ record ∈ records, ∀ old value, (∀ v, old = some v → P (update.key record) v) →
      update.value old record = .ok value → P (update.key record) value)
    {contents final : κ → Option ν} (hcontents : ∀ key v, contents key = some v → P key v)
    (h : update.replay contents records = .ok final) :
    ∀ key v, final key = some v → P key v := by
  induction records generalizing contents with
  | nil => cases h; exact hcontents
  | cons record records ih =>
      obtain ⟨next, happly, hrest⟩ := Except.foldlM_cons_eq_ok.mp h
      obtain ⟨value, hnew, rfl⟩ := update.apply_eq_ok happly
      refine ih (fun other hother => hvalue other (List.mem_cons_of_mem _ hother)) ?_ hrest
      intro key v hv
      by_cases hkey : key = update.key record
      · subst hkey
        rw [Function.update_self] at hv
        cases hv
        exact hvalue record List.mem_cons_self _ _ (hcontents _) hnew
      · rw [Function.update_of_ne hkey] at hv
        exact hcontents key v hv

section Overwriting

variable {value : ρ → ν} (hvalue : ∀ old record, update.value old record = .ok (value record))

include hvalue

/-- Records that overwrite are never refused. -/
theorem exists_replay_overwriting (contents : κ → Option ν) (records : List ρ) :
    ∃ final, update.replay contents records = .ok final := by
  induction records generalizing contents with
  | nil => exact ⟨contents, rfl⟩
  | cons record records ih =>
      obtain ⟨final, hfinal⟩ := ih (Function.update contents (update.key record)
        (some (value record)))
      have happly := update.apply_of_value (hvalue (contents (update.key record)) record)
      exact ⟨final, Except.foldlM_cons_eq_ok.mpr ⟨_, happly, hfinal⟩⟩

omit [DecidableEq κ] in
/-- The last one counts. -/
theorem replay_at_overwriting (old : Option ν) (records : List ρ) :
    update.replayAt old records = .ok ((records.getLast?.map value).or old) := by
  induction records generalizing old with
  | nil => rfl
  | cons record records ih =>
      rw [replayAt, List.foldlM_cons, hvalue]
      refine (ih (some (value record))).trans ?_
      rw [List.getLast?_cons]
      cases records.getLast? <;> rfl

/-- Replaying them once more changes nothing. -/
theorem replay_again {contents final : κ → Option ν} {records : List ρ}
    (h : update.replay contents records = .ok final) :
    update.replay final records = .ok final := by
  obtain ⟨again, hagain⟩ := update.exists_replay_overwriting hvalue final records
  rw [hagain]
  refine congrArg Except.ok (funext fun key => ?_)
  have hfirst := update.replay_at h key
  have hsecond := update.replay_at hagain key
  rw [update.replay_at_overwriting hvalue] at hfirst hsecond
  rw [← Except.ok.inj hsecond, ← Except.ok.inj hfirst]
  cases (records.filter fun record => update.key record = key).getLast? <;> rfl

end Overwriting

end KeyedUpdate
