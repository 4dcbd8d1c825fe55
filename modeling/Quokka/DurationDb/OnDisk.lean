import Quokka.DurationDb.Sections

/-!
# Sections on disk

`DbSection.OnDisk` relates the files of a section to a base and a log of storable records, and
`DbSection.Holds` to what a load finds in them. An append extends the log by its records, and
writing loaded contents as the new base with an empty log changes nothing of what is found.
-/

namespace Quokka

open Codec

namespace DbSection

variable {profile : BuildProfile} {s : DbSection}

/-- The files of a section hold a base and the whole records of a log. -/
structure OnDisk (s : DbSection) (files : SectionFiles) (base : s.Key → Option s.Value)
    (log : List s.Record) : Prop where
  base_eq : s.find (s.readBin files.bin) = base
  base_storable : s.Storable base
  log_eq : files.log.getD [] = log.flatMap s.logBytes
  log_storable : ∀ record ∈ log, s.StorableRecord record

/-- Files that do not exist hold nothing. -/
theorem on_disk_none (s : DbSection) : s.OnDisk ⟨none, none⟩ (fun _ => none) [] where
  base_eq := find_read_bin_none s
  base_storable := nofun
  log_eq := rfl
  log_storable := nofun

/-- A load replays the log over the base. -/
theorem OnDisk.load {files : SectionFiles} {base : s.Key → Option s.Value} {log : List s.Record}
    (h : s.OnDisk files base log) :
    (s.load profile files).map s.find = (s.update profile).replay base log := by
  rw [find_load, h.base_eq, h.log_eq, read_log_bytes h.log_storable]

/-- An append extends the log. -/
theorem OnDisk.append {files : SectionFiles} {base : s.Key → Option s.Value}
    {log batch : List s.Record} (h : s.OnDisk files base log)
    (hbatch : ∀ record ∈ batch, s.StorableRecord record) :
    s.OnDisk (DurationDb.appendRecords s files batch) base (log ++ batch) := by
  have hstorable : ∀ record ∈ log ++ batch, s.StorableRecord record := by
    intro record hrecord
    rcases List.mem_append.mp hrecord with hold | hnew
    · exact h.log_storable record hold
    · exact hbatch record hnew
  unfold DurationDb.appendRecords
  split
  case isTrue hempty =>
    rw [List.isEmpty_iff.mp hempty, List.append_nil]
    exact h
  case isFalse =>
    refine ⟨h.base_eq, h.base_storable, ?_, hstorable⟩
    simp [h.log_eq]

/-- Replacing the base, which leaves the log alone. -/
theorem OnDisk.rename {files : SectionFiles} {base : s.Key → Option s.Value}
    {log : List s.Record} (h : s.OnDisk files base log) {contents : s.Contents}
    (hstorable : s.Storable (s.find contents)) (hsmall : s.Small contents) :
    s.OnDisk { files with bin := some (s.writeBin contents) } (s.find contents) log where
  base_eq := find_read_bin hstorable hsmall
  base_storable := hstorable
  log_eq := h.log_eq
  log_storable := h.log_storable

/-- Clearing the log. -/
theorem OnDisk.truncate {files : SectionFiles} {base : s.Key → Option s.Value}
    {log : List s.Record} (h : s.OnDisk files base log) :
    s.OnDisk { files with log := some [] } base [] where
  base_eq := h.base_eq
  base_storable := h.base_storable
  log_eq := rfl
  log_storable := nofun

/-- What is found in the files of a section. -/
def Holds (profile : BuildProfile) (s : DbSection) (files : SectionFiles)
    (found : s.Key → Option s.Value) : Prop :=
  ∃ base log, s.OnDisk files base log ∧ (s.update profile).replay base log = .ok found

/-- A load finds it. -/
theorem Holds.load {files : SectionFiles} {found : s.Key → Option s.Value}
    (h : s.Holds profile files found) :
    ∃ contents, s.load profile files = .ok contents ∧ s.find contents = found := by
  obtain ⟨base, log, hdisk, hreplay⟩ := h
  have hload := @OnDisk.load profile s files base log hdisk
  rw [hreplay] at hload
  cases hcontents : s.load profile files with
  | error message => rw [hcontents] at hload; cases hload
  | ok contents => rw [hcontents] at hload; exact ⟨contents, rfl, Except.ok.inj hload⟩

/-- What is found can be written again. -/
theorem Holds.storable {files : SectionFiles} {found : s.Key → Option s.Value}
    (h : s.Holds profile files found) : s.Storable found := by
  obtain ⟨base, log, hdisk, hreplay⟩ := h
  exact storable_replay hdisk.log_storable hdisk.base_storable hreplay

/-- What is found after an append. -/
theorem Holds.append {files : SectionFiles} {found extended : s.Key → Option s.Value}
    {batch : List s.Record} (h : s.Holds profile files found)
    (hbatch : ∀ record ∈ batch, s.StorableRecord record)
    (hextended : (s.update profile).replay found batch = .ok extended) :
    s.Holds profile (DurationDb.appendRecords s files batch) extended := by
  obtain ⟨base, log, hdisk, hreplay⟩ := h
  refine ⟨base, log ++ batch, hdisk.append hbatch, ?_⟩
  rw [KeyedUpdate.replay_append, hreplay]
  exact hextended

/-- A compaction changes nothing of what is found. -/
theorem Holds.compact {files : SectionFiles} {contents : s.Contents}
    (h : s.Holds profile files (s.find contents)) (hsmall : s.Small contents) :
    s.Holds profile ⟨some (s.writeBin contents), some []⟩ (s.find contents) := by
  have hstorable := h.storable
  obtain ⟨base, log, hdisk, -⟩ := h
  exact ⟨s.find contents, [], (hdisk.rename hstorable hsmall).truncate, rfl⟩

/-- Tables whose keys are among a few keys are small. -/
theorem small_of_keys {contents : s.Contents} {keys : List UInt64}
    (hkeys : ∀ key value, s.find contents key = some value → s.hashOf key ∈ keys)
    (hcount : keys.length < 2 ^ 32) : s.Small contents := by
  intro size hsize
  refine Nat.lt_of_le_of_lt ?_ hcount
  cases s with
  | perf =>
      simp only [sizes, List.mem_cons, List.not_mem_nil, or_false] at hsize
      rcases hsize with rfl | rfl
      · exact Table.length_le_of_lookup fun key value h => hkeys (.local, key) value h
      · exact Table.length_le_of_lookup fun key value h => hkeys (.remote, key) value h
  | flake =>
      simp only [sizes, List.mem_cons, List.not_mem_nil, or_false] at hsize
      rcases hsize with rfl | rfl
      · exact Table.length_le_of_lookup fun key value h => hkeys (.local, key) value h
      · exact Table.length_le_of_lookup fun key value h => hkeys (.remote, key) value h
  | names =>
      rw [List.mem_singleton.mp hsize]
      exact Table.length_le_of_lookup hkeys

/-- Without a base, only keys of the log are found. -/
theorem OnDisk.find_eq_none {files : SectionFiles} {log : List s.Record} {contents : s.Contents}
    (h : s.OnDisk files (fun _ => none) log) (hload : s.load profile files = .ok contents)
    {key : s.Key} (hother : ∀ record ∈ log, (s.update profile).key record ≠ key) :
    s.find contents key = none := by
  have hreplay := @OnDisk.load profile _ _ _ _ h
  rw [hload] at hreplay
  exact KeyedUpdate.replay_of_not_mem _ hreplay.symm hother

/-- Without a base, what is loaded is small if the log is about a few keys. -/
theorem OnDisk.small_of_log {files : SectionFiles} {log : List s.Record} {contents : s.Contents}
    (h : s.OnDisk files (fun _ => none) log) (hload : s.load profile files = .ok contents)
    {keys : List UInt64}
    (hkeys : ∀ record ∈ log, s.hashOf ((s.update profile).key record) ∈ keys)
    (hcount : keys.length < 2 ^ 32) : s.Small contents := by
  refine small_of_keys (fun key value hvalue => ?_) hcount
  by_contra hnone
  have hother : ∀ record ∈ log, (s.update profile).key record ≠ key := by
    rintro record hrecord rfl
    exact hnone (hkeys record hrecord)
  rw [h.find_eq_none hload hother] at hvalue
  cases hvalue

end DbSection

end Quokka
