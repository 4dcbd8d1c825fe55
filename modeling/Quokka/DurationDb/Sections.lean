import Quokka.DurationDb.RoundTrip

/-!
# What a section contains

`DbSection.find` looks a key up in the contents of a section, which is all that can be observed
of them. In these terms a log record is a `KeyedUpdate`, a load is a replay of the log over what
is found in the base (`find_load`), and the formats lose nothing of contents that they can hold
(`find_read_bin`, `read_log_bytes`).

`StorableRecord` and `StorableValue` are what the formats can hold, and `Small` says that the
32-bit counts of a base file are enough.
-/

namespace Quokka

open Codec

namespace DbSection

/-- What a section is looked up by. -/
@[reducible] def Key : DbSection → Type
  | .perf => Environment × UInt64
  | .flake => Environment × UInt64
  | .names => UInt64

/-- What a section holds for one key. -/
@[reducible] def Value : DbSection → Type
  | .perf => PerfRecord
  | .flake => FlakeRecord
  | .names => TestIdentity

instance : (s : DbSection) → DecidableEq s.Key
  | .perf => inferInstanceAs (DecidableEq (Environment × UInt64))
  | .flake => inferInstanceAs (DecidableEq (Environment × UInt64))
  | .names => inferInstanceAs (DecidableEq UInt64)

/-- Look a key up. -/
def find : (s : DbSection) → s.Contents → s.Key → Option s.Value
  | .perf, tables, (env, key) => (tables env).lookup key
  | .flake, tables, (env, key) => (tables env).lookup key
  | .names, table, key => table.lookup key

/-- The hash in a key. -/
def hashOf : (s : DbSection) → s.Key → UInt64
  | .perf, place => place.2
  | .flake, place => place.2
  | .names, key => key

/-- What a log record does. -/
def update (profile : BuildProfile) : (s : DbSection) → KeyedUpdate s.Key s.Value s.Record String
  | .perf =>
      { key := fun sample => (sample.env, sample.key)
        value := fun existing sample =>
          .ok ((existing.getD {}).record sample.timestampMs sample.durationMs) }
  | .flake =>
      { key := fun sample => (sample.env, sample.key)
        value := fun existing sample =>
          (existing.getD {}).record profile sample.failed sample.failureClass sample.timestampMs }
  | .names =>
      { key := Prod.fst
        value := fun _ named => .ok named.2 }

/-- A log record that a reader gives back. -/
def StorableRecord : (s : DbSection) → s.Record → Prop
  | .perf, _ => True
  | .flake, sample => sample.timestampMs ≠ noTimestamp
  | .names, (_, tid) => StorableIdentity tid

/-- A value that a base file can hold. -/
def StorableValue : (s : DbSection) → s.Value → Prop
  | .perf, record => record.samples.length ≤ maxSamples
  | .flake, record => record.lastFailureTimestampMs ≠ some noTimestamp
  | .names, tid => StorableIdentity tid

/-- How many entries the tables of a section have. -/
def sizes : (s : DbSection) → s.Contents → List Nat
  | .perf, tables => [(tables .local).entries.length, (tables .remote).entries.length]
  | .flake, tables => [(tables .local).entries.length, (tables .remote).entries.length]
  | .names, table => [table.entries.length]

/-- The 32-bit counts of a base file are enough. -/
def Small (s : DbSection) (contents : s.Contents) : Prop :=
  ∀ size ∈ s.sizes contents, size < 2 ^ 32

/-- All values can be held by a base file. -/
def Storable (s : DbSection) (found : s.Key → Option s.Value) : Prop :=
  ∀ key value, found key = some value → s.StorableValue value

/-! ## Loading -/

/-- Looking up in the tables of both environments after one of them changed. -/
theorem lookup_update_env {ν : Type} (tables : Environment → Table UInt64 ν) (env : Environment)
    (key : UInt64) (value : ν) :
    (fun place : Environment × UInt64 =>
      (Function.update tables env ((tables env).insert key value) place.1).lookup place.2) =
      Function.update (fun place => (tables place.1).lookup place.2) (env, key) (some value) := by
  funext ⟨other, otherKey⟩
  by_cases henv : other = env
  · subst henv
    by_cases hkey : otherKey = key
    · subst hkey; simp
    · simp [hkey, Function.update_of_ne, AList.lookup_insert_ne hkey]
  · have hne : (other, otherKey) ≠ (env, key) := fun h => henv (congrArg Prod.fst h)
    simp [Function.update_of_ne henv, Function.update_of_ne hne]

/-- Applying a log record changes what is found at its key. -/
theorem find_record (profile : BuildProfile) (s : DbSection) (contents : s.Contents)
    (record : s.Record) :
    (s.record profile contents record).map s.find =
      (s.update profile).apply (s.find contents) record := by
  cases s with
  | perf => exact congrArg Except.ok (lookup_update_env _ _ _ _)
  | flake =>
      show ((((contents record.env).lookup record.key).getD {}).record profile record.failed
        record.failureClass record.timestampMs >>= _ : MayPanic _).map _ =
        ((((contents record.env).lookup record.key).getD {}).record profile record.failed
          record.failureClass record.timestampMs).map _
      cases (((contents record.env).lookup record.key).getD {}).record profile record.failed
          record.failureClass record.timestampMs with
      | error message => rfl
      | ok counted => exact congrArg Except.ok (lookup_update_env _ _ _ _)
  | names =>
      refine congrArg Except.ok ?_
      funext key
      by_cases hkey : key = record.1
      · subst hkey; simp [find, update]
      · have hupdate : Function.update (find .names contents) record.1 (some record.2) key =
            find .names contents key := Function.update_of_ne hkey _ _
        exact (AList.lookup_insert_ne hkey).trans hupdate.symm

/-- Applying log records is a replay of what is found. -/
theorem find_records (profile : BuildProfile) (s : DbSection) (contents : s.Contents)
    (records : List s.Record) :
    (records.foldlM (s.record profile) contents).map s.find =
      (s.update profile).replay (s.find contents) records := by
  induction records generalizing contents with
  | nil => rfl
  | cons record records ih =>
      have hrecord := find_record profile s contents record
      rw [List.foldlM_cons, KeyedUpdate.replay, List.foldlM_cons, ← hrecord]
      cases s.record profile contents record with
      | error message => rfl
      | ok next => exact ih next

/-- A load finds what the log makes of the base. -/
theorem find_load (profile : BuildProfile) (s : DbSection) (files : SectionFiles) :
    (s.load profile files).map s.find =
      (s.update profile).replay (s.find (s.readBin files.bin))
        (s.readLog (files.log.getD [])) :=
  find_records profile s _ _

/-- What storable records make of storable values is storable. -/
theorem storable_replay {profile : BuildProfile} {s : DbSection}
    {before after : s.Key → Option s.Value} {records : List s.Record}
    (hrecords : ∀ record ∈ records, s.StorableRecord record) (hbefore : s.Storable before)
    (h : (s.update profile).replay before records = .ok after) : s.Storable after := by
  refine (s.update profile).replay_invariant (P := fun _ => s.StorableValue) ?_ hbefore h
  intro record hrecord old value hold hvalue
  cases s with
  | perf =>
      cases hvalue
      exact length_sort_and_truncate_le _
  | flake =>
      have hold' : (old.getD {}).lastFailureTimestampMs ≠ some noTimestamp := by
        cases old with
        | none => nofun
        | some flake => exact hold flake rfl
      obtain ⟨runs, -, ⟨-, rfl⟩ | ⟨-, failures, -, rfl⟩⟩ := FlakeRecord.record_eq_ok hvalue
      · exact hold'
      · show (ite _ _ _ : FlakeRecord).lastFailureTimestampMs ≠ some noTimestamp
        split
        · intro heq
          exact hrecords record hrecord (Option.some.inj heq)
        · exact hold'
  | names =>
      cases hvalue
      exact hrecords record hrecord

/-! ## Writing and reading -/

/-- Nothing is found where there is no base file. -/
theorem find_read_bin_none (s : DbSection) : s.find (s.readBin none) = fun _ => none := by
  cases s <;> rfl

/-- What follows a magic number is found again. -/
theorem after_magic_append {magic : String} (hmagic : (Text.bytes magic).length = 4)
    (body : List UInt8) : afterMagic magic (some (Text.bytes magic ++ body)) = some body := by
  unfold afterMagic
  simp [Reader.reads_exact hmagic body]

/-- The tables of both environments are read back. -/
theorem read_environments {ν : Type} {magic : String} {entry : Reader (UInt64 × ν)}
    {write : UInt64 → ν → List UInt8} {tables : Environment → Table UInt64 ν}
    (hmagic : (Text.bytes magic).length = 4)
    (hentry : ∀ env key value, (tables env).lookup key = some value →
      Reader.Reads entry (write key value) (key, value))
    (hsmall : ∀ env, (tables env).entries.length < 2 ^ 32) (env : Environment) (key : UInt64) :
    (readEnvironments magic entry (some (writeEnvironments magic write tables)) env).lookup key =
      (tables env).lookup key := by
  obtain ⟨remoteFound, hremote, hremoteLookup⟩ :=
    read_table_write_table (hentry .remote) (hsmall .remote) []
  obtain ⟨localFound, hlocal, hlocalLookup⟩ :=
    read_table_write_table (hentry .local) (hsmall .local) (writeTable write (tables .remote))
  rw [List.append_nil] at hremote
  have hafter : afterMagic magic (some (writeEnvironments magic write tables)) =
      some (writeTable write (tables .local) ++ writeTable write (tables .remote)) := by
    unfold writeEnvironments
    rw [List.append_assoc]
    exact after_magic_append hmagic _
  unfold readEnvironments
  rw [hafter]
  simp only [hlocal, hremote]
  cases env with
  | «local» => exact hlocalLookup key
  | remote => exact hremoteLookup key

/-- A base file is read back. -/
theorem find_read_bin {s : DbSection} {contents : s.Contents}
    (hstorable : s.Storable (s.find contents)) (hsmall : s.Small contents) :
    s.find (s.readBin (some (s.writeBin contents))) = s.find contents := by
  have hmagic : ∀ magic : String, magic = "PRF1" ∨ magic = "FLK1" ∨ magic = "NMS1" →
      (Text.bytes magic).length = 4 := by
    rintro magic (rfl | rfl | rfl) <;> decide
  funext key
  cases s with
  | perf =>
      obtain ⟨env, key⟩ := key
      show (readEnvironments "PRF1" readPerfEntry
        (some (writeEnvironments "PRF1" writePerfEntry contents)) env).lookup key =
          (contents env).lookup key
      refine read_environments (hmagic _ (.inl rfl)) ?_ ?_ env key
      · exact fun env key value hvalue => reads_perf_entry (hstorable (env, key) value hvalue)
      · intro env
        refine hsmall _ ?_
        cases env <;> simp [sizes]
  | flake =>
      obtain ⟨env, key⟩ := key
      show (readEnvironments "FLK1" readFlakeEntry
        (some (writeEnvironments "FLK1" writeFlakeEntry contents)) env).lookup key =
          (contents env).lookup key
      refine read_environments (hmagic _ (.inr (.inl rfl))) ?_ ?_ env key
      · exact fun env key value hvalue => reads_flake_entry (hstorable (env, key) value hvalue)
      · intro env
        refine hsmall _ ?_
        cases env <;> simp [sizes]
  | names =>
      obtain ⟨found, hfound, hlookup⟩ := read_table_write_table
        (fun key value hvalue => reads_name_entry (hstorable key value hvalue))
        (hsmall contents.entries.length (List.mem_singleton_self _)) []
      rw [List.append_nil] at hfound
      have hafter : afterMagic "NMS1" (some (writeBin .names contents)) =
          some (writeTable writeNameEntry contents) :=
        after_magic_append (hmagic _ (.inr (.inr rfl))) _
      have hread : readBin .names (some (writeBin .names contents)) = found := by
        simp only [readBin, hafter]
        exact congrArg Prod.fst hfound
      show (readBin .names _).lookup key = _
      rw [hread]
      exact hlookup key

/-- The records of a fixed-width log are read back. -/
theorem read_records {ρ : Type} {width : Nat} (hwidth : 0 < width) {image : ρ → List UInt8}
    {read : List UInt8 → Option ρ} (hlength : ∀ record, (image record).length = width)
    (hread : ∀ record, read (image record) = some record) (log : List ρ) :
    (records width (log.flatMap image)).filterMap read = log := by
  have hnone : records width [] = [] := records_of_length_lt hwidth
  have hrecords := records_flat_map hwidth (fun record (_ : record ∈ log) => hlength record) []
  rw [hnone, List.append_nil (log.map image), List.append_nil] at hrecords
  rw [hrecords, List.filterMap_map]
  have hsome : read ∘ image = some := funext hread
  rw [hsome, List.filterMap_some]

/-- The records of a name log are read back. -/
theorem read_name_log {log : List (UInt64 × TestIdentity)}
    (h : ∀ named ∈ log, StorableIdentity named.2) (fuel : Nat) (hfuel : log.length ≤ fuel) :
    readNameLog fuel (log.flatMap fun named => writeNameEntry named.1 named.2) = log := by
  induction log generalizing fuel with
  | nil => cases fuel <;> rfl
  | cons named log ih =>
      obtain ⟨key, tid⟩ := named
      have hrest := ih (fun other hother => h other (List.mem_cons_of_mem _ hother))
      cases fuel with
      | zero => simp at hfuel
      | succ fuel =>
          have hnamed : StorableIdentity tid := h (key, tid) List.mem_cons_self
          have hlog : List.flatMap (fun named : UInt64 × TestIdentity =>
              writeNameEntry named.1 named.2) ((key, tid) :: log) =
              u64Bytes key ++ (writeTestIdentity tid ++
                log.flatMap fun named => writeNameEntry named.1 named.2) := by
            simp [writeNameEntry]
          obtain ⟨byte, bytes, hbytes⟩ : ∃ byte bytes, u64Bytes key ++ (writeTestIdentity tid ++
              log.flatMap fun named => writeNameEntry named.1 named.2) = byte :: bytes :=
            ⟨_, _, rfl⟩
          rw [hlog, hbytes, readNameLog, ← hbytes, reads_u64 key]
          · simp only [reads_test_identity hnamed _, Option.toList_some, List.map_cons,
              List.map_nil, u64_of_bytes_u64_bytes, List.singleton_append]
            rw [hrest fuel (by simpa using hfuel)]
          · nofun

/-- A log entry takes at least one byte. -/
theorem length_le_flat_map_name_entries (log : List (UInt64 × TestIdentity)) :
    log.length ≤ (log.flatMap fun named => writeNameEntry named.1 named.2).length := by
  induction log with
  | nil => simp
  | cons named log ih =>
      rw [List.flatMap_cons, List.length_append, List.length_cons]
      have hentry : 0 < (writeNameEntry named.1 named.2).length := by simp [writeNameEntry]
      omega

/-- The records of a log are read back. -/
theorem read_log_bytes {s : DbSection} {log : List s.Record}
    (h : ∀ record ∈ log, s.StorableRecord record) :
    s.readLog (log.flatMap s.logBytes) = log := by
  cases s with
  | perf =>
      exact read_records (by decide) (fun _ => by simp [perfLogBytes])
        perf_log_record_bytes log
  | flake =>
      exact read_records (by decide) (fun _ => by simp [flakeLogBytes])
        flake_log_record_bytes log
  | names =>
      exact read_name_log h _ (length_le_flat_map_name_entries log)

end DbSection

end Quokka
