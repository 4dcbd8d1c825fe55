import Quokka.DurationDb.Files

/-!
# What is written is read back

The formats of `DurationDb.Files` round trip: strings and identities, the entries of a base
file, its tables up to the order of their entries, and the records of a log. A string of more
than 10,000 bytes is not read back, nor is a variant that its text does not name, the timestamp
that stands for none, or a table whose size does not fit its 32-bit count.

`read_table_write_table` is the result for tables.
-/

namespace Quokka

open Codec

/-! ## Strings and identities -/

/-- A string that a reader accepts. -/
def StorableString (s : String) : Prop :=
  (Text.bytes s).length ≤ 10000

instance (s : String) : Decidable (StorableString s) :=
  inferInstanceAs (Decidable (_ ≤ _))

/-- An identity that a reader gives back. -/
structure StorableIdentity (tid : TestIdentity) : Prop where
  target : StorableString tid.target
  name : StorableString tid.name
  variantText : StorableString tid.variant.text
  variant : Variant.parse tid.variant.text = tid.variant

@[simp] theorem failure_class_from_byte (failureClass : Option FailureClass) :
    failureClassFromU8 (failureClassByte failureClass) = failureClass := by
  cases failureClass with
  | none => rfl
  | some failureClass => cases failureClass <;> rfl

theorem reads_u64 (value : UInt64) :
    Reader.Reads (Reader.exact 8) (u64Bytes value) (u64Bytes value) :=
  Reader.reads_exact (length_u64_bytes value)

theorem reads_string {s : String} (h : StorableString s) :
    Reader.Reads readString (writeString s) s := by
  have hlen : leValue (leBytes 4 (Text.bytes s).length) = (Text.bytes s).length := by
    rw [le_value_le_bytes]
    exact Nat.mod_eq_of_lt (Nat.lt_of_le_of_lt h (by decide))
  refine (Reader.reads_exact (length_le_bytes _ _)).bind ?_
  dsimp only
  rw [hlen, if_neg (Nat.not_lt.mpr h), ← List.append_nil (Text.bytes s)]
  refine Reader.Reads.bind (Reader.reads_exact (by simp)) ?_
  exact Reader.reads_of_option (by simp)

theorem reads_test_identity {tid : TestIdentity} (h : StorableIdentity tid) :
    Reader.Reads readTestIdentity (writeTestIdentity tid) tid := by
  unfold readTestIdentity writeTestIdentity
  rw [List.append_assoc]
  refine (reads_string h.target).bind ((reads_string h.name).bind ?_)
  exact (reads_string h.variantText).map (by rw [h.variant])

/-! ## Tables -/

section Tables

variable {ν : Type}

/-- What the entries of a table with distinct keys say about a key. -/
theorem lookup_table_of {entries : List (UInt64 × ν)}
    (hdistinct : (entries.map Prod.fst).Nodup) {key : UInt64} {value : ν} :
    (tableOf entries).lookup key = some value ↔ (key, value) ∈ entries := by
  have hfold : ∀ (entries : List (UInt64 × ν)) (table : Table UInt64 ν),
      (entries.map Prod.fst).Nodup →
      ((entries.foldl (fun table entry => table.insert entry.1 entry.2) table).lookup key =
          some value ↔
        (key, value) ∈ entries ∨
          (key ∉ entries.map Prod.fst ∧ table.lookup key = some value)) := by
    intro entries
    induction entries with
    | nil => intro table _; simp
    | cons entry entries ih =>
        intro table hdistinct
        obtain ⟨other, found⟩ := entry
        obtain ⟨hnot, hrest⟩ := List.nodup_cons.mp hdistinct
        rw [List.foldl_cons, ih _ hrest]
        by_cases hkey : key = other
        · subst hkey
          have hnone : (key, value) ∉ entries :=
            fun hmem => hnot (List.mem_map.mpr ⟨(key, value), hmem, rfl⟩)
          simp only [List.map_cons, List.mem_cons, true_or, not_true_eq_false, false_and,
            or_false, hnone, false_or, Prod.mk.injEq, true_and, AList.lookup_insert]
          simp [hnot, eq_comm]
        · simp [hkey, AList.lookup_insert_ne hkey]
  have h : (tableOf entries).lookup key = some value ↔ _ := hfold entries ∅ hdistinct
  simpa using h

/-- A written table is read back up to the order of its entries. -/
theorem read_table_write_table {entry : Reader (UInt64 × ν)} {write : UInt64 → ν → List UInt8}
    {table : Table UInt64 ν}
    (hentry : ∀ key value, table.lookup key = some value →
      Reader.Reads entry (write key value) (key, value))
    (hsmall : table.entries.length < 2 ^ 32) (rest : List UInt8) :
    ∃ found, readTable entry (writeTable write table ++ rest) = (found, rest) ∧
      ∀ key, found.lookup key = table.lookup key := by
  have hcount : leValue (leBytes 4 table.entries.length) = table.entries.length := by
    rw [le_value_le_bytes]
    exact Nat.mod_eq_of_lt hsmall
  have htimes : Reader.times entry table.entries.length
      ((table.entries.flatMap fun e => write e.1 e.2) ++ rest) =
        (table.entries.map fun e => (e.1, e.2), rest) :=
    Reader.times_images (fun e he => hentry e.1 e.2 (AList.mem_lookup_iff.mpr he)) rest
  refine ⟨tableOf (table.entries.map fun e => (e.1, e.2)), ?_, ?_⟩
  · unfold readTable writeTable
    rw [List.append_assoc, Reader.reads_exact (length_le_bytes _ _)]
    dsimp only
    rw [hcount, htimes]
  · intro key
    have hdistinct : ((table.entries.map fun e => (e.1, e.2)).map Prod.fst).Nodup := by
      simpa [Function.comp_def, List.NodupKeys, List.keys] using table.nodupKeys
    ext value
    rw [lookup_table_of hdistinct, ← Option.mem_def, AList.mem_lookup_iff]
    simp

end Tables

/-! ## Entries and log records -/

theorem reads_sample (sample : DurationSample) :
    Reader.Reads readSample (u64Bytes sample.timestampMs ++ u64Bytes sample.durationMs)
      sample :=
  (reads_u64 sample.timestampMs).bind ((reads_u64 sample.durationMs).map (by simp))

theorem reads_perf_entry {key : UInt64} {perf : PerfRecord}
    (h : perf.samples.length ≤ maxSamples) :
    Reader.Reads readPerfEntry (writePerfEntry key perf) (key, perf) := by
  have hcount : perf.samples.length = leValue (leBytes 1 perf.samples.length) := by
    rw [le_value_le_bytes]
    exact (Nat.mod_eq_of_lt (Nat.lt_of_le_of_lt h (by decide))).symm
  have hsamples : Reader.Reads
      (Reader.many readSample (leValue (leBytes 1 perf.samples.length)))
      (perf.samples.flatMap fun s => u64Bytes s.timestampMs ++ u64Bytes s.durationMs)
      (perf.samples.map id) :=
    Reader.reads_many (fun s _ => reads_sample s) hcount
  unfold readPerfEntry writePerfEntry
  rw [List.append_assoc]
  refine (reads_u64 key).bind ((Reader.reads_exact (length_le_bytes _ _)).bind ?_)
  exact hsamples.map (by simp)

theorem reads_flake_entry {key : UInt64} {flake : FlakeRecord}
    (h : flake.lastFailureTimestampMs ≠ some noTimestamp) :
    Reader.Reads readFlakeEntry (writeFlakeEntry key flake) (key, flake) := by
  have hts : (if flake.lastFailureTimestampMs.getD noTimestamp = noTimestamp then none
      else some (flake.lastFailureTimestampMs.getD noTimestamp)) =
        flake.lastFailureTimestampMs := by
    cases hlast : flake.lastFailureTimestampMs with
    | none => simp
    | some ts =>
        have hne : ts ≠ noTimestamp := fun heq => h (by rw [hlast, heq])
        simp [hne]
  unfold readFlakeEntry writeFlakeEntry
  simp only [List.append_assoc]
  refine (reads_u64 key).bind ((reads_u64 flake.runs).bind ((reads_u64 flake.failures).bind
    ((reads_u64 _).bind ?_)))
  have hclass : Reader.Reads (Reader.exact 1) [failureClassByte flake.lastFailureClass]
      [failureClassByte flake.lastFailureClass] := Reader.reads_exact rfl
  refine hclass.map ?_
  simp [hts]

theorem reads_name_entry {key : UInt64} {tid : TestIdentity} (h : StorableIdentity tid) :
    Reader.Reads readNameEntry (writeNameEntry key tid) (key, tid) :=
  (reads_u64 key).bind ((reads_test_identity h).map (by simp))

theorem perf_log_record_bytes (sample : PerfSample) :
    perfLogRecord (perfLogBytes sample) = some sample := by
  obtain ⟨env, key, timestampMs, durationMs⟩ := sample
  cases env <;>
    simp [perfLogRecord, perfLogBytes, Environment.ofIndex, Environment.all,
      Environment.toIndex, List.drop_append, List.drop_eq_nil_of_le]

theorem flake_log_record_bytes (sample : FlakeSample) :
    flakeLogRecord (flakeLogBytes sample) = some sample := by
  obtain ⟨env, key, failed, failureClass, timestampMs⟩ := sample
  cases env <;> cases failed <;>
    simp [flakeLogRecord, flakeLogBytes, Environment.ofIndex, Environment.all,
      Environment.toIndex, List.drop_append, List.drop_eq_nil_of_le]

end Quokka
