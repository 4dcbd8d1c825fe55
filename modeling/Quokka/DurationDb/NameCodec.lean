import Mathlib.Data.List.Dedup
import Quokka.DurationDb.Sections

/-!
# The name log and the name table, decoded

The writer of an identity has no limit, while the reader rejects a string of more than 10,000
bytes without consuming it. So a log of identities is read back as it was written exactly as long
as all their strings are within the reader's limit: an identity beyond it is never read, and the
bytes after its length are read as further entries.

`names_decoded_iff` is the result, for the log after each of its records and for the table that a
compaction writes.
-/

namespace Quokka

open Codec

/-! ## What the readers accept -/

/-- The strings of an identity are within the reader's limit. -/
def WithinLimit (tid : TestIdentity) : Prop :=
  StorableString tid.target ∧ StorableString tid.name ∧ StorableString tid.variant.text

/-- An identity whose variant was parsed. -/
def Parsed (tid : TestIdentity) : Prop := ∃ value, tid.variant = Variant.parse value

theorem storable_iff {tid : TestIdentity} (h : Parsed tid) :
    StorableIdentity tid ↔ WithinLimit tid := by
  obtain ⟨value, hvalue⟩ := h
  constructor
  · intro hstorable
    exact ⟨hstorable.target, hstorable.name, hstorable.variantText⟩
  · rintro ⟨htarget, hname, htext⟩
    refine ⟨htarget, hname, htext, ?_⟩
    rw [hvalue, Variant.parse_text_parse]

theorem yields_string : Reader.Yields readString StorableString := by
  refine (Reader.yields_exact 4).bind fun lenBuf _ => ?_
  dsimp only
  split
  case isTrue => exact Reader.yields_fail _
  case isFalse hle =>
    refine (Reader.yields_exact _).bind fun buf hbuf => ?_
    intro input s rest hread
    have hs := Reader.yields_of_option _ input s rest hread
    show (Text.bytes s).length ≤ 10000
    rw [Text.bytes_of_from_utf8 hs, hbuf]
    omega

/-- A reader only has identities that can be stored. -/
theorem yields_test_identity : Reader.Yields readTestIdentity StorableIdentity := by
  refine yields_string.bind fun target htarget => yields_string.bind fun name hname => ?_
  refine yields_string.map fun text htext => ⟨htarget, hname, ?_, ?_⟩
  · show StorableString (Variant.parse text).text
    rw [Variant.text_parse]
    exact htext
  · exact Variant.parse_text_parse text

theorem yields_name_entry :
    Reader.Yields readNameEntry fun entry => StorableIdentity entry.2 :=
  (Reader.yields_exact 8).bind fun _ _ => yields_test_identity.map fun _ htid => htid

/-- Every name that a log is read as can be stored. -/
theorem storable_of_read_name_log (fuel : Nat) (log : List UInt8) :
    ∀ named ∈ readNameLog fuel log, StorableIdentity named.2 := by
  intro named hnamed
  induction fuel generalizing log with
  | zero => cases hnamed
  | succ fuel ih =>
      cases log with
      | nil => cases hnamed
      | cons byte bytes =>
          rw [readNameLog] at hnamed
          · split at hnamed
            case h_1 => cases hnamed
            case h_2 kBuf rest hkey =>
              rcases List.mem_append.mp hnamed with hfirst | hrest
              · obtain ⟨tid, htid, rfl⟩ := List.mem_map.mp hfirst
                exact yields_test_identity rest tid _ (Prod.ext (Option.mem_toList.mp htid) rfl)
              · exact ih _ hrest
          · intro hnil
            cases hnil

/-! ## Decoding -/

/-- Decoding the bytes of the appended entries finds the last identity of every key, and no other
key. -/
def NameLogExact (profile : BuildProfile) (entries : List (UInt64 × TestIdentity)) : Prop :=
  ∃ names, DbSection.load profile .names
      ⟨none, some (entries.flatMap (DbSection.logBytes .names))⟩ = .ok names ∧
    ∀ key, names.lookup key = Table.lastOf key entries

/-- Decoding the base file that is written for the entries finds the last identity of every key,
and no other key. -/
def NameTableExact (entries : List (UInt64 × TestIdentity)) : Prop :=
  ∀ key, (DbSection.readBin .names (some (DbSection.writeBin .names (tableOf entries)))).lookup
    key = Table.lastOf key entries

/-- A log without a base holds the last name of each key that it is read as. -/
theorem load_name_log (profile : BuildProfile) (log : List UInt8) :
    DbSection.load profile .names ⟨none, some log⟩ =
      .ok (tableOf (DbSection.readLog .names log)) := by
  have hfold : ∀ (entries : List (UInt64 × TestIdentity)) (table : Table UInt64 TestIdentity),
      entries.foldlM (DbSection.record profile .names) table =
        .ok (entries.foldl (fun table (key, value) => table.insert key value) table) := by
    intro entries
    induction entries with
    | nil => exact fun _ => rfl
    | cons entry entries ih =>
        intro table
        rw [List.foldlM_cons, List.foldl_cons]
        exact ih _
  exact hfold _ ∅

theorem lookup_table_of_entries (entries : List (UInt64 × TestIdentity)) (key : UInt64) :
    (tableOf entries).lookup key = Table.lastOf key entries := by
  rw [tableOf, Table.lookup_foldl_insert, AList.lookup_empty, Option.or_none]

/-- Entries within the limit are read back. -/
theorem name_log_exact (profile : BuildProfile) {entries : List (UInt64 × TestIdentity)}
    (h : ∀ entry ∈ entries, StorableIdentity entry.2) : NameLogExact profile entries := by
  refine ⟨_, load_name_log profile _, fun key => ?_⟩
  rw [@DbSection.read_log_bytes .names entries h, lookup_table_of_entries]

/-- What is decoded exactly is within the limit, as far as it was not superseded. -/
theorem storable_of_name_log_exact {profile : BuildProfile}
    {entries : List (UInt64 × TestIdentity)} (h : NameLogExact profile entries) {key : UInt64}
    {tid : TestIdentity} (hlast : Table.lastOf key entries = some tid) : StorableIdentity tid := by
  obtain ⟨names, hload, hnames⟩ := h
  rw [load_name_log] at hload
  cases hload
  have hfound := hnames key
  rw [lookup_table_of_entries, hlast] at hfound
  exact storable_of_read_name_log _ _ _ (Table.mem_of_last_of hfound)

/-! ## The name table -/

theorem mem_keys_table_of {entries : List (UInt64 × TestIdentity)} {key : UInt64} :
    key ∈ (tableOf entries).keys ↔ key ∈ entries.map Prod.fst := by
  rw [← AList.mem_keys, ← AList.lookup_isSome, lookup_table_of_entries, Option.isSome_iff_ne_none,
    Ne, Table.last_of_eq_none]
  simp

/-- The table has an entry for each distinct key. -/
theorem length_table_of (entries : List (UInt64 × TestIdentity)) :
    (tableOf entries).entries.length = (entries.map Prod.fst).dedup.length := by
  have hlength : (tableOf entries).keys.length = (tableOf entries).entries.length := by
    simp [AList.keys, List.keys]
  have hperm : (tableOf entries).keys.Perm (entries.map Prod.fst).dedup := by
    refine (List.perm_ext_iff_of_nodup (tableOf entries).keys_nodup (List.nodup_dedup _)).mpr ?_
    intro key
    rw [mem_keys_table_of, List.mem_dedup]
  rw [← hlength]
  exact hperm.length_eq

/-- What is read of the base file: as many entries as its 32-bit count says. -/
theorem read_name_table (table : Table UInt64 TestIdentity) :
    ∃ found : List (UInt64 × TestIdentity),
      DbSection.readBin .names (some (DbSection.writeBin .names table)) = tableOf found ∧
      found.length ≤ table.entries.length % 2 ^ 32 ∧
      ∀ entry ∈ found, StorableIdentity entry.2 := by
  let body := table.entries.flatMap fun e => writeNameEntry e.1 e.2
  have hafter : afterMagic "NMS1" (some (DbSection.writeBin .names table)) =
      some (leBytes 4 table.entries.length ++ body) :=
    DbSection.after_magic_append (by decide) _
  have hcount : leValue (leBytes 4 table.entries.length) = table.entries.length % 2 ^ 32 :=
    le_value_le_bytes 4 _
  refine ⟨(Reader.times readNameEntry (table.entries.length % 2 ^ 32) body).1, ?_,
    Reader.length_times_le _ _ _, yields_name_entry.times _ _⟩
  have hread : readTable readNameEntry (leBytes 4 table.entries.length ++ body) =
      (tableOf (Reader.times readNameEntry (table.entries.length % 2 ^ 32) body).1,
        (Reader.times readNameEntry (table.entries.length % 2 ^ 32) body).2) := by
    unfold readTable
    rw [Reader.reads_exact (length_le_bytes 4 _) body, ← hcount]
  simp only [DbSection.readBin, hafter, hread]

theorem name_table_exact_iff {entries : List (UInt64 × TestIdentity)} :
    NameTableExact entries ↔
      (∀ key tid, Table.lastOf key entries = some tid → StorableIdentity tid) ∧
        (entries.map Prod.fst).dedup.length < 2 ^ 32 := by
  rw [← length_table_of]
  constructor
  · intro h
    obtain ⟨found, hread, hlength, hstorable⟩ := read_name_table (tableOf entries)
    have hsame : ∀ key, (tableOf found).lookup key = (tableOf entries).lookup key := by
      intro key
      rw [← hread, h key, lookup_table_of_entries]
    constructor
    · intro key tid hlast
      have hfound := hsame key
      rw [lookup_table_of_entries, lookup_table_of_entries, hlast] at hfound
      exact hstorable _ (Table.mem_of_last_of hfound)
    · -- more entries than the count can say are not all read
      have hall := Table.length_le_of_lookup_eq fun key => (hsame key).symm
      have hkeys : (tableOf found).entries.length ≤ (found.map Prod.fst).length :=
        Table.length_le_of_lookup fun key value hvalue => by
          rw [← mem_keys_table_of, ← AList.mem_keys, ← AList.lookup_isSome, hvalue]
          rfl
      rw [List.length_map] at hkeys
      omega
  · rintro ⟨hstorable, hsmall⟩ key
    have hfind := @DbSection.find_read_bin .names (tableOf entries)
      (fun key tid hlookup => hstorable key tid (lookup_table_of_entries entries key ▸ hlookup))
      (fun size hsize => List.mem_singleton.mp hsize ▸ hsmall)
    exact (congrFun hfind key).trans (lookup_table_of_entries entries key)

/-! ## Main result -/

/-- The entries of a name log are decoded exactly, after each of them, when all their strings are
within the reader's limit, and with distinct keys only then; the table of a compaction is decoded
exactly when the last identity of each key is within the limit and the keys can be counted. -/
theorem names_decoded_iff (profile : BuildProfile) {entries : List (UInt64 × TestIdentity)}
    (hparsed : ∀ entry ∈ entries, Parsed entry.2) :
    ((∀ before, before <+: entries → NameLogExact profile before) ↔
      ∀ entry ∈ entries, WithinLimit entry.2) ∧
    ((entries.map Prod.fst).Nodup →
      (NameLogExact profile entries ↔ ∀ entry ∈ entries, WithinLimit entry.2)) ∧
    (NameTableExact entries ↔
      (∀ key tid, Table.lastOf key entries = some tid → WithinLimit tid) ∧
        (entries.map Prod.fst).dedup.length < 2 ^ 32) := by
  have hstorable : (∀ entry ∈ entries, WithinLimit entry.2) →
      ∀ entry ∈ entries, StorableIdentity entry.2 :=
    fun h entry hentry => (storable_iff (hparsed entry hentry)).mpr (h entry hentry)
  refine ⟨⟨?_, ?_⟩, fun hkeys => ⟨?_, fun h => name_log_exact profile (hstorable h)⟩, ?_⟩
  · intro h entry hentry
    -- the log right after the entry, which is the last one of its key there
    obtain ⟨before, after, rfl⟩ := List.append_of_mem hentry
    have hexact := h (before ++ [entry]) ⟨after, by simp⟩
    have hlast : Table.lastOf entry.1 (before ++ [entry]) = some entry.2 := by
      rw [Table.last_of_append]
      simp [Table.lastOf]
    exact (storable_iff (hparsed entry hentry)).mp (storable_of_name_log_exact hexact hlast)
  · intro h before hbefore
    exact name_log_exact profile fun entry hentry =>
      hstorable h entry (hbefore.subset hentry)
  · intro h entry hentry
    exact (storable_iff (hparsed entry hentry)).mp
      (storable_of_name_log_exact h (Table.last_of_distinct hkeys hentry))
  · rw [name_table_exact_iff]
    refine and_congr_left fun _ => forall₂_congr fun key tid => ?_
    refine imp_congr_right fun hlast => storable_iff ?_
    exact hparsed _ (Table.mem_of_last_of hlast)

instance (tid : TestIdentity) : Decidable (WithinLimit tid) :=
  inferInstanceAs (Decidable (_ ∧ _))

/-- Two tests with short names. -/
theorem short_names_decoded :
    NameLogExact ⟨true⟩ [(1, ⟨"//x:y", "t", .named "v1"⟩), (2, ⟨"//x:y", "u", .default⟩)] ∧
      NameTableExact [(1, ⟨"//x:y", "t", .named "v1"⟩), (2, ⟨"//x:y", "u", .default⟩)] := by
  have hparsed : ∀ entry ∈ [((1 : UInt64), (⟨"//x:y", "t", .named "v1"⟩ : TestIdentity)),
      (2, ⟨"//x:y", "u", .default⟩)], Parsed entry.2 :=
    List.forall_mem_cons.mpr
      ⟨⟨"v1", by decide⟩, List.forall_mem_singleton.mpr ⟨"default", by decide⟩⟩
  have hlimit : ∀ entry ∈ [((1 : UInt64), (⟨"//x:y", "t", .named "v1"⟩ : TestIdentity)),
      (2, ⟨"//x:y", "u", .default⟩)], WithinLimit entry.2 := by decide
  have h := names_decoded_iff ⟨true⟩ hparsed
  refine ⟨(h.2.1 (by decide)).mpr hlimit, h.2.2.mpr ⟨?_, by decide⟩⟩
  exact fun key tid hlast => hlimit _ (Table.mem_of_last_of hlast)

/-! ## An identity beyond the limit -/

/-- Of a string beyond the limit only the length is consumed. -/
theorem read_string_too_long {lenBuf : List UInt8} (hwidth : lenBuf.length = 4)
    (hlong : 10000 < leValue lenBuf) (rest : List UInt8) :
    readString (lenBuf ++ rest) = (none, rest) := by
  refine (Reader.bind_of_some (Reader.reads_exact hwidth rest)).trans ?_
  show (if 10000 < leValue lenBuf then Reader.fail else _ : Reader String) rest = _
  rw [if_pos hlong]
  rfl

/-- An identity whose name is beyond the limit: the name is left to be read. -/
theorem read_long_name {target name : String} (htarget : StorableString target)
    (hlong : 10000 < (Text.bytes name).length) (hfits : (Text.bytes name).length < 2 ^ 32)
    (rest : List UInt8) :
    readTestIdentity (writeString target ++ (writeString name ++ rest)) =
      (none, Text.bytes name ++ rest) := by
  have hlen : leValue (leBytes 4 (Text.bytes name).length) = (Text.bytes name).length := by
    rw [le_value_le_bytes]
    exact Nat.mod_eq_of_lt hfits
  have hname : readString (writeString name ++ rest) = (none, Text.bytes name ++ rest) := by
    rw [writeString, List.append_assoc]
    exact read_string_too_long (length_le_bytes 4 _) (hlen.symm ▸ hlong) _
  refine (Reader.bind_of_some (reads_string htarget _)).trans ?_
  exact Reader.bind_of_none hname

/-- An entry without an identity is skipped, as far as it was read. -/
theorem skip_entry {key input rest : List UInt8} (hkey : key.length = 8)
    (hidentity : readTestIdentity input = (none, rest)) (fuel : Nat) :
    readNameLog (fuel + 1) (key ++ input) = readNameLog fuel rest := by
  cases hinput : key ++ input with
  | nil =>
      rw [(List.append_eq_nil_iff.mp hinput).1] at hkey
      cases hkey
  | cons byte bytes =>
      rw [readNameLog, ← hinput, Reader.reads_exact hkey]
      · simp only [hidentity, Option.toList_none, List.map_nil, List.nil_append]
      · intro hnil
        cases hnil

/-- The text of a long name is read as keys and lengths, twelve bytes at a time. -/
theorem skip_name_text (fuel count : Nat) (rest : List UInt8) :
    readNameLog (fuel + count) (List.replicate (12 * count) 97 ++ rest) =
      readNameLog fuel rest := by
  induction count with
  | zero => rfl
  | succ count ih =>
      have hsplit : List.replicate (12 * (count + 1)) (97 : UInt8) ++ rest =
          List.replicate 8 97 ++ (List.replicate 4 97 ++
            (List.replicate (12 * count) 97 ++ rest)) := by
        rw [← List.append_assoc, ← List.append_assoc, ← List.replicate_add,
          ← List.replicate_add]
        congr 2
        omega
      have htext : ∀ more, readTestIdentity (List.replicate 4 97 ++ more) = (none, more) :=
        fun more => Reader.bind_of_none (read_string_too_long (by decide) (by decide) more)
      rw [hsplit, ← Nat.add_assoc, skip_entry (by decide) (htext _), ih]

theorem bytes_replicate (count : Nat) :
    Text.bytes (String.ofList (List.replicate count 'a')) = List.replicate count 97 := by
  rw [Text.bytes_of_list]
  induction count with
  | zero => rfl
  | succ count ih =>
      rw [List.replicate_succ, List.flatMap_cons, ih]
      rfl

/-- A name of 10,001 bytes. -/
def longName : String := String.ofList (List.replicate 10001 'a')

/-- What follows the name in the log of two tests, from its last five bytes on. -/
def afterLongName : List UInt8 :=
  List.replicate 5 97 ++ (writeString "default" ++ writeNameEntry 2 ⟨"//x:y", "u", .default⟩)

/-- The second test is read as a test under another key. -/
theorem read_after_long_name : readNameLog 9232 afterLongName =
    [(u64OfBytes (Text.bytes "ault" ++ [2, 0, 0, 0]), ⟨"", "//x:y", .named "u"⟩)] := by
  decide +kernel

/-- The log of a test with a long name and of another test. -/
def longNameLog : List (UInt64 × TestIdentity) :=
  [(1, ⟨"//x:y", longName, .default⟩), (2, ⟨"//x:y", "u", .default⟩)]

theorem read_log_names (log : List UInt8) :
    DbSection.readLog .names log = readNameLog log.length log := rfl

theorem read_long_name_log : DbSection.readLog .names
    (longNameLog.flatMap (DbSection.logBytes .names)) =
    [(u64OfBytes (Text.bytes "ault" ++ [2, 0, 0, 0]), ⟨"", "//x:y", .named "u"⟩)] := by
  have hbytes : Text.bytes longName = List.replicate 10001 97 := bytes_replicate 10001
  have hlength : (Text.bytes longName).length = 10001 := by
    rw [hbytes, List.length_replicate]
  have hsplit : Text.bytes longName = List.replicate (12 * 833) 97 ++ List.replicate 5 97 := by
    rw [hbytes, ← List.replicate_add]
  have hidentity := @read_long_name "//x:y" longName (by decide) (by omega) (by omega)
    (writeString "default" ++ writeNameEntry 2 ⟨"//x:y", "u", .default⟩)
  have hlog : longNameLog.flatMap (DbSection.logBytes .names) =
      u64Bytes 1 ++ (writeString "//x:y" ++ (writeString longName ++
        (writeString "default" ++ writeNameEntry 2 ⟨"//x:y", "u", .default⟩))) := by
    simp only [longNameLog, List.flatMap_cons, List.flatMap_nil, DbSection.logBytes,
      writeNameEntry, writeTestIdentity, Variant.text, Variant.identity, Option.getD_none,
      List.append_assoc, List.append_nil]
  have hfuel : (longNameLog.flatMap (DbSection.logBytes .names)).length = 9232 + 833 + 1 := by
    have hrest : (writeString "default" ++
        writeNameEntry 2 ⟨"//x:y", "u", .default⟩).length = 44 := by decide
    have htarget : (writeString "//x:y").length = 9 := by decide
    rw [hlog, List.length_append, List.length_append, List.length_append, hrest, htarget,
      length_u64_bytes, writeString, List.length_append, length_le_bytes, hlength]
  rw [read_log_names, hfuel, hlog, skip_entry (length_u64_bytes 1) hidentity, hsplit,
    List.append_assoc, skip_name_text]
  exact read_after_long_name

/-- A long name hides itself and the test after it, and adds a test that was never named. -/
theorem long_name_hides_next :
    ¬ NameLogExact ⟨true⟩ longNameLog ∧
      ∃ names, DbSection.load ⟨true⟩ .names
          ⟨none, some (longNameLog.flatMap (DbSection.logBytes .names))⟩ = .ok names ∧
        names.lookup 1 = none ∧ names.lookup 2 = none ∧
        names.lookup (u64OfBytes (Text.bytes "ault" ++ [2, 0, 0, 0])) =
          some ⟨"", "//x:y", .named "u"⟩ := by
  have hload := load_name_log ⟨true⟩ (longNameLog.flatMap (DbSection.logBytes .names))
  rw [read_long_name_log] at hload
  refine ⟨?_, _, hload, by decide +kernel, by decide +kernel, by decide +kernel⟩
  rintro ⟨names, hnames, hexact⟩
  have hsame := Except.ok.inj (hload.symm.trans hnames)
  have hnone : Table.lastOf 2 longNameLog = none := by
    rw [← hexact 2, ← hsame]
    decide +kernel
  exact Table.last_of_eq_none.mp hnone (2, ⟨"//x:y", "u", .default⟩)
    (List.mem_cons_of_mem _ (List.mem_singleton_self _)) rfl

end Quokka
