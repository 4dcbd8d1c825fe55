import Quokka.DurationDb.History
import Quokka.DurationDb.Persistence
import Mathlib.Data.List.Dedup

/-!
# Persistence refines the store in memory

`sessions_refine_memory`: what sessions on one directory leave there is what all their operations
make of an empty store in memory, as long as their tests have fewer than `2 ^ 32` keys and each
of these fewer than `2 ^ 64` runs.

The bounds are those of the 32-bit counts in the base files and of the counters. A compaction of
`2 ^ 32` names writes the count zero, after which no name is found (`names_lost_by_count`), and
where overflow is not checked the counter of `2 ^ 64` runs is zero (`runs_wrap`).
-/

namespace Quokka

open Codec

namespace DurationDb

variable [HashKey] {profile : BuildProfile}

/-- The final load after sessions on one directory is the store that all operations in order make
of an empty store in memory: the most recent samples, the counts of runs and failures with the
latest failure, and the names. Flushing again with nothing new changes nothing. -/
theorem sessions_refine_memory {dir : String} (hdir : dir.isEmpty = false)
    {runs : List (List (List DbOp))} (hops : ∀ op ∈ runs.flatten.flatten, op.Storable)
    (hcount : ∀ env key,
      (runs.flatten.flatten.filterMap (DbOp.outcomeOf env key)).length < 2 ^ 64)
    (hkeys : (runs.flatten.flatten.map DbOp.key).dedup.length < 2 ^ 32) :
    ∃ mem files db,
      ephemeral.performAll profile runs.flatten.flatten = .ok mem ∧
      sessions profile dir noFiles runs = .ok files ∧
      load profile dir files = .ok db ∧
      db.Same mem ∧
      mem.Remembers runs.flatten.flatten ∧
      (∀ env key flake, (mem.flake env).lookup key = some flake →
        flake.runs.toNat = (runs.flatten.flatten.filterMap (DbOp.outcomeOf env key)).length ∧
        flake.failures.toNat =
          (runs.flatten.flatten.filterMap (DbOp.outcomeOf env key)).countP FlakeSample.failed ∧
        flake.failures ≤ flake.runs ∧
        (flake.lastFailureTimestampMs.isSome ↔ 0 < flake.failures)) ∧
      flush profile files db = .ok (files, db) := by
  obtain ⟨mem, hmem⟩ := exists_performAll profile hcount
  have hremembers : mem.Remembers runs.flatten.flatten := remembers_nil.performAll hmem
  have hamong : KeysAmong (runs.flatten.flatten.map DbOp.key).dedup ephemeral := by
    intro s
    cases s <;> nofun
  obtain ⟨files, hfiles, hsettled⟩ := settled_no_files.sessions hdir hamong hkeys
    (fun op hop => ⟨hops op hop, List.mem_dedup.mpr (List.mem_map_of_mem hop)⟩) hmem
  obtain ⟨db, hdb, -, hpending, hfollows⟩ := hsettled.load dir
  refine ⟨mem, files, db, hmem, hfiles, hdb, hfollows.same, hremembers, ?_,
    flush_again hsettled hpending⟩
  intro env key flake hflake
  have hcounts := hremembers.outcomes env key
  rw [hflake] at hcounts
  exact hcounts.exact (hcount env key)

omit [HashKey] in
/-- Two sessions with three flushes: a test that fails after it passed, and a discovered one. -/
theorem two_sessions_refine_memory :
    let _ : HashKey := ⟨fun tid => UInt64.ofNat tid.name.length⟩
    let flaky : TestIdentity := ⟨"//app:tests", "flaky", .default⟩
    let runs : List (List (List DbOp)) :=
      [[[.recordAt .local flaky ⟨3000000⟩ false none 1000],
        [.recordAt .local flaky ⟨4000000⟩ true (some .timeout) 2000]],
        [[.recordDiscoveredName ⟨"//app:tests", "steady", .asan⟩]]]
    ∃ mem files db,
      ephemeral.performAll ⟨false⟩ runs.flatten.flatten = .ok mem ∧
      sessions ⟨false⟩ "quokka" noFiles runs = .ok files ∧
      load ⟨false⟩ "quokka" files = .ok db ∧ db.Same mem ∧
      flush ⟨false⟩ files db = .ok (files, db) := by
  intro key flaky runs
  have hflaky : StorableIdentity flaky := ⟨by decide, by decide, by decide, by decide⟩
  have hops : ∀ op ∈ runs.flatten.flatten, op.Storable := by
    intro op hop
    simp only [runs, List.flatten_cons, List.flatten_nil, List.append_nil, List.cons_append,
      List.nil_append, List.mem_cons, List.not_mem_nil, or_false] at hop
    rcases hop with rfl | rfl | rfl
    · exact ⟨hflaky, by decide⟩
    · exact ⟨hflaky, by decide⟩
    · exact ⟨by decide, by decide, by decide, by decide⟩
  obtain ⟨mem, files, db, hmem, hfiles, hdb, hsame, -, -, hagain⟩ :=
    @sessions_refine_memory key ⟨false⟩ "quokka" (by decide) runs hops (fun _ _ =>
      Nat.lt_of_le_of_lt (List.length_filterMap_le _ _) (by decide)) (by decide)
  exact ⟨mem, files, db, hmem, hfiles, hdb, hsame, hagain⟩

/-! ## Too many names -/

/-- Remembering new names of different keys records all of them. -/
theorem performAll_new_names {db : DurationDb} {names : List TestIdentity}
    (hkeys : (names.map HashKey.hashKey).Nodup)
    (hnew : ∀ tid ∈ names, HashKey.hashKey tid ∉ db.names) :
    ∃ next, db.performAll profile (names.map .recordDiscoveredName) = .ok next ∧
      next.newNames = db.newNames ++ names.map fun tid => (HashKey.hashKey tid, tid) := by
  induction names generalizing db with
  | nil => exact ⟨db, rfl, (List.append_nil _).symm⟩
  | cons tid names ih =>
      rw [List.map_cons, List.nodup_cons] at hkeys
      let recorded : DurationDb :=
        { db with
          names := db.names.insert (HashKey.hashKey tid) tid
          newNames := db.newNames ++ [(HashKey.hashKey tid, tid)] }
      have hrecorded : db.perform profile (.recordDiscoveredName tid) = .ok recorded := by
        simp only [perform, recordDiscoveredName, if_neg (hnew tid List.mem_cons_self), recorded]
      obtain ⟨next, hnext, hnames⟩ := @ih recorded hkeys.2 (by
        intro other hother hmem
        rcases AList.mem_insert _ |>.mp hmem with hsame | hold
        · exact hkeys.1 (hsame ▸ List.mem_map_of_mem hother)
        · exact hnew other (List.mem_cons_of_mem _ hother) hold)
      refine ⟨next, Except.foldlM_cons_eq_ok.mpr ⟨recorded, hrecorded, hnext⟩, ?_⟩
      rw [hnames, List.append_assoc]
      rfl

omit [HashKey] in
/-- The count of a table with `2 ^ 32` entries is written as zero. -/
theorem find_read_bin_of_count_wraps {table : Table UInt64 TestIdentity}
    (hcount : table.entries.length = 2 ^ 32) (key : UInt64) :
    (DbSection.readBin .names (some (DbSection.writeBin .names table))).lookup key = none := by
  have hafter : afterMagic "NMS1" (some (DbSection.writeBin .names table)) =
      some (writeTable writeNameEntry table) :=
    DbSection.after_magic_append (by decide) _
  have hread : (readTable readNameEntry (writeTable writeNameEntry table)).1 = ∅ := by
    unfold readTable writeTable
    rw [hcount, Reader.reads_exact (length_le_bytes 4 (2 ^ 32)) _]
    rfl
  simp only [DbSection.readBin, hafter, hread]
  rfl

omit [HashKey] in
/-- A load of compacted files reads the base files. -/
theorem load_of_empty_logs (dir : String) {files : DbFiles} (h : ∀ s, (files s).log = some []) :
    load profile dir files = .ok { ephemeral with
      dir
      perf := DbSection.readBin .perf (files .perf).bin
      flake := DbSection.readBin .flake (files .flake).bin
      names := DbSection.readBin .names (files .names).bin } := by
  have hload : ∀ s : DbSection, s.load profile (files s) = .ok (s.readBin (files s).bin) := by
    intro s
    unfold DbSection.load
    rw [h s, show s.readLog ((some []).getD []) = [] from
      @DbSection.read_log_bytes s [] nofun]
    rfl
  unfold load
  rw [hload, hload, hload]
  rfl

/-- A store that remembers `2 ^ 32` names has a table of as many entries. -/
theorem length_entries_of_remembers {db mem : DurationDb} {names : List TestIdentity}
    (hsame : db.Same mem) (hremembers : mem.Remembers (names.map .recordDiscoveredName))
    (hkeys : (names.map HashKey.hashKey).Nodup) : db.names.entries.length = names.length := by
  have hperm : db.names.keys.Perm (names.map HashKey.hashKey) := by
    refine (List.perm_ext_iff_of_nodup db.names.keys_nodup hkeys).mpr fun key => ?_
    have hlookup : db.names.lookup key = ((names.map DbOp.recordDiscoveredName).find?
        fun op => op.key = key).map DbOp.testId :=
      (congrFun (hsame .names) key).trans (hremembers.names key)
    rw [← AList.mem_keys, ← AList.lookup_isSome, hlookup, Option.isSome_map, List.find?_isSome]
    simp only [List.mem_map, exists_exists_and_eq_and, decide_eq_true_eq]
    exact Iff.rfl
  have hlength := hperm.length_eq
  rw [List.length_map] at hlength
  rw [← hlength, AList.keys, List.keys, List.length_map]

/-- A session that remembers `2 ^ 32` names and flushes leaves a store in which no name is
found. -/
theorem names_lost_by_count {dir : String} (hdir : dir.isEmpty = false)
    {names : List TestIdentity} (hlength : names.length = 2 ^ 32)
    (hkeys : (names.map HashKey.hashKey).Nodup) (hnames : ∀ tid ∈ names, StorableIdentity tid) :
    ∃ mem files db,
      ephemeral.performAll profile (names.map .recordDiscoveredName) = .ok mem ∧
      sessions profile dir noFiles [[names.map .recordDiscoveredName]] = .ok files ∧
      load profile dir files = .ok db ∧
      mem.Remembers (names.map .recordDiscoveredName) ∧
      ∀ key, db.names.lookup key = none := by
  obtain ⟨mem, hmem⟩ := @exists_performAll _ profile (names.map .recordDiscoveredName) (by
    intro env key
    refine Nat.lt_of_le_of_lt (List.length_filterMap_le _ _) ?_
    rw [List.length_map, hlength]
    decide)
  have hremembers : mem.Remembers (names.map .recordDiscoveredName) :=
    remembers_nil.performAll hmem
  obtain ⟨opened, hopened, hdirOpened, hnone, hfollows⟩ :=
    Settled.load (@settled_no_files profile) dir
  obtain ⟨performed, hperformed, hdirPerformed, hnext⟩ := hfollows.performAll (by
    intro op hop
    obtain ⟨tid, htid, rfl⟩ := List.mem_map.mp hop
    exact hnames tid htid) hmem
  have hnewNames : performed.newNames = names.map fun tid => (HashKey.hashKey tid, tid) := by
    obtain ⟨next, hnextOk, hnew⟩ := @performAll_new_names _ profile opened names hkeys (by
      intro tid _ hmem
      have hnotFound : opened.names.lookup (HashKey.hashKey tid) = none :=
        congrFun (hfollows.same .names) (HashKey.hashKey tid)
      exact (AList.lookup_eq_none.mp hnotFound) hmem)
    rw [hperformed] at hnextOk
    cases hnextOk
    rw [hnew, show opened.newNames = [] from hnone .names, List.nil_append]
  -- Every name takes at least one byte of the log, so the flush compacts.
  have hlarge : needsCompaction
      (fun s => appendRecords s (noFiles s) (performed.pending s)) = true := by
    have hlog := DbSection.length_le_flat_map_name_entries performed.newNames
    have hcount : performed.newNames.length = 2 ^ 32 := by rw [hnewNames, List.length_map, hlength]
    refine List.any_eq_true.mpr ⟨.names, by simp, decide_eq_true ?_⟩
    have hpending : (performed.newNames.isEmpty) = false := by
      rw [List.isEmpty_eq_false_iff, ← List.length_pos_iff, hcount]
      decide
    have happended : appendRecords .names (noFiles .names) (performed.pending .names) =
        ⟨none, some ([] ++ performed.newNames.flatMap (DbSection.logBytes .names))⟩ := by
      unfold appendRecords
      rw [show (performed.pending .names).isEmpty = false from hpending]
      rfl
    dsimp only
    rw [happended]
    refine Nat.lt_of_lt_of_le ?_ hlog
    rw [hcount]
    decide
  obtain ⟨disk, hdisk, -, -, hdiskSame⟩ := load_eq_ok performed.dir hnext.appended
  have hentries := length_entries_of_remembers hdiskSame hremembers hkeys
  -- The table that the compaction writes says that it has no entries.
  let files : DbFiles := fun s => ⟨some (s.writeBin (disk.contents s)), some []⟩
  obtain ⟨flushed, hflush⟩ : ∃ flushed, flush profile noFiles performed = .ok (files, flushed) :=
    ⟨_, flush_of_large (by rw [hdirPerformed, hdirOpened]; exact hdir) hlarge hdisk⟩
  refine ⟨mem, files, _, hmem, ?_, load_of_empty_logs dir fun _ => rfl, hremembers, ?_⟩
  · refine Except.foldlM_cons_eq_ok.mpr ⟨files, ?_, rfl⟩
    have hbatch : performAndFlush profile (noFiles, opened) (names.map .recordDiscoveredName) =
        .ok (files, flushed) := by
      unfold performAndFlush
      dsimp only
      rw [hperformed]
      exact hflush
    unfold session
    rw [hopened]
    show ([names.map .recordDiscoveredName].foldlM (performAndFlush profile)
      (noFiles, opened)).map Prod.fst = _
    rw [List.foldlM_cons, hbatch]
    rfl
  · exact fun key => find_read_bin_of_count_wraps (hentries.trans hlength) key

/-! ## Too many runs -/

/-- Without overflow checks no operation panics. -/
theorem exists_performAll_unchecked (db : DurationDb) (ops : List DbOp) :
    ∃ next, db.performAll ⟨false⟩ ops = .ok next := by
  induction ops generalizing db with
  | nil => exact ⟨db, rfl⟩
  | cons op ops ih =>
      obtain ⟨next, hnext⟩ := @exists_perform_of_record _ ⟨false⟩ db op
        fun _ _ _ _ _ _ _ => FlakeRecord.exists_record rfl rfl _ _ _
      obtain ⟨final, hfinal⟩ := ih next
      exact ⟨final, Except.foldlM_cons_eq_ok.mpr ⟨next, hnext, hfinal⟩⟩

/-- The counter of `2 ^ 64` runs of a test is zero where overflow is not checked, also when one
of the runs failed. -/
theorem runs_wrap (testId : TestIdentity) {passed : Nat} (hpassed : passed + 1 = 2 ^ 64) :
    ∃ mem flake, ephemeral.performAll ⟨false⟩
        (.recordAt .local testId ⟨0⟩ true none 0 ::
          List.replicate passed (.recordAt .local testId ⟨0⟩ false none 0)) = .ok mem ∧
      (mem.flake .local).lookup (HashKey.hashKey testId) = some flake ∧
      flake.runs = 0 ∧ flake.failures = 1 := by
  obtain ⟨mem, hmem⟩ := exists_performAll_unchecked ephemeral
    (.recordAt .local testId ⟨0⟩ true none 0 ::
      List.replicate passed (.recordAt .local testId ⟨0⟩ false none 0))
  have hremembers := remembers_nil.performAll hmem
  have htested := hremembers.tested .local (HashKey.hashKey testId)
  have hcounts := hremembers.outcomes .local (HashKey.hashKey testId)
  rw [List.nil_append, List.filterMap_cons_some (DbOp.outcome_of_self _ _ _ _ _ _),
    List.filterMap_replicate_of_some (DbOp.outcome_of_self _ _ _ _ _ _)] at htested hcounts
  obtain ⟨flake, hflake⟩ := Option.isSome_iff_exists.mp (htested.mpr (List.cons_ne_nil _ _))
  rw [hflake] at hcounts
  refine ⟨mem, flake, hmem, hflake, ?_, ?_⟩
  · rw [show flake.runs = _ from hcounts.runs_eq, List.length_cons, List.length_replicate,
      hpassed]
    rfl
  · rw [show flake.failures = _ from hcounts.failures_eq, List.countP_cons, List.countP_replicate]
    rfl

end DurationDb

/-- The letters a to p as the digits of a number, least significant first. -/
def letters : Nat → Nat → List Char
  | 0, _ => []
  | width + 1, value => Char.ofNat (97 + value % 16) :: letters width (value / 16)

/-- The number that letters spell. -/
def spelled : List Char → Nat
  | [] => 0
  | c :: rest => (c.toNat - 97) + 16 * spelled rest

theorem spelled_letters (width value : Nat) :
    spelled (letters width value) = value % 16 ^ width := by
  induction width generalizing value with
  | zero => simp [letters, spelled, Nat.mod_one]
  | succ width ih =>
      have hdigit : ∀ digit < 16, (Char.ofNat (97 + digit)).toNat - 97 = digit := by decide
      rw [letters, spelled, ih, hdigit _ (Nat.mod_lt _ (by decide)), Nat.pow_succ',
        Nat.mod_mul]

/-- A test whose name spells a number. -/
def numberedTest (number : Nat) : TestIdentity :=
  { target := "t", name := String.ofList (letters 8 number), variant := .default }

/-- The key of a test is the number that its name spells. -/
@[reducible] def spelledKey : HashKey :=
  ⟨fun tid => UInt64.ofNat (spelled tid.name.toList)⟩

theorem storable_numbered_test (number : Nat) : StorableIdentity (numberedTest number) := by
  have hlength : ∀ width value, (letters width value).length = width := by
    intro width
    induction width with
    | zero => exact fun _ => rfl
    | succ width ih => exact fun value => congrArg Nat.succ (ih _)
  refine ⟨(by decide : StorableString "t"), ?_, (by decide : StorableString "default"),
    (by decide : Variant.parse "default" = .default)⟩
  refine Nat.le_trans (Text.length_bytes_of_list_le _) ?_
  rw [hlength]
  decide

theorem numbered_tests_nodup :
    (((List.range (2 ^ 32)).map numberedTest).map spelledKey.hashKey).Nodup := by
  have hkey : ∀ number < 2 ^ 32,
      (spelledKey.hashKey (numberedTest number)).toNat = number := by
    intro number hnumber
    show (UInt64.ofNat (spelled (String.ofList (letters 8 number)).toList)).toNat = number
    rw [String.toList_ofList, spelled_letters,
      Nat.mod_eq_of_lt (Nat.lt_of_lt_of_eq hnumber (by decide)),
      UInt64.toNat_ofNat_of_lt' (Nat.lt_trans hnumber (by decide))]
  rw [List.map_map]
  refine List.Nodup.map_on ?_ List.nodup_range
  intro first hfirst second hsecond hsame
  rw [← hkey first (List.mem_range.mp hfirst), ← hkey second (List.mem_range.mp hsecond)]
  exact congrArg UInt64.toNat hsame

/-- One run that discovers `2 ^ 32` tests and flushes once leaves a store without their names, and
a test that ran `2 ^ 64` times has more failures than runs. -/
theorem discovered_names_lost_by_compaction :
    let _ : HashKey := spelledKey
    let names := (List.range (2 ^ 32)).map numberedTest
    let ops := names.map DbOp.recordDiscoveredName
    let runs := DbOp.recordAt .local (numberedTest 0) ⟨0⟩ true none 0 ::
      List.replicate (2 ^ 64 - 1) (.recordAt .local (numberedTest 0) ⟨0⟩ false none 0)
    ((∀ op ∈ ops, op.Storable) ∧ (names.map HashKey.hashKey).Nodup ∧
      ∃ mem files db,
        DurationDb.ephemeral.performAll ⟨false⟩ ops = .ok mem ∧
        DurationDb.sessions ⟨false⟩ "quokka" DurationDb.noFiles [[ops]] = .ok files ∧
        DurationDb.load ⟨false⟩ "quokka" files = .ok db ∧ ¬db.Same mem) ∧
    ∃ mem flake,
      DurationDb.ephemeral.performAll ⟨false⟩ runs = .ok mem ∧
      (mem.flake .local).lookup (HashKey.hashKey (numberedTest 0)) = some flake ∧
      ¬flake.failures ≤ flake.runs := by
  intro key names ops runs
  have hnames : ∀ tid ∈ names, StorableIdentity tid := by
    intro tid htid
    obtain ⟨number, -, rfl⟩ := List.mem_map.mp htid
    exact storable_numbered_test number
  refine ⟨⟨?_, numbered_tests_nodup, ?_⟩, ?_⟩
  · intro op hop
    obtain ⟨tid, htid, rfl⟩ := List.mem_map.mp hop
    exact hnames tid htid
  · have hlength : names.length = 2 ^ 32 := by rw [List.length_map, List.length_range]
    obtain ⟨mem, files, db, hmem, hfiles, hdb, hremembers, hnone⟩ :=
      @DurationDb.names_lost_by_count key ⟨false⟩ "quokka" (by decide) names hlength
        numbered_tests_nodup hnames
    refine ⟨mem, files, db, hmem, hfiles, hdb, fun hsame => ?_⟩
    let lost := DbOp.recordDiscoveredName (numberedTest 0)
    have hlost : lost ∈ ops := by
      refine List.mem_map_of_mem (List.mem_map_of_mem (List.mem_range.mpr ?_))
      decide
    have hfound := hremembers.names lost.key
    rw [← show db.names.lookup lost.key = mem.names.lookup lost.key from
      congrFun (hsame .names) lost.key, hnone] at hfound
    have hmissing := List.find?_eq_none.mp (Option.map_eq_none_iff.mp hfound.symm) lost hlost
    exact hmissing (decide_eq_true rfl)
  · obtain ⟨mem, flake, hmem, hflake, hruns, hfailures⟩ :=
      @DurationDb.runs_wrap key (numberedTest 0) (2 ^ 64 - 1) (by decide)
    refine ⟨mem, flake, hmem, hflake, ?_⟩
    rw [hruns, hfailures]
    decide

end Quokka
