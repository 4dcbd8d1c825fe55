import Quokka.DurationDb.Sections
import Quokka.Library.OkIff

/-!
# When counters overflow

In a build with overflow checks the counters of the flake section are the only part of a load, of
a recorded run, of a query and of a combination that can panic. Each of them is described by an
`Except.OkIff`: it returns exactly when the sums fit into 64 bits, and panics with
`overflowMessage` otherwise (`load_fits_iff`, `record_at_fits_iff`, `get_flake_record_fits_iff`,
`combine_fits_iff`). `OverflowOnly` says for any build that nothing else panics.
-/

namespace Quokka

/-- The panic of an addition that does not fit. -/
def overflowMessage : String := "attempt to add with overflow"

/-- A computation of a build with overflow checks, which returns exactly when `p` holds and
otherwise panics because of an addition. -/
abbrev FitsIff {α : Type} (p : Prop) (x : MayPanic α) : Prop :=
  Except.OkIff overflowMessage p x

/-- The build with overflow checks. -/
@[reducible] def BuildProfile.checked : BuildProfile := ⟨true⟩

open BuildProfile (checked)

theorem BuildProfile.add_u64_fits_iff (a b : UInt64) :
    FitsIff (a.toNat + b.toNat < 2 ^ 64) (checked.addU64 a b) := by
  unfold addU64
  split
  case isTrue hover =>
    have hsize : UInt64.size ≤ a.toNat + b.toNat := by simpa using hover
    exact ⟨Nat.not_lt.mpr hsize, rfl⟩
  case isFalse hfits =>
    have hsize : ¬UInt64.size ≤ a.toNat + b.toNat := by simpa using hfits
    exact Nat.not_le.mp hsize

/-- What a checked addition returns is the sum. -/
theorem BuildProfile.to_nat_add_u64 {a b c : UInt64} (h : checked.addU64 a b = .ok c) :
    c.toNat = a.toNat + b.toNat := by
  have hfits := (add_u64_fits_iff a b).of_eq_ok h
  rw [add_u64_of_lt _ hfits] at h
  cases h
  rw [UInt64.toNat_add, Nat.mod_eq_of_lt hfits]

namespace FlakeRecord

variable {flake next other : FlakeRecord} {failed : Bool} {failureClass : Option FailureClass}
  {timestampMs : UInt64}

/-- Counting one run. -/
theorem record_fits_iff :
    FitsIff (flake.runs.toNat + 1 < 2 ^ 64 ∧ (failed = true → flake.failures.toNat + 1 < 2 ^ 64))
      (flake.record checked failed failureClass timestampMs) := by
  unfold record
  refine (BuildProfile.add_u64_fits_iff flake.runs 1).and fun runs _ => ?_
  cases failed with
  | false => exact nofun
  | true =>
      have hfailures := BuildProfile.add_u64_fits_iff flake.failures 1
      refine Except.OkIff.congr (hfailures.then_pure fun failures _ => ?_)
        ⟨fun h _ => h, fun h => h rfl⟩
      show ∃ counted, (if flake.lastFailureTimestampMs.getD 0 ≤ timestampMs then _ else _ :
        MayPanic FlakeRecord) = .ok counted
      split <;> exact ⟨_, rfl⟩

/-- What counting one run does to the counters. -/
theorem counts_of_record (h : flake.record checked failed failureClass timestampMs = .ok next) :
    next.runs.toNat = flake.runs.toNat + 1 ∧
      next.failures.toNat = flake.failures.toNat + if failed = true then 1 else 0 := by
  obtain ⟨runs, hruns, ⟨rfl, rfl⟩ | ⟨rfl, failures, hfailures, rfl⟩⟩ := record_eq_ok h
  · exact ⟨BuildProfile.to_nat_add_u64 hruns, rfl⟩
  · have hrunsNat := BuildProfile.to_nat_add_u64 hruns
    have hfailuresNat := BuildProfile.to_nat_add_u64 hfailures
    split
    · exact ⟨hrunsNat, hfailuresNat⟩
    · exact ⟨hrunsNat, hfailuresNat⟩

/-- Adding the counts of another record. -/
theorem combine_fits_iff :
    FitsIff (flake.runs.toNat + other.runs.toNat < 2 ^ 64 ∧
        flake.failures.toNat + other.failures.toNat < 2 ^ 64)
      (flake.combine checked other) := by
  unfold combine
  refine (BuildProfile.add_u64_fits_iff flake.runs other.runs).and fun runs _ => ?_
  refine (BuildProfile.add_u64_fits_iff flake.failures other.failures).then_pure
    fun failures _ => ?_
  cases other.lastFailureTimestampMs with
  | none => exact ⟨_, rfl⟩
  | some otherTs =>
      show ∃ combined, (if flake.lastFailureTimestampMs.getD 0 ≤ otherTs then _ else _ :
        MayPanic FlakeRecord) = .ok combined
      split <;> exact ⟨_, rfl⟩

/-- What adding another record does to the counters. -/
theorem counts_of_combine (h : flake.combine checked other = .ok next) :
    next.runs.toNat = flake.runs.toNat + other.runs.toNat ∧
      next.failures.toNat = flake.failures.toNat + other.failures.toNat := by
  unfold combine at h
  obtain ⟨runs, hruns, h⟩ := Except.bind_eq_ok.mp h
  obtain ⟨failures, hfailures, h⟩ := Except.bind_eq_ok.mp h
  have hrunsNat := BuildProfile.to_nat_add_u64 hruns
  have hfailuresNat := BuildProfile.to_nat_add_u64 hfailures
  cases hlast : other.lastFailureTimestampMs with
  | none =>
      rw [hlast] at h
      cases h
      exact ⟨hrunsNat, hfailuresNat⟩
  | some otherTs =>
      rw [hlast] at h
      change (if flake.lastFailureTimestampMs.getD 0 ≤ otherTs then _ else _ :
        MayPanic FlakeRecord) = .ok next at h
      split at h <;> cases h <;> exact ⟨hrunsNat, hfailuresNat⟩

end FlakeRecord

/-! ## Tables of counters -/

/-- The run counter of a key. -/
def runsOf (table : Table UInt64 FlakeRecord) (key : UInt64) : Nat :=
  ((table.lookup key).getD {}).runs.toNat

/-- The failure counter of a key. -/
def failuresOf (table : Table UInt64 FlakeRecord) (key : UInt64) : Nat :=
  ((table.lookup key).getD {}).failures.toNat

theorem runs_of_lt (table : Table UInt64 FlakeRecord) (key : UInt64) :
    runsOf table key < 2 ^ 64 :=
  UInt64.toNat_lt _

theorem failures_of_lt (table : Table UInt64 FlakeRecord) (key : UInt64) :
    failuresOf table key < 2 ^ 64 :=
  UInt64.toNat_lt _

/-- The records of a flake log that are about a key. -/
def recordsOf (env : Environment) (key : UInt64) (log : List FlakeSample) : List FlakeSample :=
  log.filter fun sample => sample.env = env ∧ sample.key = key

/-- The counters of every key, with the records of a log added, fit into 64 bits. -/
def CountersFit (tables : Environment → Table UInt64 FlakeRecord) (log : List FlakeSample) :
    Prop :=
  ∀ env key,
    runsOf (tables env) key + (recordsOf env key log).length < 2 ^ 64 ∧
    failuresOf (tables env) key + (recordsOf env key log).countP FlakeSample.failed < 2 ^ 64

section Log

variable {tables next : Environment → Table UInt64 FlakeRecord} {sample : FlakeSample}
  {log : List FlakeSample}

/-- Applying one record of a log. -/
theorem record_sample_fits_iff :
    FitsIff (runsOf (tables sample.env) sample.key + 1 < 2 ^ 64 ∧
        (sample.failed = true → failuresOf (tables sample.env) sample.key + 1 < 2 ^ 64))
      (DbSection.record checked .flake tables sample) :=
  FlakeRecord.record_fits_iff.then_pure fun _ _ => ⟨_, rfl⟩

/-- A record changes the counters of its own key only. -/
theorem counts_of_record_sample
    (h : DbSection.record checked .flake tables sample = .ok next) (env : Environment)
    (key : UInt64) :
    runsOf (next env) key = runsOf (tables env) key + (recordsOf env key [sample]).length ∧
      failuresOf (next env) key = failuresOf (tables env) key +
        (recordsOf env key [sample]).countP FlakeSample.failed := by
  obtain ⟨counted, hcounted, hnext⟩ := Except.bind_eq_ok.mp h
  cases hnext
  have hlookup := congrFun (DbSection.lookup_update_env tables sample.env sample.key counted)
    (env, key)
  dsimp only at hlookup
  unfold runsOf failuresOf
  rw [hlookup]
  obtain ⟨hruns, hfailures⟩ := FlakeRecord.counts_of_record hcounted
  by_cases hkey : sample.env = env ∧ sample.key = key
  · obtain ⟨rfl, rfl⟩ := hkey
    rw [Function.update_self]
    have hself : recordsOf sample.env sample.key [sample] = [sample] := by simp [recordsOf]
    rw [hself]
    refine ⟨hruns, hfailures.trans ?_⟩
    rw [List.countP_singleton]
  · have hne : (env, key) ≠ (sample.env, sample.key) := by
      rintro heq
      exact hkey ⟨(congrArg Prod.fst heq).symm, (congrArg Prod.snd heq).symm⟩
    have hother : recordsOf env key [sample] = [] := by
      simp only [recordsOf, List.filter_cons, List.filter_nil]
      rw [if_neg (by simpa using hkey)]
    rw [Function.update_of_ne hne, hother]
    exact ⟨rfl, rfl⟩

/-- The records of a key in a log, the first one and the others. -/
theorem records_of_cons (env : Environment) (key : UInt64) :
    recordsOf env key (sample :: log) = recordsOf env key [sample] ++ recordsOf env key log :=
  List.filter_append [sample] log

/-- The first record of a log fits, and then the others do. -/
theorem counters_fit_cons :
    CountersFit tables (sample :: log) ↔
      (runsOf (tables sample.env) sample.key + 1 < 2 ^ 64 ∧
        (sample.failed = true → failuresOf (tables sample.env) sample.key + 1 < 2 ^ 64)) ∧
      ∀ next, DbSection.record checked .flake tables sample = .ok next → CountersFit next log := by
  have hrest : ∀ next, DbSection.record checked .flake tables sample = .ok next →
      (CountersFit tables (sample :: log) ↔ CountersFit next log) := by
    intro next hnext
    refine forall_congr' fun env => forall_congr' fun key => ?_
    obtain ⟨hruns, hfailures⟩ := counts_of_record_sample hnext env key
    rw [records_of_cons, hruns, hfailures, List.length_append, List.countP_append,
      Nat.add_assoc, Nat.add_assoc]
  constructor
  · intro hfit
    refine ⟨?_, fun next hnext => (hrest next hnext).mp hfit⟩
    obtain ⟨hruns, hfailures⟩ := hfit sample.env sample.key
    have hself : recordsOf sample.env sample.key [sample] = [sample] := by simp [recordsOf]
    rw [records_of_cons, hself, List.length_append, List.length_singleton] at hruns
    rw [records_of_cons, hself, List.countP_append, List.countP_singleton] at hfailures
    refine ⟨by omega, fun hfailed => ?_⟩
    rw [if_pos hfailed] at hfailures
    omega
  · rintro ⟨hstep, hall⟩
    obtain ⟨next, hnext⟩ := record_sample_fits_iff.exists_ok.mpr hstep
    exact (hrest next hnext).mpr (hall next hnext)

/-- Applying the records of a log. -/
theorem records_fits_iff (tables : Environment → Table UInt64 FlakeRecord)
    (log : List FlakeSample) :
    FitsIff (CountersFit tables log) (log.foldlM (DbSection.record checked .flake) tables) :=
  Except.OkIff.foldlM (fun _ _ => True)
    (fun _ _ _ _ => ⟨runs_of_lt _ _, failures_of_lt _ _⟩)
    (fun _ _ _ _ => record_sample_fits_iff) (fun _ _ _ _ => counters_fit_cons)
    (fun _ _ _ _ _ _ => trivial) trivial

end Log

/-! ## Loads -/

/-- What the files of the flake section hold fits into 64-bit counters. -/
def SectionFiles.CountersFit (files : SectionFiles) : Prop :=
  Quokka.CountersFit (DbSection.readBin .flake files.bin)
    (DbSection.readLog .flake (files.log.getD []))

namespace DurationDb

variable {db other : DurationDb}

/-- A load returns exactly when the counters fit. -/
theorem load_fits_iff (dir : String) (files : DbFiles) :
    FitsIff (files .flake).CountersFit (load checked dir files) := by
  have hperf : ∃ perf, DbSection.load checked .perf (files .perf) = .ok perf :=
    ⟨_, List.foldlM_pure⟩
  have hnames : ∃ names, DbSection.load checked .names (files .names) = .ok names :=
    ⟨_, List.foldlM_pure⟩
  obtain ⟨perf, hperf⟩ := hperf
  obtain ⟨names, hnames⟩ := hnames
  unfold load
  rw [hperf, hnames]
  exact (records_fits_iff _ _).then_pure fun _ _ => ⟨_, rfl⟩

/-! ## Queries -/

/-- The counters of a key, added over the queried environments, fit. -/
def QueryFits (db : DurationDb) (env : Option Environment) (key : UInt64) : Prop :=
  ((environments env).map fun e => runsOf (db.flake e) key).sum < 2 ^ 64 ∧
    ((environments env).map fun e => failuresOf (db.flake e) key).sum < 2 ^ 64

/-- Combining the records that a query finds. -/
theorem combine_found_fits_iff (combined : FlakeRecord) (found : List FlakeRecord) :
    FitsIff (combined.runs.toNat + (found.map fun flake => flake.runs.toNat).sum < 2 ^ 64 ∧
        combined.failures.toNat + (found.map fun flake => flake.failures.toNat).sum < 2 ^ 64)
      (found.foldlM (FlakeRecord.combine checked) combined) := by
  refine Except.OkIff.foldlM (fun _ _ => True)
    (P := fun (combined : FlakeRecord) (found : List FlakeRecord) =>
      combined.runs.toNat + (found.map fun flake => flake.runs.toNat).sum < 2 ^ 64 ∧
        combined.failures.toNat + (found.map fun flake => flake.failures.toNat).sum < 2 ^ 64)
    (fun combined _ => ?_) (fun _ _ _ _ => FlakeRecord.combine_fits_iff)
    (fun combined flake found _ => ?_) (fun _ _ _ _ _ _ => trivial) trivial
  · exact ⟨combined.runs.toNat_lt, combined.failures.toNat_lt⟩
  · simp only [List.map_cons, List.sum_cons]
    constructor
    · intro hfit
      refine ⟨by omega, fun next hnext => ?_⟩
      obtain ⟨hruns, hfailures⟩ := FlakeRecord.counts_of_combine hnext
      rw [hruns, hfailures]
      omega
    · rintro ⟨hstep, hrest⟩
      obtain ⟨next, hnext⟩ := FlakeRecord.combine_fits_iff.exists_ok.mpr hstep
      obtain ⟨hruns, hfailures⟩ := FlakeRecord.counts_of_combine hnext
      have hfit := hrest next hnext
      rw [hruns, hfailures] at hfit
      omega

/-- Keys that are not found count nothing. -/
theorem sum_found {count : FlakeRecord → Nat} (hcount : count {} = 0)
    (tables : Environment → Table UInt64 FlakeRecord) (key : UInt64) (envs : List Environment) :
    ((envs.filterMap fun e => (tables e).lookup key).map count).sum =
      (envs.map fun e => count (((tables e).lookup key).getD {})).sum := by
  induction envs with
  | nil => rfl
  | cons env envs ih =>
      rw [List.filterMap_cons, List.map_cons, List.sum_cons, ← ih]
      cases (tables env).lookup key with
      | none =>
          rw [Option.getD_none, hcount, Nat.zero_add]
      | some flake => rfl

/-- A query returns exactly when the sums fit. -/
theorem get_flake_record_fits_iff (db : DurationDb) (env : Option Environment) (key : UInt64) :
    FitsIff (db.QueryFits env key) (db.getFlakeRecord checked env key) := by
  unfold getFlakeRecord
  refine Except.OkIff.congr ((combine_found_fits_iff {} _).then_pure fun _ _ => ⟨_, rfl⟩) ?_
  rw [sum_found rfl, sum_found rfl]
  show 0 + _ < 2 ^ 64 ∧ 0 + _ < 2 ^ 64 ↔ _
  rw [Nat.zero_add, Nat.zero_add]
  exact Iff.rfl

/-! ## Combinations -/

/-- The sums of the counters of two tables fit. -/
def TablesFit (table other : Table UInt64 FlakeRecord) : Prop :=
  ∀ key, runsOf table key + runsOf other key < 2 ^ 64 ∧
    failuresOf table key + failuresOf other key < 2 ^ 64

/-- Adding the entries of a table. -/
theorem combine_flake_fits_iff (table other : Table UInt64 FlakeRecord) :
    FitsIff (TablesFit table other) (combineFlake checked table other) := by
  let Fits (table : Table UInt64 FlakeRecord) (entry : Sigma fun _ : UInt64 => FlakeRecord) :
      Prop :=
    runsOf table entry.1 + entry.2.runs.toNat < 2 ^ 64 ∧
      failuresOf table entry.1 + entry.2.failures.toNat < 2 ^ 64
  have hentries : FitsIff (∀ entry ∈ other.entries, Fits table entry)
      (combineFlake checked table other) := by
    unfold combineFlake
    refine Except.OkIff.foldlM (fun _ entries => entries.NodupKeys)
      (P := fun table entries => ∀ entry ∈ entries, Fits table entry) (fun _ _ => nofun)
      (fun table entry entries _ => FlakeRecord.combine_fits_iff.then_pure
        fun _ _ => ⟨_, rfl⟩) (fun table entry entries hnodup => ?_)
      (fun _ _ _ _ hnodup _ => (List.nodupKeys_cons.mp hnodup).2) other.nodupKeys
    -- The first entry changes the counters of its own key, which no other entry has.
    have hothers : ∀ combined, ∀ rest ∈ entries,
        Fits (table.insert entry.1 combined) rest ↔ Fits table rest := by
      intro combined rest hrest
      have hne : rest.1 ≠ entry.1 := fun heq =>
        (List.nodupKeys_cons.mp hnodup).1 (heq ▸ List.mem_keys_of_mem hrest)
      unfold Fits runsOf failuresOf
      rw [AList.lookup_insert_ne hne]
    rw [List.forall_mem_cons]
    refine and_congr_right fun hfirst => ?_
    constructor
    · intro hrest next hnext
      obtain ⟨combined, -, hinsert⟩ := Except.bind_eq_ok.mp hnext
      cases hinsert
      exact fun rest hmem => (hothers combined rest hmem).mpr (hrest rest hmem)
    · intro hall rest hmem
      obtain ⟨combined, hcombined⟩ := FlakeRecord.combine_fits_iff.exists_ok.mpr hfirst
      refine (hothers combined rest hmem).mp (hall _ ?_ rest hmem)
      exact Except.bind_eq_ok.mpr ⟨combined, hcombined, rfl⟩
  refine hentries.congr ⟨fun hall key => ?_, fun hfit entry hentry => ?_⟩
  · cases hlookup : other.lookup key with
    | none =>
        unfold runsOf failuresOf
        rw [hlookup]
        exact ⟨runs_of_lt table key, failures_of_lt table key⟩
    | some flake =>
        have hfits := hall ⟨key, flake⟩ (AList.mem_lookup_iff.mp hlookup)
        unfold runsOf failuresOf
        rw [hlookup]
        exact hfits
  · have hlookup : other.lookup entry.1 = some entry.2 := AList.mem_lookup_iff.mpr hentry
    have hfits := hfit entry.1
    unfold runsOf failuresOf at hfits
    rw [hlookup] at hfits
    exact hfits

/-- Combining two stores returns exactly when all sums fit. -/
theorem combine_fits_iff (db other : DurationDb) :
    FitsIff (∀ env, TablesFit (db.flake env) (other.flake env)) (db.combine checked other) := by
  unfold combine
  refine Except.OkIff.congr ((combine_flake_fits_iff (db.flake .local) (other.flake .local)).and
    fun _ _ => (combine_flake_fits_iff (db.flake .remote) (other.flake .remote)).then_pure
      fun _ _ => ⟨_, rfl⟩) ⟨?_, fun hall => ⟨hall .local, hall .remote⟩⟩
  rintro ⟨hlocal, hremote⟩ env
  cases env
  · exact hlocal
  · exact hremote

/-! ## Recorded runs -/

variable [HashKey]

/-- Recording a run returns exactly when the counters of its test have room. -/
theorem record_at_fits_iff (db : DurationDb) (env : Environment) (testId : TestIdentity)
    (duration : Duration) (failed : Bool) (failureClass : Option FailureClass)
    (timestampMs : UInt64) :
    FitsIff (runsOf (db.flake env) (HashKey.hashKey testId) + 1 < 2 ^ 64 ∧
        (failed = true → failuresOf (db.flake env) (HashKey.hashKey testId) + 1 < 2 ^ 64))
      (db.recordAt checked env testId duration failed failureClass timestampMs) := by
  have hflake : (db.recordDiscoveredName testId).flake = db.flake := by
    unfold recordDiscoveredName
    dsimp only
    split <;> rfl
  unfold recordAt
  rw [← hflake]
  cases failed with
  | false => exact FlakeRecord.record_fits_iff.then_pure fun _ _ => ⟨_, rfl⟩
  | true => exact FlakeRecord.record_fits_iff.then_pure fun _ _ => ⟨_, rfl⟩

end DurationDb

/-! ## Panics of additions only -/

/-- The computation panics only because of an addition, in a build with overflow checks. -/
abbrev OverflowOnly {α : Type} (profile : BuildProfile) (x : MayPanic α) : Prop :=
  Except.FailsOnly (fun message => profile.overflowChecks = true ∧ message = overflowMessage) x

section Panics

variable {profile : BuildProfile}

theorem overflow_only_add_u64 (a b : UInt64) : OverflowOnly profile (profile.addU64 a b) := by
  intro message h
  unfold BuildProfile.addU64 at h
  split at h
  case isTrue hover =>
    cases h
    rw [Bool.and_eq_true] at hover
    exact ⟨hover.1, rfl⟩
  case isFalse => cases h

theorem overflow_only_add_u32 (a b : UInt32) : OverflowOnly profile (profile.addU32 a b) := by
  intro message h
  unfold BuildProfile.addU32 at h
  split at h
  case isTrue hover =>
    cases h
    rw [Bool.and_eq_true] at hover
    exact ⟨hover.1, rfl⟩
  case isFalse => cases h

theorem FlakeRecord.overflow_only_combine (flake other : FlakeRecord) :
    OverflowOnly profile (flake.combine profile other) := by
  unfold FlakeRecord.combine
  refine (overflow_only_add_u64 _ _).bind fun runs _ => ?_
  refine (overflow_only_add_u64 _ _).bind fun failures _ => ?_
  cases other.lastFailureTimestampMs with
  | none => exact Except.fails_only_ok _
  | some otherTs =>
      show OverflowOnly profile (if flake.lastFailureTimestampMs.getD 0 ≤ otherTs then _ else _)
      split
      · exact Except.fails_only_ok _
      · exact Except.fails_only_ok _

theorem FlakeRecord.overflow_only_record (flake : FlakeRecord) (failed : Bool)
    (failureClass : Option FailureClass) (timestampMs : UInt64) :
    OverflowOnly profile (flake.record profile failed failureClass timestampMs) := by
  unfold FlakeRecord.record
  refine (overflow_only_add_u64 _ _).bind fun runs _ => ?_
  cases failed with
  | false => exact Except.fails_only_ok _
  | true =>
      refine (overflow_only_add_u64 _ _).bind fun failures _ => ?_
      show OverflowOnly profile (if flake.lastFailureTimestampMs.getD 0 ≤ timestampMs then _ else _)
      split
      · exact Except.fails_only_ok _
      · exact Except.fails_only_ok _

theorem DurationDb.overflow_only_record_at [HashKey] (db : DurationDb) (env : Environment)
    (testId : TestIdentity) (duration : Duration) (failed : Bool)
    (failureClass : Option FailureClass) (timestampMs : UInt64) :
    OverflowOnly profile
      (db.recordAt profile env testId duration failed failureClass timestampMs) := by
  unfold DurationDb.recordAt
  exact (FlakeRecord.overflow_only_record _ _ _ _).bind fun _ _ => Except.fails_only_ok _

theorem DurationDb.overflow_only_combine (db other : DurationDb) :
    OverflowOnly profile (db.combine profile other) := by
  have hflake : ∀ table other, OverflowOnly profile (combineFlake profile table other) := by
    intro table other
    refine Except.FailsOnly.foldlM (fun table entry => ?_) _ _
    exact (FlakeRecord.overflow_only_combine _ _).bind fun _ _ => Except.fails_only_ok _
  unfold DurationDb.combine
  refine (hflake _ _).bind fun flakeLocal _ => ?_
  exact (hflake _ _).bind fun flakeRemote _ => Except.fails_only_ok _

theorem DurationDb.overflow_only_flake_of [HashKey] (db : DurationDb) (env : Option Environment)
    (testId : TestIdentity) : OverflowOnly profile (db.flakeOf profile env testId) := by
  show OverflowOnly profile (db.getFlakeRecord profile env (HashKey.hashKey testId))
  unfold DurationDb.getFlakeRecord
  exact (Except.FailsOnly.foldlM (fun flake other => flake.overflow_only_combine other) _ _).bind
    fun _ _ => Except.fails_only_ok _

end Panics

end Quokka
