import Quokka.DurationDb.FlakeTally

/-!
# Recording in several stores

Operations may be recorded in one store or spread over several that are combined afterwards, in
any order and grouping: a `Recording`. A store that such a recording leaves remembers its
operations, in the order of the stores (`Recording.remembers`), because combining two stores
appends what they remember (`Remembers.combine`).

A recording panics exactly when the build checks additions and some test has too many runs in one
environment (`Recording.store_ok_iff`).
-/

namespace Quokka

/-! ## Samples of two records -/

/-- Samples that were cut off before do not matter when records are combined. -/
theorem sort_and_truncate_append (samples other : List DurationSample) :
    sortAndTruncate (sortAndTruncate samples ++ sortAndTruncate other) =
      sortAndTruncate (samples ++ other) :=
  List.take_insertionSort_append _ samples other maxSamples

theorem PerfRecord.of_samples_append (samples other : List DurationSample) :
    PerfRecord.ofSamples (samples ++ other) =
      match PerfRecord.ofSamples other with
      | some record => some (((PerfRecord.ofSamples samples).getD {}).combine record)
      | none => PerfRecord.ofSamples samples := by
  cases other with
  | nil => rw [List.append_nil]; rfl
  | cons last rest =>
      have hsome : PerfRecord.ofSamples (samples ++ last :: rest) =
          some ⟨sortAndTruncate (samples ++ last :: rest)⟩ := by
        simp [PerfRecord.ofSamples]
      rw [hsome, ← sort_and_truncate_append]
      cases samples with
      | nil => rfl
      | cons first middle => rfl

namespace DurationDb

/-! ## Combining tables -/

variable {profile : BuildProfile}

/-- A key has the samples of both tables. -/
theorem lookup_combine_perf (table other : Table UInt64 PerfRecord) (key : UInt64) :
    (combinePerf table other).lookup key =
      match other.lookup key with
      | some record => some (((table.lookup key).getD {}).combine record)
      | none => table.lookup key := by
  let step (table : Table UInt64 PerfRecord) (entry : Sigma fun _ : UInt64 => PerfRecord) :
      Except Empty (Table UInt64 PerfRecord) :=
    .ok (table.update entry.1 fun existing => (existing.getD {}).combine entry.2)
  have hfold : other.entries.foldlM step table = .ok (combinePerf table other) :=
    List.foldlM_pure
  have hentries := @Table.foldlM_entries _ _ _ _ _ _ (fun table key => AList.lookup key table)
    (fun old (record : PerfRecord) new => new = some ((old.getD {}).combine record)) step
    (fun table entry next hnext => by
      cases Except.ok.inj hnext
      exact ⟨Table.lookup_update_self table entry.1 _,
        fun key hkey => Table.lookup_update_ne table hkey _⟩) other table _ hfold key
  cases hlookup : other.lookup key with
  | none => exact hentries.2 hlookup
  | some record => exact hentries.1 record hlookup

/-- A key has the counts of both tables. -/
theorem lookup_combine_flake {table other combined : Table UInt64 FlakeRecord}
    (h : combineFlake profile table other = .ok combined) (key : UInt64) :
    (∀ flake, other.lookup key = some flake →
      ∃ sum, ((table.lookup key).getD {}).combine profile flake = .ok sum ∧
        combined.lookup key = some sum) ∧
      (other.lookup key = none → combined.lookup key = table.lookup key) := by
  refine @Table.foldlM_entries _ _ _ _ _ _ (fun table key => AList.lookup key table)
    (fun old (flake : FlakeRecord) new =>
      ∃ sum, (old.getD {}).combine profile flake = .ok sum ∧ new = some sum) _
    (fun table entry next hnext => ?_) other table combined h key
  obtain ⟨sum, hsum, hinsert⟩ := Except.bind_eq_ok.mp hnext
  cases Except.ok.inj hinsert
  exact ⟨⟨sum, hsum, AList.lookup_insert table⟩, fun key hkey => AList.lookup_insert_ne hkey⟩

/-- The names of another store are added unless there is a name. -/
theorem lookup_combine_names (names other : Table UInt64 TestIdentity)
    (newNames : List (UInt64 × TestIdentity)) (key : UInt64) :
    ((other.entries.foldl (fun (names, newNames) entry =>
        if entry.1 ∈ names then (names, newNames)
        else (names.insert entry.1 entry.2, newNames ++ [(entry.1, entry.2)]))
      (names, newNames)).1).lookup key = (names.lookup key).or (other.lookup key) := by
  let step (state : Table UInt64 TestIdentity × List (UInt64 × TestIdentity))
      (entry : Sigma fun _ : UInt64 => TestIdentity) : Except Empty
        (Table UInt64 TestIdentity × List (UInt64 × TestIdentity)) :=
    .ok (if entry.1 ∈ state.1 then state
      else (state.1.insert entry.1 entry.2, state.2 ++ [(entry.1, entry.2)]))
  have hentries := @Table.foldlM_entries _ _ _ _ _ _ (fun state key => AList.lookup key state.1)
    (fun old (name : TestIdentity) new => new = old.or (some name)) step
    (fun state entry next hnext => by
      cases Except.ok.inj hnext
      split
      case isTrue hknown =>
        refine ⟨?_, fun _ _ => rfl⟩
        obtain ⟨name, hname⟩ := Option.isSome_iff_exists.mp (AList.lookup_isSome.mpr hknown)
        rw [hname, Option.some_or]
      case isFalse hnew =>
        refine ⟨?_, fun key hkey => AList.lookup_insert_ne hkey⟩
        rw [AList.lookup_eq_none.mpr hnew, Option.none_or]
        exact AList.lookup_insert state.1) other (names, newNames) _ List.foldlM_pure key
  cases hlookup : other.lookup key with
  | none =>
      rw [Option.or_none]
      exact hentries.2 hlookup
  | some name => exact hentries.1 name hlookup

/-! ## Combining stores -/

/-- What a store that combines two others holds. -/
theorem combine_eq_ok {db other next : DurationDb} (h : db.combine profile other = .ok next) :
    (∀ env, next.perf env = combinePerf (db.perf env) (other.perf env)) ∧
      (∀ env, combineFlake profile (db.flake env) (other.flake env) = .ok (next.flake env)) ∧
      ∀ key, next.names.lookup key = (db.names.lookup key).or (other.names.lookup key) := by
  obtain ⟨flakeLocal, hlocal, h⟩ := Except.bind_eq_ok.mp h
  obtain ⟨flakeRemote, hremote, h⟩ := Except.bind_eq_ok.mp h
  cases Except.ok.inj h
  refine ⟨fun env => rfl, fun env => ?_, fun key => lookup_combine_names _ _ _ key⟩
  cases env
  · exact hlocal
  · exact hremote

variable [HashKey]

/-- A combination of two stores remembers the operations of both. -/
theorem Remembers.combine {db other next : DurationDb} {ops otherOps : List DbOp}
    (h : db.Remembers ops) (hother : other.Remembers otherOps)
    (hnext : db.combine profile other = .ok next) : next.Remembers (ops ++ otherOps) := by
  obtain ⟨hperf, hflake, hnames⟩ := combine_eq_ok hnext
  constructor
  · intro env key
    rw [hperf, lookup_combine_perf, h.samples, hother.samples, List.filterMap_append,
      PerfRecord.of_samples_append]
  · intro env key
    obtain ⟨hsome, hnone⟩ := lookup_combine_flake (hflake env) key
    have hcounts := hother.outcomes env key
    have htested := hother.tested env key
    rw [List.filterMap_append]
    cases hlookup : (other.flake env).lookup key with
    | none =>
        rw [hlookup] at htested
        have hnil : otherOps.filterMap (DbOp.outcomeOf env key) = [] := by
          by_contra hne
          exact Bool.false_ne_true (htested.mpr hne)
        rw [hnone hlookup, hnil, List.append_nil]
        exact h.outcomes env key
    | some flake =>
        obtain ⟨sum, hsum, hfound⟩ := hsome flake hlookup
        rw [hlookup] at hcounts
        rw [hfound]
        exact (h.outcomes env key).combine hcounts hsum
  · intro env key
    obtain ⟨hsome, hnone⟩ := lookup_combine_flake (hflake env) key
    have htested := hother.tested env key
    rw [List.filterMap_append, ne_eq, List.append_eq_nil_iff, not_and_or]
    cases hlookup : (other.flake env).lookup key with
    | none =>
        rw [hlookup] at htested
        rw [hnone hlookup, h.tested env key]
        exact (or_iff_left fun hne => Bool.false_ne_true (htested.mpr hne)).symm
    | some flake =>
        obtain ⟨sum, -, hfound⟩ := hsome flake hlookup
        rw [hlookup] at htested
        rw [hfound]
        exact iff_of_true rfl (.inr (htested.mp rfl))
  · intro key
    rw [hnames, h.names, hother.names, List.find?_append, Option.map_or]

end DurationDb

/-! ## Recordings -/

section Recordings

/-- A way to fill stores: operations performed on a store, and stores combined. -/
inductive Recording where
  | empty
  | perform (recording : Recording) (op : DbOp)
  | combine (recording other : Recording)

namespace Recording

variable [HashKey]

/-- The operations of a recording, in the order of its stores. -/
def ops : Recording → List DbOp
  | .empty => []
  | .perform recording op => recording.ops ++ [op]
  | .combine recording other => recording.ops ++ other.ops

/-- The store that a recording leaves. -/
def store (profile : BuildProfile) : Recording → MayPanic DurationDb
  | .empty => .ok .ephemeral
  | .perform recording op => do
      let db ← recording.store profile
      db.perform profile op
  | .combine recording other => do
      let db ← recording.store profile
      let other ← other.store profile
      db.combine profile other

/-- One store for all operations. -/
def ofOps (ops : List DbOp) : Recording :=
  ops.foldl .perform .empty

omit [HashKey] in
theorem ops_of_ops (ops : List DbOp) : (ofOps ops).ops = ops := by
  induction ops using List.reverseRecOn with
  | nil => rfl
  | append_singleton ops op ih =>
      rw [ofOps, List.foldl_append]
      exact congrArg (· ++ [op]) ih

/-- A store remembers what was recorded. -/
theorem remembers {profile : BuildProfile} {recording : Recording} {db : DurationDb}
    (h : recording.store profile = .ok db) : db.Remembers recording.ops := by
  induction recording generalizing db with
  | empty =>
      cases Except.ok.inj h
      exact DurationDb.remembers_nil
  | perform recording op ih =>
      obtain ⟨before, hbefore, hperform⟩ := Except.bind_eq_ok.mp h
      exact (ih hbefore).perform hperform
  | combine recording other ih ihOther =>
      obtain ⟨first, hfirst, h⟩ := Except.bind_eq_ok.mp h
      obtain ⟨second, hsecond, hcombine⟩ := Except.bind_eq_ok.mp h
      exact (ih hfirst).combine (ihOther hsecond) hcombine

/-! ## Panics -/

/-- No test has too many runs in one environment. -/
def Countable (ops : List DbOp) : Prop :=
  ∀ env key, (ops.filterMap (DbOp.outcomeOf env key)).length < 2 ^ 64

/-- A store of few runs counts them exactly. -/
theorem counts_of_remembers {db : DurationDb} {ops : List DbOp} (h : db.Remembers ops)
    (hcount : Countable ops) (env : Environment) (key : UInt64) :
    runsOf (db.flake env) key = (ops.filterMap (DbOp.outcomeOf env key)).length ∧
      failuresOf (db.flake env) key ≤ (ops.filterMap (DbOp.outcomeOf env key)).length := by
  obtain ⟨hruns, hfailures, -, -⟩ := (h.outcomes env key).exact (hcount env key)
  exact ⟨hruns, hfailures.trans_le List.countP_le_length⟩

theorem countable_left {ops other : List DbOp} (h : Countable (ops ++ other)) :
    Countable ops := by
  intro env key
  have hlength := h env key
  rw [List.filterMap_append, List.length_append] at hlength
  omega

theorem countable_right {ops other : List DbOp} (h : Countable (ops ++ other)) :
    Countable other := by
  intro env key
  have hlength := h env key
  rw [List.filterMap_append, List.length_append] at hlength
  omega

/-- One more operation. -/
theorem perform_fits_iff {db : DurationDb} {ops : List DbOp} (h : db.Remembers ops)
    (hcount : Countable ops) (op : DbOp) :
    FitsIff (Countable (ops ++ [op])) (db.perform .checked op) := by
  have hone : ∀ env key, Option.toList (op.outcomeOf env key) =
      [op].filterMap (DbOp.outcomeOf env key) := by
    intro env key
    cases houtcome : op.outcomeOf env key with
    | none => rw [List.filterMap_cons_none houtcome]; rfl
    | some outcome => rw [List.filterMap_cons_some houtcome]; rfl
  cases op with
  | recordDiscoveredName testId =>
      show Countable _
      intro env key
      rw [List.filterMap_append, ← hone, List.length_append]
      exact hcount env key
  | recordAt env testId duration failed failureClass timestampMs =>
      refine (db.record_at_fits_iff env testId duration failed failureClass timestampMs).congr ?_
      obtain ⟨hruns, hfailures⟩ := counts_of_remembers h hcount env (HashKey.hashKey testId)
      rw [hruns]
      constructor
      · rintro ⟨hroom, -⟩ other key
        rw [List.filterMap_append, ← hone, List.length_append]
        have hothers := hcount other key
        simp only [DbOp.outcomeOf] at hothers ⊢
        split
        case isTrue hkey =>
          obtain ⟨rfl, rfl⟩ := Prod.mk.inj hkey
          exact hroom
        case isFalse => exact hothers
      · intro hall
        have hroom := hall env (HashKey.hashKey testId)
        rw [List.filterMap_append, ← hone, DbOp.outcome_of_self, List.length_append] at hroom
        exact ⟨hroom, fun _ => (Nat.succ_le_succ hfailures).trans_lt hroom⟩

/-- Two stores combined. -/
theorem combine_counts_fits_iff {db other : DurationDb} {ops otherOps : List DbOp}
    (h : db.Remembers ops) (hother : other.Remembers otherOps) (hcount : Countable ops)
    (hcountOther : Countable otherOps) :
    FitsIff (Countable (ops ++ otherOps)) (db.combine .checked other) := by
  refine (db.combine_fits_iff other).congr (forall_congr' fun env => forall_congr' fun key => ?_)
  obtain ⟨hruns, hfailures⟩ := counts_of_remembers h hcount env key
  obtain ⟨hrunsOther, hfailuresOther⟩ := counts_of_remembers hother hcountOther env key
  rw [List.filterMap_append, List.length_append, hruns, hrunsOther]
  exact ⟨fun hfit => hfit.1, fun hfit => ⟨hfit, by omega⟩⟩

/-- A checked recording returns exactly when no test has too many runs. -/
theorem store_fits_iff (recording : Recording) :
    FitsIff (Countable recording.ops) (recording.store .checked) := by
  induction recording with
  | empty =>
      show Countable []
      exact fun _ _ => Nat.two_pow_pos 64
  | perform recording op ih =>
      refine (ih.and fun db hdb => ?_).congr ⟨fun h => h.2, fun h => ⟨countable_left h, h⟩⟩
      exact perform_fits_iff (remembers hdb) (ih.of_eq_ok hdb) op
  | combine recording other ih ihOther =>
      refine (ih.and fun db hdb => ihOther.and fun second hsecond => ?_).congr
        ⟨fun h => h.2.2, fun h => ⟨countable_left h, countable_right h, h⟩⟩
      exact combine_counts_fits_iff (remembers hdb) (remembers hsecond) (ih.of_eq_ok hdb)
        (ihOther.of_eq_ok hsecond)

theorem overflow_only_store (profile : BuildProfile) (recording : Recording) :
    OverflowOnly profile (recording.store profile) := by
  induction recording with
  | empty => exact Except.fails_only_ok _
  | perform recording op ih =>
      refine ih.bind fun db _ => ?_
      cases op with
      | recordDiscoveredName testId => exact Except.fails_only_ok _
      | recordAt env testId duration failed failureClass timestampMs =>
          exact db.overflow_only_record_at env testId duration failed failureClass timestampMs
  | combine recording other ih ihOther =>
      exact ih.bind fun db _ => ihOther.bind fun second _ => db.overflow_only_combine second

/-- A recording returns exactly when the build does not check or no test has too many runs. -/
theorem store_ok_iff (profile : BuildProfile) (recording : Recording) :
    FitsIff (profile.overflowChecks = true → Countable recording.ops)
      (recording.store profile) := by
  cases hchecks : profile.overflowChecks with
  | true =>
      have hprofile : profile = .checked := congrArg BuildProfile.mk hchecks
      rw [hprofile]
      exact (store_fits_iff recording).congr ⟨fun h _ => h, fun h => h rfl⟩
  | false =>
      cases hstore : recording.store profile with
      | ok db => exact nofun
      | error message =>
          rw [(overflow_only_store profile recording message hstore).1] at hchecks
          cases hchecks

end Recording

end Recordings

end Quokka
