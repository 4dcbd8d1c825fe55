import Quokka.DurationDb.Sections

/-!
# What operations record

The operations on the store in memory, in terms of the records that they put aside for the next
flush. `DbOp.records` are these records, and `perform_spec` says that an operation does to the
contents of every section what its records would do: this is why a store on disk can follow the
store in memory.
-/

namespace Quokka

/-- An operation on the store. -/
inductive DbOp where
  | recordAt (env : Environment) (testId : TestIdentity) (duration : Duration) (failed : Bool)
      (failureClass : Option FailureClass) (timestampMs : UInt64)
  | recordDiscoveredName (testId : TestIdentity)

namespace DbOp

/-- The test that an operation is about. -/
def testId : DbOp → TestIdentity
  | .recordAt _ testId _ _ _ _ => testId
  | .recordDiscoveredName testId => testId

/-- An operation whose records the formats can hold. -/
def Storable : DbOp → Prop
  | .recordAt _ testId _ _ _ timestampMs => StorableIdentity testId ∧ timestampMs ≠ noTimestamp
  | .recordDiscoveredName testId => StorableIdentity testId

end DbOp

section Operations

variable [HashKey] (profile : BuildProfile)

/-- The key of the test that an operation is about. -/
def DbOp.key (op : DbOp) : UInt64 :=
  HashKey.hashKey op.testId

/-- Perform one operation. -/
def DurationDb.perform (db : DurationDb) : DbOp → MayPanic DurationDb
  | .recordAt env testId duration failed failureClass timestampMs =>
      db.recordAt profile env testId duration failed failureClass timestampMs
  | .recordDiscoveredName testId => .ok (db.recordDiscoveredName testId)

/-- Perform operations in order. -/
def DurationDb.performAll (db : DurationDb) (ops : List DbOp) : MayPanic DurationDb :=
  ops.foldlM (DurationDb.perform profile) db

/-- The records that an operation leaves, given whether its name is known. -/
def DbOp.records (known : Bool) (op : DbOp) : (s : DbSection) → List s.Record
  | .perf =>
      match op with
      | .recordAt env _ duration false _ timestampMs =>
          [⟨env, op.key, timestampMs, UInt64.ofNat duration.asMillis⟩]
      | _ => []
  | .flake =>
      match op with
      | .recordAt env _ _ failed failureClass timestampMs =>
          [⟨env, op.key, failed, failureClass, timestampMs⟩]
      | .recordDiscoveredName _ => []
  | .names => if known then [] else [(op.key, op.testId)]

/-- Whether a store knows a name for a key. -/
def DurationDb.knows (db : DurationDb) (key : UInt64) : Bool :=
  (DbSection.find .names (db.contents .names) key).isSome

/-- One store is another one after some records. -/
structure DurationDb.Extends (db next : DurationDb) (new : (s : DbSection) → List s.Record) :
    Prop where
  pending_eq : ∀ s : DbSection, next.pending s = db.pending s ++ new s
  replay_eq : ∀ s : DbSection, (s.update profile).replay (s.find (db.contents s)) (new s) =
    .ok (s.find (next.contents s))
  dir_eq : next.dir = db.dir

variable {profile}

/-- Remembering a name records it unless it is known. -/
theorem record_discovered_name_extends (db : DurationDb) (testId : TestIdentity) :
    db.Extends profile (db.recordDiscoveredName testId)
      ((DbOp.recordDiscoveredName testId).records (db.knows (HashKey.hashKey testId))) := by
  unfold DurationDb.recordDiscoveredName
  dsimp only
  by_cases hknown : HashKey.hashKey testId ∈ db.names
  · have hknows : db.knows (HashKey.hashKey testId) = true := by
      simpa [DurationDb.knows, DbSection.find, DurationDb.contents, AList.lookup_isSome]
    rw [if_pos hknown, hknows]
    exact ⟨fun s => by cases s <;> simp [DbOp.records], fun s => by cases s <;> rfl, rfl⟩
  · have hknows : db.knows (HashKey.hashKey testId) = false := by
      rw [← Bool.not_eq_true]
      simpa [DurationDb.knows, DbSection.find, DurationDb.contents, AList.lookup_isSome]
    rw [if_neg hknown, hknows]
    refine ⟨fun s => by cases s <;> simp [DbOp.records, DurationDb.pending, DbOp.key, DbOp.testId],
      fun s => ?_, rfl⟩
    cases s with
    | perf => rfl
    | flake => rfl
    | names =>
        exact (DbSection.find_record profile .names db.names _).symm

/-- Remembering a name leaves the samples and the outcomes alone. -/
theorem record_discovered_name_frame (db : DurationDb) (testId : TestIdentity) :
    (db.recordDiscoveredName testId).perf = db.perf ∧
      (db.recordDiscoveredName testId).flake = db.flake ∧
      (db.recordDiscoveredName testId).newPerfSamples = db.newPerfSamples ∧
      (db.recordDiscoveredName testId).newFlakeRecords = db.newFlakeRecords := by
  unfold DurationDb.recordDiscoveredName
  dsimp only
  split <;> exact ⟨rfl, rfl, rfl, rfl⟩

section RecordedRun

variable {db next : DurationDb} {env : Environment} {testId : TestIdentity}
variable {duration : Duration} {failed : Bool} {failureClass : Option FailureClass}
variable {timestampMs : UInt64}

/-- The table of samples after a run: unchanged when it failed. -/
def perfAfterRun (perf : Environment → Table UInt64 PerfRecord) (env : Environment) (key : UInt64)
    (duration : Duration) (failed : Bool) (timestampMs : UInt64) :
    Environment → Table UInt64 PerfRecord :=
  if failed then perf
  else
    Function.update perf env ((perf env).update key fun existing =>
      (existing.getD {}).record timestampMs (UInt64.ofNat duration.asMillis))

/-- What a recorded run changes. -/
theorem record_at_eq_ok
    (h : db.recordAt profile env testId duration failed failureClass timestampMs = .ok next) :
    ∃ counted, ((((db.recordDiscoveredName testId).flake env).lookup
        (HashKey.hashKey testId)).getD {}).record profile failed failureClass timestampMs =
          .ok counted ∧
      next = { db.recordDiscoveredName testId with
        perf := perfAfterRun (db.recordDiscoveredName testId).perf env (HashKey.hashKey testId)
          duration failed timestampMs
        flake := Function.update (db.recordDiscoveredName testId).flake env
          (((db.recordDiscoveredName testId).flake env).insert (HashKey.hashKey testId) counted)
        newPerfSamples := (db.recordDiscoveredName testId).newPerfSamples ++
          (DbOp.recordAt env testId duration failed failureClass timestampMs).records true .perf
        newFlakeRecords := (db.recordDiscoveredName testId).newFlakeRecords ++
          [⟨env, HashKey.hashKey testId, failed, failureClass, timestampMs⟩] } := by
  unfold DurationDb.recordAt at h
  generalize db.recordDiscoveredName testId = named at h ⊢
  cases hcounted : (((named.flake env).lookup (HashKey.hashKey testId)).getD {}).record profile
      failed failureClass timestampMs with
  | error message =>
      cases failed <;>
        · simp only [Bool.false_eq_true, if_false, if_true, hcounted] at h
          cases h
  | ok counted =>
      refine ⟨counted, rfl, ?_⟩
      cases failed with
      | true =>
          simp only [if_true, hcounted] at h
          cases h
          simp [perfAfterRun, DbOp.records]
      | false =>
          simp only [Bool.false_eq_true, if_false, hcounted] at h
          cases h
          rfl

/-- The samples after a run are what its records make of those before. -/
theorem replay_perf_after_run (perf : Environment → Table UInt64 PerfRecord) :
    (DbSection.update profile .perf).replay (DbSection.find .perf perf)
      ((DbOp.recordAt env testId duration failed failureClass timestampMs).records true .perf) =
    .ok (DbSection.find .perf (perfAfterRun perf env (HashKey.hashKey testId) duration failed
      timestampMs)) := by
  cases failed with
  | true => rfl
  | false =>
      exact (DbSection.find_record profile .perf perf
        ⟨env, HashKey.hashKey testId, timestampMs, UInt64.ofNat duration.asMillis⟩).symm

omit [HashKey] in
/-- The outcomes after a run are what its record makes of those before. -/
theorem replay_flake_after_run {flake : Environment → Table UInt64 FlakeRecord} {key : UInt64}
    {counted : FlakeRecord}
    (h : (((flake env).lookup key).getD {}).record profile failed failureClass timestampMs =
      .ok counted) :
    (DbSection.update profile .flake).replay (DbSection.find .flake flake)
      [⟨env, key, failed, failureClass, timestampMs⟩] =
    .ok (DbSection.find .flake
      (Function.update flake env ((flake env).insert key counted))) := by
  rw [KeyedUpdate.replay_singleton, ← DbSection.find_record]
  simp only [DbSection.record, h]
  rfl

/-- Recording a run leaves its outcome, a sample unless it failed, and the name. -/
theorem record_at_extends
    (h : db.recordAt profile env testId duration failed failureClass timestampMs = .ok next) :
    db.Extends profile next
      ((DbOp.recordAt env testId duration failed failureClass timestampMs).records
        (db.knows (HashKey.hashKey testId))) := by
  obtain ⟨hpending, hreplay, hdir⟩ := @record_discovered_name_extends _ profile db testId
  obtain ⟨hperf, hflake, hnewPerf, hnewFlake⟩ := record_discovered_name_frame db testId
  obtain ⟨counted, hcounted, rfl⟩ := record_at_eq_ok h
  refine ⟨fun s => ?_, fun s => ?_, hdir⟩
  · cases s with
    | perf =>
        show (db.recordDiscoveredName testId).newPerfSamples ++ _ = _
        rw [hnewPerf]
        rfl
    | flake =>
        show (db.recordDiscoveredName testId).newFlakeRecords ++ _ = _
        rw [hnewFlake]
        rfl
    | names => exact hpending .names
  · cases s with
    | perf =>
        show (DbSection.update profile .perf).replay (DbSection.find .perf db.perf) _ = _
        rw [← hperf]
        exact replay_perf_after_run (db.recordDiscoveredName testId).perf
    | flake =>
        show (DbSection.update profile .flake).replay (DbSection.find .flake db.flake) _ = _
        rw [← hflake]
        exact replay_flake_after_run hcounted
    | names => exact hreplay .names

end RecordedRun

/-- What an operation does to the contents is what its records do. -/
theorem perform_spec {db next : DurationDb} {op : DbOp} (h : db.perform profile op = .ok next) :
    db.Extends profile next (op.records (db.knows op.key)) := by
  cases op with
  | recordAt env testId duration failed failureClass timestampMs => exact record_at_extends h
  | recordDiscoveredName testId =>
      cases h
      exact record_discovered_name_extends db testId

/-- An operation whose outcome can be counted does not panic. -/
theorem exists_perform {db : DurationDb} {op : DbOp} {known : Bool}
    {flake : DbSection.Key .flake → Option FlakeRecord}
    (h : (DbSection.update profile .flake).replay (DbSection.find .flake db.flake)
      (op.records known .flake) = .ok flake) :
    ∃ next, db.perform profile op = .ok next := by
  cases op with
  | recordDiscoveredName testId => exact ⟨_, rfl⟩
  | recordAt env testId duration failed failureClass timestampMs =>
      obtain ⟨-, hflake, -⟩ := record_discovered_name_frame db testId
      obtain ⟨counted, hcounted, -⟩ := KeyedUpdate.apply_eq_ok _
        ((KeyedUpdate.replay_singleton _ _ _).symm.trans h)
      have hrecord : ((((db.recordDiscoveredName testId).flake env).lookup
          (HashKey.hashKey testId)).getD {}).record profile failed failureClass timestampMs =
            .ok counted := by
        rw [hflake]
        exact hcounted
      cases failed <;>
        · simp only [DurationDb.perform, DurationDb.recordAt, Bool.false_eq_true, if_false,
            if_true, hrecord]
          exact ⟨_, rfl⟩

/-- The records of a storable operation are storable. -/
theorem records_storable {op : DbOp} (h : op.Storable) (known : Bool) (s : DbSection) :
    ∀ record ∈ op.records known s, s.StorableRecord record := by
  intro record hrecord
  cases s with
  | perf => exact trivial
  | flake =>
      cases op with
      | recordDiscoveredName testId => cases hrecord
      | recordAt env testId duration failed failureClass timestampMs =>
          cases List.mem_singleton.mp hrecord
          exact h.2
  | names =>
      cases known with
      | true => cases hrecord
      | false =>
          cases List.mem_singleton.mp hrecord
          cases op with
          | recordDiscoveredName testId => exact h
          | recordAt env testId duration failed failureClass timestampMs => exact h.1

/-- The records of an operation are about its key. -/
theorem records_key (op : DbOp) (known : Bool) (s : DbSection) :
    ∀ record ∈ op.records known s, s.hashOf ((s.update profile).key record) = op.key := by
  intro record hrecord
  cases s with
  | perf =>
      cases op with
      | recordDiscoveredName testId => cases hrecord
      | recordAt env testId duration failed failureClass timestampMs =>
          cases failed with
          | true => cases hrecord
          | false => cases List.mem_singleton.mp hrecord; rfl
  | flake =>
      cases op with
      | recordDiscoveredName testId => cases hrecord
      | recordAt env testId duration failed failureClass timestampMs =>
          cases List.mem_singleton.mp hrecord
          rfl
  | names =>
      cases known with
      | true => cases hrecord
      | false => cases List.mem_singleton.mp hrecord; rfl

end Operations

end Quokka
