import Quokka.Batching
import Quokka.Library.Table
import Quokka.Result
import Mathlib.Logic.Function.Basic

/-!
# The duration store in memory

Duration samples, flake counters and test names by key, after `duration_db.rs`. `PerfRecord` and
`FlakeRecord` are what is kept for one key in one environment; `DurationDb` is the loaded store
with the records of this run that are not on disk yet. Keys come from a hash of the test's
identity that `HashKey` provides.

A counter addition follows the `BuildProfile`.
-/

namespace Quokka

/-- Where a test was executed. -/
inductive Environment where
  | local
  | remote
  deriving DecidableEq, Repr

namespace Environment

/-- The environments in index order. -/
def all : List Environment := [.local, .remote]

/-- The index of an environment in the files. -/
def toIndex : Environment → UInt8
  | .local => 0
  | .remote => 1

end Environment

/-- A test's duration estimate. -/
inductive DurationEstimate where
  | measured (p50Ms p95Ms : UInt64)
  | unseen
  deriving DecidableEq, Repr

namespace DurationEstimate

/-- The weight for batching and ordering. -/
def weightMs : DurationEstimate → UInt64 → UInt64
  | .measured _ p95Ms, _ => p95Ms
  | .unseen, unseenDefaultMs => unseenDefaultMs

/-- The typical duration. -/
def p50Ms : DurationEstimate → UInt64 → UInt64
  | .measured p50Ms _, _ => p50Ms
  | .unseen, unseenDefaultMs => unseenDefaultMs

end DurationEstimate

/-! ## Duration samples -/

/-- Max recent samples retained per test. -/
def maxSamples : Nat := 64

/-- One successful run's duration. -/
structure DurationSample where
  timestampMs : UInt64
  durationMs : UInt64
  deriving DecidableEq, Repr

/-- Later samples come first, longer ones first among equal timestamps. -/
def DurationSample.descending (a b : DurationSample) : Prop :=
  b.timestampMs < a.timestampMs ∨
    (b.timestampMs = a.timestampMs ∧ b.durationMs ≤ a.durationMs)

instance : DecidableRel DurationSample.descending := fun a b => by
  unfold DurationSample.descending
  infer_instance

/-- Sort samples and keep the most recent ones. -/
def sortAndTruncate (samples : List DurationSample) : List DurationSample :=
  (samples.insertionSort DurationSample.descending).take maxSamples

theorem length_sort_and_truncate_le (samples : List DurationSample) :
    (sortAndTruncate samples).length ≤ maxSamples := by
  simp [sortAndTruncate]

/-- The duration samples of one key. -/
structure PerfRecord where
  samples : List DurationSample := []
  deriving DecidableEq, Repr

namespace PerfRecord

/-- Add one sample. -/
def record (perf : PerfRecord) (timestampMs durationMs : UInt64) : PerfRecord :=
  ⟨sortAndTruncate (perf.samples ++ [⟨timestampMs, durationMs⟩])⟩

/-- Add all samples of another record. -/
def combine (perf other : PerfRecord) : PerfRecord :=
  ⟨sortAndTruncate (perf.samples ++ other.samples)⟩

end PerfRecord

/-! ## Flake counters -/

/-- The run and failure counts of one key. -/
structure FlakeRecord where
  runs : UInt64 := 0
  failures : UInt64 := 0
  lastFailureTimestampMs : Option UInt64 := none
  lastFailureClass : Option FailureClass := none
  deriving DecidableEq, Repr

namespace FlakeRecord

/-- Count one run. -/
def record (profile : BuildProfile) (flake : FlakeRecord) (failed : Bool)
    (failureClass : Option FailureClass) (timestampMs : UInt64) : MayPanic FlakeRecord := do
  let runs ← profile.addU64 flake.runs 1
  if failed then
    let failures ← profile.addU64 flake.failures 1
    if flake.lastFailureTimestampMs.getD 0 ≤ timestampMs then
      pure ⟨runs, failures, some timestampMs, failureClass⟩
    else
      pure { flake with runs, failures }
  else pure { flake with runs }

/-- What counting one run does when no counter overflows. -/
theorem record_eq_ok {profile : BuildProfile} {flake next : FlakeRecord} {failed : Bool}
    {failureClass : Option FailureClass} {timestampMs : UInt64}
    (h : flake.record profile failed failureClass timestampMs = .ok next) :
    ∃ runs, profile.addU64 flake.runs 1 = .ok runs ∧
      ((failed = false ∧ next = { flake with runs }) ∨
        (failed = true ∧ ∃ failures, profile.addU64 flake.failures 1 = .ok failures ∧
          next =
            if flake.lastFailureTimestampMs.getD 0 ≤ timestampMs then
              ⟨runs, failures, some timestampMs, failureClass⟩
            else { flake with runs, failures })) := by
  unfold record at h
  cases hruns : profile.addU64 flake.runs 1 with
  | error message => rw [hruns] at h; cases h
  | ok runs =>
      rw [hruns] at h
      refine ⟨runs, rfl, ?_⟩
      cases failed with
      | false => cases h; exact .inl ⟨rfl, rfl⟩
      | true =>
          cases hfailures : profile.addU64 flake.failures 1 with
          | error message => rw [hfailures] at h; cases h
          | ok failures =>
              rw [hfailures] at h
              refine .inr ⟨rfl, failures, rfl, ?_⟩
              change (ite _ (.ok _) (.ok _) : MayPanic FlakeRecord) = .ok next at h
              split at h
              case isTrue hlater => rw [if_pos hlater]; exact (Except.ok.inj h).symm
              case isFalse hearlier => rw [if_neg hearlier]; exact (Except.ok.inj h).symm

/-- Add the counts of another record. -/
def combine (profile : BuildProfile) (flake other : FlakeRecord) : MayPanic FlakeRecord := do
  let runs ← profile.addU64 flake.runs other.runs
  let failures ← profile.addU64 flake.failures other.failures
  match other.lastFailureTimestampMs with
  | some otherTs =>
      if flake.lastFailureTimestampMs.getD 0 ≤ otherTs then
        pure ⟨runs, failures, some otherTs, other.lastFailureClass⟩
      else pure { flake with runs, failures }
  | none => pure { flake with runs, failures }

end FlakeRecord

/-! ## The store -/

/-- The hash of a test's identity under the project directory. -/
class HashKey where
  hashKey : TestIdentity → UInt64

/-- A duration sample that is not on disk yet. -/
structure PerfSample where
  env : Environment
  key : UInt64
  timestampMs : UInt64
  durationMs : UInt64
  deriving DecidableEq, Repr

/-- A run outcome that is not on disk yet. -/
structure FlakeSample where
  env : Environment
  key : UInt64
  failed : Bool
  failureClass : Option FailureClass
  timestampMs : UInt64
  deriving DecidableEq, Repr

/-- The loaded store plus in-memory accumulators for this run. -/
structure DurationDb where
  dir : String
  perf : Environment → Table UInt64 PerfRecord
  flake : Environment → Table UInt64 FlakeRecord
  names : Table UInt64 TestIdentity
  newPerfSamples : List PerfSample
  newFlakeRecords : List FlakeSample
  newNames : List (UInt64 × TestIdentity)

/-- Nearest-rank percentile over unsorted samples. -/
def percentile (samples : List UInt64) (p : Nat) : UInt64 :=
  if samples.isEmpty then 0
  else
    let sorted := samples.insertionSort (· ≤ ·)
    let rank := max ((p * sorted.length + 99) / 100) 1
    sorted.getD (min rank sorted.length - 1) 0

namespace DurationDb

/-- An empty in-memory store that never persists. -/
def ephemeral : DurationDb where
  dir := ""
  perf _ := ∅
  flake _ := ∅
  names := ∅
  newPerfSamples := []
  newFlakeRecords := []
  newNames := []

/-- The environments that a query covers. -/
def environments : Option Environment → List Environment
  | some env => [env]
  | none => Environment.all

/-- The samples of a key, combined over the queried environments. -/
def getPerfSamples (db : DurationDb) (env : Option Environment) (key : UInt64) :
    List DurationSample :=
  ((environments env).foldl (fun combined e =>
    match (db.perf e).lookup key with
    | some record => combined.combine record
    | none => combined) ({} : PerfRecord)).samples

theorem get_perf_samples_eq (db : DurationDb) (env : Option Environment) (key : UInt64) :
    db.getPerfSamples env key =
      ((environments env).foldl (fun (combined : PerfRecord) e =>
        ((db.perf e).lookup key).elim combined combined.combine) {}).samples := by
  have hstep : ∀ (combined : PerfRecord) (found : Option PerfRecord),
      (match found with
        | some record => combined.combine record
        | none => combined) = found.elim combined combined.combine := by
    intro combined found
    cases found with
    | none => rfl
    | some record => rfl
  simp only [getPerfSamples, hstep]

/-- The duration estimate of a key. -/
def estimateByKey (db : DurationDb) (env : Option Environment) (key : UInt64) :
    DurationEstimate :=
  let samples := db.getPerfSamples env key
  if samples.isEmpty then .unseen
  else
    let msSamples := samples.map DurationSample.durationMs
    .measured (percentile msSamples 50) (percentile msSamples 95)

/-- The flake record of a key, combined over the queried environments. -/
def getFlakeRecord (profile : BuildProfile) (db : DurationDb) (env : Option Environment)
    (key : UInt64) : MayPanic (Option FlakeRecord) := do
  let found := (environments env).filterMap fun e => (db.flake e).lookup key
  let combined ← found.foldlM (FlakeRecord.combine profile) {}
  pure (if found.isEmpty then none else some combined)

section Identities

variable [HashKey]

/-- The duration estimate of a test. -/
def estimate (db : DurationDb) (env : Option Environment) (testId : TestIdentity) :
    DurationEstimate :=
  db.estimateByKey env (HashKey.hashKey testId)

/-- The flake record of a test. -/
def flakeOf (profile : BuildProfile) (db : DurationDb) (env : Option Environment)
    (testId : TestIdentity) : MayPanic (Option FlakeRecord) :=
  db.getFlakeRecord profile env (HashKey.hashKey testId)

/-- Remember a test's name under its key. -/
def recordDiscoveredName (db : DurationDb) (testId : TestIdentity) : DurationDb :=
  let key := HashKey.hashKey testId
  if key ∈ db.names then db
  else
    { db with
      names := db.names.insert key testId
      newNames := db.newNames ++ [(key, testId)] }

/-- Record one run of a test. -/
def recordAt (profile : BuildProfile) (db : DurationDb) (env : Environment)
    (testId : TestIdentity) (duration : Duration) (failed : Bool)
    (failureClass : Option FailureClass) (timestampMs : UInt64) : MayPanic DurationDb := do
  let key := HashKey.hashKey testId
  let db := db.recordDiscoveredName testId
  let durationMs := UInt64.ofNat duration.asMillis
  let db :=
    if failed then db
    else
      { db with
        perf := Function.update db.perf env ((db.perf env).update key fun existing =>
          (existing.getD {}).record timestampMs durationMs)
        newPerfSamples := db.newPerfSamples ++ [⟨env, key, timestampMs, durationMs⟩] }
  let flake ← (((db.flake env).lookup key).getD {}).record profile failed failureClass timestampMs
  pure
    { db with
      flake := Function.update db.flake env ((db.flake env).insert key flake)
      newFlakeRecords :=
        db.newFlakeRecords ++ [⟨env, key, failed, failureClass, timestampMs⟩] }

end Identities

/-- Add the flake records of another table. -/
def combineFlake (profile : BuildProfile) (table other : Table UInt64 FlakeRecord) :
    MayPanic (Table UInt64 FlakeRecord) :=
  other.entries.foldlM (fun table entry => do
    let combined ← ((table.lookup entry.1).getD {}).combine profile entry.2
    pure (table.insert entry.1 combined)) table

/-- Add the samples of another table. -/
def combinePerf (table other : Table UInt64 PerfRecord) : Table UInt64 PerfRecord :=
  other.entries.foldl (fun table entry =>
    table.update entry.1 fun existing => (existing.getD {}).combine entry.2) table

/-- Add everything that another store holds. Its names are remembered like discovered ones. -/
def combine (profile : BuildProfile) (db other : DurationDb) : MayPanic DurationDb := do
  let flakeLocal ← combineFlake profile (db.flake .local) (other.flake .local)
  let flakeRemote ← combineFlake profile (db.flake .remote) (other.flake .remote)
  let (names, newNames) := other.names.entries.foldl (fun (names, newNames) entry =>
    if entry.1 ∈ names then (names, newNames)
    else (names.insert entry.1 entry.2, newNames ++ [(entry.1, entry.2)])) (db.names, db.newNames)
  pure
    { db with
      perf := fun env => combinePerf (db.perf env) (other.perf env)
      flake := fun
        | .local => flakeLocal
        | .remote => flakeRemote
      names
      newPerfSamples := db.newPerfSamples ++ other.newPerfSamples
      newFlakeRecords := db.newFlakeRecords ++ other.newFlakeRecords
      newNames }

end DurationDb

end Quokka
