import Quokka.ChunkSums
import Quokka.DurationDb.Bounds
import Quokka.Scheduler.Plan

/-!
# The duration store does not abort a run

The store is advisory: its files may hold anything. `load_and_calls_return_iff` says when a load
and any calls after it return in a build with overflow checks, and that nothing but an addition
that does not fit can panic.

`DbCall` are the calls on a loaded store, and `DbCall.Fits` is the condition of a call on the
store before it. A counter near `2 ^ 64` in a file makes the load panic
(`stored_counter_aborts_load`).
-/

namespace Quokka

open BuildProfile (checked)

/-- A call on a loaded store. -/
inductive DbCall where
  | recordAt (env : Environment) (testId : TestIdentity) (duration : Duration) (failed : Bool)
      (failureClass : Option FailureClass) (timestampMs : UInt64)
  | estimate (env : Option Environment) (testId : TestIdentity)
  | flake (env : Option Environment) (testId : TestIdentity)
  | getFlakeRecord (env : Option Environment) (key : UInt64)
  | combine (other : DurationDb)
  | buildBatches (target : String) (tests : List TestCase) (config : RunnerConfig)
      (capability : DemuxCapability) (targetMode : Option BatchMode)

section Calls

variable [HashKey]

/-- Make a call; a query leaves the store as it is. -/
def DurationDb.call (profile : BuildProfile) (db : DurationDb) : DbCall → MayPanic DurationDb
  | .recordAt env testId duration failed failureClass timestampMs =>
      db.recordAt profile env testId duration failed failureClass timestampMs
  | .estimate env testId => (db.estimateChecked env (HashKey.hashKey testId)).map fun _ => db
  | .flake env testId => (db.flakeOf profile env testId).map fun _ => db
  | .getFlakeRecord env key => (db.getFlakeRecord profile env key).map fun _ => db
  | .combine other => db.combine profile other
  | .buildBatches target tests config capability targetMode =>
      (buildBatches target tests config db profile capability targetMode).map fun _ => db

/-- The sums of a call fit into 64 bits: the counters of a recorded run, those that a query or a
combination adds, and the sums of the chunks that tests are packed into. -/
def DbCall.Fits (db : DurationDb) : DbCall → Prop
  | .recordAt env testId _ failed _ _ =>
      runsOf (db.flake env) (HashKey.hashKey testId) + 1 < 2 ^ 64 ∧
        (failed = true → failuresOf (db.flake env) (HashKey.hashKey testId) + 1 < 2 ^ 64)
  | .estimate _ _ => True
  | .flake env testId => db.QueryFits env (HashKey.hashKey testId)
  | .getFlakeRecord env key => db.QueryFits env key
  | .combine other => ∀ env, DurationDb.TablesFit (db.flake env) (other.flake env)
  | .buildBatches target tests config capability targetMode =>
      ∀ size, effectiveBatchMode config capability targetMode = .fixedChunk size →
        ChunksFit size (tests.map fun t => nameWeight target config db t.name)

/-- Every call fits in the store that the calls before it leave. -/
def CallsFit : DurationDb → List DbCall → Prop
  | _, [] => True
  | db, call :: calls =>
      call.Fits db ∧ ∀ next, db.call checked call = .ok next → CallsFit next calls

/-- A test is weighed as batches are. -/
theorem weight_of_inputs (target : String) (tests : List TestCase) (config : RunnerConfig)
    (db : DurationDb) :
    (tests.map fun t =>
        ({ name := t.name, estimate := db.estimate none (testIdentity target config t.name) } :
          LocalBatchInput)).map Batchable.weightMs =
      tests.map fun t => nameWeight target config db t.name := by
  rw [List.map_map]
  rfl

/-- Batches are built exactly when the sums of the chunks fit: only chunks of a fixed size have
sums. -/
theorem build_batches_fits_iff (target : String) (tests : List TestCase) (config : RunnerConfig)
    (db : DurationDb) (capability : DemuxCapability) (targetMode : Option BatchMode) :
    FitsIff (∀ size, effectiveBatchMode config capability targetMode = .fixedChunk size →
        ChunksFit size (tests.map fun t => nameWeight target config db t.name))
      (buildBatches target tests config db checked capability targetMode) := by
  unfold buildBatches
  dsimp only
  cases effectiveBatchMode config capability targetMode with
  | perTest => exact nofun
  | durationBucketed p50LtMs => exact nofun
  | target =>
      split
      · exact nofun
      · exact nofun
  | fixedChunk size =>
      rw [if_neg (by simp)]
      rw [← weight_of_inputs target tests config db]
      refine (((chunk_fixed_fits_iff _ size _).map _).then_pure fun _ _ => ⟨_, rfl⟩).congr
        ⟨?_, fun hfits => hfits size rfl⟩
      rintro hfits other ⟨⟩
      exact hfits

/-- A call returns exactly when its sums fit. -/
theorem call_fits_iff (db : DurationDb) (call : DbCall) :
    FitsIff (call.Fits db) (db.call checked call) := by
  cases call with
  | recordAt env testId duration failed failureClass timestampMs =>
      exact db.record_at_fits_iff env testId duration failed failureClass timestampMs
  | estimate env testId =>
      show FitsIff True ((db.estimateChecked env (HashKey.hashKey testId)).map fun _ => db)
      rw [db.estimate_checked_eq]
      exact trivial
  | flake env testId => exact (db.get_flake_record_fits_iff env _).map _
  | getFlakeRecord env key => exact (db.get_flake_record_fits_iff env key).map _
  | combine other => exact db.combine_fits_iff other
  | buildBatches target tests config capability targetMode =>
      exact (build_batches_fits_iff target tests config db capability targetMode).map _

/-- Calls return exactly when all of them fit. -/
theorem calls_fits_iff (db : DurationDb) (calls : List DbCall) :
    FitsIff (CallsFit db calls) (calls.foldlM (DurationDb.call checked) db) :=
  Except.OkIff.foldlM (fun _ _ => True) (fun _ _ => trivial)
    (fun db call _ _ => call_fits_iff db call) (fun _ _ _ _ => Iff.rfl)
    (fun _ _ _ _ _ _ => trivial) trivial

/-- A load and the calls after it return in a build with overflow checks exactly when the
counters of the files fit and every call fits in the store before it; otherwise an addition
panics. Nothing else can stop them: the loop over a name log ends, log records are sliced within
the log, and percentiles and chunks are indexed in range. -/
theorem load_and_calls_return_iff (dir : String) (files : DbFiles) (calls : List DbCall) :
    FitsIff ((files .flake).CountersFit ∧
        ∀ db, DurationDb.load checked dir files = .ok db → CallsFit db calls)
      (DurationDb.load checked dir files >>= calls.foldlM (DurationDb.call checked)) ∧
    (∀ log, nameLogLoop.run (log, []) = readNameLog log.length log) ∧
    (∀ width log, ∀ image ∈ Codec.records width log, image.length = width) ∧
    (∀ (db : DurationDb) env key, db.estimateChecked env key = .ok (db.estimateByKey env key)) ∧
    ∀ (inputs : List LocalBatchInput) size,
      chunkFixedIndexed checked inputs size Batchable.weightMs =
        chunkFixedGeneric checked inputs size Batchable.weightMs := by
  refine ⟨?_, ?_, ?_, ?_, ?_⟩
  · exact (DurationDb.load_fits_iff dir files).bind fun db _ => calls_fits_iff db calls
  · exact fun log => name_log_loop_run log.length log [] (Nat.le_refl _)
  · exact fun width log image himage => Codec.length_of_mem_records himage
  · exact fun db env key => db.estimate_checked_eq env key
  · exact fun inputs size => chunk_fixed_indexed_eq checked inputs size Batchable.weightMs

end Calls

/-! ## A stored counter -/

/-- The files of a store with one flake record, whose run counter is the largest one, and one
more run of its test in the log. -/
def overflowingFiles : DbFiles
  | .perf => ⟨none, none⟩
  | .flake =>
      ⟨some (DbSection.writeBin .flake
          (Function.update (fun _ => ∅) .local
            (AList.insert 7 ⟨.ofNat (2 ^ 64 - 1), 0, none, none⟩ ∅))),
        some (DbSection.logBytes .flake ⟨.local, 7, false, none, 0⟩)⟩
  | .names => ⟨none, none⟩

/-- Loading them panics. -/
theorem stored_counter_aborts_load :
    DurationDb.load checked "quokka" overflowingFiles = .error overflowMessage := by
  let flake : FlakeRecord := ⟨.ofNat (2 ^ 64 - 1), 0, none, none⟩
  let tables : Environment → Table UInt64 FlakeRecord :=
    Function.update (fun _ => ∅) .local (AList.insert 7 flake ∅)
  let sample : FlakeSample := ⟨.local, 7, false, none, 0⟩
  have hbin : ((DbSection.readBin .flake (overflowingFiles .flake).bin) .local).lookup 7 =
      some flake := by
    have hstorable : DbSection.Storable .flake (DbSection.find .flake tables) := by
      rintro ⟨env, key⟩ value hvalue
      cases env with
      | «local» =>
          have hlookup : (AList.insert 7 flake ∅ : Table UInt64 FlakeRecord).lookup key =
              some value := hvalue
          by_cases hkey : key = 7
          · subst hkey
            cases hlookup
            exact nofun
          · rw [AList.lookup_insert_ne hkey] at hlookup
            cases hlookup
      | remote => cases hvalue
    have hsmall : DbSection.Small .flake tables := by
      show ∀ size ∈ [1, 0], size < 2 ^ 32
      decide
    exact congrFun (DbSection.find_read_bin hstorable hsmall) (.local, 7)
  have hlog : DbSection.readLog .flake ((overflowingFiles .flake).log.getD []) = [sample] := by
    have hread := @DbSection.read_log_bytes .flake [sample] fun record hrecord => by
      rw [List.mem_singleton.mp hrecord]
      exact (by decide : (0 : UInt64) ≠ noTimestamp)
    rwa [List.flatMap_singleton] at hread
  have hover : ¬(overflowingFiles .flake).CountersFit := by
    intro hfit
    have hruns := (hfit .local 7).1
    unfold runsOf at hruns
    rw [hbin, hlog] at hruns
    revert hruns
    decide
  cases hload : DurationDb.load checked "quokka" overflowingFiles with
  | ok db => exact absurd ((DurationDb.load_fits_iff _ _).of_eq_ok hload) hover
  | error message => rw [(DurationDb.load_fits_iff _ _).error_eq hload]

end Quokka
