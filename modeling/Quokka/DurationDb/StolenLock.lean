import Quokka.DurationDb.Parallel
import Quokka.DurationDb.Refinement
import Quokka.DurationDb.SoloFlush

/-!
# A stolen lock loses records

Two runs of two processes, the first of which compacts a large log. In one run the second process
finds the lock stale once the log is read, and appends a record that the truncation removes
although both flushes return `Ok`. In the other one the lock is fresh, the second process waits
for the end of the compaction, and nothing is lost.

A process disturbs no compaction while the others are outside appends and compactions
(`World.all_undisturbed_alone`).
-/

namespace Quokka

namespace World

variable {ι : Type} [DecidableEq ι] {profile : BuildProfile}

/-- The world while one process takes steps. -/
theorem run_steps (w : World ι) (i : ι) (ios : List IoResult) :
    ∃ marks, w.run profile (ios.map (.act i)) =
      { shared := (FlushProcess.steps profile (w.shared, w.process i) ios).1
        process := Function.update w.process i
          (FlushProcess.steps profile (w.shared, w.process i) ios).2
        marks } := by
  induction ios generalizing w with
  | nil => exact ⟨w.marks, by rw [FlushProcess.steps_nil, Function.update_eq_self]; rfl⟩
  | cons io ios ih =>
      obtain ⟨marks, hmarks⟩ := ih (w.next profile (.act i io))
      refine ⟨marks, hmarks.trans ?_⟩
      have hprocess : (w.next profile (.act i io)).process =
          Function.update w.process i (flushStep profile w.shared (w.process i) io).2 := rfl
      rw [hprocess, Function.update_self, Function.update_idem]
      rfl

/-- The world after one process has taken known steps. -/
theorem run_of_steps {process : ι → FlushProcess} {i : ι} {ios : List IoResult}
    {shared next : SharedDir} {p : FlushProcess}
    (h : FlushProcess.steps profile (shared, process i) ios = (next, p))
    (marks : ι → DbSection → ReadMark) :
    ∃ marks', World.run profile ⟨shared, process, marks⟩ (ios.map (.act i)) =
      ⟨next, Function.update process i p, marks'⟩ := by
  obtain ⟨marks', hrun⟩ := @run_steps _ _ profile ⟨shared, process, marks⟩ i ios
  rw [h] at hrun
  exact ⟨marks', hrun⟩

/-- A run in two parts. -/
theorem run_append (w : World ι) (first second : List (FlushEvent ι)) :
    w.run profile (first ++ second) = (w.run profile first).run profile second :=
  List.foldl_append

variable {w : World ι} {i : ι}

/-- The parts of a run. -/
theorem all_undisturbed_append {first second : List (FlushEvent ι)}
    (hfirst : w.AllUndisturbed profile first)
    (hsecond : (w.run profile first).AllUndisturbed profile second) :
    w.AllUndisturbed profile (first ++ second) := by
  induction first generalizing w with
  | nil => exact hsecond
  | cons event first ih => exact ⟨hfirst.1, ih hfirst.2 hsecond⟩

omit [DecidableEq ι] in
/-- A step of the only process that is inside a compaction. -/
theorem undisturbed_alone (hquiet : ∀ j, j ≠ i → (w.process j).pc.Quiet)
    (hread : ∀ s, (w.process i).pc = .readLog s → (w.marks i s).continued)
    (hsmall : ∀ s : DbSection, (w.process i).pc = .writeTmp s → s.Small ((w.process i).dbDisk s)) :
    w.Undisturbed (.act i .ok) := by
  unfold Undisturbed
  dsimp only
  cases hpc : (w.process i).pc with
  | append s =>
      intro _ j hj hread
      have hj := hquiet j hj
      cases hother : (w.process j).pc <;> rw [hother] at hj hread <;>
        first | exact hread | exact hj
  | readBin s => rfl
  | readLog s => exact ⟨rfl, hread s hpc⟩
  | writeTmp s => exact hsmall s hpc
  | _ => exact trivial

/-- Steps of a process during which no other one is inside an append or a compaction. -/
theorem all_undisturbed_alone {n : Nat} (hquiet : ∀ j, j ≠ i → (w.process j).pc.Quiet)
    (hread : ∀ s, (w.process i).pc = .readLog s → (w.marks i s).continued)
    (hsmall : ∀ s : DbSection, s.Small
      ((FlushProcess.steps profile (w.shared, w.process i) (List.replicate n .ok)).2.dbDisk s)) :
    w.AllUndisturbed profile ((List.replicate n .ok).map (.act i)) := by
  induction n generalizing w with
  | zero => exact trivial
  | succ n ih =>
      have hnext : (w.next profile (.act i .ok)).process i =
          (flushStep profile w.shared (w.process i) .ok).2 := Function.update_self _ _ _
      refine ⟨undisturbed_alone hquiet hread fun s hpc => ?_, ih (fun j hj => ?_) (fun s hpc => ?_)
        fun s => ?_⟩
      · have hlast := hsmall s
        rwa [FlushProcess.db_disk_steps (by rw [hpc]; exact trivial)] at hlast
      · show (Function.update w.process i _ j).pc.Quiet
        rw [Function.update_of_ne hj]
        exact hquiet j hj
      · -- The mark that the step has just set says that no log is ahead of its base file.
        rw [hnext] at hpc
        have hbin := FlushProcess.read_bin_of_read_log hpc
        show (w.nextMarks i .ok i s).continued
        unfold nextMarks
        rw [hbin]
        dsimp only
        rw [Function.update_self, Function.update_self]
        intro j htruncate
        by_cases hj : j = i
        · rw [hj, hbin] at htruncate
          cases htruncate
        · have hother := hquiet j hj
          rw [htruncate] at hother
          exact hother
      · rw [hnext]
        exact hsmall s

/-- A part of a run in which one process takes known steps on its own. -/
theorem part_alone {process : ι → FlushProcess} {shared next : SharedDir} {p : FlushProcess}
    {n : Nat}
    (h : FlushProcess.steps profile (shared, process i) (List.replicate n .ok) = (next, p))
    (hquiet : ∀ j, j ≠ i → (process j).pc.Quiet) (hread : ∀ s, (process i).pc ≠ .readLog s)
    (hsmall : ∀ s : DbSection, s.Small (p.dbDisk s)) (marks : ι → DbSection → ReadMark) :
    ∃ marks', World.run profile ⟨shared, process, marks⟩ ((List.replicate n .ok).map (.act i)) =
        ⟨next, Function.update process i p, marks'⟩ ∧
      AllUndisturbed profile ⟨shared, process, marks⟩ ((List.replicate n .ok).map (.act i)) := by
  obtain ⟨marks', hrun⟩ := run_of_steps h marks
  refine ⟨marks', hrun, all_undisturbed_alone hquiet (fun s hpc => absurd hpc (hread s)) ?_⟩
  dsimp only
  rw [h]
  exact hsmall

end World

namespace FlushProcess

variable {profile : BuildProfile} {shared : SharedDir} {p : FlushProcess}

/-- The lock is stale. -/
theorem steps_steal {modified : Nat} (hpc : p.pc = .createDir)
    (hlock : shared.lock = some modified) (hstale : staleLockAge < shared.clock - modified) :
    steps profile (shared, p) [.ok, .ok, .ok, .ok, .ok] =
      ({ shared with lock := some shared.clock },
        { p with pc := .append .perf, lockAcquired := true }) := by
  have hattempt : afterAttempt 0 = .lock 1 := rfl
  simp only [steps_cons, steps_nil, flushStep, hpc, tryLock, hlock, statLock, hstale, if_true,
    removeLock, hattempt]

/-- A compaction after the load, up to its end. -/
theorem steps_finish (hpc : p.pc = .writeTmp .perf) (hlock : p.lockAcquired = true)
    (herrors : p.errors = []) :
    steps profile (shared, p) (List.replicate 10 .ok) =
      ({ shared with
          lock := none, files := fun s => ⟨some (s.writeBin (p.dbDisk s)), some []⟩ },
        { p with pc := .done (.ok ()), tmp := DbSection.writeBin .names (p.dbDisk .names) }) :=
  Eq.trans (steps_then (steps_compact_all hpc) [.ok]) (steps_unlock rfl hlock herrors)

/-- A process that finds empty logs returns. -/
theorem steps_return (hpc : p.pc = .stat .perf) (hlarge : p.large = false)
    (hlock : p.lockAcquired = true) (herrors : p.errors = [])
    (hlogs : ∀ s, (shared.files s).log = some []) :
    steps profile (shared, p) (List.replicate 4 .ok) =
      ({ shared with lock := none }, { p with pc := .done (.ok ()) }) := by
  have hneeds : DurationDb.needsCompaction shared.files = false := by
    simp [DurationDb.needsCompaction, hlogs]
  refine Eq.trans (steps_then (steps_stat hpc hlarge) [.ok]) ?_
  rw [hneeds]
  refine Eq.trans (steps_unlock rfl hlock herrors) ?_
  rw [hlarge]

/-- The lock is another process's, and fresh. -/
theorem steps_wait {modified : Nat} (hpc : p.pc = .createDir)
    (hlock : shared.lock = some modified) (hfresh : ¬staleLockAge < shared.clock - modified) :
    steps profile (shared, p) (List.replicate 3 .ok) = (shared, { p with pc := .lock 1 }) := by
  have hattempt : afterAttempt 0 = .lock 1 := rfl
  simp only [List.replicate, steps_cons, steps_nil, flushStep, hpc, tryLock, hlock, statLock,
    hfresh, if_false, hattempt]

/-- A process that has waited for the lock, and does not compact. -/
theorem steps_after_wait {attempt : Nat} (hpc : p.pc = .lock attempt) (hlock : shared.lock = none)
    (hlarge : p.large = false) (herrors : p.errors = [])
    (hsmall : DurationDb.needsCompaction
      (fun s => DurationDb.appendRecords s (shared.files s) (p.pending s)) = false) :
    steps profile (shared, p) (List.replicate 8 .ok) =
      ({ shared with
          lock := none
          files := fun s => DurationDb.appendRecords s (shared.files s) (p.pending s) },
        { p with pc := .done (.ok ()), pending := fun _ => [], lockAcquired := true }) := by
  have hacquire : steps profile (shared, p) [.ok] =
      ({ shared with lock := some shared.clock },
        { p with pc := .append .perf, lockAcquired := true }) := by
    simp only [steps_cons, steps_nil, flushStep, hpc, tryLock, hlock]
  refine Eq.trans (steps_then hacquire (List.replicate 7 .ok)) ?_
  refine Eq.trans (steps_then (steps_append rfl) (List.replicate 4 .ok)) ?_
  refine Eq.trans (steps_then (steps_stat (by rfl) (by exact hlarge)) [.ok]) ?_
  rw [hsmall]
  refine Eq.trans (steps_unlock rfl rfl herrors) ?_
  rw [hlarge]

/-- A process that starts has loaded nothing. -/
theorem small_start (db : DurationDb) (s : DbSection) :
    s.Small ((start db).dbDisk s) := by
  cases s with
  | perf => exact show ∀ size ∈ [0, 0], size < 2 ^ 32 by decide
  | flake => exact show ∀ size ∈ [0, 0], size < 2 ^ 32 by decide
  | names => exact show ∀ size ∈ [0], size < 2 ^ 32 by decide

end FlushProcess

namespace DurationDb

/-- A log with samples of one key is the only file after they are appended. -/
theorem needs_compaction_of_large {old : List PerfSample}
    (hlarge : compactionThreshold < 25 * old.length) {db : DurationDb}
    (hdb : db.newPerfSamples = old) :
    needsCompaction (FlushProcess.appendedFiles noFiles db) = true := by
  have hbytes : ∀ samples : List PerfSample,
      (samples.flatMap (DbSection.logBytes .perf)).length = 25 * samples.length := by
    intro samples
    induction samples with
    | nil => rfl
    | cons sample samples ih =>
        rw [List.flatMap_cons, List.length_append, ih, List.length_cons]
        simp only [DbSection.logBytes, perfLogBytes, List.length_append, List.length_singleton,
          Codec.length_u64_bytes]
        omega
  have hnonempty : (db.pending .perf).isEmpty = false := by
    rw [List.isEmpty_eq_false_iff]
    rintro hnil
    rw [← hdb, show db.newPerfSamples = [] from hnil] at hlarge
    exact absurd hlarge (by decide)
  refine List.any_eq_true.mpr ⟨.perf, by simp, decide_eq_true ?_⟩
  unfold FlushProcess.appendedFiles appendRecords
  rw [hnonempty]
  show compactionThreshold < ([] ++ db.newPerfSamples.flatMap (DbSection.logBytes .perf)).length
  rw [List.nil_append, hbytes, hdb]
  exact hlarge

variable {profile : BuildProfile} {db : DurationDb} {key : UInt64}

/-- The files after samples are appended to an empty directory. -/
theorem on_disk_samples (hflake : db.newFlakeRecords = []) (hnames : db.newNames = [])
    (s : DbSection) :
    s.OnDisk (FlushProcess.appendedFiles noFiles db s) (fun _ => none) ([] ++ db.pending s) := by
  refine (DbSection.on_disk_none s).append fun record hrecord => ?_
  cases s with
  | perf => exact trivial
  | flake => rw [show db.pending .flake = [] from hflake] at hrecord; cases hrecord
  | names => rw [show db.pending .names = [] from hnames] at hrecord; cases hrecord

/-- What samples of one key give fits the counts of the base files. -/
theorem small_of_samples (hflake : db.newFlakeRecords = []) (hnames : db.newNames = [])
    (hkeys : ∀ sample ∈ db.newPerfSamples, sample.key = key)
    {disk : (s : DbSection) → s.Contents}
    (hdisk : ∀ s : DbSection,
      s.load profile (FlushProcess.appendedFiles noFiles db s) = .ok (disk s)) (s : DbSection) :
    s.Small (disk s) := by
  have hcount : [key].length < 2 ^ 32 := show 1 < 2 ^ 32 by decide
  refine (on_disk_samples hflake hnames s).small_of_log (hdisk s) (fun record hrecord => ?_) hcount
  rw [List.mem_singleton]
  cases s with
  | perf => exact hkeys record hrecord
  | flake => rw [show db.pending .flake = [] from hflake] at hrecord; cases hrecord
  | names => rw [show db.pending .names = [] from hnames] at hrecord; cases hrecord

/-- What is found after samples of one key are appended to an empty directory, and written again:
nothing of any other key. -/
theorem find_compacted_samples (hflake : db.newFlakeRecords = []) (hnames : db.newNames = [])
    (hkeys : ∀ sample ∈ db.newPerfSamples, sample.key = key)
    {disk : (s : DbSection) → s.Contents}
    (hdisk : ∀ s : DbSection,
      s.load profile (FlushProcess.appendedFiles noFiles db s) = .ok (disk s))
    (env : Environment) {other : UInt64} (hother : other ≠ key) :
    (DbSection.readBin .perf (some (DbSection.writeBin .perf (disk .perf))) env).lookup other =
      none := by
  have hlog := on_disk_samples hflake hnames .perf
  have hload := @DbSection.OnDisk.load profile .perf _ _ _ hlog
  rw [hdisk] at hload
  have hnone : DbSection.find .perf (disk .perf) (env, other) = none :=
    hlog.find_eq_none (hdisk .perf) fun sample hsample hsame =>
      hother ((congrArg Prod.snd hsame).symm.trans (hkeys sample hsample))
  have hstorable : DbSection.Storable .perf (DbSection.find .perf (disk .perf)) :=
    DbSection.storable_replay (fun _ _ => trivial) (DbSection.on_disk_none .perf).base_storable
      hload.symm
  have hsmall := small_of_samples hflake hnames hkeys hdisk .perf
  exact (congrFun (DbSection.find_read_bin hstorable hsmall) (env, other)).trans hnone

/-- Samples that are appended to an empty directory can be loaded. -/
theorem exists_load_samples (hflake : db.newFlakeRecords = []) (hnames : db.newNames = []) :
    ∃ disk : (s : DbSection) → s.Contents, ∀ s : DbSection,
      s.load profile (FlushProcess.appendedFiles noFiles db s) = .ok (disk s) := by
  have hload : ∀ s : DbSection, ∃ disk : s.Contents,
      s.load profile (FlushProcess.appendedFiles noFiles db s) = .ok disk := by
    intro s
    cases s with
    | perf => exact ⟨_, List.foldlM_pure⟩
    | flake =>
        refine ⟨fun _ => ∅, ?_⟩
        unfold FlushProcess.appendedFiles appendRecords
        rw [show db.pending .flake = [] from hflake]
        rfl
    | names =>
        refine ⟨∅, ?_⟩
        unfold FlushProcess.appendedFiles appendRecords
        rw [show db.pending .names = [] from hnames]
        rfl
  choose disk hdisk using hload
  exact ⟨disk, hdisk⟩

end DurationDb

/-- The store has a directory. -/
theorem sampled_store_dir (samples : List PerfSample) :
    (sampledStore samples).dir.isEmpty = false := by
  show "quokka".isEmpty = false
  decide

/-- A process that has appended its samples to an empty directory and loaded the files. -/
def FlushProcess.compacting (db : DurationDb) (disk : (s : DbSection) → s.Contents) :
    FlushProcess :=
  { FlushProcess.start db with
    pc := .writeTmp .perf
    pending := fun _ => []
    lockAcquired := true
    large := true
    base := fun s => s.readBin (FlushProcess.appendedFiles DurationDb.noFiles db s).bin
    dbDisk := disk }

/-- The events of a run in which the second process steals the lock of the first one during its
compaction. -/
def stolenLockEvents : List (FlushEvent Bool) :=
  (List.replicate 14 IoResult.ok).map (.act false) ++ ([.setClock (11 * 10 ^ 9)] ++
    ((List.replicate 8 IoResult.ok).map (.act true) ++
      ((List.replicate 10 IoResult.ok).map (.act false) ++
        (List.replicate 4 IoResult.ok).map (.act true))))

/-- The first process has read its samples for the compaction when the second one appends another
one, which the truncation removes. Both flushes return `Ok`. -/
theorem lost_sample {profile : BuildProfile} {old : List PerfSample} {new : PerfSample}
    {key : UInt64} (hkeys : ∀ sample ∈ old, sample.key = key)
    (hlarge : DurationDb.compactionThreshold < 25 * old.length) (hnew : new.key ≠ key)
    {stores : Bool → DurationDb} (hfirst : stores false = sampledStore old)
    (hsecond : stores true = sampledStore [new]) :
    let last := (World.start emptyDir stores).run profile stolenLockEvents
    (∀ late : Bool, (last.process late).pc = .done (.ok ())) ∧
      ∃ db, DurationDb.load profile "quokka" last.shared.files = .ok db ∧
        ∀ env, (db.perf env).lookup new.key = none := by
  intro last
  obtain ⟨disk, hdisk⟩ := @DurationDb.exists_load_samples profile (sampledStore old) rfl rfl
  have hneeds := @DurationDb.needs_compaction_of_large old hlarge (sampledStore old) rfl
  let start := World.start emptyDir stores
  let appended := FlushProcess.appendedFiles DurationDb.noFiles (sampledStore old)
  -- The first process appends its samples and loads the files for the compaction.
  let compacting := FlushProcess.compacting (sampledStore old) disk
  have hload : FlushProcess.steps profile (emptyDir, start.process false) (List.replicate 14 .ok) =
      (⟨0, some 0, appended⟩, compacting) := by
    show FlushProcess.steps profile (emptyDir, .start (stores false)) _ = (_, compacting)
    rw [hfirst]
    exact FlushProcess.steps_to_compaction (sampled_store_dir old) rfl hneeds hdisk
  -- The second one finds a stale lock and appends its sample to the log that was read.
  let late : FlushProcess :=
    { FlushProcess.start (stores true) with
      pc := .stat .perf, pending := fun _ => [], lockAcquired := true }
  let files : DbFiles := fun s => DurationDb.appendRecords s (appended s) ((stores true).pending s)
  have happend : FlushProcess.steps profile
      (⟨11 * 10 ^ 9, some 0, appended⟩, start.process true) (List.replicate 8 .ok) =
        (⟨11 * 10 ^ 9, some (11 * 10 ^ 9), files⟩, late) := by
    have hstale : staleLockAge < 11 * 10 ^ 9 - 0 := by decide
    refine Eq.trans (FlushProcess.steps_then (FlushProcess.steps_steal ?_ rfl hstale)
      [.ok, .ok, .ok]) (FlushProcess.steps_append rfl)
    exact FlushProcess.start_pc (by rw [hsecond]; exact sampled_store_dir [new])
  -- The first one replaces the base file and truncates the log, and both return.
  obtain ⟨marks₁, hworld₁⟩ := World.run_of_steps hload start.marks
  obtain ⟨marks₂, hworld₂⟩ := @World.run_of_steps Bool _ profile
    (Function.update start.process false compacting) true _ _ _ _ happend marks₁
  obtain ⟨marks₃, hworld₃⟩ := @World.run_of_steps Bool _ profile
    (Function.update (Function.update start.process false compacting) true late) false
    _ _ _ _ (FlushProcess.steps_finish rfl rfl rfl) marks₂
  obtain ⟨marks₄, hworld₄⟩ := @World.run_of_steps Bool _ profile
    (Function.update (Function.update (Function.update start.process false compacting) true late)
      false { compacting with
        pc := .done (.ok ()), tmp := DbSection.writeBin .names (disk .names) }) true
    _ _ _ _ (@FlushProcess.steps_return profile
      ⟨11 * 10 ^ 9, none, fun s => ⟨some (s.writeBin (disk s)), some []⟩⟩ late rfl rfl rfl rfl
      fun _ => rfl) marks₃
  have hlast : last = _ := (World.run_append start _ _).trans <|
    (congrArg (fun w => World.run profile w _) hworld₁).trans <|
    (World.run_append _ _ _).trans <| (World.run_append _ _ _).trans <|
    (congrArg (fun w => World.run profile w _) hworld₂).trans <|
    (World.run_append _ _ _).trans <| (congrArg (fun w => World.run profile w _) hworld₃).trans
      hworld₄
  have hfound : ∃ db, DurationDb.load profile "quokka"
      (fun s => ⟨some (s.writeBin (disk s)), some []⟩) = .ok db ∧
        ∀ env, (db.perf env).lookup new.key = none := by
    have hlost := fun env => @DurationDb.find_compacted_samples profile (sampledStore old) key
      rfl rfl hkeys disk hdisk env new.key hnew
    refine ⟨_, DurationDb.load_of_empty_logs _ fun _ => rfl, ?_⟩
    dsimp only
    exact hlost
  have hfiles : last.shared.files = fun s => ⟨some (s.writeBin (disk s)), some []⟩ := by
    rw [hlast]
  refine ⟨fun late => ?_, ?_⟩
  · rw [hlast]
    cases late <;> rfl
  · rw [hfiles]
    exact hfound

/-- Enough samples of one test for a compaction, and one sample of another test, which is lost. -/
theorem stolen_lock_loses_sample :
    let old := List.replicate 20972 (⟨.local, 1, 0, 5⟩ : PerfSample)
    let new : PerfSample := ⟨.local, 2, 0, 7⟩
    let last := (World.start emptyDir fun late : Bool =>
      sampledStore (if late then [new] else old)).run ⟨false⟩ stolenLockEvents
    (∀ late : Bool, (last.process late).pc = .done (.ok ())) ∧
      ∃ db, DurationDb.load ⟨false⟩ "quokka" last.shared.files = .ok db ∧
        (db.perf .local).lookup new.key = none := by
  intro old new last
  have hlarge : DurationDb.compactionThreshold < 25 * old.length := by
    rw [List.length_replicate]
    decide
  obtain ⟨hdone, db, hdb, hlost⟩ := @lost_sample ⟨false⟩ old new 1
    (fun sample hsample => by rw [List.eq_of_mem_replicate hsample]) hlarge (by decide)
    (fun late => sampledStore (if late then [new] else old)) rfl rfl
  exact ⟨hdone, db, hdb, hlost .local⟩

/-- The events of a run in which the second process waits for the lock of the first one during
its compaction. -/
def freshLockEvents : List (FlushEvent Bool) :=
  (List.replicate 14 IoResult.ok).map (.act false) ++
    ((List.replicate 3 IoResult.ok).map (.act true) ++
      ((List.replicate 10 IoResult.ok).map (.act false) ++
        (List.replicate 8 IoResult.ok).map (.act true)))

/-- The first process compacts its samples and removes the lock before the second one appends. -/
theorem waiting_undisturbed {profile : BuildProfile} {old : List PerfSample} {new : PerfSample}
    {key : UInt64} (hkeys : ∀ sample ∈ old, sample.key = key)
    (hlarge : DurationDb.compactionThreshold < 25 * old.length) :
    let start := World.start emptyDir fun late : Bool =>
      sampledStore (if late then [new] else old)
    start.AllUndisturbed profile freshLockEvents ∧
      ∀ late : Bool, ((start.run profile freshLockEvents).process late).pc = .done (.ok ()) := by
  intro start
  obtain ⟨disk, hdisk⟩ := @DurationDb.exists_load_samples profile (sampledStore old) rfl rfl
  have hneeds := @DurationDb.needs_compaction_of_large old hlarge (sampledStore old) rfl
  have hsmall : ∀ s : DbSection, s.Small (disk s) :=
    @DurationDb.small_of_samples _ (sampledStore old) _ rfl rfl hkeys _ hdisk
  let appended := FlushProcess.appendedFiles DurationDb.noFiles (sampledStore old)
  let first := FlushProcess.compacting (sampledStore old) disk
  let second : FlushProcess := { FlushProcess.start (sampledStore [new]) with pc := .lock 1 }
  -- The first process appends its samples and loads the files for the compaction.
  have hload : FlushProcess.steps profile (emptyDir, start.process false)
      (List.replicate 14 .ok) = (⟨0, some 0, appended⟩, first) :=
    FlushProcess.steps_to_compaction (sampled_store_dir old) rfl hneeds hdisk
  -- The second one finds the lock, which is fresh.
  have hwait : FlushProcess.steps profile (⟨0, some 0, appended⟩, start.process true)
      (List.replicate 3 .ok) = (⟨0, some 0, appended⟩, second) := by
    have hfresh : ¬staleLockAge < 0 - 0 := by decide
    exact FlushProcess.steps_wait (FlushProcess.start_pc (sampled_store_dir [new])) rfl hfresh
  -- The first one ends its compaction, and the second one appends its sample.
  have hfinish := @FlushProcess.steps_finish profile ⟨0, some 0, appended⟩ first rfl rfl rfl
  have hflush := @FlushProcess.steps_after_wait profile
    ⟨0, none, fun s => ⟨some (s.writeBin (disk s)), some []⟩⟩ second 1 rfl rfl rfl rfl rfl
  have hpc : ∀ i, (start.process i).pc = .createDir :=
    fun i => FlushProcess.start_pc (sampled_store_dir _)
  have hfirstAlone : ∀ i, i ≠ false → (start.process i).pc.Quiet := by
    intro i _
    rw [hpc i]
    exact trivial
  obtain ⟨marks₁, hworld₁, hpart₁⟩ := World.part_alone hload hfirstAlone
    (fun s => by rw [hpc false]; nofun) hsmall start.marks
  let loaded := Function.update start.process false first
  obtain ⟨marks₂, hworld₂⟩ := @World.run_of_steps Bool _ profile loaded true _ _ _ _ hwait marks₁
  let waiting := Function.update loaded true second
  have hsecondQuiet : ∀ i, i ≠ false → (waiting i).pc.Quiet := by
    intro i hi
    rw [Bool.eq_true_of_not_eq_false hi]
    exact trivial
  obtain ⟨marks₃, hworld₃, hpart₃⟩ := @World.part_alone Bool _ profile false waiting _ _ _ 10
    hfinish hsecondQuiet (fun s => nofun) hsmall marks₂
  let compacted := Function.update waiting false { first with
    pc := .done (.ok ()), tmp := DbSection.writeBin .names (disk .names) }
  have hfirstQuiet : ∀ i, i ≠ true → (compacted i).pc.Quiet := by
    intro i hi
    rw [Bool.eq_false_of_not_eq_true hi]
    exact trivial
  obtain ⟨marks₄, hworld₄, hpart₄⟩ := @World.part_alone Bool _ profile true compacted _ _ _ 8
    hflush hfirstQuiet (fun s => nofun) (FlushProcess.small_start (sampledStore [new])) marks₃
  refine ⟨World.all_undisturbed_append hpart₁ ?_, fun late => ?_⟩
  · show (World.run profile ⟨emptyDir, start.process, start.marks⟩ _).AllUndisturbed profile _
    rw [hworld₁]
    refine World.all_undisturbed_append ⟨trivial, trivial, trivial, trivial⟩ ?_
    rw [hworld₂]
    refine World.all_undisturbed_append hpart₃ ?_
    rw [hworld₃]
    exact hpart₄
  · have hlast : start.run profile freshLockEvents = _ := (World.run_append start _ _).trans <|
      (congrArg (fun w => World.run profile w _) hworld₁).trans <|
      (World.run_append _ _ _).trans <| (congrArg (fun w => World.run profile w _) hworld₂).trans <|
      (World.run_append _ _ _).trans <| (congrArg (fun w => World.run profile w _) hworld₃).trans
        hworld₄
    rw [hlast]
    cases late <;> rfl

/-- Enough samples of one test for a compaction, and one sample of another test, which is kept. -/
theorem waiting_flush_loses_nothing :
    let old := List.replicate 20972 (⟨.local, 1, 0, 5⟩ : PerfSample)
    let new : PerfSample := ⟨.local, 2, 0, 7⟩
    let stores := fun late : Bool => sampledStore (if late then [new] else old)
    ∃ order : DbSection → List Bool, ∀ s : DbSection,
      (order s).Nodup ∧ (∀ i, i ∈ order s) ∧
      (s.load ⟨false⟩ (((World.start emptyDir stores).run ⟨false⟩
        freshLockEvents).shared.files s)).map s.find =
        (s.load ⟨false⟩ (emptyDir.files s)).map s.find >>= fun found =>
          (s.update ⟨false⟩).replay found ((order s).flatMap fun late =>
            (stores late).pending s) := by
  intro old new stores
  have hlarge : DurationDb.compactionThreshold < 25 * old.length := by
    rw [List.length_replicate]
    decide
  obtain ⟨hundisturbed, hdone⟩ := @waiting_undisturbed ⟨false⟩ old new 1
    (fun sample hsample => by rw [List.eq_of_mem_replicate hsample]) hlarge
  refine undisturbed_flushes_lose_nothing (fun s => ⟨_, _, DbSection.on_disk_none s⟩)
    (fun late => sampled_store_dir _) (fun late s record hrecord => ?_) hundisturbed hdone
  cases s with
  | perf => exact trivial
  | flake => cases hrecord
  | names => cases hrecord

end Quokka
