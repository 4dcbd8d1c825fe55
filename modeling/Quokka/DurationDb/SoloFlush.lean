import Quokka.DurationDb.FlushProcess

/-!
# A flush on its own

The steps of one process while no other process takes one: what each part of a flush does to the
directory (`steps_acquire`, `steps_append`, `steps_stat`, `steps_load`, `steps_compact`), and
that a whole flush whose file operations succeed is `DurationDb.flush` (`steps_flush`).
-/

namespace Quokka

/-- The program points after the load of a compaction. -/
def FlushPc.Closing : FlushPc → Prop
  | .writeTmp _ => True
  | .rename _ => True
  | .truncate _ => True
  | .unlock => True
  | .done _ => True
  | .panicked _ => True
  | _ => False

namespace FlushProcess

variable {profile : BuildProfile} {shared : SharedDir} {p : FlushProcess} {io : IoResult}

/-- Steps of one process with the results of their file operations. -/
def steps (profile : BuildProfile) (state : SharedDir × FlushProcess) (ios : List IoResult) :
    SharedDir × FlushProcess :=
  ios.foldl (fun state io => flushStep profile state.1 state.2 io) state

/-- Steps in two parts. -/
theorem steps_then {state next : SharedDir × FlushProcess} {first : List IoResult}
    (h : steps profile state first = next) (second : List IoResult) :
    steps profile state (first ++ second) = steps profile next second := by
  rw [← h]
  exact List.foldl_append

@[simp] theorem steps_cons (state : SharedDir × FlushProcess) (io : IoResult)
    (ios : List IoResult) :
    steps profile state (io :: ios) =
      steps profile (flushStep profile state.1 state.2 io) ios :=
  rfl

@[simp] theorem steps_nil (state : SharedDir × FlushProcess) : steps profile state [] = state :=
  rfl

/-- What was loaded stays as it is. -/
theorem closing_step (h : p.pc.Closing) :
    (flushStep profile shared p io).2.pc.Closing ∧
      (flushStep profile shared p io).2.dbDisk = p.dbDisk := by
  have hafter : ∀ s, (afterCompaction s).Closing := by
    intro s
    cases s <;> exact trivial
  unfold flushStep
  cases hpc : p.pc with
  | writeTmp s => cases io with
    | ok => exact ⟨trivial, rfl⟩
    | failed message written => exact ⟨hafter s, rfl⟩
  | rename s => cases io with
    | ok => exact ⟨trivial, rfl⟩
    | failed message written => exact ⟨hafter s, rfl⟩
  | truncate s => cases io <;> exact ⟨hafter s, rfl⟩
  | unlock => dsimp only; unfold unlock; split <;> exact ⟨trivial, rfl⟩
  | done result => exact ⟨by rw [hpc]; exact trivial, rfl⟩
  | panicked message => exact ⟨by rw [hpc]; exact trivial, rfl⟩
  | _ => rw [hpc] at h; exact h.elim

theorem db_disk_steps (h : p.pc.Closing) (ios : List IoResult) :
    (steps profile (shared, p) ios).2.dbDisk = p.dbDisk := by
  induction ios generalizing shared p with
  | nil => rfl
  | cons io ios ih =>
      obtain ⟨hclosing, hsame⟩ := @closing_step profile shared p io h
      exact (ih hclosing).trans hsame

/-- A log is read after the base file. -/
theorem read_bin_of_read_log {s : DbSection}
    (h : (flushStep profile shared p io).2.pc = .readLog s) : p.pc = .readBin s := by
  unfold flushStep at h
  cases hpc : p.pc with
  | readBin t => rw [hpc] at h; cases h; rfl
  | createDir => rw [hpc] at h; cases io <;> cases h
  | lock attempt => rw [hpc] at h; dsimp only at h; unfold tryLock at h; split at h <;> cases h
  | lockStat attempt =>
      rw [hpc] at h
      dsimp only at h
      unfold statLock afterAttempt at h
      (repeat' split at h) <;> cases h
  | lockRemove attempt =>
      rw [hpc] at h
      dsimp only at h
      unfold removeLock afterAttempt at h
      (repeat' split at h) <;> cases h
  | append t =>
      rw [hpc] at h
      dsimp only at h
      unfold appendSection at h
      cases t <;> (repeat' split at h) <;> cases h
  | stat t =>
      have hpoint : ∀ large, afterStat t large ≠ .readLog s := by
        intro large
        cases t <;> cases large <;> nofun
      rw [hpc] at h
      exact absurd h (hpoint _)
  | readLog t =>
      rw [hpc] at h
      dsimp only at h
      unfold loadLog at h
      dsimp only at h
      split at h
      · cases t <;> cases h
      · cases h
  | writeTmp t => rw [hpc] at h; cases io <;> cases t <;> cases h
  | rename t => rw [hpc] at h; cases io <;> cases t <;> cases h
  | truncate t => rw [hpc] at h; cases io <;> cases t <;> cases h
  | unlock => rw [hpc] at h; dsimp only at h; unfold unlock at h; split at h <;> cases h
  | done result => rw [hpc] at h; dsimp only at h; rw [hpc] at h; cases h
  | panicked message => rw [hpc] at h; dsimp only at h; rw [hpc] at h; cases h

/-- The lock is free. -/
theorem steps_acquire (hpc : p.pc = .createDir) (hlock : shared.lock = none) :
    steps profile (shared, p) [.ok, .ok] =
      ({ shared with lock := some shared.clock },
        { p with pc := .append .perf, lockAcquired := true }) := by
  simp only [steps_cons, steps_nil, flushStep, hpc, tryLock, hlock]

/-- An append whose file operation succeeds. -/
theorem flushStep_append_ok {s : DbSection} (hpc : p.pc = .append s) :
    flushStep profile shared p .ok =
      ({ shared with
          files := Function.update shared.files s
            (DurationDb.appendRecords s (shared.files s) (p.pending s)) },
        { p with pc := afterAppend s, pending := Function.update p.pending s [] }) := by
  unfold flushStep
  rw [hpc]
  dsimp only
  unfold appendSection
  split
  case isTrue hempty =>
    rw [DurationDb.appendRecords, if_pos hempty, Function.update_eq_self,
      ← List.isEmpty_iff.mp hempty, Function.update_eq_self]
  case isFalse => rfl

/-- Updates of all sections. -/
theorem update_sections {β : DbSection → Type} (f : (s : DbSection) → β s)
    (perf : β .perf) (flake : β .flake) (names : β .names) :
    Function.update (Function.update (Function.update f .perf perf) .flake flake) .names names =
      fun
        | .perf => perf
        | .flake => flake
        | .names => names := by
  funext s
  cases s <;> rfl

/-- The appends to the three logs. -/
theorem steps_append (hpc : p.pc = .append .perf) :
    steps profile (shared, p) [.ok, .ok, .ok] =
      ({ shared with
          files := fun s => DurationDb.appendRecords s (shared.files s) (p.pending s) },
        { p with pc := .stat .perf, pending := fun _ => [] }) := by
  rw [steps_cons, flushStep_append_ok hpc, steps_cons, flushStep_append_ok rfl, steps_cons,
    flushStep_append_ok rfl, steps_nil, update_sections, update_sections]
  refine Prod.ext ?_ ?_
  · refine congrArg (SharedDir.mk shared.clock shared.lock) (funext fun s => ?_)
    cases s <;> rfl
  · refine congrArg (fun pending => { p with pc := .stat .perf, pending }) (funext fun s => ?_)
    cases s <;> rfl

/-- The sizes of the three logs. -/
theorem steps_stat (hpc : p.pc = .stat .perf) (hlarge : p.large = false) :
    steps profile (shared, p) [.ok, .ok, .ok] =
      (shared,
        { p with
          pc := if DurationDb.needsCompaction shared.files then .readBin .perf else .unlock
          large := DurationDb.needsCompaction shared.files }) := by
  have hneeds : DurationDb.needsCompaction shared.files =
      (((false || decide (DurationDb.compactionThreshold <
        ((shared.files .perf).log.getD []).length)) ||
        decide (DurationDb.compactionThreshold < ((shared.files .flake).log.getD []).length)) ||
        decide (DurationDb.compactionThreshold < ((shared.files .names).log.getD []).length)) := by
    simp [DurationDb.needsCompaction, Bool.or_assoc]
  simp only [steps_cons, steps_nil, flushStep, hpc, statSection, hlarge, afterStat,
    DbSection.following, ← hneeds]

/-- The load of the three sections. -/
theorem steps_load (hpc : p.pc = .readBin .perf) {disk : (s : DbSection) → s.Contents}
    (hdisk : ∀ s : DbSection, s.load profile (shared.files s) = .ok (disk s)) :
    steps profile (shared, p) [.ok, .ok, .ok, .ok, .ok, .ok] =
      (shared,
        { p with
          pc := .writeTmp .perf
          base := fun s => s.readBin (shared.files s).bin
          dbDisk := disk }) := by
  have hsection : ∀ (q : FlushProcess) (s : DbSection), q.pc = .readBin s →
      steps profile (shared, q) [.ok, .ok] =
        (shared,
          { q with
            pc := afterLoad s
            base := Function.update q.base s (s.readBin (shared.files s).bin)
            dbDisk := Function.update q.dbDisk s (disk s) }) := by
    intro q s hq
    rw [steps_cons, flushStep_read_bin hq, steps_cons, steps_nil]
    unfold flushStep
    dsimp only
    unfold loadLog
    dsimp only
    rw [Function.update_self]
    rw [show (s.readLog ((shared.files s).log.getD [])).foldlM (s.record profile)
      (s.readBin (shared.files s).bin) = _ from hdisk s]
  refine (steps_then (hsection p .perf hpc) [.ok, .ok, .ok, .ok]).trans ?_
  refine (steps_then (hsection _ .flake rfl) [.ok, .ok]).trans ?_
  refine (hsection _ .names rfl).trans ?_
  rw [update_sections, update_sections]
  refine Prod.ext rfl ?_
  refine congrArg₂ (fun base dbDisk => { p with pc := .writeTmp .perf, base, dbDisk })
    (funext fun s => ?_) (funext fun s => ?_)
  · cases s <;> rfl
  · cases s <;> rfl

/-- The compaction of a section. -/
theorem steps_compact {s : DbSection} (hpc : p.pc = .writeTmp s) :
    steps profile (shared, p) [.ok, .ok, .ok] =
      ({ shared with
          files := Function.update shared.files s ⟨some (s.writeBin (p.dbDisk s)), some []⟩ },
        { p with pc := afterCompaction s, tmp := s.writeBin (p.dbDisk s) }) := by
  simp only [steps_cons, steps_nil, flushStep, hpc, writeTmp, renameTmp, truncateLog,
    Function.update_self, Function.update_idem]

/-- The compaction of the three sections. -/
theorem steps_compact_all (hpc : p.pc = .writeTmp .perf) :
    steps profile (shared, p) (List.replicate 9 .ok) =
      ({ shared with files := fun s => ⟨some (s.writeBin (p.dbDisk s)), some []⟩ },
        { p with
          pc := .unlock
          tmp := DbSection.writeBin .names (p.dbDisk .names) }) := by
  refine (steps_then (steps_compact hpc) [.ok, .ok, .ok, .ok, .ok, .ok]).trans ?_
  refine (steps_then (@steps_compact profile _ _ .flake rfl) [.ok, .ok, .ok]).trans ?_
  refine (@steps_compact profile _ _ .names rfl).trans ?_
  rw [update_sections]
  refine Prod.ext ?_ rfl
  refine congrArg (SharedDir.mk shared.clock shared.lock) (funext fun s => ?_)
  cases s <;> rfl

/-- A process that got the lock and met no error removes it and returns. -/
theorem steps_unlock (hpc : p.pc = .unlock) (hlock : p.lockAcquired = true)
    (herrors : p.errors = []) :
    steps profile (shared, p) [.ok] =
      ({ shared with lock := none }, { p with pc := .done (.ok ()) }) := by
  simp only [steps_cons, steps_nil, flushStep, hpc, unlock, hlock, herrors, flushResult,
    List.isEmpty_nil, if_true]

/-- A load of the store loads every section. -/
theorem load_sections {dir : String} {files : DbFiles} {disk : DurationDb}
    (h : DurationDb.load profile dir files = .ok disk) (s : DbSection) :
    s.load profile (files s) = .ok (disk.contents s) := by
  unfold DurationDb.load at h
  cases hperf : DbSection.load profile .perf (files .perf) with
  | error message => rw [hperf] at h; cases h
  | ok perf =>
      cases hflake : DbSection.load profile .flake (files .flake) with
      | error message => rw [hperf, hflake] at h; cases h
      | ok flake =>
          cases hnames : DbSection.load profile .names (files .names) with
          | error message => rw [hperf, hflake, hnames] at h; cases h
          | ok names =>
              rw [hperf, hflake, hnames] at h
              cases h
              cases s <;> assumption

/-- What a flush of a store with a directory does. -/
theorem flush_cases {db next : DurationDb} {files nextFiles : DbFiles}
    (hdir : db.dir.isEmpty = false)
    (h : DurationDb.flush profile files db = .ok (nextFiles, next)) :
    next = { db with newPerfSamples := [], newFlakeRecords := [], newNames := [] } ∧
      ((DurationDb.needsCompaction
            (fun s => DurationDb.appendRecords s (files s) (db.pending s)) = false ∧
          nextFiles = fun s => DurationDb.appendRecords s (files s) (db.pending s)) ∨
        (DurationDb.needsCompaction
            (fun s => DurationDb.appendRecords s (files s) (db.pending s)) = true ∧
          ∃ disk, DurationDb.load profile db.dir
              (fun s => DurationDb.appendRecords s (files s) (db.pending s)) = .ok disk ∧
            nextFiles = fun s => ⟨some (s.writeBin (disk.contents s)), some []⟩)) := by
  unfold DurationDb.flush at h
  rw [hdir] at h
  simp only [Bool.false_eq_true, if_false] at h
  split at h
  case isTrue hlarge =>
    cases hload : DurationDb.load profile db.dir
        (fun s => DurationDb.appendRecords s (files s) (db.pending s)) with
    | error message => rw [hload] at h; cases h
    | ok disk =>
        rw [hload] at h
        cases h
        exact ⟨rfl, .inr ⟨hlarge, disk, rfl, rfl⟩⟩
  case isFalse hsmall =>
    cases h
    exact ⟨rfl, .inl ⟨by simpa using hsmall, rfl⟩⟩

/-- The files after the new records of a store are appended. -/
@[reducible] def appendedFiles (files : DbFiles) (db : DurationDb) : DbFiles :=
  fun s => DurationDb.appendRecords s (files s) (db.pending s)

theorem start_pc {db : DurationDb} (hdir : db.dir.isEmpty = false) :
    (start db).pc = .createDir := by
  unfold start
  rw [hdir]
  rfl

/-- A process that finds the lock free, up to the decision whether to compact. -/
theorem steps_to_stat {db : DurationDb} (hdir : db.dir.isEmpty = false)
    (hlock : shared.lock = none) :
    steps profile (shared, start db) (List.replicate 8 .ok) =
      ({ shared with lock := some shared.clock, files := appendedFiles shared.files db },
        { start db with
          pc := if DurationDb.needsCompaction (appendedFiles shared.files db) then
            .readBin .perf else .unlock
          pending := fun _ => []
          lockAcquired := true
          large := DurationDb.needsCompaction (appendedFiles shared.files db) }) := by
  refine Eq.trans (steps_then (steps_acquire (start_pc hdir) hlock) (List.replicate 6 .ok)) ?_
  refine Eq.trans (steps_then (steps_append (by rfl)) [.ok, .ok, .ok]) ?_
  exact steps_stat (by rfl) (by rfl)

/-- A process that compacts, up to the end of its load. -/
theorem steps_to_compaction {db : DurationDb} (hdir : db.dir.isEmpty = false)
    (hlock : shared.lock = none)
    (hlarge : DurationDb.needsCompaction (appendedFiles shared.files db) = true)
    {disk : (s : DbSection) → s.Contents}
    (hdisk : ∀ s : DbSection, s.load profile (appendedFiles shared.files db s) = .ok (disk s)) :
    steps profile (shared, start db) (List.replicate 14 .ok) =
      ({ shared with lock := some shared.clock, files := appendedFiles shared.files db },
        { start db with
          pc := .writeTmp .perf
          pending := fun _ => []
          lockAcquired := true
          large := true
          base := fun s => s.readBin (appendedFiles shared.files db s).bin
          dbDisk := disk }) := by
  refine Eq.trans (steps_then (steps_to_stat hdir hlock) (List.replicate 6 .ok)) ?_
  rw [hlarge]
  exact steps_load (by rfl) hdisk

/-- A flush on its own whose file operations succeed is `DurationDb.flush`. -/
theorem steps_flush {db next : DurationDb} {files : DbFiles} (hdir : db.dir.isEmpty = false)
    (hlock : shared.lock = none)
    (hflush : DurationDb.flush profile shared.files db = .ok (files, next)) :
    ∃ count p, steps profile (shared, start db) (List.replicate count .ok) =
        ({ shared with files }, p) ∧
      p.pc = .done (.ok ()) ∧ p.pending = next.pending := by
  obtain ⟨rfl, hcases⟩ := flush_cases hdir hflush
  have hpending : (fun _ => []) = ({ db with
      newPerfSamples := [], newFlakeRecords := [], newNames := [] } : DurationDb).pending := by
    funext s
    cases s <;> rfl
  rcases hcases with ⟨hsmall, rfl⟩ | ⟨hlarge, disk, hdisk, rfl⟩
  · refine ⟨9, { start db with
      pc := .done (.ok ()), pending := fun _ => [], lockAcquired := true, large := false },
      Eq.trans (steps_then (steps_to_stat hdir hlock) [.ok]) ?_, rfl, hpending⟩
    rw [hsmall, steps_unlock (by rfl) (by rfl) (by rfl), hlock]
  · refine ⟨24, { start db with
      pc := .done (.ok ()), pending := fun _ => [], lockAcquired := true, large := true
      base := fun s => s.readBin (appendedFiles shared.files db s).bin
      dbDisk := disk.contents
      tmp := DbSection.writeBin .names disk.names }, ?_, rfl, hpending⟩
    refine Eq.trans (steps_then (steps_to_compaction hdir hlock hlarge (load_sections hdisk))
      (List.replicate 10 .ok)) ?_
    refine Eq.trans (steps_then (steps_compact_all (by rfl)) [.ok]) ?_
    rw [steps_unlock (by rfl) (by rfl) (by rfl), hlock]
    rfl

end FlushProcess

end Quokka
