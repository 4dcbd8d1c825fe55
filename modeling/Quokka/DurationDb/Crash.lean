import Quokka.DurationDb.StolenLock

/-!
# Compactions that fail or stop

A compaction replaces the base file of a section and then truncates its log, in two steps. What
the files hold is the same before and after every other step, whether it succeeds or fails, so a
process may stop there (`careful_compaction_keeps_answers`). Between the two steps the log
repeats what the base file contains already (`stopped_compaction_counts_twice`).

`Compacting` is the invariant of a process in a flush, given what the files of each section hold.
-/

namespace Quokka

namespace DbSection

variable {profile : BuildProfile} {s : DbSection}

/-- A log that may be applied to its base once more: it has no record, or names only. -/
def Repeatable (s : DbSection) (files : SectionFiles) : Prop :=
  s = .names ∨ s.readLog (files.log.getD []) = []

/-- What is found when the log of a base is applied once more. -/
theorem OnDisk.repeated {files : SectionFiles} {base found : s.Key → Option s.Value}
    {log : List s.Record} (h : s.OnDisk files found log)
    (hreplay : (s.update profile).replay base log = .ok found)
    (hrepeatable : s.Repeatable files) : s.Holds profile files found := by
  refine ⟨found, log, h, ?_⟩
  rcases hrepeatable with rfl | hempty
  · exact (DbSection.update profile .names).replay_again (fun _ _ => rfl) hreplay
  · rw [h.log_eq, read_log_bytes h.log_storable] at hempty
    rw [hempty]
    rfl

/-- What is loaded from a short log is small. -/
theorem OnDisk.small {files : SectionFiles} {log : List s.Record} {contents : s.Contents}
    (h : s.OnDisk files (fun _ => none) log) (hload : s.load profile files = .ok contents)
    (hcount : log.length < 2 ^ 32) : s.Small contents := by
  have hkeys : ∀ record ∈ log, s.hashOf ((s.update profile).key record) ∈
      log.map fun record => s.hashOf ((s.update profile).key record) :=
    fun record hrecord => List.mem_map_of_mem hrecord
  exact h.small_of_log hload hkeys (by rwa [List.length_map])

/-- Tables in which the same is found are small together. -/
theorem Small.of_find_eq {contents other : s.Contents} (h : s.Small other)
    (hfind : s.find contents = s.find other) : s.Small contents := by
  have henvironment : ∀ {ν : Type} (tables others : Environment → Table UInt64 ν),
      (∀ env key, (tables env).lookup key = (others env).lookup key) →
      (∀ size ∈ [(others .local).entries.length, (others .remote).entries.length],
        size < 2 ^ 32) →
      ∀ size ∈ [(tables .local).entries.length, (tables .remote).entries.length],
        size < 2 ^ 32 := by
    intro ν tables others hlookup hothers size hsize
    simp only [List.mem_cons, List.not_mem_nil, or_false] at hsize hothers
    rcases hsize with rfl | rfl
    · exact Nat.lt_of_le_of_lt (Table.length_le_of_lookup_eq (hlookup .local))
        (hothers _ (.inl rfl))
    · exact Nat.lt_of_le_of_lt (Table.length_le_of_lookup_eq (hlookup .remote))
        (hothers _ (.inr rfl))
  cases s with
  | perf => exact henvironment contents other (fun env key => congrFun hfind (env, key)) h
  | flake => exact henvironment contents other (fun env key => congrFun hfind (env, key)) h
  | names =>
      intro size hsize
      rw [List.mem_singleton.mp hsize]
      exact Nat.lt_of_le_of_lt (Table.length_le_of_lookup_eq (congrFun hfind))
        (h _ (List.mem_singleton_self _))

end DbSection

/-- The load of a section changes nothing of which other logs were read. -/
theorem FlushPc.has_read_log_after_load_of_ne {s t : DbSection} (h : t ≠ s) :
    (afterLoad s).HasReadLog t ↔ (FlushPc.readLog s).HasReadLog t := by
  cases s <;> cases t <;> first | exact absurd rfl h | simp [afterLoad, DbSection.following,
    HasReadLog, DbSection.index]

namespace FlushProcess

variable {profile : BuildProfile} {shared : SharedDir} {q : FlushProcess} {io : IoResult}
  {now : (s : DbSection) → s.Key → Option s.Value}

/-- A process in a flush, when the files of each section hold `now`. After a base file was
replaced and before the log is truncated, the base file alone holds it. -/
structure Compacting (profile : BuildProfile) (now : (s : DbSection) → s.Key → Option s.Value)
    (shared : SharedDir) (q : FlushProcess) : Prop where
  holds : ∀ s : DbSection, q.pc ≠ .truncate s → s.Holds profile (shared.files s) (now s)
  renamed : ∀ s : DbSection, q.pc = .truncate s → ∃ base log,
    s.OnDisk (shared.files s) (now s) log ∧ (s.update profile).replay base log = .ok (now s)
  base_read : ∀ s : DbSection, q.pc = .readLog s → q.base s = s.readBin (shared.files s).bin
  log_read : ∀ s : DbSection, q.pc.HasReadLog s → s.find (q.dbDisk s) = now s
  tmp_eq : ∀ s : DbSection, q.pc = .rename s → q.tmp = s.writeBin (q.dbDisk s)

/-- What a step of a compaction must not do: take a file for a missing one, or leave a log that
must not be applied once more. -/
def Careful (shared : SharedDir) (q : FlushProcess) (io : IoResult) : Prop :=
  match q.pc with
  | .readBin s => io = .ok ∨ (shared.files s).bin = none
  | .readLog s => io = .ok ∨ s.readLog ((shared.files s).log.getD []) = []
  | .truncate s => io = .ok ∨ s.Repeatable (shared.files s)
  | _ => True

/-- A process that compacts no section. -/
theorem Compacting.of_outside (hholds : ∀ s : DbSection, s.Holds profile (shared.files s) (now s))
    (houtside : ∀ (s : DbSection) (mark : ReadMark), q.phase s mark = .outside) :
    Compacting profile now shared q where
  holds s _ := hholds s
  renamed s hpc := by
    have hphase := houtside s ⟨True, True⟩
    rw [phase, hpc, FlushPc.phase_truncate_self] at hphase
    cases hphase
  base_read s hpc := by
    have hphase := houtside s ⟨True, True⟩
    rw [phase, hpc, FlushPc.phase_read_log_self] at hphase
    cases hphase
  log_read s hread := by
    have hphase := houtside s ⟨True, True⟩
    have hopen : (q.phase s ⟨True, True⟩).IsOpen := (FlushPc.phase_is_open q.pc).mpr hread
    rw [hphase] at hopen
    exact hopen.elim
  tmp_eq s hpc := by
    have hphase := houtside s ⟨True, True⟩
    rw [phase, hpc, FlushPc.phase_rename_self] at hphase
    cases hphase

/-- A step outside appends and compactions. -/
theorem Compacting.quiet (h : Compacting profile now shared q) (hquiet : q.pc.Quiet) :
    Compacting profile now (flushStep profile shared q io).1 (flushStep profile shared q io).2 := by
  have hstep : QuietStep shared q (flushStep profile shared q io) := quiet_step hquiet
  refine Compacting.of_outside (fun s => ?_) hstep.outside
  rw [hstep.files_eq]
  exact h.holds s (by rintro hpc; rw [hpc] at hquiet; exact hquiet)

/-- What the load takes the base file of a section for. -/
def binRead (files : SectionFiles) : IoResult → Option (List UInt8)
  | .ok => files.bin
  | .failed _ _ => none

/-- What the load takes the log of a section for. -/
def logRead (files : SectionFiles) : IoResult → List UInt8
  | .ok => files.log.getD []
  | .failed _ _ => []

theorem flushStep_at_read_bin {s : DbSection} (hpc : q.pc = .readBin s) :
    flushStep profile shared q io =
      (shared, { q with
        pc := .readLog s
        base := Function.update q.base s (s.readBin (binRead (shared.files s) io)) }) := by
  unfold flushStep
  rw [hpc]
  cases io <;> rfl

theorem flushStep_at_read_log {s : DbSection} (hpc : q.pc = .readLog s) {contents : s.Contents}
    (hload : (s.readLog (logRead (shared.files s) io)).foldlM (s.record profile) (q.base s) =
      .ok contents) :
    flushStep profile shared q io =
      (shared, { q with
        pc := afterLoad s
        dbDisk := Function.update q.dbDisk s contents }) := by
  unfold flushStep
  rw [hpc]
  cases io <;>
    · show loadLog profile shared q s _ = _
      unfold loadLog
      dsimp only [logRead] at hload ⊢
      rw [hload]

/-- A careful process reads the base file as it is. -/
theorem Careful.bin_read {s : DbSection} (h : Careful shared q io) (hpc : q.pc = .readBin s) :
    binRead (shared.files s) io = (shared.files s).bin := by
  unfold Careful at h
  rw [hpc] at h
  rcases h with rfl | hnone
  · rfl
  · rw [hnone]
    cases io with
    | ok => exact hnone
    | failed message written => rfl

/-- A careful process reads all records of the log. -/
theorem Careful.log_read {s : DbSection} (h : Careful shared q io) (hpc : q.pc = .readLog s) :
    s.readLog (logRead (shared.files s) io) = s.readLog ((shared.files s).log.getD []) := by
  unfold Careful at h
  rw [hpc] at h
  rcases h with rfl | hnone
  · rfl
  · rw [hnone]
    cases io with
    | ok => exact hnone
    | failed message written => exact @DbSection.read_log_bytes s [] nofun

/-- The load reads a base file. -/
theorem Compacting.read_bin {s : DbSection} (h : Compacting profile now shared q)
    (hpc : q.pc = .readBin s) (hcareful : Careful shared q io) :
    Compacting profile now (flushStep profile shared q io).1 (flushStep profile shared q io).2 := by
  rw [flushStep_at_read_bin hpc, hcareful.bin_read hpc]
  refine ⟨fun t _ => h.holds t (by rw [hpc]; nofun), nofun, ?_, ?_, nofun⟩
  · rintro t ⟨⟩
    exact Function.update_self _ _ _
  · intro t hread
    exact h.log_read t (by rw [hpc]; exact hread)

/-- The load reads a log. -/
theorem Compacting.read_log {s : DbSection} (h : Compacting profile now shared q)
    (hpc : q.pc = .readLog s) (hcareful : Careful shared q io) :
    Compacting profile now (flushStep profile shared q io).1 (flushStep profile shared q io).2 := by
  have hholds : ∀ t : DbSection, t.Holds profile (shared.files t) (now t) :=
    fun t => h.holds t (by rw [hpc]; nofun)
  obtain ⟨contents, hcontents, hfound⟩ := (hholds s).load
  have hload : (s.readLog (logRead (shared.files s) io)).foldlM (s.record profile) (q.base s) =
      .ok contents := by
    rw [hcareful.log_read hpc, h.base_read s hpc]
    exact hcontents
  rw [flushStep_at_read_log hpc hload]
  refine ⟨fun t _ => hholds t, fun t ht => ?_, fun t ht => ?_, fun t hread => ?_, fun t ht => ?_⟩
  · cases s <;> cases ht
  · cases s <;> cases ht
  · show t.find (Function.update q.dbDisk s contents t) = now t
    by_cases hts : t = s
    · subst hts
      rw [Function.update_self]
      exact hfound
    · rw [Function.update_of_ne hts]
      refine h.log_read t ?_
      rw [hpc, ← FlushPc.has_read_log_after_load_of_ne hts]
      exact hread
  · cases s <;> cases ht

/-- After the compaction of a section, whether or not it succeeded. -/
theorem Compacting.go_on {s : DbSection} {errors : List String}
    (hholds : ∀ t : DbSection, t.Holds profile (shared.files t) (now t))
    (hread : ∀ t : DbSection, s.index < t.index → t.find (q.dbDisk t) = now t) :
    Compacting profile now shared { q with pc := afterCompaction s, errors } := by
  refine ⟨fun t _ => hholds t, fun t ht => ?_, fun t ht => ?_, fun t ht => hread t ?_,
    fun t ht => ?_⟩
  · cases s <;> cases ht
  · cases s <;> cases ht
  · cases s <;> cases t <;> simp [afterCompaction, DbSection.following, FlushPc.HasReadLog,
      DbSection.index] at ht ⊢
  · cases s <;> cases ht

/-- The temporary file is written. -/
theorem Compacting.write_tmp {s : DbSection} (h : Compacting profile now shared q)
    (hpc : q.pc = .writeTmp s) :
    Compacting profile now (flushStep profile shared q io).1 (flushStep profile shared q io).2 := by
  have hholds : ∀ t : DbSection, t.Holds profile (shared.files t) (now t) :=
    fun t => h.holds t (by rw [hpc]; nofun)
  have hread : ∀ t : DbSection, s.index ≤ t.index → t.find (q.dbDisk t) = now t :=
    fun t ht => h.log_read t (by rw [hpc]; exact ht)
  unfold flushStep
  rw [hpc]
  cases io with
  | ok =>
      refine ⟨fun t _ => hholds t, nofun, nofun, hread, ?_⟩
      rintro t ⟨⟩
      rfl
  | failed message written =>
      exact .go_on hholds fun t ht => hread t (Nat.le_of_lt ht)

/-- The base file is replaced. -/
theorem Compacting.rename {s : DbSection} (h : Compacting profile now shared q)
    (hpc : q.pc = .rename s)
    (hsmall : ∀ contents : s.Contents, s.find contents = now s → s.Small contents) :
    Compacting profile now (flushStep profile shared q io).1 (flushStep profile shared q io).2 := by
  have hholds : ∀ t : DbSection, t.Holds profile (shared.files t) (now t) :=
    fun t => h.holds t (by rw [hpc]; nofun)
  have hread : ∀ t : DbSection, s.index ≤ t.index → t.find (q.dbDisk t) = now t :=
    fun t ht => h.log_read t (by rw [hpc]; exact ht)
  have hself := hread s (Nat.le_refl _)
  unfold flushStep
  rw [hpc]
  cases io with
  | ok =>
      obtain ⟨base, log, hdisk, hreplay⟩ := hholds s
      have hnew : s.OnDisk { shared.files s with bin := some q.tmp } (now s) log := by
        have hstorable : s.Storable (s.find (q.dbDisk s)) := by
          rw [hself]
          exact (hholds s).storable
        rw [h.tmp_eq s hpc, ← hself]
        exact hdisk.rename hstorable (hsmall _ hself)
      refine ⟨fun t ht => ?_, ?_, nofun, hread, nofun⟩
      · have hts : t ≠ s := fun heq => ht (congrArg FlushPc.truncate heq.symm)
        show t.Holds profile (Function.update shared.files s _ t) (now t)
        rw [Function.update_of_ne hts]
        exact hholds t
      · rintro t ⟨⟩
        refine ⟨base, log, ?_, hreplay⟩
        show s.OnDisk (Function.update shared.files s _ s) (now s) log
        rw [Function.update_self]
        exact hnew
  | failed message written =>
      exact .go_on hholds fun t ht => hread t (Nat.le_of_lt ht)

/-- The log is truncated, or it stays and may be applied once more. -/
theorem Compacting.truncate {s : DbSection} (h : Compacting profile now shared q)
    (hpc : q.pc = .truncate s) (hcareful : Careful shared q io) :
    Compacting profile now (flushStep profile shared q io).1 (flushStep profile shared q io).2 := by
  obtain ⟨base, log, hdisk, hreplay⟩ := h.renamed s hpc
  have hothers : ∀ t : DbSection, t ≠ s → t.Holds profile (shared.files t) (now t) :=
    fun t hts => h.holds t (by rw [hpc]; rintro ⟨⟩; exact hts rfl)
  have hread : ∀ t : DbSection, s.index < t.index → t.find (q.dbDisk t) = now t :=
    fun t ht => h.log_read t (by rw [hpc]; exact Nat.le_of_lt ht)
  unfold Careful at hcareful
  rw [hpc] at hcareful
  unfold flushStep
  rw [hpc]
  cases io with
  | ok =>
      refine @go_on profile _ q now s q.errors (fun t => ?_) hread
      show t.Holds profile (Function.update shared.files s _ t) (now t)
      by_cases hts : t = s
      · subst hts
        rw [Function.update_self]
        exact ⟨now t, [], hdisk.truncate, rfl⟩
      · rw [Function.update_of_ne hts]
        exact hothers t hts
  | failed message written =>
      refine .go_on (fun t => ?_) hread
      by_cases hts : t = s
      · subst hts
        exact hdisk.repeated hreplay (hcareful.resolve_left nofun)
      · exact hothers t hts

/-- A careful step that appends nothing. -/
theorem Compacting.step (h : Compacting profile now shared q)
    (hsmall : ∀ (s : DbSection) (contents : s.Contents), s.find contents = now s →
      s.Small contents)
    (happend : ∀ s, q.pc ≠ .append s) (hcareful : Careful shared q io) :
    Compacting profile now (flushStep profile shared q io).1 (flushStep profile shared q io).2 := by
  cases hpc : q.pc with
  | append s => exact absurd hpc (happend s)
  | readBin s => exact h.read_bin hpc hcareful
  | readLog s => exact h.read_log hpc hcareful
  | writeTmp s => exact h.write_tmp hpc
  | rename s => exact h.rename hpc (hsmall s)
  | truncate s => exact h.truncate hpc hcareful
  | createDir | lock | lockStat | lockRemove | stat | unlock | done | panicked =>
      exact h.quiet (by rw [hpc]; exact trivial)

/-- Once the records are appended they stay so. -/
theorem has_appended_names_step (h : q.pc.HasAppended .names) :
    (flushStep profile shared q io).2.pc.HasAppended .names := by
  unfold flushStep
  cases hpc : q.pc with
  | createDir => rw [hpc] at h; exact h.elim
  | lock attempt => rw [hpc] at h; exact h.elim
  | lockStat attempt => rw [hpc] at h; exact h.elim
  | lockRemove attempt => rw [hpc] at h; exact h.elim
  | append t =>
      rw [hpc] at h
      cases t <;> exact absurd h (by simp [FlushPc.HasAppended, DbSection.index])
  | stat t => exact FlushPc.has_appended_after_stat
  | readBin t => exact trivial
  | readLog t =>
      show (loadLog profile shared q t io).2.pc.HasAppended .names
      unfold loadLog
      dsimp only
      split
      · exact FlushPc.has_appended_after_load
      · exact trivial
  | writeTmp t =>
      cases io with
      | ok => exact trivial
      | failed message written => exact FlushPc.has_appended_after_compaction
  | rename t =>
      cases io with
      | ok => exact trivial
      | failed message written => exact FlushPc.has_appended_after_compaction
  | truncate t => cases io <;> exact FlushPc.has_appended_after_compaction
  | unlock =>
      show (unlock shared q io).2.pc.HasAppended .names
      unfold unlock
      split <;> exact trivial
  | done result => exact h
  | panicked message => exact h

/-- The steps of a process that are careful. -/
inductive CarefulRun (profile : BuildProfile) (first : SharedDir × FlushProcess) :
    SharedDir × FlushProcess → Prop
  | start : CarefulRun profile first first
  | step {shared : SharedDir} {q : FlushProcess} {io : IoResult} :
      CarefulRun profile first (shared, q) → Careful shared q io →
      CarefulRun profile first (flushStep profile shared q io)

/-- A step that succeeds is careful. -/
theorem careful_ok : Careful shared q .ok := by
  unfold Careful
  cases q.pc <;> first | exact .inl rfl | exact trivial

/-- A rename may fail. -/
theorem careful_rename {s : DbSection} (hpc : q.pc = .rename s) : Careful shared q io := by
  unfold Careful
  rw [hpc]
  exact trivial

/-- Steps that succeed are careful. -/
theorem CarefulRun.ok_steps {first state : SharedDir × FlushProcess}
    (h : CarefulRun profile first state) (count : Nat) :
    CarefulRun profile first (steps profile state (List.replicate count .ok)) := by
  induction count generalizing state with
  | zero => exact h
  | succ count ih => exact ih (h.step careful_ok)

/-- The invariant in a run of careful steps after the appends. -/
theorem Compacting.run {first last : SharedDir × FlushProcess}
    (h : Compacting profile now first.1 first.2) (happended : first.2.pc.HasAppended .names)
    (hsmall : ∀ (s : DbSection) (contents : s.Contents), s.find contents = now s →
      s.Small contents)
    (hrun : CarefulRun profile first last) :
    Compacting profile now last.1 last.2 ∧ last.2.pc.HasAppended .names := by
  induction hrun with
  | start => exact ⟨h, happended⟩
  | @step shared q io hrun hcareful ih =>
      obtain ⟨hcompacting, hnames⟩ := ih
      refine ⟨hcompacting.step hsmall (fun s hpc => ?_) hcareful, has_appended_names_step hnames⟩
      rw [hpc] at hnames
      cases s <;> exact absurd hnames (by simp [FlushPc.HasAppended, DbSection.index])

/-- A process may stop unless it leaves a log that must not be applied once more. -/
def MayStop (shared : SharedDir) (q : FlushProcess) : Prop :=
  ∀ s : DbSection, q.pc = .truncate s → s.Repeatable (shared.files s)

/-- The files of a process that may stop. -/
theorem Compacting.stop (h : Compacting profile now shared q) (hstop : MayStop shared q)
    (s : DbSection) : s.Holds profile (shared.files s) (now s) := by
  by_cases hpc : q.pc = .truncate s
  · obtain ⟨base, log, hdisk, hreplay⟩ := h.renamed s hpc
    exact hdisk.repeated hreplay (hstop s hpc)
  · exact h.holds s hpc

end FlushProcess

namespace DurationDb

variable {profile : BuildProfile}

/-! ## Completed flushes -/

/-- What completed flushes leave in a directory: they append storable records to the logs, and
compact what they load. -/
inductive Flushed (profile : BuildProfile) : DbFiles → Prop
  | empty : Flushed profile noFiles
  | append {files : DbFiles} {s : DbSection} {batch : List s.Record} {contents : s.Contents} :
      Flushed profile files → (∀ record ∈ batch, s.StorableRecord record) →
      s.load profile (appendRecords s (files s) batch) = .ok contents →
      Flushed profile (Function.update files s (appendRecords s (files s) batch))
  | compact {files : DbFiles} {dir : String} {disk : DurationDb} :
      Flushed profile files → load profile dir files = .ok disk →
      (∀ s : DbSection, s.Small (disk.contents s)) →
      Flushed profile (fun s => ⟨some (s.writeBin (disk.contents s)), some []⟩)

/-- Something is found in the files. -/
theorem Flushed.holds {files : DbFiles} (h : Flushed profile files) (s : DbSection) :
    ∃ found, s.Holds profile (files s) found := by
  induction h with
  | empty => exact ⟨fun _ => none, fun _ => none, [], s.on_disk_none, rfl⟩
  | @append files t batch contents hfiles hbatch hload ih =>
      by_cases hst : s = t
      · subst hst
        obtain ⟨found, base, log, hdisk, -⟩ := ih
        have hreplay := @DbSection.OnDisk.load profile _ _ _ _ (hdisk.append hbatch)
        rw [hload] at hreplay
        rw [Function.update_self]
        exact ⟨s.find contents, base, log ++ batch, hdisk.append hbatch, hreplay.symm⟩
      · rw [Function.update_of_ne hst]
        exact ih
  | @compact files dir disk hfiles hload hsmall ih =>
      obtain ⟨found, hfound⟩ := ih
      obtain ⟨contents, hcontents, rfl⟩ := hfound.load
      rw [FlushProcess.load_sections hload s] at hcontents
      cases hcontents
      exact ⟨_, hfound.compact (hsmall s)⟩

/-- The appends of a flush. -/
theorem Flushed.appended {files : DbFiles} {db : DurationDb}
    {contents : (s : DbSection) → s.Contents}
    (h : Flushed profile files)
    (hstorable : ∀ s : DbSection, ∀ record ∈ db.pending s, s.StorableRecord record)
    (hload : ∀ s : DbSection,
      s.load profile (FlushProcess.appendedFiles files db s) = .ok (contents s)) :
    Flushed profile (FlushProcess.appendedFiles files db) := by
  have hperf := h.append (hstorable .perf) (hload .perf)
  have hflake := @Flushed.append profile _ .flake _ _ hperf (hstorable .flake) (hload .flake)
  have hnames := @Flushed.append profile _ .names _ _ hflake (hstorable .names) (hload .names)
  rw [FlushProcess.update_sections] at hnames
  refine cast (congrArg (Flushed profile) (funext fun s => ?_)) hnames
  cases s <;> rfl

/-- A flush whose file operations succeed is one of them. -/
theorem Flushed.flush {files nextFiles : DbFiles} {db disk next : DurationDb}
    (h : Flushed profile files) (hdir : db.dir.isEmpty = false)
    (hstorable : ∀ s : DbSection, ∀ record ∈ db.pending s, s.StorableRecord record)
    (hload : load profile db.dir (FlushProcess.appendedFiles files db) = .ok disk)
    (hsmall : ∀ s : DbSection, s.Small (disk.contents s))
    (hflush : flush profile files db = .ok (nextFiles, next)) : Flushed profile nextFiles := by
  have happended := h.appended hstorable (FlushProcess.load_sections hload)
  obtain ⟨-, ⟨-, rfl⟩ | ⟨-, compacted, hcompacted, rfl⟩⟩ := FlushProcess.flush_cases hdir hflush
  · exact happended
  · cases hload.symm.trans hcompacted
    exact happended.compact hload hsmall

/-! ## Stopping -/

/-- Two stores that answer every question alike. -/
structure SameAnswers (profile : BuildProfile) (db other : DurationDb) : Prop where
  estimate_eq : ∀ env key, db.estimateByKey env key = other.estimateByKey env key
  flake_eq : ∀ env key, db.getFlakeRecord profile env key = other.getFlakeRecord profile env key
  name_eq : ∀ key, db.names.lookup key = other.names.lookup key

/-- Stores in which the same is found answer alike. -/
theorem Same.answers {db other : DurationDb} (h : db.Same other) :
    db.SameAnswers profile other := by
  have hperf : ∀ env key, (db.perf env).lookup key = (other.perf env).lookup key :=
    fun env key => congrFun (h .perf) (env, key)
  have hflake : ∀ env key, (db.flake env).lookup key = (other.flake env).lookup key :=
    fun env key => congrFun (h .flake) (env, key)
  have hsamples : ∀ env key, db.getPerfSamples env key = other.getPerfSamples env key := by
    intro env key
    unfold getPerfSamples
    simp only [hperf]
  refine ⟨fun env key => ?_, fun env key => ?_, fun key => congrFun (h .names) key⟩
  · unfold estimateByKey
    rw [hsamples]
  · unfold getFlakeRecord
    simp only [hflake]

/-- A compaction that is careful may fail or stop: the files are loaded as the same store as
before it started. -/
theorem careful_compaction_keeps_answers {files : DbFiles} (hfiles : Flushed profile files)
    (hsmall : ∀ (s : DbSection) (contents : s.Contents), s.load profile (files s) = .ok contents →
      s.Small contents)
    {shared last : SharedDir} {p q : FlushProcess} (hshared : shared.files = files)
    (hpc : p.pc = .readBin .perf)
    (hrun : FlushProcess.CarefulRun profile (shared, p) (last, q))
    (hstop : FlushProcess.MayStop last q) (dir : String) :
    ∃ before after, load profile dir files = .ok before ∧ load profile dir last.files = .ok after ∧
      after.SameAnswers profile before := by
  choose found hfound using hfiles.holds
  obtain ⟨before, hbefore, -, -, hload⟩ := load_eq_ok dir hfound
  have hfound' : ∀ s : DbSection, s.Holds profile (shared.files s) (found s) := by
    rw [hshared]
    exact hfound
  have hfirst : FlushProcess.Compacting profile found shared p := by
    refine .of_outside hfound' fun s mark => ?_
    rw [FlushProcess.phase, hpc]
    simp [FlushPc.phase, DbSection.index]
  have hnames : p.pc.HasAppended .names := by
    rw [hpc]
    exact trivial
  have hsmall' : ∀ (s : DbSection) (contents : s.Contents), s.find contents = found s →
      s.Small contents := by
    intro s contents hcontents
    obtain ⟨loaded, hloaded, hsame⟩ := (hfound s).load
    exact (hsmall s loaded hloaded).of_find_eq (hcontents.trans hsame.symm)
  obtain ⟨hlast, -⟩ := hfirst.run hnames hsmall' hrun
  obtain ⟨after, hafter, -, -, hloadAfter⟩ := load_eq_ok dir (hlast.stop hstop)
  exact ⟨before, after, hbefore, hafter,
    Same.answers fun s => (hloadAfter s).trans (hload s).symm⟩

/-- A sample is appended, and its compaction cannot rename the temporary file. -/
theorem failed_rename_keeps_answers :
    let files : DbFiles :=
      Function.update noFiles .perf (appendRecords .perf (noFiles .perf) [⟨.local, 1, 0, 5⟩])
    let first : FlushProcess := { FlushProcess.start (sampledStore []) with pc := .readBin .perf }
    let last := FlushProcess.steps ⟨true⟩ (⟨0, none, files⟩, first)
      (List.replicate 7 .ok ++ [.failed "Input/output error" 0])
    last.2.errors = ["compact perf.bin: Input/output error"] ∧
      ∃ before after, load ⟨true⟩ "quokka" files = .ok before ∧
        load ⟨true⟩ "quokka" last.1.files = .ok after ∧ after.SameAnswers ⟨true⟩ before := by
  intro files first last
  have hfiles : Flushed ⟨true⟩ files :=
    Flushed.empty.append (fun _ _ => trivial) rfl
  have hdisk : ∀ s : DbSection, s.OnDisk (files s) (fun _ => none)
      ((sampledStore [⟨.local, 1, 0, 5⟩]).pending s) := by
    intro s
    cases s with
    | perf =>
        exact @DbSection.OnDisk.append .perf ⟨none, none⟩ _ _ [⟨.local, 1, 0, 5⟩]
          (DbSection.on_disk_none .perf) fun _ _ => trivial
    | flake => exact DbSection.on_disk_none .flake
    | names => exact DbSection.on_disk_none .names
  have hsmall : ∀ (s : DbSection) (contents : s.Contents),
      s.load ⟨true⟩ (files s) = .ok contents → s.Small contents := by
    intro s contents hcontents
    refine (hdisk s).small hcontents ?_
    cases s <;> decide
  -- Seven operations load the sections and write the temporary file.
  choose found hfound using hfiles.holds
  choose contents hcontents _ using fun s => (hfound s).load
  let written : FlushProcess :=
    { first with
      pc := .rename .perf
      base := fun s => s.readBin (files s).bin
      dbDisk := contents
      tmp := DbSection.writeBin .perf (contents .perf) }
  have hwritten : FlushProcess.steps ⟨true⟩ (⟨0, none, files⟩, first) (List.replicate 7 .ok) =
      (⟨0, none, files⟩, written) :=
    FlushProcess.steps_then (FlushProcess.steps_load rfl hcontents) [.ok]
  have hlast : last = flushStep ⟨true⟩ ⟨0, none, files⟩ written
      (.failed "Input/output error" 0) :=
    FlushProcess.steps_then hwritten [.failed "Input/output error" 0]
  have hrun : FlushProcess.CarefulRun ⟨true⟩ (⟨0, none, files⟩, first) last := by
    have hloaded : FlushProcess.CarefulRun ⟨true⟩ (⟨0, none, files⟩, first)
        (FlushProcess.steps ⟨true⟩ (⟨0, none, files⟩, first) (List.replicate 7 .ok)) :=
      FlushProcess.CarefulRun.start.ok_steps 7
    rw [hwritten] at hloaded
    rw [hlast]
    exact hloaded.step (FlushProcess.careful_rename rfl)
  have hstop : FlushProcess.MayStop last.1 last.2 := by
    rw [hlast]
    nofun
  refine ⟨?_, careful_compaction_keeps_answers hfiles hsmall rfl rfl hrun hstop "quokka"⟩
  rw [hlast]
  rfl

/-! ## Stopping between the rename and the truncation -/

/-- The flake record that a query of one environment finds. -/
theorem get_flake_record_of_lookup {db : DurationDb} {env : Environment} {key : UInt64} {n : UInt64}
    (h : (db.flake env).lookup key = some ⟨n, 0, none, none⟩) :
    db.getFlakeRecord ⟨false⟩ (some env) key = .ok (some ⟨0 + n, 0 + 0, none, none⟩) := by
  unfold getFlakeRecord environments
  simp only [List.filterMap_cons, h, List.filterMap_nil]
  rfl

/-- A store with new samples, and a run of a test with another key. -/
def sampledRunStore (samples : List PerfSample) : DurationDb :=
  { sampledStore samples with newFlakeRecords := [⟨.local, 7, false, none, 0⟩] }

/-- The files after a compaction of the samples and the rename of the flake section. -/
def renamedFiles (files : DbFiles) (contents : (s : DbSection) → s.Contents) : DbFiles :=
  Function.update
    (Function.update files .perf ⟨some (DbSection.writeBin .perf (contents .perf)), some []⟩)
    .flake { files .flake with bin := some (DbSection.writeBin .flake (contents .flake)) }

/-- Fourteen operations append and load, three compact the samples and two replace the counters. -/
theorem steps_to_flake_rename {old : List PerfSample}
    (hlarge : compactionThreshold < 25 * old.length) {contents : (s : DbSection) → s.Contents}
    (hcontents : ∀ s : DbSection,
      s.load ⟨false⟩ (FlushProcess.appendedFiles noFiles (sampledRunStore old) s) =
        .ok (contents s)) :
    let stopped :=
      FlushProcess.steps ⟨false⟩ (emptyDir, .start (sampledRunStore old)) (List.replicate 19 .ok)
    stopped.1.files =
        renamedFiles (FlushProcess.appendedFiles noFiles (sampledRunStore old)) contents ∧
      stopped.2.pc = .truncate .flake := by
  intro stopped
  let files := FlushProcess.appendedFiles noFiles (sampledRunStore old)
  have hdir : (sampledRunStore old).dir.isEmpty = false := by
    show "quokka".isEmpty = false
    decide
  let loaded : FlushProcess :=
    { FlushProcess.start (sampledRunStore old) with
      pc := .writeTmp .perf
      pending := fun _ => []
      lockAcquired := true
      large := true
      base := fun s => s.readBin (files s).bin
      dbDisk := contents }
  have hload : FlushProcess.steps ⟨false⟩ (emptyDir, .start (sampledRunStore old))
      (List.replicate 14 .ok) = (⟨0, some 0, files⟩, loaded) :=
    FlushProcess.steps_to_compaction hdir rfl (needs_compaction_of_large hlarge rfl) hcontents
  have hcompact := FlushProcess.steps_then
    (@FlushProcess.steps_compact ⟨false⟩ ⟨0, some 0, files⟩ loaded .perf rfl) [.ok, .ok]
  have hlast : stopped = _ :=
    (FlushProcess.steps_then hload (List.replicate 5 .ok)).trans hcompact
  rw [hlast]
  exact ⟨rfl, rfl⟩

/-- The flake table that holds `n` runs of the test with the key 7. -/
def countedRuns (n : UInt64) : Environment × UInt64 → Option FlakeRecord :=
  Function.update (fun _ => none) (.local, 7) (some ⟨n, 0, none, none⟩)

/-- What the sections hold when the runs are counted and the samples are given. -/
def foundWith (perf : Environment × UInt64 → Option PerfRecord) (n : UInt64) (s : DbSection) :
    s.Key → Option s.Value :=
  @DbSection.each (fun s => s.Key → Option s.Value) perf (countedRuns n) (fun _ => none) s

section SampledRun

variable (old : List PerfSample)

theorem sampled_run_storable :
    ∀ s : DbSection, ∀ record ∈ (sampledRunStore old).pending s, s.StorableRecord record := by
  intro s record hrecord
  cases s with
  | perf => exact trivial
  | flake =>
      rw [List.mem_singleton.mp hrecord]
      exact (by decide : (0 : UInt64) ≠ noTimestamp)
  | names => cases hrecord

theorem sampled_run_on_disk (s : DbSection) :
    s.OnDisk (FlushProcess.appendedFiles noFiles (sampledRunStore old) s) (fun _ => none)
      ((sampledRunStore old).pending s) :=
  s.on_disk_none.append (sampled_run_storable old s)

theorem appended_run_once :
    (DbSection.update ⟨false⟩ .flake).replay (fun _ => none)
      ((sampledRunStore old).pending .flake) = .ok (countedRuns 1) := rfl

theorem appended_run_twice :
    (DbSection.update ⟨false⟩ .flake).replay (countedRuns 1)
      ((sampledRunStore old).pending .flake) = .ok (countedRuns 2) :=
  congrArg Except.ok (Function.update_idem _ _ _)

end SampledRun

/-- A process replaces the base file of the flake section and stops: the run that the log still
holds is counted twice. -/
theorem stopped_flake_compaction {old : List PerfSample}
    (hlarge : compactionThreshold < 25 * old.length) (hcount : old.length < 2 ^ 32) :
    let store := sampledRunStore old
    let files := FlushProcess.appendedFiles noFiles store
    let stopped :=
      FlushProcess.steps ⟨false⟩ (emptyDir, .start store) (List.replicate 19 .ok)
    Flushed ⟨false⟩ files ∧ stopped.2.pc = .truncate .flake ∧
      ∃ before after, load ⟨false⟩ "quokka" files = .ok before ∧
        load ⟨false⟩ "quokka" stopped.1.files = .ok after ∧
        ¬after.SameAnswers ⟨false⟩ before := by
  intro store files stopped
  have hdisk := sampled_run_on_disk old
  -- The appended files can be loaded.
  obtain ⟨perf, hperf⟩ : ∃ perf, DbSection.load ⟨false⟩ .perf (files .perf) = .ok perf :=
    ⟨_, List.foldlM_pure⟩
  have hbefore : ∀ s : DbSection,
      s.Holds ⟨false⟩ (files s) (foundWith (DbSection.find .perf perf) 1 s) := by
    intro s
    cases s with
    | perf =>
        have hreplay := @DbSection.OnDisk.load ⟨false⟩ _ _ _ _ (hdisk .perf)
        rw [hperf] at hreplay
        exact ⟨_, _, hdisk .perf, hreplay.symm⟩
    | flake => exact ⟨_, _, hdisk .flake, appended_run_once old⟩
    | names => exact ⟨_, _, hdisk .names, rfl⟩
  choose contents hcontents hfind using fun s => (hbefore s).load
  obtain ⟨hfiles, hpc⟩ := steps_to_flake_rename hlarge hcontents
  -- The renamed base file counts the run, and the log counts it once more.
  have hafter : ∀ s : DbSection, s.Holds ⟨false⟩ (renamedFiles files contents s)
      (foundWith (DbSection.find .perf perf) 2 s) := by
    intro s
    cases s with
    | perf =>
        have hsmall := (hdisk .perf).small (hcontents .perf) hcount
        have hholds := hbefore .perf
        rw [← hfind .perf] at hholds
        have hcompacted := hholds.compact hsmall
        rw [hfind .perf] at hcompacted
        exact hcompacted
    | flake =>
        have hsmall := (hdisk .flake).small (hcontents .flake) (show 1 < 2 ^ 32 by decide)
        have hstored : DbSection.Storable .flake (DbSection.find .flake (contents .flake)) := by
          rw [hfind .flake]
          exact (hbefore .flake).storable
        have hreplaced := (hdisk .flake).rename hstored hsmall
        rw [hfind .flake] at hreplaced
        exact ⟨countedRuns 1, store.pending .flake, hreplaced, appended_run_twice old⟩
    | names => exact hbefore .names
  obtain ⟨before, hloadBefore, -, -, hsameBefore⟩ := load_eq_ok "quokka" hbefore
  obtain ⟨after, hloadAfter, -, -, hsameAfter⟩ := load_eq_ok "quokka" hafter
  refine ⟨Flushed.empty.appended (sampled_run_storable old) hcontents, hpc, before, after,
    hloadBefore, ?_, fun hsame => ?_⟩
  · rw [hfiles]
    exact hloadAfter
  · have hflake := hsame.flake_eq (some .local) 7
    rw [get_flake_record_of_lookup (congrFun (hsameBefore .flake) (.local, 7)),
      get_flake_record_of_lookup (congrFun (hsameAfter .flake) (.local, 7))] at hflake
    exact absurd (Option.some.inj (Except.ok.inj hflake)) (by decide)

end DurationDb

/-- Enough samples for a compaction and one run of another test, which is found twice when the
process stops after it replaced the base file of the flake section. -/
theorem stopped_compaction_counts_twice :
    let store := DurationDb.sampledRunStore (List.replicate 20972 ⟨.local, 1, 0, 5⟩)
    let files := FlushProcess.appendedFiles DurationDb.noFiles store
    let stopped :=
      FlushProcess.steps ⟨false⟩ (emptyDir, .start store) (List.replicate 19 .ok)
    DurationDb.Flushed ⟨false⟩ files ∧ stopped.2.pc = .truncate .flake ∧
      ∃ before after, DurationDb.load ⟨false⟩ "quokka" files = .ok before ∧
        DurationDb.load ⟨false⟩ "quokka" stopped.1.files = .ok after ∧
        ¬after.SameAnswers ⟨false⟩ before :=
  @DurationDb.stopped_flake_compaction (List.replicate 20972 ⟨.local, 1, 0, 5⟩)
    (by rw [List.length_replicate]; decide) (by rw [List.length_replicate]; decide)

end Quokka
