import Quokka.DurationDb.Crash

/-!
# Appends that fail half way

A flush whose append to a log fails keeps the records of that section, and a later flush of the
same store appends them again from the start. Whether the bytes that the failed append has
already written do harm depends on what they are (`DbSection.HarmlessTear`).

`FlushProcess.FlushRun` is a flush in which nothing but appends fails, and `StoreRun` the history
of a store that records and flushes. `Kept` says which records are pending after which failures,
and `Covered` that the files and the pending records together hold everything that was recorded.
-/

namespace Quokka

namespace DbSection

variable {profile : BuildProfile} {s : DbSection}

/-- What a failed append has written may be followed by all its records: it has written nothing,
or some of the records whole, and they are names. -/
def HarmlessTear (s : DbSection) (pending : List s.Record) (written : Nat) : Prop :=
  ∃ batch, batch <+: pending ∧
    (pending.flatMap s.logBytes).take written = batch.flatMap s.logBytes ∧
    (batch = [] ∨ s = .names)

/-- The files after an append that failed. -/
def tornFiles (s : DbSection) (files : SectionFiles) (pending : List s.Record) (written : Nat) :
    SectionFiles :=
  { files with
    log := if written = 0 then files.log
      else some (files.log.getD [] ++ (pending.flatMap s.logBytes).take written) }

/-- Records that were written whole extend the log. -/
theorem OnDisk.torn {files : SectionFiles} {base : s.Key → Option s.Value}
    {log batch pending : List s.Record} {written : Nat} (h : s.OnDisk files base log)
    (hbatch : ∀ record ∈ batch, s.StorableRecord record)
    (hwritten : (pending.flatMap s.logBytes).take written = batch.flatMap s.logBytes) :
    s.OnDisk (s.tornFiles files pending written) base (log ++ batch) where
  base_eq := h.base_eq
  base_storable := h.base_storable
  log_eq := by
    have hbytes : (s.tornFiles files pending written).log.getD [] =
        files.log.getD [] ++ (pending.flatMap s.logBytes).take written := by
      unfold tornFiles
      dsimp only
      split
      case isTrue hzero => rw [hzero, List.take_zero, List.append_nil]
      case isFalse => rfl
    rw [hbytes, hwritten, h.log_eq, List.flatMap_append]
  log_storable := by
    intro record hrecord
    rcases List.mem_append.mp hrecord with hold | hnew
    · exact h.log_storable record hold
    · exact hbatch record hnew

/-- After a harmless failure the pending records lead to the same contents as before. -/
theorem Holds.torn {files : SectionFiles} {now full : s.Key → Option s.Value}
    {pending : List s.Record} {written : Nat} (h : s.Holds profile files now)
    (hpending : ∀ record ∈ pending, s.StorableRecord record)
    (hfull : (s.update profile).replay now pending = .ok full)
    (hharmless : s.HarmlessTear pending written) :
    ∃ batch next, batch <+: pending ∧ (s.update profile).replay now batch = .ok next ∧
      s.Holds profile (s.tornFiles files pending written) next ∧
      (s.update profile).replay next pending = .ok full := by
  obtain ⟨batch, ⟨rest, rfl⟩, hwritten, hagain⟩ := hharmless
  rw [KeyedUpdate.replay_append] at hfull
  obtain ⟨next, hnext, hrest⟩ := Except.bind_eq_ok.mp hfull
  refine ⟨batch, next, ⟨rest, rfl⟩, hnext, ?_, ?_⟩
  · obtain ⟨base, log, hdisk, hreplay⟩ := h
    refine ⟨base, log ++ batch, hdisk.torn (fun record hrecord =>
      hpending record (List.mem_append_left _ hrecord)) hwritten, ?_⟩
    rw [KeyedUpdate.replay_append, hreplay]
    exact hnext
  · rw [KeyedUpdate.replay_append]
    rcases hagain with rfl | rfl
    · cases hnext
      exact hrest
    · rw [(DbSection.update profile .names).replay_again (fun _ _ => rfl) hnext]
      exact hrest

end DbSection

namespace FlushProcess

variable {profile : BuildProfile} {shared : SharedDir} {q : FlushProcess} {io : IoResult}
  {db : DurationDb} {failed : List (DbSection × Nat)}

/-! ## Runs -/

/-- The file operations whose failure is not about an append succeed. Taking the lock, the sizes
of the logs and removing the lock may fail. -/
def NoOtherFailure (q : FlushProcess) (io : IoResult) : Prop :=
  match q.pc with
  | .createDir => io = .ok
  | .readBin _ => io = .ok
  | .readLog _ => io = .ok
  | .writeTmp _ => io = .ok
  | .rename _ => io = .ok
  | .truncate _ => io = .ok
  | _ => True

/-- The section whose append fails, and how many bytes it has written. -/
def failedAppend (q : FlushProcess) (io : IoResult) : List (DbSection × Nat) :=
  match q.pc, io with
  | .append s, .failed _ written => if (q.pending s).isEmpty then [] else [(s, written)]
  | _, _ => []

/-- A flush of a store in which nothing but appends fails, with the appends that failed. Only the
clock and the lock file change between its steps. -/
inductive FlushRun (profile : BuildProfile) (files : DbFiles) (db : DurationDb) :
    SharedDir → FlushProcess → List (DbSection × Nat) → Prop
  | start (clock : Nat) (lock : Option Nat) :
      FlushRun profile files db ⟨clock, lock, files⟩ (FlushProcess.start db) []
  | wait {shared : SharedDir} {q : FlushProcess} {failed : List (DbSection × Nat)}
      (clock : Nat) (lock : Option Nat) :
      FlushRun profile files db shared q failed →
      FlushRun profile files db { shared with clock, lock } q failed
  | step {shared : SharedDir} {q : FlushProcess} {failed : List (DbSection × Nat)}
      (io : IoResult) :
      FlushRun profile files db shared q failed → NoOtherFailure q io →
      FlushRun profile files db (flushStep profile shared q io).1
        (flushStep profile shared q io).2 (failed ++ failedAppend q io)

theorem no_other_failure_ok : NoOtherFailure q .ok := by
  unfold NoOtherFailure
  cases q.pc <;> first | rfl | exact trivial

theorem no_other_failure_append {s : DbSection} (hpc : q.pc = .append s) :
    NoOtherFailure q io := by
  unfold NoOtherFailure
  rw [hpc]
  exact trivial

theorem failed_append_ok : failedAppend q .ok = [] := by
  unfold failedAppend
  cases q.pc <;> rfl

/-- Steps that succeed. -/
theorem FlushRun.ok_steps {files : DbFiles} (h : FlushRun profile files db shared q failed)
    (count : Nat) :
    FlushRun profile files db (steps profile (shared, q) (List.replicate count .ok)).1
      (steps profile (shared, q) (List.replicate count .ok)).2 failed := by
  induction count generalizing shared q with
  | zero => exact h
  | succ count ih =>
      have hstep := h.step .ok no_other_failure_ok
      rw [failed_append_ok, List.append_nil] at hstep
      exact ih hstep

/-! ## What is pending -/

theorem after_attempt_ne_done {attempt : Nat} {result : Except String Unit} :
    afterAttempt attempt ≠ .done result := by
  unfold afterAttempt
  split <;> nofun

/-- A step outside the appends. -/
structure Elsewhere (q next : FlushProcess) : Prop where
  pending_eq : next.pending = q.pending
  errors_eq : next.errors = q.errors
  has_appended : ∀ s, next.pc.HasAppended s ↔ q.pc.HasAppended s
  done : ∀ result, next.pc = .done result → q.pc = .done result ∨ result = flushResult q.errors

theorem elsewhere_try_lock {attempt : Nat} (hpc : q.pc = .lock attempt) :
    Elsewhere q (tryLock shared q attempt io).2 := by
  have hnone : ∀ s, ¬q.pc.HasAppended s := fun s => by rw [hpc]; exact id
  unfold tryLock
  split
  · exact ⟨rfl, rfl, fun s => iff_of_false FlushPc.not_has_appended_append_perf (hnone s), nofun⟩
  · exact ⟨rfl, rfl, fun s => iff_of_false id (hnone s), nofun⟩
  · exact ⟨rfl, rfl, fun s => iff_of_false FlushPc.not_has_appended_append_perf (hnone s), nofun⟩

/-- Before the next attempt to lock nothing is appended. -/
theorem elsewhere_after_attempt {attempt : Nat} (hnone : ∀ s, ¬q.pc.HasAppended s) :
    Elsewhere q { q with pc := afterAttempt attempt } :=
  ⟨rfl, rfl, fun s => iff_of_false FlushPc.not_has_appended_after_attempt (hnone s),
    fun _ hdone => absurd hdone after_attempt_ne_done⟩

theorem elsewhere_stat_lock {attempt : Nat} (hpc : q.pc = .lockStat attempt) :
    Elsewhere q (statLock shared q attempt io).2 := by
  have hnone : ∀ s, ¬q.pc.HasAppended s := fun s => by rw [hpc]; exact id
  unfold statLock
  split
  · split
    · exact ⟨rfl, rfl, fun s => iff_of_false id (hnone s), nofun⟩
    · exact elsewhere_after_attempt hnone
  · exact elsewhere_after_attempt hnone

theorem elsewhere_load_log {s : DbSection} (hpc : q.pc = .readLog s) :
    Elsewhere q (loadLog profile shared q s io).2 := by
  have hall : ∀ t, q.pc.HasAppended t := fun t => by rw [hpc]; exact trivial
  unfold loadLog
  dsimp only
  split
  · refine ⟨rfl, rfl, fun t => iff_of_true FlushPc.has_appended_after_load (hall t), ?_⟩
    cases s <;> nofun
  · exact ⟨rfl, rfl, fun t => iff_of_true trivial (hall t), nofun⟩

theorem elsewhere_unlock (hpc : q.pc = .unlock) : Elsewhere q (unlock shared q io).2 := by
  have hall : ∀ t, q.pc.HasAppended t := fun t => by rw [hpc]; exact trivial
  have hresult : ∀ result, FlushPc.done (flushResult q.errors) = .done result →
      q.pc = .done result ∨ result = flushResult q.errors :=
    fun result hdone => .inr (FlushPc.done.inj hdone).symm
  unfold unlock
  split <;> exact ⟨rfl, rfl, fun t => iff_of_true trivial (hall t), hresult⟩

theorem elsewhere_of_not_append (happend : ∀ s, q.pc ≠ .append s) (hio : NoOtherFailure q io) :
    Elsewhere q (flushStep profile shared q io).2 := by
  unfold NoOtherFailure at hio
  unfold flushStep
  cases hpc : q.pc with
  | createDir =>
      rw [hpc] at hio
      subst hio
      exact ⟨rfl, rfl, fun _ => by rw [hpc]; exact Iff.rfl, nofun⟩
  | lock attempt => exact elsewhere_try_lock hpc
  | lockStat attempt => exact elsewhere_stat_lock hpc
  | lockRemove attempt =>
      have hnone : ∀ s, ¬q.pc.HasAppended s := fun s => by rw [hpc]; exact id
      cases io <;> exact elsewhere_after_attempt hnone
  | append s => exact absurd hpc (happend s)
  | stat s =>
      have hall : ∀ t, q.pc.HasAppended t := fun t => by rw [hpc]; exact trivial
      refine ⟨rfl, rfl, fun t => iff_of_true FlushPc.has_appended_after_stat (hall t),
        fun result hdone => ?_⟩
      have hgoes : ∀ large, afterStat s large ≠ .done result := by
        intro large
        cases s <;> cases large <;> nofun
      exact absurd hdone (hgoes _)
  | readBin s => exact ⟨rfl, rfl, fun t => by rw [hpc]; exact Iff.rfl, nofun⟩
  | readLog s => exact elsewhere_load_log hpc
  | writeTmp s =>
      rw [hpc] at hio
      subst hio
      exact ⟨rfl, rfl, fun _ => by rw [hpc]; exact Iff.rfl, nofun⟩
  | rename s =>
      rw [hpc] at hio
      subst hio
      exact ⟨rfl, rfl, fun _ => by rw [hpc]; exact Iff.rfl, nofun⟩
  | truncate s =>
      rw [hpc] at hio
      subst hio
      have hall : ∀ t, q.pc.HasAppended t := fun t => by rw [hpc]; exact trivial
      refine ⟨rfl, rfl, fun t => iff_of_true FlushPc.has_appended_after_compaction (hall t), ?_⟩
      cases s <;> nofun
  | unlock => exact elsewhere_unlock hpc
  | done result => exact ⟨rfl, rfl, fun _ => Iff.rfl, fun _ hdone => .inl hdone⟩
  | panicked message => exact ⟨rfl, rfl, fun _ => Iff.rfl, fun _ hdone => .inl hdone⟩

/-- Which records are pending and which errors were met, after some appends failed. -/
structure Kept (db : DurationDb) (q : FlushProcess) (failed : List (DbSection × Nat)) : Prop where
  kept : ∀ s : DbSection, ¬q.pc.HasAppended s ∨ s ∈ failed.map Prod.fst →
    q.pending s = db.pending s
  cleared : ∀ s : DbSection, q.pc.HasAppended s → s ∉ failed.map Prod.fst → q.pending s = []
  appended : ∀ s ∈ failed.map Prod.fst, q.pc.HasAppended s
  errors_eq : q.errors = [] ↔ failed = []
  result_eq : ∀ result, q.pc = .done result → result = flushResult q.errors

/-- What the append of a section does. -/
theorem append_cases {s : DbSection} (hpc : q.pc = .append s) :
    (failedAppend q io = [] ∧
      flushStep profile shared q io =
        ({ shared with
            files := Function.update shared.files s
              (DurationDb.appendRecords s (shared.files s) (q.pending s)) },
          { q with pc := afterAppend s, pending := Function.update q.pending s [] })) ∨
    ∃ written message, failedAppend q io = [(s, written)] ∧
      flushStep profile shared q io =
        ({ shared with
            files := Function.update shared.files s
              (s.tornFiles (shared.files s) (q.pending s) written) },
          { q with pc := afterAppend s, errors := q.errors ++ [message] }) := by
  unfold failedAppend flushStep
  rw [hpc]
  show _ ∨ ∃ written message, _ ∧ appendSection shared q s io = _
  by_cases hempty : (q.pending s).isEmpty = true
  · refine .inl ⟨?_, ?_⟩
    · cases io with
      | ok => rfl
      | failed message written => exact if_pos hempty
    · show appendSection shared q s io = _
      unfold appendSection
      rw [if_pos hempty, DurationDb.appendRecords, if_pos hempty, Function.update_eq_self,
        ← List.isEmpty_iff.mp hempty, Function.update_eq_self]
  · unfold appendSection
    cases io with
    | ok => exact .inl ⟨rfl, if_neg hempty⟩
    | failed message written =>
        exact .inr ⟨written, _, if_neg hempty, if_neg hempty⟩

/-- At the start everything is pending. -/
theorem kept_start (hdir : db.dir.isEmpty = false) : Kept db (FlushProcess.start db) [] := by
  have hpc := start_pc hdir
  refine ⟨fun _ _ => rfl, fun s happended => ?_, nofun, iff_of_true rfl rfl, fun result hdone => ?_⟩
  · rw [hpc] at happended
    exact happended.elim
  · rw [hpc] at hdone
    cases hdone

/-- A step keeps the records of the appends that failed and no others. -/
theorem Kept.step (h : Kept db q failed) (hio : NoOtherFailure q io) :
    Kept db (flushStep profile shared q io).2 (failed ++ failedAppend q io) := by
  by_cases happend : ∃ s, q.pc = .append s
  · obtain ⟨s, hpc⟩ := happend
    have hself : ¬q.pc.HasAppended s := by
      rw [hpc]
      exact Nat.lt_irrefl _
    have hpending : q.pending s = db.pending s := h.kept s (.inl hself)
    have hafter : ∀ t : DbSection, (afterAppend s).HasAppended t ↔ q.pc.HasAppended t ∨ t = s := by
      intro t
      rw [hpc]
      exact FlushPc.has_appended_after_append
    have hdone : ∀ result, afterAppend s ≠ .done result := by
      intro result
      cases s <;> nofun
    rcases @append_cases profile shared q io s hpc with
      ⟨hnone, hstep⟩ | ⟨written, message, hone, hstep⟩
    · -- The append succeeded: the section is cleared and nothing joins `failed`.
      have hnot : s ∉ failed.map Prod.fst := fun hmem => hself (h.appended s hmem)
      rw [hnone, hstep, List.append_nil]
      refine ⟨fun t ht => ?_, fun t ht hmem => ?_,
        fun t ht => (hafter t).mpr (.inl (h.appended t ht)), h.errors_eq,
        fun result hresult => absurd hresult (hdone result)⟩
      · have hts : t ≠ s := by
          rintro rfl
          rcases ht with hlater | hmem
          · exact hlater ((hafter t).mpr (.inr rfl))
          · exact hnot hmem
        refine (Function.update_of_ne hts _ _).trans (h.kept t ?_)
        exact ht.imp_left fun hlater hearlier => hlater ((hafter t).mpr (.inl hearlier))
      · by_cases hts : t = s
        · subst hts
          exact Function.update_self _ _ _
        · exact (Function.update_of_ne hts _ _).trans
            (h.cleared t (((hafter t).mp ht).resolve_right hts) hmem)
    · -- It failed: the records of the section stay in memory and the prefix joins `failed`.
      rw [hone, hstep]
      have hmap : ∀ t, t ∈ (failed ++ [(s, written)]).map Prod.fst ↔
          t ∈ failed.map Prod.fst ∨ t = s := by
        intro t
        simp
      refine ⟨fun t ht => ?_, fun t ht hmem => ?_, fun t ht => (hafter t).mpr ?_,
        iff_of_false (by simp) (by simp), fun result hresult => absurd hresult (hdone result)⟩
      · by_cases hts : t = s
        · subst hts
          exact hpending
        · refine h.kept t ?_
          rcases ht with hlater | hmem
          · exact .inl fun hearlier => hlater ((hafter t).mpr (.inl hearlier))
          · exact .inr (((hmap t).mp hmem).resolve_right hts)
      · rw [hmap, not_or] at hmem
        exact h.cleared t (((hafter t).mp ht).resolve_right hmem.2) hmem.1
      · exact ((hmap t).mp ht).imp_left (h.appended t)
  · have hnone : failedAppend q io = [] := by
      unfold failedAppend
      split
      case h_1 s message written hpc => exact absurd ⟨s, hpc⟩ happend
      case h_2 => rfl
    have hstep := @elsewhere_of_not_append profile shared q io
      (fun s hpc => happend ⟨s, hpc⟩) hio
    rw [hnone, List.append_nil]
    refine ⟨fun t ht => ?_, fun t ht hmem => ?_, fun t ht => ?_, ?_, fun result hresult => ?_⟩
    · rw [hstep.pending_eq]
      exact h.kept t (ht.imp_left fun hlater => mt (hstep.has_appended t).mpr hlater)
    · rw [hstep.pending_eq]
      exact h.cleared t ((hstep.has_appended t).mp ht) hmem
    · exact (hstep.has_appended t).mpr (h.appended t ht)
    · rw [hstep.errors_eq]
      exact h.errors_eq
    · rw [hstep.errors_eq]
      rcases hstep.done result hresult with hpc | hresult
      · exact h.result_eq result hpc
      · exact hresult

/-- A run keeps the records of the appends that failed and no others. -/
theorem FlushRun.kept {files : DbFiles} (hdir : db.dir.isEmpty = false)
    (h : FlushRun profile files db shared q failed) : Kept db q failed := by
  induction h with
  | start clock lock => exact kept_start hdir
  | wait clock lock _ ih => exact ih
  | step io _ hio ih => exact ih.step hio

/-- A flush returns an error if and only if some append failed, and the records of these sections
stay pending. -/
theorem FlushRun.result {files : DbFiles} (hdir : db.dir.isEmpty = false)
    (h : FlushRun profile files db shared q failed) {result : Except String Unit}
    (hdone : q.pc = .done result) :
    (result ≠ .ok () ↔ failed ≠ []) ∧
      ∀ s : DbSection, q.pending s = if s ∈ failed.map Prod.fst then db.pending s else [] := by
  have hkept := h.kept hdir
  refine ⟨?_, fun s => ?_⟩
  · have hresult : flushResult q.errors = .ok () ↔ q.errors = [] := by
      unfold flushResult
      cases q.errors <;> simp
    rw [hkept.result_eq result hdone]
    exact not_congr (hresult.trans hkept.errors_eq)
  · split
    case isTrue hmem => exact hkept.kept s (.inr hmem)
    case isFalse hmem =>
      refine hkept.cleared s ?_ hmem
      rw [hdone]
      exact trivial

/-! ## What the files hold -/

/-- A record that the formats can hold and whose key is among some keys. -/
def Recordable (profile : BuildProfile) (keys : List UInt64) (s : DbSection)
    (record : s.Record) : Prop :=
  s.StorableRecord record ∧ s.hashOf ((s.update profile).key record) ∈ keys

/-- The failures of a flush of a store do no harm. -/
def Harmless (db : DurationDb) (failed : List (DbSection × Nat)) : Prop :=
  ∀ s written, (s, written) ∈ failed → s.HarmlessTear (db.pending s) written

/-- What the files hold, followed by the pending records, is `full`. -/
def Covered (profile : BuildProfile) (keys : List UInt64)
    (full : (s : DbSection) → s.Key → Option s.Value) (shared : SharedDir) (q : FlushProcess) :
    Prop :=
  ∃ now, Compacting profile now shared q ∧
    (∀ s key value, now s key = some value → s.hashOf key ∈ keys) ∧
    ∀ s : DbSection, (s.update profile).replay (now s) (q.pending s) = .ok (full s)

variable {keys : List UInt64} {full : (s : DbSection) → s.Key → Option s.Value}

/-- Nothing but the files of the directory matters. -/
theorem Covered.wait (h : Covered profile keys full shared q) (clock : Nat) (lock : Option Nat) :
    Covered profile keys full { shared with clock, lock } q := by
  obtain ⟨now, hcompacting, hkeys, hfull⟩ := h
  exact ⟨now, ⟨hcompacting.holds, hcompacting.renamed, hcompacting.base_read,
    hcompacting.log_read, hcompacting.tmp_eq⟩, hkeys, hfull⟩

/-- An append changes the files of its section, which then hold some more records. -/
theorem Covered.append {s : DbSection} {files : SectionFiles}
    {now : (s : DbSection) → s.Key → Option s.Value} {next : s.Key → Option s.Value}
    {batch : List s.Record} {pending : (s : DbSection) → List s.Record} {errors : List String}
    (hcompacting : Compacting profile now shared q) (hpc : q.pc = .append s)
    (hkeys : ∀ s key value, now s key = some value → s.hashOf key ∈ keys)
    (hbatch : ∀ record ∈ batch, s.hashOf ((s.update profile).key record) ∈ keys)
    (hnext : (s.update profile).replay (now s) batch = .ok next)
    (hfiles : s.Holds profile files next)
    (hself : (s.update profile).replay next (pending s) = .ok (full s))
    (hothers : ∀ t : DbSection, t ≠ s →
      (t.update profile).replay (now t) (pending t) = .ok (full t)) :
    Covered profile keys full { shared with files := Function.update shared.files s files }
      { q with pc := afterAppend s, pending, errors } := by
  refine ⟨Function.update now s next, .of_outside (fun t => ?_) (fun t mark => ?_),
    fun t key value hvalue => ?_, fun t => ?_⟩
  · show t.Holds profile (Function.update shared.files s files t) _
    by_cases hts : t = s
    · subst hts
      rw [Function.update_self, Function.update_self]
      exact hfiles
    · rw [Function.update_of_ne hts, Function.update_of_ne hts]
      exact hcompacting.holds t (by rw [hpc]; nofun)
  · exact FlushPc.phase_after_append
  · by_cases hts : t = s
    · subst hts
      rw [Function.update_self] at hvalue
      refine (t.update profile).replay_invariant (P := fun key _ => t.hashOf key ∈ keys) ?_
        (hkeys t) hnext key value hvalue
      exact fun record hrecord _ _ _ _ => hbatch record hrecord
    · rw [Function.update_of_ne hts] at hvalue
      exact hkeys t key value hvalue
  · by_cases hts : t = s
    · subst hts
      rw [Function.update_self]
      exact hself
    · rw [Function.update_of_ne hts]
      exact hothers t hts

/-- A step keeps everything covered unless an append fails and does harm. -/
theorem Covered.step (h : Covered profile keys full shared q) (hio : NoOtherFailure q io)
    (hcount : keys.length < 2 ^ 32)
    (hpending : ∀ s, ∀ record ∈ q.pending s, Recordable profile keys s record)
    (hharmless : ∀ s written, (s, written) ∈ failedAppend q io →
      s.HarmlessTear (q.pending s) written) :
    Covered profile keys full (flushStep profile shared q io).1
      (flushStep profile shared q io).2 := by
  obtain ⟨now, hcompacting, hkeys, hfull⟩ := h
  by_cases happend : ∃ s, q.pc = .append s
  · obtain ⟨s, hpc⟩ := happend
    have hholds := hcompacting.holds s (by rw [hpc]; nofun)
    rcases @append_cases profile shared q io s hpc with
      ⟨-, hstep⟩ | ⟨written, message, hone, hstep⟩
    · rw [hstep]
      refine Covered.append hcompacting hpc hkeys (fun record hrecord =>
        (hpending s record hrecord).2) (hfull s)
        (hholds.append (fun record hrecord => (hpending s record hrecord).1) (hfull s)) ?_ ?_
      · rw [Function.update_self]
        rfl
      · intro t hts
        rw [Function.update_of_ne hts]
        exact hfull t
    · obtain ⟨batch, next, hbatch, hnext, hfiles, hself⟩ := hholds.torn
        (fun record hrecord => (hpending s record hrecord).1) (hfull s)
        (hharmless s written (by rw [hone]; exact List.mem_singleton_self _))
      rw [hstep]
      exact Covered.append hcompacting hpc hkeys (fun record hrecord =>
        (hpending s record (hbatch.subset hrecord)).2) hnext hfiles hself
        fun t _ => hfull t
  · have hstep := @elsewhere_of_not_append profile shared q io
      (fun s hpc => happend ⟨s, hpc⟩) hio
    have hcareful : Careful shared q io := by
      unfold NoOtherFailure at hio
      unfold Careful
      cases hpc : q.pc <;> rw [hpc] at hio <;> first | exact .inl hio | exact trivial
    refine ⟨now, hcompacting.step (fun s contents hcontents => ?_)
      (fun s hpc => happend ⟨s, hpc⟩) hcareful, hkeys, fun s => ?_⟩
    · refine DbSection.small_of_keys (fun key value hvalue => ?_) hcount
      rw [hcontents] at hvalue
      exact hkeys s key value hvalue
    · rw [hstep.pending_eq]
      exact hfull s

/-- What the files of a directory hold, followed by some records, is `full`. -/
def FilesCover (profile : BuildProfile) (keys : List UInt64)
    (full : (s : DbSection) → s.Key → Option s.Value) (files : DbFiles)
    (pending : (s : DbSection) → List s.Record) : Prop :=
  ∃ now : (s : DbSection) → s.Key → Option s.Value,
    (∀ s : DbSection, s.Holds profile (files s) (now s)) ∧
    (∀ s key value, now s key = some value → s.hashOf key ∈ keys) ∧
    ∀ s : DbSection, (s.update profile).replay (now s) (pending s) = .ok (full s)

/-- A flush whose failures do no harm keeps everything covered. -/
theorem FlushRun.covered {files : DbFiles} (h : FlushRun profile files db shared q failed)
    (hdir : db.dir.isEmpty = false) (hcover : FilesCover profile keys full files db.pending)
    (hcount : keys.length < 2 ^ 32)
    (hpending : ∀ s, ∀ record ∈ db.pending s, Recordable profile keys s record)
    (hharmless : Harmless db failed) : Covered profile keys full shared q := by
  induction h with
  | start clock lock =>
      obtain ⟨now, hholds, hkeys, hfull⟩ := hcover
      refine ⟨now, .of_outside hholds fun s mark => ?_, hkeys, hfull⟩
      rw [phase, start_pc hdir]
      rfl
  | wait clock lock _ ih => exact (ih hharmless).wait clock lock
  | @step shared q failed io hrun hio ih =>
      have hkept := hrun.kept hdir
      refine (ih fun s written hmem => hharmless s written (List.mem_append_left _ hmem)).step
        hio hcount (fun s record hrecord => ?_) fun s written hmem => ?_
      · by_cases hdone : q.pc.HasAppended s ∧ s ∉ failed.map Prod.fst
        · rw [hkept.cleared s hdone.1 hdone.2] at hrecord
          cases hrecord
        · rw [hkept.kept s (by tauto)] at hrecord
          exact hpending s record hrecord
      · have hpc : q.pc = .append s := by
          unfold failedAppend at hmem
          split at hmem
          case h_1 t message count hpc =>
            split at hmem
            · cases hmem
            · cases List.mem_singleton.mp hmem
              exact hpc
          case h_2 => cases hmem
        have hself : ¬q.pc.HasAppended s := by
          rw [hpc]
          exact Nat.lt_irrefl _
        rw [hkept.kept s (.inl hself)]
        exact hharmless s written (List.mem_append_right _ hmem)

/-- The files after a flush whose failures do no harm. -/
theorem FlushRun.files_cover {files : DbFiles} (h : FlushRun profile files db shared q failed)
    (hdir : db.dir.isEmpty = false) (hcover : FilesCover profile keys full files db.pending)
    (hcount : keys.length < 2 ^ 32)
    (hpending : ∀ s, ∀ record ∈ db.pending s, Recordable profile keys s record)
    (hharmless : Harmless db failed) {result : Except String Unit} (hdone : q.pc = .done result) :
    FilesCover profile keys full shared.files q.pending := by
  obtain ⟨now, hcompacting, hkeys, hfull⟩ := h.covered hdir hcover hcount hpending hharmless
  exact ⟨now, fun s => hcompacting.holds s (by rw [hdone]; nofun), hkeys, hfull⟩

end FlushProcess

namespace DurationDb

open FlushProcess

variable {profile : BuildProfile} {keys : List UInt64} {first files : DbFiles}
  {opened db : DurationDb} {recorded : (s : DbSection) → List s.Record}

/-! ## The history of a store -/

/-- A store with other pending records. -/
def keep (db : DurationDb) (pending : (s : DbSection) → List s.Record) : DurationDb :=
  { db with
    newPerfSamples := pending .perf
    newFlakeRecords := pending .flake
    newNames := pending .names }

@[simp] theorem pending_keep (pending : (s : DbSection) → List s.Record) :
    (db.keep pending).pending = pending := by
  funext s
  cases s <;> rfl

@[simp] theorem dir_keep (pending : (s : DbSection) → List s.Record) :
    (db.keep pending).dir = db.dir :=
  rfl

/-- A store that records and flushes, with everything that it has recorded. Appends of its flushes
may fail where this does no harm. -/
inductive StoreRun (profile : BuildProfile) (keys : List UInt64) (first : DbFiles)
    (opened : DurationDb) : DbFiles → DurationDb → ((s : DbSection) → List s.Record) → Prop
  | opened : StoreRun profile keys first opened first opened opened.pending
  | record {files : DbFiles} {db : DurationDb} {recorded new : (s : DbSection) → List s.Record} :
      StoreRun profile keys first opened files db recorded →
      (∀ s, ∀ record ∈ new s, Recordable profile keys s record) →
      StoreRun profile keys first opened files (db.keep fun s => db.pending s ++ new s)
        (fun s => recorded s ++ new s)
  | flush {files : DbFiles} {db : DurationDb} {recorded : (s : DbSection) → List s.Record}
      {shared : SharedDir} {q : FlushProcess} {failed : List (DbSection × Nat)}
      {result : Except String Unit} :
      StoreRun profile keys first opened files db recorded →
      FlushRun profile files db shared q failed → q.pc = .done result → Harmless db failed →
      StoreRun profile keys first opened shared.files (db.keep q.pending) recorded

/-- A store stays in its directory. -/
theorem StoreRun.dir_eq (h : StoreRun profile keys first opened files db recorded) :
    db.dir = opened.dir := by
  induction h with
  | opened => rfl
  | record _ _ ih => exact ih
  | flush _ _ _ _ ih => exact ih

/-- The files and the pending records hold everything that was recorded. -/
theorem StoreRun.files_cover (h : StoreRun profile keys first opened files db recorded)
    (hdir : opened.dir.isEmpty = false) (hcount : keys.length < 2 ^ 32)
    (hopened : ∀ s, ∀ record ∈ opened.pending s, Recordable profile keys s record)
    {found full : (s : DbSection) → s.Key → Option s.Value}
    (hfound : ∀ s : DbSection, s.Holds profile (first s) (found s))
    (hkeys : ∀ s key value, found s key = some value → s.hashOf key ∈ keys)
    (hfull : ∀ s : DbSection, (s.update profile).replay (found s) (recorded s) = .ok (full s)) :
    FilesCover profile keys full files db.pending ∧
      ∀ s, ∀ record ∈ db.pending s, Recordable profile keys s record := by
  induction h generalizing full with
  | opened => exact ⟨⟨found, hfound, hkeys, hfull⟩, hopened⟩
  | @record files db recorded new hrun hnew ih =>
      have hparts : ∀ s : DbSection, ∃ middle,
          (s.update profile).replay (found s) (recorded s) = .ok middle ∧
            (s.update profile).replay middle (new s) = .ok (full s) := by
        intro s
        have happend := hfull s
        rw [KeyedUpdate.replay_append] at happend
        exact Except.bind_eq_ok.mp happend
      choose middle hmiddle hrest using hparts
      obtain ⟨⟨now, hholds, hkeysNow, hreplay⟩, hpending⟩ := ih hmiddle
      refine ⟨⟨now, hholds, hkeysNow, fun s => ?_⟩, fun s record hrecord => ?_⟩
      · rw [pending_keep, KeyedUpdate.replay_append, hreplay s]
        exact hrest s
      · rw [pending_keep] at hrecord
        rcases List.mem_append.mp hrecord with hold | hadded
        · exact hpending s record hold
        · exact hnew s record hadded
  | @flush files db recorded shared q failed result hrun hflush hdone hharmless ih =>
      obtain ⟨hcover, hpending⟩ := ih hfull
      have hdirNow : db.dir.isEmpty = false := by rw [hrun.dir_eq]; exact hdir
      have hresult := (hflush.result hdirNow hdone).2
      refine ⟨?_, fun s record hrecord => ?_⟩
      · rw [pending_keep]
        exact hflush.files_cover hdirNow hcover hcount hpending hharmless hdone
      · rw [pending_keep, hresult s] at hrecord
        split at hrecord
        · exact hpending s record hrecord
        · cases hrecord

/-- In the history of a store whose failed appends did no harm: a flush returns an error if and
only if some append failed, the records of these sections stay pending, and once a flush returns
`Ok` a load finds every record that was recorded exactly once. -/
theorem harmless_failures_lose_nothing {dir : String} {disk : DurationDb}
    (hfirst : Flushed profile first) (hdisk : load profile dir first = .ok disk)
    (hkeys : disk.KeysAmong keys) (hcount : keys.length < 2 ^ 32)
    (hdir : opened.dir.isEmpty = false)
    (hopened : ∀ s, ∀ record ∈ opened.pending s, Recordable profile keys s record)
    (hrun : StoreRun profile keys first opened files db recorded)
    {shared : SharedDir} {q : FlushProcess} {failed : List (DbSection × Nat)}
    (hflush : FlushRun profile files db shared q failed) {result : Except String Unit}
    (hdone : q.pc = .done result) :
    (result ≠ .ok () ↔ failed ≠ []) ∧
      (∀ s : DbSection, q.pending s = if s ∈ failed.map Prod.fst then db.pending s else []) ∧
      (result = .ok () → ∀ full : (s : DbSection) → s.Key → Option s.Value,
        (∀ s : DbSection, (s.update profile).replay (s.find (disk.contents s)) (recorded s) =
          .ok (full s)) →
        ∃ loaded, load profile dir shared.files = .ok loaded ∧
          ∀ s : DbSection, s.find (loaded.contents s) = full s) := by
  have hdirDb : db.dir.isEmpty = false := by rw [hrun.dir_eq]; exact hdir
  obtain ⟨hresult, hkept⟩ := hflush.result hdirDb hdone
  refine ⟨hresult, hkept, ?_⟩
  rintro rfl full hfull
  have hfound : ∀ s : DbSection, s.Holds profile (first s) (s.find (disk.contents s)) := by
    intro s
    obtain ⟨found, hholds⟩ := hfirst.holds s
    obtain ⟨contents, hcontents, rfl⟩ := hholds.load
    rw [load_sections hdisk s] at hcontents
    cases hcontents
    exact hholds
  obtain ⟨hcover, hpending⟩ := hrun.files_cover hdir hcount hopened hfound hkeys hfull
  have hnone : failed = [] := by
    by_contra hsome
    exact hresult.mpr hsome rfl
  have hharmless : Harmless db failed := by
    rw [hnone]
    nofun
  obtain ⟨now, hholds, -, hreplay⟩ :=
    hflush.files_cover hdirDb hcover hcount hpending hharmless hdone
  have hnow : ∀ s, now s = full s := by
    intro s
    have hall := hreplay s
    rw [hkept s, hnone] at hall
    exact Except.ok.inj hall
  obtain ⟨loaded, hloaded, -, -, hsame⟩ := load_eq_ok dir hholds
  exact ⟨loaded, hloaded, fun s => (hsame s).trans (hnow s)⟩

/-- A store with one run of a test with the key 7. -/
def ranStore : DurationDb :=
  { ephemeral with dir := "quokka", newFlakeRecords := [⟨.local, 7, false, none, 0⟩] }

/-- A store whose first flush cannot append its run, and whose second one can. -/
theorem retained_run_recorded_once :
    let refused := steps ⟨true⟩ (emptyDir, .start ranStore)
      ([.ok, .ok, .ok] ++ .failed "No space left on device" 0 :: List.replicate 5 .ok)
    let again := steps ⟨true⟩ (⟨0, none, refused.1.files⟩, .start (ranStore.keep refused.2.pending))
      (List.replicate 9 .ok)
    (∃ message, refused.2.pc = .done (.error message)) ∧ again.2.pc = .done (.ok ()) ∧
      ∃ loaded, load ⟨true⟩ "quokka" again.1.files = .ok loaded ∧
        ∀ s : DbSection, (s.update ⟨true⟩).replay (fun _ => none) (ranStore.pending s) =
          .ok (s.find (loaded.contents s)) := by
  intro refused again
  have hrefused : FlushRun ⟨true⟩ noFiles ranStore refused.1 refused.2 [(.flake, 0)] := by
    have happends := (@FlushRun.start ⟨true⟩ noFiles ranStore 0 none).ok_steps 3
    have hfails := happends.step (.failed "No space left on device" 0)
      (no_other_failure_append rfl)
    exact hfails.ok_steps 5
  have hharmless : Harmless ranStore [(.flake, 0)] := by
    rintro s written hmem
    cases List.mem_singleton.mp hmem
    exact ⟨[], List.nil_prefix, rfl, .inl rfl⟩
  have hopened : ∀ s, ∀ record ∈ ranStore.pending s, Recordable ⟨true⟩ [7] s record := by
    intro s record hrecord
    cases s with
    | perf => cases hrecord
    | flake =>
        rw [List.mem_singleton.mp hrecord]
        exact ⟨(by decide : (0 : UInt64) ≠ noTimestamp), List.mem_singleton_self _⟩
    | names => cases hrecord
  let full : (s : DbSection) → s.Key → Option s.Value :=
    DbSection.each (fun _ => none)
      (Function.update (fun _ => none) (.local, 7) (some ⟨1, 0, none, none⟩)) (fun _ => none)
  have hfull : ∀ s : DbSection, (s.update ⟨true⟩).replay (fun _ => none) (ranStore.pending s) =
      .ok (full s) := by
    intro s
    cases s <;> rfl
  have hrun : StoreRun ⟨true⟩ [7] noFiles ranStore refused.1.files
      (ranStore.keep refused.2.pending) ranStore.pending :=
    StoreRun.opened.flush hrefused rfl hharmless
  have hdisk : load ⟨true⟩ "quokka" noFiles = .ok { ephemeral with dir := "quokka" } := rfl
  have hkeys : KeysAmong [7] { ephemeral with dir := "quokka" } := by
    intro s key value hvalue
    cases s <;> cases hvalue
  have hagain : FlushRun ⟨true⟩ refused.1.files (ranStore.keep refused.2.pending)
      again.1 again.2 [] :=
    (FlushRun.start 0 none).ok_steps 9
  obtain ⟨-, -, hload⟩ := harmless_failures_lose_nothing Flushed.empty hdisk hkeys
    (by decide) (by decide) hopened hrun hagain rfl
  obtain ⟨loaded, hloaded, hsame⟩ := hload rfl full fun s => by
    cases s <;> rfl
  refine ⟨⟨_, rfl⟩, rfl, loaded, hloaded, fun s => ?_⟩
  rw [hsame s]
  exact hfull s

/-! ## A torn append -/

/-- The append of a run is torn after its first byte, and a later flush appends the run again:
a run of a test with another key is found, and none of the test itself. -/
theorem torn_append_shifts_records :
    let torn := steps ⟨false⟩ (emptyDir, .start ranStore)
      ([.ok, .ok, .ok] ++ .failed "No space left on device" 1 :: List.replicate 5 .ok)
    let again := steps ⟨false⟩ (⟨0, none, torn.1.files⟩, .start (ranStore.keep torn.2.pending))
      (List.replicate 9 .ok)
    torn.2.pending .flake = ranStore.pending .flake ∧ again.2.pc = .done (.ok ()) ∧
      ∃ loaded, load ⟨false⟩ "quokka" again.1.files = .ok loaded ∧
        (loaded.flake .local).lookup 7 = none ∧
        (loaded.flake .local).lookup 1792 = some ⟨1, 0, none, none⟩ := by
  intro torn again
  -- The log is the torn byte and the 19 bytes of the record.
  have hlog : again.1.files .flake =
      ⟨none, some (0 :: flakeLogBytes ⟨.local, 7, false, none, 0⟩)⟩ := rfl
  have hread : DbSection.readLog .flake (0 :: flakeLogBytes ⟨.local, 7, false, none, 0⟩) =
      [⟨.local, 1792, false, none, 0⟩] := by
    decide +kernel
  let found : Environment → Table UInt64 FlakeRecord :=
    Function.update (fun _ => ∅) .local (AList.insert 1792 ⟨1, 0, none, none⟩ ∅)
  have hflake : DbSection.load ⟨false⟩ .flake (again.1.files .flake) = .ok found := by
    unfold DbSection.load
    rw [hlog]
    show List.foldlM _ _ (DbSection.readLog .flake (0 :: flakeLogBytes _)) = _
    rw [hread]
    rfl
  refine ⟨rfl, rfl, { ephemeral with dir := "quokka", flake := found }, ?_, rfl, rfl⟩
  have hperf : again.1.files .perf = ⟨none, none⟩ := rfl
  have hnames : again.1.files .names = ⟨none, none⟩ := rfl
  unfold load
  rw [hperf, hflake, hnames]
  rfl

end DurationDb

end Quokka
