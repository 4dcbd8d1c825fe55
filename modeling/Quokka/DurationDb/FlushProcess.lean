import Quokka.DurationDb.Flush
import Quokka.Library.CompactedLog

/-!
# One process in a flush

Where a process is with the compaction of each section, in terms of a `CompactedLog`, and what
its steps do. `FlushPc.phase` is this place and `FlushProcess.Sound` the invariant of a process
that has not failed, which every step keeps: a step outside appends and compactions
(`Sound.quiet`), and one lemma for each of the others.
-/

namespace Quokka

/-! ## Program points -/

/-- What has happened to a section since a process read its base file for a compaction: whether
the base file is still the one it read, and whether the log as it now is continues that base.
This is a record of the history only; no step depends on it. -/
structure ReadMark where
  current : Prop
  continued : Prop

/-- The mark after the base file was replaced. -/
def ReadMark.replaced (mark : ReadMark) : ReadMark :=
  { mark with current := False }

/-- The mark after the log was truncated. -/
def ReadMark.cleared (mark : ReadMark) : ReadMark :=
  { mark with continued := mark.current }

/-- The process has read the log of a section for a compaction and not truncated it yet. -/
def FlushPc.HasReadLog (s : DbSection) : FlushPc → Prop
  | .readBin t => s.index < t.index
  | .readLog t => s.index < t.index
  | .writeTmp t => t.index ≤ s.index
  | .rename t => t.index ≤ s.index
  | .truncate t => t.index ≤ s.index
  | _ => False

/-- The process has taken the step that appends the records of a section. -/
def FlushPc.HasAppended (s : DbSection) : FlushPc → Prop
  | .createDir => False
  | .lock _ => False
  | .lockStat _ => False
  | .lockRemove _ => False
  | .append t => s.index < t.index
  | _ => True

/-- The program points outside appends and compactions. -/
def FlushPc.Quiet : FlushPc → Prop
  | .append _ => False
  | .readBin _ => False
  | .readLog _ => False
  | .writeTmp _ => False
  | .rename _ => False
  | .truncate _ => False
  | _ => True

/-- The process does not return `Ok`. -/
def FlushProcess.Failed (p : FlushProcess) : Prop :=
  p.errors ≠ [] ∨ (∃ message, p.pc = .done (.error message)) ∨
    ∃ message, p.pc = .panicked message

/-! ## Phases -/

namespace FlushPc

variable {s t : DbSection} {base dbDisk : s.Key → Option s.Value} {mark : ReadMark}

/-- Where a process is with the compaction of a section, with what it found in the base file and
in base file and log. -/
def phase (s : DbSection) (base dbDisk : s.Key → Option s.Value) (mark : ReadMark) :
    FlushPc → CompactedLog.Phase (s.Key → Option s.Value)
  | .readBin t => if s.index < t.index then .logRead dbDisk else .outside
  | .readLog t =>
      if s.index < t.index then .logRead dbDisk
      else if s = t then .baseRead base mark.current mark.continued
      else .outside
  | .writeTmp t => if t.index ≤ s.index then .logRead dbDisk else .outside
  | .rename t => if t.index ≤ s.index then .logRead dbDisk else .outside
  | .truncate t =>
      if s = t then .renamed else if t.index ≤ s.index then .logRead dbDisk else .outside
  | _ => .outside

theorem phase_of_quiet {pc : FlushPc} (h : pc.Quiet) :
    pc.phase s base dbDisk mark = .outside := by
  cases pc <;> first | rfl | exact h.elim

/-- A compaction is open from reading the log to truncating it. -/
theorem phase_is_open (pc : FlushPc) :
    (pc.phase s base dbDisk mark).IsOpen ↔ pc.HasReadLog s := by
  cases pc with
  | readBin t => cases s <;> cases t <;> simp [phase, HasReadLog, DbSection.index,
      CompactedLog.Phase.IsOpen]
  | readLog t => cases s <;> cases t <;> simp [phase, HasReadLog, DbSection.index,
      CompactedLog.Phase.IsOpen]
  | writeTmp t => cases s <;> cases t <;> simp [phase, HasReadLog, DbSection.index,
      CompactedLog.Phase.IsOpen]
  | rename t => cases s <;> cases t <;> simp [phase, HasReadLog, DbSection.index,
      CompactedLog.Phase.IsOpen]
  | truncate t => cases s <;> cases t <;> simp [phase, HasReadLog, DbSection.index,
      CompactedLog.Phase.IsOpen]
  | _ => exact Iff.rfl

/-- A base file is ahead of its log between the rename and the truncation. -/
theorem phase_eq_renamed (pc : FlushPc) :
    pc.phase s base dbDisk mark = .renamed ↔ pc = .truncate s := by
  cases pc with
  | readBin t => cases s <;> cases t <;> simp [phase, DbSection.index]
  | readLog t => cases s <;> cases t <;> simp [phase, DbSection.index]
  | writeTmp t => cases s <;> cases t <;> simp [phase, DbSection.index]
  | rename t => cases s <;> cases t <;> simp [phase, DbSection.index]
  | truncate t => cases s <;> cases t <;> simp [phase, DbSection.index]
  | _ => simp [phase]

theorem phase_replaced (pc : FlushPc) :
    pc.phase s base dbDisk mark.replaced = (pc.phase s base dbDisk mark).replaced := by
  cases pc <;> simp only [phase] <;> (repeat' split) <;> rfl

theorem phase_cleared (pc : FlushPc) :
    pc.phase s base dbDisk mark.cleared = (pc.phase s base dbDisk mark).cleared := by
  cases pc <;> simp only [phase] <;> (repeat' split) <;> rfl

@[simp] theorem phase_after_attempt {attempt : Nat} :
    (afterAttempt attempt).phase s base dbDisk mark = .outside := by
  unfold afterAttempt
  split <;> rfl

@[simp] theorem phase_after_append : (afterAppend t).phase s base dbDisk mark = .outside := by
  cases t <;> rfl

@[simp] theorem phase_after_stat {large : Bool} :
    (afterStat t large).phase s base dbDisk mark = .outside := by
  cases t <;> cases large <;> cases s <;> rfl

@[simp] theorem phase_read_log_self :
    (FlushPc.readLog s).phase s base dbDisk mark =
      .baseRead base mark.current mark.continued := by
  simp [phase]

@[simp] theorem phase_rename_self :
    (FlushPc.rename s).phase s base dbDisk mark = .logRead dbDisk :=
  if_pos (Nat.le_refl _)

@[simp] theorem phase_truncate_self :
    (FlushPc.truncate s).phase s base dbDisk mark = .renamed :=
  if_pos rfl

/-- Loading a section leaves the others alone. -/
theorem phase_read_log_of_ne (h : s ≠ t) :
    (FlushPc.readLog t).phase s base dbDisk mark =
      (FlushPc.readBin t).phase s base dbDisk mark := by
  simp [phase, h]

theorem phase_after_load_of_ne (h : s ≠ t) :
    (afterLoad t).phase s base dbDisk mark = (FlushPc.readLog t).phase s base dbDisk mark := by
  cases s <;> cases t <;> first | rfl | exact absurd rfl h

@[simp] theorem phase_after_load_self :
    (afterLoad s).phase s base dbDisk mark = .logRead dbDisk := by
  cases s <;> rfl

/-- Replacing and truncating the files of a section leaves the others alone. -/
theorem phase_truncate_of_ne (h : s ≠ t) :
    (FlushPc.truncate t).phase s base dbDisk mark =
      (FlushPc.rename t).phase s base dbDisk mark := by
  simp [phase, h]

theorem phase_after_compaction_of_ne (h : s ≠ t) :
    (afterCompaction t).phase s base dbDisk mark =
      (FlushPc.truncate t).phase s base dbDisk mark := by
  cases s <;> cases t <;> first | rfl | exact absurd rfl h

@[simp] theorem phase_after_compaction_self :
    (afterCompaction s).phase s base dbDisk mark = .outside := by
  cases s <;> rfl

/-- No section has been appended to before the first append. -/
theorem not_has_appended_append_perf : ¬(FlushPc.append .perf).HasAppended s :=
  Nat.not_lt_zero s.index

theorem not_has_appended_after_attempt {attempt : Nat} :
    ¬(afterAttempt attempt).HasAppended s := by
  unfold afterAttempt
  split
  · exact id
  · exact not_has_appended_append_perf

theorem has_appended_after_append :
    (afterAppend t).HasAppended s ↔ (FlushPc.append t).HasAppended s ∨ s = t := by
  cases s <;> cases t <;> simp [afterAppend, DbSection.following, HasAppended, DbSection.index]

theorem has_appended_after_stat {large : Bool} : (afterStat t large).HasAppended s := by
  cases t <;> cases large <;> exact trivial

theorem has_appended_after_load : (afterLoad t).HasAppended s := by
  cases t <;> exact trivial

theorem has_appended_after_compaction : (afterCompaction t).HasAppended s := by
  cases t <;> exact trivial

end FlushPc

/-! ## Steps of a process -/

/-- A phase that holds nothing that a base file cannot hold. -/
def DbSection.StorablePhase (s : DbSection) :
    CompactedLog.Phase (s.Key → Option s.Value) → Prop
  | .baseRead base _ _ => s.Storable base
  | .logRead dbDisk => s.Storable dbDisk
  | _ => True

namespace FlushProcess

/-- Where a process is with the compaction of a section. -/
def phase (p : FlushProcess) (s : DbSection) (mark : ReadMark) :
    CompactedLog.Phase (s.Key → Option s.Value) :=
  p.pc.phase s (s.find (p.base s)) (s.find (p.dbDisk s)) mark

/-- A process that has not failed: the records of a section are pending until they are appended,
what it has loaded can be stored, and the temporary file is what it is to be renamed to. -/
structure Sound (p : FlushProcess) (db : DurationDb) : Prop where
  ok : ¬p.Failed
  pending_eq : ∀ s : DbSection, ¬p.pc.HasAppended s → p.pending s = db.pending s
  appended : ∀ s : DbSection, p.pc.HasAppended s → p.pending s = []
  storable : ∀ (s : DbSection) (mark : ReadMark), s.StorablePhase (p.phase s mark)
  tmp_eq : ∀ s : DbSection, p.pc = .rename s →
    p.tmp = s.writeBin (p.dbDisk s) ∧ s.Small (p.dbDisk s)

variable {profile : BuildProfile} {shared : SharedDir} {p : FlushProcess} {io : IoResult}
  {db : DurationDb}

/-- What a step outside appends and compactions does. -/
structure QuietStep (shared : SharedDir) (p : FlushProcess) (out : SharedDir × FlushProcess) :
    Prop where
  files_eq : out.1.files = shared.files
  pending_eq : out.2.pending = p.pending
  outside : ∀ (s : DbSection) (mark : ReadMark), out.2.phase s mark = .outside
  has_appended : ¬out.2.Failed → ∀ s, out.2.pc.HasAppended s ↔ p.pc.HasAppended s

theorem quiet_step (h : p.pc.Quiet) : QuietStep shared p (flushStep profile shared p io) := by
  unfold flushStep
  cases hpc : p.pc with
  | createDir =>
      cases io with
      | ok => exact ⟨rfl, rfl, fun _ _ => rfl, fun _ _ => by rw [hpc]; rfl⟩
      | failed message written =>
          exact ⟨rfl, rfl, fun _ _ => rfl, fun hok => absurd (.inr (.inl ⟨_, rfl⟩)) hok⟩
  | lock attempt =>
      show QuietStep shared p (tryLock shared p attempt io)
      unfold tryLock
      split
      · refine ⟨rfl, rfl, fun _ _ => rfl, fun _ s => ?_⟩
        rw [hpc]
        exact iff_of_false FlushPc.not_has_appended_append_perf id
      · exact ⟨rfl, rfl, fun _ _ => rfl, fun _ _ => by rw [hpc]; exact Iff.rfl⟩
      · refine ⟨rfl, rfl, fun _ _ => rfl, fun _ s => ?_⟩
        rw [hpc]
        exact iff_of_false FlushPc.not_has_appended_append_perf id
  | lockStat attempt =>
      have hretry : QuietStep shared p (shared, { p with pc := afterAttempt attempt }) := by
        refine ⟨rfl, rfl, fun _ _ => FlushPc.phase_after_attempt, fun _ s => ?_⟩
        rw [hpc]
        exact iff_of_false FlushPc.not_has_appended_after_attempt id
      show QuietStep shared p (statLock shared p attempt io)
      unfold statLock
      split
      · split
        · exact ⟨rfl, rfl, fun _ _ => rfl, fun _ _ => by rw [hpc]; exact Iff.rfl⟩
        · exact hretry
      · exact hretry
  | lockRemove attempt =>
      cases io <;>
        · refine ⟨rfl, rfl, fun _ _ => FlushPc.phase_after_attempt, fun _ s => ?_⟩
          rw [hpc]
          exact iff_of_false FlushPc.not_has_appended_after_attempt id
  | stat t =>
      refine ⟨rfl, rfl, fun _ _ => FlushPc.phase_after_stat, fun _ s => ?_⟩
      rw [hpc]
      exact iff_of_true FlushPc.has_appended_after_stat trivial
  | unlock =>
      show QuietStep shared p (unlock shared p io)
      unfold unlock
      split <;> exact ⟨rfl, rfl, fun _ _ => rfl, fun _ _ => by rw [hpc]; exact Iff.rfl⟩
  | done result =>
      refine ⟨rfl, rfl, fun s mark => ?_, fun _ _ => by rw [hpc]⟩
      show p.pc.phase _ _ _ _ = _
      rw [hpc]
      rfl
  | panicked message =>
      refine ⟨rfl, rfl, fun s mark => ?_, fun _ _ => by rw [hpc]⟩
      show p.pc.phase _ _ _ _ = _
      rw [hpc]
      rfl
  -- The steps that touch a section are not quiet.
  | append s => rw [hpc] at h; exact h.elim
  | readBin s => rw [hpc] at h; exact h.elim
  | readLog s => rw [hpc] at h; exact h.elim
  | writeTmp s => rw [hpc] at h; exact h.elim
  | rename s => rw [hpc] at h; exact h.elim
  | truncate s => rw [hpc] at h; exact h.elim

/-- Errors are never forgotten. -/
theorem errors_kept : p.errors <+: (flushStep profile shared p io).2.errors := by
  have hrefl : p.errors <+: p.errors := List.prefix_refl _
  have happend : ∀ message, p.errors <+: p.errors ++ [message] :=
    fun message => List.prefix_append _ _
  unfold flushStep
  cases p.pc with
  | createDir => cases io <;> exact hrefl
  | lock attempt => dsimp only; unfold tryLock; split <;> exact hrefl
  | lockStat attempt => dsimp only; unfold statLock; (repeat' split) <;> exact hrefl
  | lockRemove attempt => cases io <;> exact hrefl
  | append s =>
      dsimp only
      unfold appendSection
      split
      · exact hrefl
      · cases io with
        | ok => exact hrefl
        | failed message written => exact happend _
  | stat s => exact hrefl
  | readBin s => exact hrefl
  | readLog s => dsimp only; unfold loadLog; dsimp only; split <;> exact hrefl
  | writeTmp s => cases io with
    | ok => exact hrefl
    | failed message written => exact happend _
  | rename s => cases io with
    | ok => exact hrefl
    | failed message written => exact happend _
  | truncate s => cases io with
    | ok => exact hrefl
    | failed message written => exact happend _
  | unlock => dsimp only; unfold unlock; split <;> exact hrefl
  | done result => exact hrefl
  | panicked message => exact hrefl

/-- A process that has returned `Ok` has met no error. -/
def Honest (p : FlushProcess) : Prop :=
  p.pc = .done (.ok ()) → p.errors = []

theorem Honest.step (h : p.Honest) : (flushStep profile shared p io).2.Honest := by
  unfold Honest flushStep
  cases hpc : p.pc with
  | createDir => cases io <;> exact fun hdone => nomatch hdone
  | lock attempt => dsimp only; unfold tryLock; split <;> exact fun hdone => nomatch hdone
  | lockStat attempt =>
      dsimp only
      unfold statLock afterAttempt
      (repeat' split) <;> exact fun hdone => nomatch hdone
  | lockRemove attempt =>
      dsimp only
      unfold removeLock afterAttempt
      (repeat' split) <;> exact fun hdone => nomatch hdone
  | append s =>
      dsimp only
      unfold appendSection
      cases s <;> (repeat' split) <;> exact fun hdone => nomatch hdone
  | stat s =>
      have hpoint : ∀ large, afterStat s large ≠ .done (.ok ()) := by
        intro large
        cases s <;> cases large <;> nofun
      exact fun hdone => absurd hdone (hpoint _)
  | readBin s => exact fun hdone => nomatch hdone
  | readLog s =>
      dsimp only
      unfold loadLog
      dsimp only
      split
      · cases s <;> exact fun hdone => nomatch hdone
      · exact fun hdone => nomatch hdone
  | writeTmp s => cases io <;> cases s <;> exact fun hdone => nomatch hdone
  | rename s => cases io <;> cases s <;> exact fun hdone => nomatch hdone
  | truncate s => cases io <;> cases s <;> exact fun hdone => nomatch hdone
  | unlock =>
      have hresult : ∀ errors, FlushPc.done (flushResult errors) = .done (.ok ()) →
          errors = [] := by
        intro errors hdone
        unfold flushResult at hdone
        split at hdone
        case isTrue hempty => exact List.isEmpty_iff.mp hempty
        case isFalse => cases hdone
      dsimp only
      unfold unlock
      split <;> exact hresult p.errors
  | done result => exact fun hdone => h hdone
  | panicked message => exact fun hdone => h hdone

/-- A process that has returned `Ok` has not failed. -/
theorem Honest.not_failed (h : p.Honest) (hpc : p.pc = .done (.ok ())) : ¬p.Failed := by
  rintro (herrors | ⟨message, hmessage⟩ | ⟨message, hmessage⟩)
  · exact herrors (h hpc)
  · rw [hpc] at hmessage
    cases hmessage
  · rw [hpc] at hmessage
    cases hmessage

/-- A process that has failed does not recover. -/
theorem Failed.step (h : p.Failed) : (flushStep profile shared p io).2.Failed := by
  rcases h with herrors | ⟨message, hpc⟩ | ⟨message, hpc⟩
  · refine .inl fun hnil => herrors ?_
    have hprefix := @errors_kept profile shared p io
    rw [hnil] at hprefix
    exact List.prefix_nil.mp hprefix
  · refine .inr (.inl ⟨message, ?_⟩)
    unfold flushStep
    rw [hpc]
    exact hpc
  · refine .inr (.inr ⟨message, ?_⟩)
    unfold flushStep
    rw [hpc]
    exact hpc

theorem failed_of_compaction_failed {s : DbSection} {message : String} :
    (compactionFailed p s message).Failed :=
  .inl (by simp [compactionFailed])

/-- An append that does not fail. -/
theorem flushStep_append {t : DbSection} (hpc : p.pc = .append t)
    (hok : ¬(flushStep profile shared p io).2.Failed) :
    flushStep profile shared p io =
      ({ shared with
          files := Function.update shared.files t
            (DurationDb.appendRecords t (shared.files t) (p.pending t)) },
        { p with pc := afterAppend t, pending := Function.update p.pending t [] }) := by
  unfold flushStep at hok ⊢
  rw [hpc] at hok ⊢
  dsimp only at hok ⊢
  unfold appendSection at hok ⊢
  split at hok
  case isTrue hempty =>
    rw [if_pos hempty, DurationDb.appendRecords, if_pos hempty, Function.update_eq_self,
      ← List.isEmpty_iff.mp hempty, Function.update_eq_self]
  case isFalse hnonempty =>
    rw [if_neg hnonempty]
    cases io with
    | ok => rfl
    | failed message written => exact absurd (.inl (by simp)) hok

/-- A temporary file that is written. -/
theorem flushStep_write_tmp {t : DbSection} (hpc : p.pc = .writeTmp t)
    (hok : ¬(flushStep profile shared p io).2.Failed) :
    flushStep profile shared p io =
      (shared, { p with pc := .rename t, tmp := t.writeBin (p.dbDisk t) }) := by
  unfold flushStep at hok ⊢
  rw [hpc] at hok ⊢
  cases io with
  | ok => rfl
  | failed message written => exact absurd failed_of_compaction_failed hok

/-- A rename that does not fail. -/
theorem flushStep_rename {t : DbSection} (hpc : p.pc = .rename t)
    (hok : ¬(flushStep profile shared p io).2.Failed) :
    io = .ok ∧ flushStep profile shared p io =
      ({ shared with
          files := Function.update shared.files t { shared.files t with bin := some p.tmp } },
        { p with pc := .truncate t }) := by
  unfold flushStep at hok ⊢
  rw [hpc] at hok ⊢
  cases io with
  | ok => exact ⟨rfl, rfl⟩
  | failed message written => exact absurd failed_of_compaction_failed hok

/-- A truncation that does not fail. -/
theorem flushStep_truncate {t : DbSection} (hpc : p.pc = .truncate t)
    (hok : ¬(flushStep profile shared p io).2.Failed) :
    io = .ok ∧ flushStep profile shared p io =
      ({ shared with
          files := Function.update shared.files t { shared.files t with log := some [] } },
        { p with pc := afterCompaction t }) := by
  unfold flushStep at hok ⊢
  rw [hpc] at hok ⊢
  cases io with
  | ok => exact ⟨rfl, rfl⟩
  | failed message written => exact absurd failed_of_compaction_failed hok

/-- A base file that is read. -/
theorem flushStep_read_bin {t : DbSection} (hpc : p.pc = .readBin t) :
    flushStep profile shared p .ok =
      (shared, { p with
        pc := .readLog t
        base := Function.update p.base t (t.readBin (shared.files t).bin) }) := by
  unfold flushStep
  rw [hpc]
  rfl

/-- A log that is read without a panic. -/
theorem flushStep_read_log {t : DbSection} (hpc : p.pc = .readLog t)
    (hok : ¬(flushStep profile shared p .ok).2.Failed) :
    ∃ contents,
      (t.readLog ((shared.files t).log.getD [])).foldlM (t.record profile) (p.base t) =
        .ok contents ∧
      flushStep profile shared p .ok =
        (shared, { p with
          pc := afterLoad t
          dbDisk := Function.update p.dbDisk t contents }) := by
  unfold flushStep at hok ⊢
  rw [hpc] at hok ⊢
  dsimp only at hok ⊢
  unfold loadLog at hok ⊢
  dsimp only at hok ⊢
  cases hfold : (t.readLog ((shared.files t).log.getD [])).foldlM (t.record profile)
      (p.base t) with
  | ok contents => exact ⟨contents, rfl, rfl⟩
  | error message =>
      rw [hfold] at hok
      exact absurd (.inr (.inr ⟨message, rfl⟩)) hok

/-- In a compaction nothing is pending. -/
theorem Sound.pending_eq_nil (h : p.Sound db) (hpc : ∀ s, p.pc.HasAppended s) (s : DbSection) :
    p.pending s = [] :=
  h.appended s (hpc s)

/-- A step outside appends and compactions. -/
theorem Sound.quiet (h : p.Sound db) {out : SharedDir × FlushProcess}
    (hstep : QuietStep shared p out) (hok : ¬out.2.Failed) : out.2.Sound db := by
  refine ⟨hok, fun s hs => ?_, fun s hs => ?_, fun s mark => ?_, fun s hs => ?_⟩
  · rw [hstep.pending_eq]
    exact h.pending_eq s fun happended => hs ((hstep.has_appended hok s).mpr happended)
  · rw [hstep.pending_eq]
    exact h.appended s ((hstep.has_appended hok s).mp hs)
  · rw [hstep.outside]
    exact trivial
  · have houtside := hstep.outside s ⟨False, False⟩
    rw [phase, hs, FlushPc.phase_rename_self] at houtside
    cases houtside

/-- An append. -/
theorem Sound.append {t : DbSection} (h : p.Sound db) (hpc : p.pc = .append t)
    (hok : ¬(flushStep profile shared p io).2.Failed) :
    (flushStep profile shared p io).2.Sound db := by
  have hstep := flushStep_append hpc hok
  rw [hstep] at hok ⊢
  refine ⟨hok, fun s hs => ?_, fun s hs => ?_, fun s mark => ?_, fun s hs => ?_⟩
  · rw [FlushPc.has_appended_after_append, not_or, ← hpc] at hs
    exact (Function.update_of_ne hs.2 _ _).trans (h.pending_eq s hs.1)
  · rw [FlushPc.has_appended_after_append, ← hpc] at hs
    by_cases hst : s = t
    · subst hst
      exact Function.update_self _ _ _
    · exact (Function.update_of_ne hst _ _).trans (h.appended s (hs.resolve_right hst))
  · rw [phase, FlushPc.phase_after_append]
    exact trivial
  · cases t <;> cases hs

/-- A base file that is read. -/
theorem Sound.readBin {t : DbSection} (h : p.Sound db) (hpc : p.pc = .readBin t)
    {base : t.Key → Option t.Value} {log : List t.Record}
    (hdisk : t.OnDisk (shared.files t) base log)
    (hok : ¬(flushStep profile shared p .ok).2.Failed) :
    (flushStep profile shared p .ok).2.Sound db := by
  have hall := h.pending_eq_nil fun s => by rw [hpc]; exact trivial
  rw [flushStep_read_bin hpc] at hok ⊢
  refine ⟨hok, fun s hs => absurd trivial hs, fun s _ => hall s, fun s mark => ?_, nofun⟩
  by_cases hst : s = t
  · subst hst
    show s.StorablePhase ((FlushPc.readLog s).phase s (s.find (Function.update p.base s _ s))
      _ mark)
    rw [FlushPc.phase_read_log_self, Function.update_self, hdisk.base_eq]
    exact hdisk.base_storable
  · have hbefore := h.storable s mark
    rw [phase, hpc] at hbefore
    rw [phase, FlushPc.phase_read_log_of_ne hst]
    exact hbefore

/-- A log that is read. -/
theorem Sound.readLog {t : DbSection} (h : p.Sound db) (hpc : p.pc = .readLog t)
    {base : t.Key → Option t.Value} {log : List t.Record}
    (hdisk : t.OnDisk (shared.files t) base log)
    (hok : ¬(flushStep profile shared p .ok).2.Failed) :
    (flushStep profile shared p .ok).2.Sound db := by
  have hall := h.pending_eq_nil fun s => by rw [hpc]; exact trivial
  obtain ⟨contents, hcontents, hstep⟩ := flushStep_read_log hpc hok
  rw [hstep] at hok ⊢
  refine ⟨hok, fun s hs => absurd FlushPc.has_appended_after_load hs, fun s _ => hall s,
    fun s mark => ?_, fun s hs => by cases t <;> cases hs⟩
  have hbefore := h.storable s mark
  rw [phase, hpc] at hbefore
  by_cases hst : s = t
  · subst hst
    have hreplay := DbSection.find_records profile s (p.base s) log
    rw [hdisk.log_eq, DbSection.read_log_bytes hdisk.log_storable] at hcontents
    rw [hcontents] at hreplay
    rw [FlushPc.phase_read_log_self] at hbefore
    show s.StorablePhase ((afterLoad s).phase s _ (s.find (Function.update p.dbDisk s _ s)) mark)
    rw [FlushPc.phase_after_load_self, Function.update_self]
    exact DbSection.storable_replay hdisk.log_storable hbefore hreplay.symm
  · show s.StorablePhase ((afterLoad t).phase s _ (s.find (Function.update p.dbDisk t _ s)) mark)
    rw [FlushPc.phase_after_load_of_ne hst, Function.update_of_ne hst]
    exact hbefore

/-- A temporary file that is written. -/
theorem Sound.writeTmp {t : DbSection} (h : p.Sound db) (hpc : p.pc = .writeTmp t)
    (hsmall : t.Small (p.dbDisk t)) (hok : ¬(flushStep profile shared p io).2.Failed) :
    (flushStep profile shared p io).2.Sound db := by
  have hall := h.pending_eq_nil fun s => by rw [hpc]; exact trivial
  have hstep := flushStep_write_tmp hpc hok
  rw [hstep] at hok ⊢
  refine ⟨hok, fun s hs => absurd trivial hs, fun s _ => hall s, fun s mark => ?_,
    fun s hs => ?_⟩
  · have hbefore := h.storable s mark
    rw [phase, hpc] at hbefore
    exact hbefore
  · cases hs
    exact ⟨rfl, hsmall⟩

/-- A rename. -/
theorem Sound.rename {t : DbSection} (h : p.Sound db) (hpc : p.pc = .rename t)
    (hok : ¬(flushStep profile shared p io).2.Failed) :
    (flushStep profile shared p io).2.Sound db := by
  have hall := h.pending_eq_nil fun s => by rw [hpc]; exact trivial
  obtain ⟨-, hstep⟩ := flushStep_rename hpc hok
  rw [hstep] at hok ⊢
  refine ⟨hok, fun s hs => absurd trivial hs, fun s _ => hall s, fun s mark => ?_, nofun⟩
  have hbefore := h.storable s mark
  rw [phase, hpc] at hbefore
  by_cases hst : s = t
  · subst hst
    rw [phase, FlushPc.phase_truncate_self]
    exact trivial
  · rw [phase, FlushPc.phase_truncate_of_ne hst]
    exact hbefore

/-- A truncation. -/
theorem Sound.truncate {t : DbSection} (h : p.Sound db) (hpc : p.pc = .truncate t)
    (hok : ¬(flushStep profile shared p io).2.Failed) :
    (flushStep profile shared p io).2.Sound db := by
  have hall := h.pending_eq_nil fun s => by rw [hpc]; exact trivial
  obtain ⟨-, hstep⟩ := flushStep_truncate hpc hok
  rw [hstep] at hok ⊢
  refine ⟨hok, fun s hs => absurd FlushPc.has_appended_after_compaction hs, fun s _ => hall s,
    fun s mark => ?_, fun s hs => by cases t <;> cases hs⟩
  have hbefore := h.storable s mark
  rw [phase, hpc] at hbefore
  by_cases hst : s = t
  · subst hst
    rw [phase, FlushPc.phase_after_compaction_self]
    exact trivial
  · rw [phase, FlushPc.phase_after_compaction_of_ne hst]
    exact hbefore

/-- A section has been appended to after the step that does so. -/
theorem has_appended_step (hok : ¬(flushStep profile shared p io).2.Failed) (s : DbSection) :
    (flushStep profile shared p io).2.pc.HasAppended s ↔
      p.pc.HasAppended s ∨ p.pc = .append s := by
  by_cases hquiet : p.pc.Quiet
  · rw [(quiet_step hquiet).has_appended hok s]
    refine (or_iff_left fun happend => ?_).symm
    rw [happend] at hquiet
    exact hquiet
  · cases hpc : p.pc with
    | append t =>
        rw [flushStep_append hpc hok, FlushPc.has_appended_after_append, FlushPc.append.injEq,
          eq_comm]
    | readBin t =>
        refine iff_of_true ?_ (.inl trivial)
        unfold flushStep
        rw [hpc]
        exact trivial
    | readLog t =>
        refine iff_of_true ?_ (.inl trivial)
        unfold flushStep
        rw [hpc]
        dsimp only
        unfold loadLog
        dsimp only
        split
        · exact FlushPc.has_appended_after_load
        · exact trivial
    | writeTmp t =>
        rw [flushStep_write_tmp hpc hok]
        exact iff_of_true trivial (.inl trivial)
    | rename t =>
        rw [(flushStep_rename hpc hok).2]
        exact iff_of_true trivial (.inl trivial)
    | truncate t =>
        rw [(flushStep_truncate hpc hok).2]
        exact iff_of_true FlushPc.has_appended_after_compaction (.inl trivial)
    | _ => exact absurd (by rw [hpc]; exact trivial) hquiet

/-- A process that starts with a directory. -/
theorem sound_start (hdir : db.dir.isEmpty = false) : (start db).Sound db := by
  have hpc : (start db).pc = .createDir := by
    unfold start
    rw [hdir]
    rfl
  refine ⟨?_, fun _ _ => rfl, fun s hs => ?_, fun s mark => ?_, fun s hs => ?_⟩
  · rintro (herrors | ⟨message, hmessage⟩ | ⟨message, hmessage⟩)
    · exact herrors rfl
    · rw [hpc] at hmessage
      cases hmessage
    · rw [hpc] at hmessage
      cases hmessage
  · rw [hpc] at hs
    exact hs.elim
  · rw [phase, hpc]
    exact trivial
  · rw [hpc] at hs
    cases hs

end FlushProcess

end Quokka
