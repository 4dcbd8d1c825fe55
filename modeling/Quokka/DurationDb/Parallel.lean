import Quokka.DurationDb.FlushProcess

/-!
# Flushes in parallel

Processes that share one directory take the steps of their flushes in any order. `World` is the
directory with the processes, and a run is a list of events from outside.

On every section a run is a run of a `CompactedLog` (`World.Tracked`). While no compaction is
disturbed (`World.Undisturbed`), nothing is lost or counted twice
(`undisturbed_flushes_lose_nothing`). The lock does not prevent disturbance: appends do not wait
for it, and it is given up for stale after ten seconds.
-/

namespace Quokka

/-! ## Runs -/

/-- The directory and the processes that flush to it. -/
structure World (ι : Type) where
  shared : SharedDir
  process : ι → FlushProcess
  marks : ι → DbSection → ReadMark

/-- A step of a process with the result of its file operation, or a change of the clock. -/
inductive FlushEvent (ι : Type) where
  | act (process : ι) (io : IoResult)
  | setClock (now : Nat)

namespace World

variable {ι : Type} [DecidableEq ι] (profile : BuildProfile)

/-- The marks after a step of a process. -/
def nextMarks (w : World ι) (i : ι) : IoResult → ι → DbSection → ReadMark
  | .failed _ _ => w.marks
  | .ok =>
      match (w.process i).pc with
      | .readBin s =>
          Function.update w.marks i (Function.update (w.marks i) s
            ⟨True, ∀ j, (w.process j).pc ≠ .truncate s⟩)
      | .rename s => fun j => Function.update (w.marks j) s (w.marks j s).replaced
      | .truncate s => fun j => Function.update (w.marks j) s (w.marks j s).cleared
      | _ => w.marks

/-- The world after an event. -/
def next (w : World ι) : FlushEvent ι → World ι
  | .act i io =>
      let out := flushStep profile w.shared (w.process i) io
      { shared := out.1
        process := Function.update w.process i out.2
        marks := w.nextMarks i io }
  | .setClock now => { w with shared := { w.shared with clock := now } }

/-- The world after some events. -/
def run (w : World ι) (events : List (FlushEvent ι)) : World ι :=
  events.foldl (next profile) w

omit [DecidableEq ι] in
/-- Processes that start to flush their stores. -/
def start (shared : SharedDir) (dbs : ι → DurationDb) : World ι where
  shared
  process i := .start (dbs i)
  marks _ _ := ⟨False, False⟩

end World

/-! ## Disturbances -/

/-- The events that disturb no compaction: no records are appended to a log that another process
has read and not truncated yet, a load for a compaction reads a base file and a log that belong
together, and what is written fits the counts of the base file. -/
def World.Undisturbed {ι : Type} (w : World ι) : FlushEvent ι → Prop
  | .act i io =>
      match (w.process i).pc with
      | .append s => (w.process i).pending s ≠ [] →
          ∀ j, j ≠ i → ¬(w.process j).pc.HasReadLog s
      | .readBin _ => io = .ok
      | .readLog s => io = .ok ∧ (w.marks i s).continued
      | .writeTmp s => s.Small ((w.process i).dbDisk s)
      | _ => True
  | .setClock _ => True

/-- All events of a run disturb no compaction. -/
def World.AllUndisturbed {ι : Type} [DecidableEq ι] (profile : BuildProfile) :
    World ι → List (FlushEvent ι) → Prop
  | _, [] => True
  | w, event :: events =>
      w.Undisturbed event ∧ (w.next profile event).AllUndisturbed profile events

/-! ## Steps of the world -/

namespace World

variable {ι : Type} [DecidableEq ι] {profile : BuildProfile} {w : World ι} {i : ι} {io : IoResult}

omit [DecidableEq ι] in
/-- A section with what its files hold, as a log that processes compact. -/
def logState (w : World ι) (s : DbSection) (base : s.Key → Option s.Value)
    (log : List s.Record) : CompactedLog.State ι (s.Key → Option s.Value) s.Record where
  base
  log
  phase j := (w.process j).phase s (w.marks j s)

/-- A section has been through a run of an undisturbed log, in which some records were
appended. -/
def Tracked (profile : BuildProfile) (s : DbSection)
    (first : CompactedLog.State ι (s.Key → Option s.Value) s.Record) (appended : List s.Record)
    (w : World ι) : Prop :=
  ∃ base log events, s.OnDisk (w.shared.files s) base log ∧
    CompactedLog.Run (s.update profile).apply first events (w.logState s base log) ∧
    events.flatMap CompactedLog.Event.appended = appended

variable {s t : DbSection} {first : CompactedLog.State ι (s.Key → Option s.Value) s.Record}
  {appended : List s.Record}

/-- A step that leaves the files and the phases of a section alone. -/
theorem Tracked.same {next : World ι} (h : Tracked profile s first appended w)
    (hfiles : next.shared.files s = w.shared.files s)
    (hphase : ∀ j, (next.process j).phase s (next.marks j s) =
      (w.process j).phase s (w.marks j s)) : Tracked profile s first appended next := by
  obtain ⟨base, log, events, hdisk, hrun, happended⟩ := h
  refine ⟨base, log, events, hfiles ▸ hdisk, ?_, happended⟩
  rw [show next.logState s base log = w.logState s base log from
    congrArg (CompactedLog.State.mk base log) (funext hphase)]
  exact hrun

/-- A step that leaves the files of a section alone and the phase of the process. -/
theorem Tracked.same_act (h : Tracked profile s first appended w)
    (hfiles : (flushStep profile w.shared (w.process i) io).1.files s = w.shared.files s)
    (hmarks : ∀ j, w.nextMarks i io j s = w.marks j s)
    (hphase : ∀ mark, (flushStep profile w.shared (w.process i) io).2.phase s mark =
      (w.process i).phase s mark) :
    Tracked profile s first appended (w.next profile (.act i io)) := by
  refine h.same hfiles fun j => ?_
  show (Function.update w.process i _ j).phase s (w.nextMarks i io j s) = _
  rw [hmarks]
  by_cases hj : j = i
  · subst hj
    rw [Function.update_self]
    exact hphase _
  · rw [Function.update_of_ne hj]

/-- A step that is an event on a section. -/
theorem Tracked.event {next : World ι} (h : Tracked profile s first appended w)
    (event : CompactedLog.Event ι (s.Key → Option s.Value) s.Record)
    (hevent : ∀ base log, s.OnDisk (w.shared.files s) base log →
      CompactedLog.Possible (s.update profile).apply (w.logState s base log) event ∧
      CompactedLog.Undisturbed (w.logState s base log) event ∧
      ∃ nextBase nextLog, s.OnDisk (next.shared.files s) nextBase nextLog ∧
        next.logState s nextBase nextLog = (w.logState s base log).next event) :
    Tracked profile s first (appended ++ event.appended) next := by
  obtain ⟨base, log, events, hdisk, hrun, rfl⟩ := h
  obtain ⟨hpossible, hundisturbed, nextBase, nextLog, hnext, heq⟩ := hevent base log hdisk
  refine ⟨nextBase, nextLog, events ++ [event], hnext, ?_, ?_⟩
  · rw [heq]
    exact hrun.snoc hpossible hundisturbed
  · rw [List.flatMap_append, List.flatMap_singleton]

omit [DecidableEq ι] in
/-- The phases after a step of one process. -/
theorem log_state_eq {next : World ι} {base : s.Key → Option s.Value} {log : List s.Record}
    {phases : ι → CompactedLog.Phase (s.Key → Option s.Value)}
    (h : ∀ j, (next.process j).phase s (next.marks j s) = phases j) :
    next.logState s base log = ⟨base, log, phases⟩ :=
  congrArg (CompactedLog.State.mk base log) (funext h)

/-- A step outside appends and compactions. -/
theorem Tracked.quiet (h : Tracked profile s first appended w) (hquiet : (w.process i).pc.Quiet) :
    Tracked profile s first appended (w.next profile (.act i io)) := by
  have hstep := @FlushProcess.quiet_step profile w.shared (w.process i) io hquiet
  refine h.same_act (congrFun hstep.files_eq s) (fun j => ?_) fun mark => ?_
  · cases io with
    | failed message written => rfl
    | ok =>
        unfold nextMarks
        cases hpc : (w.process i).pc with
        | readBin t => rw [hpc] at hquiet; exact hquiet.elim
        | rename t => rw [hpc] at hquiet; exact hquiet.elim
        | truncate t => rw [hpc] at hquiet; exact hquiet.elim
        | _ => rfl
  · rw [hstep.outside, FlushProcess.phase, FlushPc.phase_of_quiet hquiet]

/-- The phases after a step that leaves the marks alone and puts one process into a phase. -/
theorem log_state_enter {base : s.Key → Option s.Value} {log : List s.Record}
    {phase : CompactedLog.Phase (s.Key → Option s.Value)}
    (hself : (flushStep profile w.shared (w.process i) io).2.phase s (w.nextMarks i io i s) = phase)
    (hother : ∀ j, j ≠ i → w.nextMarks i io j s = w.marks j s) :
    (w.next profile (.act i io)).logState s base log =
      (w.logState s base log).enter i phase := by
  refine log_state_eq fun j => ?_
  show (Function.update w.process i _ j).phase s (w.nextMarks i io j s) = _
  by_cases hj : j = i
  · subst hj
    rw [Function.update_self, Function.update_self]
    exact hself
  · rw [Function.update_of_ne hj, Function.update_of_ne hj, hother j hj]
    rfl

/-- An append to the log of a section. -/
theorem Tracked.append (h : Tracked profile s first appended w)
    (hpc : (w.process i).pc = .append s)
    (hstorable : ∀ record ∈ (w.process i).pending s, s.StorableRecord record)
    (hundisturbed : (w.process i).pending s ≠ [] → ∀ j, j ≠ i → ¬(w.process j).pc.HasReadLog s)
    (hok : ¬(flushStep profile w.shared (w.process i) io).2.Failed) :
    Tracked profile s first (appended ++ (w.process i).pending s)
      (w.next profile (.act i io)) := by
  have hstep := FlushProcess.flushStep_append hpc hok
  have hmarks : w.nextMarks i io = w.marks := by
    unfold nextMarks
    rw [hpc]
    cases io <;> rfl
  have hfiles : (flushStep profile w.shared (w.process i) io).1.files s =
      DurationDb.appendRecords s (w.shared.files s) ((w.process i).pending s) := by
    rw [hstep]
    exact Function.update_self _ _ _
  have hphase : ∀ mark, (flushStep profile w.shared (w.process i) io).2.phase s mark =
      (w.process i).phase s mark := by
    intro mark
    rw [hstep, FlushProcess.phase, FlushPc.phase_after_append, FlushProcess.phase, hpc]
    rfl
  by_cases hempty : (w.process i).pending s = []
  · -- Without records the file is not opened, and the abstract log sees no event.
    rw [hempty, List.append_nil]
    refine h.same_act ?_ (fun j => by rw [hmarks]) hphase
    rw [hfiles, hempty]
    rfl
  · refine h.event (.append i ((w.process i).pending s)) fun base log hdisk =>
      ⟨?_, ?_, base, log ++ (w.process i).pending s, ?_, ?_⟩
    · show (w.process i).phase s (w.marks i s) = .outside
      rw [FlushProcess.phase, hpc]
      rfl
    · intro j hj hopen
      exact hundisturbed hempty j hj ((FlushPc.phase_is_open _).mp hopen)
    · rw [show (w.next profile (.act i io)).shared.files s = _ from hfiles]
      exact hdisk.append hstorable
    · refine log_state_eq fun j => ?_
      show (Function.update w.process i _ j).phase s (w.nextMarks i io j s) =
        (w.process j).phase s (w.marks j s)
      rw [hmarks]
      by_cases hj : j = i
      · subst hj
        rw [Function.update_self]
        exact hphase _
      · rw [Function.update_of_ne hj]

/-- A base file that is read. -/
theorem Tracked.readBin (h : Tracked profile s first appended w)
    (hpc : (w.process i).pc = .readBin s) :
    Tracked profile s first appended (w.next profile (.act i .ok)) := by
  have hstep := @FlushProcess.flushStep_read_bin profile w.shared (w.process i) s hpc
  have hmarks : ∀ j, w.nextMarks i .ok j s =
      if j = i then ⟨True, ∀ j, (w.process j).pc ≠ .truncate s⟩ else w.marks j s := by
    intro j
    unfold nextMarks
    rw [hpc]
    dsimp only
    by_cases hj : j = i
    · subst hj
      rw [if_pos rfl, Function.update_self, Function.update_self]
    · rw [if_neg hj, Function.update_of_ne hj]
  rw [← List.append_nil appended]
  refine h.event (.readBase i) fun base log hdisk => ⟨?_, trivial, base, log, ?_, ?_⟩
  · show (w.process i).phase s (w.marks i s) = .outside
    rw [FlushProcess.phase, hpc]
    exact if_neg (Nat.lt_irrefl _)
  · show s.OnDisk ((flushStep profile w.shared (w.process i) .ok).1.files s) base log
    rw [hstep]
    exact hdisk
  · refine log_state_enter ?_ fun j hj => by rw [hmarks, if_neg hj]
    have hcontinued : (∀ j, (w.process j).pc ≠ .truncate s) =
        ∀ other, (w.logState s base log).phase other ≠ .renamed :=
      propext (forall_congr' fun j => not_congr (FlushPc.phase_eq_renamed _).symm)
    rw [hmarks, if_pos rfl, hstep, FlushProcess.phase, FlushPc.phase_read_log_self]
    dsimp only
    rw [Function.update_self, hdisk.base_eq, hcontinued]
    rfl

/-- A log that is read. -/
theorem Tracked.readLog (h : Tracked profile s first appended w)
    (hpc : (w.process i).pc = .readLog s) (hcontinued : (w.marks i s).continued)
    (hok : ¬(flushStep profile w.shared (w.process i) .ok).2.Failed) :
    Tracked profile s first appended (w.next profile (.act i .ok)) := by
  obtain ⟨contents, hcontents, hstep⟩ := FlushProcess.flushStep_read_log hpc hok
  have hmarks : w.nextMarks i .ok = w.marks := by
    unfold nextMarks
    rw [hpc]
  have hphase : (w.process i).phase s (w.marks i s) =
      .baseRead (s.find ((w.process i).base s)) (w.marks i s).current
        (w.marks i s).continued := by
    rw [FlushProcess.phase, hpc, FlushPc.phase_read_log_self]
  rw [← List.append_nil appended]
  refine h.event (.readLog i (s.find contents)) fun base log hdisk =>
    ⟨⟨_, _, _, hphase, ?_⟩, ?_, base, log, ?_, ?_⟩
  · rw [hdisk.log_eq, DbSection.read_log_bytes hdisk.log_storable] at hcontents
    have hreplay := DbSection.find_records profile s ((w.process i).base s) log
    rw [hcontents] at hreplay
    exact hreplay.symm
  · intro found current continued hfound
    rw [show (w.logState s base log).phase i = _ from hphase] at hfound
    cases hfound
    exact hcontinued
  · show s.OnDisk ((flushStep profile w.shared (w.process i) .ok).1.files s) base log
    rw [hstep]
    exact hdisk
  · refine log_state_enter ?_ fun j _ => by rw [hmarks]
    rw [hstep, FlushProcess.phase, FlushPc.phase_after_load_self]
    dsimp only
    rw [Function.update_self]

/-- A rename. -/
theorem Tracked.rename {db : DurationDb} (h : Tracked profile s first appended w)
    (hsound : (w.process i).Sound db) (hpc : (w.process i).pc = .rename s)
    (hok : ¬(flushStep profile w.shared (w.process i) io).2.Failed) :
    Tracked profile s first appended (w.next profile (.act i io)) := by
  obtain ⟨rfl, hstep⟩ := FlushProcess.flushStep_rename hpc hok
  obtain ⟨htmp, hsmall⟩ := hsound.tmp_eq s hpc
  have hmarks : ∀ j, w.nextMarks i .ok j s = (w.marks j s).replaced := by
    intro j
    unfold nextMarks
    rw [hpc]
    exact Function.update_self _ _ _
  have hphase : ∀ mark, (w.process i).phase s mark =
      .logRead (s.find ((w.process i).dbDisk s)) := by
    intro mark
    rw [FlushProcess.phase, hpc, FlushPc.phase_rename_self]
  have hstorable : s.Storable (s.find ((w.process i).dbDisk s)) := by
    have hbefore := hsound.storable s (w.marks i s)
    rw [hphase] at hbefore
    exact hbefore
  rw [← List.append_nil appended]
  refine h.event (.rename i (s.find ((w.process i).dbDisk s))) fun base log hdisk =>
    ⟨hphase _, trivial, _, log, ?_, log_state_eq fun j => ?_⟩
  · show s.OnDisk ((flushStep profile w.shared (w.process i) .ok).1.files s) _ log
    rw [hstep]
    dsimp only
    rw [Function.update_self, htmp]
    exact hdisk.rename hstorable hsmall
  · show (Function.update w.process i _ j).phase s (w.nextMarks i .ok j s) =
      Function.update (fun other => ((w.process other).phase s (w.marks other s)).replaced) i
        .renamed j
    by_cases hj : j = i
    · subst hj
      rw [Function.update_self, Function.update_self, hstep, FlushProcess.phase,
        FlushPc.phase_truncate_self]
    · rw [Function.update_of_ne hj, Function.update_of_ne hj, hmarks]
      exact FlushPc.phase_replaced _

/-- A truncation. -/
theorem Tracked.truncate (h : Tracked profile s first appended w)
    (hpc : (w.process i).pc = .truncate s)
    (hok : ¬(flushStep profile w.shared (w.process i) io).2.Failed) :
    Tracked profile s first appended (w.next profile (.act i io)) := by
  obtain ⟨rfl, hstep⟩ := FlushProcess.flushStep_truncate hpc hok
  have hmarks : ∀ j, w.nextMarks i .ok j s = (w.marks j s).cleared := by
    intro j
    unfold nextMarks
    rw [hpc]
    exact Function.update_self _ _ _
  rw [← List.append_nil appended]
  refine h.event (.truncate i) fun base log hdisk =>
    ⟨?_, trivial, base, [], ?_, log_state_eq fun j => ?_⟩
  · show (w.process i).phase s (w.marks i s) = .renamed
    rw [FlushProcess.phase, hpc, FlushPc.phase_truncate_self]
  · show s.OnDisk ((flushStep profile w.shared (w.process i) .ok).1.files s) base []
    rw [hstep]
    dsimp only
    rw [Function.update_self]
    exact hdisk.truncate
  · show (Function.update w.process i _ j).phase s (w.nextMarks i .ok j s) =
      Function.update (fun other => ((w.process other).phase s (w.marks other s)).cleared) i
        .outside j
    by_cases hj : j = i
    · subst hj
      rw [Function.update_self, Function.update_self, hstep, FlushProcess.phase,
        FlushPc.phase_after_compaction_self]
    · rw [Function.update_of_ne hj, Function.update_of_ne hj, hmarks]
      exact FlushPc.phase_cleared _

/-- A temporary file that is written. -/
theorem Tracked.writeTmp (h : Tracked profile s first appended w)
    (hpc : (w.process i).pc = .writeTmp t)
    (hok : ¬(flushStep profile w.shared (w.process i) io).2.Failed) :
    Tracked profile s first appended (w.next profile (.act i io)) := by
  have hstep := FlushProcess.flushStep_write_tmp hpc hok
  refine h.same_act (by rw [hstep]) (fun j => ?_) fun mark => ?_
  · unfold nextMarks
    rw [hpc]
    cases io <;> rfl
  · rw [hstep, FlushProcess.phase, FlushProcess.phase, hpc]
    rfl

/-- The steps on one section leave the others alone. -/
theorem Tracked.other (h : Tracked profile s first appended w) (hst : s ≠ t)
    (hpc : (w.process i).pc = .append t ∨ (w.process i).pc = .readBin t ∧ io = .ok ∨
      (w.process i).pc = .readLog t ∧ io = .ok ∨ (w.process i).pc = .rename t ∨
      (w.process i).pc = .truncate t)
    (hok : ¬(flushStep profile w.shared (w.process i) io).2.Failed) :
    Tracked profile s first appended (w.next profile (.act i io)) := by
  -- Each of these steps writes only the files and the marks of `t`.
  rcases hpc with hpc | ⟨hpc, rfl⟩ | ⟨hpc, rfl⟩ | hpc | hpc
  · have hstep := FlushProcess.flushStep_append hpc hok
    refine h.same_act ?_ (fun j => ?_) fun mark => ?_
    · rw [hstep]
      exact Function.update_of_ne hst _ _
    · unfold nextMarks
      rw [hpc]
      cases io <;> rfl
    · rw [hstep, FlushProcess.phase, FlushPc.phase_after_append, FlushProcess.phase, hpc]
      rfl
  · have hstep := @FlushProcess.flushStep_read_bin profile w.shared (w.process i) t hpc
    refine h.same_act (by rw [hstep]) (fun j => ?_) fun mark => ?_
    · unfold nextMarks
      rw [hpc]
      dsimp only
      by_cases hj : j = i
      · subst hj
        rw [Function.update_self, Function.update_of_ne hst]
      · rw [Function.update_of_ne hj]
    · rw [hstep, FlushProcess.phase, FlushPc.phase_read_log_of_ne hst, FlushProcess.phase, hpc]
      rfl
  · obtain ⟨contents, -, hstep⟩ := FlushProcess.flushStep_read_log hpc hok
    refine h.same_act (by rw [hstep]) (fun j => ?_) fun mark => ?_
    · unfold nextMarks
      rw [hpc]
    · rw [hstep, FlushProcess.phase, FlushPc.phase_after_load_of_ne hst, FlushProcess.phase, hpc]
      dsimp only
      rw [Function.update_of_ne hst]
  · obtain ⟨rfl, hstep⟩ := FlushProcess.flushStep_rename hpc hok
    refine h.same_act ?_ (fun j => ?_) fun mark => ?_
    · rw [hstep]
      exact Function.update_of_ne hst _ _
    · unfold nextMarks
      rw [hpc]
      exact Function.update_of_ne hst _ _
    · rw [hstep, FlushProcess.phase, FlushPc.phase_truncate_of_ne hst, FlushProcess.phase, hpc]
  · obtain ⟨rfl, hstep⟩ := FlushProcess.flushStep_truncate hpc hok
    refine h.same_act ?_ (fun j => ?_) fun mark => ?_
    · rw [hstep]
      exact Function.update_of_ne hst _ _
    · unfold nextMarks
      rw [hpc]
      exact Function.update_of_ne hst _ _
    · rw [hstep, FlushProcess.phase, FlushPc.phase_after_compaction_of_ne hst,
        FlushProcess.phase, hpc]

/-! ## Runs of the world -/

/-- No process has failed, and every section has been through a run of an undisturbed log to which
the processes have appended their records in some order. -/
structure Tracks (profile : BuildProfile)
    (first : (s : DbSection) → CompactedLog.State ι (s.Key → Option s.Value) s.Record)
    (dbs : ι → DurationDb) (order : DbSection → List ι) (w : World ι) : Prop where
  sound : ∀ i, (w.process i).Sound (dbs i)
  mem_order : ∀ s i, i ∈ order s ↔ (w.process i).pc.HasAppended s
  nodup : ∀ s, (order s).Nodup
  tracked : ∀ s : DbSection, Tracked profile s (first s)
    ((order s).flatMap fun i => (dbs i).pending s) w

variable {starts : (s : DbSection) → CompactedLog.State ι (s.Key → Option s.Value) s.Record}
  {dbs : ι → DurationDb} {order : DbSection → List ι}

theorem Tracked.on_disk (h : Tracked profile s first appended w) :
    ∃ base log, s.OnDisk (w.shared.files s) base log := by
  obtain ⟨base, log, events, hdisk, -, -⟩ := h
  exact ⟨base, log, hdisk⟩

/-- A process that has not failed stays sound. -/
theorem Tracks.sound_step (h : Tracks profile starts dbs order w)
    (hundisturbed : w.Undisturbed (.act i io))
    (hok : ¬(flushStep profile w.shared (w.process i) io).2.Failed) :
    (flushStep profile w.shared (w.process i) io).2.Sound (dbs i) := by
  unfold Undisturbed at hundisturbed
  dsimp only at hundisturbed
  cases hpc : (w.process i).pc with
  | append t => exact (h.sound i).append hpc hok
  | readBin t =>
      rw [hpc] at hundisturbed
      cases hundisturbed
      obtain ⟨base, log, hdisk⟩ := (h.tracked t).on_disk
      exact (h.sound i).readBin hpc hdisk hok
  | readLog t =>
      rw [hpc] at hundisturbed
      obtain ⟨rfl, -⟩ := hundisturbed
      obtain ⟨base, log, hdisk⟩ := (h.tracked t).on_disk
      exact (h.sound i).readLog hpc hdisk hok
  | writeTmp t =>
      rw [hpc] at hundisturbed
      exact (h.sound i).writeTmp hpc hundisturbed hok
  | rename t => exact (h.sound i).rename hpc hok
  | truncate t => exact (h.sound i).truncate hpc hok
  | _ => exact (h.sound i).quiet (FlushProcess.quiet_step (by rw [hpc]; exact trivial)) hok

/-- The records that a step appends to a section. -/
theorem Tracks.tracked_step (h : Tracks profile starts dbs order w)
    (hstorable : ∀ i (s : DbSection), ∀ record ∈ (dbs i).pending s, s.StorableRecord record)
    (hundisturbed : w.Undisturbed (.act i io))
    (hok : ¬(flushStep profile w.shared (w.process i) io).2.Failed) (s : DbSection) :
    ((w.process i).pc = .append s ∧ Tracked profile s (starts s)
        (((order s).flatMap fun i => (dbs i).pending s) ++ (dbs i).pending s)
        (w.next profile (.act i io))) ∨
      ((w.process i).pc ≠ .append s ∧ Tracked profile s (starts s)
        ((order s).flatMap fun i => (dbs i).pending s) (w.next profile (.act i io))) := by
  have htracked := h.tracked s
  unfold Undisturbed at hundisturbed
  dsimp only at hundisturbed
  cases hpc : (w.process i).pc with
  | append t =>
      -- Only the append of this very section adds records to it.
      by_cases hst : s = t
      · subst hst
        rw [hpc] at hundisturbed
        have hpending := (h.sound i).pending_eq s (by rw [hpc]; exact Nat.lt_irrefl _)
        have hnext := htracked.append hpc (by rw [hpending]; exact hstorable i s) hundisturbed hok
        rw [hpending] at hnext
        exact .inl ⟨rfl, hnext⟩
      · exact .inr ⟨by simpa using Ne.symm hst, htracked.other hst (.inl hpc) hok⟩
  | readBin t =>
      rw [hpc] at hundisturbed
      cases hundisturbed
      refine .inr ⟨nofun, ?_⟩
      by_cases hst : s = t
      · subst hst
        exact htracked.readBin hpc
      · exact htracked.other hst (.inr (.inl ⟨hpc, rfl⟩)) hok
  | readLog t =>
      rw [hpc] at hundisturbed
      obtain ⟨rfl, hcontinued⟩ := hundisturbed
      refine .inr ⟨nofun, ?_⟩
      by_cases hst : s = t
      · subst hst
        exact htracked.readLog hpc hcontinued hok
      · exact htracked.other hst (.inr (.inr (.inl ⟨hpc, rfl⟩))) hok
  | writeTmp t => exact .inr ⟨nofun, htracked.writeTmp hpc hok⟩
  | rename t =>
      refine .inr ⟨nofun, ?_⟩
      by_cases hst : s = t
      · subst hst
        exact htracked.rename (h.sound i) hpc hok
      · exact htracked.other hst (.inr (.inr (.inr (.inl hpc)))) hok
  | truncate t =>
      refine .inr ⟨nofun, ?_⟩
      by_cases hst : s = t
      · subst hst
        exact htracked.truncate hpc hok
      · exact htracked.other hst (.inr (.inr (.inr (.inr hpc)))) hok
  | _ => exact .inr ⟨nofun, htracked.quiet (by rw [hpc]; exact trivial)⟩

/-- One step: the process has failed, or all is as it should be. -/
theorem Tracks.act (h : Tracks profile starts dbs order w)
    (hstorable : ∀ i (s : DbSection), ∀ record ∈ (dbs i).pending s, s.StorableRecord record)
    (hundisturbed : w.Undisturbed (.act i io))
    (hok : ¬(flushStep profile w.shared (w.process i) io).2.Failed) :
    ∃ order, Tracks profile starts dbs order (w.next profile (.act i io)) := by
  classical
  have hnew : ∀ s, (w.process i).pc = .append s → i ∉ order s := by
    intro s hpc hmem
    have happended := (h.mem_order s i).mp hmem
    rw [hpc] at happended
    exact Nat.lt_irrefl _ happended
  refine ⟨fun s => if (w.process i).pc = .append s then order s ++ [i] else order s,
    fun j => ?_, fun s j => ?_, fun s => ?_, fun s => ?_⟩
  · show (Function.update w.process i _ j).Sound (dbs j)
    by_cases hj : j = i
    · subst hj
      rw [Function.update_self]
      exact h.sound_step hundisturbed hok
    · rw [Function.update_of_ne hj]
      exact h.sound j
  · show _ ↔ (Function.update w.process i _ j).pc.HasAppended s
    by_cases hj : j = i
    · subst hj
      rw [Function.update_self, FlushProcess.has_appended_step hok, ← h.mem_order]
      split <;> simp_all
    · rw [Function.update_of_ne hj, ← h.mem_order]
      split <;> simp [hj]
  · split
    case isTrue hpc =>
      refine List.nodup_append.mpr ⟨h.nodup s, List.nodup_singleton i, ?_⟩
      rintro j hj k hk rfl
      rw [List.mem_singleton.mp hk] at hj
      exact hnew s hpc hj
    case isFalse => exact h.nodup s
  · rcases h.tracked_step hstorable hundisturbed hok s with ⟨hpc, htracked⟩ | ⟨hpc, htracked⟩
    · rw [if_pos hpc, List.flatMap_append, List.flatMap_singleton]
      exact htracked
    · rw [if_neg hpc]
      exact htracked

/-- The world in which a process has failed. -/
theorem failed_next {j : ι} (h : (w.process j).Failed) (event : FlushEvent ι) :
    ((w.next profile event).process j).Failed := by
  cases event with
  | setClock now => exact h
  | act i io =>
      show (Function.update w.process i _ j).Failed
      by_cases hj : j = i
      · subst hj
        rw [Function.update_self]
        exact h.step
      · rw [Function.update_of_ne hj]
        exact h

theorem failed_run {j : ι} (h : (w.process j).Failed) (events : List (FlushEvent ι)) :
    ((w.run profile events).process j).Failed := by
  induction events generalizing w with
  | nil => exact h
  | cons event events ih => exact ih (failed_next h event)

theorem honest_run (h : ∀ j, (w.process j).Honest) (events : List (FlushEvent ι)) (j : ι) :
    ((w.run profile events).process j).Honest := by
  induction events generalizing w with
  | nil => exact h j
  | cons event events ih =>
      refine @ih (w.next profile event) fun k => ?_
      cases event with
      | setClock now => exact h k
      | act i io =>
          show (Function.update w.process i _ k).Honest
          by_cases hk : k = i
          · subst hk
            rw [Function.update_self]
            exact (h k).step
          · rw [Function.update_of_ne hk]
            exact h k

/-- A run: some process has failed, or all is as it should be. -/
theorem Tracks.run (h : Tracks profile starts dbs order w)
    (hstorable : ∀ i (s : DbSection), ∀ record ∈ (dbs i).pending s, s.StorableRecord record)
    {events : List (FlushEvent ι)} (hundisturbed : w.AllUndisturbed profile events)
    (hok : ∀ j, ¬((w.run profile events).process j).Failed) :
    ∃ order, Tracks profile starts dbs order (w.run profile events) := by
  induction events generalizing w order with
  | nil => exact ⟨order, h⟩
  | cons event events ih =>
      obtain ⟨hevent, hevents⟩ := hundisturbed
      cases event with
      | setClock now =>
          exact ih ⟨h.sound, h.mem_order, h.nodup, fun s => (h.tracked s).same rfl fun _ => rfl⟩
            hevents hok
      | act i io =>
          have hstep : ¬(flushStep profile w.shared (w.process i) io).2.Failed := by
            intro hfailed
            refine hok i (failed_run ?_ events)
            show (Function.update w.process i _ i).Failed
            rw [Function.update_self]
            exact hfailed
          obtain ⟨next, hnext⟩ := h.act hstorable hevent hstep
          exact ih hnext hevents hok

end World

/-- Processes flush their stores to one directory in any order of their steps. In every run that
disturbs no compaction and after which all of them have returned `Ok`, a load finds in every
section what it found before, followed by the records of all processes, each process once. -/
theorem undisturbed_flushes_lose_nothing {ι : Type} [DecidableEq ι] {profile : BuildProfile}
    {shared : SharedDir} {dbs : ι → DurationDb} {events : List (FlushEvent ι)}
    (hfiles : ∀ s : DbSection, ∃ base log, s.OnDisk (shared.files s) base log)
    (hdir : ∀ i, (dbs i).dir.isEmpty = false)
    (hstorable : ∀ i (s : DbSection), ∀ record ∈ (dbs i).pending s, s.StorableRecord record)
    (hundisturbed : (World.start shared dbs).AllUndisturbed profile events)
    (hdone : ∀ i, (((World.start shared dbs).run profile events).process i).pc =
      .done (.ok ())) :
    ∃ order : DbSection → List ι, ∀ s : DbSection,
      (order s).Nodup ∧ (∀ i, i ∈ order s) ∧
      (s.load profile (((World.start shared dbs).run profile events).shared.files s)).map s.find =
        (s.load profile (shared.files s)).map s.find >>= fun found =>
          (s.update profile).replay found ((order s).flatMap fun i => (dbs i).pending s) := by
  classical
  choose bases logs hdisks using hfiles
  let starts : (s : DbSection) → CompactedLog.State ι (s.Key → Option s.Value) s.Record :=
    fun s => ⟨bases s, logs s, fun _ => .outside⟩
  have hpc : ∀ i, (FlushProcess.start (dbs i)).pc = .createDir := by
    intro i
    unfold FlushProcess.start
    rw [hdir i]
    rfl
  have hphase : ∀ i (s : DbSection) mark, (FlushProcess.start (dbs i)).phase s mark = .outside := by
    intro i s mark
    rw [FlushProcess.phase, hpc]
    rfl
  have hstart : World.Tracks profile starts dbs (fun _ => []) (World.start shared dbs) := by
    refine ⟨fun i => FlushProcess.sound_start (hdir i), fun s i => ?_, fun _ => List.nodup_nil,
      fun s => ⟨bases s, logs s, [], hdisks s, ?_, rfl⟩⟩
    · refine iff_of_false List.not_mem_nil fun happended => ?_
      rw [show ((World.start shared dbs).process i).pc = .createDir from hpc i] at happended
      exact happended
    · rw [show (World.start shared dbs).logState s (bases s) (logs s) = starts s from
        World.log_state_eq fun j => hphase j s _]
      exact .nil _
  have hhonest := @World.honest_run ι _ profile (World.start shared dbs)
    (fun i => fun hdone => by
      rw [show ((World.start shared dbs).process i).pc = .createDir from hpc i] at hdone
      cases hdone) events
  -- `Tracks` is the invariant: what each section holds is a run of the abstract log.
  obtain ⟨order, hend⟩ := hstart.run hstorable hundisturbed fun j =>
    (hhonest j).not_failed (hdone j)
  refine ⟨order, fun s => ⟨hend.nodup s, fun i => ?_, ?_⟩⟩
  · rw [hend.mem_order, hdone i]
    exact trivial
  · obtain ⟨base, log, happened, hdisk, hrun, happended⟩ := hend.tracked s
    have hcontents := CompactedLog.contents_of_run (fun _ => rfl) hrun fun j => by
      show ((_ : World ι).process j).phase s _ = .outside
      rw [FlushProcess.phase, hdone j]
      rfl
    rw [hdisk.load, (hdisks s).load]
    show CompactedLog.replay _ _ _ = CompactedLog.replay _ _ _ >>= fun found =>
      CompactedLog.replay _ found _
    rw [← happended]
    refine hcontents.trans ?_
    exact List.foldlM_append

/-- The directory before the first flush. -/
def emptyDir : SharedDir := ⟨0, none, fun _ => ⟨none, none⟩⟩

/-- A store with new samples. -/
def sampledStore (samples : List PerfSample) : DurationDb :=
  { DurationDb.ephemeral with dir := "quokka", newPerfSamples := samples }

end Quokka
