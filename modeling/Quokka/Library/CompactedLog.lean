import Mathlib.Data.List.Basic
import Mathlib.Logic.Function.Basic

/-!
# Compacting a log that others append to

A store is a base and a log of records that are applied to it. Processes append records, and
compact: read the base, read the log, replace the base by what the two contain, and clear the
log. These are four steps of their own, between which other processes may take steps.

`Undisturbed` is the discipline under which no record is lost or counted twice: nothing is
appended while another process is between reading the log and clearing it, and whoever reads the
log has read the base that the log continues. A base that was read before another process
replaced it is that base until the log is cleared; one that was read after the replacement is
that base once the log is cleared. `Inv.next` is the step and `contents_of_run` says what the
store contains after a run.
-/

namespace CompactedLog

/-- How far a process is with its compaction. The base that a process has read may still be the
`current` one, and it may be `continued` by the log as the log now is. -/
inductive Phase (α : Type*) where
  | outside
  | baseRead (base : α) (current continued : Prop)
  | logRead (contents : α)
  | renamed

/-- The base and the log, and where every process is. -/
structure State (ι α ρ : Type*) where
  base : α
  log : List ρ
  phase : ι → Phase α

/-- What a process does. `readLog` carries what the base and the log were found to contain. -/
inductive Event (ι α ρ : Type*) where
  | append (process : ι) (records : List ρ)
  | readBase (process : ι)
  | readLog (process : ι) (contents : α)
  | rename (process : ι) (contents : α)
  | truncate (process : ι)

variable {ι α ρ ε : Type*}

namespace Phase

/-- A process that has read the log and not cleared it yet. -/
def IsOpen : Phase α → Prop
  | .outside => False
  | .baseRead _ _ _ => False
  | .logRead _ => True
  | .renamed => True

/-- The phase after another process has replaced the base. -/
def replaced : Phase α → Phase α
  | .baseRead base _ continued => .baseRead base False continued
  | phase => phase

/-- The phase after another process has cleared the log. -/
def cleared : Phase α → Phase α
  | .baseRead base current _ => .baseRead base current current
  | phase => phase

@[simp] theorem replaced_eq_renamed {phase : Phase α} :
    phase.replaced = .renamed ↔ phase = .renamed := by
  cases phase <;> simp [replaced]

@[simp] theorem replaced_eq_log_read {phase : Phase α} {contents : α} :
    phase.replaced = .logRead contents ↔ phase = .logRead contents := by
  cases phase <;> simp [replaced]

@[simp] theorem cleared_eq_renamed {phase : Phase α} :
    phase.cleared = .renamed ↔ phase = .renamed := by
  cases phase <;> simp [cleared]

@[simp] theorem cleared_eq_log_read {phase : Phase α} {contents : α} :
    phase.cleared = .logRead contents ↔ phase = .logRead contents := by
  cases phase <;> simp [cleared]

/-- A base that was read before is not the current one after a replacement. -/
theorem replaced_eq_base_read {phase : Phase α} {base : α} {current continued : Prop}
    (h : phase.replaced = .baseRead base current continued) :
    ¬current ∧ ∃ before, phase = .baseRead base before continued := by
  cases phase with
  | baseRead found before matching =>
      cases h
      exact ⟨id, before, rfl⟩
  | outside => cases h
  | logRead contents => cases h
  | renamed => cases h

/-- A base that was read before is continued by the empty log if it is the current one. -/
theorem cleared_eq_base_read {phase : Phase α} {base : α} {current continued : Prop}
    (h : phase.cleared = .baseRead base current continued) :
    (continued → current) ∧ ∃ before, phase = .baseRead base current before := by
  cases phase with
  | baseRead found current before =>
      cases h
      exact ⟨id, before, rfl⟩
  | outside => cases h
  | logRead contents => cases h
  | renamed => cases h

end Phase

/-- The records that an event appends. -/
def Event.appended : Event ι α ρ → List ρ
  | .append _ records => records
  | _ => []

/-- Apply records to a base. -/
def replay (apply : α → ρ → Except ε α) (base : α) (records : List ρ) : Except ε α :=
  records.foldlM apply base

section Steps

variable [DecidableEq ι]

/-- Put a process into a phase. -/
def State.enter (state : State ι α ρ) (process : ι) (phase : Phase α) : State ι α ρ :=
  { state with phase := Function.update state.phase process phase }

/-- The state after an event. -/
def State.next (state : State ι α ρ) : Event ι α ρ → State ι α ρ
  | .append _ records => { state with log := state.log ++ records }
  | .readBase process =>
      state.enter process (.baseRead state.base True (∀ other, state.phase other ≠ .renamed))
  | .readLog process contents => state.enter process (.logRead contents)
  | .rename process contents =>
      { state with
        base := contents
        phase := Function.update (fun other => (state.phase other).replaced) process .renamed }
  | .truncate process =>
      { state with
        log := []
        phase := Function.update (fun other => (state.phase other).cleared) process .outside }

/-- The events that a process in its phase can take. -/
def Possible (apply : α → ρ → Except ε α) (state : State ι α ρ) : Event ι α ρ → Prop
  | .append process _ => state.phase process = .outside
  | .readBase process => state.phase process = .outside
  | .readLog process contents =>
      ∃ base current continued, state.phase process = .baseRead base current continued ∧
        replay apply base state.log = .ok contents
  | .rename process contents => state.phase process = .logRead contents
  | .truncate process => state.phase process = .renamed

/-- The events that disturb no process and are not disturbed. -/
def Undisturbed (state : State ι α ρ) : Event ι α ρ → Prop
  | .append process _ => ∀ other, other ≠ process → ¬(state.phase other).IsOpen
  | .readLog process _ =>
      ∀ base current continued, state.phase process = .baseRead base current continued → continued
  | _ => True

@[simp] theorem enter_phase_self (state : State ι α ρ) (process : ι) (phase : Phase α) :
    (state.enter process phase).phase process = phase := by
  simp [State.enter]

@[simp] theorem enter_phase_ne (state : State ι α ρ) {process other : ι} (phase : Phase α)
    (h : other ≠ process) : (state.enter process phase).phase other = state.phase other := by
  simp [State.enter, h]

end Steps

/-! ## The invariant -/

/-- The store relative to what it should contain: unless some process has replaced the base and
not cleared the log, base and log contain it; then the base alone does; whoever has read one or
both of them undisturbed can still go on. -/
structure Inv (apply : α → ρ → Except ε α) (full : Except ε α) (state : State ι α ρ) : Prop where
  settled : (∀ process, state.phase process ≠ .renamed) →
    replay apply state.base state.log = full
  renamed : ∀ process, state.phase process = .renamed → full = .ok state.base
  logRead : ∀ process contents, state.phase process = .logRead contents → full = .ok contents
  current : ∀ process base current continued,
    state.phase process = .baseRead base current continued → current → base = state.base
  continued : ∀ process base current continued,
    state.phase process = .baseRead base current continued → continued →
    replay apply base state.log = full

section Run

variable [DecidableEq ι] {apply : α → ρ → Except ε α} {full : Except ε α}

/-- What the store should contain after an event. -/
def extend (apply : α → ρ → Except ε α) (full : Except ε α) (event : Event ι α ρ) : Except ε α :=
  full >>= fun contents => replay apply contents event.appended

omit [DecidableEq ι] in
/-- An event that appends nothing changes nothing of what the store should contain. -/
theorem extend_of_nil {event : Event ι α ρ} (h : event.appended = []) :
    extend apply full event = full := by
  rw [extend, h]
  cases full <;> rfl

/-- A phase that a process has was given to it just now or is its own. -/
theorem update_phase_eq {phases : ι → Phase α} {process other : ι} {phase reached : Phase α}
    (h : Function.update phases process phase other = reached) :
    (other = process ∧ phase = reached) ∨ (other ≠ process ∧ phases other = reached) := by
  by_cases hsame : other = process
  · subst hsame
    exact .inl ⟨rfl, by simpa using h⟩
  · exact .inr ⟨hsame, by simpa [hsame] using h⟩

/-- The phases after a process has entered one. -/
theorem enter_phase_eq {state : State ι α ρ} {process other : ι} {phase reached : Phase α}
    (h : (state.enter process phase).phase other = reached) :
    (other = process ∧ phase = reached) ∨ (other ≠ process ∧ state.phase other = reached) :=
  update_phase_eq h

/-- The phases after a replacement. -/
theorem rename_phase_eq {state : State ι α ρ} {process other : ι} {contents : α}
    {reached : Phase α} (h : (state.next (.rename process contents)).phase other = reached) :
    (other = process ∧ .renamed = reached) ∨
      (other ≠ process ∧ (state.phase other).replaced = reached) :=
  @update_phase_eq _ _ _ (fun other => (state.phase other).replaced) _ _ _ _ h

/-- The phases after a truncation. -/
theorem truncate_phase_eq {state : State ι α ρ} {process other : ι} {reached : Phase α}
    (h : (state.next (.truncate process)).phase other = reached) :
    (other = process ∧ .outside = reached) ∨
      (other ≠ process ∧ (state.phase other).cleared = reached) :=
  @update_phase_eq _ _ _ (fun other => (state.phase other).cleared) _ _ _ _ h

omit [DecidableEq ι] in
/-- Appending while no compaction is open. -/
theorem Inv.append {state : State ι α ρ} (h : Inv apply full state) (records : List ρ)
    (hclosed : ∀ process, ¬(state.phase process).IsOpen) :
    Inv apply (full >>= fun contents => replay apply contents records)
      { state with log := state.log ++ records } := by
  have hrenamed : ∀ process, state.phase process ≠ .renamed := by
    intro process hphase
    apply hclosed process
    rw [hphase]
    exact trivial
  refine ⟨fun _ => ?_, ?_, ?_, h.current, ?_⟩
  · show replay apply state.base (state.log ++ records) = _
    rw [replay, List.foldlM_append, ← h.settled hrenamed]
    rfl
  · exact fun process hphase => absurd hphase (hrenamed process)
  · intro process contents hphase
    exfalso
    apply hclosed process
    rw [show state.phase process = .logRead contents from hphase]
    exact trivial
  · intro process base current continued hphase hcontinued
    show replay apply base (state.log ++ records) = _
    rw [replay, List.foldlM_append, ← h.continued process base current continued hphase hcontinued]
    rfl

/-- Reading the base, which the log continues unless it is cleared later. -/
theorem Inv.readBase {state : State ι α ρ} (h : Inv apply full state) {process : ι}
    (hphase : state.phase process = .outside) :
    Inv apply full (state.next (.readBase process)) := by
  constructor
  · intro hnone
    refine h.settled fun other hother => ?_
    by_cases hsame : other = process
    · rw [hsame, hphase] at hother
      cases hother
    · exact hnone other (by rw [State.next, enter_phase_ne _ _ hsame]; exact hother)
  · intro other hother
    rcases enter_phase_eq hother with ⟨-, heq⟩ | ⟨-, heq⟩
    · cases heq
    · exact h.renamed other heq
  · intro other contents hother
    rcases enter_phase_eq hother with ⟨-, heq⟩ | ⟨-, heq⟩
    · cases heq
    · exact h.logRead other contents heq
  · intro other base current continued hother hcurrent
    rcases enter_phase_eq hother with ⟨-, heq⟩ | ⟨-, heq⟩
    · cases heq
      rfl
    · exact h.current other base current continued heq hcurrent
  · intro other base current continued hother hcontinued
    rcases enter_phase_eq hother with ⟨-, heq⟩ | ⟨-, heq⟩
    · cases heq
      exact h.settled hcontinued
    · exact h.continued other base current continued heq hcontinued

/-- Reading the log that continues the base. -/
theorem Inv.readLog {state : State ι α ρ} (h : Inv apply full state) {process : ι} {contents : α}
    (hphase : ∃ base current continued, state.phase process = .baseRead base current continued ∧
      replay apply base state.log = .ok contents ∧ continued) :
    Inv apply full (state.next (.readLog process contents)) := by
  obtain ⟨base, current, continued, hphase, hcontents, hcontinued⟩ := hphase
  have hfull : full = .ok contents := by
    rw [← h.continued process base current continued hphase hcontinued, hcontents]
  constructor
  · intro hnone
    refine h.settled fun other hother => ?_
    by_cases hsame : other = process
    · rw [hsame, hphase] at hother
      cases hother
    · exact hnone other (by rw [State.next, enter_phase_ne _ _ hsame]; exact hother)
  · intro other hother
    rcases enter_phase_eq hother with ⟨-, heq⟩ | ⟨-, heq⟩
    · cases heq
    · exact h.renamed other heq
  · intro other found hother
    rcases enter_phase_eq hother with ⟨-, heq⟩ | ⟨-, heq⟩
    · cases heq
      exact hfull
    · exact h.logRead other found heq
  · intro other found current continued hother
    rcases enter_phase_eq hother with ⟨-, heq⟩ | ⟨-, heq⟩
    · cases heq
    · exact h.current other found current continued heq
  · intro other found current continued hother
    rcases enter_phase_eq hother with ⟨-, heq⟩ | ⟨-, heq⟩
    · cases heq
    · exact h.continued other found current continued heq

/-- Replacing the base by all that the store should contain. -/
theorem Inv.rename {state : State ι α ρ} (h : Inv apply full state) {process : ι} {contents : α}
    (hphase : state.phase process = .logRead contents) :
    Inv apply full (state.next (.rename process contents)) := by
  have hfull := h.logRead process contents hphase
  constructor
  · intro hnone
    exfalso
    exact hnone process (by simp [State.next])
  · exact fun _ _ => hfull
  · intro other found hother
    rcases rename_phase_eq hother with ⟨-, heq⟩ | ⟨-, heq⟩
    · cases heq
    · exact h.logRead other found (Phase.replaced_eq_log_read.mp heq)
  · intro other base current continued hother hcurrent
    rcases rename_phase_eq hother with ⟨-, heq⟩ | ⟨-, heq⟩
    · cases heq
    · exact absurd hcurrent (Phase.replaced_eq_base_read heq).1
  · intro other base current continued hother hcontinued
    rcases rename_phase_eq hother with ⟨-, heq⟩ | ⟨-, heq⟩
    · cases heq
    · obtain ⟨-, before, hbefore⟩ := Phase.replaced_eq_base_read heq
      exact h.continued other base before continued hbefore hcontinued

/-- Clearing the log that the base covers. -/
theorem Inv.truncate {state : State ι α ρ} (h : Inv apply full state) {process : ι}
    (hphase : state.phase process = .renamed) :
    Inv apply full (state.next (.truncate process)) := by
  have hfull := h.renamed process hphase
  constructor
  · exact fun _ => hfull.symm
  · exact fun _ _ => hfull
  · intro other contents hother
    rcases truncate_phase_eq hother with ⟨-, heq⟩ | ⟨-, heq⟩
    · cases heq
    · exact h.logRead other contents (Phase.cleared_eq_log_read.mp heq)
  · intro other base current continued hother hcurrent
    rcases truncate_phase_eq hother with ⟨-, heq⟩ | ⟨-, heq⟩
    · cases heq
    · obtain ⟨-, before, hbefore⟩ := Phase.cleared_eq_base_read heq
      exact h.current other base current before hbefore hcurrent
  · intro other base current continued hother hcontinued
    rcases truncate_phase_eq hother with ⟨-, heq⟩ | ⟨-, heq⟩
    · cases heq
    · -- The current base contains everything, and so it does with an empty log.
      obtain ⟨hcurrent, before, hbefore⟩ := Phase.cleared_eq_base_read heq
      rw [h.current other base current before hbefore (hcurrent hcontinued)]
      exact hfull.symm

/-- An undisturbed event keeps the invariant. -/
theorem Inv.next {state : State ι α ρ} {event : Event ι α ρ} (h : Inv apply full state)
    (hpossible : Possible apply state event) (hundisturbed : Undisturbed state event) :
    Inv apply (extend apply full event) (state.next event) := by
  cases event with
  | append process records =>
      refine h.append records fun other hopen => ?_
      by_cases hsame : other = process
      · rw [hsame, show state.phase process = .outside from hpossible] at hopen
        exact hopen
      · exact hundisturbed other hsame hopen
  | readBase process =>
      rw [extend_of_nil rfl]
      exact h.readBase hpossible
  | readLog process contents =>
      rw [extend_of_nil rfl]
      obtain ⟨base, current, continued, hphase, hcontents⟩ := hpossible
      exact h.readLog ⟨base, current, continued, hphase, hcontents,
        hundisturbed base current continued hphase⟩
  | rename process contents =>
      rw [extend_of_nil rfl]
      exact h.rename hpossible
  | truncate process =>
      rw [extend_of_nil rfl]
      exact h.truncate hpossible

/-! ## Runs -/

/-- A run whose events are possible and undisturbed. -/
inductive Run (apply : α → ρ → Except ε α) : State ι α ρ → List (Event ι α ρ) → State ι α ρ → Prop
  | nil (state : State ι α ρ) : Run apply state [] state
  | snoc {first state : State ι α ρ} {events : List (Event ι α ρ)} {event : Event ι α ρ} :
      Run apply first events state → Possible apply state event → Undisturbed state event →
      Run apply first (events ++ [event]) (state.next event)

/-- The store relative to what it should contain after a run. -/
theorem run_inv {first state : State ι α ρ} {events : List (Event ι α ρ)}
    (h : Inv apply full first) (hrun : Run apply first events state) :
    Inv apply (full >>= fun contents => replay apply contents (events.flatMap Event.appended))
      state := by
  induction hrun with
  | nil =>
      rw [List.flatMap_nil]
      cases full <;> exact h
  | @snoc state events event hrun hpossible hundisturbed ih =>
      have hnext := ih.next hpossible hundisturbed
      rw [extend] at hnext
      rw [List.flatMap_append, List.flatMap_singleton]
      cases full with
      | error failure => exact hnext
      | ok contents =>
          show Inv apply (replay apply contents _) _
          rw [replay, List.foldlM_append]
          exact hnext

/-- Once no process is compacting, the store contains what it contained at the start and all
records appended since, in order and each once. -/
theorem contents_of_run {first state : State ι α ρ} {events : List (Event ι α ρ)}
    (hfirst : ∀ process, first.phase process = .outside) (hrun : Run apply first events state)
    (hstate : ∀ process, state.phase process = .outside) :
    replay apply state.base state.log =
      replay apply first.base (first.log ++ events.flatMap Event.appended) := by
  have hinv : Inv apply (replay apply first.base first.log) first := by
    refine ⟨fun _ => rfl, ?_, ?_, ?_, ?_⟩ <;> intro process <;> simp [hfirst]
  rw [(run_inv hinv hrun).settled fun process => by rw [hstate process]; nofun]
  rw [replay, replay, List.foldlM_append]
  rfl

end Run

end CompactedLog
