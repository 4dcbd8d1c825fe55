import Quokka.Library.Runs
import Quokka.ResourceMarkers

/-!
# The watchdog of a logical command

How `quokka_run_logical` of `resource_supervisor.sh` waits for a command that must end within its
time limit. The shell starts the command and a subshell, the watchdog, which starts a timer; the
shell learns the timer's process from a file, the handshake. When the timer ends while the command
can still be found, the watchdog leaves a marker file and kills the command. The shell waits for
the command, stops the timer unless it has seen the marker, waits for the watchdog, and reports a
timeout if the marker is there.

`watchdogStep` is one command of the shell or of the watchdog, or an event outside of them: the
command ends, the time is up, or killing the control group fails. A run is any sequence of steps.
`Watched` is the invariant; `watchdog_outcome` says how every run ends that gets to the end.

The temporary directory is taken to be writable and process numbers are not used again. The
command is taken to have joined its control group when the group is killed: a kill that succeeds
reaches it. What the shell itself writes about a command that was killed is not followed.
-/

namespace Quokka

/-! ## Processes and files -/

/-- A process. One that has ended can be found until its parent has waited for it. -/
inductive ProcessState where
  | running
  | zombie (status : Nat)
  | reaped
  deriving DecidableEq, Repr

namespace ProcessState

/-- Whether `kill -0` finds the process. -/
def found : ProcessState → Bool
  | .running | .zombie _ => true
  | .reaped => false

theorem found_iff {process : ProcessState} : process.found = true ↔ process ≠ .reaped := by
  cases process <;> simp [found]

/-- The process after a signal that ends it with `status`. -/
def signalled (status : Nat) : ProcessState → ProcessState
  | .running => .zombie status
  | .zombie other => .zombie other
  | .reaped => .reaped

end ProcessState

/-- The file by which the watchdog hands over the process of its timer. -/
inductive Handshake where
  | absent
  | empty
  | written
  deriving DecidableEq, Repr

/-- The limit on the waits for the handshake. -/
def handshakeWaits : Nat := 1000

/-- The limit on the waits for a process that is told to stop. -/
def stopWaits : Nat := 100

/-- The exit status of a command that timed out. -/
def timeoutStatus : Nat := 124

/-! ## The shell and the watchdog -/

/-- The next command of the shell, after it has started the watchdog. -/
inductive ShellPc where
  | waitingChild
  /-- `while [ ! -s "$quokka_timer_pid_handshake" ]`, after some waits. -/
  | pollingHandshake (waits : Nat)
  | readingHandshake
  | removingHandshake
  | checkingMarker
  | terminatingTimer
  /-- `while kill -0 "$pid"`, after some waits. -/
  | pollingTimer (waits : Nat)
  | killingTimer
  | waitingWatchdog
  | reporting
  | removingMarker
  | finished
  /-- `quokka_fail` because the timer did not start. -/
  | failed
  deriving DecidableEq, Repr

/-- The next command of the watchdog. -/
inductive WatchdogPc where
  | starting
  | openingHandshake
  | writingHandshake
  | waitingTimer
  | checkingChild
  | creatingMarker
  | killingChild
  | ended
  | reaped
  deriving DecidableEq, Repr

/-- The state of a logical command under its watchdog. The fields `childStatus`, `expired`, `fired`
and `faults` are history: the status with which the command ended, whether the timer ran to its
end, whether the watchdog found the command after that, and what it could not kill. -/
structure WatchdogState where
  shell : ShellPc := .waitingChild
  watchdog : WatchdogPc := .starting
  child : ProcessState := .running
  timer : Option ProcessState := none
  handshake : Handshake := .absent
  marker : Bool := false
  status : Nat := 0
  stderr : List ResourceMarker := []
  childStatus : Option Nat := none
  expired : Bool := false
  fired : Bool := false
  faults : List ResourceMarker := []

/-- An event of a logical command under its watchdog. -/
inductive WatchdogEvent where
  | shell
  | watchdog
  | childEnds (status : Nat)
  | timerExpires
  /-- `quokka_kill_cgroup` fails in the watchdog, after it has killed the command or before. -/
  | killFails (message : {message : List UInt8 // 0x0A ∉ message}) (killed : Bool)

/-- A setup failure that quotes this text. -/
def setupMarker (message : String) (h : 0x0A ∉ Text.bytes message) : ResourceMarker :=
  .setup ⟨Text.bytes message, h⟩

theorem timer_failure_one_line : 0x0A ∉ Text.bytes "watchdog timer did not start" := by
  decide

/-- The marker of a timer that did not start. -/
def timerFailure : ResourceMarker :=
  setupMarker "watchdog timer did not start" timer_failure_one_line

/-- The marker of a timeout. -/
def timeoutMarker (granularity : CgroupGranularity) (logicalIndex : UInt64)
    (timeoutSeconds : Nat) : ResourceMarker :=
  match granularity with
  | .action => .actionTimeout timeoutSeconds
  | .logicalTest => .logicalTimeout logicalIndex timeoutSeconds

section Steps

variable (timeout : ResourceMarker)

/-- The command of the shell that comes next. -/
def shellStep (state : WatchdogState) : Option WatchdogState :=
  match state.shell with
  | .waitingChild =>
      match state.child with
      | .zombie status =>
          some { state with shell := .pollingHandshake 0, child := .reaped, status }
      | .running | .reaped => none
  | .pollingHandshake waits =>
      if state.handshake = .written then some { state with shell := .readingHandshake }
      else if waits + 1 < handshakeWaits then
        some { state with shell := .pollingHandshake (waits + 1) }
      else some { state with shell := .failed, stderr := state.stderr ++ [timerFailure] }
  | .readingHandshake => some { state with shell := .removingHandshake }
  | .removingHandshake => some { state with shell := .checkingMarker, handshake := .absent }
  | .checkingMarker =>
      if state.marker then some { state with shell := .waitingWatchdog }
      else some { state with shell := .terminatingTimer }
  | .terminatingTimer =>
      some
        { state with
          shell := .pollingTimer 0
          timer := state.timer.map (ProcessState.signalled 143) }
  | .pollingTimer waits =>
      if state.timer.any ProcessState.found && decide (waits + 1 < stopWaits) then
        some { state with shell := .pollingTimer (waits + 1) }
      else some { state with shell := .killingTimer }
  | .killingTimer =>
      some
        { state with
          shell := .waitingWatchdog
          timer := state.timer.map (ProcessState.signalled 137) }
  | .waitingWatchdog =>
      if state.watchdog = .ended then
        some { state with shell := .reporting, watchdog := .reaped }
      else none
  | .reporting =>
      if state.marker then
        some
          { state with
            shell := .removingMarker
            status := timeoutStatus
            stderr := state.stderr ++ [timeout] }
      else some { state with shell := .removingMarker }
  | .removingMarker => some { state with shell := .finished, marker := false }
  | .finished | .failed => none

/-- The command of the watchdog that comes next. -/
def watchdogCommand (state : WatchdogState) : Option WatchdogState :=
  match state.watchdog with
  | .starting => some { state with watchdog := .openingHandshake, timer := some .running }
  | .openingHandshake => some { state with watchdog := .writingHandshake, handshake := .empty }
  | .writingHandshake => some { state with watchdog := .waitingTimer, handshake := .written }
  | .waitingTimer =>
      match state.timer with
      | some (.zombie _) => some { state with watchdog := .checkingChild, timer := some .reaped }
      | some .running | some .reaped | none => none
  | .checkingChild =>
      if state.child.found then some { state with watchdog := .creatingMarker, fired := true }
      else some { state with watchdog := .ended }
  | .creatingMarker => some { state with watchdog := .killingChild, marker := true }
  | .killingChild =>
      some
        { state with
          watchdog := .ended
          child := state.child.signalled 137
          childStatus := state.childStatus.or (some 137) }
  | .ended | .reaped => none

/-- One step of a logical command under its watchdog. -/
def watchdogStep (state : WatchdogState) : WatchdogEvent → Option WatchdogState
  | .shell => shellStep timeout state
  | .watchdog => watchdogCommand state
  | .childEnds status =>
      if state.child = .running then
        some { state with child := .zombie status, childStatus := some status }
      else none
  | .timerExpires =>
      if state.timer = some .running then
        some { state with timer := some (.zombie 0), expired := true }
      else none
  | .killFails message killed =>
      if state.watchdog = .killingChild then
        some
          { state with
            watchdog := .ended
            child := if killed then state.child.signalled 137 else state.child
            childStatus := if killed then state.childStatus.or (some 137) else state.childStatus
            stderr := state.stderr ++ [.setup message]
            faults := state.faults ++ [.setup message] }
      else none

/-- What one step does: its guards, and the state after it. -/
inductive WatchdogStep (state : WatchdogState) : WatchdogEvent → WatchdogState → Prop where
  | reapChild (status : Nat) (hpc : state.shell = .waitingChild)
      (hchild : state.child = .zombie status) :
      WatchdogStep state .shell
        { state with shell := .pollingHandshake 0, child := .reaped, status }
  | seeHandshake (waits : Nat) (hpc : state.shell = .pollingHandshake waits)
      (hwritten : state.handshake = .written) :
      WatchdogStep state .shell { state with shell := .readingHandshake }
  | waitHandshake (waits : Nat) (hpc : state.shell = .pollingHandshake waits)
      (hmissing : state.handshake ≠ .written) (hwaits : waits + 1 < handshakeWaits) :
      WatchdogStep state .shell { state with shell := .pollingHandshake (waits + 1) }
  | giveUp (waits : Nat) (hpc : state.shell = .pollingHandshake waits)
      (hmissing : state.handshake ≠ .written) (hwaits : ¬waits + 1 < handshakeWaits) :
      WatchdogStep state .shell
        { state with shell := .failed, stderr := state.stderr ++ [timerFailure] }
  | readHandshake (hpc : state.shell = .readingHandshake) :
      WatchdogStep state .shell { state with shell := .removingHandshake }
  | removeHandshake (hpc : state.shell = .removingHandshake) :
      WatchdogStep state .shell { state with shell := .checkingMarker, handshake := .absent }
  | seeMarker (hpc : state.shell = .checkingMarker) (hmarker : state.marker = true) :
      WatchdogStep state .shell { state with shell := .waitingWatchdog }
  | missMarker (hpc : state.shell = .checkingMarker) (hmarker : state.marker = false) :
      WatchdogStep state .shell { state with shell := .terminatingTimer }
  | terminateTimer (hpc : state.shell = .terminatingTimer) :
      WatchdogStep state .shell
        { state with
          shell := .pollingTimer 0
          timer := state.timer.map (ProcessState.signalled 143) }
  | waitTimer (waits : Nat) (hpc : state.shell = .pollingTimer waits)
      (hwaits : waits + 1 < stopWaits) :
      WatchdogStep state .shell { state with shell := .pollingTimer (waits + 1) }
  | endPolling (waits : Nat) (hpc : state.shell = .pollingTimer waits) :
      WatchdogStep state .shell { state with shell := .killingTimer }
  | killTimer (hpc : state.shell = .killingTimer) :
      WatchdogStep state .shell
        { state with
          shell := .waitingWatchdog
          timer := state.timer.map (ProcessState.signalled 137) }
  | reapWatchdog (hpc : state.shell = .waitingWatchdog) (hended : state.watchdog = .ended) :
      WatchdogStep state .shell { state with shell := .reporting, watchdog := .reaped }
  | reportTimeout (hpc : state.shell = .reporting) (hmarker : state.marker = true) :
      WatchdogStep state .shell
        { state with
          shell := .removingMarker
          status := timeoutStatus
          stderr := state.stderr ++ [timeout] }
  | reportNothing (hpc : state.shell = .reporting) (hmarker : state.marker = false) :
      WatchdogStep state .shell { state with shell := .removingMarker }
  | removeMarker (hpc : state.shell = .removingMarker) :
      WatchdogStep state .shell { state with shell := .finished, marker := false }
  | startTimer (hpc : state.watchdog = .starting) :
      WatchdogStep state .watchdog
        { state with watchdog := .openingHandshake, timer := some .running }
  | openHandshake (hpc : state.watchdog = .openingHandshake) :
      WatchdogStep state .watchdog
        { state with watchdog := .writingHandshake, handshake := .empty }
  | writeHandshake (hpc : state.watchdog = .writingHandshake) :
      WatchdogStep state .watchdog { state with watchdog := .waitingTimer, handshake := .written }
  | reapTimer (status : Nat) (hpc : state.watchdog = .waitingTimer)
      (htimer : state.timer = some (.zombie status)) :
      WatchdogStep state .watchdog
        { state with watchdog := .checkingChild, timer := some .reaped }
  | findChild (hpc : state.watchdog = .checkingChild) (hfound : state.child ≠ .reaped) :
      WatchdogStep state .watchdog { state with watchdog := .creatingMarker, fired := true }
  | missChild (hpc : state.watchdog = .checkingChild) (hreaped : state.child = .reaped) :
      WatchdogStep state .watchdog { state with watchdog := .ended }
  | createMarker (hpc : state.watchdog = .creatingMarker) :
      WatchdogStep state .watchdog { state with watchdog := .killingChild, marker := true }
  | killChild (hpc : state.watchdog = .killingChild) :
      WatchdogStep state .watchdog
        { state with
          watchdog := .ended
          child := state.child.signalled 137
          childStatus := state.childStatus.or (some 137) }
  | childEnds (status : Nat) (hchild : state.child = .running) :
      WatchdogStep state (.childEnds status)
        { state with child := .zombie status, childStatus := some status }
  | timerExpires (htimer : state.timer = some .running) :
      WatchdogStep state .timerExpires { state with timer := some (.zombie 0), expired := true }
  | killFails (message : {message : List UInt8 // 0x0A ∉ message}) (killed : Bool)
      (hpc : state.watchdog = .killingChild) :
      WatchdogStep state (.killFails message killed)
        { state with
          watchdog := .ended
          child := if killed then state.child.signalled 137 else state.child
          childStatus := if killed then state.childStatus.or (some 137) else state.childStatus
          stderr := state.stderr ++ [.setup message]
          faults := state.faults ++ [.setup message] }

variable {timeout} {state next : WatchdogState}

/-- A command of the shell. -/
theorem shell_step (h : shellStep timeout state = some next) :
    WatchdogStep timeout state .shell next := by
  unfold shellStep at h
  split at h
  case h_1 hpc =>
    split at h
    case h_1 status hchild => cases h; exact .reapChild status hpc hchild
    all_goals cases h
  case h_2 waits hpc =>
    split at h
    case isTrue hwritten => cases h; exact .seeHandshake waits hpc hwritten
    case isFalse hmissing =>
      split at h
      case isTrue hwaits => cases h; exact .waitHandshake waits hpc hmissing hwaits
      case isFalse hwaits => cases h; exact .giveUp waits hpc hmissing hwaits
  case h_3 hpc => cases h; exact .readHandshake hpc
  case h_4 hpc => cases h; exact .removeHandshake hpc
  case h_5 hpc =>
    split at h
    case isTrue hmarker => cases h; exact .seeMarker hpc hmarker
    case isFalse hmarker =>
      rw [Bool.not_eq_true] at hmarker
      cases h
      exact .missMarker hpc hmarker
  case h_6 hpc => cases h; exact .terminateTimer hpc
  case h_7 waits hpc =>
    split at h
    case isTrue hwaits =>
      rw [Bool.and_eq_true, decide_eq_true_eq] at hwaits
      cases h
      exact .waitTimer waits hpc hwaits.2
    case isFalse => cases h; exact .endPolling waits hpc
  case h_8 hpc => cases h; exact .killTimer hpc
  case h_9 hpc =>
    split at h
    case isTrue hended => cases h; exact .reapWatchdog hpc hended
    case isFalse => cases h
  case h_10 hpc =>
    split at h
    case isTrue hmarker => cases h; exact .reportTimeout hpc hmarker
    case isFalse hmarker =>
      rw [Bool.not_eq_true] at hmarker
      cases h
      exact .reportNothing hpc hmarker
  case h_11 hpc => cases h; exact .removeMarker hpc
  case h_12 => cases h
  case h_13 => cases h

/-- A command of the watchdog. -/
theorem watchdog_command_step (h : watchdogCommand state = some next) :
    WatchdogStep timeout state .watchdog next := by
  unfold watchdogCommand at h
  split at h
  case h_1 hpc => cases h; exact .startTimer hpc
  case h_2 hpc => cases h; exact .openHandshake hpc
  case h_3 hpc => cases h; exact .writeHandshake hpc
  case h_4 hpc =>
    split at h
    case h_1 status htimer => cases h; exact .reapTimer status hpc htimer
    all_goals cases h
  case h_5 hpc =>
    split at h
    case isTrue hfound => cases h; exact .findChild hpc (ProcessState.found_iff.mp hfound)
    case isFalse hmissed =>
      rw [ProcessState.found_iff, not_not] at hmissed
      cases h
      exact .missChild hpc hmissed
  case h_6 hpc => cases h; exact .createMarker hpc
  case h_7 hpc => cases h; exact .killChild hpc
  case h_8 => cases h
  case h_9 => cases h

/-- `WatchdogStep` says what the step function does. -/
theorem watchdog_step_of {event : WatchdogEvent}
    (h : watchdogStep timeout state event = some next) :
    WatchdogStep timeout state event next := by
  cases event with
  | shell => exact shell_step h
  | watchdog => exact watchdog_command_step h
  | childEnds status =>
      simp only [watchdogStep] at h
      split at h
      case isTrue hchild => cases h; exact .childEnds status hchild
      case isFalse => cases h
  | timerExpires =>
      simp only [watchdogStep] at h
      split at h
      case isTrue htimer => cases h; exact .timerExpires htimer
      case isFalse => cases h
  | killFails message killed =>
      simp only [watchdogStep] at h
      split at h
      case isTrue hpc => cases h; exact .killFails message killed hpc
      case isFalse => cases h

end Steps

/-! ## The invariant -/

/-- Where the shell is with respect to the command, the handshake, the watchdog and the report. -/
def ShellPc.waitsForChild : ShellPc → Bool
  | .waitingChild => true
  | _ => false

def ShellPc.hasHandshake : ShellPc → Bool
  | .waitingChild | .pollingHandshake _ | .failed => false
  | _ => true

def ShellPc.removedHandshake : ShellPc → Bool
  | .waitingChild | .pollingHandshake _ | .readingHandshake | .removingHandshake | .failed => false
  | _ => true

def ShellPc.stoppedTimer : ShellPc → Bool
  | .pollingTimer _ | .killingTimer | .waitingWatchdog | .reporting | .removingMarker
  | .finished => true
  | _ => false

def ShellPc.reapedWatchdog : ShellPc → Bool
  | .reporting | .removingMarker | .finished => true
  | _ => false

def ShellPc.reported : ShellPc → Bool
  | .removingMarker | .finished => true
  | _ => false

/-- What the watchdog has done to the handshake. -/
def WatchdogPc.handshake : WatchdogPc → Handshake
  | .starting | .openingHandshake => .absent
  | .writingHandshake => .empty
  | _ => .written

/-- Whether the watchdog has got past the creation of the marker. -/
def WatchdogPc.marked : WatchdogPc → Bool
  | .killingChild | .ended | .reaped => true
  | _ => false

/-- Whether the watchdog has a timer that it has not waited for. -/
def WatchdogPc.ownsTimer : WatchdogPc → Bool
  | .openingHandshake | .writingHandshake | .waitingTimer => true
  | _ => false

/-- Whether the watchdog has yet to look for the command. -/
def WatchdogPc.beforeCheck : WatchdogPc → Bool
  | .starting | .openingHandshake | .writingHandshake | .waitingTimer | .checkingChild => true
  | _ => false

/-- What holds of the command: it can be found until the shell has waited for it, and the shell
then knows its status. -/
structure ChildWatched (state : WatchdogState) : Prop where
  reaped_iff : state.child = .reaped ↔ state.shell.waitsForChild = false
  zombie : ∀ status, state.child = .zombie status → state.childStatus = some status
  running : state.child = .running → state.childStatus = none
  reaped_status : state.child = .reaped → state.childStatus.isSome = true
  status_eq : state.shell.waitsForChild = false → state.shell.reported = false →
    state.childStatus = some state.status

/-- What holds of the timer: the watchdog waits for it, and while the command can be found it ends
by itself only. -/
structure TimerWatched (state : WatchdogState) : Prop where
  none_iff : state.timer = none ↔ state.watchdog = .starting
  reaped_iff : state.timer = some .reaped ↔
    state.watchdog ≠ .starting ∧ state.watchdog.ownsTimer = false
  expired : (∃ status, state.timer = some (.zombie status)) ∨ state.timer = some .reaped →
    state.expired = true ∨ state.child = .reaped
  fired_expired : state.fired = true → state.expired = true

/-- The timer does not run once its time is up, or once the shell has stopped it or seen the
marker. -/
structure TimerStopped (state : WatchdogState) : Prop where
  expired : state.expired = true → state.timer ≠ some .running ∧ state.timer ≠ none
  stopped : state.shell.stoppedTimer = true → state.timer ≠ some .running

/-- What holds of the marker: it is there from its creation, which follows the watchdog's finding of
the command, to its removal. -/
structure MarkerWatched (state : WatchdogState) : Prop where
  not_fired : state.watchdog.beforeCheck = true → state.fired = false
  firing : state.watchdog = .creatingMarker ∨ state.watchdog = .killingChild → state.fired = true
  marker_eq : state.marker =
    (state.fired && state.watchdog.marked && decide (state.shell ≠ .finished))
  watchdog_reaped_iff : state.watchdog = .reaped ↔ state.shell.reapedWatchdog = true

/-- What holds of the handshake: the shell has it only when the watchdog has handed it over. -/
structure HandshakeWatched (state : WatchdogState) : Prop where
  handshake_eq : state.handshake =
    if state.shell.removedHandshake then .absent else state.watchdog.handshake
  handed_over : state.shell.hasHandshake = true → state.watchdog.handshake = .written

/-- What the shell has reported. -/
structure ReportWatched (timeout : ResourceMarker) (state : WatchdogState) : Prop where
  unreported : state.shell.reported = false → state.shell ≠ .failed →
    state.stderr = state.faults
  failed : state.shell = .failed → timerFailure ∈ state.stderr
  timed_out : state.shell.reported = true → state.fired = true →
    state.status = timeoutStatus ∧ state.stderr = state.faults ++ [timeout]
  in_time : state.shell.reported = true → state.fired = false →
    state.childStatus = some state.status ∧ state.stderr = state.faults
  no_fault : state.fired = false → state.faults = []

/-- What holds in every state of a logical command under its watchdog. -/
structure Watched (timeout : ResourceMarker) (state : WatchdogState) : Prop where
  child : ChildWatched state
  timer : TimerWatched state
  stopped : TimerStopped state
  marker : MarkerWatched state
  handshake : HandshakeWatched state
  report : ReportWatched timeout state

section Invariant

variable {timeout : ResourceMarker} {state next : WatchdogState}

theorem watched_start : Watched timeout {} where
  child := by constructor <;> simp [ShellPc.waitsForChild]
  timer := by constructor <;> simp [WatchdogPc.ownsTimer]
  stopped := by constructor <;> simp [ShellPc.stoppedTimer]
  marker := by
    constructor <;> simp [WatchdogPc.beforeCheck, ShellPc.reapedWatchdog]
  handshake := by
    constructor <;> simp [WatchdogPc.handshake, ShellPc.removedHandshake, ShellPc.hasHandshake]
  report := by constructor <;> simp [ShellPc.reported]

/-- A step keeps what holds of the command. -/
theorem child_watched_step {event : WatchdogEvent} (h : ChildWatched state)
    (hstep : WatchdogStep timeout state event next) : ChildWatched next := by
  obtain ⟨hreaped, hzombie, hrunning, hknown, hstatus⟩ := h
  cases hstep with
  | killChild hpc =>
      cases hchild : state.child with
      | running => constructor <;> simp_all [ProcessState.signalled]
      | zombie status => constructor <;> simp_all [ProcessState.signalled]
      | reaped => constructor <;> simp_all [ProcessState.signalled]
  | killFails message killed hpc =>
      cases killed with
      | false => exact ⟨hreaped, hzombie, hrunning, hknown, hstatus⟩
      | true =>
          cases hchild : state.child with
          | running => constructor <;> simp_all [ProcessState.signalled]
          | zombie status => constructor <;> simp_all [ProcessState.signalled]
          | reaped => constructor <;> simp_all [ProcessState.signalled]
  | _ => constructor <;> simp_all [ShellPc.waitsForChild, ShellPc.reported]

/-- A step keeps what holds of the timer. -/
theorem timer_watched_step {event : WatchdogEvent} (hchild : ChildWatched state)
    (h : TimerWatched state) (hstep : WatchdogStep timeout state event next) :
    TimerWatched next := by
  obtain ⟨hnone, hreaped, hexpired, hfired⟩ := h
  have hwaits := hchild.reaped_iff
  cases hstep with
  | findChild hpc hfound =>
      -- The command can still be found, so the shell has not touched the timer.
      have hended : state.timer = some .reaped := hreaped.mpr (by simp [hpc, WatchdogPc.ownsTimer])
      have htime : state.expired = true := (hexpired (.inr hended)).resolve_right hfound
      constructor <;> simp_all [WatchdogPc.ownsTimer]
  | terminateTimer hpc =>
      have hgone : state.child = .reaped := hwaits.mpr (by rw [hpc]; rfl)
      cases htimer : state.timer with
      | none => constructor <;> simp_all
      | some timer => cases timer <;> constructor <;> simp_all [ProcessState.signalled]
  | killTimer hpc =>
      have hgone : state.child = .reaped := hwaits.mpr (by rw [hpc]; rfl)
      cases htimer : state.timer with
      | none => constructor <;> simp_all
      | some timer => cases timer <;> constructor <;> simp_all [ProcessState.signalled]
  | killChild hpc =>
      cases hat : state.child <;> constructor <;>
        simp_all [WatchdogPc.ownsTimer, ProcessState.signalled]
  | killFails message killed hpc =>
      cases hat : state.child <;> cases killed <;> constructor <;>
        simp_all [WatchdogPc.ownsTimer, ProcessState.signalled]
  | _ => constructor <;> simp_all [WatchdogPc.ownsTimer, ShellPc.waitsForChild]

/-- A step keeps what holds of the marker. -/
theorem marker_watched_step {event : WatchdogEvent} (h : MarkerWatched state)
    (hstep : WatchdogStep timeout state event next) : MarkerWatched next := by
  obtain ⟨hunfired, hfiring, hmarker, hreaped⟩ := h
  have hlive : state.watchdog ≠ .reaped → state.shell ≠ .finished := by
    rintro hnot hfinished
    exact hnot (hreaped.mpr (by rw [hfinished]; rfl))
  cases hstep with
  | createMarker hpc =>
      have hshell := hlive (by rw [hpc]; decide)
      constructor <;> simp_all [WatchdogPc.beforeCheck, WatchdogPc.marked]
  | killFails message killed hpc =>
      constructor <;> simp_all [WatchdogPc.beforeCheck, WatchdogPc.marked]
  | killChild hpc => constructor <;> simp_all [WatchdogPc.beforeCheck, WatchdogPc.marked]
  | findChild hpc => constructor <;> simp_all [WatchdogPc.beforeCheck, WatchdogPc.marked]
  | missChild hpc => constructor <;> simp_all [WatchdogPc.beforeCheck, WatchdogPc.marked]
  | startTimer hpc => constructor <;> simp_all [WatchdogPc.beforeCheck, WatchdogPc.marked]
  | openHandshake hpc => constructor <;> simp_all [WatchdogPc.beforeCheck, WatchdogPc.marked]
  | writeHandshake hpc => constructor <;> simp_all [WatchdogPc.beforeCheck, WatchdogPc.marked]
  | reapTimer status hpc => constructor <;> simp_all [WatchdogPc.beforeCheck, WatchdogPc.marked]
  | childEnds status => exact ⟨hunfired, hfiring, hmarker, hreaped⟩
  | timerExpires => exact ⟨hunfired, hfiring, hmarker, hreaped⟩
  | reapWatchdog hpc hended =>
      refine ⟨nofun, nofun, ?_, iff_of_true rfl rfl⟩
      rw [hmarker, hpc, hended]
      rfl
  | _ => constructor <;> simp_all [ShellPc.reapedWatchdog]

/-- A shell whose watchdog has not handed over its timer does not have it. -/
theorem not_removed_of_early (h : HandshakeWatched state)
    (hearly : state.watchdog.handshake ≠ .written) :
    state.shell.hasHandshake = false ∧ state.shell.removedHandshake = false := by
  have hnot : state.shell.hasHandshake = false := by
    by_contra hhas
    exact hearly (h.handed_over (by simpa using hhas))
  refine ⟨hnot, ?_⟩
  cases hpc : state.shell <;> rw [hpc] at hnot <;> first | rfl | cases hnot

/-- A step keeps what holds of the handshake. -/
theorem handshake_watched_step {event : WatchdogEvent} (h : HandshakeWatched state)
    (hstep : WatchdogStep timeout state event next) : HandshakeWatched next := by
  have hearly := not_removed_of_early h
  obtain ⟨heq, hhanded⟩ := h
  cases hstep with
  | startTimer hpc =>
      obtain ⟨hhas, hremoved⟩ := hearly (by rw [hpc]; decide)
      exact ⟨by simp [heq, hremoved, hpc, WatchdogPc.handshake], by simp [hhas]⟩
  | openHandshake hpc =>
      obtain ⟨hhas, hremoved⟩ := hearly (by rw [hpc]; decide)
      exact ⟨by simp [hremoved, WatchdogPc.handshake], by simp [hhas]⟩
  | writeHandshake hpc =>
      obtain ⟨hhas, hremoved⟩ := hearly (by rw [hpc]; decide)
      exact ⟨by simp [hremoved, WatchdogPc.handshake], by simp [hhas]⟩
  | reapTimer status hpc => exact ⟨by rw [heq, hpc]; rfl, fun _ => rfl⟩
  | findChild hpc => exact ⟨by rw [heq, hpc]; rfl, fun _ => rfl⟩
  | missChild hpc => exact ⟨by rw [heq, hpc]; rfl, fun _ => rfl⟩
  | createMarker hpc => exact ⟨by rw [heq, hpc]; rfl, fun _ => rfl⟩
  | killChild hpc => exact ⟨by rw [heq, hpc]; rfl, fun _ => rfl⟩
  | killFails message killed hpc => exact ⟨by rw [heq, hpc]; rfl, fun _ => rfl⟩
  | childEnds status => exact ⟨heq, hhanded⟩
  | timerExpires => exact ⟨heq, hhanded⟩
  | reapChild status hpc => exact ⟨by rw [heq, hpc]; rfl, nofun⟩
  | waitHandshake waits hpc => exact ⟨by rw [heq, hpc]; rfl, nofun⟩
  | giveUp waits hpc => exact ⟨by rw [heq, hpc]; rfl, nofun⟩
  | seeHandshake waits hpc hwritten =>
      have hsame : state.watchdog.handshake = .written := by
        rw [← hwritten, heq, hpc]
        rfl
      exact ⟨by rw [heq, hpc]; rfl, fun _ => hsame⟩
  | readHandshake hpc => exact ⟨by rw [heq, hpc]; rfl, fun _ => hhanded (by rw [hpc]; rfl)⟩
  | removeHandshake hpc => exact ⟨rfl, fun _ => hhanded (by rw [hpc]; rfl)⟩
  | reapWatchdog hpc hended => exact ⟨by rw [heq, hpc]; rfl, fun _ => rfl⟩
  | seeMarker hpc => exact ⟨by rw [heq, hpc]; rfl, fun _ => hhanded (by rw [hpc]; rfl)⟩
  | missMarker hpc => exact ⟨by rw [heq, hpc]; rfl, fun _ => hhanded (by rw [hpc]; rfl)⟩
  | terminateTimer hpc => exact ⟨by rw [heq, hpc]; rfl, fun _ => hhanded (by rw [hpc]; rfl)⟩
  | waitTimer waits hpc => exact ⟨by rw [heq, hpc]; rfl, fun _ => hhanded (by rw [hpc]; rfl)⟩
  | endPolling waits hpc => exact ⟨by rw [heq, hpc]; rfl, fun _ => hhanded (by rw [hpc]; rfl)⟩
  | killTimer hpc => exact ⟨by rw [heq, hpc]; rfl, fun _ => hhanded (by rw [hpc]; rfl)⟩
  | reportTimeout hpc => exact ⟨by rw [heq, hpc]; rfl, fun _ => hhanded (by rw [hpc]; rfl)⟩
  | reportNothing hpc => exact ⟨by rw [heq, hpc]; rfl, fun _ => hhanded (by rw [hpc]; rfl)⟩
  | removeMarker hpc => exact ⟨by rw [heq, hpc]; rfl, fun _ => hhanded (by rw [hpc]; rfl)⟩

/-- A shell that may have stopped the timer has its handshake. -/
theorem has_handshake_of_stopped (h : state.shell.stoppedTimer = true) :
    state.shell.hasHandshake = true := by
  cases hpc : state.shell <;> rw [hpc] at h <;> first | rfl | cases h

/-- A timer that was signalled does not run. -/
theorem signalled_not_running (timer : Option ProcessState) (status : Nat) :
    timer.map (ProcessState.signalled status) ≠ some .running := by
  cases timer with
  | none => simp
  | some process => cases process <;> simp [ProcessState.signalled]

/-- Nothing happens to the timer, and the shell has stopped it no more than before. -/
theorem TimerStopped.of_same (h : TimerStopped state) (htimer : next.timer = state.timer)
    (hexpired : next.expired = state.expired)
    (hshell : next.shell.stoppedTimer = true → state.shell.stoppedTimer = true) :
    TimerStopped next :=
  ⟨by rw [htimer, hexpired]; exact h.expired, fun hnext => by
    rw [htimer]
    exact h.stopped (hshell hnext)⟩

/-- A step keeps a stopped timer stopped. -/
theorem timer_stopped_step {event : WatchdogEvent} (htimer : TimerWatched state)
    (hmarker : MarkerWatched state) (hhandshake : HandshakeWatched state)
    (h : TimerStopped state) (hstep : WatchdogStep timeout state event next) :
    TimerStopped next := by
  cases hstep with
  | seeMarker hpc hseen =>
      -- The marker is created after the watchdog has waited for the timer.
      have hreaped : state.timer = some .reaped := by
        have heq := hmarker.marker_eq
        rw [hseen, eq_comm, Bool.and_eq_true, Bool.and_eq_true] at heq
        have hmarked := heq.1.2
        rw [htimer.reaped_iff]
        cases hwatchdog : state.watchdog <;> rw [hwatchdog] at hmarked <;>
          first | exact ⟨by decide, rfl⟩ | cases hmarked
      exact ⟨h.expired, fun _ => by simp [hreaped]⟩
  | terminateTimer hpc =>
      refine ⟨fun hexpired => ⟨signalled_not_running _ _, ?_⟩, fun _ => signalled_not_running _ _⟩
      simpa using (h.expired hexpired).2
  | killTimer hpc =>
      refine ⟨fun hexpired => ⟨signalled_not_running _ _, ?_⟩, fun _ => signalled_not_running _ _⟩
      simpa using (h.expired hexpired).2
  | startTimer hpc =>
      have hnone := htimer.none_iff.mpr hpc
      refine ⟨fun hexpired => absurd hnone (h.expired hexpired).2, fun hstopped => ?_⟩
      have hwritten := hhandshake.handed_over (has_handshake_of_stopped hstopped)
      rw [hpc] at hwritten
      cases hwritten
  | reapTimer status hpc => exact ⟨fun _ => by simp, fun _ => by simp⟩
  | timerExpires => exact ⟨fun _ => by simp, fun _ => by simp⟩
  | openHandshake => exact h.of_same rfl rfl id
  | writeHandshake => exact h.of_same rfl rfl id
  | findChild => exact h.of_same rfl rfl id
  | missChild => exact h.of_same rfl rfl id
  | createMarker => exact h.of_same rfl rfl id
  | killChild => exact h.of_same rfl rfl id
  | killFails => exact h.of_same rfl rfl id
  | childEnds => exact h.of_same rfl rfl id
  | waitTimer waits hpc => exact h.of_same rfl rfl fun _ => by rw [hpc]; rfl
  | endPolling waits hpc => exact h.of_same rfl rfl fun _ => by rw [hpc]; rfl
  | reapWatchdog hpc => exact h.of_same rfl rfl fun _ => by rw [hpc]; rfl
  | reportTimeout hpc => exact h.of_same rfl rfl fun _ => by rw [hpc]; rfl
  | reportNothing hpc => exact h.of_same rfl rfl fun _ => by rw [hpc]; rfl
  | removeMarker hpc => exact h.of_same rfl rfl fun _ => by rw [hpc]; rfl
  | _ => exact h.of_same rfl rfl nofun

/-- A shell that has reported has waited for the command and the watchdog. -/
theorem reaped_of_reported (hchild : ChildWatched state) (hmarker : MarkerWatched state)
    (hreported : state.shell.reported = true) :
    state.child = .reaped ∧ state.watchdog = .reaped := by
  rw [hchild.reaped_iff, hmarker.watchdog_reaped_iff]
  cases hpc : state.shell <;> rw [hpc] at hreported <;> first | exact ⟨rfl, rfl⟩ | cases hreported

/-- A step keeps what the shell has reported. -/
theorem report_watched_step {event : WatchdogEvent} (hchild : ChildWatched state)
    (hmarker : MarkerWatched state) (h : ReportWatched timeout state)
    (hstep : WatchdogStep timeout state event next) : ReportWatched timeout next := by
  have hreaped := reaped_of_reported hchild hmarker
  obtain ⟨hunreported, hfailed, htimedOut, hinTime, hnone⟩ := h
  cases hstep with
  | reportTimeout hpc hseen =>
      have hfired : state.fired = true := by
        have heq := hmarker.marker_eq
        rw [hseen, eq_comm, Bool.and_eq_true, Bool.and_eq_true] at heq
        exact heq.1.1
      have hstderr := hunreported (by rw [hpc]; rfl) (by rw [hpc]; decide)
      refine ⟨nofun, nofun, fun _ _ => ⟨rfl, ?_⟩, fun _ hnot => ?_, hnone⟩
      · exact congrArg (· ++ [timeout]) hstderr
      · rw [hfired] at hnot
        cases hnot
  | reportNothing hpc hmissing =>
      have hended : state.watchdog = .reaped :=
        hmarker.watchdog_reaped_iff.mpr (by rw [hpc]; rfl)
      have hfired : state.fired = false := by
        have heq := hmarker.marker_eq
        rw [hmissing, hended, hpc] at heq
        simpa [WatchdogPc.marked] using heq
      have hstderr := hunreported (by rw [hpc]; rfl) (by rw [hpc]; decide)
      have hstatus := hchild.status_eq (by rw [hpc]; rfl) (by rw [hpc]; rfl)
      refine ⟨nofun, nofun, fun _ hnot => ?_, fun _ _ => ⟨hstatus, hstderr⟩, hnone⟩
      rw [hfired] at hnot
      cases hnot
  | removeMarker hpc =>
      have hreported : state.shell.reported = true := by rw [hpc]; rfl
      exact ⟨nofun, nofun, fun _ => htimedOut hreported, fun _ => hinTime hreported, hnone⟩
  | giveUp waits hpc => exact ⟨nofun, fun _ => by simp, nofun, nofun, hnone⟩
  | findChild hpc =>
      refine ⟨hunreported, hfailed, fun hreported => ?_, fun hreported => ?_, nofun⟩
      · rw [(hreaped hreported).2] at hpc
        cases hpc
      · rw [(hreaped hreported).2] at hpc
        cases hpc
  | killChild hpc =>
      refine ⟨hunreported, hfailed, fun hreported => ?_, fun hreported => ?_, hnone⟩
      · rw [(hreaped hreported).2] at hpc
        cases hpc
      · rw [(hreaped hreported).2] at hpc
        cases hpc
  | killFails message killed hpc =>
      have hfired := hmarker.firing (.inr hpc)
      refine ⟨fun hbefore halive => ?_, fun hgone => ?_, fun hreported => ?_, fun hreported => ?_,
        fun hnot => ?_⟩
      · exact congrArg (· ++ [ResourceMarker.setup message]) (hunreported hbefore halive)
      · exact List.mem_append_left _ (hfailed hgone)
      · rw [(hreaped hreported).2] at hpc
        cases hpc
      · rw [(hreaped hreported).2] at hpc
        cases hpc
      · rw [hfired] at hnot
        cases hnot
  | childEnds status hrunning =>
      refine ⟨hunreported, hfailed, htimedOut, fun hreported => ?_, hnone⟩
      rw [(hreaped hreported).1] at hrunning
      cases hrunning
  | startTimer => exact ⟨hunreported, hfailed, htimedOut, hinTime, hnone⟩
  | openHandshake => exact ⟨hunreported, hfailed, htimedOut, hinTime, hnone⟩
  | writeHandshake => exact ⟨hunreported, hfailed, htimedOut, hinTime, hnone⟩
  | reapTimer => exact ⟨hunreported, hfailed, htimedOut, hinTime, hnone⟩
  | missChild => exact ⟨hunreported, hfailed, htimedOut, hinTime, hnone⟩
  | createMarker => exact ⟨hunreported, hfailed, htimedOut, hinTime, hnone⟩
  | timerExpires => exact ⟨hunreported, hfailed, htimedOut, hinTime, hnone⟩
  | _ => constructor <;> simp_all [ShellPc.reported]

/-- A step keeps the invariant. -/
theorem watched_step {event : WatchdogEvent} (h : Watched timeout state)
    (hstep : watchdogStep timeout state event = some next) : Watched timeout next where
  child := child_watched_step h.child (watchdog_step_of hstep)
  timer := timer_watched_step h.child h.timer (watchdog_step_of hstep)
  stopped := timer_stopped_step h.timer h.marker h.handshake h.stopped (watchdog_step_of hstep)
  marker := marker_watched_step h.marker (watchdog_step_of hstep)
  handshake := handshake_watched_step h.handshake (watchdog_step_of hstep)
  report := report_watched_step h.child h.marker h.report (watchdog_step_of hstep)

theorem watched_of_after {events : List WatchdogEvent}
    (h : Runs.after (watchdogStep timeout) {} events = some state) : Watched timeout state :=
  Runs.after_invariant watched_step watched_start h

end Invariant

/-! ## How a run ends -/

/-- Nothing is left of a logical command: no process, neither file. -/
structure NothingLeft (state : WatchdogState) : Prop where
  child : state.child = .reaped
  watchdog : state.watchdog = .reaped
  timer : state.timer = some .reaped
  handshake : state.handshake = .absent
  marker : state.marker = false

section Outcome

variable {timeout : ResourceMarker} {state : WatchdogState}

theorem nothing_left_of_finished (h : Watched timeout state) (hfinished : state.shell = .finished) :
    NothingLeft state where
  child := h.child.reaped_iff.mpr (by rw [hfinished]; rfl)
  watchdog := h.marker.watchdog_reaped_iff.mpr (by rw [hfinished]; rfl)
  timer := by
    have hreaped := h.marker.watchdog_reaped_iff.mpr (by rw [hfinished]; rfl)
    exact h.timer.reaped_iff.mpr (by rw [hreaped]; exact ⟨by decide, rfl⟩)
  handshake := by rw [h.handshake.handshake_eq, hfinished]; rfl
  marker := by rw [h.marker.marker_eq, hfinished]; simp

/-- When the shell comes to the end, nothing is left behind. A timeout is reported if the watchdog
found the command after the time was up, with the status of a timeout; otherwise the status is
the command's own and nothing is reported. -/
theorem watchdog_outcome (timeout : ResourceMarker) (events : List WatchdogEvent)
    (state : WatchdogState) (hrun : Runs.after (watchdogStep timeout) {} events = some state)
    (hfinished : state.shell = .finished) :
    NothingLeft state ∧
      (state.fired = true → state.expired = true ∧ state.status = timeoutStatus ∧
        state.stderr = state.faults ++ [timeout]) ∧
      (state.fired = false → state.childStatus = some state.status ∧ state.stderr = []) := by
  have h := watched_of_after hrun
  have hreported : state.shell.reported = true := by
    rw [hfinished]
    rfl
  refine ⟨nothing_left_of_finished h hfinished, fun hfired => ?_, fun hunfired => ?_⟩
  · obtain ⟨hstatus, hstderr⟩ := h.report.timed_out hreported hfired
    exact ⟨h.timer.fired_expired hfired, hstatus, hstderr⟩
  · obtain ⟨hstatus, hstderr⟩ := h.report.in_time hreported hunfired
    rw [h.report.no_fault hunfired] at hstderr
    exact ⟨hstatus, hstderr⟩

end Outcome

/-- The watchdog starts its timer and hands it over. -/
def timerHandedOver : List WatchdogEvent :=
  [.watchdog, .watchdog, .watchdog]

/-- A command runs out of time: it is killed before the shell has waited for it. -/
theorem killed_command_outcome :
    ∃ state, Runs.after (watchdogStep (timeoutMarker .action 0 60)) {}
        (timerHandedOver ++
          [.timerExpires, .watchdog, .watchdog, .watchdog, .watchdog, .shell, .shell, .shell,
            .shell, .shell, .shell, .shell, .shell]) = some state ∧
      state.shell = .finished ∧ NothingLeft state ∧ state.fired = true ∧
        state.status = timeoutStatus ∧ state.stderr = [.actionTimeout 60] := by
  obtain ⟨state, hrun, hfinished, hfired, hfaults⟩ :
      ∃ state, Runs.after (watchdogStep (timeoutMarker .action 0 60)) {}
          (timerHandedOver ++
            [.timerExpires, .watchdog, .watchdog, .watchdog, .watchdog, .shell, .shell, .shell,
              .shell, .shell, .shell, .shell, .shell]) = some state ∧
        state.shell = .finished ∧ state.fired = true ∧ state.faults = [] :=
    ⟨_, rfl, rfl, rfl, rfl⟩
  obtain ⟨hleft, htimedOut, -⟩ := watchdog_outcome _ _ state hrun hfinished
  obtain ⟨-, hstatus, hstderr⟩ := htimedOut hfired
  rw [hfaults] at hstderr
  exact ⟨state, hrun, hfinished, hleft, hfired, hstatus, hstderr⟩

end Quokka
