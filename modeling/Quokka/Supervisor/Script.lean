import Quokka.Supervisor.Watchdog

/-!
# The supervisor script

`resource_supervisor.sh` from its first command to its exit: it creates the control groups of an
action, runs the logical commands one after another, reports what ran out of memory and removes the
control groups. `quokka_fail` ends it anywhere, and then the exit trap cleans up.

The state is made of the variables of the script, of the control groups that it has created and of
the one that it is in. What the worker answers is not fixed: each command that may fail asks the
next answer of `Worker`, so a theorem for all workers is one for every failure at every place. A
logical command between its start and the end of its watchdog is a run of `watchdogStep`; the
script sees the state in which that ends. A command that cannot join its control group is not run:
the shell around it says so and ends with status 125, and the script goes on.

Of the error output the lines with the marker token are kept, which are those of the script, of its
watchdogs and of the shells around the commands. What the commands themselves write there, the
shell's own message about a job that was killed and the messages of utilities that fail are left
out.

Signals, the signalling of processes in `quokka_cleanup` and the two temporary files between their
creation and the start of the watchdog are left out.
-/

namespace Quokka

/-- Whether a process ran out of memory between two readings. -/
def OomCounters.grew (counters : OomCounters) : Bool :=
  counters.oomBefore < counters.oomAfter || counters.oomKillBefore < counters.oomKillAfter

namespace Supervisor

/-! ## The worker and the state of the script -/

/-- Text on one line. -/
abbrev MessageLine := {text : List UInt8 // 0x0A ∉ text}

/-- A text of the script. -/
def oneLine (text : String) (h : 0x0A ∉ Text.bytes text) : MessageLine :=
  ⟨Text.bytes text, h⟩

/-- A text of the script with a path behind it. -/
def quoting (text : String) (h : 0x0A ∉ Text.bytes text) (path : MessageLine) : MessageLine :=
  ⟨Text.bytes text ++ path.val, by simpa using ⟨h, path.property⟩⟩

/-- A worker, as far as the script can see it: whether it is a remote Linux worker, the path of its
control group, the paths that `mktemp` makes up, and what it answers. The answer to a question is
nothing when the command fails, and otherwise the number or the words that it reads. -/
structure Worker where
  remoteLinux : Bool
  currentCgroupPath : MessageLine
  createdPath : Nat → MessageLine
  answer : Nat → Option Nat
  words : Nat → Option (List String)

namespace Worker

variable (worker : Worker)

end Worker

/-- A logical command and the state in which its watchdog leaves it. A command that could not join
its control group has said so after this many lines of the watchdog. -/
structure LogicalRun where
  index : UInt64
  outcome : WatchdogState
  joinFailure : Option Nat := none

/-- What the script has seen: the end of a logical command in a control group, if it has one, and
of its watchdog, the counters of a logical command's control group, or those of the action's. -/
inductive Seen where
  | ended (logical : LogicalRun) (cgroup : Option MessageLine)
  | logicalCounters (index : UInt64) (counters : OomCounters)
  | actionCounters (counters : OomCounters)

/-- A control group outside of the action's that the script can go back to: the runner's own one,
around the action's or in it, a leaf that the script makes, or the one around the action's. -/
inductive ReturnCgroup where
  | runnerSelf
  | parentRunnerSelf
  | returnLeaf
  | outer
  deriving DecidableEq, Repr

/-- The control group that the script is in. -/
inductive Place where
  | action
  | supervisor (cgroup : Nat)
  | returned (found : ReturnCgroup)
  deriving DecidableEq, Repr

/-- The variables of the script and the control groups that it has created and not removed: those
of `mktemp`, known by their turn, and `returnLeaf`, whether the leaf for the way back is there. The
field `markers` holds the lines with the token on the error output, `history` what the script has
seen, and `failure` the last message of `quokka_fail`. -/
structure SupervisorState where
  asked : Nat := 0
  created : Nat := 0
  cgroups : List Nat := []
  returnLeaf : Bool := false
  place : Place := .action
  actionCgroup : Option Nat := none
  logicalCgroup : Option Nat := none
  supervisorCgroup : Option Nat := none
  supervisorReturnCgroup : Option ReturnCgroup := none
  actionOomBefore : Nat := 0
  actionOomKillBefore : Nat := 0
  cleanupRunning : Bool := false
  markers : List ResourceMarker := []
  history : List Seen := []
  failure : Option MessageLine := none

/-- A part of the script; it may exit with a status. -/
abbrev SupervisorM := EStateM Nat SupervisorState

/-! ## The functions of the script -/

section Script

/-- `quokka_fail`. -/
def quokkaFail {α : Type} (message : MessageLine) : SupervisorM α := do
  modify fun state =>
    { state with markers := state.markers ++ [.setup message], failure := some message }
  throw 2

variable (worker : Worker)

/-- Ask for a number. -/
def ask : SupervisorM (Option Nat) := do
  let state ← get
  modify fun state => { state with asked := state.asked + 1 }
  pure (worker.answer state.asked)

/-- A value that is read, with `|| quokka_fail` behind it. -/
def readOr (message : MessageLine) : SupervisorM Nat := do
  match ← ask worker with
  | some value => pure value
  | none => quokkaFail message

/-- A command with `|| quokka_fail` behind it. -/
def require (message : MessageLine) : SupervisorM Unit := do
  let _ ← readOr worker message

/-- The waits for a control group to become empty. -/
def awaitEmpty (cgroup : Nat) : Nat → SupervisorM Unit
  | 0 => quokkaFail (quoting "child cgroup did not empty: " (by decide) (worker.createdPath cgroup))
  | waits + 1 => do
      let populated ← readOr worker
        (quoting "cannot read child cgroup population: " (by decide) (worker.createdPath cgroup))
      if populated = 0 then pure () else awaitEmpty cgroup waits

/-- `quokka_kill_cgroup`. -/
def killCgroup (cgroup : Nat) : SupervisorM Unit := do
  let state ← get
  if cgroup ∈ state.cgroups then
    require worker (quoting "remote Linux tests require cgroup.kill: " (by decide)
      (worker.createdPath cgroup))
    require worker
      (quoting "cannot kill child cgroup " (by decide) (worker.createdPath cgroup))
    awaitEmpty worker cgroup 1000
  else pure ()

/-- A directory is gone. -/
def dropCgroup (cgroup : Nat) : SupervisorM Unit :=
  modify fun state => { state with cgroups := state.cgroups.filter (· ≠ cgroup) }

/-- `quokka_remove_cgroup`. -/
def removeCgroup (cgroup : Nat) : SupervisorM Unit := do
  let state ← get
  if cgroup ∈ state.cgroups then
    killCgroup worker cgroup
    require worker
      (quoting "cannot remove child cgroup " (by decide) (worker.createdPath cgroup))
    dropCgroup cgroup
  else pure ()

/-- Something that is done if a variable is set. -/
def ifSet (cgroup : Option Nat) (action : Nat → SupervisorM Unit) : SupervisorM Unit :=
  match cgroup with
  | some cgroup => action cgroup
  | none => pure ()

/-- `quokka_cleanup`. -/
def cleanup : SupervisorM Unit := do
  let state ← get
  if state.cleanupRunning then pure ()
  else
    modify fun state => { state with cleanupRunning := true }
    ifSet state.logicalCgroup (removeCgroup worker)
    modify fun state => { state with logicalCgroup := none }
    ifSet state.actionCgroup (removeCgroup worker)
    modify fun state => { state with actionCgroup := none }
    ifSet state.supervisorCgroup fun cgroup => do
      require worker (oneLine "cannot leave action supervisor cgroup" (by decide))
      modify fun state =>
        { state with place := state.supervisorReturnCgroup.elim state.place .returned }
      require worker (oneLine "cannot remove action supervisor cgroup" (by decide))
      dropCgroup cgroup
      modify fun state => { state with supervisorCgroup := none, supervisorReturnCgroup := none }

variable (granularity : CgroupGranularity) (memoryMax : CgroupMemoryMax)

/-- The line of the shell around a command that cannot join its control group. -/
def joinFailureMarker (cgroup : MessageLine) : ResourceMarker :=
  .setup (quoting "cannot join child cgroup " (by decide) cgroup)

/-- The lines about a logical command. Without a control group there is none to join. -/
def LogicalRun.lines (logical : LogicalRun) (cgroup : Option MessageLine) : List ResourceMarker :=
  match cgroup, logical.joinFailure with
  | some cgroup, some before =>
      logical.outcome.stderr.take before ++
        joinFailureMarker cgroup :: logical.outcome.stderr.drop before
  | _, _ => logical.outcome.stderr

/-- The lines about something that was seen. -/
def Seen.lines : Seen → List ResourceMarker
  | .ended logical cgroup => logical.lines cgroup
  | .logicalCounters index counters =>
      if counters.grew then [.logicalOom index memoryMax counters] else []
  | .actionCounters counters => if counters.grew then [.actionOom memoryMax counters] else []

/-- Report something that was seen. -/
def report (seen : Seen) : SupervisorM Unit :=
  modify fun state =>
    { state with
      markers := state.markers ++ seen.lines memoryMax
      history := state.history ++ [seen] }

/-- `quokka_finish_action`, up to its exit with the status. -/
def finishAction : SupervisorM Unit := do
  let state ← get
  ifSet state.actionCgroup fun cgroup => do
    let oomAfter ← readOr worker (oneLine "cannot read action oom counter" (by decide))
    let oomKillAfter ← readOr worker (oneLine "cannot read action oom_kill counter" (by decide))
    report memoryMax (.actionCounters
      ⟨state.actionOomBefore, oomAfter, state.actionOomKillBefore, oomKillAfter⟩)
    removeCgroup worker cgroup
    modify fun state => { state with actionCgroup := none }
  cleanup worker

end Script

end Supervisor

end Quokka
