import Quokka.Library.WeakestPre
import Quokka.Supervisor.Script
import Quokka.Supervisor.WatchdogEnding

/-!
# The supervisor cleans up

Every run of the supervisor script ends in one of two ways (`supervisor_ends_cleanly`): the control
groups that it has made with `mktemp` are gone, it is back outside of the action's, where at most
the leaf for the way back is left, and its status and the lines with its token say what happened to
the logical commands; or it has itself reported a setup failure and exits with status 2.
-/

namespace Quokka.Supervisor

/-! ## What each function leaves behind

`Ends` is the weakest precondition of a part of the script that is meant to come to its end: should
it exit instead, then with a setup failure. Every lemma says what a function leaves behind if it
comes to its end, whatever the worker answers; how many questions were asked is left open. -/

open Fallible

section Rules

variable {worker : Worker} {α β : Type} {state : SupervisorState}

end Rules

section Functions

variable {worker : Worker} {state : SupervisorState}

/-- A leaf is made only for a way back that does not lead into a runner's own control group. -/
def LeafFor (returnLeaf : Bool) (found : ReturnCgroup) : Prop :=
  returnLeaf = true → found = .returnLeaf ∨ found = .outer

end Functions

/-! ## Cleaning up -/

/-- Every control group that is there is known to the script by one of its variables. -/
def Owned (state : SupervisorState) : Prop :=
  ∀ cgroup ∈ state.cgroups, state.logicalCgroup = some cgroup ∨
    state.actionCgroup = some cgroup ∨ state.supervisorCgroup = some cgroup

section Cleanup

variable {worker : Worker} {state : SupervisorState}

end Cleanup

/-! ## A whole run -/

/-- A path that is left open. -/
def somePath : MessageLine :=
  oneLine "" (by decide)

/-- What was seen, without the paths of control groups and the counters that were read. -/
def Seen.shape : Seen → Seen
  | .ended logical cgroup => .ended logical (cgroup.map fun _ => somePath)
  | .logicalCounters index _ => .logicalCounters index ⟨0, 0, 0, 0⟩
  | .actionCounters _ => .actionCounters ⟨0, 0, 0, 0⟩

/-- Where the script runs: on a remote worker in a control group of its own, with a way back. -/
def Entered (worker : Worker) (state : SupervisorState) : Prop :=
  (worker.remoteLinux = true ∧ state.supervisorCgroup.isSome = true ∧
    ∃ found, state.supervisorReturnCgroup = some found ∧ LeafFor state.returnLeaf found) ∨
  (worker.remoteLinux = false ∧ state.supervisorCgroup = none ∧ state.place = .action ∧
    state.returnLeaf = false)

/-- The status of the shell around a command that cannot join its control group. -/
def joinFailureStatus : Nat := 125

/-- The logical command has run under its watchdog up to the end of it. One that could not join its
control group has ended by itself, before the shell that waits for it went on: only a watchdog that
cannot kill the control group may have said so earlier. -/
structure LogicalRun.Possible (granularity : CgroupGranularity) (timeoutSeconds : Nat)
    (logical : LogicalRun) : Prop where
  runs : ∃ events, Runs.after
    (watchdogStep (timeoutMarker granularity logical.index timeoutSeconds)) {} events =
      some logical.outcome
  ended : ShellEnded logical.outcome
  unjoined : ∀ before, logical.joinFailure = some before →
    logical.outcome.childStatus = some joinFailureStatus ∧
      before ≤ logical.outcome.faults.length

section Run

variable {worker : Worker} {granularity : CgroupGranularity} {memoryMax : CgroupMemoryMax}
  {timeoutSeconds : Nat} {state : SupervisorState} {logical : LogicalRun} {expected : List Seen}

/-- The state of the script while a logical command runs. -/
structure Inside (worker : Worker) (granularity : CgroupGranularity) (memoryMax : CgroupMemoryMax)
    (expected : List Seen) (state : SupervisorState) : Prop where
  owned : Owned state
  own_cgroup : state.logicalCgroup.isSome = worker.remoteLinux
  shared_cgroup : granularity = .action →
    state.logicalCgroup = none ∨ state.logicalCgroup = state.actionCgroup
  action : state.actionCgroup.isSome = (worker.remoteLinux && granularity = .action)
  entered : Entered worker state
  running : state.cleanupRunning = false
  unfailed : state.failure = none
  shape : state.history.map Seen.shape = expected
  reported : state.markers = state.history.flatMap (Seen.lines memoryMax)

/-- A report is one more thing that was seen. -/
theorem Inside.report (h : Inside worker granularity memoryMax expected state) (seen : Seen) :
    Inside worker granularity memoryMax (expected ++ [seen.shape])
      { state with
        markers := state.markers ++ seen.lines memoryMax
        history := state.history ++ [seen] } where
  owned := h.owned
  own_cgroup := h.own_cgroup
  shared_cgroup := h.shared_cgroup
  action := h.action
  entered := h.entered
  running := h.running
  unfailed := h.unfailed
  shape := by simp [h.shape]
  reported := by simp [h.reported]

end Run

end Quokka.Supervisor
