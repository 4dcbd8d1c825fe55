import Quokka.DurationDb.Files
import Quokka.Library.Runs
import Quokka.Scheduler.Reporter

/-!
# The session protocol

A test session between buck2 and the runner, after `executor_server.rs`, `drive_to_completion` of
`run.rs` and `run` of `scheduler.rs`. Its parties are buck2, which calls the executor service;
the scheduler, which takes the envelopes from its intake; one task for each received target; the
reporter, which takes messages from a bounded channel; and the call that ends the session.

`sessionStep` is one step of one party and a run is any sequence of steps, so a result about runs
holds for every interleaving. What a target sends is `runTarget`, whose answers are those of its
orchestrator; its messages may be sent in any order. `SessionStep` says once what each step does,
and `session_step_iff` that it says the same as the step function.

A call of the orchestrator is taken to be answered, be it with an error. As in `finishSession`, the
reporter ends without the flush of the duration database, whose error changes nothing here and
whose panic would be a reporter that panicked.

The fields `accepted`, `sentByScheduler`, `arrived` and `endReports` are history: no step reads
them.
-/

namespace Quokka

/-- The number of messages that the reporter's channel holds. -/
def maxReportQueue : Nat := 1024

/-- The largest number of permits of a semaphore; more of them panic. -/
def maxPermits : Nat := 2 ^ 61 - 1

/-- The exit code reported when the scheduler itself panics. -/
def schedulerPanicExit : Int := 70

/-! ## The executor service -/

/-- A request to the executor service. -/
inductive ExecutorRequest where
  | externalRunnerSpec (testSpec : Option ExternalRunnerSpec)
  | endOfTestRequests
  | unstableHeapDump

/-- How the executor service refuses a request. -/
inductive RpcStatus where
  | invalidArgument (message : String)
  | unavailable (message : String)
  | unimplemented (message : String)
  deriving DecidableEq, Repr

/-- Hand an envelope to the scheduler; this fails if the scheduler has dropped its end. -/
def sendEnvelope (receiverOpen : Bool) (envelope : SpecEnvelope) :
    Except RpcStatus SpecEnvelope :=
  if receiverOpen then .ok envelope
  else .error (.unavailable "test runner scheduler is no longer accepting specs")

/-- The answer to a request: the envelope that was handed over, or a refusal. -/
def ExecutorRequest.answer (receiverOpen : Bool) :
    ExecutorRequest → Except RpcStatus SpecEnvelope
  | .externalRunnerSpec none =>
      .error (.invalidArgument "ExternalRunnerSpecRequest missing test_spec")
  | .externalRunnerSpec (some spec) => sendEnvelope receiverOpen (.spec spec)
  | .endOfTestRequests => sendEnvelope receiverOpen .endOfRequests
  | .unstableHeapDump => .error (.unimplemented "quokka does not support heap dumps")

/-! ## The setup of a session -/

/-- What a session is started with. `estimateFiles` and `reporterFiles` are the files of the
duration database when the scheduler and the reporter load it; `orch` gives the answers to the
target that is received as the `k`-th one. -/
structure SessionSetup where
  config : RunnerConfig
  context : SessionContext
  profile : BuildProfile
  io : ReporterIo
  maxInflightTestActions : Nat
  maxInflightListings : Nat
  estimateFiles : DbFiles
  reporterFiles : DbFiles
  orch : Nat → Orchestrator

/-- Allocate a semaphore. -/
def newSemaphore (permits : Nat) : MayPanic Unit :=
  if permits ≤ maxPermits then .ok ()
  else .error "a semaphore may not have more than MAX_PERMITS permits"

/-- Load the duration database, or start an empty one. -/
def loadDb (profile : BuildProfile) (dir : Option String) (files : DbFiles) :
    MayPanic DurationDb :=
  match dir with
  | some dir => DurationDb.load profile dir files
  | none => .ok DurationDb.ephemeral

namespace SessionSetup

variable (setup : SessionSetup)

/-- What the scheduler does before it takes an envelope: the databases for the estimates and for
the reporter. -/
def prologue : MayPanic (DurationDb × DurationDb) := do
  newSemaphore setup.maxInflightTestActions
  newSemaphore setup.maxInflightListings
  let estimates ← loadDb setup.profile setup.config.durationDb.persistentPath setup.estimateFiles
  let reporterDb ← loadDb setup.profile setup.config.durationDb.persistentPath setup.reporterFiles
  pure (estimates, reporterDb)

/-- The estimates; they are read only after the prologue. -/
def estimates : DurationDb :=
  (setup.prologue.toOption.map Prod.fst).getD DurationDb.ephemeral

/-- The reporter's database; it is read only after the prologue. -/
def reporterDb : DurationDb :=
  (setup.prologue.toOption.map Prod.snd).getD DurationDb.ephemeral

/-- The context of the target that is received as the `k`-th one. -/
def targetCtx (k : Nat) : TargetCtx where
  config := setup.config
  estimates := setup.estimates
  profile := setup.profile
  orch := setup.orch k

end SessionSetup

/-! ## The parties -/

/-- Where the scheduler is. -/
inductive SchedulerPc where
  /-- Without a session to run: the envelopes up to the end of requests are thrown away. -/
  | draining (exitCode : Int)
  | receiving
  /-- The override targets that are still to be reported as missing. -/
  | reportingMissing (targets : List String)
  | joining
  /-- All targets have ended and the scheduler's end of the reporter's channel is dropped. -/
  | awaitingReporter (anyTargetPanicked : Bool)
  | returned (exitCode : Int)
  /-- `end_of_test_results` has been sent. -/
  | ended (exitCode : Int)
  deriving DecidableEq, Repr

/-- Whether the scheduler still holds its end of the intake channel. -/
def SchedulerPc.receiverOpen : SchedulerPc → Bool
  | .draining _ | .receiving | .reportingMissing _ | .joining | .awaitingReporter _ => true
  | .returned _ | .ended _ => false

/-- Where the reporter is. -/
inductive ReporterPc where
  | absent
  | running (state : ReporterState)
  | panicked (message : String)
  | finished (state : ReporterState)

/-- The state of a reporter that has finished. -/
def ReporterPc.finalState : ReporterPc → Option ReporterState
  | .finished state => some state
  | .absent | .running _ | .panicked _ => none

/-- How a target task stands. -/
inductive TargetStatus where
  | running
  | finished
  | panicked
  deriving DecidableEq, Repr

/-- A target task: what it has yet to send, and what it has sent. -/
structure TargetProcess where
  unsent : List ReporterMessage
  sent : List ReporterMessage := []
  status : TargetStatus := .running

/-- The task as the verdict of the run sees it. -/
def TargetProcess.task (process : TargetProcess) : TargetTask :=
  ⟨process.sent, process.status = .panicked⟩

/-- The target task of a specification. -/
def TargetProcess.spawn [External] (ctx : TargetCtx) (spec : ExternalRunnerSpec) :
    TargetProcess :=
  { unsent := (runTarget ctx spec).messages }

/-- The state of a session. -/
structure SessionState where
  pc : SchedulerPc
  /-- The task that serves the executor service is alive, and so is its end of the intake. -/
  serving : Bool := true
  accepted : List SpecEnvelope := []
  intake : List SpecEnvelope := []
  received : List ExternalRunnerSpec := []
  targets : List TargetProcess := []
  sentByScheduler : List ReporterMessage := []
  queue : List ReporterMessage := []
  reporter : ReporterPc := .absent
  arrived : List ReporterMessage := []
  endReports : List Int := []

/-- A step of a party. -/
inductive SessionEvent where
  | request (request : ExecutorRequest)
  /-- The server task ends before it is told to. -/
  | serverExit
  /-- The scheduler takes an envelope, or finds the intake closed. -/
  | receive
  | sendMissing
  | missingSent
  /-- The `k`-th target sends the `i`-th message that it has yet to send. -/
  | targetSend (k i : Nat)
  | targetFinish (k : Nat)
  | targetPanic (k : Nat)
  | joinTargets
  | reporterReceive
  | reporterFinish
  | awaitReporter
  | endOfTestResults

/-! ## The steps -/

namespace SessionState

/-- The queue after a message is sent to the reporter. The sender waits while the queue is full;
once the reporter is gone the message is lost. -/
def queueAfterSend (state : SessionState) (message : ReporterMessage) :
    Option (List ReporterMessage) :=
  match state.reporter with
  | .running _ =>
      if state.queue.length < maxReportQueue then some (state.queue ++ [message]) else none
  | .absent | .panicked _ | .finished _ => some state.queue

/-- The override targets that are missing after what was received. -/
def missingTargets (config : RunnerConfig) (state : SessionState) : List String :=
  missingCgroupOverrideTargets config (receivedOverrideTargets config state.received)

/-- The verdict that the scheduler gets from the reporter, once that has ended. -/
def reporterVerdict (state : SessionState) : Option RunVerdict :=
  match state.reporter with
  | .absent | .running _ => none
  | .panicked _ => some .fail
  | .finished reporter => some reporter.verdict

/-- Change the `k`-th target. -/
def setTarget (state : SessionState) (k : Nat) (process : TargetProcess) : SessionState :=
  { state with targets := state.targets.set k process }

/-- The `k`-th target, if it is running. -/
def runningTarget (state : SessionState) (k : Nat) : Option TargetProcess :=
  (state.targets[k]?).filter fun process => process.status = .running

end SessionState

/-- The message for an override target that was not received. -/
def missingTargetMessage (target : String) : ReporterMessage :=
  .targetDropped ("cgroup memory override target was not received: " ++ target)

section Steps

variable [External] (setup : SessionSetup)

/-- The start of a session. -/
def SessionState.start : SessionState :=
  if setup.config.libtestHelpOnly then { pc := .draining 0 }
  else if setup.config.libtestUsageError.isSome then { pc := .draining nonzeroExit }
  else
    match setup.prologue with
    | .error _ => { pc := .returned schedulerPanicExit }
    | .ok (_, reporterDb) =>
        { pc := .receiving
          reporter := .running (ReporterState.start setup.io reporterDb) }

/-- Take an envelope while there is no session to run. -/
def drainIntake (state : SessionState) (exitCode : Int) : Option SessionState :=
  match state.intake with
  | [] => if state.serving then none else some { state with pc := .returned exitCode }
  | .endOfRequests :: rest => some { state with pc := .returned exitCode, intake := rest }
  | .spec _ :: rest => some { state with intake := rest }

/-- Leave the intake loop. -/
def leaveIntake (state : SessionState) : SessionState :=
  { state with pc := .reportingMissing (state.missingTargets setup.config) }

/-- Take an envelope: a specification starts a target task. -/
def takeEnvelope (state : SessionState) : Option SessionState :=
  match state.intake with
  | [] => if state.serving then none else some (leaveIntake setup state)
  | .endOfRequests :: rest => some { leaveIntake setup state with intake := rest }
  | .spec spec :: rest =>
      some
        { state with
          intake := rest
          received := state.received ++ [spec]
          targets := state.targets ++
            [.spawn (setup.targetCtx state.received.length) spec] }

/-- Answer a request. -/
def serveRequest (state : SessionState) (request : ExecutorRequest) : Option SessionState :=
  if !state.serving then none
  else
    match request.answer state.pc.receiverOpen with
    | .error _ => some state
    | .ok envelope =>
        some
          { state with
            accepted := state.accepted ++ [envelope]
            intake := state.intake ++ [envelope] }

/-- The reporter takes a message; when it panics, its end of the channel is dropped. -/
def reporterTakes (state : SessionState) : Option SessionState :=
  match state.reporter, state.queue with
  | .running reporter, message :: rest =>
      match reporterStep setup.profile setup.io reporter message with
      | .ok next =>
          some
            { state with
              reporter := .running next
              queue := rest
              arrived := state.arrived ++ [message] }
      | .error panic =>
          some
            { state with
              reporter := .panicked panic
              queue := []
              arrived := state.arrived ++ [message] }
  | _, _ => none

/-- One step of a session. -/
def sessionStep (state : SessionState) : SessionEvent → Option SessionState
  | .request request => serveRequest state request
  | .serverExit => if state.serving then some { state with serving := false } else none
  | .receive =>
      match state.pc with
      | .draining exitCode => drainIntake state exitCode
      | .receiving => takeEnvelope setup state
      | _ => none
  | .sendMissing =>
      match state.pc with
      | .reportingMissing (target :: rest) =>
          (state.queueAfterSend (missingTargetMessage target)).map fun queue =>
            { state with
              pc := .reportingMissing rest
              queue
              sentByScheduler := state.sentByScheduler ++ [missingTargetMessage target] }
      | _ => none
  | .missingSent =>
      match state.pc with
      | .reportingMissing [] => some { state with pc := .joining }
      | _ => none
  | .targetSend k i => do
      let process ← state.runningTarget k
      let message ← process.unsent[i]?
      let queue ← state.queueAfterSend message
      pure
        { state.setTarget k
            { process with
              unsent := process.unsent.eraseIdx i
              sent := process.sent ++ [message] } with
          queue }
  | .targetFinish k => do
      let process ← state.runningTarget k
      if process.unsent.isEmpty then
        some (state.setTarget k { process with status := .finished })
      else none
  | .targetPanic k => do
      let process ← state.runningTarget k
      pure (state.setTarget k { process with status := .panicked })
  | .joinTargets =>
      match state.pc with
      | .joining =>
          if state.targets.all fun process => process.status ≠ .running then
            some
              { state with
                pc := .awaitingReporter (state.targets.any fun process => process.task.panicked) }
          else none
      | _ => none
  | .reporterReceive => reporterTakes setup state
  | .reporterFinish =>
      match state.pc, state.reporter with
      | .awaitingReporter _, .running reporter =>
          if state.queue.isEmpty then
            some
              { state with
                reporter := .finished (finishSession setup.io setup.context reporter) }
          else none
      | _, _ => none
  | .awaitReporter =>
      match state.pc with
      | .awaitingReporter anyTargetPanicked =>
          state.reporterVerdict.map fun verdict =>
            { state with
              pc := .returned
                (if anyTargetPanicked then RunVerdict.fail else verdict).exitCode }
      | _ => none
  | .endOfTestResults =>
      match state.pc with
      | .returned exitCode =>
          some { state with pc := .ended exitCode, endReports := state.endReports ++ [exitCode] }
      | _ => none

/-! ## What the steps do -/

/-- What one step does: its guards, and the state after it. -/
inductive SessionStep (state : SessionState) : SessionEvent → SessionState → Prop where
  | refused (request : ExecutorRequest) (status : RpcStatus) (hserving : state.serving = true)
      (hanswer : request.answer state.pc.receiverOpen = .error status) :
      SessionStep state (.request request) state
  | acknowledged (request : ExecutorRequest) (envelope : SpecEnvelope)
      (hserving : state.serving = true)
      (hanswer : request.answer state.pc.receiverOpen = .ok envelope) :
      SessionStep state (.request request)
        { state with
          accepted := state.accepted ++ [envelope]
          intake := state.intake ++ [envelope] }
  | serverExit (hserving : state.serving = true) :
      SessionStep state .serverExit { state with serving := false }
  | drained (exitCode : Int) (spec : ExternalRunnerSpec) (rest : List SpecEnvelope)
      (hpc : state.pc = .draining exitCode) (hintake : state.intake = .spec spec :: rest) :
      SessionStep state .receive { state with intake := rest }
  | drainedEnd (exitCode : Int) (rest : List SpecEnvelope)
      (hpc : state.pc = .draining exitCode) (hintake : state.intake = .endOfRequests :: rest) :
      SessionStep state .receive { state with pc := .returned exitCode, intake := rest }
  | drainedClosed (exitCode : Int) (hpc : state.pc = .draining exitCode)
      (hintake : state.intake = []) (hserving : state.serving = false) :
      SessionStep state .receive { state with pc := .returned exitCode }
  | received (spec : ExternalRunnerSpec) (rest : List SpecEnvelope) (hpc : state.pc = .receiving)
      (hintake : state.intake = .spec spec :: rest) :
      SessionStep state .receive
        { state with
          intake := rest
          received := state.received ++ [spec]
          targets := state.targets ++
            [.spawn (setup.targetCtx state.received.length) spec] }
  | receivedEnd (rest : List SpecEnvelope) (hpc : state.pc = .receiving)
      (hintake : state.intake = .endOfRequests :: rest) :
      SessionStep state .receive { leaveIntake setup state with intake := rest }
  | receivedClosed (hpc : state.pc = .receiving) (hintake : state.intake = [])
      (hserving : state.serving = false) :
      SessionStep state .receive (leaveIntake setup state)
  | sendMissing (target : String) (rest : List String) (queue : List ReporterMessage)
      (hpc : state.pc = .reportingMissing (target :: rest))
      (hqueue : state.queueAfterSend (missingTargetMessage target) = some queue) :
      SessionStep state .sendMissing
        { state with
          pc := .reportingMissing rest
          queue
          sentByScheduler := state.sentByScheduler ++ [missingTargetMessage target] }
  | missingSent (hpc : state.pc = .reportingMissing []) :
      SessionStep state .missingSent { state with pc := .joining }
  | targetSend (k i : Nat) (process : TargetProcess) (message : ReporterMessage)
      (queue : List ReporterMessage) (hprocess : state.runningTarget k = some process)
      (hmessage : process.unsent[i]? = some message)
      (hqueue : state.queueAfterSend message = some queue) :
      SessionStep state (.targetSend k i)
        { state.setTarget k
            { process with
              unsent := process.unsent.eraseIdx i
              sent := process.sent ++ [message] } with
          queue }
  | targetFinish (k : Nat) (process : TargetProcess)
      (hprocess : state.runningTarget k = some process) (hunsent : process.unsent = []) :
      SessionStep state (.targetFinish k) (state.setTarget k { process with status := .finished })
  | targetPanic (k : Nat) (process : TargetProcess)
      (hprocess : state.runningTarget k = some process) :
      SessionStep state (.targetPanic k) (state.setTarget k { process with status := .panicked })
  | joinTargets (hpc : state.pc = .joining)
      (hended : ∀ process ∈ state.targets, process.status ≠ .running) :
      SessionStep state .joinTargets
        { state with
          pc := .awaitingReporter (state.targets.any fun process => process.task.panicked) }
  | reporterReceive (reporter next : ReporterState) (message : ReporterMessage)
      (rest : List ReporterMessage) (hreporter : state.reporter = .running reporter)
      (hqueue : state.queue = message :: rest)
      (hstep : reporterStep setup.profile setup.io reporter message = .ok next) :
      SessionStep state .reporterReceive
        { state with
          reporter := .running next
          queue := rest
          arrived := state.arrived ++ [message] }
  | reporterPanic (reporter : ReporterState) (panic : String) (message : ReporterMessage)
      (rest : List ReporterMessage) (hreporter : state.reporter = .running reporter)
      (hqueue : state.queue = message :: rest)
      (hstep : reporterStep setup.profile setup.io reporter message = .error panic) :
      SessionStep state .reporterReceive
        { state with
          reporter := .panicked panic
          queue := []
          arrived := state.arrived ++ [message] }
  | reporterFinish (anyTargetPanicked : Bool) (reporter : ReporterState)
      (hpc : state.pc = .awaitingReporter anyTargetPanicked)
      (hreporter : state.reporter = .running reporter) (hqueue : state.queue = []) :
      SessionStep state .reporterFinish
        { state with reporter := .finished (finishSession setup.io setup.context reporter) }
  | awaitReporter (anyTargetPanicked : Bool) (verdict : RunVerdict)
      (hpc : state.pc = .awaitingReporter anyTargetPanicked)
      (hverdict : state.reporterVerdict = some verdict) :
      SessionStep state .awaitReporter
        { state with
          pc := .returned (if anyTargetPanicked then RunVerdict.fail else verdict).exitCode }
  | endOfTestResults (exitCode : Int) (hpc : state.pc = .returned exitCode) :
      SessionStep state .endOfTestResults
        { state with pc := .ended exitCode, endReports := state.endReports ++ [exitCode] }

variable {setup} {state next : SessionState}

/-- A request step. -/
theorem serve_request_step {request : ExecutorRequest}
    (h : serveRequest state request = some next) :
    SessionStep setup state (.request request) next := by
  unfold serveRequest at h
  split at h
  case isTrue => cases h
  case isFalse hserving =>
    rw [Bool.not_eq_true, Bool.not_eq_false'] at hserving
    split at h
    case h_1 status hanswer => cases h; exact .refused request status hserving hanswer
    case h_2 envelope hanswer => cases h; exact .acknowledged request envelope hserving hanswer

/-- A step of the intake. -/
theorem receive_step (h : sessionStep setup state .receive = some next) :
    SessionStep setup state .receive next := by
  simp only [sessionStep] at h
  split at h
  case h_1 exitCode hpc =>
    unfold drainIntake at h
    split at h
    case h_1 hintake =>
      split at h
      case isTrue => cases h
      case isFalse hserving =>
        cases h
        exact .drainedClosed exitCode hpc hintake (by simpa using hserving)
    case h_2 rest hintake => cases h; exact .drainedEnd exitCode rest hpc hintake
    case h_3 spec rest hintake => cases h; exact .drained exitCode spec rest hpc hintake
  case h_2 hpc =>
    unfold takeEnvelope at h
    split at h
    case h_1 hintake =>
      split at h
      case isTrue => cases h
      case isFalse hserving =>
        cases h
        exact .receivedClosed hpc hintake (by simpa using hserving)
    case h_2 rest hintake => cases h; exact .receivedEnd rest hpc hintake
    case h_3 spec rest hintake => cases h; exact .received spec rest hpc hintake
  case h_3 => cases h

/-- A step of the reporter at its channel. -/
theorem reporter_takes_step (h : reporterTakes setup state = some next) :
    SessionStep setup state .reporterReceive next := by
  unfold reporterTakes at h
  split at h
  case h_1 reporter message rest hreporter hqueue =>
    split at h
    case h_1 after hstep =>
      cases h
      exact .reporterReceive reporter after message rest hreporter hqueue hstep
    case h_2 panic hstep =>
      cases h
      exact .reporterPanic reporter panic message rest hreporter hqueue hstep
  case h_2 => cases h

/-- A step of a target. -/
theorem target_step {event : SessionEvent} (h : sessionStep setup state event = some next)
    (hevent : (∃ k i, event = .targetSend k i) ∨ (∃ k, event = .targetFinish k) ∨
      ∃ k, event = .targetPanic k) : SessionStep setup state event next := by
  obtain ⟨k, i, rfl⟩ | ⟨k, rfl⟩ | ⟨k, rfl⟩ := hevent
  · simp only [sessionStep, Option.bind_eq_bind, Option.bind_eq_some_iff] at h
    obtain ⟨process, hprocess, message, hmessage, queue, hqueue, hnext⟩ := h
    cases hnext
    exact .targetSend k i process message queue hprocess hmessage hqueue
  · simp only [sessionStep, Option.bind_eq_bind, Option.bind_eq_some_iff] at h
    obtain ⟨process, hprocess, hnext⟩ := h
    split at hnext
    case isTrue hunsent =>
      cases hnext
      exact .targetFinish k process hprocess (List.isEmpty_iff.mp hunsent)
    case isFalse => cases hnext
  · simp only [sessionStep, Option.bind_eq_bind, Option.bind_eq_some_iff] at h
    obtain ⟨process, hprocess, hnext⟩ := h
    cases hnext
    exact .targetPanic k process hprocess

/-- A step of the scheduler after its intake loop, or the end of the reporter. -/
theorem closing_step {event : SessionEvent} (h : sessionStep setup state event = some next)
    (hevent : event = .sendMissing ∨ event = .missingSent ∨ event = .joinTargets ∨
      event = .reporterFinish ∨ event = .awaitReporter ∨ event = .endOfTestResults) :
    SessionStep setup state event next := by
  obtain rfl | rfl | rfl | rfl | rfl | rfl := hevent
  · simp only [sessionStep] at h
    split at h
    case h_1 target rest hpc =>
      obtain ⟨queue, hqueue, rfl⟩ := Option.map_eq_some_iff.mp h
      exact .sendMissing target rest queue hpc hqueue
    case h_2 => cases h
  · simp only [sessionStep] at h
    split at h
    case h_1 hpc => cases h; exact .missingSent hpc
    case h_2 => cases h
  · simp only [sessionStep] at h
    split at h
    case h_1 hpc =>
      split at h
      case isTrue hended => cases h; exact .joinTargets hpc (by simpa using hended)
      case isFalse => cases h
    case h_2 => cases h
  · simp only [sessionStep] at h
    split at h
    case h_1 panicked reporter hpc hreporter =>
      split at h
      case isTrue hqueue =>
        cases h
        exact .reporterFinish panicked reporter hpc hreporter (List.isEmpty_iff.mp hqueue)
      case isFalse => cases h
    case h_2 => cases h
  · simp only [sessionStep] at h
    split at h
    case h_1 panicked hpc =>
      obtain ⟨verdict, hverdict, rfl⟩ := Option.map_eq_some_iff.mp h
      exact .awaitReporter panicked verdict hpc hverdict
    case h_2 => cases h
  · simp only [sessionStep] at h
    split at h
    case h_1 exitCode hpc => cases h; exact .endOfTestResults exitCode hpc
    case h_2 => cases h

/-- `SessionStep` says what the step function does. -/
theorem session_step_iff {event : SessionEvent} :
    sessionStep setup state event = some next ↔ SessionStep setup state event next := by
  constructor
  · intro h
    cases event with
    | request request => exact serve_request_step h
    | serverExit =>
        simp only [sessionStep] at h
        split at h
        case isTrue hserving => cases h; exact .serverExit hserving
        case isFalse => cases h
    | receive => exact receive_step h
    | reporterReceive => exact reporter_takes_step h
    | targetSend k i => exact target_step h (.inl ⟨k, i, rfl⟩)
    | targetFinish k => exact target_step h (.inr (.inl ⟨k, rfl⟩))
    | targetPanic k => exact target_step h (.inr (.inr ⟨k, rfl⟩))
    | sendMissing => exact closing_step h (by simp)
    | missingSent => exact closing_step h (by simp)
    | joinTargets => exact closing_step h (by simp)
    | reporterFinish => exact closing_step h (by simp)
    | awaitReporter => exact closing_step h (by simp)
    | endOfTestResults => exact closing_step h (by simp)
  · intro h
    cases h with
    | _ => simp_all [sessionStep, serveRequest, drainIntake, takeEnvelope, reporterTakes]

end Steps

end Quokka
