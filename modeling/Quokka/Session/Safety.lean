import Mathlib.Data.List.Perm.Basic
import Quokka.Library.KeyedUpdate
import Quokka.Scheduler.RunVerdict
import Quokka.Session.Protocol

/-!
# What holds in every session

The invariants of a session that runs targets, each with the step that keeps it: `IntakeValid`
(what is received is what was acknowledged before the end of requests), `TargetsValid` (a target
sends what `runTarget` says), `SchedulerSent` (the missing override targets are reported),
`Delivered` (the reporter has consumed, in the order of arrival, messages that were sent) and
`Joined` (how the exit code comes about). `Live` is their conjunction. A session without targets
is `Idle`.

`session_refines_run` is the result: the exit code that ends a session is the one that `run`
computes from the targets' tasks and the messages in the order of their arrival.
-/

namespace Quokka

/-! ## Specifications -/

/-- Received specifications come before what follows them. -/
theorem received_specs_append (specs : List ExternalRunnerSpec) (rest : List SpecEnvelope) :
    receivedSpecs (specs.map .spec ++ rest) = specs ++ receivedSpecs rest := by
  induction specs with
  | nil => rfl
  | cons spec specs ih => rw [List.map_cons, List.cons_append, receivedSpecs, ih]; rfl

/-! ## The invariants -/

/-- What was acknowledged, once the scheduler has left its intake loop after some specifications:
they end with the end of requests, or no further request can be acknowledged. -/
def IntakeLeft (serving : Bool) (accepted : List SpecEnvelope)
    (specs : List ExternalRunnerSpec) : Prop :=
  (∃ rest, accepted = specs.map .spec ++ .endOfRequests :: rest) ∨
    (accepted = specs.map .spec ∧ serving = false)

section Invariants

variable [External] (setup : SessionSetup) (state : SessionState)

/-- What is received is what was acknowledged before the end of requests. -/
def IntakeValid : Prop :=
  match state.pc with
  | .draining _ => False
  | .receiving => state.accepted = state.received.map .spec ++ state.intake
  | .reportingMissing _ | .joining | .awaitingReporter _ | .returned _ | .ended _ =>
      IntakeLeft state.serving state.accepted state.received

/-- A target task sends the messages of `runTarget`, and all of them before it finishes. -/
structure ProcessValid (ctx : TargetCtx) (spec : ExternalRunnerSpec) (process : TargetProcess) :
    Prop where
  messages : (process.sent ++ process.unsent).Perm (runTarget ctx spec).messages
  finished : process.status = .finished → process.unsent = []

/-- There is one valid target task for each received specification. -/
structure TargetsValid : Prop where
  length_eq : state.targets.length = state.received.length
  process : ∀ {k process spec}, state.targets[k]? = some process →
    state.received[k]? = some spec → ProcessValid (setup.targetCtx k) spec process

/-- The messages for the missing override targets. -/
def missingMessages : List ReporterMessage :=
  (state.missingTargets setup.config).map missingTargetMessage

/-- The scheduler reports every missing override target before it joins the targets. -/
def SchedulerSent : Prop :=
  match state.pc with
  | .draining _ => False
  | .receiving => state.sentByScheduler = []
  | .reportingMissing rest =>
      state.sentByScheduler ++ rest.map missingTargetMessage = missingMessages setup state
  | .joining | .awaitingReporter _ | .returned _ | .ended _ =>
      state.sentByScheduler = missingMessages setup state

/-- Everything that was sent to the reporter so far. -/
def allSent : List ReporterMessage :=
  state.sentByScheduler ++ state.targets.flatMap TargetProcess.sent

/-- The reporter has consumed what arrived, in that order; while it is alive, what arrived and
what is queued are what was sent. -/
def Delivered : Prop :=
  match state.reporter with
  | .absent => False
  | .running reporter =>
      state.arrived.foldlM (reporterStep setup.profile setup.io)
          (ReporterState.start setup.io setup.reporterDb) = .ok reporter ∧
        (state.arrived ++ state.queue).Perm (allSent state)
  | .panicked message =>
      reporterTask setup.profile setup.io setup.context setup.reporterDb state.arrived =
          .error message ∧ state.queue = []
  | .finished reporter =>
      reporterTask setup.profile setup.io setup.context setup.reporterDb state.arrived =
          .ok reporter ∧
        state.arrived.Perm (allSent state) ∧ state.queue = []

/-- No target task is running. -/
def TargetsEnded : Prop :=
  ∀ process ∈ state.targets, process.status ≠ .running

/-- Some target task panicked. -/
def anyPanicked : Bool :=
  state.targets.any fun process => process.task.panicked

/-- The scheduler waits for all targets, then for the reporter, whose verdict gives the exit
code. -/
def Joined : Prop :=
  match state.pc with
  | .draining _ => False
  | .receiving | .reportingMissing _ | .joining =>
      ∀ reporter, state.reporter ≠ .finished reporter
  | .awaitingReporter anyTargetPanicked =>
      TargetsEnded state ∧ anyTargetPanicked = anyPanicked state
  | .returned exitCode | .ended exitCode =>
      TargetsEnded state ∧ ∃ verdict, state.reporterVerdict = some verdict ∧
        exitCode = (if anyPanicked state then RunVerdict.fail else verdict).exitCode

/-- The end is reported when the session has ended. -/
def EndReported : Prop :=
  match state.pc with
  | .draining _ | .receiving | .reportingMissing _ | .joining | .awaitingReporter _
  | .returned _ => state.endReports = []
  | .ended exitCode => state.endReports = [exitCode]

/-- A session that runs targets. -/
structure Live : Prop where
  intake : IntakeValid state
  targets : TargetsValid setup state
  scheduler : SchedulerSent setup state
  delivered : Delivered setup state
  joined : Joined state
  reported : EndReported state

/-- A session that runs no targets and ends with `exitCode`. -/
structure Idle (exitCode : Int) : Prop where
  pc : state.pc = .draining exitCode ∨ state.pc = .returned exitCode ∨
    state.pc = .ended exitCode
  no_targets : state.targets = []
  no_messages : state.queue = []
  no_reporter : state.reporter = .absent
  reported : EndReported state
  intake : state.pc = .draining exitCode →
    ∃ specs : List ExternalRunnerSpec, state.accepted = specs.map .spec ++ state.intake

end Invariants

/-! ## Sending -/

section Steps

variable [External] {setup : SessionSetup} {state next : SessionState} {event : SessionEvent}

omit [External] in
/-- A message is queued while the reporter is alive, and lost after that. -/
theorem queue_after_send_cases {message : ReporterMessage} {queue : List ReporterMessage}
    (h : state.queueAfterSend message = some queue) :
    (queue = state.queue ++ [message] ∧ state.queue.length < maxReportQueue ∧
        ∃ reporter, state.reporter = .running reporter) ∨
      (queue = state.queue ∧ ∀ reporter, state.reporter ≠ .running reporter) := by
  unfold SessionState.queueAfterSend at h
  split at h
  case h_1 reporter hreporter =>
    split at h
    case isTrue hroom => cases h; exact .inl ⟨rfl, hroom, reporter, hreporter⟩
    case isFalse => cases h
  all_goals
    cases h
    exact .inr ⟨rfl, by simp_all⟩

omit [External] in
/-- The running target that a step is about. -/
theorem running_target_eq_some {k : Nat} {process : TargetProcess}
    (h : state.runningTarget k = some process) :
    state.targets[k]? = some process ∧ process.status = .running := by
  simpa [SessionState.runningTarget] using h

omit [External] in
/-- A running target among the targets. -/
theorem not_ended_of_running {k : Nat} {process : TargetProcess}
    (h : state.runningTarget k = some process) : ¬TargetsEnded state := by
  obtain ⟨hget, hrunning⟩ := running_target_eq_some h
  exact fun hended => hended process (List.mem_of_getElem? hget) hrunning

omit [External] in
/-- Changing an element to one with the same image. -/
theorem flat_map_set_same {α β : Type} {f : α → List β} {xs : List α} {k : Nat} {old new : α}
    (hget : xs[k]? = some old) (h : f new = f old) : (xs.set k new).flatMap f = xs.flatMap f := by
  obtain ⟨hk, rfl⟩ := List.getElem?_eq_some_iff.mp hget
  rw [List.set_eq_take_append_cons_drop, if_pos hk]
  conv_rhs => rw [← List.take_append_drop k xs, List.drop_eq_getElem_cons hk]
  simp only [List.flatMap_append, List.flatMap_cons, h]

omit [External] in
/-- Changing an element to one whose image has one more member. -/
theorem flat_map_set_snoc {α β : Type} {f : α → List β} {xs : List α} {k : Nat} {old new : α}
    {b : β} (hget : xs[k]? = some old) (h : f new = f old ++ [b]) :
    ((xs.set k new).flatMap f).Perm (xs.flatMap f ++ [b]) := by
  obtain ⟨hk, rfl⟩ := List.getElem?_eq_some_iff.mp hget
  rw [List.set_eq_take_append_cons_drop, if_pos hk]
  conv_rhs => rw [← List.take_append_drop k xs, List.drop_eq_getElem_cons hk]
  simp only [List.flatMap_append, List.flatMap_cons, h, List.append_assoc]
  exact ((List.perm_append_comm).append_left _).append_left _

/-! ## The intake -/

omit [External] in
theorem IntakeLeft.closed {accepted : List SpecEnvelope} {specs : List ExternalRunnerSpec}
    {serving : Bool} (h : IntakeLeft serving accepted specs) : IntakeLeft false accepted specs :=
  h.imp_right fun hall => ⟨hall.1, rfl⟩

omit [External] in
theorem IntakeLeft.acknowledged {accepted : List SpecEnvelope}
    {specs : List ExternalRunnerSpec} (h : IntakeLeft true accepted specs)
    (envelope : SpecEnvelope) : IntakeLeft true (accepted ++ [envelope]) specs := by
  obtain ⟨rest, rfl⟩ | ⟨-, hclosed⟩ := h
  · exact .inl ⟨rest ++ [envelope], by simp⟩
  · cases hclosed

omit [External] in
/-- What was received, once the intake loop is left. -/
theorem IntakeLeft.received {serving : Bool} {accepted : List SpecEnvelope}
    {specs : List ExternalRunnerSpec} (h : IntakeLeft serving accepted specs) :
    receivedSpecs accepted = specs := by
  obtain ⟨rest, rfl⟩ | ⟨rfl, -⟩ := h
  · rw [received_specs_append, receivedSpecs, List.append_nil]
  · simpa [receivedSpecs] using received_specs_append specs []

/-- A step keeps the intake valid. -/
theorem intake_valid_step (h : IntakeValid state) (hstep : SessionStep setup state event next) :
    IntakeValid next := by
  cases hstep with
  | acknowledged request envelope hserving hanswer =>
      unfold IntakeValid at h ⊢
      cases hpc : state.pc with
      | draining exitCode => rw [hpc] at h; exact h
      | receiving =>
          rw [hpc] at h
          simp only [h, List.append_assoc]
      | _ =>
          rw [hpc, hserving] at h
          simpa only [hserving] using h.acknowledged envelope
  | serverExit hserving =>
      unfold IntakeValid at h ⊢
      cases hpc : state.pc with
      | draining exitCode => rw [hpc] at h; exact h
      | receiving => rw [hpc] at h; exact h
      | _ => rw [hpc] at h; exact h.closed
  | drained exitCode spec rest hpc hintake => simp only [IntakeValid, hpc] at h
  | drainedEnd exitCode rest hpc hintake => simp only [IntakeValid, hpc] at h
  | drainedClosed exitCode hpc hintake hserving => simp only [IntakeValid, hpc] at h
  | received spec rest hpc hintake =>
      simp only [IntakeValid, hpc, hintake] at h ⊢
      rw [h]
      simp
  | receivedEnd rest hpc hintake =>
      simp only [IntakeValid, hpc, hintake, leaveIntake] at h ⊢
      exact .inl ⟨rest, h⟩
  | receivedClosed hpc hintake hserving =>
      simp only [IntakeValid, hpc, hintake, leaveIntake] at h ⊢
      exact .inr ⟨by simpa using h, hserving⟩
  | sendMissing target rest queue hpc hqueue => simpa only [IntakeValid, hpc] using h
  | missingSent hpc => simpa only [IntakeValid, hpc] using h
  | joinTargets hpc hended => simpa only [IntakeValid, hpc] using h
  | awaitReporter anyTargetPanicked verdict hpc hverdict => simpa only [IntakeValid, hpc] using h
  | endOfTestResults exitCode hpc => simpa only [IntakeValid, hpc] using h
  | _ => exact h

/-! ## The targets -/

/-- A new target task. -/
theorem ProcessValid.spawn (ctx : TargetCtx) (spec : ExternalRunnerSpec) :
    ProcessValid ctx spec (.spawn ctx spec) :=
  ⟨List.Perm.refl _, nofun⟩

/-- A target task sends a message. -/
theorem ProcessValid.send {ctx : TargetCtx} {spec : ExternalRunnerSpec} {process : TargetProcess}
    (h : ProcessValid ctx spec process) (hrunning : process.status = .running) {i : Nat}
    {message : ReporterMessage} (hmessage : process.unsent[i]? = some message) :
    ProcessValid ctx spec
      { process with
        unsent := process.unsent.eraseIdx i
        sent := process.sent ++ [message] } := by
  refine ⟨?_, fun hfinished => ?_⟩
  · obtain ⟨hi, rfl⟩ := List.getElem?_eq_some_iff.mp hmessage
    rw [List.append_assoc]
    exact ((List.getElem_cons_eraseIdx_perm hi).append_left _).trans h.messages
  · rw [hrunning] at hfinished
    cases hfinished

/-- Changing one target. -/
theorem TargetsValid.set {k : Nat} {old new : TargetProcess} (h : TargetsValid setup state)
    (hget : state.targets[k]? = some old)
    (hnew : ∀ spec, ProcessValid (setup.targetCtx k) spec old →
      ProcessValid (setup.targetCtx k) spec new) :
    TargetsValid setup (state.setTarget k new) := by
  refine ⟨by simpa [SessionState.setTarget] using h.length_eq, fun {j process spec} hj hspec => ?_⟩
  simp only [SessionState.setTarget, List.getElem?_set] at hj
  split at hj
  case isTrue hkj =>
    subst hkj
    split at hj
    · cases hj; exact hnew spec (h.process hget hspec)
    · cases hj
  case isFalse => exact h.process hj hspec

/-- A step keeps the targets valid. -/
theorem targets_valid_step (h : TargetsValid setup state)
    (hstep : SessionStep setup state event next) : TargetsValid setup next := by
  cases hstep with
  | received spec rest hpc hintake =>
      refine ⟨by simp [h.length_eq], fun {k process spec'} hk hspec => ?_⟩
      dsimp only at hk hspec
      rw [List.getElem?_append] at hk hspec
      rw [h.length_eq] at hk
      split at hk
      case isTrue hlt =>
        rw [if_pos hlt] at hspec
        exact h.process hk hspec
      case isFalse hge =>
        rw [if_neg hge] at hspec
        rw [List.getElem?_singleton] at hk hspec
        split at hk
        · rw [if_pos ‹_›] at hspec
          cases hk
          cases hspec
          obtain rfl : k = state.received.length := by omega
          exact .spawn _ _
        · cases hk
  | targetSend k i process message queue hprocess hmessage hqueue =>
      obtain ⟨hget, hrunning⟩ := running_target_eq_some hprocess
      obtain ⟨hlength, hvalid⟩ := h.set hget fun spec hold => hold.send hrunning hmessage
      exact ⟨hlength, hvalid⟩
  | targetFinish k process hprocess hunsent =>
      obtain ⟨hget, -⟩ := running_target_eq_some hprocess
      exact h.set hget fun spec hold => ⟨hold.messages, fun _ => hunsent⟩
  | targetPanic k process hprocess =>
      obtain ⟨hget, -⟩ := running_target_eq_some hprocess
      exact h.set hget fun spec hold => ⟨hold.messages, nofun⟩
  | _ => exact ⟨h.length_eq, h.process⟩

/-! ## The scheduler's messages -/

/-- A step of a session keeps what the scheduler has to send. -/
theorem scheduler_sent_step (h : SchedulerSent setup state)
    (hstep : SessionStep setup state event next) : SchedulerSent setup next := by
  cases hstep with
  | received spec rest hpc hintake =>
      simp only [SchedulerSent, hpc] at h ⊢
      exact h
  | receivedEnd rest hpc hintake =>
      simp only [SchedulerSent, hpc, leaveIntake] at h ⊢
      rw [h]
      rfl
  | receivedClosed hpc hintake hserving =>
      simp only [SchedulerSent, hpc, leaveIntake] at h ⊢
      rw [h]
      rfl
  | drainedEnd exitCode rest hpc hintake => simp only [SchedulerSent, hpc] at h
  | drainedClosed exitCode hpc hintake hserving => simp only [SchedulerSent, hpc] at h
  | sendMissing target rest queue hpc hqueue =>
      simp only [SchedulerSent, hpc, List.map_cons] at h ⊢
      rw [List.append_assoc]
      exact h
  | missingSent hpc =>
      simp only [SchedulerSent, hpc, List.map_nil, List.append_nil] at h ⊢
      exact h
  | joinTargets hpc hended =>
      simp only [SchedulerSent, hpc] at h ⊢
      exact h
  | awaitReporter anyTargetPanicked verdict hpc hverdict =>
      simp only [SchedulerSent, hpc] at h ⊢
      exact h
  | endOfTestResults exitCode hpc =>
      simp only [SchedulerSent, hpc] at h ⊢
      exact h
  | _ => exact h

/-! ## Delivery -/

omit [External] in
/-- A session whose targets run has a reporter that has not finished. -/
theorem not_finished_of_running (h : Joined state) {k : Nat} {process : TargetProcess}
    (hprocess : state.runningTarget k = some process) :
    ∀ reporter, state.reporter ≠ .finished reporter := by
  have hnot := not_ended_of_running hprocess
  unfold Joined at h
  cases hpc : state.pc with
  | draining exitCode => rw [hpc] at h; exact h.elim
  | receiving => rw [hpc] at h; exact h
  | reportingMissing targets => rw [hpc] at h; exact h
  | joining => rw [hpc] at h; exact h
  | awaitingReporter anyTargetPanicked => rw [hpc] at h; exact absurd h.1 hnot
  | returned exitCode => rw [hpc] at h; exact absurd h.1 hnot
  | ended exitCode => rw [hpc] at h; exact absurd h.1 hnot

/-- A message that is sent is queued or lost. -/
theorem Delivered.send {message : ReporterMessage} {queue : List ReporterMessage}
    (h : Delivered setup state) (hnot : ∀ reporter, state.reporter ≠ .finished reporter)
    (hqueue : state.queueAfterSend message = some queue)
    (hreporter : next.reporter = state.reporter) (harrived : next.arrived = state.arrived)
    (hnext : next.queue = queue) (hsent : (allSent next).Perm (allSent state ++ [message])) :
    Delivered setup next := by
  unfold Delivered at h ⊢
  rw [hreporter, harrived, hnext]
  obtain ⟨rfl, -, reporter, hrunning⟩ | ⟨rfl, hlost⟩ := queue_after_send_cases hqueue
  · simp only [hrunning] at h ⊢
    refine ⟨h.1, ?_⟩
    rw [← List.append_assoc]
    exact (h.2.append_right [message]).trans hsent.symm
  · cases hat : state.reporter with
    | absent => rw [hat] at h; exact h
    | running reporter => exact absurd hat (hlost reporter)
    | panicked panic => rw [hat] at h; exact h
    | finished reporter => exact absurd hat (hnot reporter)

/-- Nothing is sent, and the reporter does nothing. -/
theorem Delivered.of_same (h : Delivered setup state) (hreporter : next.reporter = state.reporter)
    (harrived : next.arrived = state.arrived) (hqueue : next.queue = state.queue)
    (hsent : allSent next = allSent state) : Delivered setup next := by
  unfold Delivered at h ⊢
  rw [hreporter, harrived, hqueue, hsent]
  exact h

omit [External] in
/-- What the reporter has consumed after one more message. -/
theorem foldlM_snoc {α β ε : Type} (f : β → α → Except ε β) (xs : List α) (a : α) (start : β) :
    (xs ++ [a]).foldlM f start = xs.foldlM f start >>= fun state => f state a := by
  simp

/-- A step keeps the delivery. -/
theorem delivered_step (h : Delivered setup state) (hjoined : Joined state)
    (hstep : SessionStep setup state event next) : Delivered setup next := by
  cases hstep with
  | received spec rest hpc hintake =>
      exact h.of_same rfl rfl rfl (by simp [allSent, TargetProcess.spawn])
  | sendMissing target rest queue hpc hqueue =>
      have hnot : ∀ reporter, state.reporter ≠ .finished reporter := by
        simpa only [Joined, hpc] using hjoined
      refine h.send hnot hqueue rfl rfl rfl ?_
      simp only [allSent, List.append_assoc]
      exact List.perm_append_comm.append_left _
  | targetSend k i process message queue hprocess hmessage hqueue =>
      obtain ⟨hget, -⟩ := running_target_eq_some hprocess
      refine h.send (not_finished_of_running hjoined hprocess) hqueue rfl rfl rfl ?_
      simp only [allSent, SessionState.setTarget, List.append_assoc]
      exact (flat_map_set_snoc hget rfl).append_left _
  | targetFinish k process hprocess hunsent =>
      obtain ⟨hget, -⟩ := running_target_eq_some hprocess
      exact h.of_same rfl rfl rfl
        (congrArg (state.sentByScheduler ++ ·) (flat_map_set_same hget rfl))
  | targetPanic k process hprocess =>
      obtain ⟨hget, -⟩ := running_target_eq_some hprocess
      exact h.of_same rfl rfl rfl
        (congrArg (state.sentByScheduler ++ ·) (flat_map_set_same hget rfl))
  | reporterReceive reporter next message rest hreporter hqueue hstep =>
      simp only [Delivered, hreporter, hqueue] at h ⊢
      refine ⟨?_, ?_⟩
      · rw [foldlM_snoc, h.1]
        exact hstep
      · rw [List.append_assoc]
        exact h.2
  | reporterPanic reporter panic message rest hreporter hqueue hstep =>
      simp only [Delivered, hreporter] at h ⊢
      refine ⟨?_, trivial⟩
      rw [reporterTask, foldlM_snoc, h.1]
      show (reporterStep setup.profile setup.io reporter message).map _ = _
      rw [hstep]
      rfl
  | reporterFinish anyTargetPanicked reporter hpc hreporter hqueue =>
      simp only [Delivered, hreporter, hqueue, List.append_nil] at h ⊢
      refine ⟨?_, h.2, trivial⟩
      rw [reporterTask, h.1]
      rfl
  | _ => exact h.of_same rfl rfl rfl rfl

/-! ## The end -/

omit [External] in
/-- A target that runs is not joined yet. -/
theorem Joined.of_running (h : Joined state) {k : Nat} {process : TargetProcess}
    (hprocess : state.runningTarget k = some process) (hpc : next.pc = state.pc)
    (hreporter : next.reporter = state.reporter) : Joined next := by
  have hnot := not_ended_of_running hprocess
  unfold Joined at h ⊢
  rw [hpc, hreporter]
  cases hat : state.pc with
  | draining exitCode => rw [hat] at h; exact h
  | receiving => rw [hat] at h; exact h
  | reportingMissing targets => rw [hat] at h; exact h
  | joining => rw [hat] at h; exact h
  | awaitingReporter anyTargetPanicked => rw [hat] at h; exact absurd h.1 hnot
  | returned exitCode => rw [hat] at h; exact absurd h.1 hnot
  | ended exitCode => rw [hat] at h; exact absurd h.1 hnot

omit [External] in
/-- A reporter that runs is not awaited yet. -/
theorem Joined.of_reporter (h : Joined state) {reporter : ReporterState}
    (hrunning : state.reporter = .running reporter) (hpc : next.pc = state.pc)
    (htargets : next.targets = state.targets)
    (hnext : ∀ reporter, next.reporter ≠ .finished reporter) : Joined next := by
  have hnone : state.reporterVerdict = none := by simp [SessionState.reporterVerdict, hrunning]
  unfold Joined at h ⊢
  rw [hpc]
  cases hat : state.pc with
  | draining exitCode => rw [hat] at h; exact h
  | receiving => exact hnext
  | reportingMissing targets => exact hnext
  | joining => exact hnext
  | awaitingReporter anyTargetPanicked =>
      rw [hat] at h
      simpa only [TargetsEnded, anyPanicked, htargets] using h
  | returned exitCode =>
      rw [hat] at h
      obtain ⟨-, verdict, hverdict, -⟩ := h
      rw [hnone] at hverdict
      cases hverdict
  | ended exitCode =>
      rw [hat] at h
      obtain ⟨-, verdict, hverdict, -⟩ := h
      rw [hnone] at hverdict
      cases hverdict

omit [External] in
/-- Nothing that decides the exit code changes. -/
theorem Joined.of_same (h : Joined state) (hpc : next.pc = state.pc)
    (hreporter : next.reporter = state.reporter) (htargets : next.targets = state.targets) :
    Joined next := by
  unfold Joined TargetsEnded anyPanicked SessionState.reporterVerdict at h ⊢
  rw [hpc, hreporter, htargets]
  exact h

/-- A step keeps how the exit code comes about. -/
theorem joined_step (h : Joined state) (hstep : SessionStep setup state event next) :
    Joined next := by
  cases hstep with
  | drainedEnd exitCode rest hpc hintake => simp only [Joined, hpc] at h
  | drainedClosed exitCode hpc hintake hserving => simp only [Joined, hpc] at h
  | received spec rest hpc hintake => simpa only [Joined, hpc] using h
  | receivedEnd rest hpc hintake => simpa only [Joined, hpc, leaveIntake] using h
  | receivedClosed hpc hintake hserving => simpa only [Joined, hpc, leaveIntake] using h
  | sendMissing target rest queue hpc hqueue => simpa only [Joined, hpc] using h
  | missingSent hpc => simpa only [Joined, hpc] using h
  | targetSend k i process message queue hprocess hmessage hqueue =>
      exact h.of_running hprocess rfl rfl
  | targetFinish k process hprocess hunsent => exact h.of_running hprocess rfl rfl
  | targetPanic k process hprocess => exact h.of_running hprocess rfl rfl
  | joinTargets hpc hended => exact ⟨hended, rfl⟩
  | reporterReceive reporter next message rest hreporter hqueue hstep =>
      exact h.of_reporter hreporter rfl rfl nofun
  | reporterPanic reporter panic message rest hreporter hqueue hstep =>
      exact h.of_reporter hreporter rfl rfl nofun
  | reporterFinish anyTargetPanicked reporter hpc hreporter hqueue =>
      simp only [Joined, hpc] at h ⊢
      exact h
  | awaitReporter anyTargetPanicked verdict hpc hverdict =>
      simp only [Joined, hpc] at h ⊢
      obtain ⟨hended, rfl⟩ := h
      exact ⟨hended, verdict, hverdict, rfl⟩
  | endOfTestResults exitCode hpc =>
      simp only [Joined, hpc] at h ⊢
      exact h
  | _ => exact h.of_same rfl rfl rfl

/-- The end is reported once. -/
theorem end_reported_step (h : EndReported state) (hstep : SessionStep setup state event next) :
    EndReported next := by
  cases hstep with
  | endOfTestResults exitCode hpc =>
      simp only [EndReported, hpc] at h ⊢
      rw [h]
      rfl
  | _ => simp_all [EndReported, leaveIntake, SessionState.setTarget]

/-! ## Runs -/

/-- A step of a session that runs targets. -/
theorem live_step (h : Live setup state) (hstep : sessionStep setup state event = some next) :
    Live setup next := by
  rw [session_step_iff] at hstep
  exact ⟨intake_valid_step h.intake hstep, targets_valid_step h.targets hstep,
    scheduler_sent_step h.scheduler hstep, delivered_step h.delivered h.joined hstep,
    joined_step h.joined hstep, end_reported_step h.reported hstep⟩

omit [External] in
/-- A session without targets has none that runs. -/
theorem Idle.no_running {exitCode : Int} (h : Idle state exitCode) {k : Nat}
    {process : TargetProcess} (hprocess : state.runningTarget k = some process) : False := by
  simp [SessionState.runningTarget, h.no_targets] at hprocess

/-- A step of a session that runs no targets. -/
theorem idle_step {exitCode : Int} (h : Idle state exitCode)
    (hstep : sessionStep setup state event = some next) : Idle next exitCode := by
  rw [session_step_iff] at hstep
  have hreported := end_reported_step h.reported hstep
  have hpc := h.pc
  cases hstep with
  | refused request status hserving hanswer => exact h
  | acknowledged request envelope hserving hanswer =>
      refine ⟨h.pc, h.no_targets, h.no_messages, h.no_reporter, hreported, fun hdraining => ?_⟩
      obtain ⟨specs, hspecs⟩ := h.intake hdraining
      exact ⟨specs, by simp [hspecs]⟩
  | serverExit hserving =>
      exact ⟨h.pc, h.no_targets, h.no_messages, h.no_reporter, hreported, h.intake⟩
  | drained other spec rest hat hintake =>
      refine ⟨h.pc, h.no_targets, h.no_messages, h.no_reporter, hreported, fun hdraining => ?_⟩
      obtain ⟨specs, hspecs⟩ := h.intake hdraining
      exact ⟨specs ++ [spec], by simp [hspecs, hintake]⟩
  | drainedEnd other rest hat hintake =>
      obtain rfl : other = exitCode := by simpa [hat] using hpc
      exact ⟨.inr (.inl rfl), h.no_targets, h.no_messages, h.no_reporter, hreported, nofun⟩
  | drainedClosed other hat hintake hserving =>
      obtain rfl : other = exitCode := by simpa [hat] using hpc
      exact ⟨.inr (.inl rfl), h.no_targets, h.no_messages, h.no_reporter, hreported, nofun⟩
  | endOfTestResults other hat =>
      obtain rfl : other = exitCode := by simpa [hat] using hpc
      exact ⟨.inr (.inr rfl), h.no_targets, h.no_messages, h.no_reporter, hreported, nofun⟩
  | targetSend k i process message queue hprocess => exact (h.no_running hprocess).elim
  | targetFinish k process hprocess => exact (h.no_running hprocess).elim
  | targetPanic k process hprocess => exact (h.no_running hprocess).elim
  | reporterReceive reporter next message rest hreporter =>
      rw [h.no_reporter] at hreporter
      cases hreporter
  | reporterPanic reporter panic message rest hreporter =>
      rw [h.no_reporter] at hreporter
      cases hreporter
  | reporterFinish anyTargetPanicked reporter hat => simp [hat] at hpc
  | received spec rest hat => simp [hat] at hpc
  | receivedEnd rest hat => simp [hat] at hpc
  | receivedClosed hat => simp [hat] at hpc
  | sendMissing target rest queue hat => simp [hat] at hpc
  | missingSent hat => simp [hat] at hpc
  | joinTargets hat => simp [hat] at hpc
  | awaitReporter anyTargetPanicked verdict hat => simp [hat] at hpc

end Steps

/-! ## The session as a whole -/

section Sessions

variable [External] (setup : SessionSetup)

/-- The exit code of a session that runs no targets, or nothing for one that does. -/
def SessionSetup.idleExit : Option Int :=
  if setup.config.libtestHelpOnly then some 0
  else if setup.config.libtestUsageError.isSome then some nonzeroExit
  else
    match setup.prologue with
    | .error _ => some schedulerPanicExit
    | .ok _ => none

/-- What holds in every state of a session. -/
def SessionState.Valid (state : SessionState) : Prop :=
  match setup.idleExit with
  | some exitCode => Idle state exitCode
  | none => Live setup state

/-- The session gets to a state by some events, in any order. -/
def Reaches (events : List SessionEvent) (state : SessionState) : Prop :=
  Runs.after (sessionStep setup) (SessionState.start setup) events = some state

/-- A panic of the prologue is reported with an exit code of its own. -/
theorem start_valid : (SessionState.start setup).Valid setup := by
  have hidle : ∀ {state : SessionState} {exitCode : Int}, state.pc = .draining exitCode ∨
      state.pc = .returned exitCode → state.targets = [] → state.queue = [] →
      state.reporter = .absent → state.endReports = [] → state.accepted = [] →
      state.intake = [] → Idle state exitCode := by
    intro state exitCode hpc htargets hqueue hreporter hreports haccepted hintake
    refine ⟨hpc.imp_right .inl, htargets, hqueue, hreporter, ?_, fun _ => ⟨[], ?_⟩⟩
    · obtain hat | hat := hpc <;> simp [EndReported, hat, hreports]
    · rw [haccepted, hintake]
      rfl
  unfold SessionState.Valid SessionState.start SessionSetup.idleExit
  by_cases hhelp : setup.config.libtestHelpOnly = true
  · simp only [hhelp, if_true]
    exact hidle (.inl rfl) rfl rfl rfl rfl rfl rfl
  by_cases husage : setup.config.libtestUsageError.isSome = true
  · simp only [hhelp, husage, if_true]
    exact hidle (.inl rfl) rfl rfl rfl rfl rfl rfl
  cases hprologue : setup.prologue with
  | error panic =>
      simp only [hhelp, husage]
      exact hidle (.inr rfl) rfl rfl rfl rfl rfl rfl
  | ok databases =>
      have hdb : setup.reporterDb = databases.2 := by
        simp [SessionSetup.reporterDb, hprologue, Except.toOption]
      simp only [hhelp, husage]
      refine ⟨rfl, ⟨rfl, fun hget => ?_⟩, rfl, ⟨?_, List.Perm.refl _⟩, fun reporter hrunning => ?_,
        rfl⟩
      · simp at hget
      · rw [hdb]
        rfl
      · cases hrunning

variable {setup}

/-- A step keeps what holds in every state. -/
theorem valid_step {state next : SessionState} {event : SessionEvent} (h : state.Valid setup)
    (hstep : sessionStep setup state event = some next) : next.Valid setup := by
  unfold SessionState.Valid at h ⊢
  cases hidle : setup.idleExit with
  | some exitCode => rw [hidle] at h; exact idle_step h hstep
  | none => rw [hidle] at h; exact live_step h hstep

theorem valid_of_reaches {events : List SessionEvent} {state : SessionState}
    (h : Reaches setup events state) : state.Valid setup :=
  Runs.after_invariant valid_step (start_valid setup) h

variable (setup)

/-- A task of a target: unless it panicked, it has sent the messages of `runTarget`. -/
def TaskOf (ctx : TargetCtx) (spec : ExternalRunnerSpec) (task : TargetTask) : Prop :=
  ∃ unsent, (task.messages ++ unsent).Perm (runTarget ctx spec).messages ∧
    (task.panicked = false → unsent = [])

/-- The tasks of the received specifications, in the order of their arrival. -/
def TasksOf (specs : List ExternalRunnerSpec) (tasks : List TargetTask) : Prop :=
  List.Forall₂ (fun received task => TaskOf (setup.targetCtx received.2) received.1 task)
    specs.zipIdx tasks

/-- The tasks of targets that have ended. -/
theorem tasks_of_targets {setup : SessionSetup} {state : SessionState}
    (h : TargetsValid setup state) (hended : TargetsEnded state) :
    TasksOf setup state.received (state.targets.map TargetProcess.task) := by
  refine List.forall₂_iff_get.mpr ⟨by simp [h.length_eq], fun k hk htask => ?_⟩
  rw [List.length_zipIdx] at hk
  rw [List.length_map] at htask
  simp only [List.get_eq_getElem, List.getElem_zipIdx, List.getElem_map, Nat.zero_add]
  have hvalid := h.process (List.getElem?_eq_getElem htask) (List.getElem?_eq_getElem hk)
  refine ⟨state.targets[k].unsent, hvalid.messages, fun hquiet => ?_⟩
  have hstatus := hended _ (List.getElem_mem htask)
  cases hat : state.targets[k].status with
  | running => exact absurd hat hstatus
  | finished => exact hvalid.finished hat
  | panicked => simp [TargetProcess.task, hat] at hquiet

omit [External] in
/-- What the parties have sent is what the run's tasks send. -/
theorem all_sent_eq (state : SessionState)
    (h : state.sentByScheduler = missingMessages setup state) :
    allSent state =
      sentMessages setup.config state.received (state.targets.map TargetProcess.task) := by
  rw [allSent, h, sentMessages, List.flatMap_map]
  rfl

omit [External] in
/-- A session that runs targets is asked for neither help nor a usage error. -/
theorem idle_exit_eq_none (h : setup.idleExit = none) :
    setup.config.libtestHelpOnly = false ∧ setup.config.libtestUsageError = none := by
  unfold SessionSetup.idleExit at h
  split at h
  · cases h
  split at h
  · cases h
  · simp_all

/-- The exit code of a joined session is the one of its tasks. -/
theorem exit_code_eq_run (hidle : setup.idleExit = none) {state : SessionState}
    {verdict : RunVerdict} {reporter : MayPanic ReporterState}
    (hreporter : reporterTask setup.profile setup.io setup.context setup.reporterDb
      state.arrived = reporter)
    (hverdict : verdict = (reporter.toOption.map ReporterState.verdict).getD .fail) :
    (if anyPanicked state then RunVerdict.fail else verdict).exitCode =
      run setup.profile setup.io setup.config setup.context setup.reporterDb
        (state.targets.map TargetProcess.task) state.arrived := by
  obtain ⟨hhelp, husage⟩ := idle_exit_eq_none setup hidle
  have hany : (state.targets.map TargetProcess.task).any TargetTask.panicked =
      anyPanicked state := by
    rw [List.any_map]
    rfl
  unfold run sessionVerdict
  simp only [hhelp, husage, hreporter, hany, hverdict]
  cases reporter <;> rfl

/-- The end of a session that runs targets. -/
theorem live_ended (hidle : setup.idleExit = none) {state : SessionState} {exitCode : Int}
    (h : Live setup state) (hended : state.pc = .ended exitCode) :
    receivedSpecs state.accepted = state.received ∧
      TasksOf setup state.received (state.targets.map TargetProcess.task) ∧
      exitCode = run setup.profile setup.io setup.config setup.context setup.reporterDb
        (state.targets.map TargetProcess.task) state.arrived ∧
      (state.arrived.Perm (sentMessages setup.config state.received
          (state.targets.map TargetProcess.task)) ∨
        ∃ panic, reporterTask setup.profile setup.io setup.context setup.reporterDb
          state.arrived = .error panic) := by
  have hintake := h.intake
  have hscheduler := h.scheduler
  have hjoined := h.joined
  have hdelivered := h.delivered
  simp only [IntakeValid, hended] at hintake
  simp only [SchedulerSent, hended] at hscheduler
  simp only [Joined, hended] at hjoined
  obtain ⟨htargets, verdict, hverdict, rfl⟩ := hjoined
  refine ⟨hintake.received, tasks_of_targets h.targets htargets, ?_⟩
  unfold Delivered at hdelivered
  unfold SessionState.reporterVerdict at hverdict
  cases hreporter : state.reporter with
  | absent => rw [hreporter] at hdelivered; exact hdelivered.elim
  | running reporter => rw [hreporter] at hverdict; cases hverdict
  | panicked panic =>
      rw [hreporter] at hdelivered hverdict
      cases hverdict
      exact ⟨exit_code_eq_run setup hidle hdelivered.1 rfl, .inr ⟨panic, hdelivered.1⟩⟩
  | finished reporter =>
      rw [hreporter] at hdelivered hverdict
      cases hverdict
      refine ⟨exit_code_eq_run setup hidle hdelivered.1 rfl, .inl ?_⟩
      rw [← all_sent_eq setup state hscheduler]
      exact hdelivered.2.1

/-- The exit code that ends a session is the one of `run`, for the tasks of the specifications
that were acknowledged before the end of requests and for the messages in the order of their
arrival; the reporter has received everything that was sent unless it panicked. A session that
runs no targets ends with its own exit code. -/
theorem session_refines_run (events : List SessionEvent) (state : SessionState) (exitCode : Int)
    (hreaches : Reaches setup events state) (hended : state.pc = .ended exitCode) :
    state.endReports = [exitCode] ∧
      (∀ idleExit, setup.idleExit = some idleExit → exitCode = idleExit) ∧
      (setup.idleExit = none →
        ∃ tasks, TasksOf setup (receivedSpecs state.accepted) tasks ∧
          exitCode = run setup.profile setup.io setup.config setup.context setup.reporterDb tasks
            state.arrived ∧
          (state.arrived.Perm (sentMessages setup.config (receivedSpecs state.accepted) tasks) ∨
            ∃ panic, reporterTask setup.profile setup.io setup.context setup.reporterDb
              state.arrived = .error panic)) := by
  have hvalid := valid_of_reaches hreaches
  unfold SessionState.Valid at hvalid
  cases hidle : setup.idleExit with
  | some idleExit =>
      rw [hidle] at hvalid
      have hreported := hvalid.reported
      simp only [EndReported, hended] at hreported
      refine ⟨hreported, fun other hother => ?_, nofun⟩
      cases hother
      have hpc := hvalid.pc
      simpa [hended] using hpc
  | none =>
      rw [hidle] at hvalid
      have hreported := hvalid.reported
      simp only [EndReported, hended] at hreported
      obtain ⟨hreceived, htasks⟩ := live_ended setup hidle hvalid hended
      rw [hreceived]
      exact ⟨hreported, nofun, fun _ => ⟨_, htasks⟩⟩

end Sessions

/-- A session without flags and database whose targets are all cancelled. -/
def SessionSetup.withoutFlags : SessionSetup where
  config := RunnerConfig.withoutFlags
  context := ⟨none, none⟩
  profile := ⟨true⟩
  io := ReporterIo.quiet
  maxInflightTestActions := 2000
  maxInflightListings := 256
  estimateFiles _ := ⟨none, none⟩
  reporterFiles _ := ⟨none, none⟩
  orch _ := cancelEverything

/-- Steps of a session with one specification, up to its end. -/
def oneSpecSession (spec : ExternalRunnerSpec) : List SessionEvent :=
  [.request (.externalRunnerSpec (some spec)), .receive, .request .endOfTestRequests, .receive,
    .targetSend 0 0, .missingSent, .targetFinish 0, .joinTargets, .reporterReceive,
    .reporterFinish, .awaitReporter, .endOfTestResults]

/-- The steps lead to the end of a session whose target has no address. -/
theorem dropped_spec_reaches :
    letI := External.inert
    ∃ state, Reaches SessionSetup.withoutFlags
        (oneSpecSession { ExternalRunnerSpec.plain "rust" [] with target := none }) state ∧
      state.pc = .ended nonzeroExit :=
  ⟨_, rfl, rfl⟩

/-- The exit code of the session whose target has no address. -/
theorem dropped_spec_refines_run :
    letI := External.inert
    ∃ (state : SessionState) (tasks : List TargetTask),
      TasksOf SessionSetup.withoutFlags (receivedSpecs state.accepted) tasks ∧
        nonzeroExit = run ⟨true⟩ ReporterIo.quiet RunnerConfig.withoutFlags ⟨none, none⟩
          SessionSetup.withoutFlags.reporterDb tasks state.arrived := by
  let := External.inert
  obtain ⟨state, hreaches, hended⟩ := dropped_spec_reaches
  obtain ⟨-, -, hrun⟩ := session_refines_run _ _ state nonzeroExit hreaches hended
  obtain ⟨tasks, htasks, hexit, -⟩ := hrun rfl
  exact ⟨state, tasks, htasks, hexit⟩

end Quokka
