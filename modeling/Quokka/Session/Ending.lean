import Quokka.Session.Safety

/-!
# The end of a session

`end_of_test_results` comes last and once: when it is sent, every target and the reporter have
ended and the channel is empty (`ended_quiet`), and no later step does anything but refuse
requests (`ended_step`). `session_ends_once` is the result for runs.

It does come, by `session_completes`: once buck2 has called `end_of_test_requests`, or the
server is gone, the runner's own steps lead to it in any order, without a deadlock on the bounded
channel. `SessionState.work` is the measure that these steps use up: a message that is still to be
sent is priced at a send and a delivery, a specification in the intake at the whole target.
Until then the scheduler waits in its intake loop, and nothing else can end the session.
-/

namespace Quokka

section Ending

variable [External] {setup : SessionSetup} {state next : SessionState} {event : SessionEvent}

/-! ## The end is final -/

/-- In every state at most one end is reported. -/
theorem end_reported_of_valid (h : state.Valid setup) : EndReported state := by
  unfold SessionState.Valid at h
  cases hidle : setup.idleExit with
  | some exitCode => rw [hidle] at h; exact h.reported
  | none => rw [hidle] at h; exact h.reported

/-- Nothing is running any more. -/
structure Quiet (state : SessionState) : Prop where
  targets : TargetsEnded state
  queue : state.queue = []
  reporter : ∀ reporter, state.reporter ≠ .running reporter

/-- When the end has been reported, nothing is running. -/
theorem ended_quiet (h : state.Valid setup) {exitCode : Int} (hended : state.pc = .ended exitCode) :
    Quiet state := by
  unfold SessionState.Valid at h
  cases hidle : setup.idleExit with
  | some idleExit =>
      rw [hidle] at h
      refine ⟨fun process hprocess => ?_, h.no_messages, fun reporter hrunning => ?_⟩
      · rw [h.no_targets] at hprocess
        cases hprocess
      · rw [h.no_reporter] at hrunning
        cases hrunning
  | none =>
      rw [hidle] at h
      have hjoined := h.joined
      have hdelivered := h.delivered
      simp only [Joined, hended] at hjoined
      obtain ⟨htargets, verdict, hverdict, -⟩ := hjoined
      unfold Delivered at hdelivered
      unfold SessionState.reporterVerdict at hverdict
      cases hreporter : state.reporter with
      | absent => rw [hreporter] at hdelivered; exact hdelivered.elim
      | running reporter => rw [hreporter] at hverdict; cases hverdict
      | panicked panic =>
          rw [hreporter] at hdelivered
          exact ⟨htargets, hdelivered.2, by simp [hreporter]⟩
      | finished reporter =>
          rw [hreporter] at hdelivered
          exact ⟨htargets, hdelivered.2.2, by simp [hreporter]⟩

/-- Two states differ at most in whether the server is alive. -/
def SameButServing (state next : SessionState) : Prop :=
  ∃ serving, next = { state with serving }

/-- After the end nothing happens: requests are refused, and the server may go. -/
theorem ended_step {exitCode : Int} (hquiet : Quiet state) (hended : state.pc = .ended exitCode)
    (hstep : SessionStep setup state event next) : SameButServing state next := by
  cases hstep with
  | refused request status hserving hanswer => exact ⟨state.serving, rfl⟩
  | acknowledged request envelope hserving hanswer =>
      rw [hended] at hanswer
      cases request with
      | externalRunnerSpec spec => cases spec <;> cases hanswer
      | endOfTestRequests => cases hanswer
      | unstableHeapDump => cases hanswer
  | serverExit hserving => exact ⟨false, rfl⟩
  | targetSend k i process message queue hprocess =>
      exact absurd hquiet.targets (not_ended_of_running hprocess)
  | targetFinish k process hprocess => exact absurd hquiet.targets (not_ended_of_running hprocess)
  | targetPanic k process hprocess => exact absurd hquiet.targets (not_ended_of_running hprocess)
  | reporterReceive reporter after message rest hreporter =>
      exact absurd hreporter (hquiet.reporter reporter)
  | reporterPanic reporter panic message rest hreporter =>
      exact absurd hreporter (hquiet.reporter reporter)
  | reporterFinish anyTargetPanicked reporter hpc hreporter =>
      exact absurd hreporter (hquiet.reporter reporter)
  | _ => simp_all

/-- The end is reported once and last: when it is, all targets and the reporter have ended and no
message is on its way; whatever happens after that, no target and no report is added, no request
is acknowledged and no other end is reported. -/
theorem session_ends_once (setup : SessionSetup) (events more : List SessionEvent)
    (state final : SessionState) (exitCode : Int) (hreaches : Reaches setup events state)
    (hreported : exitCode ∈ state.endReports)
    (hmore : Runs.after (sessionStep setup) state more = some final) :
    state.endReports = [exitCode] ∧ Quiet state ∧ SameButServing state final := by
  have hvalid := valid_of_reaches hreaches
  have hend := end_reported_of_valid hvalid
  have hended : state.pc = .ended exitCode ∧ state.endReports = [exitCode] := by
    unfold EndReported at hend
    cases hpc : state.pc with
    | ended other => simp_all
    | _ => simp_all
  have hquiet := ended_quiet hvalid hended.1
  refine ⟨hended.2, hquiet, ?_⟩
  have hsame := Runs.after_related (P := fun state => Quiet state ∧ state.pc = .ended exitCode)
    (R := SameButServing) (fun state => ⟨state.serving, rfl⟩) ?_ ?_ ⟨hquiet, hended.1⟩ hmore
  · exact hsame
  · rintro first second third ⟨_, rfl⟩ ⟨_, rfl⟩
    exact ⟨_, rfl⟩
  · intro state event next ⟨hquiet, hended⟩ hstep
    have hsame := ended_step hquiet hended (session_step_iff.mp hstep)
    obtain ⟨serving, rfl⟩ := hsame
    exact ⟨⟨⟨hquiet.targets, hquiet.queue, hquiet.reporter⟩, hended⟩, serving, rfl⟩

end Ending

/-- After the session whose target has no address, a late request and the server's exit change
nothing. -/
theorem dropped_spec_ends_once :
    letI := External.inert
    ∃ state final : SessionState,
      Runs.after (sessionStep SessionSetup.withoutFlags) state
          [.request .endOfTestRequests, .serverExit] = some final ∧
        state.endReports = [nonzeroExit] ∧ Quiet state ∧ SameButServing state final := by
  let := External.inert
  have hlate : ∃ state final : SessionState,
      Reaches SessionSetup.withoutFlags
          (oneSpecSession { ExternalRunnerSpec.plain "rust" [] with target := none }) state ∧
        nonzeroExit ∈ state.endReports ∧
        Runs.after (sessionStep SessionSetup.withoutFlags) state
          [.request .endOfTestRequests, .serverExit] = some final :=
    ⟨_, _, rfl, List.mem_singleton_self _, rfl⟩
  obtain ⟨state, final, hreaches, hreported, hmore⟩ := hlate
  exact ⟨state, final, hmore, session_ends_once _ _ _ _ _ _ hreaches hreported hmore⟩

/-! ## The work that is left -/

/-- The runner's own steps; the others are those of buck2 and faults. -/
def SessionEvent.Own : SessionEvent → Prop
  | .request _ | .serverExit | .targetPanic _ => False
  | .receive | .sendMissing | .missingSent | .targetSend _ _ | .targetFinish _ | .joinTargets
  | .reporterReceive | .reporterFinish | .awaitReporter | .endOfTestResults => True

/-- Whether the scheduler is in an intake loop. -/
def SchedulerPc.takesEnvelopes : SchedulerPc → Bool
  | .draining _ | .receiving => true
  | .reportingMissing _ | .joining | .awaitingReporter _ | .returned _ | .ended _ => false

/-- If the scheduler is in an intake loop, the end of requests has been acknowledged or no request
can be. -/
def InputClosed (state : SessionState) : Prop :=
  state.pc.takesEnvelopes = true → .endOfRequests ∈ state.accepted ∨ state.serving = false

/-- The work of a target task: two for each message that it has yet to send, and its end. -/
def TargetProcess.work (process : TargetProcess) : Nat :=
  if process.status = .running then 2 * process.unsent.length + 1 else 0

section Work

variable [External] (setup : SessionSetup)

/-- The work in the intake when `k` targets have been received. -/
def intakeWork : Nat → List SpecEnvelope → Nat
  | _, [] => 0
  | k, .endOfRequests :: rest => 1 + intakeWork k rest
  | k, .spec spec :: rest =>
      1 + (TargetProcess.spawn (setup.targetCtx k) spec).work + intakeWork (k + 1) rest

/-- The work of the scheduler itself. -/
def schedulerWork (state : SessionState) : Nat :=
  match state.pc with
  | .draining _ => state.intake.length + 2
  | .receiving =>
      intakeWork setup state.received.length state.intake +
        (2 * setup.config.cgroupMemoryMaxOverrides.length + 5)
  | .reportingMissing targets => 2 * targets.length + 4
  | .joining => 3
  | .awaitingReporter _ => 2
  | .returned _ => 1
  | .ended _ => 0

/-- The work of the reporter besides the queued messages. -/
def reporterWork : ReporterPc → Nat
  | .running _ => 1
  | .absent | .panicked _ | .finished _ => 0

/-- The work that is left. -/
def SessionState.work (state : SessionState) : Nat :=
  schedulerWork setup state + (state.targets.map TargetProcess.work).sum + state.queue.length +
    reporterWork state.reporter

variable {setup} {state next : SessionState} {event : SessionEvent}

omit [External] in
theorem dedup_adjacent_length_le (names : List String) :
    (dedupAdjacent names).length ≤ names.length := by
  fun_induction dedupAdjacent names with
  | case1 => simp
  | case2 => simp
  | case3 first rest ih => simp only [List.length_cons] at ih ⊢; omega
  | case4 first second rest hne ih => simp only [List.length_cons] at ih ⊢; omega

omit [External] in
/-- At most one message for each override is about a missing target. -/
theorem missing_targets_length_le (config : RunnerConfig) (received : List String) :
    (missingCgroupOverrideTargets config received).length ≤
      config.cgroupMemoryMaxOverrides.length := by
  refine (dedup_adjacent_length_le _).trans ?_
  rw [List.length_insertionSort, List.length_map]
  exact List.length_filter_le _ _

omit [External] in
theorem work_of_running {process : TargetProcess} (h : process.status = .running) :
    process.work = 2 * process.unsent.length + 1 :=
  if_pos h

omit [External] in
/-- Changing the work of one target. -/
theorem sum_set_add {xs : List TargetProcess} {k : Nat} {old : TargetProcess}
    (hget : xs[k]? = some old) (new : TargetProcess) :
    ((xs.set k new).map TargetProcess.work).sum + old.work =
      (xs.map TargetProcess.work).sum + new.work := by
  obtain ⟨hk, rfl⟩ := List.getElem?_eq_some_iff.mp hget
  rw [List.set_eq_take_append_cons_drop, if_pos hk]
  conv_rhs => rw [← List.take_append_drop k xs, List.drop_eq_getElem_cons hk]
  simp only [List.map_append, List.map_cons, List.sum_append, List.sum_cons]
  omega

omit [External] in
/-- A message that is sent is queued at most once, while the reporter is as it was. -/
theorem queue_after_send_length_le {message : ReporterMessage} {queue : List ReporterMessage}
    (h : state.queueAfterSend message = some queue) : queue.length ≤ state.queue.length + 1 := by
  obtain ⟨rfl, -⟩ | ⟨rfl, -⟩ := queue_after_send_cases h
  · simp
  · omega

/-- The runner's own steps use up work. -/
theorem own_step_work_lt (hown : event.Own) (hstep : SessionStep setup state event next) :
    next.work setup < state.work setup := by
  unfold SessionState.work
  cases hstep with
  | refused => exact hown.elim
  | acknowledged => exact hown.elim
  | serverExit => exact hown.elim
  | targetPanic => exact hown.elim
  | drained exitCode spec rest hpc hintake =>
      simp only [schedulerWork, hpc, hintake, List.length_cons]
      omega
  | drainedEnd exitCode rest hpc hintake =>
      simp only [schedulerWork, hpc]
      omega
  | drainedClosed exitCode hpc hintake hserving =>
      simp only [schedulerWork, hpc]
      omega
  | received spec rest hpc hintake =>
      simp only [schedulerWork, hpc, hintake, intakeWork, List.map_append, List.sum_append,
        List.map_cons, List.map_nil, List.sum_singleton, List.length_append, List.length_singleton]
      omega
  | receivedEnd rest hpc hintake =>
      have hmissing := missing_targets_length_le setup.config
        (receivedOverrideTargets setup.config state.received)
      simp only [schedulerWork, hpc, leaveIntake, SessionState.missingTargets]
      omega
  | receivedClosed hpc hintake hserving =>
      have hmissing := missing_targets_length_le setup.config
        (receivedOverrideTargets setup.config state.received)
      simp only [schedulerWork, hpc, leaveIntake, SessionState.missingTargets]
      omega
  | sendMissing target rest queue hpc hqueue =>
      have hlength := queue_after_send_length_le hqueue
      simp only [schedulerWork, hpc, List.length_cons]
      omega
  | missingSent hpc =>
      simp only [schedulerWork, hpc, List.length_nil]
      omega
  | targetSend k i process message queue hprocess hmessage hqueue =>
      obtain ⟨hget, hrunning⟩ := running_target_eq_some hprocess
      obtain ⟨hi, -⟩ := List.getElem?_eq_some_iff.mp hmessage
      have hlength := queue_after_send_length_le hqueue
      have hsum := sum_set_add hget
        { process with
          unsent := process.unsent.eraseIdx i
          sent := process.sent ++ [message] }
      rw [work_of_running hrunning, work_of_running (by exact hrunning),
        List.length_eraseIdx_of_lt hi] at hsum
      simp only [SessionState.setTarget, schedulerWork]
      omega
  | targetFinish k process hprocess hunsent =>
      obtain ⟨hget, hrunning⟩ := running_target_eq_some hprocess
      have hsum := sum_set_add hget { process with status := .finished }
      have hdone : { process with status := TargetStatus.finished }.work = 0 := rfl
      rw [work_of_running hrunning, hdone] at hsum
      simp only [SessionState.setTarget, schedulerWork]
      omega
  | joinTargets hpc hended =>
      simp only [schedulerWork, hpc]
      omega
  | reporterReceive reporter after message rest hreporter hqueue hstep =>
      simp only [schedulerWork, hreporter, hqueue, reporterWork, List.length_cons]
      omega
  | reporterPanic reporter panic message rest hreporter hqueue hstep =>
      simp only [schedulerWork, hreporter, hqueue, reporterWork, List.length_cons, List.length_nil]
      omega
  | reporterFinish anyTargetPanicked reporter hpc hreporter hqueue =>
      simp only [schedulerWork, hpc, hreporter, reporterWork]
      omega
  | awaitReporter anyTargetPanicked verdict hpc hverdict =>
      simp only [schedulerWork, hpc]
      omega
  | endOfTestResults exitCode hpc =>
      simp only [schedulerWork, hpc]
      omega

end Work

/-! ## Progress -/

section Progress

variable [External] {setup : SessionSetup} {state next : SessionState} {event : SessionEvent}

omit [External] in
/-- Without an end of requests in the intake only its specifications are left. -/
theorem end_mem_intake {specs : List ExternalRunnerSpec} {intake : List SpecEnvelope}
    (h : .endOfRequests ∈ specs.map SpecEnvelope.spec ++ intake) : .endOfRequests ∈ intake := by
  simpa using h

/-- In an intake loop, what was acknowledged and not taken is in the intake. -/
theorem accepted_of_takes (h : state.Valid setup) (htakes : state.pc.takesEnvelopes = true) :
    ∃ specs : List ExternalRunnerSpec, state.accepted = specs.map .spec ++ state.intake := by
  unfold SessionState.Valid at h
  cases hidle : setup.idleExit with
  | some exitCode =>
      rw [hidle] at h
      refine h.intake ?_
      obtain hpc | hpc | hpc := h.pc
      · exact hpc
      · rw [hpc] at htakes
        cases htakes
      · rw [hpc] at htakes
        cases htakes
  | none =>
      rw [hidle] at h
      have hintake := h.intake
      unfold IntakeValid at hintake
      cases hpc : state.pc with
      | draining exitCode => rw [hpc] at hintake; exact hintake.elim
      | receiving => rw [hpc] at hintake; exact ⟨_, hintake⟩
      | _ => rw [hpc] at htakes; cases htakes

/-- After the intake loop of a session that runs targets. -/
theorem live_of_valid (h : state.Valid setup)
    (hpc : ∀ exitCode, state.pc ≠ .draining exitCode ∧ state.pc ≠ .returned exitCode ∧
      state.pc ≠ .ended exitCode) : Live setup state := by
  unfold SessionState.Valid at h
  cases hidle : setup.idleExit with
  | none => rw [hidle] at h; exact h
  | some exitCode =>
      rw [hidle] at h
      obtain ⟨hdraining, hreturned, hended⟩ := hpc exitCode
      obtain hat | hat | hat := h.pc
      · exact absurd hat hdraining
      · exact absurd hat hreturned
      · exact absurd hat hended

/-- The reporter can take the next message. -/
theorem reporter_can_receive {reporter : ReporterState} {message : ReporterMessage}
    {rest : List ReporterMessage} (hreporter : state.reporter = .running reporter)
    (hqueue : state.queue = message :: rest) :
    ∃ next, SessionStep setup state .reporterReceive next := by
  cases hstep : reporterStep setup.profile setup.io reporter message with
  | ok after => exact ⟨_, .reporterReceive reporter after message rest hreporter hqueue hstep⟩
  | error panic => exact ⟨_, .reporterPanic reporter panic message rest hreporter hqueue hstep⟩

/-- A message can be sent, or the reporter makes room for it. -/
theorem can_send_or_receive (setup : SessionSetup) (message : ReporterMessage) :
    (∃ queue, state.queueAfterSend message = some queue) ∨
      ∃ next, SessionStep setup state .reporterReceive next := by
  unfold SessionState.queueAfterSend
  cases hreporter : state.reporter with
  | running reporter =>
      by_cases hroom : state.queue.length < maxReportQueue
      · exact .inl ⟨_, if_pos hroom⟩
      · cases hqueue : state.queue with
        | nil => rw [hqueue] at hroom; exact absurd (by decide) hroom
        | cons queued rest => exact .inr (reporter_can_receive hreporter hqueue)
  | absent => exact .inl ⟨_, rfl⟩
  | panicked panic => exact .inl ⟨_, rfl⟩
  | finished reporter => exact .inl ⟨_, rfl⟩

/-- A step in an intake loop. -/
theorem intake_progress (h : state.Valid setup) (hclosed : InputClosed state)
    (htakes : state.pc.takesEnvelopes = true) : ∃ next, SessionStep setup state .receive next := by
  have hnone : state.intake = [] → state.serving = false := by
    intro hintake
    obtain ⟨specs, hspecs⟩ := accepted_of_takes h htakes
    obtain hend | hserving := hclosed htakes
    · rw [hspecs, hintake] at hend
      cases end_mem_intake hend
    · exact hserving
  cases hpc : state.pc with
  | draining exitCode =>
      cases hintake : state.intake with
      | nil => exact ⟨_, .drainedClosed exitCode hpc hintake (hnone hintake)⟩
      | cons envelope rest =>
          cases envelope with
          | spec spec => exact ⟨_, .drained exitCode spec rest hpc hintake⟩
          | endOfRequests => exact ⟨_, .drainedEnd exitCode rest hpc hintake⟩
  | receiving =>
      cases hintake : state.intake with
      | nil => exact ⟨_, .receivedClosed hpc hintake (hnone hintake)⟩
      | cons envelope rest =>
          cases envelope with
          | spec spec => exact ⟨_, .received spec rest hpc hintake⟩
          | endOfRequests => exact ⟨_, .receivedEnd rest hpc hintake⟩
  | _ => rw [hpc] at htakes; cases htakes

/-- A step while targets are joined: one that runs sends a message or finishes. -/
theorem joining_progress (hpc : state.pc = .joining) :
    ∃ event next, SessionStep setup state event next ∧ event.Own := by
  by_cases hended : TargetsEnded state
  · exact ⟨_, _, .joinTargets hpc hended, trivial⟩
  · unfold TargetsEnded at hended
    push Not at hended
    obtain ⟨process, hprocess, hrunning⟩ := hended
    obtain ⟨k, hk⟩ := List.getElem?_of_mem hprocess
    have hget : state.runningTarget k = some process := by
      simp [SessionState.runningTarget, hk, hrunning]
    cases hunsent : process.unsent with
    | nil => exact ⟨_, _, .targetFinish k process hget hunsent, trivial⟩
    | cons message rest =>
        have hmessage : process.unsent[0]? = some message := by simp [hunsent]
        obtain ⟨queue, hqueue⟩ | ⟨next, hstep⟩ := can_send_or_receive setup message
        · exact ⟨_, _, .targetSend k 0 process message queue hget hmessage hqueue, trivial⟩
        · exact ⟨_, next, hstep, trivial⟩

/-- A step while the reporter is awaited: it consumes what is queued, then finishes. -/
theorem awaiting_progress (h : Live setup state) {anyTargetPanicked : Bool}
    (hpc : state.pc = .awaitingReporter anyTargetPanicked) :
    ∃ event next, SessionStep setup state event next ∧ event.Own := by
  have hdelivered := h.delivered
  unfold Delivered at hdelivered
  cases hreporter : state.reporter with
  | absent => rw [hreporter] at hdelivered; exact hdelivered.elim
  | running reporter =>
      cases hqueue : state.queue with
      | nil => exact ⟨_, _, .reporterFinish _ reporter hpc hreporter hqueue, trivial⟩
      | cons message rest =>
          obtain ⟨next, hstep⟩ := reporter_can_receive hreporter hqueue
          exact ⟨_, next, hstep, trivial⟩
  | panicked panic =>
      have hverdict : state.reporterVerdict = some .fail := by
        simp [SessionState.reporterVerdict, hreporter]
      exact ⟨_, _, .awaitReporter _ _ hpc hverdict, trivial⟩
  | finished reporter =>
      have hverdict : state.reporterVerdict = some reporter.verdict := by
        simp [SessionState.reporterVerdict, hreporter]
      exact ⟨_, _, .awaitReporter _ _ hpc hverdict, trivial⟩

/-- Once the input is closed, the runner can always take a step of its own until the end is
reported: the bounded channel cannot block it for ever. -/
theorem session_progress (h : state.Valid setup) (hclosed : InputClosed state)
    (hnot : ∀ exitCode, state.pc ≠ .ended exitCode) :
    ∃ event next, SessionStep setup state event next ∧ event.Own := by
  cases hpc : state.pc with
  | draining exitCode =>
      obtain ⟨next, hstep⟩ := intake_progress h hclosed (by rw [hpc]; rfl)
      exact ⟨_, next, hstep, trivial⟩
  | receiving =>
      obtain ⟨next, hstep⟩ := intake_progress h hclosed (by rw [hpc]; rfl)
      exact ⟨_, next, hstep, trivial⟩
  | reportingMissing targets =>
      cases targets with
      | nil => exact ⟨_, _, .missingSent hpc, trivial⟩
      | cons target rest =>
          obtain ⟨queue, hqueue⟩ | ⟨next, hstep⟩ :=
            can_send_or_receive setup (missingTargetMessage target)
          · exact ⟨_, _, .sendMissing target rest queue hpc hqueue, trivial⟩
          · exact ⟨_, next, hstep, trivial⟩
  | joining => exact joining_progress hpc
  | awaitingReporter anyTargetPanicked =>
      exact awaiting_progress (live_of_valid h (by simp [hpc])) hpc
  | returned exitCode => exact ⟨_, _, .endOfTestResults exitCode hpc, trivial⟩
  | ended exitCode => exact absurd hpc (hnot exitCode)

/-- The runner's own steps do not open the input again. -/
theorem input_closed_step (hclosed : InputClosed state) (hown : event.Own)
    (hstep : SessionStep setup state event next) : InputClosed next := by
  cases hstep with
  | refused => exact hown.elim
  | acknowledged => exact hown.elim
  | serverExit => exact hown.elim
  | received spec rest hpc hintake => exact fun _ => hclosed (by rw [hpc]; rfl)
  | drained exitCode spec rest hpc hintake => exact hclosed
  | targetSend => exact hclosed
  | targetFinish => exact hclosed
  | targetPanic => exact hclosed
  | reporterReceive => exact hclosed
  | reporterPanic => exact hclosed
  | reporterFinish => exact hclosed
  | _ => exact nofun

/-- Once the input is closed, the runner's own steps bring the session to its end. -/
theorem session_drains (setup : SessionSetup) :
    Runs.Drains (sessionStep setup) SessionEvent.Own
      (fun state => state.Valid setup ∧ InputClosed state)
      (fun state => ∃ exitCode, state.pc = .ended exitCode) (SessionState.work setup) where
  keeps h hown hstep :=
    ⟨valid_step h.1 hstep, input_closed_step h.2 hown (session_step_iff.mp hstep)⟩
  decreases _ hown hstep := own_step_work_lt hown (session_step_iff.mp hstep)
  progress h hnot := by
    obtain ⟨event, next, hstep, hown⟩ :=
      session_progress h.1 h.2 fun exitCode hended => hnot ⟨exitCode, hended⟩
    exact ⟨event, hown, Option.isSome_iff_exists.mpr ⟨next, session_step_iff.mpr hstep⟩⟩

/-- The scheduler waits for buck2. -/
structure Waiting (state : SessionState) : Prop where
  takes : state.pc.takesEnvelopes = true
  no_end : .endOfRequests ∉ state.accepted
  serving : state.serving = true

omit [External] in
/-- The scheduler waits for buck2 exactly while the input is open. -/
theorem waiting_iff : Waiting state ↔ ¬InputClosed state := by
  constructor
  · rintro ⟨htakes, hnone, hserving⟩ hclosed
    obtain hend | hgone := hclosed htakes
    · exact hnone hend
    · rw [hserving] at hgone
      cases hgone
  · intro hopen
    unfold InputClosed at hopen
    push Not at hopen
    obtain ⟨htakes, hnone, hserving⟩ := hopen
    exact ⟨htakes, hnone, by simpa using hserving⟩

/-- While the scheduler waits, the runner's own steps leave it waiting. -/
theorem waiting_step (hvalid : state.Valid setup) (h : Waiting state) (hown : event.Own)
    (hstep : SessionStep setup state event next) : Waiting next := by
  obtain ⟨htakes, hnone, hserving⟩ := h
  have hend : .endOfRequests ∉ state.intake := by
    intro hmem
    obtain ⟨specs, hspecs⟩ := accepted_of_takes hvalid htakes
    exact hnone (by rw [hspecs]; exact List.mem_append_right _ hmem)
  cases hstep with
  | refused => exact hown.elim
  | acknowledged => exact hown.elim
  | serverExit => exact hown.elim
  | drained exitCode spec rest hpc hintake => exact ⟨htakes, hnone, hserving⟩
  | received spec rest hpc hintake => exact ⟨htakes, hnone, hserving⟩
  | targetSend => exact ⟨htakes, hnone, hserving⟩
  | targetFinish => exact ⟨htakes, hnone, hserving⟩
  | targetPanic => exact hown.elim
  | reporterReceive => exact ⟨htakes, hnone, hserving⟩
  | reporterPanic => exact ⟨htakes, hnone, hserving⟩
  | reporterFinish => exact ⟨htakes, hnone, hserving⟩
  | drainedEnd exitCode rest hpc hintake =>
      rw [hintake] at hend
      exact absurd List.mem_cons_self hend
  | receivedEnd rest hpc hintake =>
      rw [hintake] at hend
      exact absurd List.mem_cons_self hend
  | drainedClosed exitCode hpc hintake hgone => rw [hserving] at hgone; cases hgone
  | receivedClosed hpc hintake hgone => rw [hserving] at hgone; cases hgone
  | sendMissing target rest queue hpc => rw [hpc] at htakes; cases htakes
  | missingSent hpc => rw [hpc] at htakes; cases htakes
  | joinTargets hpc => rw [hpc] at htakes; cases htakes
  | awaitReporter anyTargetPanicked verdict hpc => rw [hpc] at htakes; cases htakes
  | endOfTestResults exitCode hpc => rw [hpc] at htakes; cases htakes

/-- A waiting scheduler does not end the session by itself. -/
theorem waiting_after {state final : SessionState} {events : List SessionEvent}
    (hvalid : state.Valid setup) (h : Waiting state) (hown : ∀ event ∈ events, event.Own)
    (hafter : Runs.after (sessionStep setup) state events = some final) : Waiting final := by
  induction events generalizing state with
  | nil => cases hafter; exact h
  | cons event events ih =>
      obtain ⟨middle, hfirst, hrest⟩ := Runs.after_cons_eq_some.mp hafter
      have hmiddle := waiting_step hvalid h (hown event (by simp)) (session_step_iff.mp hfirst)
      exact ih (valid_step hvalid hfirst) hmiddle
        (fun other hother => hown other (by simp [hother])) hrest

/-- In every state of a session the runner's own steps can bring it to its end exactly if the
input is closed; then they do so in every order: there are at most `work` of them, and they go on
until the end has been reported. Calls of the orchestrator are taken to be answered. -/
theorem session_completes_iff (setup : SessionSetup) (events : List SessionEvent)
    (state : SessionState) (hreaches : Reaches setup events state) :
    ((∃ more final exitCode, (∀ event ∈ more, SessionEvent.Own event) ∧
        Runs.after (sessionStep setup) state more = some final ∧ final.pc = .ended exitCode) ↔
      InputClosed state) ∧
    (InputClosed state → ∀ more final, (∀ event ∈ more, SessionEvent.Own event) →
      Runs.after (sessionStep setup) state more = some final →
        more.length ≤ state.work setup ∧
          (Runs.Stuck (sessionStep setup) SessionEvent.Own final →
            ∃ exitCode, final.endReports = [exitCode])) := by
  have hvalid := valid_of_reaches hreaches
  refine ⟨⟨?_, fun hclosed => ?_⟩, fun hclosed more final hown hafter => ⟨?_, fun hstuck => ?_⟩⟩
  · rintro ⟨more, final, exitCode, hown, hafter, hended⟩
    by_contra hopen
    have hwaiting := waiting_after hvalid (waiting_iff.mpr hopen) hown hafter
    have htakes := hwaiting.takes
    rw [hended] at htakes
    cases htakes
  · obtain ⟨more, final, hown, hafter, exitCode, hended⟩ :=
      (session_drains setup).completes ⟨hvalid, hclosed⟩
    exact ⟨more, final, exitCode, hown, hafter, hended⟩
  · have hbound := (session_drains setup).length_le ⟨hvalid, hclosed⟩ hown hafter
    omega
  · obtain ⟨exitCode, hended⟩ :=
      (session_drains setup).done_of_stuck ⟨hvalid, hclosed⟩ hown hafter hstuck
    have hfinal := Runs.after_invariant (P := SessionState.Valid setup) valid_step hvalid hafter
    have hreported := end_reported_of_valid hfinal
    simp only [EndReported, hended] at hreported
    exact ⟨exitCode, hreported⟩

end Progress

/-- Steps of a session with two targets of which the first one has sent its message. -/
def halfSentSession : List SessionEvent :=
  [.request (.externalRunnerSpec (some { ExternalRunnerSpec.plain "rust" [] with target := none })),
    .request (.externalRunnerSpec (some (.plain "rust" []))), .receive, .receive, .targetSend 0 0,
    .request .endOfTestRequests]

/-- A session comes to its end from a state in which a message is in the channel and another target
has yet to send its messages. -/
theorem half_sent_session_completes :
    letI := External.inert
    ∃ state : SessionState, Reaches SessionSetup.withoutFlags halfSentSession state ∧
      state.queue.length = 1 ∧ state.targets.map (fun target => target.unsent.length) = [0, 1] ∧
      ∃ more final exitCode, (∀ event ∈ more, SessionEvent.Own event) ∧
        Runs.after (sessionStep SessionSetup.withoutFlags) state more = some final ∧
          final.pc = .ended exitCode := by
  let := External.inert
  obtain ⟨state, hreaches, hqueue, hunsent, haccepted⟩ : ∃ state : SessionState,
      Reaches SessionSetup.withoutFlags halfSentSession state ∧ state.queue.length = 1 ∧
      state.targets.map (fun target => target.unsent.length) = [0, 1] ∧
      (.endOfRequests ∈ state.accepted) :=
    ⟨_, rfl, rfl, rfl, by simp⟩
  exact ⟨state, hreaches, hqueue, hunsent,
    (session_completes_iff _ _ state hreaches).1.mpr fun _ => .inl haccepted⟩

end Quokka
