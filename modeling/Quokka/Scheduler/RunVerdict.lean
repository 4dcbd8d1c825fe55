import Quokka.Scheduler.Conservation

/-!
# The verdict of a run

The reporter's verdict and tally are functions of what it received, not of the order of arrival.
`Reckoned` says what they are after some finished tests and dropped targets: `report_finished_step`
and `reporter_step_reckoned` are the steps and `reporter_task_reckoned` the run.
`run_verdict_is_order_free` is the result, together with the exit code of the session.
-/

namespace Quokka

/-- Whether the message reports a dropped target. -/
def ReporterMessage.isDropped : ReporterMessage → Bool
  | .targetDropped _ => true
  | .finished _ => false
  | .discovered _ => false

/-- The finished tests among the messages. -/
def finishedAmong (messages : List ReporterMessage) : List FinishedTest :=
  messages.flatMap ReporterMessage.finishedTests

/-- The number of dropped targets among the messages. -/
def droppedAmong (messages : List ReporterMessage) : Nat :=
  messages.countP ReporterMessage.isDropped

/-- How many of the tests have a disposition. -/
def countDisposition (disposition : ReportDisposition) (done : List FinishedTest) : Nat :=
  done.countP fun finished => finished.disposition == disposition

/-- The tally of some finished tests and dropped targets. -/
def tallyOf (done : List FinishedTest) (dropped : Nat) : Tally where
  total := done.length + dropped
  passed := countDisposition .passed done
  failed := countDisposition .failure done + dropped
  quarantinedFailed := countDisposition .quarantinedFailure done
  skipped := countDisposition .skipped done

/-- Some of the first `count` reports was rejected. -/
def SomeRejected (io : ReporterIo) (count : Nat) : Prop :=
  ∃ k < count, (io.reportTestResult k).isSome = true

/-- A run fails on a dropped target, a failure, or a rejected report. -/
def FailsBy (io : ReporterIo) (done : List FinishedTest) (dropped : Nat) : Prop :=
  0 < dropped ∨ (∃ finished ∈ done, finished.disposition = .failure) ∨ SomeRejected io done.length

/-! ## Counting -/

@[simp] theorem count_disposition_append (disposition : ReportDisposition)
    (done : List FinishedTest) (finished : FinishedTest) :
    countDisposition disposition (done ++ [finished]) =
      countDisposition disposition done +
        if finished.disposition = disposition then 1 else 0 := by
  by_cases h : finished.disposition = disposition <;> simp [countDisposition, h]

/-- Counting one more finished test. -/
theorem tally_of_append (done : List FinishedTest) (dropped : Nat) (finished : FinishedTest) :
    tallyOf (done ++ [finished]) dropped = (tallyOf done dropped).count finished.disposition := by
  cases h : finished.disposition <;> simp [tallyOf, Tally.count, h] <;> omega

/-- Every finished test has exactly one disposition. -/
theorem length_eq_sum_dispositions (done : List FinishedTest) :
    done.length = countDisposition .passed done + countDisposition .failure done +
      countDisposition .quarantinedFailure done + countDisposition .skipped done := by
  induction done using List.reverseRecOn with
  | nil => rfl
  | append_singleton done finished ih =>
      simp only [List.length_append, List.length_singleton, count_disposition_append]
      cases h : finished.disposition <;> simp <;> omega

/-- The total is the sum of the other counters. -/
theorem tally_of_total (done : List FinishedTest) (dropped : Nat) :
    let tally := tallyOf done dropped
    tally.total = tally.passed + tally.failed + tally.quarantinedFailed + tally.skipped := by
  have hsum := length_eq_sum_dispositions done
  simp only [tallyOf]
  omega

/-- The tally of permuted tests. -/
theorem tally_of_perm {done others : List FinishedTest} (h : done.Perm others) (dropped : Nat) :
    tallyOf done dropped = tallyOf others dropped := by
  simp only [tallyOf, countDisposition, h.length_eq, h.countP_eq]

theorem some_rejected_succ (io : ReporterIo) (count : Nat) :
    SomeRejected io (count + 1) ↔
      SomeRejected io count ∨ (io.reportTestResult count).isSome = true := by
  constructor
  · rintro ⟨k, hk, hrejected⟩
    rcases Nat.lt_succ_iff_lt_or_eq.mp hk with hlt | rfl
    · exact .inl ⟨k, hlt, hrejected⟩
    · exact .inr hrejected
  · rintro (⟨k, hk, hrejected⟩ | hrejected)
    · exact ⟨k, Nat.lt_succ_of_lt hk, hrejected⟩
    · exact ⟨count, Nat.lt_succ_self count, hrejected⟩

/-! ## The reporter -/

/-- Verdict, tally and reports after some finished tests and dropped targets. -/
structure Reckoned (io : ReporterIo) (done : List FinishedTest) (dropped : Nat)
    (state : ReporterState) : Prop where
  verdict_iff : state.verdict = .fail ↔ FailsBy io done dropped
  tally_eq : state.tally = tallyOf done dropped
  reported_length : state.reported.length = done.length

/-- The parts of the reporter's state that decide the outcome of the run are the same. -/
structure SameReckoning (state next : ReporterState) : Prop where
  verdict_eq : next.verdict = state.verdict
  tally_eq : next.tally = state.tally
  reported_eq : next.reported = state.reported

theorem SameReckoning.trans {first second third : ReporterState}
    (hfirst : SameReckoning first second) (hsecond : SameReckoning second third) :
    SameReckoning first third :=
  ⟨hsecond.verdict_eq.trans hfirst.verdict_eq, hsecond.tally_eq.trans hfirst.tally_eq,
    hsecond.reported_eq.trans hfirst.reported_eq⟩

theorem Reckoned.of_same {io : ReporterIo} {done : List FinishedTest} {dropped : Nat}
    {state next : ReporterState} (h : Reckoned io done dropped state)
    (hsame : SameReckoning state next) : Reckoned io done dropped next where
  verdict_iff := by rw [hsame.verdict_eq]; exact h.verdict_iff
  tally_eq := by rw [hsame.tally_eq]; exact h.tally_eq
  reported_length := by rw [hsame.reported_eq]; exact h.reported_length

section Reporter

variable [HashKey] {profile : BuildProfile} {io : ReporterIo}

omit [HashKey] in
/-- A report file failure does not touch the outcome. -/
theorem ci_report_failure_same (state : ReporterState) (detail : String) :
    SameReckoning state (reportCiReportFailure state detail) := by
  unfold reportCiReportFailure
  split
  · exact ⟨rfl, rfl, rfl⟩
  · exact ⟨rfl, rfl, rfl⟩

omit [HashKey] in
/-- Writing to the report file does not touch the outcome. -/
theorem write_ci_test_same (state : ReporterState) :
    SameReckoning state (writeCiTest io state) := by
  unfold writeCiTest
  split
  · exact ⟨rfl, rfl, rfl⟩
  split
  · exact ⟨rfl, rfl, rfl⟩
  · have hclosed : SameReckoning state
        { state with ciReportOpen := false, written := state.written + 1 } := ⟨rfl, rfl, rfl⟩
    exact hclosed.trans (ci_report_failure_same _ _)

/-- Recording observations does not touch the outcome. -/
theorem record_observations_same {testId : TestIdentity} {observations : List DbObservation}
    {state next : ReporterState}
    (h : recordObservations profile io testId state observations = .ok next) :
    SameReckoning state next := by
  induction observations generalizing state with
  | nil => cases h; exact ⟨rfl, rfl, rfl⟩
  | cons obs rest ih =>
      unfold recordObservations at h
      cases hrecord : state.db.recordAt profile obs.env testId obs.duration obs.failed
          obs.failureClass (io.now state.recorded) with
      | error message => rw [hrecord] at h; cases h
      | ok db =>
          rw [hrecord] at h
          have hrecorded : SameReckoning state
              { state with db, recorded := state.recorded + 1 } := ⟨rfl, rfl, rfl⟩
          exact hrecorded.trans (ih h)

omit [HashKey] in
/-- Counting and reporting one finished test. -/
theorem count_and_report_reckoned {done : List FinishedTest} {dropped : Nat}
    {state : ReporterState} (h : Reckoned io done dropped state) (finished : FinishedTest) :
    Reckoned io (done ++ [finished]) dropped
      (reportResult io (countFinished state finished) finished.result) := by
  have hverdict : (reportResult io (countFinished state finished) finished.result).verdict =
      .fail ↔ state.verdict = .fail ∨ finished.disposition = .failure ∨
        (io.reportTestResult done.length).isSome = true := by
    have hreported : (countFinished state finished).reported.length = done.length := by
      rw [← h.reported_length]
      unfold countFinished
      dsimp only
      split <;> rfl
    have hcounted : (countFinished state finished).verdict = .fail ↔
        state.verdict = .fail ∨ finished.disposition = .failure := by
      unfold countFinished
      dsimp only
      split
      case isTrue hfailure => simp [hfailure]
      case isFalse hfailure => simp [hfailure]
    unfold reportResult
    rw [hreported]
    by_cases hrejected : (io.reportTestResult done.length).isSome = true
    · simp [hrejected]
    · simp [hrejected, hcounted]
  constructor
  · rw [hverdict, h.verdict_iff]
    unfold FailsBy
    rw [List.length_append, List.length_singleton, some_rejected_succ]
    simp only [List.mem_append, List.mem_singleton, or_and_right, exists_or, exists_eq_left]
    grind
  · rw [tally_of_append, ← h.tally_eq]
    unfold reportResult countFinished
    dsimp only
    split <;> rfl
  · have hlength : (countFinished state finished).reported.length = done.length := by
      rw [← h.reported_length]
      unfold countFinished
      dsimp only
      split <;> rfl
    simp [reportResult, hlength]

/-- One finished test. -/
theorem report_finished_reckoned {done : List FinishedTest} {dropped : Nat}
    {state next : ReporterState} {finished : FinishedTest}
    (h : Reckoned io done dropped state)
    (hstep : reportFinished profile io state finished = .ok next) :
    Reckoned io (done ++ [finished]) dropped next :=
  (count_and_report_reckoned (h.of_same (write_ci_test_same state)) finished).of_same
    (record_observations_same hstep)

/-- One batch of finished tests. -/
theorem report_batch_reckoned {batch done : List FinishedTest} {dropped : Nat}
    {state next : ReporterState} (h : Reckoned io done dropped state)
    (hbatch : batch.foldlM (reportFinished profile io) state = .ok next) :
    Reckoned io (done ++ batch) dropped next := by
  induction batch generalizing done state with
  | nil => cases hbatch; rwa [List.append_nil]
  | cons finished batch ih =>
      rw [List.foldlM_cons] at hbatch
      cases hfirst : reportFinished profile io state finished with
      | error message => rw [hfirst] at hbatch; cases hbatch
      | ok middle =>
          rw [hfirst] at hbatch
          have hrest := ih (report_finished_reckoned h hfirst) hbatch
          rwa [List.append_assoc] at hrest

/-- One message. -/
theorem reporter_step_reckoned {done : List FinishedTest} {dropped : Nat}
    {state next : ReporterState} {message : ReporterMessage}
    (h : Reckoned io done dropped state)
    (hstep : reporterStep profile io state message = .ok next) :
    Reckoned io (done ++ message.finishedTests)
      (dropped + if message.isDropped then 1 else 0) next := by
  cases message with
  | finished batch => exact report_batch_reckoned h hstep
  | discovered tests =>
      cases hstep
      rw [ReporterMessage.finishedTests, List.append_nil]
      exact h.of_same ⟨rfl, rfl, rfl⟩
  | targetDropped reason =>
      cases hstep
      rw [ReporterMessage.finishedTests, List.append_nil]
      refine ⟨?_, ?_, h.reported_length⟩
      · simp [FailsBy, ReporterMessage.isDropped]
      · simp [tallyOf, h.tally_eq, ReporterMessage.isDropped]
        omega

/-- Some messages. -/
theorem reporter_steps_reckoned {messages : List ReporterMessage} {done : List FinishedTest}
    {dropped : Nat} {state final : ReporterState} (h : Reckoned io done dropped state)
    (hsteps : messages.foldlM (reporterStep profile io) state = .ok final) :
    Reckoned io (done ++ finishedAmong messages) (dropped + droppedAmong messages) final := by
  induction messages generalizing done dropped state with
  | nil => cases hsteps; simpa [finishedAmong, droppedAmong] using h
  | cons message messages ih =>
      rw [List.foldlM_cons] at hsteps
      cases hfirst : reporterStep profile io state message with
      | error detail => rw [hfirst] at hsteps; cases hsteps
      | ok middle =>
          rw [hfirst] at hsteps
          have hrest := ih (reporter_step_reckoned h hfirst) hsteps
          rw [List.append_assoc, Nat.add_assoc] at hrest
          rw [droppedAmong, List.countP_cons, Nat.add_comm (messages.countP _)]
          exact hrest

/-- A failing verdict survives one message. -/
theorem reporter_step_sticky {state next : ReporterState} {message : ReporterMessage}
    (h : reporterStep profile io state message = .ok next) (hfail : state.verdict = .fail) :
    next.verdict = .fail := by
  have hfinished : ∀ {batch : List FinishedTest} {state next : ReporterState},
      batch.foldlM (reportFinished profile io) state = .ok next → state.verdict = .fail →
        next.verdict = .fail := by
    intro batch
    induction batch with
    | nil => intro state next h hfail; cases h; exact hfail
    | cons finished batch ih =>
        intro state next h hfail
        rw [List.foldlM_cons] at h
        cases hfirst : reportFinished profile io state finished with
        | error detail => rw [hfirst] at h; cases h
        | ok middle =>
            rw [hfirst] at h
            refine ih h ?_
            rw [(record_observations_same hfirst).verdict_eq]
            have hwritten : (writeCiTest io state).verdict = .fail := by
              rw [(write_ci_test_same state).verdict_eq]
              exact hfail
            unfold reportResult countFinished
            dsimp only
            split <;> split <;> first | rfl | exact hwritten
  cases message with
  | finished batch => exact hfinished h hfail
  | discovered tests => cases h; exact hfail
  | targetDropped reason => cases h; rfl

/-- Once the verdict is a failure it stays one. -/
theorem reporter_steps_sticky {messages : List ReporterMessage} {state final : ReporterState}
    (h : messages.foldlM (reporterStep profile io) state = .ok final)
    (hfail : state.verdict = .fail) : final.verdict = .fail := by
  induction messages generalizing state with
  | nil => cases h; exact hfail
  | cons message messages ih =>
      rw [List.foldlM_cons] at h
      cases hfirst : reporterStep profile io state message with
      | error detail => rw [hfirst] at h; cases h
      | ok middle =>
          rw [hfirst] at h
          exact ih h (reporter_step_sticky hfirst hfail)

omit [HashKey] in
/-- The reporter starts with a passing verdict and an empty tally. -/
theorem start_reckoned (db : DurationDb) :
    Reckoned io [] 0 (ReporterState.start io db) := by
  have hplain : ∀ state : ReporterState, state.verdict = .pass → state.tally = {} →
      state.reported = [] → Reckoned io [] 0 state := by
    intro state hverdict htally hreported
    refine ⟨?_, by rw [htally]; rfl, by rw [hreported]; rfl⟩
    rw [hverdict]
    simp [FailsBy, SomeRejected]
  unfold ReporterState.start
  dsimp only
  split
  · exact (hplain _ rfl rfl rfl).of_same (ci_report_failure_same _ _)
  · exact hplain _ rfl rfl rfl

omit [HashKey] in
/-- The end of the session does not touch the outcome. -/
theorem finish_session_same (context : SessionContext) (state : ReporterState) :
    SameReckoning state (finishSession io context state) := by
  unfold finishSession
  dsimp only
  split
  · have hsummary : SameReckoning state
        { state with
          console := state.console ++
            [(if 0 < state.tally.failed then Level.warn else .info,
              sessionSummary state.tally context)] } := ⟨rfl, rfl, rfl⟩
    exact hsummary.trans (ci_report_failure_same _ _)
  · exact ⟨rfl, rfl, rfl⟩

/-- The reporter's run: its verdict and tally are those of what it received. -/
theorem reporter_task_reckoned {context : SessionContext} {db : DurationDb}
    {messages : List ReporterMessage} {final : ReporterState}
    (h : reporterTask profile io context db messages = .ok final) :
    Reckoned io (finishedAmong messages) (droppedAmong messages) final := by
  unfold reporterTask at h
  cases hsteps : messages.foldlM (reporterStep profile io) (ReporterState.start io db) with
  | error detail => rw [hsteps] at h; cases h
  | ok last =>
      rw [hsteps] at h
      cases h
      have hlast := reporter_steps_reckoned (start_reckoned db) hsteps
      rw [List.nil_append, Nat.zero_add] at hlast
      exact hlast.of_same (finish_session_same context last)

/-- The verdict after some first messages is kept if it is a failure. -/
theorem reporter_task_sticky {context : SessionContext} {db : DurationDb}
    {before after : List ReporterMessage} {middle final : ReporterState}
    (h : reporterTask profile io context db (before ++ after) = .ok final)
    (hbefore : before.foldlM (reporterStep profile io) (ReporterState.start io db) = .ok middle)
    (hfail : middle.verdict = .fail) : final.verdict = .fail := by
  unfold reporterTask at h
  rw [List.foldlM_append, hbefore] at h
  have hrest : (after.foldlM (reporterStep profile io) middle).map (finishSession io context) =
      .ok final := h
  cases hafter : after.foldlM (reporterStep profile io) middle with
  | error detail => rw [hafter] at hrest; cases hrest
  | ok last =>
      rw [hafter] at hrest
      cases hrest
      rw [(finish_session_same context last).verdict_eq]
      exact reporter_steps_sticky hafter hfail

end Reporter

/-! ## The session -/

/-- A missing override target is a dropped target of the run. -/
theorem dropped_among_sent {config : RunnerConfig} {specs : List ExternalRunnerSpec}
    {tasks : List TargetTask}
    (h : missingCgroupOverrideTargets config (receivedOverrideTargets config specs) ≠ []) :
    0 < droppedAmong (sentMessages config specs tasks) := by
  obtain ⟨target, htarget⟩ := List.exists_mem_of_ne_nil _ h
  rw [droppedAmong, List.countP_pos_iff]
  refine ⟨_, List.mem_append_left _ (List.mem_map_of_mem htarget), rfl⟩

/-- The exit code of a session whose reporter received what was sent. -/
theorem run_eq_zero_iff [HashKey] {profile : BuildProfile} {io : ReporterIo}
    {config : RunnerConfig} {context : SessionContext} {db : DurationDb}
    {specs : List ExternalRunnerSpec} {tasks : List TargetTask}
    {arrival : List ReporterMessage} (hhelp : config.libtestHelpOnly = false)
    (husage : config.libtestUsageError = none)
    (harrival : arrival.Perm (sentMessages config specs tasks)) :
    run profile io config context db tasks arrival = 0 ↔
      (∃ final, reporterTask profile io context db arrival = .ok final ∧
          final.verdict = .pass) ∧
        missingCgroupOverrideTargets config (receivedOverrideTargets config specs) = [] ∧
        ∀ task ∈ tasks, task.panicked = false := by
  have hexit : ∀ verdict : RunVerdict, verdict.exitCode = 0 ↔ verdict = .pass := by
    intro verdict
    cases verdict <;> decide
  unfold run
  rw [hhelp, husage]
  simp only [Bool.false_eq_true, if_false, Option.isSome_none, hexit]
  unfold sessionVerdict
  cases hreporter : reporterTask profile io context db arrival with
  | error detail => simp
  | ok final =>
      have hreckoned := reporter_task_reckoned hreporter
      have hmissing : final.verdict = .pass →
          missingCgroupOverrideTargets config (receivedOverrideTargets config specs) = [] := by
        intro hpass
        by_contra hne
        have hdropped : 0 < droppedAmong arrival := by
          rw [droppedAmong, harrival.countP_eq]
          exact dropped_among_sent hne
        have hfail := hreckoned.verdict_iff.mpr (.inl hdropped)
        rw [hpass] at hfail
        cases hfail
      by_cases hpanicked : tasks.any TargetTask.panicked = true
      · obtain ⟨task, htask, hp⟩ := List.any_eq_true.mp hpanicked
        simp only [hpanicked, if_true, reduceCtorEq, false_iff]
        rintro ⟨-, -, hquiet⟩
        rw [hquiet task htask] at hp
        cases hp
      · have hquiet : ∀ task ∈ tasks, task.panicked = false := by
          simpa using hpanicked
        simp only [hpanicked, Except.ok.injEq, exists_eq_left']
        exact ⟨fun hpass => ⟨hpass, hmissing hpass, hquiet⟩, fun h => h.1⟩

/-- The verdict and the tally of a run are those of what the reporter received, whatever the
order: it fails on a dropped target, a failure or a rejected report, a failing verdict stays one,
the counters add up to the total, and a permutation of the messages with a rejected report in
both cases or in neither gives the same. The session exits with 0 exactly when this verdict is a
pass, no override target is missing and nothing panicked. -/
theorem run_verdict_is_order_free [HashKey] (profile : BuildProfile) (io : ReporterIo)
    (context : SessionContext) (db : DurationDb) :
    (∀ messages final, reporterTask profile io context db messages = .ok final →
      (final.verdict = .fail ↔
        FailsBy io (finishedAmong messages) (droppedAmong messages)) ∧
      (∀ before after middle, messages = before ++ after →
        before.foldlM (reporterStep profile io) (ReporterState.start io db) = .ok middle →
          middle.verdict = .fail → final.verdict = .fail) ∧
      final.tally = tallyOf (finishedAmong messages) (droppedAmong messages) ∧
      final.tally.total = final.tally.passed + final.tally.failed +
        final.tally.quarantinedFailed + final.tally.skipped ∧
      (∀ otherIo others otherFinal, messages.Perm others →
        (SomeRejected otherIo (finishedAmong others).length ↔
          SomeRejected io (finishedAmong messages).length) →
        reporterTask profile otherIo context db others = .ok otherFinal →
          otherFinal.verdict = final.verdict ∧ otherFinal.tally = final.tally)) ∧
    ∀ (config : RunnerConfig) (envelopes : List SpecEnvelope) (tasks : List TargetTask)
      (arrival : List ReporterMessage),
      config.libtestHelpOnly = false → config.libtestUsageError = none →
      arrival.Perm (sentMessages config (receivedSpecs envelopes) tasks) →
      (run profile io config context db tasks arrival = 0 ↔
        (∃ final, reporterTask profile io context db arrival = .ok final ∧
            final.verdict = .pass) ∧
          missingCgroupOverrideTargets config
              (receivedOverrideTargets config (receivedSpecs envelopes)) = [] ∧
          ∀ task ∈ tasks, task.panicked = false) := by
  refine ⟨?_, fun config envelopes tasks arrival hhelp husage harrival =>
    run_eq_zero_iff hhelp husage harrival⟩
  intro messages final h
  have hreckoned := reporter_task_reckoned h
  refine ⟨hreckoned.verdict_iff, ?_, hreckoned.tally_eq, ?_, ?_⟩
  · intro before after middle hsplit hbefore hfail
    subst hsplit
    exact reporter_task_sticky h hbefore hfail
  · rw [hreckoned.tally_eq]
    exact tally_of_total _ _
  · intro otherIo others otherFinal hperm hrejected hothers
    have hotherReckoned := reporter_task_reckoned hothers
    -- Verdict and tally read the finished tests as a multiset and count what is dropped.
    have hfinished : (finishedAmong messages).Perm (finishedAmong others) :=
      hperm.flatMap_right _
    have hdropped : droppedAmong messages = droppedAmong others := hperm.countP_eq _
    constructor
    · have hiff : otherFinal.verdict = .fail ↔ final.verdict = .fail := by
        rw [hotherReckoned.verdict_iff, hreckoned.verdict_iff]
        unfold FailsBy
        rw [hrejected, hdropped]
        simp only [hfinished.mem_iff]
      cases hleft : otherFinal.verdict with
      | fail => rw [hiff.mp hleft]
      | pass =>
          cases hright : final.verdict with
          | pass => rfl
          | fail => rw [hiff.mpr hright] at hleft; cases hleft
    · rw [hotherReckoned.tally_eq, hreckoned.tally_eq, ← hdropped, tally_of_perm hfinished]

/-- A reporter whose report file, orchestrator and clock always answer. -/
def ReporterIo.quiet : ReporterIo where
  startReport := none
  writeTest _ := none
  cleanupReport := none
  finishReport := none
  reportTestResult _ := none
  now _ := 0

/-- A finished test with one attempt. -/
def FinishedTest.ofVerdict (name : String) (status : TestVerdict) : FinishedTest :=
  let testId : TestIdentity := ⟨"//app:tests", name, .default⟩
  let runId : RunIdentity := ⟨testId, .once, 0⟩
  { result := buildTestResult runId 0 status none "" none
    consoleName := consoleTestName runId
    runId
    testId
    status
    integrity := .complete
    quarantined := false
    labels := []
    dbObservations := [⟨⟨3000000⟩, status.isFailure, none, .local⟩]
    attemptHistory := [] }

/-- The messages of a session with a batch, a test on its own and a dropped target. -/
def mixedMessages : List ReporterMessage :=
  [.discovered [⟨"//app:tests", "a", .default⟩],
    .finished [.ofVerdict "a" .pass, .ofVerdict "b" .fail], .finished [.ofVerdict "c" .skip],
    .targetDropped "no target"]

/-- The session fails and counts the same when its messages arrive the other way round. -/
theorem mixed_session_fails_in_both_orders :
    letI := External.inert
    ∃ final otherFinal,
      reporterTask ⟨true⟩ .quiet ⟨none, none⟩ .ephemeral mixedMessages = .ok final ∧
      reporterTask ⟨true⟩ .quiet ⟨none, none⟩ .ephemeral mixedMessages.reverse = .ok otherFinal ∧
      otherFinal.verdict = final.verdict ∧ otherFinal.tally = final.tally ∧
      final.verdict = .fail ∧ final.tally = ⟨4, 1, 2, 0, 1⟩ ∧
      run ⟨true⟩ .quiet RunnerConfig.withoutFlags ⟨none, none⟩ .ephemeral
        [⟨mixedMessages, false⟩] mixedMessages.reverse ≠ 0 := by
  let := External.inert
  obtain ⟨hreporter, hsession⟩ := run_verdict_is_order_free ⟨true⟩ ReporterIo.quiet ⟨none, none⟩
    DurationDb.ephemeral
  obtain ⟨final, hfinal⟩ : ∃ final,
      reporterTask ⟨true⟩ .quiet ⟨none, none⟩ .ephemeral mixedMessages = .ok final := ⟨_, rfl⟩
  obtain ⟨otherFinal, hother⟩ : ∃ final,
      reporterTask ⟨true⟩ .quiet ⟨none, none⟩ .ephemeral mixedMessages.reverse = .ok final :=
    ⟨_, rfl⟩
  obtain ⟨hverdict, -, htally, -, hpermuted⟩ := hreporter _ _ hfinal
  have hquiet : ∀ count, ¬SomeRejected ReporterIo.quiet count := by
    rintro count ⟨index, -, hrejected⟩
    cases hrejected
  have hreverse : mixedMessages.Perm mixedMessages.reverse := (List.reverse_perm _).symm
  obtain ⟨hsameVerdict, hsameTally⟩ := hpermuted ReporterIo.quiet _ _ hreverse
    (iff_of_false (hquiet _) (hquiet _)) hother
  have hfail : final.verdict = .fail := hverdict.mpr (.inl (by decide))
  refine ⟨final, otherFinal, hfinal, hother, hsameVerdict, hsameTally, hfail,
    htally.trans (by decide), fun hzero => ?_⟩
  obtain ⟨⟨last, hlast, hpass⟩, -, -⟩ := (hsession RunnerConfig.withoutFlags []
    [⟨mixedMessages, false⟩] mixedMessages.reverse rfl rfl hreverse.symm).mp hzero
  cases hother.symm.trans hlast
  rw [hsameVerdict, hfail] at hpass
  cases hpass

end Quokka
