import Quokka.Scheduler.Target

/-!
# The reporter and the run

The single task that writes results and owns the verdict, and the run around it, after
`reporter_task` and `run` of `scheduler.rs`.

`ReporterIo` gives the outcomes of what the reporter asks of others: the orchestrator's answers,
the structured report file and the clock. `reporterTask` consumes the messages in the order in
which they arrive; `run` is the exit code of the whole session.
-/

namespace Quokka

/-- The verdict of a run. -/
inductive RunVerdict where
  | pass
  | fail
  deriving DecidableEq, Repr

/-- The exit code of a failing run. -/
def nonzeroExit : Int := 32

/-- The exit code of a verdict. -/
def RunVerdict.exitCode : RunVerdict → Int
  | .pass => 0
  | .fail => nonzeroExit

/-- How one result counts. -/
inductive ReportDisposition where
  | passed
  | skipped
  | quarantinedFailure
  | failure
  deriving DecidableEq, Repr

/-- How a result counts: a missing terminal result is a failure whatever else it says. -/
def reportDisposition (status : TestVerdict) (integrity : ResultIntegrity) (quarantined : Bool) :
    ReportDisposition :=
  if integrity = .missingTerminalResult then .failure
  else
    match status with
    | .pass => .passed
    | .skip | .omitted => .skipped
    | .fail | .fatal | .timeout | .infraFailure =>
        if quarantined then .quarantinedFailure else .failure

/-- How a finished test counts. -/
def FinishedTest.disposition (finished : FinishedTest) : ReportDisposition :=
  reportDisposition finished.status finished.integrity finished.quarantined

/-- Running counts for the final session summary. Natural numbers stand for the source's `u64`
counters: every result adds one, so only a run of `2 ^ 64` results could overflow them. -/
structure Tally where
  total : Nat := 0
  passed : Nat := 0
  failed : Nat := 0
  quarantinedFailed : Nat := 0
  skipped : Nat := 0
  deriving DecidableEq, Repr

/-- Count one finished test. -/
def Tally.count (tally : Tally) (disposition : ReportDisposition) : Tally :=
  let tally := { tally with total := tally.total + 1 }
  match disposition with
  | .passed => { tally with passed := tally.passed + 1 }
  | .skipped => { tally with skipped := tally.skipped + 1 }
  | .quarantinedFailure => { tally with quarantinedFailed := tally.quarantinedFailed + 1 }
  | .failure => { tally with failed := tally.failed + 1 }

/-- The level of a console line. -/
inductive Level where
  | info
  | warn
  | error
  deriving DecidableEq, Repr

/-- The outcomes of what the reporter asks of others. `startReport` is `none` when no report
file is configured; an error is given by its text. Calls of one kind are numbered. -/
structure ReporterIo where
  startReport : Option (Option String)
  writeTest : Nat → Option String
  cleanupReport : Option String
  finishReport : Option String
  reportTestResult : Nat → Option String
  now : Nat → UInt64

/-- The state of the reporter. -/
structure ReporterState where
  verdict : RunVerdict
  tally : Tally
  db : DurationDb
  ciReportOpen : Bool
  ciReportFailed : Bool
  written : Nat
  reported : List TestResult
  recorded : Nat
  console : List (Level × String)

section Reporter

variable [HashKey] (profile : BuildProfile) (io : ReporterIo)

/-- Show a report failure once. -/
def reportCiReportFailure (state : ReporterState) (detail : String) : ReporterState :=
  if state.ciReportFailed then state
  else
    { state with
      ciReportFailed := true
      console := state.console ++ [(.error, "quokka: " ++ detail)] }

/-- Write a test to the report file; an error disables it. -/
def writeCiTest (state : ReporterState) : ReporterState :=
  if !state.ciReportOpen then state
  else
    match io.writeTest state.written with
    | none => { state with written := state.written + 1 }
    | some error =>
        let detail :=
          match io.cleanupReport with
          | some cleanupError =>
              error ++ "; failed to remove temporary report: " ++ cleanupError
          | none => error
        reportCiReportFailure
          { state with ciReportOpen := false, written := state.written + 1 }
          ("CI test report disabled: " ++ detail)

/-- The console line of a failed test. -/
def failConsoleLine (name details : String) : String :=
  if details.isEmpty then "FAIL " ++ name else "FAIL " ++ name ++ "\n" ++ details

/-- Count a finished test; a failure turns the verdict and is shown. -/
def countFinished (state : ReporterState) (finished : FinishedTest) : ReporterState :=
  let state := { state with tally := state.tally.count finished.disposition }
  if finished.disposition = .failure then
    { state with
      verdict := .fail
      console := state.console ++
        [(.warn, failConsoleLine finished.consoleName finished.result.details)] }
  else state

/-- Report a result; a rejected report turns the verdict. -/
def reportResult (state : ReporterState) (result : TestResult) : ReporterState :=
  { state with
    verdict := if (io.reportTestResult state.reported.length).isSome then .fail else state.verdict
    reported := state.reported ++ [result] }

/-- Record each fresh attempt as an independent sample. -/
def recordObservations (testId : TestIdentity) (state : ReporterState) :
    List DbObservation → MayPanic ReporterState
  | [] => .ok state
  | obs :: rest => do
      let db ← state.db.recordAt profile obs.env testId obs.duration obs.failed obs.failureClass
        (io.now state.recorded)
      recordObservations testId { state with db, recorded := state.recorded + 1 } rest

/-- Handle one finished test. -/
def reportFinished (state : ReporterState) (finished : FinishedTest) : MayPanic ReporterState :=
  recordObservations profile io finished.testId
    (reportResult io (countFinished (writeCiTest io state) finished) finished.result)
    finished.dbObservations

/-- Handle one message. -/
def reporterStep (state : ReporterState) : ReporterMessage → MayPanic ReporterState
  | .discovered tids =>
      .ok { state with db := tids.foldl DurationDb.recordDiscoveredName state.db }
  | .targetDropped reason =>
      .ok
        { state with
          tally :=
            { state.tally with
              total := state.tally.total + 1
              failed := state.tally.failed + 1 }
          verdict := .fail
          console := state.console ++ [(.error, "quokka: " ++ reason)] }
  | .finished batch => batch.foldlM (reportFinished profile io) state

/-- The reporter before the first message. -/
def ReporterState.start (db : DurationDb) : ReporterState :=
  let state : ReporterState :=
    { verdict := .pass
      tally := {}
      db
      ciReportOpen := io.startReport == some none
      ciReportFailed := false
      written := 0
      reported := []
      recorded := 0
      console := [] }
  match io.startReport with
  | some (some error) => reportCiReportFailure state ("failed to start " ++ error)
  | _ => state

/-- The final summary. -/
def sessionSummary (tally : Tally) (context : SessionContext) : String :=
  "test run complete: " ++ toString tally.total ++ " tests, " ++ toString tally.passed ++
    " passed, " ++ toString tally.failed ++ " failed, " ++ toString tally.skipped ++ " skipped" ++
    (if 0 < tally.quarantinedFailed then
      " (" ++ toString tally.quarantinedFailed ++ " quarantined failure(s), not counted)"
    else "") ++
    (match context.hostPlatform with
      | some host => " [host=" ++ host ++ "]"
      | none => "") ++
    (match context.traceId with
      | some trace => " [trace=" ++ trace ++ "]"
      | none => "")

/-- The end of the session: the summary, and the report file is put into place. The flush of the
store between the two is left out. Its error is shown and nothing more; only the load of its
compaction can panic, in a checked build, and a reporter that panics is a failing verdict. -/
def finishSession (context : SessionContext) (state : ReporterState) : ReporterState :=
  let level := if 0 < state.tally.failed then Level.warn else .info
  let state :=
    { state with console := state.console ++ [(level, sessionSummary state.tally context)] }
  match state.ciReportOpen, io.finishReport with
  | true, some error =>
      reportCiReportFailure state ("failed to finalize CI test report: " ++ error)
  | _, _ => state

/-- Consume all messages in the order of their arrival. -/
def reporterTask (context : SessionContext) (db : DurationDb) (messages : List ReporterMessage) :
    MayPanic ReporterState :=
  (messages.foldlM (reporterStep profile io) (ReporterState.start io db)).map
    (finishSession io context)

end Reporter

/-! ## The run -/

/-- What the runner receives from its executor server. -/
inductive SpecEnvelope where
  | spec (spec : ExternalRunnerSpec)
  | endOfRequests

/-- The specifications received before the end of requests. -/
def receivedSpecs : List SpecEnvelope → List ExternalRunnerSpec
  | [] => []
  | .endOfRequests :: _ => []
  | .spec spec :: rest => spec :: receivedSpecs rest

/-- The override targets among the received specifications. -/
def receivedOverrideTargets (config : RunnerConfig) (specs : List ExternalRunnerSpec) :
    List String :=
  (specs.filterMap validSpecTargetDisplay).filter fun display =>
    config.cgroupMemoryMaxOverrides.any fun candidate => candidate.target == display

/-- The override targets that were not received, sorted and without repetitions. -/
def missingCgroupOverrideTargets (config : RunnerConfig) (received : List String) :
    List String :=
  dedupAdjacent (((config.cgroupMemoryMaxOverrides.filter fun candidate =>
    !received.contains candidate.target).map CgroupMemoryMaxOverride.target).insertionSort
      (· ≤ ·))

/-- What a target task does: the messages it sends, and whether it panics. -/
structure TargetTask where
  messages : List ReporterMessage
  panicked : Bool

/-- The messages sent in a run: those for the missing override targets and those of the target
tasks. -/
def sentMessages (config : RunnerConfig) (specs : List ExternalRunnerSpec)
    (tasks : List TargetTask) : List ReporterMessage :=
  (missingCgroupOverrideTargets config (receivedOverrideTargets config specs)).map
      (fun target => .targetDropped
        ("cgroup memory override target was not received: " ++ target)) ++
    tasks.flatMap TargetTask.messages

/-- The verdict of the session: a reporter or a target task that panicked fails it. -/
def sessionVerdict (reporter : MayPanic ReporterState) (tasks : List TargetTask) : RunVerdict :=
  let verdict :=
    match reporter with
    | .ok state => state.verdict
    | .error _ => .fail
  if tasks.any TargetTask.panicked then .fail else verdict

/-- The exit code of a run in which the messages reach the reporter as `arrival`. -/
def run [HashKey] (profile : BuildProfile) (io : ReporterIo) (config : RunnerConfig)
    (context : SessionContext) (db : DurationDb) (tasks : List TargetTask)
    (arrival : List ReporterMessage) : Int :=
  if config.libtestHelpOnly then 0
  else if config.libtestUsageError.isSome then nonzeroExit
  else (sessionVerdict (reporterTask profile io context db arrival) tasks).exitCode

end Quokka
