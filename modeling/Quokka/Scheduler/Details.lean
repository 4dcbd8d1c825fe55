import Quokka.Scheduler.Group

/-!
# Finished tests

Turning the outcome of a test into the record that is reported, after `make_finished` of
`scheduler.rs`: the details text with its attempt history and failure annotation, and the route
of long logs.
-/

namespace Quokka

/-- The outcome of one test before it is turned into a result. -/
structure TestOutcome where
  status : TestVerdict
  integrity : ResultIntegrity
  details : String
  duration : AttemptDuration
  maxMemory : Option UInt64
  deriving DecidableEq

/-- `BestObs::into_outcome`. -/
def BestObs.intoOutcome (best : BestObs) : TestOutcome where
  status := best.status
  integrity := best.integrity
  details := best.details
  duration := best.duration
  maxMemory := best.maxMemory

/-- One finished test, ready for the reporter. -/
structure FinishedTest where
  result : TestResult
  consoleName : String
  runId : RunIdentity
  testId : TestIdentity
  status : TestVerdict
  integrity : ResultIntegrity
  quarantined : Bool
  labels : List String
  dbObservations : List DbObservation
  attemptHistory : List AttemptObservation
  deriving DecidableEq

/-- The name of a run on the live console. -/
def consoleTestName (runId : RunIdentity) : String :=
  runId.test.target ++ "::" ++ runId.toBuck2Name

/-- The longest prefix of at most `budget` bytes that ends at a character boundary. -/
def takeBytes : Nat → List Char → List Char
  | _, [] => []
  | budget, c :: text =>
      if c.utf8Size ≤ budget then c :: takeBytes (budget - c.utf8Size) text else []

/-- The head of a long log. -/
def truncate (details : String) : String :=
  if details.utf8ByteSize ≤ 4096 then details
  else String.ofList (takeBytes 4096 details.toList) ++ "\n…[truncated, full log in CAS]"

/-- The inline part of an uploaded log: everything for a failure, a bounded head otherwise. -/
def inlineBody (status : TestVerdict) (details : String) : String :=
  if status.isFailure then details else truncate details

/-- Inline small logs; leave a pointer to large ones. -/
def finalizeDetails (casInlineLimit : Nat) (upload : UploadOutcome) (status : TestVerdict)
    (details : String) : String :=
  match routeLog details.utf8ByteSize casInlineLimit with
  | .inline => details
  | .uploadToCas =>
      let size := toString details.utf8ByteSize
      let header :=
        match upload with
        | .skipped e => "[log " ++ size ++ " bytes; CAS upload skipped: " ++ e ++ "]"
        | .uploaded hash sizeBytes =>
            "[log " ++ size ++ " bytes uploaded to CAS: " ++ hash ++ "/" ++
              toString sizeBytes ++ "]"
        | .failed e => "[log " ++ size ++ " bytes; CAS upload failed: " ++ e ++ "]"
      header ++ "\n" ++ inlineBody status details

/-- The line of one attempt in the history. -/
def attemptLine (index : Nat) (attempt : AttemptObservation) : String :=
  let firstLine := (Text.lines attempt.details).head?.getD ""
  "\nattempt " ++ toString (index + 1) ++ ": " ++ attempt.status.debug ++
    (match attempt.duration with
      | .measured duration => " duration_ms=" ++ toString duration.asMillis
      | .unmeasured => " duration=unmeasured") ++
    (if firstLine.isEmpty then ""
      else " details=" ++ String.ofList (firstLine.toList.take 500))

/-- Append the history of a test with more than one attempt. -/
def appendAttemptHistory (details : String) (attempts : List AttemptObservation) : String :=
  if attempts.length < 2 then details
  else
    (if details.isEmpty then details else details ++ "\n") ++ "quokka attempt history:" ++
      String.join (attempts.zipIdx.map fun (attempt, index) => attemptLine index attempt)

section Finished

variable [External] (ctx : TargetCtx) (plan : TargetPlan)

/-- The annotation of a failing test. -/
def failureAnnotation (testId : TestIdentity) : MayPanic String := do
  let flake ← ctx.estimates.flakeOf ctx.profile none testId
  let history :=
    match flake with
    | some flake =>
        if 0 < flake.runs then
          ["flaky_history: failed " ++ toString flake.failures.toNat ++ "/" ++
            toString flake.runs.toNat ++ " recent runs" ++
            (match flake.lastFailureClass with
              | some failureClass => ", last=" ++ failureClass.debug
              | none => "")]
        else []
    | none => []
  let parts :=
    ["target=" ++ plan.spec.display] ++
      (plan.spec.targetPlatform.toList.map fun p => "target_platform=" ++ p) ++
      (match plan.owner with
        | .team team => ["owner=" ++ team]
        | .unowned => []) ++
      (if plan.spec.contacts.isEmpty then []
        else ["contacts=[" ++ ",".intercalate plan.spec.contacts ++ "]"]) ++
      (plan.spec.oncall.toList.map fun oncall => "oncall=" ++ oncall) ++
      history
  pure ("[brtr: " ++ " | ".intercalate parts ++ "]")

/-- The details text of a result: the log, the attempt history, and for a failure the
annotation. -/
def finalDetails (upload : UploadOutcome) (testId : TestIdentity) (outcome : TestOutcome)
    (attemptHistory : List AttemptObservation) : MayPanic String :=
  let details :=
    appendAttemptHistory
      (finalizeDetails ctx.config.casInlineLimit upload outcome.status outcome.details)
      attemptHistory
  if outcome.status.isFailure then
    Except.map (fun annotation => details ++ "\n" ++ annotation) <|
      failureAnnotation ctx plan testId
  else .ok details

/-- The finished test with the given details text. -/
def finishedTest (baseName : String) (repeatIndex : Nat) (outcome : TestOutcome)
    (dbObservations : List DbObservation) (attemptHistory : List AttemptObservation)
    (details : String) : FinishedTest :=
  let testId := testIdentity plan.spec.display ctx.config baseName
  let runId : RunIdentity := ⟨testId, plan.repetition, repeatIndex⟩
  let duration :=
    match outcome.duration with
    | .measured duration => some duration
    | .unmeasured => none
  { result := buildTestResult runId plan.spec.handle outcome.status duration details
      outcome.maxMemory
    consoleName := consoleTestName runId
    runId
    testId
    status := outcome.status
    integrity := outcome.integrity
    quarantined := plan.quarantined
    labels := plan.spec.labels
    dbObservations
    attemptHistory }

/-- Build one finished test; `logIndex` numbers the task's logs. -/
def makeFinished (path : List Nat) (logIndex : Nat) (baseName : String) (repeatIndex : Nat)
    (outcome : TestOutcome) (dbObservations : List DbObservation)
    (attemptHistory : List AttemptObservation) : MayPanic FinishedTest :=
  (finalDetails ctx plan (ctx.orch.upload path logIndex)
      (testIdentity plan.spec.display ctx.config baseName) outcome attemptHistory).map
    (finishedTest ctx plan baseName repeatIndex outcome dbObservations attemptHistory)

/-- A test that is finished without a panic is `finishedTest` with some details. -/
theorem make_finished_eq_ok {path : List Nat} {logIndex repeatIndex : Nat} {baseName : String}
    {outcome : TestOutcome} {observations : List DbObservation}
    {history : List AttemptObservation} {finished : FinishedTest}
    (h : makeFinished ctx plan path logIndex baseName repeatIndex outcome observations history =
      .ok finished) :
    ∃ details, finished =
      finishedTest ctx plan baseName repeatIndex outcome observations history details := by
  unfold makeFinished at h
  cases hdetails : finalDetails ctx plan (ctx.orch.upload path logIndex)
      (testIdentity plan.spec.display ctx.config baseName) outcome history with
  | error message => rw [hdetails] at h; cases h
  | ok details => rw [hdetails] at h; cases h; exact ⟨details, rfl⟩

end Finished

end Quokka
