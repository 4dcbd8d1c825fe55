import Quokka.Variant

/-!
# Responses, verdicts and identities

Decoding an `Execute2` response, after `result.rs`. `decodeResponse` turns the wire message
into an `Execute2Outcome` without judging pass or fail. `TestVerdict` holds the statuses a
test result may carry, `TestIdentity` and `RunIdentity` name a test and one of its runs.
-/

namespace Quokka

/-- A duration as whole nanoseconds. -/
structure Duration where
  nanos : Nat
  deriving DecidableEq, Repr

namespace Duration

/-- Nanoseconds in a second. -/
def nanosPerSec : Nat := 1000000000

/-- `Duration::new`, whose nanoseconds may carry into the seconds. -/
def new (secs nanos : Nat) : Duration := ⟨secs * nanosPerSec + nanos⟩

/-- `Duration::from_secs`. -/
def fromSecs (secs : Nat) : Duration := new secs 0

/-- `Duration::as_secs`. -/
def asSecs (duration : Duration) : Nat := duration.nanos / nanosPerSec

/-- `Duration::subsec_nanos`. -/
def subsecNanos (duration : Duration) : Nat := duration.nanos % nanosPerSec

/-- `Duration::as_millis`. -/
def asMillis (duration : Duration) : Nat := duration.nanos / 1000000

/-- `Duration::ZERO`, which is also the default. -/
def zero : Duration := ⟨0⟩

end Duration

/-! ## Wire messages -/

/-- `google.protobuf.Duration`. -/
structure ProtoDuration where
  seconds : Int
  nanos : Int
  deriving DecidableEq, Repr

/-- The oneof of `ExecutionStatus`. -/
inductive WireStatus where
  | finished (exitCode : Int)
  | timedOut (after : ProtoDuration)
  deriving DecidableEq, Repr

/-- The oneof of `CommandExecutionKind`. -/
inductive CommandExecutionKind where
  | localCommand
  | remoteCommand (cacheHit : Bool)
  | omittedLocalCommand
  | workerInitCommand
  | workerCommand
  deriving DecidableEq, Repr

/-- `ExecutionResult2`. An absent message field is `none`; a present `ExecutionStatus`,
`ExecutionStream` or `ExecutionDetails` whose own field is absent is `some none`. -/
structure ExecutionResult2 where
  status : Option (Option WireStatus)
  stdout : Option (Option (List UInt8))
  stderr : Option (Option (List UInt8))
  executionTime : Option ProtoDuration
  executionDetails : Option (Option (Option CommandExecutionKind))
  maxMemoryUsedBytes : Option UInt64
  deriving DecidableEq

/-- The oneof of `ExecuteResponse2`. A cancellation carries its reason's wire number. -/
inductive WireResponse where
  | result (result : ExecutionResult2)
  | cancelled (reason : Option Int)
  deriving DecidableEq

/-- `ExecuteResponse2`. -/
structure ExecuteResponse2 where
  response : Option WireResponse
  deriving DecidableEq

/-! ## Decoding a response -/

/-- The raw process outcome, before any harness interpretation. -/
inductive ProcessOutcome where
  | finished (exitCode : Int)
  | timedOut (after : Duration)
  deriving DecidableEq, Repr

/-- How the action was executed. -/
inductive ExecKind where
  | local
  | remoteCacheHit
  | remoteExecuted
  | omitted
  | worker
  | unknown
  deriving DecidableEq, Repr

/-- A completed action's observable results. -/
structure CompletedAction where
  status : ProcessOutcome
  stdout : List UInt8
  stderr : List UInt8
  executionTime : Duration
  maxMemoryUsedBytes : Option UInt64
  execKind : ExecKind
  deriving DecidableEq

/-- A response whose top-level kind should always be set but was not. -/
inductive MalformedResponse where
  | noResponseField
  deriving DecidableEq, Repr

/-- The text reported for a malformed response. -/
def MalformedResponse.detail : MalformedResponse → String
  | .noResponseField =>
      "buck2 returned an Execute2 response with neither a result nor a cancellation"

/-- What one `Execute2` returned. -/
inductive Execute2Outcome where
  | completed (action : CompletedAction)
  | cancelledQueueTimeout
  | cancelledUnspecified
  | malformed (reason : MalformedResponse)
  deriving DecidableEq

/-- Durations are non-negative; clamp rather than panic. -/
def durationFromProto (d : ProtoDuration) : Duration :=
  Duration.new (max d.seconds 0).toNat (min (max d.nanos 0) 1999999999).toNat

/-- The execution kind, with a catch-all for an absent command. -/
def classifyExecKind : Option CommandExecutionKind → ExecKind
  | some .localCommand => .local
  | some (.remoteCommand cacheHit) => if cacheHit then .remoteCacheHit else .remoteExecuted
  | some .omittedLocalCommand => .omitted
  | some .workerInitCommand => .worker
  | some .workerCommand => .worker
  | none => .unknown

/-- Decode a result. No status is anomalous: it becomes a nonzero exit. -/
def decodeResult (result : ExecutionResult2) : CompletedAction where
  status :=
    match result.status.join with
    | some (.finished exitCode) => .finished exitCode
    | some (.timedOut d) => .timedOut (durationFromProto d)
    | none => .finished (-1)
  stdout := result.stdout.join.getD []
  stderr := result.stderr.join.getD []
  executionTime := (result.executionTime.map durationFromProto).getD Duration.zero
  maxMemoryUsedBytes := result.maxMemoryUsedBytes
  execKind := (result.executionDetails.join.map classifyExecKind).getD .unknown

/-- The wire number of `RE_QUEUE_TIMEOUT`. -/
def reQueueTimeout : Int := 1

/-- Decode a wire `ExecuteResponse2`. An absent oneof fails closed. -/
def decodeResponse (response : ExecuteResponse2) : Execute2Outcome :=
  match response.response with
  | some (.result result) => .completed (decodeResult result)
  | some (.cancelled reason) =>
      if reason = some reQueueTimeout then .cancelledQueueTimeout else .cancelledUnspecified
  | none => .malformed .noResponseField

/-! ## Verdicts -/

/-- The terminal statuses counted for a test result. -/
inductive TestVerdict where
  | pass
  | fail
  | skip
  | omitted
  | fatal
  | timeout
  | infraFailure
  deriving DecidableEq, Repr

/-- A failure-class tag for the flake records. -/
inductive FailureClass where
  | fail
  | fatal
  | timeout
  | infra
  deriving DecidableEq, Repr

namespace TestVerdict

/-- The wire `TestStatus` number. -/
def toWire : TestVerdict → Int
  | .pass => 1
  | .fail => 2
  | .skip => 3
  | .omitted => 4
  | .fatal => 5
  | .timeout => 6
  | .infraFailure => 11

/-- Whether this status counts as a run failure, before quarantine. -/
def isFailure : TestVerdict → Bool
  | .fail | .fatal | .timeout | .infraFailure => true
  | .pass | .skip | .omitted => false

/-- The status as `{:?}` prints it. -/
def debug : TestVerdict → String
  | .pass => "Pass"
  | .fail => "Fail"
  | .skip => "Skip"
  | .omitted => "Omitted"
  | .fatal => "Fatal"
  | .timeout => "Timeout"
  | .infraFailure => "InfraFailure"

end TestVerdict

/-- The failure class of a terminal status; `none` for non-failures. -/
def failureClass : TestVerdict → Option FailureClass
  | .fail => some .fail
  | .fatal => some .fatal
  | .timeout => some .timeout
  | .infraFailure => some .infra
  | .pass | .skip | .omitted => none

/-- The class as `{:?}` prints it. -/
def FailureClass.debug : FailureClass → String
  | .fail => "Fail"
  | .fatal => "Fatal"
  | .timeout => "Timeout"
  | .infra => "Infra"

/-! ## Identities -/

/-- The identity of a test, without its repetition. -/
structure TestIdentity where
  target : String
  name : String
  variant : Variant
  deriving DecidableEq, Repr

/-- The identity of one run of a test. -/
structure RunIdentity where
  test : TestIdentity
  repetition : RepeatKind
  repeatIndex : Nat
  deriving DecidableEq

/-- The result name: variant and repeat index are appended to the test name. -/
def RunIdentity.toBuck2Name (identity : RunIdentity) : String :=
  let name := identity.test.name
  let name :=
    match identity.test.variant.identity with
    | some v => name ++ "#" ++ v
    | none => name
  if identity.repetition.isStress then
    name ++ "#rep" ++ toString identity.repeatIndex
  else name

/-! ## Results -/

/-- Where a details text goes. -/
inductive LogRouting where
  | inline
  | uploadToCas
  deriving DecidableEq, Repr

/-- Small logs stay inline. -/
def routeLog (len inlineLimit : Nat) : LogRouting :=
  if len ≤ inlineLimit then .inline else .uploadToCas

/-- A wire `TestResult`; the optional message is never set. -/
structure TestResult where
  name : String
  status : Int
  target : Int
  duration : Option ProtoDuration
  details : String
  maxMemoryUsedBytes : Option UInt64
  deriving DecidableEq

/-- Build a wire `TestResult`. -/
def buildTestResult (identity : RunIdentity) (target : Int) (status : TestVerdict)
    (duration : Option Duration) (details : String) (maxMemoryUsedBytes : Option UInt64) :
    TestResult where
  name := identity.toBuck2Name
  status := status.toWire
  target := target
  duration := duration.map fun d => ⟨(d.asSecs : Int).bmod UInt64.size, d.subsecNanos⟩
  details := details
  maxMemoryUsedBytes := maxMemoryUsedBytes

end Quokka
