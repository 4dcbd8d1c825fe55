import Quokka.Labels
import Quokka.Library.Codec
import Quokka.Result
import Quokka.Spec

/-!
# Execute2 requests

Building the `Execute2` requests for listing and test actions and reading the resource markers
of the supervising shell script, after `execution.rs`. The script itself is embedded into the
program as text; `SupervisorScript` provides that text.
-/

namespace Quokka

/-- The text of the embedded supervisor script. -/
class SupervisorScript where
  resourceSupervisorSh : String

/-- The memory-cgroup unit. -/
inductive CgroupGranularity where
  | logicalTest
  | action
  deriving DecidableEq, Repr

/-- A memory limit of at least one byte, or none. -/
inductive CgroupMemoryMax where
  | bytes (limit : {n : UInt64 // n ≠ 0})
  | unlimited
  deriving DecidableEq

/-- Parse decimal digits below `bound`, with an optional leading plus sign. -/
def parseUnsigned (bound : Nat) (text : String) : Option Nat :=
  let digits :=
    match text.toList with
    | '+' :: rest => rest
    | chars => chars
  if digits.isEmpty || !digits.all Char.isDigit then none
  else
    let value := digits.foldl (fun acc c => acc * 10 + (c.toNat - '0'.toNat)) 0
    if value < bound then some value else none

/-- Parse a `memory.max` value. -/
def CgroupMemoryMax.parse (value : String) : Option CgroupMemoryMax :=
  if value = "max" then some .unlimited
  else
    match parseUnsigned UInt64.size value with
    | some n => if h : UInt64.ofNat n ≠ 0 then some (.bytes ⟨.ofNat n, h⟩) else none
    | none => none

/-- The limit as the shell script reads it. -/
def CgroupMemoryMax.shellValue : CgroupMemoryMax → String
  | .bytes limit => toString limit.val.toNat
  | .unlimited => "max"

/-- An exact `target|test|memory.max` override. -/
structure CgroupMemoryMaxOverride where
  target : String
  test : String
  memoryMax : CgroupMemoryMax
  deriving DecidableEq

/-- Parse an override; target and test are non-empty and the limit holds no bar. -/
def CgroupMemoryMaxOverride.parse (value : String) : Option CgroupMemoryMaxOverride := do
  let (target, rest) ← Text.splitOnce value "|"
  let (test, memoryMax) ← Text.splitOnce rest "|"
  if target.isEmpty || test.isEmpty || Text.contains memoryMax "|" then none
  else
    let memoryMax ← CgroupMemoryMax.parse memoryMax
    pure { target, test, memoryMax }

/-- The memory limit of one action: the default, or the override of its only test. -/
def cgroupMemoryMaxForAction (default : CgroupMemoryMax)
    (overrides : List CgroupMemoryMaxOverride) (target : String) (tests : List String) :
    Except String CgroupMemoryMax :=
  let found := overrides.filter fun candidate =>
    candidate.target == target && tests.any fun test => test == candidate.test
  match found with
  | [] => .ok default
  | [matched] =>
      if tests.length = 1 then .ok matched.memoryMax
      else .error "a cgroup memory override requires a singleton test action"
  | _ => .error "multiple cgroup memory overrides match one action"

/-! ## Marker tokens -/

/-- One FNV-1a step. -/
def fnvStep (hash : UInt64) (byte : UInt8) : UInt64 :=
  (hash ^^^ byte.toUInt64) * 0x100000001b3

/-- FNV-1a over bytes. -/
def fnv1a (input : List UInt8) : UInt64 :=
  input.foldl fnvStep 0xcbf29ce484222325

/-- A hash as sixteen lower-case hexadecimal digits. -/
def hex16 (value : UInt64) : String :=
  let digits := Nat.toDigits 16 value.toNat
  String.ofList (List.replicate (16 - digits.length) '0' ++ digits)

/-- The token that marks the lines of the supervisor in an action's output. -/
structure ResourceMarkerToken where
  text : String
  deriving DecidableEq, Repr

/-- The token of length-prefixed fields. -/
def ResourceMarkerToken.fromStableFields (domain : String) (fields : List String) :
    ResourceMarkerToken :=
  ⟨hex16 (fnv1a ((domain :: fields).flatMap fun field =>
    Codec.leBytes 8 (Text.bytes field).length ++ Text.bytes field))⟩

/-! ## Wire requests -/

/-- `ArgValue`; its format is never set. -/
inductive ArgValue where
  | specValue (value : CommandArg)
  | declaredOutput (name : String)
  deriving DecidableEq, Repr

/-- `EnvironmentVariable`. -/
structure EnvironmentVariable where
  key : String
  value : ArgValue
  deriving DecidableEq, Repr

/-- `TestStage`. -/
inductive TestStage where
  | listing (suite : String) (cacheable : Bool)
  | testing (suite : String) (testcases : List String) (variant : Option String)
      (repeatCount : Option Nat)
  deriving DecidableEq, Repr

/-- `HostSharingRequirements`: shared with a number of permits, or exclusive. -/
inductive HostSharingRequirements where
  | shared (permits : Nat)
  | exclusiveAccess
  deriving DecidableEq, Repr

/-- `ExecuteRequest2`; no directory is created in advance. -/
structure ExecuteRequest2 where
  timeout : ProtoDuration
  hostSharingRequirements : HostSharingRequirements
  stage : TestStage
  target : Int
  cmd : List ArgValue
  env : List EnvironmentVariable
  executorOverride : Option String
  requiredLocalResources : List String
  disableTestExecutionCaching : Bool
  deriving DecidableEq

/-- The granularity as the shell script reads it. -/
def CgroupGranularity.shellValue : CgroupGranularity → String
  | .logicalTest => "logical-test"
  | .action => "action"

/-- A command that the supervisor runs under its own limits. -/
structure LogicalCommand where
  index : Nat
  appended : List String
  deriving DecidableEq, Repr

/-- Echo a value of the specification unmodified. -/
def echoSpecValue (arg : CommandArg) : ArgValue := .specValue arg

/-- Wrap an appended flag. -/
def appendedVerbatim (arg : String) : ArgValue := .specValue (.verbatim arg)

/-- A value that names a declared output. -/
def declaredOutputValue (outputName : String) : ArgValue := .declaredOutput outputName

/-- The command: the specification's arguments, then the appended flags. -/
def buildCmd (spec : TargetSpec) (appended : List String) : List ArgValue :=
  spec.command.map echoSpecValue ++ appended.map appendedVerbatim

/-- Quote a word for the shell. -/
def shellQuote (value : String) : String :=
  "'" ++ String.ofList (value.toList.flatMap fun c =>
    if c = '\'' then "'\"'\"'".toList else [c]) ++ "'"

/-- The script line that runs one logical command. -/
def logicalLine (logical : LogicalCommand) : String :=
  "quokka_run_logical " ++ toString logical.index ++ " \"$@\"" ++
    String.join (logical.appended.map fun arg => " " ++ shellQuote arg) ++
    " || overall_status=$?\n"

/-- The command that runs the logical commands under the supervisor. -/
def buildSupervisedCmd [SupervisorScript] (baseCommand : List ArgValue)
    (commands : List LogicalCommand) (timeout : Duration)
    (cgroupGranularity : CgroupGranularity) (cgroupMemoryMax : CgroupMemoryMax)
    (resourceMarkerToken : ResourceMarkerToken) : List ArgValue :=
  if commands.isEmpty then baseCommand
  else
    let script :=
      SupervisorScript.resourceSupervisorSh ++
        "\nquokka_cgroup_granularity=" ++ cgroupGranularity.shellValue ++
        "\nquokka_logical_timeout_seconds=" ++ toString timeout.asSecs ++
        "\nquokka_memory_max_value=" ++ shellQuote cgroupMemoryMax.shellValue ++
        "\nquokka_resource_marker_token=" ++ shellQuote resourceMarkerToken.text ++
        "\noverall_status=0\nquokka_begin_action\n" ++
        String.join (commands.map logicalLine) ++
        "quokka_finish_action \"$overall_status\"\n"
    [appendedVerbatim "/bin/sh", appendedVerbatim "-c", appendedVerbatim script,
      appendedVerbatim "quokka-resource-supervisor"] ++ baseCommand

/-- The largest duration: `u64::MAX` seconds and 999999999 nanoseconds. -/
def Duration.max : Duration := Duration.new (UInt64.size - 1) 999999999

/-- `Duration::saturating_mul`. -/
def Duration.saturatingMul (duration : Duration) (factor : Nat) : Duration :=
  ⟨min (duration.nanos * factor) Duration.max.nanos⟩

/-- `Duration::saturating_add`. -/
def Duration.saturatingAdd (first second : Duration) : Duration :=
  ⟨min (first.nanos + second.nanos) Duration.max.nanos⟩

/-- The transport deadline: the logical deadlines and a minute of grace. -/
def supervisedActionTimeout (logicalTimeout : Duration) (logicalCount : Nat) : Duration :=
  (logicalTimeout.saturatingMul (min logicalCount (UInt32.size - 1))).saturatingAdd
    (Duration.fromSecs 60)

/-- The specification's environment, then the runner's additions. -/
def buildEnv (spec : TargetSpec) (extra : List (String × String)) : List EnvironmentVariable :=
  spec.env.map (fun (key, value) => ⟨key, echoSpecValue value⟩) ++
    extra.map fun (key, value) => ⟨key, appendedVerbatim value⟩

/-- The environment of a test action: declared outputs come last. -/
def buildTestEnv (spec : TargetSpec) (extra declaredOutputEnv : List (String × String)) :
    List EnvironmentVariable :=
  buildEnv spec extra ++
    declaredOutputEnv.map fun (key, outputName) => ⟨key, declaredOutputValue outputName⟩

/-- A duration on the wire: the seconds are cast to a signed integer. -/
def durationToProto (d : Duration) : ProtoDuration :=
  ⟨(d.asSecs : Int).bmod (2 ^ 64), d.subsecNanos⟩

/-- The executor that hardware needs select. -/
def executorOverrideProto (hardware : HardwareNeeds) : Option String :=
  if hardware.localDebug then some "rust-local-debug"
  else if hardware.listingOnly then some "rust-listing"
  else if hardware.requiresGpu then some "rust-test-gpu"
  else if hardware.requiresLargeMem then some "rust-test-large"
  else if hardware.networkIsolated then some "rust-test-network-private"
  else none

/-- Host sharing on the wire. -/
def hostSharingProto : HostExclusivity → HostSharingRequirements
  | .shared => .shared 1
  | .exclusive => .exclusiveAccess

/-- Build a listing request; the listing is never cacheable. -/
def buildListingRequest [SupervisorScript] (spec : TargetSpec) (listingArgs : List String)
    (profile : SchedulingProfile) (timeout : Duration) (cgroupGranularity : CgroupGranularity)
    (cgroupMemoryMax : CgroupMemoryMax) (resourceMarkerToken : ResourceMarkerToken)
    (extraEnv : List (String × String)) : ExecuteRequest2 where
  timeout := durationToProto (supervisedActionTimeout timeout 1)
  hostSharingRequirements := hostSharingProto profile.exclusivity
  stage := .listing spec.suite false
  target := spec.handle
  cmd := buildSupervisedCmd (buildCmd spec []) [⟨0, listingArgs⟩] timeout cgroupGranularity
    cgroupMemoryMax resourceMarkerToken
  env := buildEnv spec extraEnv
  executorOverride := executorOverrideProto profile.hardware
  requiredLocalResources := profile.localResources
  disableTestExecutionCaching := false

/-- Inputs for a single test-execution action. -/
structure TestingRequest where
  target : Int
  suite : String
  testcases : List String
  baseCommand : List ArgValue
  commands : List LogicalCommand
  env : List EnvironmentVariable
  variant : Option String
  repeatCount : Option Nat
  profile : SchedulingProfile
  caching : TestExecutionCaching
  logicalTimeout : Duration
  cgroupGranularity : CgroupGranularity
  cgroupMemoryMax : CgroupMemoryMax
  resourceMarkerToken : ResourceMarkerToken
  deriving DecidableEq

/-- Build a testing request. -/
def buildTestingRequest [SupervisorScript] (req : TestingRequest) : ExecuteRequest2 where
  timeout := durationToProto (supervisedActionTimeout req.logicalTimeout req.commands.length)
  hostSharingRequirements := hostSharingProto req.profile.exclusivity
  stage := .testing req.suite req.testcases req.variant req.repeatCount
  target := req.target
  cmd := buildSupervisedCmd req.baseCommand req.commands req.logicalTimeout
    req.cgroupGranularity req.cgroupMemoryMax req.resourceMarkerToken
  env := req.env
  executorOverride := executorOverrideProto req.profile.hardware
  requiredLocalResources := req.profile.localResources
  disableTestExecutionCaching := req.caching.disableFlag

/-! ## Resource markers -/

/-- A failure that the supervisor reported. -/
inductive ResourceFailure where
  | logicalTimeout (index : Nat) (details : String)
  | logicalOom (index : Nat) (details : String)
  | actionTimeout (details : String)
  | actionOom (details : String)
  | setup (details : String)
  | malformed (details : String)
  deriving DecidableEq, Repr

/-- The failure of a logical marker line, or a malformed marker without a usable index. -/
def parseLogicalFailure (rest line : String) (timeout : Bool) : ResourceFailure :=
  let details := "quokka " ++ line
  match (Text.splitWhitespace rest).findSome? fun token => Text.stripPrefix token "index=" with
  | none => .malformed details
  | some rawIndex =>
      match parseUnsigned UInt64.size rawIndex with
      | none => .malformed details
      | some index => if timeout then .logicalTimeout index details else .logicalOom index details

/-- The failure reported by one line, if it carries the token. -/
def parseMarkerLine (linePrefix line : String) : Option ResourceFailure := do
  let marker ← Text.stripPrefix line linePrefix
  match Text.stripPrefix marker "logical test timeout:" with
  | some rest => some (parseLogicalFailure rest marker true)
  | none =>
  match Text.stripPrefix marker "logical test cgroup OOM:" with
  | some rest => some (parseLogicalFailure rest marker false)
  | none =>
  if Text.startsWith marker "test action timeout: " then
    some (.actionTimeout ("quokka " ++ marker))
  else if Text.startsWith marker "test action cgroup OOM: " then
    some (.actionOom ("quokka " ++ marker))
  else if Text.startsWith marker "cgroup setup failure: " then
    some (.setup ("quokka " ++ marker))
  else none

/-- The resource failures in an action's error output. -/
def parseResourceFailures (stderr : List UInt8) (resourceMarkerToken : ResourceMarkerToken) :
    List ResourceFailure :=
  (Text.lines (Text.fromUtf8Lossy stderr)).filterMap
    (parseMarkerLine ("quokka resource " ++ resourceMarkerToken.text ++ " "))

end Quokka
