import Quokka.Cli
import Quokka.Translator.UserArgs

/-!
# The command line

From the flags that buck2 passes to the configuration of a run, after `cli.rs`. The arguments are
split at the first `--`; `clap` reads the two sides, so its parsers are parameters. What it has
read is an `OuterCli` and a `TpxConfig`, with the source's defaults, and `resolveConfig` makes the
checked configuration of them.

The libtest options among the flags are written out again by `directLibtestArgs` for the targets
that understand them.
-/

namespace Quokka

/-! ## Flags -/

/-- The flags before `--`. -/
structure OuterCli where
  buckTraceId : Option String := none
  configEntry : List String := []
  executorFd : Option Int := none
  orchestratorFd : Option Int := none
  executorAddr : Option String := none
  orchestratorAddr : Option String := none

/-- The flags after `--`. -/
structure TpxConfig where
  env : List String := []
  declaredOutputEnv : List String := []
  testArg : List String := []
  timeout : UInt64 := 600
  listingTimeout : UInt64 := 600
  cgroupGranularity : String := "action"
  cgroupMemoryMaxOverrides : List String := []
  includeIgnored : Bool := false
  ignored : Bool := false
  ignoredOnly : Bool := false
  listFormat : String := "json"
  runFormat : String := "json"
  batchMode : String := "fixed-chunk"
  chunkSize : Nat := 32
  batchThresholdMs : UInt64 := 20
  batchFailurePolicy : String := "isolate"
  variant : String := "default"
  stress : UInt32 := 0
  stressLabelReps : UInt32 := 50
  shardIndex : UInt16 := 0
  shardCount : UInt16 := 1
  localDebug : Bool := false
  flakyAttempts : UInt32 := 3
  durationDb : Option String := none
  noDurationDb : Bool := false
  ciTestReportJson : Option String := none
  casInlineLimit : Nat := 65536
  maxInflightTestActions : Nat := 2000
  maxInflightListings : Nat := 256
  maxInflightPerTarget : Nat := 128
  libtestForceRunInProcess : Bool := false
  libtestExcludeShouldPanic : Bool := false
  libtestTest : Bool := false
  libtestBench : Bool := false
  libtestList : Bool := false
  libtestFailFast : Bool := false
  libtestHelp : Bool := false
  libtestLogfile : Option String := none
  libtestNoCapture : Bool := false
  libtestTestThreads : Option String := none
  libtestSkip : List String := []
  libtestQuiet : Bool := false
  libtestExact : Bool := false
  libtestColor : Option String := none
  libtestFormat : Option String := none
  libtestShowOutput : Bool := false
  libtestUnstableOptions : List String := []
  libtestReportTime : Bool := false
  libtestEnsureTime : Bool := false
  libtestShuffle : Bool := false
  libtestShuffleSeed : Option String := none
  libtestFilters : List String := []

/-- A flag that is written if it is set. -/
def flagArg (isSet : Bool) (flag : String) : List String :=
  if isSet then [flag] else []

/-- An option that is written with each of its values. -/
def valueArgs (flag : String) (values : List String) : List String :=
  values.flatMap fun value => [flag, value]

namespace TpxConfig

variable (tpx : TpxConfig)

/-- The libtest options, as libtest takes them. -/
def directLibtestArgs : List String :=
  tpx.libtestFilters ++
  (flagArg tpx.libtestExact "--exact" ++
  (valueArgs "--skip" tpx.libtestSkip ++
  (flagArg tpx.libtestForceRunInProcess "--force-run-in-process" ++
  (flagArg tpx.libtestExcludeShouldPanic "--exclude-should-panic" ++
  (flagArg tpx.libtestTest "--test" ++
  (flagArg tpx.libtestBench "--bench" ++
  (flagArg tpx.libtestList "--list" ++
  (flagArg tpx.libtestFailFast "--fail-fast" ++
  (flagArg tpx.libtestHelp "--help" ++
  (valueArgs "--logfile" tpx.libtestLogfile.toList ++
  (flagArg tpx.libtestNoCapture "--no-capture" ++
  (valueArgs "--test-threads" tpx.libtestTestThreads.toList ++
  (flagArg tpx.libtestQuiet "--quiet" ++
  (valueArgs "--color" tpx.libtestColor.toList ++
  (valueArgs "--format" tpx.libtestFormat.toList ++
  (flagArg tpx.libtestShowOutput "--show-output" ++
  (valueArgs "-Z" tpx.libtestUnstableOptions ++
  (flagArg tpx.libtestReportTime "--report-time" ++
  (flagArg tpx.libtestEnsureTime "--ensure-time" ++
  (flagArg tpx.libtestShuffle "--shuffle" ++
  valueArgs "--shuffle-seed" tpx.libtestShuffleSeed.toList))))))))))))))))))))

/-- The user's libtest arguments, routed ones first. -/
def effectiveLibtestArgs : List String :=
  tpx.testArg ++ tpx.directLibtestArgs

end TpxConfig

/-! ## Results and errors -/

/-- How buck2 connected the runner's two service channels. -/
inductive Transport where
  | unixFds (executorFd orchestratorFd : Int)
  | tcp (executorAddr orchestratorAddr : String)
  deriving DecidableEq

/-- Concurrency limits for the scheduler, as the command line gives them. -/
structure Cli.SchedulerLimits where
  maxInflightListings : Nat := 256
  maxInflightTestActions : Nat := 2000
  maxInflightPerTarget : Nat := 128
  maxReportQueue : Nat := 1024
  deriving DecidableEq

/-- The outcome of the configuration: what the scheduler is given. -/
structure ResolvedConfig where
  config : RunnerConfig
  limits : Cli.SchedulerLimits
  ciTestReportJson : Option String
  context : SessionContext
  deriving DecidableEq

/-- A parsed invocation: how to connect, and the resolved configuration. -/
structure Invocation where
  transport : Transport
  resolved : ResolvedConfig

/-- Why a command line is rejected. -/
inductive CommandLineError where
  | missingTransport
  | value (error : CliError)
  | ignoredOnlyNeedsJsonListing
  | invalidEnv (entry : String)
  | invalidDeclaredOutputEnv (entry : String)
  | shardOutOfRange (index count : UInt16)
  | conflictingDurationDbFlags
  | parse (error : String)
  deriving DecidableEq

/-- A flag whose value is not one of those expected. -/
def CommandLineError.invalid (field value : String) : CommandLineError :=
  .value (.invalidValue field value)

/-- What the user is told. -/
def CommandLineError.message : CommandLineError → String
  | .missingTransport =>
      "missing transport: provide --executor-fd/--orchestrator-fd or " ++
        "--executor-addr/--orchestrator-addr"
  | .value (.invalidValue field given) => "invalid " ++ field ++ ": `" ++ given ++ "`"
  | .ignoredOnlyNeedsJsonListing =>
      "--ignored-only requires --list-format json: stable text `--list` cannot " ++
        "report a test's ignored status, so an ignored-only run would list and run zero tests"
  | .invalidEnv entry => "invalid --env entry `" ++ entry ++ "` (expected NAME=VALUE)"
  | .invalidDeclaredOutputEnv entry =>
      "invalid --declared-output-env entry `" ++ entry ++
        "` (expected NAME=OUTPUT_DIR with both sides non-empty)"
  | .shardOutOfRange index count =>
      "--shard-index " ++ toString index ++ " is out of range for --shard-count " ++ toString count
  | .conflictingDurationDbFlags => "--duration-db and --no-duration-db cannot be used together"
  | .parse error => error

/-! ## Resolving -/

/-- The channels to buck2; file descriptors come before addresses. -/
def resolveTransport (outer : OuterCli) : Except CommandLineError Transport :=
  match outer.executorFd, outer.orchestratorFd, outer.executorAddr, outer.orchestratorAddr with
  | some executorFd, some orchestratorFd, _, _ => .ok (.unixFds executorFd orchestratorFd)
  | _, _, some executorAddr, some orchestratorAddr => .ok (.tcp executorAddr orchestratorAddr)
  | _, _, _, _ => .error .missingTransport

/-- The value of an environment variable. -/
inductive EnvVar where
  | notPresent
  | notUnicode (lossy : String)
  | present (value : String)

/-- What the process finds around it: the variable that sets the memory limit, and the user's
configuration file. -/
structure Surroundings where
  cgroupMemoryMaxBytes : EnvVar
  quokkaConfig : QuokkaConfig

/-- The value that a word stands for, if it is one of those expected. -/
def chooseValue {α : Type} (field : String) (choices : List (String × α)) (value : String) :
    Except CommandLineError α :=
  match choices.lookup value with
  | some chosen => .ok chosen
  | none => .error (.invalid field value)

/-- The values of `--list-format`. -/
def listFormats : List (String × ListFormat) :=
  [("text", .text), ("json", .json)]

/-- The values of `--run-format`. -/
def runFormats : List (String × RunFormat) :=
  [("text", .text), ("json", .json)]

/-- The values of `--batch-failure-policy`. -/
def batchFailurePolicies : List (String × BatchFailurePolicy) :=
  [("isolate", .rerunPerTestToIsolate), ("fail-all", .failAll)]

/-- The values of `--cgroup-granularity`. -/
def cgroupGranularities : List (String × CgroupGranularity) :=
  [("logical-test", .logicalTest), ("action", .action)]

theorem clamped_ne_zero (n : Nat) : max n 1 ≠ 0 :=
  Nat.ne_of_gt (Nat.lt_of_lt_of_le Nat.one_pos (Nat.le_max_right n 1))

/-- Take one request about ignored tests; it must not differ from those before. -/
def resolvePolicy (ignored policy : IgnoredPolicy) : Except CommandLineError IgnoredPolicy :=
  if ignored = .excludeIgnored then .ok policy
  else if ignored ≠ policy then .error (.invalid "ignored" "--include-ignored with --ignored")
  else .ok ignored

/-- `NonZeroU32::new(count).unwrap_or(NonZeroU32::MIN)`. -/
def atLeastOnce (count : UInt32) : NonZeroU32 :=
  if h : count ≠ 0 then ⟨count, h⟩ else ⟨1, by decide⟩

/-- The memory limit: the variable's value, or the default one. -/
def resolveMemoryMax : EnvVar → Except CommandLineError CgroupMemoryMax
  | .notPresent => .ok defaultCgroupMemoryMaxBytes
  | .notUnicode lossy => .error (.invalid "NOBIE_RUST_TEST_CGROUP_MEMORY_MAX_BYTES" lossy)
  | .present value =>
      match CgroupMemoryMax.parse value with
      | some limit => .ok limit
      | none => .error (.invalid "NOBIE_RUST_TEST_CGROUP_MEMORY_MAX_BYTES" value)

/-- `--env NAME=VALUE`. -/
def resolveEnv (entry : String) : Except CommandLineError (String × String) :=
  match Text.splitOnce entry "=" with
  | some assigned => .ok assigned
  | none => .error (.invalidEnv entry)

/-- `--declared-output-env NAME=OUTPUT_DIR`. -/
def resolveDeclaredOutput (entry : String) : Except CommandLineError (String × String) :=
  match Text.splitOnce entry "=" with
  | some (name, directory) =>
      if name.isEmpty || directory.isEmpty then .error (.invalidDeclaredOutputEnv entry)
      else .ok (name, directory)
  | none => .error (.invalidDeclaredOutputEnv entry)

namespace TpxConfig

variable (tpx : TpxConfig)

/-- What the flags and the libtest arguments ask for about ignored tests. -/
def ignoredPolicies : List IgnoredPolicy :=
  (if tpx.includeIgnored then [.includeIgnored] else []) ++
    (if tpx.ignored || tpx.ignoredOnly then [.ignoredOnly] else []) ++
      libtestUserIgnoredPolicies tpx.effectiveLibtestArgs

/-- The values of `--batch-mode`. -/
def batchModes : List (String × BatchMode) :=
  [("per-test", .perTest), ("duration-bucketed", .durationBucketed tpx.batchThresholdMs),
    ("fixed-chunk", .fixedChunk ⟨max tpx.chunkSize 1, clamped_ne_zero tpx.chunkSize⟩),
    ("target", .target)]

/-- The duration database that the flags ask for. -/
def resolveDurationDb : Except CommandLineError DurationDbConfig :=
  if tpx.noDurationDb then
    if tpx.durationDb.isSome then .error .conflictingDurationDbFlags else .ok .disabled
  else
    match tpx.durationDb with
    | some path => .ok (.persistent path)
    | none => .ok .auto

/-- The shard that the flags ask for. -/
def resolveShard : Except CommandLineError ShardSpec :=
  let shard : ShardSpec := { index := tpx.shardIndex, count := max tpx.shardCount 1 }
  if shard.count ≤ shard.index then .error (.shardOutOfRange shard.index shard.count)
  else .ok shard

/-- The repetitions that the flags ask for. -/
def resolveStress : RepeatKind :=
  if h : tpx.stress ≠ 0 then .stress ⟨tpx.stress, h⟩ else .once

end TpxConfig

/-- `resolve_config`: the checks are made in this order. -/
def resolveConfig (surroundings : Surroundings) (outer : OuterCli) (tpx : TpxConfig) :
    Except CommandLineError ResolvedConfig := do
  let ignored ← tpx.ignoredPolicies.foldlM resolvePolicy .excludeIgnored
  let listFormat ← chooseValue "list-format" listFormats tpx.listFormat
  if ignored = .ignoredOnly ∧ listFormat = .text then throw .ignoredOnlyNeedsJsonListing
  let runFormat ← chooseValue "run-format" runFormats tpx.runFormat
  let batchMode ← chooseValue "batch-mode" tpx.batchModes tpx.batchMode
  let batchFailurePolicy ← chooseValue "batch-failure-policy" batchFailurePolicies
    tpx.batchFailurePolicy
  let durationDb ← tpx.resolveDurationDb
  let cgroupGranularity ← chooseValue "cgroup-granularity" cgroupGranularities
    tpx.cgroupGranularity
  let cgroupMemoryMax ← resolveMemoryMax surroundings.cgroupMemoryMaxBytes
  let cgroupMemoryMaxOverrides ←
    (resolveOverrides tpx.cgroupMemoryMaxOverrides).mapError .value
  let shard ← tpx.resolveShard
  let extraEnv ← tpx.env.mapM resolveEnv
  let declaredOutputEnv ← tpx.declaredOutputEnv.mapM resolveDeclaredOutput
  pure
    { config :=
        { perTestTimeout := Duration.fromSecs tpx.timeout.toNat
          listingTimeout := Duration.fromSecs tpx.listingTimeout.toNat
          cgroupGranularity
          cgroupMemoryMax
          cgroupMemoryMaxOverrides
          ignored
          listFormat
          runFormat
          batchMode
          batchFailurePolicy
          variant := Variant.parse tpx.variant
          stress := tpx.resolveStress
          stressLabelReps := atLeastOnce tpx.stressLabelReps
          shard
          localDebug := tpx.localDebug
          flakyAttempts := (max tpx.flakyAttempts 1).toNat
          casInlineLimit := tpx.casInlineLimit
          durationDb
          libtestHelpOnly := libtestUserRequestsHelp tpx.effectiveLibtestArgs
          libtestUsageError := libtestUserUsageError tpx.effectiveLibtestArgs
          libtestListOnly := libtestUserRequestsListingOnly tpx.effectiveLibtestArgs
          directLibtestArgs := tpx.directLibtestArgs
          extraTestArgs := tpx.testArg
          extraEnv
          declaredOutputEnv
          quokkaConfig := surroundings.quokkaConfig }
      limits :=
        { maxInflightListings := max tpx.maxInflightListings 1
          maxInflightTestActions := max tpx.maxInflightTestActions 1
          maxInflightPerTarget := max tpx.maxInflightPerTarget 1 }
      ciTestReportJson := tpx.ciTestReportJson
      context :=
        { hostPlatform := outer.configEntry.findSome? fun entry => Text.stripPrefix entry "host="
          traceId := outer.buckTraceId } }

/-- The parsers of the flags before and after `--`. -/
structure Clap where
  outer : List String → Except String OuterCli
  tpx : List String → Except String TpxConfig

/-- The arguments before and after the first `--`. -/
def splitArgv (argv : List String) : List String × List String :=
  (argv.takeWhile (· ≠ "--"), (argv.dropWhile (· ≠ "--")).drop 1)

/-- `parse`: the whole command line. -/
def parseInvocation (clap : Clap) (surroundings : Surroundings) (argv : List String) :
    Except CommandLineError Invocation := do
  let (left, right) := splitArgv argv
  let outer ← (clap.outer left).mapError .parse
  let tpx ← (clap.tpx (if right.isEmpty then ["tpx"] else right)).mapError .parse
  let transport ← resolveTransport outer
  let resolved ← resolveConfig surroundings outer tpx
  pure { transport, resolved }

end Quokka
