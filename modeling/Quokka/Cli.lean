import Quokka.Batching
import Quokka.Execution
import Quokka.Translator.Decode

/-!
# Runner configuration

The resolved configuration that the scheduler reads, after `cli.rs` and `config.rs`.
-/

namespace Quokka

/-- CI shard selection. -/
structure ShardSpec where
  index : UInt16
  count : UInt16
  deriving DecidableEq, Repr

/-- Whether the run is one of several shards. -/
def ShardSpec.isSharded (shard : ShardSpec) : Bool :=
  1 < shard.count

/-- Duration database state after command-line parsing and defaulting. -/
inductive DurationDbConfig where
  | auto
  | persistent (path : String)
  | disabled
  deriving DecidableEq, Repr

/-- The directory of a persistent database. -/
def DurationDbConfig.persistentPath : DurationDbConfig → Option String
  | .persistent path => some path
  | .auto | .disabled => none

/-- Whether tests without history are run uncached. -/
def DurationDbConfig.cacheBustsUnseenTests : DurationDbConfig → Bool
  | .persistent _ => true
  | .auto | .disabled => false

/-- Attempts granted to tests with recorded failures. -/
structure FlakyRetryConfig where
  attempts : Nat
  deriving DecidableEq, Repr

/-- The user's configuration file. -/
structure QuokkaConfig where
  flakyRetry : Option FlakyRetryConfig
  deriving DecidableEq, Repr

/-- Fully resolved runner configuration, without the concurrency limits. -/
structure RunnerConfig where
  perTestTimeout : Duration
  listingTimeout : Duration
  cgroupGranularity : CgroupGranularity
  cgroupMemoryMax : CgroupMemoryMax
  cgroupMemoryMaxOverrides : List CgroupMemoryMaxOverride
  ignored : IgnoredPolicy
  listFormat : ListFormat
  runFormat : RunFormat
  batchMode : BatchMode
  batchFailurePolicy : BatchFailurePolicy
  variant : Variant
  stress : RepeatKind
  stressLabelReps : NonZeroU32
  shard : ShardSpec
  localDebug : Bool
  flakyAttempts : Nat
  casInlineLimit : Nat
  durationDb : DurationDbConfig
  libtestHelpOnly : Bool
  libtestUsageError : Option String
  libtestListOnly : Bool
  directLibtestArgs : List String
  extraTestArgs : List String
  extraEnv : List (String × String)
  declaredOutputEnv : List (String × String)
  quokkaConfig : QuokkaConfig
  deriving DecidableEq

/-! ## Memory overrides -/

/-- A flag whose value is rejected. -/
inductive CliError where
  | invalidValue (field value : String)
  deriving DecidableEq, Repr

/-- Take one `--cgroup-memory-max-override` flag; the same test must not be named twice. -/
def resolveOverride (resolved : List CgroupMemoryMaxOverride) (rawOverride : String) :
    Except CliError (List CgroupMemoryMaxOverride) :=
  match CgroupMemoryMaxOverride.parse rawOverride with
  | none => .error (.invalidValue "cgroup-memory-max-override" rawOverride)
  | some parsed =>
      if resolved.any fun existing =>
          existing.target == parsed.target && existing.test == parsed.test then
        .error (.invalidValue "cgroup-memory-max-override" rawOverride)
      else .ok (resolved ++ [parsed])

/-- The overrides of the command line, after `resolve_config`. -/
def resolveOverrides (raw : List String) : Except CliError (List CgroupMemoryMaxOverride) :=
  raw.foldlM resolveOverride []

/-- No two overrides name the same test. -/
def DistinctOverrides (overrides : List CgroupMemoryMaxOverride) : Prop :=
  (overrides.map fun candidate => (candidate.target, candidate.test)).Nodup

/-- Contextual metadata for the test session. -/
structure SessionContext where
  hostPlatform : Option String
  traceId : Option String
  deriving DecidableEq, Repr

/-- The user's libtest arguments, routed ones first. -/
def RunnerConfig.effectiveLibtestArgs (config : RunnerConfig) : List String :=
  config.extraTestArgs ++ config.directLibtestArgs

/-- The memory limit of a run without an override in the environment. -/
def defaultCgroupMemoryMaxBytes : CgroupMemoryMax :=
  .bytes ⟨1572864000, by decide⟩

/-- The configuration of a command line without flags. -/
def RunnerConfig.withoutFlags : RunnerConfig where
  perTestTimeout := Duration.fromSecs 600
  listingTimeout := Duration.fromSecs 600
  cgroupGranularity := .action
  cgroupMemoryMax := defaultCgroupMemoryMaxBytes
  cgroupMemoryMaxOverrides := []
  ignored := .excludeIgnored
  listFormat := .json
  runFormat := .json
  batchMode := .fixedChunk ⟨32, by decide⟩
  batchFailurePolicy := .rerunPerTestToIsolate
  variant := .default
  stress := .once
  stressLabelReps := ⟨50, by decide⟩
  shard := ⟨0, 1⟩
  localDebug := false
  flakyAttempts := 3
  casInlineLimit := 65536
  durationDb := .auto
  libtestHelpOnly := false
  libtestUsageError := none
  libtestListOnly := false
  directLibtestArgs := []
  extraTestArgs := []
  extraEnv := []
  declaredOutputEnv := []
  quokkaConfig := ⟨none⟩

end Quokka
