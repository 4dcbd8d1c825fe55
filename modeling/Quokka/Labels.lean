import Quokka.Library.Text

/-!
# Policies from labels

What a target's labels decide, after `policy.rs`, `caching.rs` and `environment.rs`: quarantine,
retries, owner, test-execution caching and the scheduling profile. Every axis reads a label
through `labelSuffix`.
-/

namespace Quokka

/-- The label without its namespace: the text after the first `:`, or the whole label. -/
def labelSuffix (label : String) : String :=
  ((Text.splitOnce label ":").getD ("", label)).2

/-- Whether some label's suffix satisfies `test`. -/
def anyLabel (labels : List String) (test : String → Bool) : Bool :=
  labels.any fun label => test (labelSuffix label)

/-! ## Quarantine, retries and owner -/

/-- Whether a target's failures should block the build. -/
inductive QuarantineStatus where
  | active
  | quarantined
  deriving DecidableEq, Repr

/-- How many attempts a failing test gets, at least one. -/
structure RetryPolicy where
  maxAttempts : Nat
  maxAttempts_pos : 0 < maxAttempts

/-- `RetryPolicy::new` raises zero attempts to one. -/
def RetryPolicy.new (maxAttempts : Nat) : RetryPolicy :=
  ⟨max maxAttempts 1, by omega⟩

/-- The owning team. -/
inductive Owner where
  | unowned
  | team (name : String)
  deriving DecidableEq, Repr

/-- Derive quarantine status from labels. -/
def quarantineStatus (labels : List String) : QuarantineStatus :=
  if anyLabel labels fun suffix => suffix == "quarantined" then .quarantined else .active

/-- Derive the retry policy. -/
def retryPolicy (labels : List String) (flakyAttempts : Nat) : RetryPolicy :=
  if anyLabel labels fun suffix => suffix == "flaky" || suffix == "retry" then
    RetryPolicy.new flakyAttempts
  else RetryPolicy.new 1

/-- Derive the owning team; the last owner label wins. -/
def owner (labels : List String) : Owner :=
  let owners := labels.filterMap fun label =>
    (Text.stripPrefix (labelSuffix label) "owner=").map Owner.team
  owners.getLast?.getD .unowned

/-! ## Caching -/

/-- The target's base cacheability. -/
inductive CacheClass where
  | cacheable
  | disabled
  deriving DecidableEq, Repr

/-- The per-action caching decision. -/
inductive TestExecutionCaching where
  | enabled
  | disabled
  deriving DecidableEq, Repr

namespace TestExecutionCaching

/-- The value sent as `disable_test_execution_caching`. -/
def disableFlag : TestExecutionCaching → Bool
  | .enabled => false
  | .disabled => true

/-- The final cache enablement of one execution action. -/
def resolve (base : CacheClass) (isDefaultVariant isStress : Bool) (attemptIndex : UInt32) :
    TestExecutionCaching :=
  if base = .disabled || !isDefaultVariant || isStress || 0 < attemptIndex then .disabled
  else .enabled

end TestExecutionCaching

/-- The label words of non-hermetic targets. -/
def cacheDisablingWords : List String :=
  ["cache_disabled", "uses_network", "uses_wall_clock", "uses_randomness_without_seed",
    "requires_external_service", "serial_global_state", "stress", "network-private"]

/-- Derive the cache class. -/
def cacheClass (labels : List String) : CacheClass :=
  if anyLabel labels cacheDisablingWords.contains then .disabled else .cacheable

/-! ## Scheduling profile -/

/-- The isolation level required by the test. -/
inductive HostExclusivity where
  | shared
  | exclusive
  deriving DecidableEq, Repr

/-- The hardware constraints for the environment. -/
structure HardwareNeeds where
  requiresGpu : Bool := false
  requiresLargeMem : Bool := false
  networkIsolated : Bool := false
  listingOnly : Bool := false
  localDebug : Bool := false
  deriving DecidableEq, Repr

/-- Two needs that no queue serves together. -/
structure ConstraintConflictError where
  reason : String
  deriving DecidableEq, Repr

/-- The union of two hardware needs; GPU and large memory exclude each other. -/
def HardwareNeeds.combine (first second : HardwareNeeds) :
    Except ConstraintConflictError HardwareNeeds :=
  let merged : HardwareNeeds :=
    { requiresGpu := first.requiresGpu || second.requiresGpu
      requiresLargeMem := first.requiresLargeMem || second.requiresLargeMem
      networkIsolated := first.networkIsolated || second.networkIsolated
      listingOnly := first.listingOnly || second.listingOnly
      localDebug := first.localDebug || second.localDebug }
  if merged.requiresGpu && merged.requiresLargeMem then
    .error ⟨"Cannot satisfy both gpu and large-mem hardware needs."⟩
  else .ok merged

/-- The total execution profile. The local resources are an ordered set: a strictly sorted
list. -/
structure SchedulingProfile where
  hardware : HardwareNeeds := {}
  exclusivity : HostExclusivity := .shared
  localResources : List String := []
  deriving DecidableEq, Repr

/-- Insert into an ordered set. -/
def insertResource (resource : String) : List String → List String
  | [] => [resource]
  | r :: rest =>
      if resource < r then resource :: r :: rest
      else if resource = r then r :: rest
      else r :: insertResource resource rest

/-- The union of two profiles. -/
def SchedulingProfile.combine (first second : SchedulingProfile) :
    Except ConstraintConflictError SchedulingProfile := do
  let hardware ← first.hardware.combine second.hardware
  pure
    { hardware
      exclusivity := if second.exclusivity = .exclusive then .exclusive else first.exclusivity
      localResources := second.localResources.foldr insertResource first.localResources }

/-- The profile that a single label suffix asks for. -/
def labelProfile (suffix : String) : SchedulingProfile :=
  if suffix = "gpu" then { hardware := { requiresGpu := true } }
  else if suffix = "large-mem" then { hardware := { requiresLargeMem := true } }
  else if suffix = "network-private" then { hardware := { networkIsolated := true } }
  else if suffix = "exclusive" || suffix = "serial_global_state" then
    { exclusivity := .exclusive }
  else
    match Text.stripPrefix suffix "local-resource=" with
    | some resource => { localResources := [resource] }
    | none => {}

/-- Combine the profiles of all labels, from the first to the last. -/
def profileFromLabels (labels : List String) :
    Except ConstraintConflictError SchedulingProfile :=
  labels.foldlM (fun profile label => profile.combine (labelProfile (labelSuffix label))) {}

end Quokka
