import Quokka.DurationDb.Store
import Quokka.Translator.Frameworks

/-!
# Target plans, shards and batches

What the scheduler decides about a target before it executes anything, after `scheduler.rs`:
the plan derived from labels and configuration, the cgroup override check, the shard filter and
the batches.

`External` collects what the program takes from outside the repository. `TargetCtx` is the
context shared by the tasks of a target: the configuration, the read-only duration snapshot,
the build profile and the orchestrator.
-/

namespace Quokka

/-- Everything that the scheduler takes from outside the repository. -/
class External extends HarnessText, HashKey, SupervisorScript

/-- Decoders that accept nothing, for runs that use the text formats and no database. -/
@[reducible] def External.inert : External where
  parseListEvent _ := none
  parseRunEvent _ := none
  parseF64 _ := none
  tryFromSecsF64 _ := none
  hashKey _ := 0
  resourceSupervisorSh := ""

/-- What became of an attempt to store a log outside the result. -/
inductive UploadOutcome where
  | skipped (error : String)
  | uploaded (hash : String) (sizeBytes : Int)
  | failed (error : String)
  deriving DecidableEq, Repr

/-- The orchestrator's answers. A task of the target is named by a path: the listing is `[]`,
the action of batch `b` and repeat `r` is `[b, r]`, and its isolation run `i` is `[b, r, i]`.
`execute2 path k` answers the `k`-th call of a task, `upload path k` stores its `k`-th log. -/
structure Orchestrator where
  execute2 : List Nat → Nat → Except String ExecuteResponse2
  upload : List Nat → Nat → UploadOutcome

/-- Shared context passed to each target task. -/
structure TargetCtx where
  config : RunnerConfig
  estimates : DurationDb
  profile : BuildProfile
  orch : Orchestrator

/-- A context without flags and history, in a build with overflow checks. -/
def TargetCtx.withoutFlags (orch : Orchestrator) : TargetCtx where
  config := RunnerConfig.withoutFlags
  estimates := DurationDb.ephemeral
  profile := ⟨true⟩
  orch := orch

/-- The same with the text formats of the harness. -/
def TargetCtx.textFormats (orch : Orchestrator) : TargetCtx :=
  { TargetCtx.withoutFlags orch with
    config := { RunnerConfig.withoutFlags with listFormat := .text, runFormat := .text } }

/-- The response of an action that finished with this exit code and standard output. -/
def ExecuteResponse2.finished (exitCode : Int) (stdout : String) : ExecuteResponse2 where
  response := some (.result
    { status := some (some (.finished exitCode))
      stdout := some (some (Text.bytes stdout))
      stderr := none
      executionTime := none
      executionDetails := none
      maxMemoryUsedBytes := none })

/-- An orchestrator that gives every action the same response and stores no logs. -/
def Orchestrator.always (response : ExecuteResponse2) : Orchestrator where
  execute2 _ _ := .ok response
  upload _ _ := .skipped ""

/-- An orchestrator that gives the listing one response and every test action another. -/
def Orchestrator.listingThen (listing action : ExecuteResponse2) : Orchestrator where
  execute2 path _ := .ok (if path.isEmpty then listing else action)
  upload _ _ := .skipped ""

/-- Bounded retry budget for transient executor failures. -/
def infraMaxAttempts : Nat := 3

/-- Neutral duration assigned to tests without history. -/
def unseenWeightMs : UInt64 := 50

/-! ## The plan -/

/-- The per-target policy derived once from labels and configuration. -/
structure TargetPlan where
  spec : TargetSpec
  translator : Translator
  ignored : IgnoredPolicy
  cacheClass : CacheClass
  retry : RetryPolicy
  quarantine : QuarantineStatus
  timeout : Duration
  profile : SchedulingProfile
  owner : Owner
  batchMode : Option BatchMode
  repetition : RepeatKind

/-- A target labelled `big` runs one test per action. -/
def targetBatchMode (labels : List String) : Option BatchMode :=
  if anyLabel labels fun suffix => suffix == "big" then some .perTest else none

/-- The repetition of a target: the global one, or the one its label asks for. -/
def targetRepetition (config : RunnerConfig) (labels : List String) : RepeatKind :=
  if config.stress.isStress then config.stress
  else if anyLabel labels fun suffix => suffix == "stress" then .stress config.stressLabelReps
  else .once

namespace TargetPlan

/-- Derive the plan; a conflict between labels falls back to the default profile. -/
def derive [HarnessText] (spec : TargetSpec) (config : RunnerConfig) :
    Except String TargetPlan :=
  match resolveTranslator spec.testType config with
  | none => .error ("no translator registered for test_type '" ++ spec.testType ++ "'")
  | some translator =>
      .ok
        { spec
          translator
          ignored := config.ignored
          cacheClass := Quokka.cacheClass spec.labels
          retry := retryPolicy spec.labels config.flakyAttempts
          quarantine := quarantineStatus spec.labels
          timeout := config.perTestTimeout
          profile := (profileFromLabels spec.labels).toOption.getD {}
          owner := Quokka.owner spec.labels
          batchMode := targetBatchMode spec.labels
          repetition := targetRepetition config spec.labels }

/-- The plan of the target `ExternalRunnerSpec.plain` with a given translator. -/
def plain (testType : String) (labels : List String) (translator : Translator)
    (config : RunnerConfig) : TargetPlan where
  spec := .plain testType labels
  translator := translator
  ignored := config.ignored
  cacheClass := Quokka.cacheClass labels
  retry := retryPolicy labels config.flakyAttempts
  quarantine := quarantineStatus labels
  timeout := config.perTestTimeout
  profile := (profileFromLabels labels).toOption.getD {}
  owner := Quokka.owner labels
  batchMode := targetBatchMode labels
  repetition := targetRepetition config labels

/-- The profile of the listing action. -/
def listingProfile (plan : TargetPlan) (config : RunnerConfig) : SchedulingProfile :=
  if !plan.translator.declaresExecutorOverrides then {}
  else if config.localDebug then { hardware := { localDebug := true } }
  else { hardware := { listingOnly := true } }

/-- The profile of the test actions. -/
def testingProfile (plan : TargetPlan) (config : RunnerConfig) : SchedulingProfile :=
  if !plan.translator.declaresExecutorOverrides then
    { plan.profile with hardware := {}, localResources := [] }
  else if config.localDebug then { plan.profile with hardware := { localDebug := true } }
  else plan.profile

/-- Whether failures of the target do not fail the run. -/
def quarantined (plan : TargetPlan) : Bool :=
  plan.quarantine == .quarantined

end TargetPlan

/-- Check the overrides of one target, in order, against its listed tests. -/
def validateOverrides (tests : List TestCase) :
    List CgroupMemoryMaxOverride → Except String Unit
  | [] => .ok ()
  | candidate :: rest =>
      let matchCount := (tests.filter fun test => test.name == candidate.test).length
      if matchCount ≠ 1 then
        .error ("cgroup memory override matched " ++ toString matchCount ++
          " tests, expected exactly one: " ++ candidate.target ++ "|" ++ candidate.test)
      else validateOverrides tests rest

/-- Every override of the target must name exactly one of its tests, and the target must run
its tests singly. -/
def validateCgroupMemoryOverrides (plan : TargetPlan) (config : RunnerConfig)
    (tests : List TestCase) : Except String Unit :=
  let targetOverrides :=
    config.cgroupMemoryMaxOverrides.filter fun candidate => candidate.target == plan.spec.display
  if targetOverrides.isEmpty then .ok ()
  else if plan.spec.testType ≠ "rust" || !plan.spec.labels.contains "rust:big" then
    .error ("cgroup memory overrides require a rust:big singleton target: " ++ plan.spec.display)
  else validateOverrides tests targetOverrides

/-- A target that is no `rust:big` one has no memory override. -/
theorem no_override_of_valid {plan : TargetPlan} {config : RunnerConfig} {tests : List TestCase}
    (hvalid : validateCgroupMemoryOverrides plan config tests = .ok ())
    (hbig : ¬(plan.spec.testType = "rust" ∧ plan.spec.labels.contains "rust:big" = true)) :
    ∀ candidate ∈ config.cgroupMemoryMaxOverrides, candidate.target ≠ plan.spec.display := by
  have hnone : (config.cgroupMemoryMaxOverrides.filter fun candidate =>
      candidate.target == plan.spec.display) = [] := by
    unfold validateCgroupMemoryOverrides at hvalid
    dsimp only at hvalid
    split at hvalid
    case isTrue hempty => exact List.isEmpty_iff.mp hempty
    case isFalse =>
      have hrejected : (decide (plan.spec.testType ≠ "rust") ||
          !plan.spec.labels.contains "rust:big") = true := by
        by_cases htype : plan.spec.testType = "rust" <;> simp_all
      rw [if_pos hrejected] at hvalid
      cases hvalid
  intro candidate hcandidate
  simpa using List.filter_eq_nil_iff.mp hnone candidate hcandidate

/-- Names that no override is about get the default limit. -/
theorem cgroup_memory_max_default {default : CgroupMemoryMax}
    {overrides : List CgroupMemoryMaxOverride} {target : String} {names : List String}
    (h : ∀ candidate ∈ overrides, candidate.target = target → candidate.test ∉ names) :
    cgroupMemoryMaxForAction default overrides target names = .ok default := by
  have hfound : (overrides.filter fun candidate =>
      candidate.target == target && names.any fun test => test == candidate.test) = [] := by
    rw [List.filter_eq_nil_iff]
    intro candidate hcandidate hmatches
    simp only [Bool.and_eq_true, beq_iff_eq, List.any_eq_true, exists_eq_right] at hmatches
    exact h candidate hcandidate hmatches.1 hmatches.2
  unfold cgroupMemoryMaxForAction
  dsimp only
  rw [hfound]

/-- A single name gets the limit of its override, if no other one is about it. -/
theorem cgroup_memory_max_override {default : CgroupMemoryMax}
    {overrides : List CgroupMemoryMaxOverride} {candidate : CgroupMemoryMaxOverride}
    (hdistinct : DistinctOverrides overrides) (hmem : candidate ∈ overrides) :
    cgroupMemoryMaxForAction default overrides candidate.target [candidate.test] =
      .ok candidate.memoryMax := by
  have hfound : (overrides.filter fun other => other.target == candidate.target &&
      [candidate.test].any fun test => test == other.test) = [candidate] := by
    have hsame : ∀ other ∈ overrides, (other.target == candidate.target &&
        [candidate.test].any fun test => test == other.test) = decide (other = candidate) := by
      intro other hother
      rw [Bool.eq_iff_iff]
      simp only [List.any_cons, List.any_nil, Bool.or_false, Bool.and_eq_true, beq_iff_eq,
        decide_eq_true_eq]
      constructor
      · rintro ⟨htarget, htest⟩
        exact List.inj_on_of_nodup_map hdistinct hother hmem (by rw [htarget, htest])
      · rintro rfl
        exact ⟨rfl, rfl⟩
    have hcount : overrides.count candidate = 1 :=
      List.count_eq_one_of_mem (List.Nodup.of_map _ hdistinct) hmem
    rw [List.filter_congr hsame, List.filter_eq, hcount]
    rfl
  unfold cgroupMemoryMaxForAction
  dsimp only
  rw [hfound]
  rfl

/-- A target that is no `rust:big` one has the default limit. -/
theorem override_free_of_valid {plan : TargetPlan} {config : RunnerConfig}
    {tests : List TestCase} {names : List String}
    (hvalid : validateCgroupMemoryOverrides plan config tests = .ok ())
    (hbig : ¬(plan.spec.testType = "rust" ∧ plan.spec.labels.contains "rust:big" = true)) :
    cgroupMemoryMaxForAction config.cgroupMemoryMax config.cgroupMemoryMaxOverrides
      plan.spec.display names = .ok config.cgroupMemoryMax :=
  cgroup_memory_max_default fun candidate hcandidate htarget =>
    absurd htarget (no_override_of_valid hvalid hbig candidate hcandidate)

/-! ## Shards -/

/-- The text that decides a test's shard. -/
def shardKey (target name : String) : String :=
  target ++ "\u0001" ++ name

/-- The shard that owns a test. -/
def shardOf (target name : String) (count : UInt16) : UInt16 :=
  (fnv1a (Text.bytes (shardKey target name)) % count.toUInt64).toUInt16

/-- Keep only the tests this shard owns. -/
def shardFilter (target : String) (tests : List TestCase) (config : RunnerConfig) :
    List TestCase :=
  if !config.shard.isSharded then tests
  else tests.filter fun t => shardOf target t.name config.shard.count == config.shard.index

/-! ## Batches -/

/-- A test with its estimate. -/
structure LocalBatchInput where
  name : String
  estimate : DurationEstimate
  deriving DecidableEq

instance : Batchable LocalBatchInput where
  weightMs input := input.estimate.weightMs unseenWeightMs
  p50Ms input := input.estimate.p50Ms 0

section Batches

variable [HashKey] (target : String) (tests : List TestCase) (config : RunnerConfig)
  (db : DurationDb)

/-- The identity of a test of this target. -/
def testIdentity (name : String) : TestIdentity :=
  { target, name, variant := config.variant }

/-- The weight of one test. -/
def nameWeight (name : String) : UInt64 :=
  (db.estimate none (testIdentity target config name)).weightMs unseenWeightMs

/-- The heaviest of some weights. -/
def heaviest (weights : List UInt64) : UInt64 :=
  weights.foldl max 0

/-- The weight by which a batch is ordered: that of its heaviest member. -/
def selectionWeight : TestSelection String → UInt64
  | .all => heaviest (tests.map fun t => nameWeight target config db t.name)
  | .explicit group => heaviest (group.map (nameWeight target config db))

/-- The batch mode in force: logical-test supervision and singleton-only frameworks run one
test per action. -/
def effectiveBatchMode (capability : DemuxCapability) (targetMode : Option BatchMode) :
    BatchMode :=
  if config.cgroupGranularity = .logicalTest then .perTest
  else
    match capability with
    | .nameAttributable => targetMode.getD config.batchMode
    | .singletonOnly => .perTest

/-- Collapse tests into batched actions and order them longest-first. -/
def buildBatches (profile : BuildProfile) (capability : DemuxCapability)
    (targetMode : Option BatchMode) : MayPanic (List (TestSelection String)) := do
  let inputs := tests.map fun t =>
    { name := t.name, estimate := db.estimate none (testIdentity target config t.name) }
  let batchMode := effectiveBatchMode config capability targetMode
  let selections ←
    if batchMode = .target && config.shard.isSharded then pure [TestSelection.explicit inputs]
    else batchMode.partition profile inputs
  let batches := selections.map (TestSelection.map LocalBatchInput.name)
  pure (batches.insertionSort fun a b =>
    selectionWeight target tests config db b ≤ selectionWeight target tests config db a)

end Batches

/-- A `rust:big` target executes its tests one by one. -/
theorem big_batch_mode [HarnessText] {config : RunnerConfig} {plan : TargetPlan}
    (hplan : TargetPlan.derive plan.spec config = .ok plan)
    (hbig : plan.spec.labels.contains "rust:big" = true) (capability : DemuxCapability) :
    effectiveBatchMode config capability plan.batchMode = .perTest := by
  have hbatch : plan.batchMode = some .perTest := by
    have hlabel : anyLabel plan.spec.labels (fun suffix => suffix == "big") = true :=
      List.any_eq_true.mpr ⟨"rust:big", by simpa using hbig, by decide⟩
    unfold TargetPlan.derive at hplan
    split at hplan
    · cases hplan
    · rw [← Except.ok.inj hplan]
      simp [targetBatchMode, hlabel]
  unfold effectiveBatchMode
  rw [hbatch]
  split
  · rfl
  · cases capability <;> rfl

end Quokka
