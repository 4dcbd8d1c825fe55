import Quokka.Library.BoundedLoop
import Quokka.Scheduler.Plan

/-!
# Running one group of tests

One execution of a batch with its bounded infrastructure retries, after `run_group` of
`scheduler.rs`. `runGroup` issues the `Execute2` calls and classifies the last answer as a
`GroupOutcome`. `mergeBest` folds what a member's attempts showed into its best result.
-/

namespace Quokka

/-- Whether a result is the observed end of a test. -/
inductive ResultIntegrity where
  | complete
  | missingTerminalResult
  deriving DecidableEq, Repr

/-- The duration of one attempt. -/
inductive AttemptDuration where
  | measured (duration : Duration)
  | unmeasured
  deriving DecidableEq, Repr

/-- How an attempt was executed. -/
inductive AttemptExecution where
  | physical (env : Environment)
  | cacheServed
  | unknown
  deriving DecidableEq, Repr

namespace AttemptExecution

/-- The execution behind a response's kind. -/
def fromExecKind : ExecKind → AttemptExecution
  | .local | .worker => .physical .local
  | .remoteExecuted => .physical .remote
  | .remoteCacheHit => .cacheServed
  | .omitted | .unknown => .unknown

/-- The environment of a fresh execution. -/
def freshEnvironment : AttemptExecution → Option Environment
  | .physical env => some env
  | .cacheServed | .unknown => none

end AttemptExecution

/-- One fresh execution of a test, for the duration database. -/
structure DbObservation where
  duration : Duration
  failed : Bool
  failureClass : Option FailureClass
  env : Environment
  deriving DecidableEq

/-- One attempt of a test, for its history. -/
structure AttemptObservation where
  status : TestVerdict
  duration : AttemptDuration
  frameworkCaseDuration : Option Duration
  details : String
  execution : AttemptExecution
  deriving DecidableEq

/-! ## The best result of a member -/

/-- The best result of a test so far. -/
structure BestObs where
  status : TestVerdict
  integrity : ResultIntegrity
  details : String
  duration : AttemptDuration
  maxMemory : Option UInt64
  deriving DecidableEq

/-- The result of a member that no attempt observed. -/
def BestObs.missing : BestObs where
  status := .fatal
  integrity := .missingTerminalResult
  details := "test produced no result"
  duration := .unmeasured
  maxMemory := none

/-- Which of two successive results of a member is kept: an incomplete one always replaces, and
is itself replaced only by another; a non-failing one stays. -/
def betterObs (existing : Option BestObs) (incoming : BestObs) : BestObs :=
  if incoming.integrity = .missingTerminalResult then incoming
  else
    match existing with
    | none => incoming
    | some existing =>
        if existing.integrity = .missingTerminalResult then existing
        else if !existing.status.isFailure then existing
        else incoming

/-- Merge one result into the table of best results. -/
def mergeBest (best : Table String BestObs) (name : String) (incoming : BestObs) :
    Table String BestObs :=
  best.update name fun existing => betterObs existing incoming

/-! ## Outcomes of a group -/

/-- Whether a failed group leaves its members without a terminal result. -/
inductive GroupFailureDisposition where
  | incomplete
  | completeActionTimeout
  deriving DecidableEq, Repr

/-- The integrity that a failed group gives its members. -/
def GroupFailureDisposition.integrity : GroupFailureDisposition → ResultIntegrity
  | .incomplete => .missingTerminalResult
  | .completeActionTimeout => .complete

/-- A completed action with the observations decoded from its output. -/
structure ObservedGroup where
  observations : Table String PerTestObservation
  raw : ProcessOutcome
  stdout : List UInt8
  stderr : List UInt8
  actionOom : Option String
  executionTime : Duration
  maxMemory : Option UInt64
  execution : AttemptExecution

/-- A failure of the whole action. -/
structure FailedGroup where
  status : TestVerdict
  details : String
  execution : AttemptExecution
  duration : AttemptDuration
  disposition : GroupFailureDisposition
  deriving DecidableEq

/-- The result of running one group of tests once. -/
inductive GroupOutcome where
  | observed (group : ObservedGroup)
  | groupFailed (failure : FailedGroup)

/-- A failure without a measured execution. -/
def FailedGroup.unmeasured (status : TestVerdict) (details : String) : FailedGroup where
  status := status
  details := details
  execution := .unknown
  duration := .unmeasured
  disposition := .incomplete

/-- The details followed by the non-empty streams. -/
def detailsWithStreams (details : String) (stdout stderr : List UInt8) : String :=
  [("stdout", stdout), ("stderr", stderr)].foldl (fun details (label, output) =>
    let output := Text.trimEnd (Text.fromUtf8Lossy output)
    if output.isEmpty then details
    else
      (if details.isEmpty then details else details ++ "\n") ++
        "---- " ++ label ++ " ----\n" ++ output) details

/-- Verdict for a requested name with no parsed terminal result. -/
def absentNameVerdict (raw : ProcessOutcome) (wholeUnit singleton : Bool)
    (stdout stderr : List UInt8) : TestVerdict × String :=
  match raw with
  | .finished exitCode =>
      if exitCode = 0 then
        if wholeUnit then (.pass, "")
        else
          (.fatal, detailsWithStreams
            "harness exited 0 but emitted no parseable result for this test" stdout stderr)
      else if singleton then
        (.fail, detailsWithStreams
          "test process exited nonzero with no harness-reported result" stdout stderr)
      else (.fatal, detailsWithStreams "test produced no result in batch output" [] [])
  | .timedOut _ => (.timeout, detailsWithStreams "execution timed out" stdout stderr)

/-! ## Requests -/

/-- Drop adjacent repetitions. -/
def dedupAdjacent : List String → List String
  | [] => []
  | [name] => [name]
  | first :: second :: rest =>
      if first = second then dedupAdjacent (second :: rest)
      else first :: dedupAdjacent (second :: rest)

theorem mem_dedup_adjacent {name : String} {names : List String} :
    name ∈ dedupAdjacent names ↔ name ∈ names := by
  fun_induction dedupAdjacent names with
  | case1 => exact Iff.rfl
  | case2 => exact Iff.rfl
  | case3 first rest ih =>
      rw [ih]
      simp
  | case4 first second rest hne ih =>
      rw [List.mem_cons, ih]
      exact List.mem_cons.symm

/-- The display of the tests of an action: a single name, or the modules and the count. -/
def displayTestcases : TestSelection String → List String
  | .all => []
  | .explicit group =>
      if group.length = 1 then group
      else
        let paths := group.map fun t => ((Text.rsplitOnce t "::").map Prod.fst).getD "(root)"
        let modules := dedupAdjacent (paths.insertionSort (· ≤ ·))
        let text :=
          if modules.length ≤ 3 then ", ".intercalate modules
          else ", ".intercalate (modules.take 3) ++ " and " ++
            toString (modules.length - 3) ++ " more"
        [text ++ " (" ++ toString group.length ++ " tests)"]

/-- The names that the command line of a selection carries. -/
def selectedNames : TestSelection String → List String
  | .all => []
  | .explicit names => names

section Requests

variable [External] (ctx : TargetCtx) (plan : TargetPlan)

/-- Whether some requested member must run uncached because it has no history. -/
def hasUnseen (names : List String) : Bool :=
  ctx.config.durationDb.cacheBustsUnseenTests &&
    names.any fun name =>
      ctx.estimates.estimate none (testIdentity plan.spec.display ctx.config name) == .unseen

/-- The caching decision of one call. -/
def groupCaching (names : List String) (attemptIndex : UInt32) : TestExecutionCaching :=
  if hasUnseen ctx plan names then .disabled
  else
    TestExecutionCaching.resolve plan.cacheClass ctx.config.variant.isDefault
      plan.repetition.isStress attemptIndex

/-- The arguments that a selection appends to the target's command. -/
def executionArgsOf (selection : TestSelection String) : List String :=
  plan.translator.executionArgs (selectedNames selection) plan.ignored ctx.config.extraTestArgs

/-- The token of a testing action. -/
def testingToken (selection : TestSelection String) : ResourceMarkerToken :=
  ResourceMarkerToken.fromStableFields "testing"
    (plan.spec.display :: executionArgsOf ctx plan selection)

/-- The request of one call. -/
def testingRequest (selection : TestSelection String) (names : List String) (repeatIndex : Nat)
    (attemptIndex : UInt32) (cgroupMemoryMax : CgroupMemoryMax) : TestingRequest where
  target := plan.spec.handle
  suite := plan.spec.suite
  testcases := displayTestcases selection
  baseCommand := buildCmd plan.spec []
  commands := [⟨0, executionArgsOf ctx plan selection⟩]
  env := buildTestEnv plan.spec ctx.config.extraEnv ctx.config.declaredOutputEnv
  variant := ctx.config.variant.identity
  repeatCount := if plan.repetition.isStress then some repeatIndex else none
  profile := plan.testingProfile ctx.config
  caching := groupCaching ctx plan names attemptIndex
  logicalTimeout := plan.timeout
  cgroupGranularity := ctx.config.cgroupGranularity
  cgroupMemoryMax := cgroupMemoryMax
  resourceMarkerToken := testingToken ctx plan selection

end Requests

/-! ## Classifying a completed action -/

/-- The observations and the action-level memory failure while the markers are read. -/
structure MarkerState where
  observations : Table String PerTestObservation
  actionOom : Option String

section Markers

variable (granularity : CgroupGranularity) (names : List String) (action : CompletedAction)

/-- A failure of the whole action with its measured time. -/
def measuredFailure (status : TestVerdict) (details : String)
    (disposition : GroupFailureDisposition) : FailedGroup where
  status := status
  details := details
  execution := .fromExecKind action.execKind
  duration := .measured action.executionTime
  disposition := disposition

/-- A marker for one logical test: the only member gets its status. -/
def applyLogicalMarker (status : TestVerdict) (index : Nat) (details : String)
    (state : MarkerState) : Except FailedGroup MarkerState :=
  if granularity ≠ .logicalTest || names.length ≠ 1 || index ≠ 0 then
    .error (measuredFailure action .infraFailure
      ("impossible logical resource marker index=" ++ toString index ++ ": " ++ details)
      .incomplete)
  else
    match names[index]? with
    | none =>
        .error (measuredFailure action .infraFailure
          ("resource supervisor reported unknown logical index " ++ toString index) .incomplete)
    | some name =>
        .ok { state with observations := state.observations.insert name ⟨status, details, none⟩ }

/-- What one resource marker does: fail the group, or change the observations. -/
def applyMarker (state : MarkerState) : ResourceFailure → Except FailedGroup MarkerState
  | .logicalTimeout index details =>
      applyLogicalMarker granularity names action .timeout index details state
  | .logicalOom index details =>
      applyLogicalMarker granularity names action .fail index details state
  | .actionTimeout details =>
      if granularity ≠ .action then
        .error (measuredFailure action .infraFailure
          ("impossible action resource marker: " ++ details) .incomplete)
      else .error (measuredFailure action .timeout details .completeActionTimeout)
  | .actionOom details =>
      if granularity ≠ .action then
        .error (measuredFailure action .infraFailure
          ("impossible action resource marker: " ++ details) .incomplete)
      else .ok { state with actionOom := some details }
  | .setup details => .error (measuredFailure action .infraFailure details .incomplete)
  | .malformed details =>
      .error (measuredFailure action .infraFailure ("malformed resource marker: " ++ details)
        .incomplete)

/-- The outcome of a completed action. -/
def classifyCompleted (translator : Translator) (token : ResourceMarkerToken) : GroupOutcome :=
  let start : MarkerState := ⟨translator.parseResults action.stdout action.stderr, none⟩
  match (parseResourceFailures action.stderr token).foldlM
      (applyMarker granularity names action) start with
  | .error failure => .groupFailed failure
  | .ok state =>
      .observed
        { observations := state.observations
          raw := action.status
          stdout := action.stdout
          stderr := action.stderr
          actionOom := state.actionOom
          executionTime := action.executionTime
          maxMemory := action.maxMemoryUsedBytes
          execution := .fromExecKind action.execKind }

end Markers

/-! ## The call loop -/

/-- One group execution: what was asked for, the requests sent, and how it ended. -/
structure GroupRun where
  selection : TestSelection String
  names : List String
  requests : List TestingRequest
  outcome : MayPanic GroupOutcome

/-- The state of the infrastructure retry loop. -/
structure InfraState where
  infraAttempt : Nat
  requests : List TestingRequest

/-- How the infrastructure retry loop ends. -/
structure InfraExit where
  requests : List TestingRequest
  outcome : MayPanic GroupOutcome

section Loop

variable [External] (ctx : TargetCtx) (plan : TargetPlan) (path : List Nat)
  (selection : TestSelection String) (names : List String) (repeatIndex : Nat)
  (executionAttemptIndex : UInt32) (firstCall : Nat)

/-- Classify the answer to a call; `none` is a transient failure. -/
def classifyResponse (token : ResourceMarkerToken) :
    Except String ExecuteResponse2 → Option GroupOutcome
  | .error e => some (.groupFailed (.unmeasured .fatal ("Execute2 RPC failed: " ++ e)))
  | .ok response =>
      match decodeResponse response with
      | .completed action =>
          some (classifyCompleted ctx.config.cgroupGranularity names action plan.translator token)
      | .cancelledQueueTimeout => none
      | .cancelledUnspecified =>
          some (.groupFailed (.unmeasured .omitted "run cancelled"))
      | .malformed reason => some (.groupFailed (.unmeasured .infraFailure reason.detail))

/-- The outcome once the transient failures have used up the budget. -/
def infraExhausted : GroupOutcome :=
  .groupFailed (.unmeasured .infraFailure "RE queue timeout (retries exhausted)")

/-- One pass of the retry loop: build the request, issue it and classify the answer. -/
def infraBody (state : InfraState) : LoopFlow InfraState InfraExit :=
  match ctx.profile.addU32 executionAttemptIndex (.ofNat state.infraAttempt) with
  | .error message => .leave ⟨state.requests, .error message⟩
  | .ok attemptIndex =>
      match cgroupMemoryMaxForAction ctx.config.cgroupMemoryMax
          ctx.config.cgroupMemoryMaxOverrides plan.spec.display names with
      | .error details =>
          .leave ⟨state.requests, .ok (.groupFailed (.unmeasured .fatal details))⟩
      | .ok cgroupMemoryMax =>
          let request :=
            testingRequest ctx plan selection names repeatIndex attemptIndex cgroupMemoryMax
          let requests := state.requests ++ [request]
          match classifyResponse ctx plan names request.resourceMarkerToken
              (ctx.orch.execute2 path (firstCall + state.infraAttempt)) with
          | some outcome => .leave ⟨requests, .ok outcome⟩
          | none =>
              if state.infraAttempt + 1 < infraMaxAttempts then
                .again ⟨state.infraAttempt + 1, requests⟩
              else .leave ⟨requests, .ok infraExhausted⟩

/-- How a pass of the retry loop ends it. -/
inductive InfraLeaves (state : InfraState) : InfraExit → Prop where
  | overflowed {message : String}
      (hindex : ctx.profile.addU32 executionAttemptIndex (.ofNat state.infraAttempt) =
        .error message) :
      InfraLeaves state ⟨state.requests, .error message⟩
  | rejected {details : String}
      (hmax : cgroupMemoryMaxForAction ctx.config.cgroupMemoryMax
        ctx.config.cgroupMemoryMaxOverrides plan.spec.display names = .error details) :
      InfraLeaves state ⟨state.requests, .ok (.groupFailed (.unmeasured .fatal details))⟩
  | answered {index : UInt32} {memoryMax : CgroupMemoryMax} {outcome : GroupOutcome}
      (hindex : ctx.profile.addU32 executionAttemptIndex (.ofNat state.infraAttempt) = .ok index)
      (hmax : cgroupMemoryMaxForAction ctx.config.cgroupMemoryMax
        ctx.config.cgroupMemoryMaxOverrides plan.spec.display names = .ok memoryMax)
      (houtcome : classifyResponse ctx plan names (testingToken ctx plan selection)
          (ctx.orch.execute2 path (firstCall + state.infraAttempt)) = some outcome ∨
        outcome = infraExhausted) :
      InfraLeaves state
        ⟨state.requests ++
          [testingRequest ctx plan selection names repeatIndex index memoryMax], .ok outcome⟩

theorem infra_body_leave {state : InfraState} {exit : InfraExit}
    (h : infraBody ctx plan path selection names repeatIndex executionAttemptIndex firstCall
      state = .leave exit) :
    InfraLeaves ctx plan path selection names repeatIndex executionAttemptIndex firstCall
      state exit := by
  unfold infraBody at h
  split at h
  case h_1 message hindex =>
    cases h
    exact .overflowed hindex
  case h_2 index hindex =>
    split at h
    case h_1 details hmax =>
      cases h
      exact .rejected hmax
    case h_2 memoryMax hmax =>
      dsimp only at h
      split at h
      case h_1 outcome houtcome =>
        cases h
        exact .answered hindex hmax (.inl houtcome)
      case h_2 =>
        split at h
        case isTrue => cases h
        case isFalse =>
          cases h
          exact .answered hindex hmax (.inr rfl)

/-- A pass that goes round again has sent its request and counts one more infrastructure
attempt. -/
theorem infra_body_again {state next : InfraState}
    (h : infraBody ctx plan path selection names repeatIndex executionAttemptIndex firstCall
      state = .again next) :
    state.infraAttempt + 1 < infraMaxAttempts ∧ ∃ index memoryMax,
      ctx.profile.addU32 executionAttemptIndex (.ofNat state.infraAttempt) = .ok index ∧
      cgroupMemoryMaxForAction ctx.config.cgroupMemoryMax ctx.config.cgroupMemoryMaxOverrides
        plan.spec.display names = .ok memoryMax ∧
      next = ⟨state.infraAttempt + 1, state.requests ++
        [testingRequest ctx plan selection names repeatIndex index memoryMax]⟩ := by
  unfold infraBody at h
  split at h
  case h_1 => cases h
  case h_2 index hindex =>
    split at h
    case h_1 => cases h
    case h_2 memoryMax hmax =>
      dsimp only at h
      split at h
      case h_1 => cases h
      case h_2 =>
        split at h
        case isTrue hbudget =>
          cases h
          exact ⟨hbudget, index, memoryMax, hindex, hmax, rfl⟩
        case isFalse => cases h

/-- The infrastructure retry loop. -/
def infraLoop : BoundedLoop InfraState InfraExit where
  body := infraBody ctx plan path selection names repeatIndex executionAttemptIndex firstCall
  measure state := infraMaxAttempts - state.infraAttempt
  decreases h := by
    obtain ⟨hlt, _, _, -, -, rfl⟩ := infra_body_again _ _ _ _ _ _ _ _ h
    dsimp only
    omega

/-- Run one group of tests once, with bounded infrastructure retries. The calls of the task are
numbered from `firstCall`. -/
def runGroup : GroupRun :=
  let exit :=
    (infraLoop ctx plan path selection names repeatIndex executionAttemptIndex firstCall).run
      ⟨0, []⟩
  { selection, names, requests := exit.requests, outcome := exit.outcome }

end Loop

section Answers

variable [External] {ctx : TargetCtx} {plan : TargetPlan} {path : List Nat}
  {selection : TestSelection String} {names : List String} {repeatIndex : Nat}
  {attemptIndex : UInt32} {firstCall : Nat} {memoryMax : CgroupMemoryMax}

/-- One pass of the retry loop in terms of the answer. -/
theorem infra_body_eq {infraAttempt : Nat} {requests : List TestingRequest} {index : UInt32}
    (hindex : ctx.profile.addU32 attemptIndex (.ofNat infraAttempt) = .ok index)
    (hmax : cgroupMemoryMaxForAction ctx.config.cgroupMemoryMax
      ctx.config.cgroupMemoryMaxOverrides plan.spec.display names = .ok memoryMax) :
    let sent := requests ++ [testingRequest ctx plan selection names repeatIndex index memoryMax]
    infraBody ctx plan path selection names repeatIndex attemptIndex firstCall
        ⟨infraAttempt, requests⟩ =
      match classifyResponse ctx plan names (testingToken ctx plan selection)
          (ctx.orch.execute2 path (firstCall + infraAttempt)) with
      | some outcome => .leave ⟨sent, .ok outcome⟩
      | none =>
          if infraAttempt + 1 < infraMaxAttempts then .again ⟨infraAttempt + 1, sent⟩
          else .leave ⟨sent, .ok infraExhausted⟩ := by
  unfold infraBody
  dsimp only
  rw [hindex]
  dsimp only
  rw [hmax]
  rfl

/-- A first call that is classified ends the group execution. -/
theorem run_group_of_answer {outcome : GroupOutcome}
    (hindex : ctx.profile.addU32 attemptIndex 0 = .ok attemptIndex)
    (hmax : cgroupMemoryMaxForAction ctx.config.cgroupMemoryMax
      ctx.config.cgroupMemoryMaxOverrides plan.spec.display names = .ok memoryMax)
    (houtcome : classifyResponse ctx plan names (testingToken ctx plan selection)
      (ctx.orch.execute2 path firstCall) = some outcome) :
    runGroup ctx plan path selection names repeatIndex attemptIndex firstCall =
      { selection, names
        requests := [testingRequest ctx plan selection names repeatIndex attemptIndex memoryMax]
        outcome := .ok outcome } := by
  have hleave : (infraLoop ctx plan path selection names repeatIndex attemptIndex
      firstCall).body ⟨0, []⟩ =
      .leave ⟨[testingRequest ctx plan selection names repeatIndex attemptIndex memoryMax],
        .ok outcome⟩ := by
    refine (infra_body_eq hindex hmax).trans ?_
    rw [Nat.add_zero, houtcome]
    rfl
  unfold runGroup
  rw [BoundedLoop.run_of_leave _ hleave]

/-- A group execution whose memory limit is known sends a request. -/
theorem run_group_sends
    (hmax : cgroupMemoryMaxForAction ctx.config.cgroupMemoryMax
      ctx.config.cgroupMemoryMaxOverrides plan.spec.display names = .ok memoryMax) :
    (runGroup ctx plan path selection names repeatIndex 0 firstCall).requests ≠ [] := by
  refine (infraLoop ctx plan path selection names repeatIndex 0 firstCall).run_invariant
    (fun state => state.infraAttempt = 0 ∨ state.requests ≠ [])
    (fun exit => exit.requests ≠ []) ?_ ?_ ⟨0, []⟩ (.inl rfl)
  · intro state next _ hbody
    obtain ⟨-, _, _, -, -, rfl⟩ := infra_body_again _ _ _ _ _ _ _ _ hbody
    exact .inr (by simp)
  · intro state exit h hbody
    cases infra_body_leave _ _ _ _ _ _ _ _ hbody with
    | overflowed hindex =>
        rcases h with hzero | hsent
        · rw [hzero, show ctx.profile.addU32 0 (.ofNat 0) = .ok 0 from
            BuildProfile.add_u32_of_lt _ (by decide)] at hindex
          cases hindex
        · exact hsent
    | rejected hrejected =>
        rw [hmax] at hrejected
        cases hrejected
    | answered => simp

/-- Three queue timeouts use up the infrastructure retries. -/
theorem run_group_of_queue_timeouts {second third : UInt32}
    (hfirst : ctx.profile.addU32 attemptIndex 0 = .ok attemptIndex)
    (hsecond : ctx.profile.addU32 attemptIndex 1 = .ok second)
    (hthird : ctx.profile.addU32 attemptIndex 2 = .ok third)
    (hmax : cgroupMemoryMaxForAction ctx.config.cgroupMemoryMax
      ctx.config.cgroupMemoryMaxOverrides plan.spec.display names = .ok memoryMax)
    (hqueued : ∀ call, firstCall ≤ call → classifyResponse ctx plan names
      (testingToken ctx plan selection) (ctx.orch.execute2 path call) = none) :
    runGroup ctx plan path selection names repeatIndex attemptIndex firstCall =
      { selection, names
        requests := [attemptIndex, second, third].map fun index =>
          testingRequest ctx plan selection names repeatIndex index memoryMax
        outcome := .ok infraExhausted } := by
  let loop := infraLoop ctx plan path selection names repeatIndex attemptIndex firstCall
  let request := fun index =>
    testingRequest ctx plan selection names repeatIndex index memoryMax
  have hagain₁ : loop.body ⟨0, []⟩ = .again ⟨1, [request attemptIndex]⟩ := by
    refine (infra_body_eq hfirst hmax).trans ?_
    rw [hqueued _ (Nat.le_add_right _ _)]
    rfl
  have hagain₂ : loop.body ⟨1, [request attemptIndex]⟩ =
      .again ⟨2, [request attemptIndex, request second]⟩ := by
    refine (infra_body_eq hsecond hmax).trans ?_
    rw [hqueued _ (Nat.le_add_right _ _)]
    rfl
  have hleave : loop.body ⟨2, [request attemptIndex, request second]⟩ =
      .leave ⟨[request attemptIndex, request second, request third], .ok infraExhausted⟩ := by
    refine (infra_body_eq hthird hmax).trans ?_
    rw [hqueued _ (Nat.le_add_right _ _)]
    rfl
  unfold runGroup
  rw [show (infraLoop ctx plan path selection names repeatIndex attemptIndex firstCall).run
    ⟨0, []⟩ = _ from (loop.run_of_again hagain₁).trans ((loop.run_of_again hagain₂).trans
      (loop.run_of_leave hleave))]
  rfl

end Answers

end Quokka
