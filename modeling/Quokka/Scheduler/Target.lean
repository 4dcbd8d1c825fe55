import Quokka.Library.KeyedUpdate
import Quokka.Scheduler.Action

/-!
# Running one target

From the received specification to the messages for the reporter, after `run_target` and
`run_per_test_target` of `scheduler.rs`: the listing with its bounded retries, its many failure
exits, the shard and batch stages and the test actions.

`runTarget` returns everything the target sends and issues. The action tasks run concurrently,
so the order of the messages they send is one of many.
-/

namespace Quokka

/-- A message to the reporter. -/
inductive ReporterMessage where
  | finished (batch : List FinishedTest)
  | discovered (tests : List TestIdentity)
  | targetDropped (reason : String)

/-- A failure of the target as a whole. -/
structure TargetFailure where
  status : TestVerdict
  details : String
  deriving DecidableEq

/-- One spawned test action. -/
structure ActionTask where
  selection : TestSelection String
  expectedMembers : List String
  repeatIndex : Nat
  run : ActionRun

/-- Everything a target does: its messages, the test names it reports as discovered, its listing
requests and its test actions. A panic stops it with a message. -/
structure TargetRun where
  messages : List ReporterMessage := []
  discovered : List (List String) := []
  listingRequests : List ExecuteRequest2 := []
  actions : List ActionTask := []
  panicked : Option String := none

/-! ## Listing -/

/-- The answer to a listing and the requests it took. -/
structure ListingExit where
  requests : List ExecuteRequest2
  outcome : Except String Execute2Outcome

section Listing

variable [External] (ctx : TargetCtx) (plan : TargetPlan) (listingArgs : List String)

/-- The token of the listing action. -/
def listingToken : ResourceMarkerToken :=
  ResourceMarkerToken.fromStableFields "listing" (plan.spec.display :: listingArgs)

/-- The listing request; every attempt sends the same one. -/
def listingRequest : ExecuteRequest2 :=
  buildListingRequest plan.spec listingArgs (plan.listingProfile ctx.config)
    ctx.config.listingTimeout ctx.config.cgroupGranularity ctx.config.cgroupMemoryMax
    (listingToken plan listingArgs) ctx.config.extraEnv

/-- One pass of the listing loop. -/
def listingBody (state : Nat × List ExecuteRequest2) :
    LoopFlow (Nat × List ExecuteRequest2) ListingExit :=
  let (infraAttempt, requests) := state
  let requests := requests ++ [listingRequest ctx plan listingArgs]
  match ctx.orch.execute2 [] infraAttempt with
  | .error e => .leave ⟨requests, .error e⟩
  | .ok response =>
      match decodeResponse response with
      | .cancelledQueueTimeout =>
          if infraAttempt + 1 < infraMaxAttempts then .again (infraAttempt + 1, requests)
          else .leave ⟨requests, .ok .cancelledQueueTimeout⟩
      | outcome => .leave ⟨requests, .ok outcome⟩

/-- A pass that goes round again follows a queue timeout within the budget. -/
theorem listing_body_again {state next : Nat × List ExecuteRequest2}
    (h : listingBody ctx plan listingArgs state = .again next) :
    state.1 + 1 < infraMaxAttempts ∧
      (∃ response, ctx.orch.execute2 [] state.1 = .ok response ∧
        decodeResponse response = .cancelledQueueTimeout) ∧
      next = (state.1 + 1, state.2 ++ [listingRequest ctx plan listingArgs]) := by
  unfold listingBody at h
  dsimp only at h
  split at h
  · cases h
  case h_2 response hresponse =>
    split at h
    case h_1 hqueue =>
      split at h
      case isTrue hbudget =>
        cases h
        exact ⟨hbudget, ⟨response, hresponse, hqueue⟩, rfl⟩
      case isFalse => cases h
    case h_2 => cases h

/-- A pass that ends the listing reports its own answer; after a queue timeout the budget is
spent. -/
theorem listing_body_leave {state : Nat × List ExecuteRequest2} {exit : ListingExit}
    (h : listingBody ctx plan listingArgs state = .leave exit) :
    exit.requests = state.2 ++ [listingRequest ctx plan listingArgs] ∧
      exit.outcome = (ctx.orch.execute2 [] state.1).map decodeResponse ∧
      ((∃ response, ctx.orch.execute2 [] state.1 = .ok response ∧
        decodeResponse response = .cancelledQueueTimeout) → infraMaxAttempts ≤ state.1 + 1) := by
  unfold listingBody at h
  dsimp only at h
  split at h
  case h_1 e he =>
    cases h
    refine ⟨rfl, by rw [he]; rfl, ?_⟩
    rintro ⟨response, hresponse, -⟩
    rw [he] at hresponse
    cases hresponse
  case h_2 response hresponse =>
    split at h
    case h_1 hqueue =>
      split at h
      case isTrue => cases h
      case isFalse hspent =>
        cases h
        refine ⟨rfl, by rw [hresponse]; exact congrArg Except.ok hqueue.symm, fun _ => ?_⟩
        omega
    case h_2 hother =>
      cases h
      refine ⟨rfl, by rw [hresponse]; rfl, ?_⟩
      rintro ⟨other, hsame, hqueue⟩
      rw [hresponse] at hsame
      cases hsame
      exact absurd hqueue hother

/-- The listing loop. -/
def listingLoop : BoundedLoop (Nat × List ExecuteRequest2) ListingExit where
  body := listingBody ctx plan listingArgs
  measure state := infraMaxAttempts - state.1
  decreases h := by
    obtain ⟨hlt, _, rfl⟩ := listing_body_again _ _ _ h
    dsimp only
    omega

/-- List the target. -/
def runListing : ListingExit :=
  (listingLoop ctx plan listingArgs).run (0, [])

end Listing

/-- What a resource marker in the output of a listing means. -/
def listingResourceFailure (granularity : CgroupGranularity) : ResourceFailure → TargetFailure
  | .logicalTimeout index details =>
      if granularity = .logicalTest && index = 0 then ⟨.timeout, details⟩ else impossible details
  | .logicalOom index details =>
      if granularity = .logicalTest && index = 0 then ⟨.fail, details⟩ else impossible details
  | .actionOom details =>
      if granularity = .action then ⟨.fail, details⟩ else impossible details
  | .actionTimeout details =>
      if granularity = .action then ⟨.timeout, details⟩ else impossible details
  | .setup details => ⟨.infraFailure, details⟩
  | .malformed details => ⟨.infraFailure, "malformed resource marker: " ++ details⟩
where
  impossible (details : String) : TargetFailure :=
    ⟨.infraFailure, "impossible resource marker: " ++ details⟩

/-- The tests of a completed listing action. -/
def completedListing (granularity : CgroupGranularity) (ignored : IgnoredPolicy)
    (parse : List UInt8 → IgnoredPolicy → Except ListingParseError (List TestCase))
    (token : ResourceMarkerToken) (action : CompletedAction) :
    Except TargetFailure (List TestCase) :=
  match (parseResourceFailures action.stderr token).head? with
  | some failure => .error (listingResourceFailure granularity failure)
  | none =>
      match action.status with
      | .finished exitCode =>
          if exitCode = 0 then
            match parse action.stdout ignored with
            | .ok tests => .ok tests
            | .error e => .error ⟨.fatal, "listing parse failed: " ++ e.message⟩
          else
            .error ⟨.fatal, "listing exited " ++ toString exitCode ++ "\n" ++
              Text.fromUtf8Lossy action.stderr⟩
      | .timedOut _ => .error ⟨.timeout, "listing timed out"⟩

/-- The tests of a listing, or why there are none. -/
def listedTests (granularity : CgroupGranularity) (ignored : IgnoredPolicy)
    (parse : List UInt8 → IgnoredPolicy → Except ListingParseError (List TestCase))
    (token : ResourceMarkerToken) :
    Except String Execute2Outcome → Except TargetFailure (List TestCase)
  | .ok (.completed action) => completedListing granularity ignored parse token action
  | .ok .cancelledQueueTimeout =>
      .error ⟨.infraFailure, "listing RE queue timeout (retries exhausted)"⟩
  | .ok .cancelledUnspecified => .error ⟨.omitted, "listing cancelled"⟩
  | .ok (.malformed reason) => .error ⟨.infraFailure, "listing failed: " ++ reason.detail⟩
  | .error e => .error ⟨.fatal, "listing RPC failed: " ++ e⟩

/-- The requests of the listing stage and its tests. -/
structure ListingStage where
  requests : List ExecuteRequest2
  tests : Except TargetFailure (List TestCase)

/-- The synthetic test of a target that is not listed. -/
def syntheticTest (name : String) : TestCase :=
  { name, kind := .test, ignored := false }

section Target

variable [External] (ctx : TargetCtx)

/-- The listing stage of a target. -/
def listingStage (plan : TargetPlan) : ListingStage :=
  match plan.translator.listingStrategy with
  | .perTestListing requestArgs parse =>
      let listingArgs := requestArgs plan.ignored ctx.config.extraTestArgs
      let exit := runListing ctx plan listingArgs
      { requests := exit.requests
        tests := listedTests ctx.config.cgroupGranularity plan.ignored parse
          (listingToken plan listingArgs) exit.outcome }
  | .wholeTarget name => { requests := [], tests := .ok [syntheticTest name] }
  | .wholeBinary name => { requests := [], tests := .ok [syntheticTest name] }

/-- The name under which a failing target is discovered. -/
def targetFailureName (spec : TargetSpec) : String :=
  spec.suite ++ " (listing)"

/-- The finished test that stands for a failing target. -/
def targetFailureTest (spec : TargetSpec) (quarantined : Bool) (repetition : RepeatKind)
    (failure : TargetFailure) : FinishedTest :=
  let details :=
    finalizeDetails ctx.config.casInlineLimit (ctx.orch.upload [] 0) failure.status
      failure.details
  let testId := testIdentity spec.display ctx.config spec.display
  let runId : RunIdentity := ⟨testId, repetition, 0⟩
  { result := buildTestResult runId spec.handle failure.status none details none
    consoleName := consoleTestName runId
    runId
    testId
    status := failure.status
    integrity := .missingTerminalResult
    quarantined
    labels := spec.labels
    dbObservations := []
    attemptHistory := [] }

/-- What is done to report a failing target. -/
def reportTargetFailureForSpec (spec : TargetSpec) (quarantined : Bool)
    (repetition : RepeatKind) (failure : TargetFailure) : TargetRun where
  messages := [.finished [targetFailureTest ctx spec quarantined repetition failure]]
  discovered := [[targetFailureName spec]]

/-- The same for a target with a plan. -/
def reportTargetFailure (plan : TargetPlan) (failure : TargetFailure) : TargetRun :=
  reportTargetFailureForSpec ctx plan.spec plan.quarantined plan.repetition failure

/-- Report a failure after what was done before a panic. -/
def TargetRun.thenReport (run failure : TargetRun) : TargetRun :=
  { run with
    messages := run.messages ++ failure.messages
    discovered := run.discovered ++ failure.discovered
    panicked := none }

/-- The members that an action is expected to report. -/
def expectedMembers (kept : List TestCase) : TestSelection String → List String
  | .all => kept.map TestCase.name
  | .explicit group => group

/-- The tasks of the batches: one for each repeat index. -/
def actionTasks (plan : TargetPlan) (kept : List TestCase)
    (batches : List (TestSelection String)) : List ActionTask :=
  batches.zipIdx.flatMap fun (batch, batchIndex) =>
    (List.range plan.repetition.count).map fun repeatIndex =>
      let members := expectedMembers kept batch
      { selection := batch
        expectedMembers := members
        repeatIndex
        run := executeTestAction ctx plan [batchIndex, repeatIndex] batch members repeatIndex 0
          MemberTables.empty }

/-- The message of a task that did not panic. -/
def ActionTask.message (task : ActionTask) : Option ReporterMessage :=
  task.run.finished.toOption.map ReporterMessage.finished

/-- Whether a task panicked. -/
def ActionTask.panicked (task : ActionTask) : Bool :=
  task.run.finished.toOption.isNone

/-- Run the batches. -/
def runBatches (plan : TargetPlan) (kept : List TestCase)
    (batches : List (TestSelection String)) : TargetRun :=
  let tasks := actionTasks ctx plan kept batches
  let run : TargetRun := { messages := tasks.filterMap ActionTask.message, actions := tasks }
  if tasks.any ActionTask.panicked then
    run.thenReport (reportTargetFailure ctx plan ⟨.fatal, "a test action task panicked"⟩)
  else run

/-- The message that carries the discovered tests. -/
def discoveryMessage (plan : TargetPlan) (tests : List TestCase) : ReporterMessage :=
  .discovered (tests.map fun t => testIdentity plan.spec.display ctx.config t.name)

/-- Batch and execute the tests of this shard. -/
def runKept (plan : TargetPlan) (kept : List TestCase) : TargetRun :=
  match buildBatches plan.spec.display kept ctx.config ctx.estimates ctx.profile
      plan.translator.parserCapability plan.batchMode with
  | .error message => { panicked := some message }
  | .ok batches => runBatches ctx plan kept batches

/-- Shard the listed tests, report the discovery and execute them. -/
def runListed (plan : TargetPlan) (tests : List TestCase) : TargetRun :=
  let kept := shardFilter plan.spec.display tests ctx.config
  if kept.isEmpty then { discovered := [[]] }
  else
    let run := if ctx.config.libtestListOnly then {} else runKept ctx plan kept
    { run with
      messages := discoveryMessage ctx plan tests :: run.messages
      discovered := kept.map TestCase.name :: run.discovered }

/-- What follows the listing stage. -/
def afterListing (plan : TargetPlan) : Except TargetFailure (List TestCase) → TargetRun
  | .error failure => reportTargetFailure ctx plan failure
  | .ok tests =>
      match validateCgroupMemoryOverrides plan ctx.config tests with
      | .error details => reportTargetFailure ctx plan ⟨.fatal, details⟩
      | .ok () => runListed ctx plan tests

/-- Run a target that has a plan. -/
def runPerTestTarget (plan : TargetPlan) : TargetRun :=
  let stage := listingStage ctx plan
  { afterListing ctx plan stage.tests with listingRequests := stage.requests }

/-- The display of a specification that has a target and a handle. -/
def validSpecTargetDisplay (spec : ExternalRunnerSpec) : Option String := do
  let target ← spec.target
  let _ ← target.handle
  pure target.display

omit [External] in
/-- A specification that parses has a target and a handle. -/
theorem display_of_from_proto {specProto : ExternalRunnerSpec} {spec : TargetSpec}
    (h : TargetSpec.fromProto specProto = .ok spec) :
    validSpecTargetDisplay specProto = some spec.display := by
  unfold TargetSpec.fromProto at h
  unfold validSpecTargetDisplay
  cases htarget : specProto.target with
  | none => rw [htarget] at h; cases h
  | some target =>
      cases hhandle : target.handle with
      | none => simp only [htarget, hhandle] at h; cases h
      | some handle =>
          simp only [htarget, hhandle] at h
          obtain ⟨env, -, hrest⟩ := Except.bind_eq_ok.mp h
          obtain ⟨command, -, hspec⟩ := Except.bind_eq_ok.mp hrest
          cases hspec
          simp [hhandle]

/-- Run a target from its received specification. A panic is caught and reported. -/
def runTarget (specProto : ExternalRunnerSpec) : TargetRun :=
  let targetDisplay := (validSpecTargetDisplay specProto).getD "<unknown target>"
  match TargetSpec.fromProto specProto with
  | .error e =>
      { messages := [.targetDropped
          ("dropping malformed spec for " ++ targetDisplay ++ ": " ++ e.message)] }
  | .ok spec =>
      match TargetPlan.derive spec ctx.config with
      | .error reason => reportTargetFailureForSpec ctx spec false .once ⟨.fatal, reason⟩
      | .ok plan =>
          let run := runPerTestTarget ctx plan
          match run.panicked with
          | none => run
          | some message =>
              run.thenReport
                (reportTargetFailureForSpec ctx spec false plan.repetition
                  ⟨.fatal, "target " ++ spec.display ++ " panicked: " ++ message⟩)

end Target

end Quokka
