import Quokka.Scheduler.Reporter

/-!
# Listing and specification failures fail closed

A target is accepted if its specification parses, its test type is known, its listing succeeds
and its memory overrides pass validation. Every target that is not accepted sends the reporter
a message that fails the run, whatever its labels, and executes nothing.

`run_listing_spec` says how the listing loop ends, and `listing_stage_eq_ok` that the listing
stage has tests exactly when `ListingSucceeds`.
-/

namespace Quokka

/-- A message that turns the verdict of the run. -/
def ReporterMessage.FailsRun : ReporterMessage → Prop
  | .finished batch => ∃ finished ∈ batch, finished.disposition = .failure
  | .discovered _ => False
  | .targetDropped _ => True

section Listing

variable [External] (ctx : TargetCtx) (plan : TargetPlan)

/-- The `k`-th listing call ended with a queue timeout. -/
def ListingTimesOut (k : Nat) : Prop :=
  ∃ response, ctx.orch.execute2 [] k = .ok response ∧
    decodeResponse response = .cancelledQueueTimeout

/-- How the listing loop ends: at a call below the budget, after queue timeouts only, and on a
queue timeout only when the budget is used up. -/
theorem run_listing_spec (listingArgs : List String) :
    ∃ k, k < infraMaxAttempts ∧ (∀ i < k, ListingTimesOut ctx i) ∧
      (runListing ctx plan listingArgs).requests =
        List.replicate (k + 1) (listingRequest ctx plan listingArgs) ∧
      (runListing ctx plan listingArgs).outcome =
        (ctx.orch.execute2 [] k).map decodeResponse ∧
      (ListingTimesOut ctx k → k + 1 = infraMaxAttempts) := by
  have hrun := (listingLoop ctx plan listingArgs).run_induction
    (P := fun state exit => state.1 < infraMaxAttempts →
      ∃ k, state.1 ≤ k ∧ k < infraMaxAttempts ∧
        (∀ i, state.1 ≤ i → i < k → ListingTimesOut ctx i) ∧
        exit.requests = state.2 ++
          List.replicate (k + 1 - state.1) (listingRequest ctx plan listingArgs) ∧
        exit.outcome = (ctx.orch.execute2 [] k).map decodeResponse ∧
        (ListingTimesOut ctx k → k + 1 = infraMaxAttempts))
    ?leave ?again (0, []) (by decide)
  case leave =>
    intro state exit hbody hlt
    refine ⟨state.1, Nat.le_refl _, hlt, fun i h1 h2 => absurd h2 (Nat.not_lt.mpr h1), ?_⟩
    obtain ⟨hrequests, houtcome, hspent⟩ := listing_body_leave ctx plan listingArgs hbody
    have hone : state.1 + 1 - state.1 = 1 := by omega
    refine ⟨by rw [hrequests, hone]; rfl, houtcome, fun htimeout => ?_⟩
    have hlast := hspent htimeout
    omega
  case again =>
    intro state next exit hbody hrest _
    obtain ⟨hbudget, htimeout, rfl⟩ := listing_body_again ctx plan listingArgs hbody
    obtain ⟨k, hle, hlt, htimeouts, hrequests, houtcome, hlast⟩ := hrest hbudget
    refine ⟨k, by dsimp only at hle; omega, hlt, ?_, ?_, houtcome, hlast⟩
    · intro i hi hik
      rcases Nat.eq_or_lt_of_le hi with rfl | hgt
      · exact htimeout
      · exact htimeouts i hgt hik
    · have hsplit : k + 1 - state.1 = (k + 1 - (state.1 + 1)) + 1 := by
        dsimp only at hle; omega
      rw [hrequests, hsplit, List.replicate_succ]
      simp
  obtain ⟨k, -, hlt, htimeouts, hrequests, houtcome, hlast⟩ := hrun
  refine ⟨k, hlt, fun i hi => htimeouts i (Nat.zero_le i) hi, ?_, houtcome, hlast⟩
  rw [runListing, hrequests, List.nil_append, Nat.sub_zero]

/-- The listing finally completes: after fewer than three queue timeouts a call ends with exit
code 0, no resource marker and a parseable output. A target without listing has its synthetic
test. -/
def ListingSucceeds (tests : List TestCase) : Prop :=
  match plan.translator.listingStrategy with
  | .perTestListing requestArgs parse =>
      let token := listingToken plan (requestArgs plan.ignored ctx.config.extraTestArgs)
      ∃ k < infraMaxAttempts, (∀ i < k, ListingTimesOut ctx i) ∧
        ∃ response action, ctx.orch.execute2 [] k = .ok response ∧
          decodeResponse response = .completed action ∧ action.status = .finished 0 ∧
          parseResourceFailures action.stderr token = [] ∧
          parse action.stdout plan.ignored = .ok tests
  | .wholeTarget name => tests = [syntheticTest name]
  | .wholeBinary name => tests = [syntheticTest name]

omit [External] in
/-- A completed listing has tests exactly when it ended cleanly and its output parses. -/
theorem completed_listing_eq_ok {granularity : CgroupGranularity} {ignored : IgnoredPolicy}
    {parse : List UInt8 → IgnoredPolicy → Except ListingParseError (List TestCase)}
    {token : ResourceMarkerToken} {action : CompletedAction} {tests : List TestCase} :
    completedListing granularity ignored parse token action = .ok tests ↔
      action.status = .finished 0 ∧ parseResourceFailures action.stderr token = [] ∧
        parse action.stdout ignored = .ok tests := by
  unfold completedListing
  cases hmarkers : parseResourceFailures action.stderr token with
  | cons failure rest => simp
  | nil =>
      cases hstatus : action.status with
      | timedOut after => simp
      | finished exitCode =>
          by_cases hzero : exitCode = 0
          · cases hparse : parse action.stdout ignored <;> simp [hzero]
          · simp [hzero]

/-- The listing stage has tests exactly when the listing succeeds. -/
theorem listing_stage_eq_ok {tests : List TestCase} :
    (listingStage ctx plan).tests = .ok tests ↔ ListingSucceeds ctx plan tests := by
  unfold listingStage ListingSucceeds
  cases plan.translator.listingStrategy with
  | wholeTarget name => simp [eq_comm]
  | wholeBinary name => simp [eq_comm]
  | perTestListing requestArgs parse =>
      obtain ⟨k, hlt, htimeouts, -, houtcome, hlast⟩ :=
        run_listing_spec ctx plan (requestArgs plan.ignored ctx.config.extraTestArgs)
      dsimp only
      rw [houtcome]
      constructor
      · intro htests
        cases hresponse : ctx.orch.execute2 [] k with
        | error e => rw [hresponse] at htests; cases htests
        | ok response =>
            rw [hresponse] at htests
            cases hdecoded : decodeResponse response with
            | completed action =>
                have hlisted : completedListing ctx.config.cgroupGranularity plan.ignored parse
                    (listingToken plan (requestArgs plan.ignored ctx.config.extraTestArgs))
                    action = .ok tests := by
                  simpa [Except.map, hdecoded, listedTests] using htests
                obtain ⟨hstatus, hmarkers, hparse⟩ := completed_listing_eq_ok.mp hlisted
                exact ⟨k, hlt, htimeouts, response, action, hresponse, hdecoded, hstatus,
                  hmarkers, hparse⟩
            | cancelledQueueTimeout => simp [Except.map, hdecoded, listedTests] at htests
            | cancelledUnspecified => simp [Except.map, hdecoded, listedTests] at htests
            | malformed reason => simp [Except.map, hdecoded, listedTests] at htests
      · rintro ⟨j, hj, htimeouts', response, action, hresponse, hdecoded, hstatus, hmarkers,
          hparse⟩
        have hnot : ¬ListingTimesOut ctx j := by
          rintro ⟨other, hother, hqueue⟩
          rw [hresponse] at hother
          cases hother
          rw [hdecoded] at hqueue
          cases hqueue
        -- Both are the first call that does not time out.
        have hjk : j = k := by
          rcases Nat.lt_trichotomy j k with hless | heq | hmore
          · exact absurd (htimeouts j hless) hnot
          · exact heq
          · have := hlast (htimeouts' k hmore)
            omega
        subst hjk
        have hlisted : completedListing ctx.config.cgroupGranularity plan.ignored parse
            (listingToken plan (requestArgs plan.ignored ctx.config.extraTestArgs))
            action = .ok tests :=
          completed_listing_eq_ok.mpr ⟨hstatus, hmarkers, hparse⟩
        simpa [hresponse, Except.map, hdecoded, listedTests] using hlisted

/-- A listing takes at most three calls. -/
theorem listing_stage_requests_le : (listingStage ctx plan).requests.length ≤ 3 := by
  unfold listingStage
  cases plan.translator.listingStrategy with
  | wholeTarget name => simp
  | wholeBinary name => simp
  | perTestListing requestArgs parse =>
      obtain ⟨k, hlt, -, hrequests, -⟩ :=
        run_listing_spec ctx plan (requestArgs plan.ignored ctx.config.extraTestArgs)
      simp only [hrequests, List.length_replicate]
      exact hlt

end Listing

section Targets

variable [External] (ctx : TargetCtx)

/-- Every target's listing takes at most three calls. -/
theorem run_target_listing_requests_le (specProto : ExternalRunnerSpec) :
    (runTarget ctx specProto).listingRequests.length ≤ 3 := by
  unfold runTarget
  dsimp only
  split
  · exact Nat.zero_le 3
  split
  · exact Nat.zero_le 3
  split
  all_goals exact listing_stage_requests_le ctx _

/-- The specification parses, the test type is known, the listing succeeds and the memory
overrides pass validation. -/
def Accepted (specProto : ExternalRunnerSpec) : Prop :=
  ∃ spec plan tests, TargetSpec.fromProto specProto = .ok spec ∧
    TargetPlan.derive spec ctx.config = .ok plan ∧ ListingSucceeds ctx plan tests ∧
    validateCgroupMemoryOverrides plan ctx.config tests = .ok ()

/-- What a target does that is not accepted: it reports one failure. -/
inductive Rejection (run : TargetRun) : Prop where
  | dropped (reason : String) (h : run = { messages := [.targetDropped reason] })
  | failed (spec : TargetSpec) (quarantined : Bool) (repetition : RepeatKind)
      (failure : TargetFailure) (requests : List ExecuteRequest2)
      (h : run = { reportTargetFailureForSpec ctx spec quarantined repetition failure with
        listingRequests := requests })

/-- A target that is not accepted reports one failure and does nothing after it. -/
theorem rejection_of_not_accepted {specProto : ExternalRunnerSpec}
    (h : ¬Accepted ctx specProto) : Rejection ctx (runTarget ctx specProto) := by
  cases hspec : TargetSpec.fromProto specProto with
  | error e => exact .dropped _ (by simp only [runTarget, hspec]; rfl)
  | ok spec =>
      cases hplan : TargetPlan.derive spec ctx.config with
      | error reason =>
          exact .failed spec false .once ⟨.fatal, reason⟩ []
            (by simp only [runTarget, hspec, hplan]; rfl)
      | ok plan =>
          cases htests : (listingStage ctx plan).tests with
          | error failure =>
              exact .failed plan.spec plan.quarantined plan.repetition failure
                (listingStage ctx plan).requests
                (by simp only [runTarget, hspec, hplan, runPerTestTarget, htests]; rfl)
          | ok tests =>
              cases hvalid : validateCgroupMemoryOverrides plan ctx.config tests with
              | error details =>
                  exact .failed plan.spec plan.quarantined plan.repetition ⟨.fatal, details⟩
                    (listingStage ctx plan).requests
                    (by
                      simp only [runTarget, hspec, hplan, runPerTestTarget, htests,
                        afterListing, hvalid]
                      rfl)
              | ok _ =>
                  exact absurd ⟨spec, plan, tests, hspec, hplan,
                    (listing_stage_eq_ok ctx plan).mp htests, hvalid⟩ h

/-- A target that is not accepted fails the run, whatever its labels, executes no test and lists
at most three times. -/
theorem rejected_target_fails_closed (specProto : ExternalRunnerSpec)
    (h : ¬Accepted ctx specProto) :
    (∃ message ∈ (runTarget ctx specProto).messages, message.FailsRun) ∧
      (runTarget ctx specProto).actions = [] ∧
      (runTarget ctx specProto).listingRequests.length ≤ 3 := by
  have hcalls := run_target_listing_requests_le ctx specProto
  cases rejection_of_not_accepted ctx h with
  | dropped reason hrun =>
      rw [hrun] at hcalls ⊢
      exact ⟨⟨_, List.mem_singleton_self _, trivial⟩, rfl, hcalls⟩
  | failed spec quarantined repetition failure requests hrun =>
      rw [hrun] at hcalls ⊢
      -- The result misses its terminal result, so status and quarantine do not matter.
      exact ⟨⟨_, List.mem_singleton_self _, _, List.mem_singleton_self _, rfl⟩, rfl, hcalls⟩

end Targets

/-- An orchestrator that cancels every action without a reason. -/
def cancelEverything : Orchestrator where
  execute2 _ _ := .ok ⟨some (.cancelled none)⟩
  upload _ _ := .skipped ""

/-- A quarantined target whose listing is cancelled fails the run. -/
theorem cancelled_listing_of_quarantined_target_fails_closed :
    letI := External.inert
    let run := runTarget (TargetCtx.withoutFlags cancelEverything)
      (.plain "rust" ["rust:quarantined"])
    (∃ message ∈ run.messages, message.FailsRun) ∧ run.actions = [] ∧
      run.listingRequests.length ≤ 3 := by
  let := External.inert
  refine rejected_target_fails_closed _ _ ?_
  rintro ⟨spec, plan, tests, hspec, hplan, hlisting, -⟩
  rw [from_proto_plain] at hspec
  cases hspec
  cases hplan
  have htests := (listing_stage_eq_ok _ _).mpr hlisting
  cases htests

end Quokka
