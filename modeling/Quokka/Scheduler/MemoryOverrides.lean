import Quokka.Library.KeyedUpdate
import Quokka.Scheduler.Conservation
import Quokka.Scheduler.RunVerdict

/-!
# Memory overrides are exact

Every request for a test with a memory override is for that test alone and carries the limit of
the override, every other one carries the default limit, and an override that cannot be applied
fails the run.

The command line rejects two overrides of one test (`distinct_of_resolved`), validation accepts
overrides only for `rust:big` targets, and such a target runs its tests singly
(`big_task_names`), also when it retries them. `memory_overrides_are_exact` is the result.
-/

namespace Quokka

/-- The overrides of an accepted command line name different tests. -/
theorem distinct_of_resolved {raw : List String} {overrides : List CgroupMemoryMaxOverride}
    (h : resolveOverrides raw = .ok overrides) : DistinctOverrides overrides := by
  have hstep : ∀ (flags : List String) (resolved : List CgroupMemoryMaxOverride),
      DistinctOverrides resolved → flags.foldlM resolveOverride resolved = .ok overrides →
        DistinctOverrides overrides := by
    intro flags
    induction flags with
    | nil => intro resolved hresolved hdone; cases hdone; exact hresolved
    | cons flag flags ih =>
        intro resolved hresolved hrest
        obtain ⟨next, hnext, hflags⟩ := Except.foldlM_cons_eq_ok.mp hrest
        refine ih next ?_ hflags
        unfold resolveOverride at hnext
        split at hnext
        · cases hnext
        case h_2 parsed _ =>
          split at hnext
          · cases hnext
          case isFalse hfresh =>
            cases hnext
            unfold DistinctOverrides at hresolved ⊢
            rw [List.map_append, List.map_singleton, List.nodup_append_comm, List.singleton_append,
              List.nodup_cons]
            refine ⟨fun hmem => ?_, hresolved⟩
            obtain ⟨existing, hexisting, hkey⟩ := List.mem_map.mp hmem
            rw [Prod.mk.injEq] at hkey
            exact hfresh (List.any_eq_true.mpr ⟨existing, hexisting, by simp [hkey]⟩)
  exact hstep raw [] List.nodup_nil h

/-! ## The requests of a target -/

section Requests

variable [External] (ctx : TargetCtx)

/-- A group execution of a `rust:big` target asks for one test. -/
theorem big_task_names {plan : TargetPlan} {kept : List TestCase}
    {batches : List (TestSelection String)} {task : ActionTask} {run : GroupRun}
    (hplan : TargetPlan.derive plan.spec ctx.config = .ok plan)
    (hbig : plan.spec.labels.contains "rust:big" = true)
    (hbatches : buildBatches plan.spec.display kept ctx.config ctx.estimates ctx.profile
      plan.translator.parserCapability plan.batchMode = .ok batches)
    (htask : task ∈ actionTasks ctx plan kept batches) (hrun : run ∈ task.run.runs) :
    ∃ name, run.names = [name] ∧ run.selection = .explicit [name] := by
  have hmode := big_batch_mode hplan hbig plan.translator.parserCapability
  exact per_test_task_names ctx hmode hbatches htask hrun

/-- The memory limits of a group execution: a test with an override is executed alone under the
limit of the override, and other tests are executed under the default limit. -/
structure LimitsExact (config : RunnerConfig) (target : String) (run : GroupRun) : Prop where
  known : ∃ memoryMax, cgroupMemoryMaxForAction config.cgroupMemoryMax
    config.cgroupMemoryMaxOverrides target run.names = .ok memoryMax
  overridden : ∀ candidate ∈ config.cgroupMemoryMaxOverrides, candidate.target = target →
    candidate.test ∈ run.names →
      run.names = [candidate.test] ∧ run.selection = .explicit [candidate.test] ∧
        ∀ request ∈ run.requests, request.cgroupMemoryMax = candidate.memoryMax
  default : (∀ candidate ∈ config.cgroupMemoryMaxOverrides, candidate.target = target →
    candidate.test ∉ run.names) →
      ∀ request ∈ run.requests, request.cgroupMemoryMax = config.cgroupMemoryMax

/-- The requests of a group execution carry the limit that its names look up. -/
theorem request_limit {plan : TargetPlan} {run : GroupRun} {memoryMax : CgroupMemoryMax}
    (hrun : ∃ path repeatIndex attemptIndex firstCall, run =
      runGroup ctx plan path run.selection run.names repeatIndex attemptIndex firstCall)
    (hmax : cgroupMemoryMaxForAction ctx.config.cgroupMemoryMax
      ctx.config.cgroupMemoryMaxOverrides plan.spec.display run.names = .ok memoryMax) :
    ∀ request ∈ run.requests, request.cgroupMemoryMax = memoryMax := by
  obtain ⟨path, repeatIndex, attemptIndex, firstCall, heq⟩ := hrun
  intro request hrequest
  rw [heq] at hrequest
  obtain ⟨index, limit, hlimit, rfl⟩ := run_group_requests ctx plan repeatIndex hrequest
  rw [hmax] at hlimit
  exact (Except.ok.inj hlimit).symm

/-- The group executions of a target are under the limits of its tests. -/
theorem target_limits_exact (hdistinct : DistinctOverrides ctx.config.cgroupMemoryMaxOverrides)
    {specProto : ExternalRunnerSpec} {task : ActionTask} {run : GroupRun} {target : String}
    (htarget : validSpecTargetDisplay specProto = some target)
    (htask : task ∈ (runTarget ctx specProto).actions) (hrun : run ∈ task.run.runs) :
    LimitsExact ctx.config target run := by
  obtain ⟨plan, tests, batches, hexecutes, -, hmem⟩ := executes_of_mem_actions ctx htask
  obtain rfl : plan.spec.display = target := by
    rw [display_of_from_proto hexecutes.spec_ok] at htarget
    exact Option.some.inj htarget
  have hlogged : ∃ path repeatIndex attemptIndex firstCall, run =
      runGroup ctx plan path run.selection run.names repeatIndex attemptIndex firstCall :=
    task_run_eq ctx hmem hrun
  have hdefault : (∀ candidate ∈ ctx.config.cgroupMemoryMaxOverrides,
      candidate.target = plan.spec.display → candidate.test ∉ run.names) →
      ∀ request ∈ run.requests, request.cgroupMemoryMax = ctx.config.cgroupMemoryMax :=
    fun hnone => request_limit ctx hlogged (cgroup_memory_max_default hnone)
  by_cases hbig : plan.spec.testType = "rust" ∧ plan.spec.labels.contains "rust:big" = true
  · obtain ⟨name, hnames, hselection⟩ := big_task_names ctx hexecutes.plan_ok hbig.2
      hexecutes.batches_ok hmem hrun
    have hlookup : ∀ candidate ∈ ctx.config.cgroupMemoryMaxOverrides,
        candidate.target = plan.spec.display → candidate.test = name →
          cgroupMemoryMaxForAction ctx.config.cgroupMemoryMax
            ctx.config.cgroupMemoryMaxOverrides plan.spec.display run.names =
              .ok candidate.memoryMax := by
      intro candidate hcandidate htarget htest
      rw [hnames, ← htarget, ← htest]
      exact cgroup_memory_max_override hdistinct hcandidate
    refine ⟨?_, ?_, hdefault⟩
    · by_cases hexists : ∃ candidate ∈ ctx.config.cgroupMemoryMaxOverrides,
          candidate.target = plan.spec.display ∧ candidate.test = name
      · obtain ⟨candidate, hcandidate, htarget, htest⟩ := hexists
        exact ⟨_, hlookup candidate hcandidate htarget htest⟩
      · refine ⟨_, cgroup_memory_max_default fun candidate hcandidate htarget htest => ?_⟩
        rw [hnames] at htest
        exact hexists ⟨candidate, hcandidate, htarget, List.mem_singleton.mp htest⟩
    · intro candidate hcandidate htarget htest
      rw [hnames] at htest
      have hname : candidate.test = name := List.mem_singleton.mp htest
      rw [hname]
      exact ⟨hnames, hselection,
        request_limit ctx hlogged (hlookup candidate hcandidate htarget hname)⟩
  · have hnone := no_override_of_valid hexecutes.overrides hbig
    exact ⟨⟨_, override_free_of_valid hexecutes.overrides hbig⟩,
      fun candidate hcandidate htarget => absurd htarget (hnone candidate hcandidate), hdefault⟩

end Requests

/-! ## The exit code -/

section Session

variable [External]

/-- The task of a target. -/
def targetTask (ctx : TargetCtx) (specProto : ExternalRunnerSpec) : TargetTask where
  messages := (runTarget ctx specProto).messages
  panicked := false

/-- A target lists a test exactly once. -/
def DiscoveredOnce (ctx : TargetCtx) (specProto : ExternalRunnerSpec) (test : String) : Prop :=
  ∃ plan tests, TargetSpec.fromProto specProto = .ok plan.spec ∧
    TargetPlan.derive plan.spec ctx.config = .ok plan ∧ ListingSucceeds ctx plan tests ∧
    (tests.filter fun candidate => candidate.name == test).length = 1

omit [External] in
/-- Validated overrides match one test each. -/
theorem matched_once_of_valid {tests : List TestCase}
    {overrides : List CgroupMemoryMaxOverride} (h : validateOverrides tests overrides = .ok ()) :
    ∀ candidate ∈ overrides, (tests.filter fun test => test.name == candidate.test).length = 1 := by
  induction overrides with
  | nil => nofun
  | cons first rest ih =>
      unfold validateOverrides at h
      dsimp only at h
      split at h
      · cases h
      case isFalse hone =>
        intro candidate hcandidate
        rcases List.mem_cons.mp hcandidate with rfl | hlater
        · exact not_not.mp hone
        · exact ih h candidate hlater

/-- A target that is accepted lists the tests of its overrides once. -/
theorem discovered_once_of_accepted {ctx : TargetCtx} {specProto : ExternalRunnerSpec}
    (h : Accepted ctx specProto) {candidate : CgroupMemoryMaxOverride}
    (hcandidate : candidate ∈ ctx.config.cgroupMemoryMaxOverrides)
    (htarget : validSpecTargetDisplay specProto = some candidate.target) :
    DiscoveredOnce ctx specProto candidate.test := by
  obtain ⟨spec, plan, tests, hspec, hplan, hlisting, hvalid⟩ := h
  obtain rfl := derive_spec hplan
  refine ⟨plan, tests, hspec, hplan, hlisting, ?_⟩
  rw [display_of_from_proto hspec] at htarget
  have hmem : candidate ∈ ctx.config.cgroupMemoryMaxOverrides.filter fun other =>
      other.target == plan.spec.display :=
    List.mem_filter.mpr ⟨hcandidate, by simpa using (Option.some.inj htarget).symm⟩
  unfold validateCgroupMemoryOverrides at hvalid
  dsimp only at hvalid
  split at hvalid
  case isTrue hnone =>
    rw [List.isEmpty_iff.mp hnone] at hmem
    cases hmem
  case isFalse =>
    split at hvalid
    · cases hvalid
    · exact matched_once_of_valid hvalid candidate hmem

omit [External] in
/-- A message that fails the run makes its exit code nonzero. -/
theorem run_ne_zero_of_failing [HashKey] {profile : BuildProfile} {io : ReporterIo}
    {config : RunnerConfig} {context : SessionContext} {db : DurationDb}
    {specs : List ExternalRunnerSpec} {tasks : List TargetTask} {arrival : List ReporterMessage}
    (hhelp : config.libtestHelpOnly = false)
    (harrival : arrival.Perm (sentMessages config specs tasks))
    (h : ∃ message ∈ sentMessages config specs tasks, message.FailsRun) :
    run profile io config context db tasks arrival ≠ 0 := by
  obtain ⟨message, hmessage, hfails⟩ := h
  cases husage : config.libtestUsageError with
  | some error =>
      unfold run
      rw [hhelp, husage]
      show nonzeroExit ≠ 0
      decide
  | none =>
      intro hzero
      obtain ⟨⟨final, hfinal, hpass⟩, -, -⟩ := (run_eq_zero_iff hhelp husage harrival).mp hzero
      have hmem := harrival.mem_iff.mpr hmessage
      have hfail := (reporter_task_reckoned hfinal).verdict_iff.mpr (by
        cases message with
        | discovered tests => cases hfails
        | targetDropped reason => exact .inl (List.countP_pos_iff.mpr ⟨_, hmem, rfl⟩)
        | finished batch =>
            obtain ⟨finished, hfinished, hfailure⟩ := hfails
            exact .inr (.inl ⟨finished, List.mem_flatMap.mpr ⟨_, hmem, hfinished⟩, hfailure⟩))
      rw [hpass] at hfail
      cases hfail

/-- With the overrides of an accepted command line every group execution of every target is under
the limits of its tests, and a session does not exit with 0 when the target of an override is not
received or does not list its test exactly once. -/
theorem memory_overrides_are_exact {raw : List String} {config : RunnerConfig}
    (hresolved : resolveOverrides raw = .ok config.cgroupMemoryMaxOverrides)
    (hhelp : config.libtestHelpOnly = false) :
    (∀ ctx specProto target, ctx.config = config → validSpecTargetDisplay specProto = some target →
      ∀ task ∈ (runTarget ctx specProto).actions, ∀ run ∈ task.run.runs,
        LimitsExact config target run) ∧
    ∀ profile io context db (targets : List (TargetCtx × ExternalRunnerSpec)) arrival,
      (∀ target ∈ targets, target.1.config = config) →
      arrival.Perm (sentMessages config (targets.map Prod.snd)
        (targets.map fun target => targetTask target.1 target.2)) →
      ∀ candidate ∈ config.cgroupMemoryMaxOverrides,
        ((∀ target ∈ targets, validSpecTargetDisplay target.2 ≠ some candidate.target) ∨
          ∃ target ∈ targets, validSpecTargetDisplay target.2 = some candidate.target ∧
            ¬DiscoveredOnce target.1 target.2 candidate.test) →
        run profile io config context db
          (targets.map fun target => targetTask target.1 target.2) arrival ≠ 0 := by
  have hdistinct := distinct_of_resolved hresolved
  refine ⟨?_, ?_⟩
  · rintro ctx specProto target rfl htarget task htask run hrun
    exact target_limits_exact ctx hdistinct htarget htask hrun
  · intro profile io context db targets arrival hconfig harrival candidate hcandidate hmissing
    refine run_ne_zero_of_failing hhelp harrival ?_
    rcases hmissing with hnever | ⟨target, htarget, hdisplay, hnot⟩
    · have hmissed : candidate.target ∈ missingCgroupOverrideTargets config
          (receivedOverrideTargets config (targets.map Prod.snd)) := by
        refine mem_dedup_adjacent.mpr ((List.perm_insertionSort _ _).mem_iff.mpr ?_)
        refine List.mem_map_of_mem (List.mem_filter.mpr ⟨hcandidate, ?_⟩)
        rw [Bool.not_eq_true', ← Bool.not_eq_true, List.contains_iff_mem]
        intro hreceived
        obtain ⟨specProto, hspec, hdisplay⟩ :=
          List.mem_filterMap.mp (List.mem_filter.mp hreceived).1
        obtain ⟨target, htarget, rfl⟩ := List.mem_map.mp hspec
        exact hnever target htarget hdisplay
      exact ⟨_, List.mem_append_left _ (List.mem_map_of_mem hmissed), trivial⟩
    · have hnotAccepted : ¬Accepted target.1 target.2 := fun haccepted =>
        hnot (discovered_once_of_accepted haccepted
          (by rw [hconfig target htarget]; exact hcandidate) hdisplay)
      obtain ⟨⟨message, hmessage, hfails⟩, -, -⟩ :=
        rejected_target_fails_closed target.1 target.2 hnotAccepted
      refine ⟨message, List.mem_append_right _ ?_, hfails⟩
      exact List.mem_flatMap.mpr ⟨_, List.mem_map_of_mem htarget, hmessage⟩

end Session

/-- A `rust:big` target with an override for one of its two tests. -/
theorem overridden_test_runs_alone :
    letI := External.inert
    let ctx := TargetCtx.textFormats
      (.listingThen (.finished 0 "a: test\nb: test\n") (.finished 0 "test a ... ok\n"))
    ∃ overrides, resolveOverrides ["root//pkg:tests|a|4096"] = .ok overrides ∧
      let config := { ctx.config with cgroupMemoryMaxOverrides := overrides }
      let run := runTarget { ctx with config } (.plain "rust" ["rust:big"])
      run.actions.map ActionTask.expectedMembers = [["a"], ["b"]] ∧
      ∀ task ∈ run.actions, ∀ run ∈ task.run.runs, LimitsExact config "root//pkg:tests" run := by
  let := External.inert
  intro ctx
  refine ⟨_, rfl, ?_⟩
  intro config run
  refine ⟨by decide +kernel, ?_⟩
  exact (@memory_overrides_are_exact _ ["root//pkg:tests|a|4096"] config rfl rfl).1
    { ctx with config } (.plain "rust" ["rust:big"]) "root//pkg:tests" rfl rfl

end Quokka
