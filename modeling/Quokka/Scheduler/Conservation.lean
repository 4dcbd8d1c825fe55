import Mathlib.Data.List.Perm.Basic
import Quokka.BatchPartition
import Quokka.Scheduler.ActionResults
import Quokka.Scheduler.FailClosed

/-!
# Results are conserved

Every test that the shard keeps is reported exactly once for each repetition: batching puts it
into one batch, every batch runs once for each repetition, and an action reports each of its
expected members once.

`Executes` says that a target gets to execute batches, `run_target_actions` which actions it then
issues, and `results_conserved` is the result.
-/

namespace Quokka

/-- The finished tests that a message carries. -/
def ReporterMessage.finishedTests : ReporterMessage → List FinishedTest
  | .finished batch => batch
  | .discovered _ => []
  | .targetDropped _ => []

/-- The finished tests that a target sends to the reporter. -/
def TargetRun.finishedTests (run : TargetRun) : List FinishedTest :=
  run.messages.flatMap ReporterMessage.finishedTests

/-! ## The actions of a target -/

section Actions

variable [External] (ctx : TargetCtx)

/-- The tests of this shard. -/
def keptTests (plan : TargetPlan) (tests : List TestCase) : List TestCase :=
  shardFilter plan.spec.display tests ctx.config

omit [External] in
/-- A shard keeps some of the listed tests, in their order. -/
theorem kept_sublist (plan : TargetPlan) (tests : List TestCase) :
    (keptTests ctx plan tests).Sublist tests := by
  unfold keptTests shardFilter
  split
  · exact List.Sublist.refl _
  · exact List.filter_sublist

/-- The target executes batches: its specification and listing are accepted, the run does not
only list, and the tests of its shard are batched without a panic. -/
structure Executes (specProto : ExternalRunnerSpec) (plan : TargetPlan) (tests : List TestCase)
    (batches : List (TestSelection String)) : Prop where
  spec_ok : TargetSpec.fromProto specProto = .ok plan.spec
  plan_ok : TargetPlan.derive plan.spec ctx.config = .ok plan
  listing : ListingSucceeds ctx plan tests
  overrides : validateCgroupMemoryOverrides plan ctx.config tests = .ok ()
  not_list_only : ctx.config.libtestListOnly = false
  batches_ok : buildBatches plan.spec.display (keptTests ctx plan tests) ctx.config ctx.estimates
    ctx.profile plan.translator.parserCapability plan.batchMode = .ok batches

/-- The plan is derived from the specification that it holds. -/
theorem derive_spec {spec : TargetSpec} {config : RunnerConfig} {plan : TargetPlan}
    (h : TargetPlan.derive spec config = .ok plan) : plan.spec = spec := by
  unfold TargetPlan.derive at h
  split at h
  · cases h
  · cases h; rfl

/-- A panic of the target's own code is reported after what the target did. -/
def catchPanic (plan : TargetPlan) (run : TargetRun) : TargetRun :=
  match run.panicked with
  | none => run
  | some message =>
      run.thenReport
        (reportTargetFailureForSpec ctx plan.spec false plan.repetition
          ⟨.fatal, "target " ++ plan.spec.display ++ " panicked: " ++ message⟩)

/-- What a target whose listing is accepted does. -/
theorem run_target_listed {specProto : ExternalRunnerSpec} {plan : TargetPlan}
    {tests : List TestCase} (hspec : TargetSpec.fromProto specProto = .ok plan.spec)
    (hplan : TargetPlan.derive plan.spec ctx.config = .ok plan)
    (hlisting : ListingSucceeds ctx plan tests)
    (hoverrides : validateCgroupMemoryOverrides plan ctx.config tests = .ok ()) :
    runTarget ctx specProto = catchPanic ctx plan
      { runListed ctx plan tests with
        listingRequests := (listingStage ctx plan).requests } := by
  have htests := (listing_stage_eq_ok ctx plan).mpr hlisting
  simp only [runTarget, hspec, hplan, runPerTestTarget, htests, afterListing, hoverrides]
  rfl

/-- A target that reports a failure of its batches keeps its actions. -/
theorem run_batches_actions (plan : TargetPlan) (kept : List TestCase)
    (batches : List (TestSelection String)) :
    (runBatches ctx plan kept batches).actions = actionTasks ctx plan kept batches := by
  unfold runBatches
  dsimp only
  split
  · rfl
  · rfl

/-- The actions of a target that executes batches. -/
theorem run_target_actions {specProto : ExternalRunnerSpec} {plan : TargetPlan}
    {tests : List TestCase} {batches : List (TestSelection String)}
    (h : Executes ctx specProto plan tests batches) (hkept : keptTests ctx plan tests ≠ []) :
    (runTarget ctx specProto).actions =
        actionTasks ctx plan (keptTests ctx plan tests) batches ∧
      (runTarget ctx specProto).messages =
        discoveryMessage ctx plan tests ::
          (runBatches ctx plan (keptTests ctx plan tests) batches).messages := by
  have hrun := run_target_listed ctx h.spec_ok h.plan_ok h.listing h.overrides
  have hlisted : runListed ctx plan tests =
      { runBatches ctx plan (keptTests ctx plan tests) batches with
        messages := discoveryMessage ctx plan tests ::
          (runBatches ctx plan (keptTests ctx plan tests) batches).messages
        discovered := (keptTests ctx plan tests).map TestCase.name ::
          (runBatches ctx plan (keptTests ctx plan tests) batches).discovered } := by
    have hnonempty : (shardFilter plan.spec.display tests ctx.config).isEmpty = false := by
      simpa [keptTests] using hkept
    have hbatches := h.batches_ok
    unfold keptTests at hbatches
    simp only [runListed, hnonempty, h.not_list_only, runKept, hbatches]
    rfl
  have hpanicked : (runBatches ctx plan (keptTests ctx plan tests) batches).panicked = none := by
    unfold runBatches
    dsimp only
    split
    · rfl
    · rfl
  rw [hrun, hlisted]
  simp only [catchPanic, hpanicked]
  exact ⟨run_batches_actions ctx plan _ batches, trivial⟩

/-- Only a target that executes batches of kept tests issues actions. -/
theorem executes_of_mem_actions {specProto : ExternalRunnerSpec} {task : ActionTask}
    (h : task ∈ (runTarget ctx specProto).actions) :
    ∃ plan tests batches, Executes ctx specProto plan tests batches ∧
      keptTests ctx plan tests ≠ [] ∧
      task ∈ actionTasks ctx plan (keptTests ctx plan tests) batches := by
  by_cases haccepted : Accepted ctx specProto
  · obtain ⟨spec, plan, tests, hspec, hplan, hlisting, hoverrides⟩ := haccepted
    have hsame := derive_spec hplan
    subst hsame
    have hrun := run_target_listed ctx hspec hplan hlisting hoverrides
    have hactions : (runTarget ctx specProto).actions = (runListed ctx plan tests).actions := by
      rw [hrun]
      unfold catchPanic
      split <;> rfl
    rw [hactions] at h
    unfold runListed at h
    dsimp only at h
    split at h
    case isTrue => cases h
    case isFalse hkept =>
      cases hlistOnly : ctx.config.libtestListOnly with
      | true => simp [hlistOnly] at h
      | false =>
          simp only [hlistOnly, Bool.false_eq_true, if_false] at h
          unfold runKept at h
          cases hbatches : buildBatches plan.spec.display
              (shardFilter plan.spec.display tests ctx.config) ctx.config ctx.estimates
              ctx.profile plan.translator.parserCapability plan.batchMode with
          | error message => simp [hbatches] at h
          | ok batches =>
              simp only [hbatches, run_batches_actions] at h
              exact ⟨plan, tests, batches, ⟨hspec, hplan, hlisting, hoverrides, hlistOnly,
                hbatches⟩, by simpa [keptTests] using hkept, h⟩
  · cases rejection_of_not_accepted ctx haccepted with
    | dropped reason hrun => rw [hrun] at h; cases h
    | failed spec quarantined repetition failure requests hrun => rw [hrun] at h; cases h

end Actions

/-! ## Counting -/

/-- A product can be enumerated by rows or by columns. -/
theorem flat_map_swap {α β γ : Type} (xs : List α) (ys : List β) (f : α → β → γ) :
    (ys.flatMap fun y => xs.map fun x => f x y).Perm (xs.flatMap fun x => ys.map (f x)) := by
  induction xs with
  | nil => simp
  | cons x xs ih =>
      have hsplit := List.map_append_flatMap_perm ys (f x) fun y => xs.map fun x => f x y
      exact hsplit.symm.trans (ih.append_left _)

/-- The tests that a finished action reports. -/
def ActionTask.finishedTests (task : ActionTask) : List FinishedTest :=
  task.run.finished.toOption.getD []

/-- The messages of finished actions carry what the actions report. -/
theorem finished_tests_of_tasks (tasks : List ActionTask) :
    (tasks.filterMap ActionTask.message).flatMap ReporterMessage.finishedTests =
      tasks.flatMap ActionTask.finishedTests := by
  induction tasks with
  | nil => rfl
  | cons task tasks ih =>
      cases hfinished : task.run.finished.toOption with
      | none => simp [ActionTask.message, ActionTask.finishedTests, hfinished, ih]
      | some finished =>
          simp [ActionTask.message, ActionTask.finishedTests, hfinished, ih,
            ReporterMessage.finishedTests]

section Conservation

variable [External] (ctx : TargetCtx)

/-- The kept tests with their estimates. -/
def batchInputs (target : String) (kept : List TestCase) : List LocalBatchInput :=
  kept.map fun t =>
    { name := t.name
      estimate := ctx.estimates.estimate none (testIdentity target ctx.config t.name) }

/-- Batches from the heaviest to the lightest one. -/
def longestFirst (target : String) (kept : List TestCase)
    (batches : List (TestSelection String)) : List (TestSelection String) :=
  batches.insertionSort fun a b =>
    selectionWeight target kept ctx.config ctx.estimates b ≤
      selectionWeight target kept ctx.config ctx.estimates a

/-- Batches are among the selections that they were sorted from. -/
theorem mem_longest_first {target : String} {kept : List TestCase}
    {batches : List (TestSelection String)} {batch : TestSelection String} :
    batch ∈ longestFirst ctx target kept batches ↔ batch ∈ batches :=
  (List.perm_insertionSort _ batches).mem_iff

/-- Batches that are built without a panic are sorted selections: the kept tests together, or
the parts of a partition. Only an unsharded target batch comes from the partition. -/
theorem build_batches_sorted {target : String} {kept : List TestCase}
    {capability : DemuxCapability} {targetMode : Option BatchMode}
    {batches : List (TestSelection String)}
    (h : buildBatches target kept ctx.config ctx.estimates ctx.profile capability targetMode =
      .ok batches) :
    ∃ selections,
      batches = longestFirst ctx target kept
        (selections.map (TestSelection.map LocalBatchInput.name)) ∧
      ((effectiveBatchMode ctx.config capability targetMode = .target ∧
          selections = [.explicit (batchInputs ctx target kept)]) ∨
        ((effectiveBatchMode ctx.config capability targetMode = .target →
            ctx.config.shard.isSharded = false) ∧
          (effectiveBatchMode ctx.config capability targetMode).partition ctx.profile
            (batchInputs ctx target kept) = .ok selections)) := by
  unfold buildBatches at h
  dsimp only at h
  split at h
  case isTrue htarget =>
    cases h
    rw [Bool.and_eq_true, decide_eq_true_iff] at htarget
    exact ⟨_, rfl, .inl ⟨htarget.1, rfl⟩⟩
  case isFalse hmode =>
    obtain ⟨selections, hselections, hbatches⟩ := Except.bind_eq_ok.mp h
    cases hbatches
    refine ⟨selections, rfl, .inr ⟨fun htarget => ?_, hselections⟩⟩
    simpa [htarget] using hmode

/-- In whatever order: a sharded target batch names the kept tests, every other batch comes from
the partition. -/
theorem build_batches_ok {target : String} {kept : List TestCase}
    {capability : DemuxCapability} {targetMode : Option BatchMode}
    {batches : List (TestSelection String)}
    (h : buildBatches target kept ctx.config ctx.estimates ctx.profile capability targetMode =
      .ok batches) :
    ∃ selections, batches.Perm (selections.map (TestSelection.map LocalBatchInput.name)) ∧
      (selections = [.explicit (batchInputs ctx target kept)] ∨
        ((effectiveBatchMode ctx.config capability targetMode).partition ctx.profile
            (batchInputs ctx target kept) = .ok selections ∧
          ¬(effectiveBatchMode ctx.config capability targetMode = .target ∧
            ctx.config.shard.isSharded = true))) := by
  obtain ⟨selections, rfl, hselections⟩ := build_batches_sorted ctx h
  refine ⟨selections, List.perm_insertionSort _ _, hselections.imp (fun htogether => htogether.2)
    fun ⟨hunsharded, hpartition⟩ => ⟨hpartition, fun hsharded => ?_⟩⟩
  exact Bool.false_ne_true ((hunsharded hsharded.1).symm.trans hsharded.2)

/-- Every kept test is in exactly one batch. -/
theorem build_batches_perm {target : String} {kept : List TestCase}
    {capability : DemuxCapability} {targetMode : Option BatchMode}
    {batches : List (TestSelection String)}
    (h : buildBatches target kept ctx.config ctx.estimates ctx.profile capability targetMode =
      .ok batches) :
    (batches.flatMap (expectedMembers kept)).Perm (kept.map TestCase.name) := by
  have hnames : (batchInputs ctx target kept).map LocalBatchInput.name =
      kept.map TestCase.name := by
    simp [batchInputs, Function.comp_def]
  have hmembers : ∀ selection : TestSelection LocalBatchInput,
      expectedMembers kept (selection.map LocalBatchInput.name) =
        (selection.membersOf (batchInputs ctx target kept)).map LocalBatchInput.name := by
    intro selection
    cases selection with
    | all => exact hnames.symm
    | explicit group => rfl
  obtain ⟨selections, hbatches, hselections⟩ := build_batches_ok ctx h
  have hperm : (selections.flatMap
      (TestSelection.membersOf (batchInputs ctx target kept))).Perm
      (batchInputs ctx target kept) := by
    rcases hselections with rfl | ⟨hpartition, -⟩
    · simp [TestSelection.membersOf]
    · exact partition_perm hpartition
  refine (hbatches.flatMap_right _).trans ?_
  rw [List.flatMap_map, ← hnames]
  simp only [hmembers]
  rw [← List.map_flatMap]
  exact hperm.map _

/-- Batches of one test each. -/
theorem build_batches_per_test {target : String} {kept : List TestCase}
    {capability : DemuxCapability} {targetMode : Option BatchMode}
    {batches : List (TestSelection String)} {batch : TestSelection String}
    (hmode : effectiveBatchMode ctx.config capability targetMode = .perTest)
    (h : buildBatches target kept ctx.config ctx.estimates ctx.profile capability targetMode =
      .ok batches) (hbatch : batch ∈ batches) : ∃ name, batch = .explicit [name] := by
  unfold buildBatches at h
  dsimp only at h
  rw [hmode, if_neg (by simp)] at h
  cases h
  obtain ⟨selection, hselection, rfl⟩ :=
    List.mem_map.mp ((List.perm_insertionSort _ _).mem_iff.mp hbatch)
  obtain ⟨input, -, rfl⟩ := List.mem_map.mp hselection
  exact ⟨input.name, rfl⟩

/-- No batch of kept tests names nothing. -/
theorem explicit_nil_not_mem_batches {target : String} {kept : List TestCase}
    {capability : DemuxCapability} {targetMode : Option BatchMode}
    {batches : List (TestSelection String)} (hkept : kept ≠ [])
    (h : buildBatches target kept ctx.config ctx.estimates ctx.profile capability targetMode =
      .ok batches) : .explicit [] ∉ batches := by
  obtain ⟨selections, hbatches, hselections⟩ := build_batches_ok ctx h
  have hnil : .explicit [] ∉ selections := by
    rcases hselections with rfl | ⟨hpartition, -⟩
    · simpa [batchInputs] using hkept.symm
    · exact explicit_nil_not_mem_partition hpartition
  intro hmem
  obtain ⟨selection, hselection, hmap⟩ := List.mem_map.mp (hbatches.mem_iff.mp hmem)
  cases selection with
  | all => cases hmap
  | explicit group =>
      have hgroup : group = [] := List.map_eq_nil_iff.mp (TestSelection.explicit.inj hmap)
      rw [hgroup] at hselection
      exact hnil hselection

/-- The actions of some batches. -/
theorem mem_action_tasks {plan : TargetPlan} {kept : List TestCase}
    {batches : List (TestSelection String)} {task : ActionTask}
    (h : task ∈ actionTasks ctx plan kept batches) :
    ∃ batch ∈ batches, ∃ path, task.selection = batch ∧
      task.expectedMembers = expectedMembers kept batch ∧
      task.repeatIndex < plan.repetition.count ∧
      task.run = executeTestAction ctx plan path batch (expectedMembers kept batch)
        task.repeatIndex 0 MemberTables.empty := by
  unfold actionTasks at h
  obtain ⟨⟨batch, batchIndex⟩, hbatch, htask⟩ := List.mem_flatMap.mp h
  obtain ⟨repeatIndex, hrepeat, rfl⟩ := List.mem_map.mp htask
  exact ⟨batch, List.fst_mem_of_mem_zipIdx hbatch, [batchIndex, repeatIndex], rfl, rfl,
    List.mem_range.mp hrepeat, rfl⟩

/-- Every group execution of an action is a run of its group. -/
theorem task_run_eq {plan : TargetPlan} {kept : List TestCase}
    {batches : List (TestSelection String)} {task : ActionTask} {run : GroupRun}
    (htask : task ∈ actionTasks ctx plan kept batches) (hrun : run ∈ task.run.runs) :
    ∃ path repeatIndex attemptIndex firstCall, run =
      runGroup ctx plan path run.selection run.names repeatIndex attemptIndex firstCall := by
  obtain ⟨batch, -, path, -, -, -, htaskRun⟩ := mem_action_tasks ctx htask
  rw [htaskRun] at hrun
  rcases execute_test_action_executed ctx plan task.repeatIndex hrun with hown | ⟨_, _, hother⟩
  · obtain ⟨path, attemptIndex, firstCall, heq⟩ := hown.eq_run_group
    exact ⟨path, task.repeatIndex, attemptIndex, firstCall, heq⟩
  · obtain ⟨path, attemptIndex, firstCall, heq⟩ := hother.eq_run_group
    exact ⟨path, task.repeatIndex, attemptIndex, firstCall, heq⟩

/-- Where batches have one test each, so has every group execution, also those that retry. -/
theorem per_test_task_names {plan : TargetPlan} {kept : List TestCase}
    {batches : List (TestSelection String)} {task : ActionTask} {run : GroupRun}
    (hmode : effectiveBatchMode ctx.config plan.translator.parserCapability plan.batchMode =
      .perTest)
    (hbatches : buildBatches plan.spec.display kept ctx.config ctx.estimates ctx.profile
      plan.translator.parserCapability plan.batchMode = .ok batches)
    (htask : task ∈ actionTasks ctx plan kept batches) (hrun : run ∈ task.run.runs) :
    ∃ name, run.names = [name] ∧ run.selection = .explicit [name] := by
  obtain ⟨batch, hbatch, path, -, -, -, htaskRun⟩ := mem_action_tasks ctx htask
  obtain ⟨name, rfl⟩ := build_batches_per_test ctx hmode hbatches hbatch
  rw [htaskRun] at hrun
  have hsingle : ∀ member, Executed ctx plan (.explicit [member]) [member] task.repeatIndex run →
      ∃ name, run.names = [name] ∧ run.selection = .explicit [name] := by
    intro member hexecuted
    have hnames : run.names = [member] := by
      rcases List.sublist_singleton.mp hexecuted.names_sublist with hnone | hone
      · exact absurd hnone (hexecuted.names_ne (List.cons_ne_nil _ _))
      · exact hone
    refine ⟨member, hnames, ?_⟩
    rcases hexecuted.selection_eq with hsame | hexplicit
    · exact hsame
    · rw [hexplicit, hnames]
  rcases execute_test_action_executed ctx plan task.repeatIndex hrun with hown | ⟨member, -, hother⟩
  · exact hsingle name hown
  · exact hsingle member hother

/-- An action that does not panic reports its expected members under its repeat index. -/
theorem task_keys_perm {plan : TargetPlan} {kept : List TestCase}
    {batches : List (TestSelection String)} {task : ActionTask}
    (hmem : task ∈ actionTasks ctx plan kept batches) (hpanic : task.panicked = false) :
    (task.finishedTests.map FinishedTest.key).Perm
      (task.expectedMembers.map fun name => (name, task.repeatIndex)) := by
  obtain ⟨batch, hbatch, path, hselection, hexpected, hrepeat, hrun⟩ := mem_action_tasks ctx hmem
  cases hfinished : task.run.finished with
  | error message => simp [ActionTask.panicked, hfinished, Except.toOption] at hpanic
  | ok finished =>
      have htests : task.finishedTests = finished := by
        simp [ActionTask.finishedTests, hfinished, Except.toOption]
      rw [hrun] at hfinished
      obtain ⟨members, failing, hreported⟩ := execute_test_action_ok ctx plan batch
        (expectedMembers kept batch) task.repeatIndex hfinished
      rw [htests, hexpected]
      exact hreported.keys_perm

/-- The members of all actions are the batched tests, once for each repetition. -/
theorem task_members_perm {plan : TargetPlan} {kept : List TestCase}
    {batches : List (TestSelection String)}
    (hbatches : (batches.flatMap (expectedMembers kept)).Perm (kept.map TestCase.name)) :
    ((actionTasks ctx plan kept batches).flatMap fun task =>
        task.expectedMembers.map fun name => (name, task.repeatIndex)).Perm
      (kept.flatMap fun test =>
        (List.range plan.repetition.count).map fun repeatIndex => (test.name, repeatIndex)) := by
  let repeats : String → List (String × Nat) := fun name =>
    (List.range plan.repetition.count).map fun repeatIndex => (name, repeatIndex)
  have hactions : ((actionTasks ctx plan kept batches).flatMap fun task =>
        task.expectedMembers.map fun name => (name, task.repeatIndex)) =
      batches.flatMap fun batch => (List.range plan.repetition.count).flatMap fun repeatIndex =>
        (expectedMembers kept batch).map fun name => (name, repeatIndex) := by
    have hfst : batches = batches.zipIdx.map Prod.fst := by simp
    conv_rhs => rw [hfst, List.flatMap_map]
    simp only [actionTasks, List.flatMap_assoc, List.flatMap_map]
  rw [hactions]
  have hswap : (batches.flatMap fun batch =>
        (List.range plan.repetition.count).flatMap fun repeatIndex =>
          (expectedMembers kept batch).map fun name => (name, repeatIndex)).Perm
      (batches.flatMap fun batch => (expectedMembers kept batch).flatMap repeats) :=
    List.Perm.flatMap_left _ fun batch _ => flat_map_swap _ _ _
  refine hswap.trans ?_
  rw [← List.flatMap_assoc]
  refine (hbatches.flatMap_right repeats).trans ?_
  rw [List.flatMap_map]

/-- A target that executes batches without a panic reports each kept test once for each
repetition, and nothing else. -/
theorem results_conserved {specProto : ExternalRunnerSpec} {plan : TargetPlan}
    {tests : List TestCase} {batches : List (TestSelection String)}
    (h : Executes ctx specProto plan tests batches)
    (hpanic : ∀ task ∈ (runTarget ctx specProto).actions, task.panicked = false) :
    ((runTarget ctx specProto).finishedTests.map FinishedTest.key).Perm
      ((keptTests ctx plan tests).flatMap fun test =>
        (List.range plan.repetition.count).map fun repeatIndex => (test.name, repeatIndex)) := by
  by_cases hkept : keptTests ctx plan tests = []
  · have hnone : (runTarget ctx specProto).messages = [] := by
      rw [run_target_listed ctx h.spec_ok h.plan_ok h.listing h.overrides]
      unfold keptTests at hkept
      simp [catchPanic, runListed, hkept]
    simp [hkept, TargetRun.finishedTests, hnone]
  · obtain ⟨hactions, hmessages⟩ := run_target_actions ctx h hkept
    rw [hactions] at hpanic
    have hquiet : ((actionTasks ctx plan (keptTests ctx plan tests) batches).any
        ActionTask.panicked) = false := by
      rw [List.any_eq_false]
      intro task htask
      simp [hpanic task htask]
    have hsent : (runTarget ctx specProto).finishedTests =
        (actionTasks ctx plan (keptTests ctx plan tests) batches).flatMap
          ActionTask.finishedTests := by
      rw [TargetRun.finishedTests, hmessages, ← finished_tests_of_tasks]
      simp [runBatches, hquiet, discoveryMessage, ReporterMessage.finishedTests]
    rw [hsent, List.map_flatMap]
    refine (List.Perm.flatMap_left _ fun task htask => ?_).trans
      (task_members_perm ctx (build_batches_perm ctx h.batches_ok))
    exact task_keys_perm ctx htask (hpanic task htask)

end Conservation

/-- A listing that holds one of its names twice is reported with the name twice. -/
theorem duplicate_listing_conserved :
    letI := External.inert
    let ctx := TargetCtx.textFormats
      (.listingThen (.finished 0 "a: test\nb: test\na: test\n")
        (.finished 0 "test a ... ok\ntest b ... ok\n"))
    ((runTarget ctx (.plain "rust" [])).finishedTests.map FinishedTest.key).Perm
      [("a", 0), ("b", 0), ("a", 0)] := by
  let := External.inert
  intro ctx
  let plan := TargetPlan.plain "rust" [] (libtestTranslator ctx.config) ctx.config
  have hexecutes : Executes ctx (.plain "rust" []) plan
      [syntheticTest "a", syntheticTest "b", syntheticTest "a"]
      [.explicit ["a", "b", "a"]] :=
    { spec_ok := rfl
      plan_ok := rfl
      listing := (listing_stage_eq_ok ctx plan).mp (by decide +kernel)
      overrides := rfl
      not_list_only := rfl
      batches_ok := by decide +kernel }
  exact results_conserved ctx hexecutes (by decide +kernel)

/-- With a memory override that names no listed test the listed tests are not reported. -/
theorem listed_tests_not_reported_after_failed_override :
    letI := External.inert
    let quiet := TargetCtx.textFormats
      (.listingThen (.finished 0 "a: test\n") (.finished 0 "test a ... ok\n"))
    let ctx := { quiet with config := { quiet.config with cgroupMemoryMaxOverrides :=
      [⟨"root//pkg:tests", "b", defaultCgroupMemoryMaxBytes⟩] } }
    let plan := TargetPlan.plain "rust" ["rust:big"] (libtestTranslator ctx.config) ctx.config
    let tests := [syntheticTest "a"]
    TargetSpec.fromProto (.plain "rust" ["rust:big"]) = .ok plan.spec ∧
      TargetPlan.derive plan.spec ctx.config = .ok plan ∧ ListingSucceeds ctx plan tests ∧
      ctx.config.libtestListOnly = false ∧
      (∀ task ∈ (runTarget ctx (.plain "rust" ["rust:big"])).actions, task.panicked = false) ∧
      ¬((runTarget ctx (.plain "rust" ["rust:big"])).finishedTests.map FinishedTest.key).Perm
        ((keptTests ctx plan tests).flatMap fun test =>
          (List.range plan.repetition.count).map fun repeatIndex => (test.name, repeatIndex)) := by
  let := External.inert
  intro quiet ctx plan tests
  exact ⟨rfl, rfl, (listing_stage_eq_ok ctx plan).mp (by decide +kernel), rfl,
    by decide +kernel, by decide +kernel⟩

end Quokka
