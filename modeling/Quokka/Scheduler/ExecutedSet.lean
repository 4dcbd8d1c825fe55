import Quokka.Scheduler.Sharding
import Quokka.Translator.Selection

/-!
# The executed set

Which tests of a libtest binary the commands of a target select. A command with names selects
exactly these; a command of an unfiltered batch has none, and since the user's filters and skips
are kept from per-test executions it selects everything that the ignored policy allows.

`first_request_logged` says that a batch's own selection is asked for at least once, and
`commands_select_expected_iff` when all commands of a target select what is expected of them.
-/

namespace Quokka

/-! ## What the arguments of an execution select -/

/-- The tests of a binary that an ignored policy allows. -/
def LibtestBinary.allowed (binary : LibtestBinary) (policy : IgnoredPolicy) : List TestCase :=
  binary.tests.filter fun test => policy.selects test.ignored

section Selected

variable (binary : LibtestBinary) (ignored : IgnoredPolicy) (format : RunFormat)
  (args : List String)

/-- Without names everything that the ignored policy allows is executed. -/
theorem selected_without_names :
    binary.selected (libtestExecutionArgs [] ignored format args) = binary.allowed ignored := by
  have hnone : ∀ name ∈ ([] : List String), Text.startsWith name "-" = false := by simp
  have hread := execution_invocation hnone ignored format args
  unfold LibtestBinary.selected LibtestBinary.allowed
  rw [hread]
  exact List.filter_congr fun test _ => by simp [LibtestInvocation.runs]

/-- With names of its tests a binary executes exactly these. -/
theorem mem_selected_names {names : List String} (hne : names ≠ [])
    (hnames : ∀ name ∈ names, name ∈ binary.tests.map TestCase.name) (name : String) :
    name ∈ (binary.selected (libtestExecutionArgs names ignored format args)).map
      TestCase.name ↔ name ∈ names := by
  have hpositional : ∀ name ∈ names, Text.startsWith name "-" = false := by
    intro name hname
    obtain ⟨test, htest, rfl⟩ := List.mem_map.mp (hnames name hname)
    exact binary.positional test htest
  have hruns : ∀ test : TestCase,
      (LibtestInvocation.ofArgs (libtestExecutionArgs names ignored format args)).runs test =
        names.contains test.name := by
    intro test
    rw [execution_invocation hpositional]
    simp [LibtestInvocation.runs, hne]
  simp only [LibtestBinary.selected, List.mem_map, List.mem_filter, hruns,
    List.contains_iff_mem]
  constructor
  · rintro ⟨test, ⟨-, hmem⟩, rfl⟩
    exact hmem
  · intro hname
    obtain ⟨test, htest, rfl⟩ := List.mem_map.mp (hnames name hname)
    exact ⟨test, ⟨htest, hname⟩, rfl⟩

end Selected

/-! ## The first request of an action -/

section First

variable [External] (ctx : TargetCtx) (plan : TargetPlan) (path : List Nat)
  (selection : TestSelection String) (expectedMembers : List String) (repeatIndex : Nat)

/-- The log of an action holds a group execution with the action's own selection. -/
theorem first_run_logged :
    runGroup ctx plan path selection expectedMembers repeatIndex 0 0 ∈
      (executeTestAction ctx plan path selection expectedMembers repeatIndex 0
        MemberTables.empty).runs := by
  obtain ⟨rest, hloop⟩ := action_loop_first ctx plan path selection expectedMembers repeatIndex
    MemberTables.empty
  obtain ⟨isolated, hruns, -⟩ := execute_test_action_runs ctx plan repeatIndex path selection
    expectedMembers 0 MemberTables.empty
  rw [hruns, hloop]
  exact List.mem_cons_self

end First

/-! ## The commands of a target -/

section Commands

variable [External] (ctx : TargetCtx)

/-- The plan of a libtest target uses the libtest translator. -/
theorem derive_libtest {plan : TargetPlan}
    (hplan : TargetPlan.derive plan.spec ctx.config = .ok plan)
    (htype : plan.spec.testType = "rust") : plan.translator = libtestTranslator ctx.config := by
  unfold TargetPlan.derive at hplan
  rw [htype] at hplan
  exact congrArg TargetPlan.translator (Except.ok.inj hplan).symm

/-- A `big` target does not batch its tests. -/
theorem not_big_of_target_mode {plan : TargetPlan} {capability : DemuxCapability}
    (hplan : TargetPlan.derive plan.spec ctx.config = .ok plan)
    (hmode : effectiveBatchMode ctx.config capability plan.batchMode = .target) :
    plan.spec.labels.contains "rust:big" = false := by
  cases hbig : plan.spec.labels.contains "rust:big" with
  | false => rfl
  | true =>
      rw [big_batch_mode hplan hbig] at hmode
      cases hmode

/-- Unsharded target batching makes one batch, of the unfiltered selection. -/
theorem build_batches_target {target : String} {kept : List TestCase}
    {capability : DemuxCapability} {targetMode : Option BatchMode}
    {batches : List (TestSelection String)}
    (hmode : effectiveBatchMode ctx.config capability targetMode = .target)
    (hsharded : ctx.config.shard.isSharded = false)
    (h : buildBatches target kept ctx.config ctx.estimates ctx.profile capability targetMode =
      .ok batches) : batches = [.all] := by
  obtain ⟨selections, hbatches, rfl | ⟨hpartition, -⟩⟩ := build_batches_ok ctx h
  · unfold buildBatches at h
    rw [hmode, hsharded] at h
    exact (Except.ok.inj h).symm
  · rw [hmode] at hpartition
    cases hpartition
    exact List.perm_singleton.mp hbatches

/-- A group execution never asks for an empty list of names. -/
theorem task_selection_ne_nil {plan : TargetPlan} {kept : List TestCase}
    {batches : List (TestSelection String)} (hkept : kept ≠ []) (hnil : .explicit [] ∉ batches)
    {task : ActionTask} (htask : task ∈ actionTasks ctx plan kept batches) {run : GroupRun}
    (hrun : run ∈ task.run.runs) : run.selection ≠ .explicit [] := by
  obtain ⟨batch, hbatch, path, -, -, -, htaskRun⟩ := mem_action_tasks ctx htask
  have hmembers : expectedMembers kept batch ≠ [] := by
    cases batch with
    | all => simpa [expectedMembers] using hkept
    | explicit group => rintro rfl; exact hnil hbatch
  rw [htaskRun] at hrun
  intro hselection
  rcases execute_test_action_executed ctx plan task.repeatIndex hrun with
    hown | ⟨member, -, hsingle⟩
  · rcases hown.selection_eq with hsame | hnames
    · rw [hselection] at hsame
      rw [← hsame] at hbatch
      exact hnil hbatch
    · rw [hselection] at hnames
      exact hown.names_ne hmembers (TestSelection.explicit.inj hnames).symm
  · rcases hsingle.selection_eq with hsame | hnames
    · rw [hselection] at hsame; cases hsame
    · rw [hselection] at hnames
      exact hsingle.names_ne (by simp) (TestSelection.explicit.inj hnames).symm

variable {ctx} {specProto : ExternalRunnerSpec} {plan : TargetPlan} {tests : List TestCase}
  {batches : List (TestSelection String)} {binary : LibtestBinary}

/-- A command with names selects the tests of these names. -/
theorem explicit_command_selects (h : Executes ctx specProto plan tests batches)
    (hkept : keptTests ctx plan tests ≠ [])
    (hlisted : ∀ test ∈ tests, test.name ∈ binary.tests.map TestCase.name)
    (hlibtest : plan.translator = libtestTranslator ctx.config) {task : ActionTask}
    (htask : task ∈ actionTasks ctx plan (keptTests ctx plan tests) batches) {run : GroupRun}
    (hrun : run ∈ task.run.runs) (hselection : run.selection ≠ .all) (name : String) :
    name ∈ (binary.selected (executionArgsOf ctx plan run.selection)).map TestCase.name ↔
      name ∈ expectedMembers (keptTests ctx plan tests) run.selection := by
  have hne := task_selection_ne_nil ctx hkept
    (explicit_nil_not_mem_batches ctx hkept h.batches_ok) htask hrun
  have hmembers := (task_selections ctx htask hrun).1
  have hbinary : ∀ name ∈ selectedNames run.selection,
      name ∈ binary.tests.map TestCase.name := by
    intro name hname
    obtain ⟨batch, hbatch, -, -, hexpected, -, -⟩ := mem_action_tasks ctx htask
    have hmember := hmembers name hname
    rw [hexpected] at hmember
    have hkeptName := (build_batches_perm ctx h.batches_ok).mem_iff.mp
      (List.mem_flatMap.mpr ⟨batch, hbatch, hmember⟩)
    obtain ⟨test, htest, rfl⟩ := List.mem_map.mp hkeptName
    exact hlisted test ((kept_sublist ctx plan tests).subset htest)
  cases hnames : run.selection with
  | all => exact absurd hnames hselection
  | explicit names =>
      rw [hnames] at hne hbinary
      have hnonempty : names ≠ [] := by rintro rfl; exact hne rfl
      have hargs : executionArgsOf ctx plan (.explicit names) =
          libtestExecutionArgs names plan.ignored ctx.config.runFormat
            (ctx.config.extraTestArgs ++ ctx.config.directLibtestArgs) := by
        rw [executionArgsOf, hlibtest]; rfl
      rw [hargs]
      exact mem_selected_names binary plan.ignored _ _ hnonempty hbinary name

/-- The tests that a command of the unfiltered selection executes. -/
theorem all_command_selects (hlibtest : plan.translator = libtestTranslator ctx.config) :
    binary.selected (executionArgsOf ctx plan .all) = binary.allowed plan.ignored := by
  rw [executionArgsOf, hlibtest]
  exact selected_without_names binary plan.ignored _ _

/-- All commands of a libtest target select the tests that they are expected to report exactly
if the target does not execute one unfiltered batch, or the tests kept from the listing are
those of the binary that the ignored policy allows. -/
theorem commands_select_expected_iff (h : Executes ctx specProto plan tests batches)
    (htype : plan.spec.testType = "rust")
    (hlisted : ∀ test ∈ tests, test.name ∈ binary.tests.map TestCase.name) :
    (∀ task ∈ (runTarget ctx specProto).actions, ∀ run ∈ task.run.runs,
      ∀ request ∈ run.requests, ∀ command ∈ request.commands, ∀ name,
        name ∈ (binary.selected command.appended).map TestCase.name ↔
          name ∈ expectedMembers (keptTests ctx plan tests) run.selection) ↔
    (effectiveBatchMode ctx.config plan.translator.parserCapability plan.batchMode = .target →
      ctx.config.shard.isSharded = false → keptTests ctx plan tests ≠ [] →
      ∀ name, name ∈ (keptTests ctx plan tests).map TestCase.name ↔
        name ∈ (binary.allowed plan.ignored).map TestCase.name) := by
  have hlibtest := derive_libtest ctx h.plan_ok htype
  by_cases hkept : keptTests ctx plan tests = []
  · have hnone : (runTarget ctx specProto).actions = [] := by
      rw [run_target_listed ctx h.spec_ok h.plan_ok h.listing h.overrides]
      unfold keptTests at hkept
      simp [catchPanic, runListed, hkept]
    simp [hnone, hkept]
  rw [(run_target_actions ctx h hkept).1]
  constructor
  · intro hexact hmode hsharded _ name
    have hbatches := build_batches_target ctx hmode hsharded h.batches_ok
    -- The first task of the batch sends a request with the unfiltered selection.
    let members := (keptTests ctx plan tests).map TestCase.name
    let run := runGroup ctx plan [0, 0] .all members 0 0 0
    let action := executeTestAction ctx plan [0, 0] .all members 0 0 MemberTables.empty
    have htask : ⟨.all, members, 0, action⟩ ∈
        actionTasks ctx plan (keptTests ctx plan tests) batches := by
      rw [hbatches]
      refine List.mem_flatMap.mpr ⟨(.all, 0), by simp, List.mem_map.mpr ⟨0, ?_, rfl⟩⟩
      exact List.mem_range.mpr plan.repetition.count_pos
    have hrun : run ∈ action.runs := first_run_logged ctx plan [0, 0] .all members 0
    have hmax : cgroupMemoryMaxForAction ctx.config.cgroupMemoryMax
        ctx.config.cgroupMemoryMaxOverrides plan.spec.display members =
          .ok ctx.config.cgroupMemoryMax := by
      refine override_free_of_valid h.overrides fun hbig => ?_
      have hnot := not_big_of_target_mode ctx h.plan_ok hmode
      rw [hnot] at hbig
      cases hbig.2
    obtain ⟨request, hrequest⟩ := List.exists_mem_of_ne_nil _
      (run_group_sends hmax)
    obtain ⟨-, -, hcommands⟩ := task_selections ctx htask hrun
    have hname := hexact _ htask run hrun request hrequest _
      (by rw [hcommands request hrequest]; exact List.mem_singleton_self _) name
    rw [show run.selection = .all from rfl, all_command_selects hlibtest] at hname
    exact hname.symm
  · intro hcondition task htask run hrun request hrequest command hcommand name
    obtain ⟨-, hall, hcommands⟩ := task_selections ctx htask hrun
    rw [hcommands request hrequest] at hcommand
    rw [List.mem_singleton.mp hcommand]
    by_cases hselection : run.selection = .all
    · obtain ⟨hmode, hsharded⟩ := of_all_mem_batches ctx h.batches_ok (hall hselection)
      rw [hselection, all_command_selects hlibtest]
      exact (hcondition hmode hsharded hkept name).symm
    · exact explicit_command_selects h hkept hlisted hlibtest htask hrun hselection name

end Commands

/-- A binary with the tests `a` and `b`. -/
def twoTestBinary : LibtestBinary where
  tests := [syntheticTest "a", syntheticTest "b"]
  positional := by decide

/-- A run of it whose user skips `b`, so that the listing holds `a` only. -/
def skippingCtx (batchMode : BatchMode) : TargetCtx :=
  let ctx := TargetCtx.textFormats
    (.listingThen (.finished 0 "a: test\n") (.finished 0 "test a ... ok\n"))
  { ctx with config := { ctx.config with batchMode, extraTestArgs := ["--skip", "b"] } }

/-- With the tests in batches of at most two the skip is respected. -/
theorem chunked_commands_select_expected :
    letI := External.inert
    let ctx := skippingCtx (.fixedChunk ⟨2, by decide⟩)
    ∀ task ∈ (runTarget ctx (.plain "rust" [])).actions, ∀ run ∈ task.run.runs,
      ∀ request ∈ run.requests, ∀ command ∈ request.commands, ∀ name,
        name ∈ (twoTestBinary.selected command.appended).map TestCase.name ↔
          name ∈ expectedMembers [syntheticTest "a"] run.selection := by
  let := External.inert
  intro ctx
  let plan := TargetPlan.plain "rust" [] (libtestTranslator ctx.config) ctx.config
  have hexecutes : Executes ctx (.plain "rust" []) plan [syntheticTest "a"]
      [.explicit ["a"]] :=
    { spec_ok := rfl
      plan_ok := rfl
      listing := (listing_stage_eq_ok ctx plan).mp (by decide +kernel)
      overrides := rfl
      not_list_only := rfl
      batches_ok := by decide +kernel }
  have hlisted : ∀ test ∈ [syntheticTest "a"],
      test.name ∈ twoTestBinary.tests.map TestCase.name := by decide
  refine (commands_select_expected_iff hexecutes rfl hlisted).mpr ?_
  intro hmode
  exact absurd hmode (by decide)

/-- As one batch of the target the command also executes the skipped test. -/
theorem target_batch_executes_skipped_test :
    letI := External.inert
    let ctx := skippingCtx .target
    let plan := TargetPlan.plain "rust" [] (libtestTranslator ctx.config) ctx.config
    ListingSucceeds ctx plan [syntheticTest "a"] ∧
      twoTestBinary.selected (libtestListingArgs ctx.config.ignored ctx.config.listFormat
        ctx.config.extraTestArgs) = [syntheticTest "a"] ∧
      ∃ task ∈ (runTarget ctx (.plain "rust" [])).actions, ∃ run ∈ task.run.runs,
        ∃ request ∈ run.requests, ∃ command ∈ request.commands,
          "b" ∈ (twoTestBinary.selected command.appended).map TestCase.name ∧
            "b" ∉ expectedMembers (keptTests ctx plan [syntheticTest "a"]) run.selection := by
  let := External.inert
  intro ctx plan
  exact ⟨(listing_stage_eq_ok ctx plan).mp (by decide +kernel), by decide +kernel,
    by decide +kernel⟩

end Quokka
