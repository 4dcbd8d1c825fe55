import Quokka.Scheduler.Conservation

/-!
# Shards partition the work

One invocation runs for each shard index, with its own duration database, orchestrator and order
of the listed tests. Every listed test is kept, batched and reported by the shard that its name
hashes to and by no other one, and no command names a test of another shard.

`mem_kept_iff` is the reason: the shard of a test depends on the target's display, the test's
name and the shard count only. `shards_partition_the_work` is the result.
-/

namespace Quokka

/-! ## The owner of a test -/

/-- A shard index is below the count, so it loses nothing as a 16-bit number. -/
theorem shard_of_lt {count : UInt16} (hcount : 0 < count) (target name : String) :
    shardOf target name count < count := by
  have hpos : 0 < count.toNat := by simpa using UInt16.lt_iff_toNat_lt.mp hcount
  have hlt := Nat.mod_lt (fnv1a (Text.bytes (shardKey target name))).toNat hpos
  have hsmall := count.toNat_lt
  rw [UInt16.lt_iff_toNat_lt, shardOf, UInt64.toNat_toUInt16, UInt64.toNat_mod,
    UInt16.toNat_toUInt64, Nat.mod_eq_of_lt (Nat.lt_trans hlt hsmall)]
  exact hlt

/-- A shard keeps the tests that hash to it. -/
theorem mem_shard_filter_iff {target : String} {tests : List TestCase} {config : RunnerConfig}
    {index count : UInt16} (hindex : index < count) {test : TestCase} :
    test ∈ shardFilter target tests { config with shard := ⟨index, count⟩ } ↔
      test ∈ tests ∧ index = shardOf target test.name count := by
  unfold shardFilter
  cases hsharded : ShardSpec.isSharded ⟨index, count⟩ with
  | true =>
      simp only [Bool.not_true, Bool.false_eq_true, if_false, List.mem_filter,
        beq_iff_eq]
      exact and_congr_right fun _ => eq_comm
  | false =>
      -- A single shard owns everything.
      have hcount : 0 < count := by
        rw [UInt16.lt_iff_toNat_lt] at hindex ⊢
        exact Nat.lt_of_le_of_lt (Nat.zero_le _) hindex
      have hlt := shard_of_lt hcount target test.name
      have hone : count.toNat ≤ 1 := by
        simpa [ShardSpec.isSharded, UInt16.lt_iff_toNat_lt] using hsharded
      have hsame : index = shardOf target test.name count := by
        rw [UInt16.lt_iff_toNat_lt] at hindex hlt
        exact UInt16.toNat_inj.mp (by omega)
      simp [← hsame]

section Selections

variable [External] (ctx : TargetCtx)

/-- Only an unsharded target batch is the unfiltered selection. -/
theorem of_all_mem_batches {target : String} {kept : List TestCase}
    {capability : DemuxCapability} {targetMode : Option BatchMode}
    {batches : List (TestSelection String)}
    (h : buildBatches target kept ctx.config ctx.estimates ctx.profile capability targetMode =
      .ok batches) (hall : .all ∈ batches) :
    effectiveBatchMode ctx.config capability targetMode = .target ∧
      ctx.config.shard.isSharded = false := by
  obtain ⟨selections, hbatches, hselections⟩ := build_batches_ok ctx h
  obtain ⟨selection, hselection, hmap⟩ := List.mem_map.mp (hbatches.mem_iff.mp hall)
  cases selection with
  | explicit group => cases hmap
  | all =>
      rcases hselections with rfl | ⟨hpartition, hmode⟩
      · simp at hselection
      · have htarget := target_of_all_mem_partition hpartition hselection
        exact ⟨htarget, by simpa [htarget] using hmode⟩

/-- What the group executions of a task select: names among the task's members, and everything
only if the task's batch does. -/
theorem task_selections {plan : TargetPlan} {kept : List TestCase}
    {batches : List (TestSelection String)} {task : ActionTask} {run : GroupRun}
    (htask : task ∈ actionTasks ctx plan kept batches) (hrun : run ∈ task.run.runs) :
    (∀ name ∈ selectedNames run.selection, name ∈ task.expectedMembers) ∧
      (run.selection = .all → .all ∈ batches) ∧
      ∀ request ∈ run.requests,
        request.commands = [⟨0, executionArgsOf ctx plan run.selection⟩] := by
  obtain ⟨batch, hbatch, path, hselection, hexpected, hrepeat, htaskRun⟩ :=
    mem_action_tasks ctx htask
  rw [htaskRun] at hrun
  rcases execute_test_action_executed ctx plan task.repeatIndex hrun with
    hown | ⟨member, hmember, hsingle⟩
  · refine ⟨?_, ?_, fun request hrequest => hown.commands ctx plan task.repeatIndex hrequest⟩
    · intro name hname
      rw [hexpected]
      rcases hown.selection_eq with hsame | hnames
      · rw [hsame] at hname
        cases batch with
        | all => cases hname
        | explicit group => exact hname
      · rw [hnames] at hname
        exact hown.names_sublist.subset hname
    · intro hall
      rcases hown.selection_eq with hsame | hnames
      · rw [← hall, hsame]; exact hbatch
      · rw [hnames] at hall; cases hall
  · have hselected : run.selection = .explicit [member] ∨ run.selection = .explicit run.names :=
      hsingle.selection_eq
    refine ⟨?_, ?_, fun request hrequest => hsingle.commands ctx plan task.repeatIndex hrequest⟩
    · intro name hname
      rw [hexpected]
      have hone : name = member := by
        rcases hselected with hsame | hnames
        · rw [hsame] at hname; exact List.mem_singleton.mp hname
        · rw [hnames] at hname
          exact List.mem_singleton.mp (hsingle.names_sublist.subset hname)
      rw [hone]; exact hmember
    · intro hall
      rcases hselected with hsame | hnames
      · rw [hsame] at hall; cases hall
      · rw [hnames] at hall; cases hall

end Selections

/-! ## The partition -/

/-- One invocation for each shard index of a common configuration. Each has its own context, so
its own duration database and orchestrator, sees the listed tests in its own order, and executes
its batches without a panic. -/
structure ShardRuns [External] (specProto : ExternalRunnerSpec) (config : RunnerConfig)
    (count : UInt16) (listed : List TestCase) where
  ctx : UInt16 → TargetCtx
  plan : UInt16 → TargetPlan
  tests : UInt16 → List TestCase
  batches : UInt16 → List (TestSelection String)
  config_eq : ∀ index < count, (ctx index).config = { config with shard := ⟨index, count⟩ }
  listed_perm : ∀ index < count, (tests index).Perm listed
  executes : ∀ index < count,
    Executes (ctx index) specProto (plan index) (tests index) (batches index)
  quiet : ∀ index < count, ∀ task ∈ (runTarget (ctx index) specProto).actions,
    task.panicked = false

namespace ShardRuns

variable [External] {specProto : ExternalRunnerSpec} {config : RunnerConfig} {count : UInt16}
  {listed : List TestCase} (runs : ShardRuns specProto config count listed)

/-- What the target does in one shard. -/
def run (index : UInt16) : TargetRun :=
  runTarget (runs.ctx index) specProto

/-- The tests that one shard keeps. -/
def kept (index : UInt16) : List TestCase :=
  keptTests (runs.ctx index) (runs.plan index) (runs.tests index)

/-- The shard that a test's name hashes to. -/
def owner (name : String) : UInt16 :=
  shardOf (runs.plan 0).spec.display name count

/-- All shards run the same specification. -/
theorem spec_eq {index : UInt16} (hindex : index < count) :
    (runs.plan index).spec = (runs.plan 0).spec := by
  have hzero : 0 < count := by
    rw [UInt16.lt_iff_toNat_lt] at hindex ⊢
    exact Nat.lt_of_le_of_lt (Nat.zero_le _) hindex
  exact Except.ok.inj ((runs.executes index hindex).spec_ok.symm.trans
    (runs.executes 0 hzero).spec_ok)

/-- A shard keeps the listed tests that hash to it. -/
theorem mem_kept_iff {index : UInt16} (hindex : index < count) {test : TestCase} :
    test ∈ runs.kept index ↔
      test ∈ listed ∧ index = runs.owner test.name := by
  unfold kept keptTests owner
  rw [runs.config_eq index hindex, mem_shard_filter_iff hindex,
    (runs.listed_perm index hindex).mem_iff, runs.spec_eq hindex]

/-- The actions of a shard are those of its batches, none without a kept test. -/
theorem actions_eq {index : UInt16} (hindex : index < count) :
    (runs.run index).actions =
      if runs.kept index = [] then []
      else actionTasks (runs.ctx index) (runs.plan index) (runs.kept index)
        (runs.batches index) := by
  have hexecutes := runs.executes index hindex
  split
  case isTrue hkept =>
    have hfilter : shardFilter (runs.plan index).spec.display (runs.tests index)
        (runs.ctx index).config = [] := hkept
    rw [run, run_target_listed _ hexecutes.spec_ok hexecutes.plan_ok hexecutes.listing
      hexecutes.overrides]
    simp [catchPanic, runListed, hfilter]
  case isFalse hkept => exact (run_target_actions _ hexecutes hkept).1

/-- The members of a shard's actions are its kept tests. -/
theorem exists_task_iff {index : UInt16} (hindex : index < count) {name : String} :
    (∃ task ∈ (runs.run index).actions, name ∈ task.expectedMembers) ↔
      name ∈ (runs.kept index).map TestCase.name := by
  have hperm := build_batches_perm _ (runs.executes index hindex).batches_ok
  have hmembers := @task_members_perm _ (runs.ctx index) (runs.plan index) _ _ hperm
  rw [runs.actions_eq hindex]
  by_cases hkept : runs.kept index = []
  · simp [hkept]
  rw [if_neg hkept]
  constructor
  · rintro ⟨task, htask, hname⟩
    have hmem := hmembers.mem_iff.mp
      (List.mem_flatMap.mpr ⟨task, htask, List.mem_map_of_mem hname⟩)
    obtain ⟨test, htest, hrepeat⟩ := List.mem_flatMap.mp hmem
    obtain ⟨repeatIndex, _, heq⟩ := List.mem_map.mp hrepeat
    exact List.mem_map.mpr ⟨test, htest, congrArg Prod.fst heq⟩
  · intro hname
    obtain ⟨test, htest, rfl⟩ := List.mem_map.mp hname
    have hfirst : (test.name, 0) ∈ (List.range (runs.plan index).repetition.count).map
        fun repeatIndex => (test.name, repeatIndex) :=
      List.mem_map.mpr ⟨0, List.mem_range.mpr (runs.plan index).repetition.count_pos, rfl⟩
    have hmem := hmembers.mem_iff.mpr (List.mem_flatMap.mpr ⟨test, htest, hfirst⟩)
    obtain ⟨task, htask, hmember⟩ := List.mem_flatMap.mp hmem
    obtain ⟨name, hname, heq⟩ := List.mem_map.mp hmember
    have hsame : name = test.name := congrArg Prod.fst heq
    exact ⟨task, htask, hsame ▸ hname⟩

/-- The tests that a shard reports are its kept tests. -/
theorem exists_finished_iff {index : UInt16} (hindex : index < count) {name : String} :
    (∃ finished ∈ (runs.run index).finishedTests, finished.testId.name = name) ↔
      name ∈ (runs.kept index).map TestCase.name := by
  have hconserved := results_conserved _ (runs.executes index hindex) (runs.quiet index hindex)
  constructor
  · rintro ⟨finished, hfinished, rfl⟩
    have hmem := hconserved.mem_iff.mp (List.mem_map_of_mem hfinished)
    obtain ⟨test, htest, hrepeat⟩ := List.mem_flatMap.mp hmem
    obtain ⟨repeatIndex, _, heq⟩ := List.mem_map.mp hrepeat
    exact List.mem_map.mpr ⟨test, htest, congrArg Prod.fst heq⟩
  · intro hname
    obtain ⟨test, htest, rfl⟩ := List.mem_map.mp hname
    have hfirst : (test.name, 0) ∈ (List.range (runs.plan index).repetition.count).map
        fun repeatIndex => (test.name, repeatIndex) :=
      List.mem_map.mpr ⟨0, List.mem_range.mpr (runs.plan index).repetition.count_pos, rfl⟩
    have hmem := hconserved.mem_iff.mpr (List.mem_flatMap.mpr ⟨test, htest, hfirst⟩)
    obtain ⟨finished, hfinished, heq⟩ := List.mem_map.mp hmem
    exact ⟨finished, hfinished, congrArg Prod.fst heq⟩

/-- A kept name belongs to this shard. -/
theorem mem_kept_names_iff {index : UInt16} (hindex : index < count) {name : String} :
    name ∈ (runs.kept index).map TestCase.name ↔
      name ∈ listed.map TestCase.name ∧ index = runs.owner name := by
  constructor
  · intro hname
    obtain ⟨test, htest, rfl⟩ := List.mem_map.mp hname
    obtain ⟨hlisted, howner⟩ := (runs.mem_kept_iff hindex).mp htest
    exact ⟨List.mem_map_of_mem hlisted, howner⟩
  · rintro ⟨hname, howner⟩
    obtain ⟨test, htest, rfl⟩ := List.mem_map.mp hname
    exact List.mem_map_of_mem ((runs.mem_kept_iff hindex).mpr ⟨htest, howner⟩)

/-- The commands of a shard name its own tests only, and a sharded run never asks for
everything. -/
theorem commands_of_run {index : UInt16} (hindex : index < count) {task : ActionTask}
    (htask : task ∈ (runs.run index).actions) {run : GroupRun} (hrun : run ∈ task.run.runs) :
    (∀ request ∈ run.requests, request.commands =
        [⟨0, executionArgsOf (runs.ctx index) (runs.plan index) run.selection⟩]) ∧
      (∀ name ∈ selectedNames run.selection, runs.owner name = index) ∧
      (1 < count → run.selection ≠ .all) := by
  have hmember : task ∈ actionTasks (runs.ctx index) (runs.plan index) (runs.kept index)
      (runs.batches index) := by
    rw [runs.actions_eq hindex] at htask
    split at htask
    · cases htask
    · exact htask
  obtain ⟨hnames, hall, hcommands⟩ := task_selections _ hmember hrun
  refine ⟨hcommands, ?_, ?_⟩
  · intro name hname
    have hkept := (runs.exists_task_iff hindex).mp ⟨task, htask, hnames name hname⟩
    exact ((runs.mem_kept_names_iff hindex).mp hkept).2.symm
  · intro hsharded hselection
    have hunsharded := (of_all_mem_batches (runs.ctx index)
      (runs.executes index hindex).batches_ok (hall hselection)).2
    rw [runs.config_eq index hindex] at hunsharded
    simp [ShardSpec.isSharded, hsharded] at hunsharded

end ShardRuns

section Result

variable [External] {specProto : ExternalRunnerSpec} {config : RunnerConfig} {count : UInt16}
  {listed : List TestCase}

/-- Every listed test is kept, batched and reported by the shard that owns its name and by no
other one, every command of a shard names tests of that shard only, a sharded run never asks for
everything, and a target with a synthetic test is executed by exactly one shard. -/
theorem shards_partition_the_work (runs : ShardRuns specProto config count listed)
    (hcount : 0 < count) :
    (∀ name, runs.owner name < count) ∧
      (∀ index < count,
        (∀ test ∈ listed,
          (test ∈ runs.kept index ↔ index = runs.owner test.name) ∧
          ((∃ task ∈ (runs.run index).actions, test.name ∈ task.expectedMembers) ↔
            index = runs.owner test.name) ∧
          ((∃ finished ∈ (runs.run index).finishedTests, finished.testId.name = test.name) ↔
            index = runs.owner test.name)) ∧
        ∀ task ∈ (runs.run index).actions, ∀ run ∈ task.run.runs,
          (∀ request ∈ run.requests, request.commands =
            [⟨0, executionArgsOf (runs.ctx index) (runs.plan index) run.selection⟩]) ∧
          (∀ name ∈ selectedNames run.selection, runs.owner name = index) ∧
          (1 < count → run.selection ≠ .all)) ∧
      ∀ name, listed = [syntheticTest name] →
        ∃! index, index < count ∧ (runs.run index).actions ≠ [] := by
  have howner : ∀ name, runs.owner name < count :=
    fun name => shard_of_lt hcount (runs.plan 0).spec.display name
  refine ⟨howner, ?_, ?_⟩
  · intro index hindex
    refine ⟨?_, fun task htask run hrun => runs.commands_of_run hindex htask hrun⟩
    intro test htest
    have hname : test.name ∈ listed.map TestCase.name := List.mem_map_of_mem htest
    rw [runs.mem_kept_iff hindex, runs.exists_task_iff hindex, runs.exists_finished_iff hindex,
      runs.mem_kept_names_iff hindex]
    simp [htest, hname]
  · rintro name rfl
    refine ⟨runs.owner name, ⟨howner name, ?_⟩, ?_⟩
    · have hkept := (runs.mem_kept_names_iff (howner name)).mpr ⟨List.mem_singleton_self name, rfl⟩
      obtain ⟨task, htask, -⟩ := (runs.exists_task_iff (howner name)).mpr hkept
      exact List.ne_nil_of_mem htask
    · rintro index ⟨hindex, hactions⟩
      rw [runs.actions_eq hindex] at hactions
      obtain ⟨test, htest⟩ : ∃ test, test ∈ runs.kept index := by
        refine List.exists_mem_of_ne_nil _ ?_
        intro hnone
        simp [hnone] at hactions
      obtain ⟨hlisted, hsame⟩ := (runs.mem_kept_iff hindex).mp htest
      rw [List.mem_singleton.mp hlisted] at hsame
      exact hsame

end Result

/-- The context of one of two shards; the second one lists the tests in another order. -/
def twoShardsCtx (index : UInt16) : TargetCtx :=
  let listing := if index = 0 then "a: test\nb: test\nc: test\n" else "c: test\nb: test\na: test\n"
  let ctx := TargetCtx.textFormats
    (.listingThen (.finished 0 listing)
      (.finished 0 "test a ... ok\ntest b ... ok\ntest c ... ok\n"))
  { ctx with config := { ctx.config with shard := ⟨index, 2⟩ } }

/-- Three tests in two shards. -/
theorem two_shards_partition_the_work :
    letI := External.inert
    let run (index : UInt16) := runTarget (twoShardsCtx index) (.plain "rust" [])
    ∀ name ∈ ["a", "b", "c"], ∃ owner < (2 : UInt16), ∀ index < (2 : UInt16),
      (∃ finished ∈ (run index).finishedTests, finished.testId.name = name) ↔ index = owner := by
  let := External.inert
  let listed := [syntheticTest "a", syntheticTest "b", syntheticTest "c"]
  let plan (index : UInt16) : TargetPlan := .plain "rust" []
    (libtestTranslator (twoShardsCtx index).config) (twoShardsCtx index).config
  have hcases : ∀ {P : UInt16 → Prop}, P 0 → P 1 → ∀ index < (2 : UInt16), P index := by
    intro P hzero hone index hindex
    have hlt : index.toNat < 2 := UInt16.lt_iff_toNat_lt.mp hindex
    rcases Nat.le_one_iff_eq_zero_or_eq_one.mp (Nat.lt_succ_iff.mp hlt) with h | h
    · rw [UInt16.toNat_inj.mp (h.trans rfl : index.toNat = (0 : UInt16).toNat)]; exact hzero
    · rw [UInt16.toNat_inj.mp (h.trans rfl : index.toNat = (1 : UInt16).toNat)]; exact hone
  let runs : ShardRuns (.plain "rust" [])
      { RunnerConfig.withoutFlags with listFormat := .text, runFormat := .text } 2 listed :=
    { ctx := twoShardsCtx
      plan := plan
      tests := fun index => if index = 0 then listed else listed.reverse
      batches := fun index =>
        if index = 0 then [.explicit ["a", "c"]] else [.explicit ["b"]]
      config_eq := fun _ _ => rfl
      listed_perm := hcases (by decide) (by decide)
      executes := hcases
        { spec_ok := rfl
          plan_ok := rfl
          listing := (listing_stage_eq_ok _ (plan 0)).mp (by decide +kernel)
          overrides := rfl
          not_list_only := rfl
          batches_ok := by decide +kernel }
        { spec_ok := rfl
          plan_ok := rfl
          listing := (listing_stage_eq_ok _ (plan 1)).mp (by decide +kernel)
          overrides := rfl
          not_list_only := rfl
          batches_ok := by decide +kernel }
      quiet := hcases (by decide +kernel) (by decide +kernel) }
  obtain ⟨howner, hshards, -⟩ := shards_partition_the_work runs (by decide)
  intro run name hname
  obtain ⟨test, htest, rfl⟩ : ∃ test ∈ listed, test.name = name := by
    simpa [listed, syntheticTest, eq_comm] using hname
  exact ⟨runs.owner test.name, howner _, fun index hindex =>
    ((hshards index hindex).1 test htest).2.2⟩

/-- A run that only lists keeps its tests but neither batches nor reports them. -/
theorem list_only_shard_reports_nothing :
    letI := External.inert
    let quiet := TargetCtx.textFormats
      (.listingThen (.finished 0 "a: test\n") (.finished 0 "test a ... ok\n"))
    let ctx := { quiet with config := { quiet.config with
      libtestListOnly := true, shard := ⟨0, 1⟩ } }
    let plan := TargetPlan.plain "rust" [] (libtestTranslator ctx.config) ctx.config
    let run := runTarget ctx (.plain "rust" [])
    ListingSucceeds ctx plan [syntheticTest "a"] ∧
      keptTests ctx plan [syntheticTest "a"] = [syntheticTest "a"] ∧
      run.actions.length = 0 ∧ run.finishedTests = [] := by
  let := External.inert
  intro quiet ctx plan run
  exact ⟨(listing_stage_eq_ok ctx plan).mp (by decide +kernel), rfl, by decide +kernel,
    by decide +kernel⟩

end Quokka
