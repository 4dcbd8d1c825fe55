import Quokka.Scheduler.AdvisoryDb
import Quokka.Scheduler.Sharding

/-!
# The shape of batches

What `buildBatches` returns in each batch mode, and which mode is in force: logical-test
supervision, a framework that runs one test at a time and the label `big` all ask for one test
per action (`per_test_mode`).

In a build with overflow checks the balanced packing panics when the sum of a chunk overflows.
`batch_shape_iff` says that this is all that can go wrong; under logical-test supervision every
request of the run is for one test.
-/

namespace Quokka

section Shape

variable [External] (ctx : TargetCtx) (target : String) (kept : List TestCase)
  (capability : DemuxCapability) (labels : List String)

/-- The typical duration of a test, zero without history. -/
def nameP50 (name : String) : UInt64 :=
  (ctx.estimates.estimate none (testIdentity target ctx.config name)).p50Ms 0

/-- The target has a label whose last part is `big`. -/
def BigLabel (labels : List String) : Prop :=
  anyLabel labels (fun suffix => suffix == "big") = true

/-- What holds of the batches of a target. -/
structure BatchShape (batches : List (TestSelection String)) : Prop where
  ne_nil : batches ≠ []
  no_empty : .explicit [] ∉ batches
  sorted : batches.Pairwise fun a b =>
    selectionWeight target kept ctx.config ctx.estimates b ≤
      selectionWeight target kept ctx.config ctx.estimates a
  singletons : ctx.config.cgroupGranularity = .logicalTest ∨ capability = .singletonOnly ∨
    BigLabel labels → ∀ batch ∈ batches, ∃ name, batch = .explicit [name]
  chunks : ∀ size, effectiveBatchMode ctx.config capability (targetBatchMode labels) =
      .fixedChunk size →
    ∀ batch ∈ batches, ∃ group, batch = .explicit group ∧ group.length ≤ size.val
  buckets : ∀ p50LtMs, effectiveBatchMode ctx.config capability (targetBatchMode labels) =
      .durationBucketed p50LtMs →
    ∃ groups : List (List String), groups.flatten = kept.map TestCase.name ∧
      batches = longestFirst ctx target kept (groups.map .explicit) ∧
      ∀ group ∈ groups, group.length ≤ 64 ∧
        (1 < group.length → ∀ name ∈ group, nameP50 ctx target name < p50LtMs)
  all_alone : .all ∈ batches →
    batches = [.all] ∧ ctx.config.shard.isSharded = false ∧
      effectiveBatchMode ctx.config capability (targetBatchMode labels) = .target

variable {ctx target kept capability labels}

omit [External] in
/-- Three rules ask for one test per action, whatever batch mode is configured. -/
theorem per_test_mode (h : ctx.config.cgroupGranularity = .logicalTest ∨
      capability = .singletonOnly ∨ BigLabel labels) :
    effectiveBatchMode ctx.config capability (targetBatchMode labels) = .perTest := by
  unfold effectiveBatchMode
  by_cases hgranularity : ctx.config.cgroupGranularity = .logicalTest
  · rw [if_pos hgranularity]
  · rw [if_neg hgranularity]
    cases capability with
    | singletonOnly => rfl
    | nameAttributable =>
        have hbig : BigLabel labels := by simpa [hgranularity] using h
        have hbatch : targetBatchMode labels = some .perTest := if_pos hbig
        rw [hbatch]
        rfl

omit [External] in
/-- The batches of a partition into explicit groups name the groups. -/
theorem groups_of_explicit (groups : List (List LocalBatchInput)) :
    (groups.map TestSelection.explicit).map (TestSelection.map LocalBatchInput.name) =
      (groups.map (List.map LocalBatchInput.name)).map TestSelection.explicit := by
  rw [List.map_map, List.map_map]
  rfl

/-- In every mode but `target` the batches are the parts of a partition. -/
theorem build_batches_partition {targetMode : Option BatchMode} {mode : BatchMode}
    (hmode : effectiveBatchMode ctx.config capability targetMode = mode) (hne : mode ≠ .target)
    {batches : List (TestSelection String)}
    (h : buildBatches target kept ctx.config ctx.estimates ctx.profile capability targetMode =
      .ok batches) :
    ∃ selections,
      batches = longestFirst ctx target kept
        (selections.map (TestSelection.map LocalBatchInput.name)) ∧
      mode.partition ctx.profile (batchInputs ctx target kept) = .ok selections := by
  obtain ⟨selections, hbatches, hselections⟩ := build_batches_sorted ctx h
  rw [hmode] at hselections
  rcases hselections with ⟨htarget, -⟩ | ⟨-, hpartition⟩
  · exact absurd htarget hne
  · exact ⟨selections, hbatches, hpartition⟩

section Built

variable {batches : List (TestSelection String)}

/-- Kept tests are in some batch. -/
theorem build_batches_ne_nil (hkept : kept ≠ []) {targetMode : Option BatchMode}
    (h : buildBatches target kept ctx.config ctx.estimates ctx.profile capability targetMode =
      .ok batches) : batches ≠ [] := by
  have hperm := build_batches_perm ctx h
  intro hnil
  rw [hnil, List.flatMap_nil] at hperm
  exact hkept (List.map_eq_nil_iff.mp hperm.nil_eq.symm)

/-- A batch of fixed chunks names at most that many tests. -/
theorem fixed_chunk_batch (hinputs : batchInputs ctx target kept ≠ [])
    {targetMode : Option BatchMode} {size : NonZeroUsize}
    (hmode : effectiveBatchMode ctx.config capability targetMode = .fixedChunk size)
    (h : buildBatches target kept ctx.config ctx.estimates ctx.profile capability targetMode =
      .ok batches) :
    ∀ batch ∈ batches, ∃ group, batch = .explicit group ∧ group.length ≤ size.val := by
  obtain ⟨selections, rfl, hpartition⟩ := build_batches_partition hmode nofun h
  obtain ⟨chunks, hchunks, rfl⟩ := partition_chunks hpartition
  intro batch hbatch
  have hmem := (mem_longest_first ctx).mp hbatch
  rw [groups_of_explicit] at hmem
  obtain ⟨group, hgroup, rfl⟩ := List.mem_map.mp hmem
  obtain ⟨chunk, hchunk, rfl⟩ := List.mem_map.mp hgroup
  refine ⟨_, rfl, ?_⟩
  rw [List.length_map]
  exact (chunk_fixed_inv hinputs hchunks).2.2 chunk hchunk

/-- Buckets keep the order of the kept tests, and only quick tests share one. -/
theorem bucketed_batches {targetMode : Option BatchMode} {p50LtMs : UInt64}
    (hmode : effectiveBatchMode ctx.config capability targetMode = .durationBucketed p50LtMs)
    (h : buildBatches target kept ctx.config ctx.estimates ctx.profile capability targetMode =
      .ok batches) :
    ∃ groups : List (List String), groups.flatten = kept.map TestCase.name ∧
      batches = longestFirst ctx target kept (groups.map .explicit) ∧
      ∀ group ∈ groups, group.length ≤ 64 ∧
        (1 < group.length → ∀ name ∈ group, nameP50 ctx target name < p50LtMs) := by
  obtain ⟨selections, rfl, hpartition⟩ := build_batches_partition hmode nofun h
  cases hpartition
  let isSmall := fun input : LocalBatchInput => decide (Batchable.p50Ms input < p50LtMs)
  have hflatten := bucket_flatten maxBatch isSmall [] (batchInputs ctx target kept)
  rw [List.nil_append] at hflatten
  refine ⟨(bucketGeneric maxBatch isSmall [] (batchInputs ctx target kept)).map
    (List.map LocalBatchInput.name), ?_, by rw [groups_of_explicit], ?_⟩
  · rw [← List.map_flatten, hflatten]
    simp [batchInputs, Function.comp_def]
  · intro group hgroup
    obtain ⟨bucket, hbucket, rfl⟩ := List.mem_map.mp hgroup
    have hroom : ([] : List LocalBatchInput).length < maxBatch := by
      show 0 < 64
      omega
    have hmembers := bucket_members hroom (fun _ hnone => absurd hnone List.not_mem_nil)
      bucket hbucket
    rw [List.length_map]
    refine ⟨hmembers.1, fun hmany name hname => ?_⟩
    obtain ⟨input, hinput, rfl⟩ := List.mem_map.mp hname
    have hlisted : input ∈ batchInputs ctx target kept := by
      rw [← hflatten]
      exact List.mem_flatten.mpr ⟨bucket, hbucket, hinput⟩
    obtain ⟨test, -, rfl⟩ := List.mem_map.mp hlisted
    exact of_decide_eq_true (hmembers.2 hmany _ hinput)

/-- The batch of all tests is the only one. -/
theorem eq_singleton_of_all_mem {targetMode : Option BatchMode}
    (hmode : effectiveBatchMode ctx.config capability targetMode = .target)
    (h : buildBatches target kept ctx.config ctx.estimates ctx.profile capability targetMode =
      .ok batches) (hall : .all ∈ batches) : batches = [.all] := by
  obtain ⟨selections, rfl, hselections⟩ := build_batches_sorted ctx h
  rw [hmode] at hselections
  rcases hselections with ⟨-, rfl⟩ | ⟨-, hpartition⟩
  · have hexplicit := (mem_longest_first ctx).mp hall
    cases List.mem_singleton.mp hexplicit
  · cases hpartition
    rfl

/-- Batches that are built have the shape. -/
theorem batch_shape_of_ok (hkept : kept ≠ [])
    (h : buildBatches target kept ctx.config ctx.estimates ctx.profile capability
      (targetBatchMode labels) = .ok batches) :
    BatchShape ctx target kept capability labels batches := by
  have hinputs : batchInputs ctx target kept ≠ [] := by simpa [batchInputs] using hkept
  refine ⟨build_batches_ne_nil hkept h, explicit_nil_not_mem_batches ctx hkept h, ?_, ?_,
    fun _ hmode => fixed_chunk_batch hinputs hmode h, fun _ hmode => bucketed_batches hmode h, ?_⟩
  · obtain ⟨selections, rfl, -⟩ := build_batches_sorted ctx h
    exact List.pairwise_insertionSort _ _
  · exact fun hrule batch hbatch => build_batches_per_test ctx (per_test_mode hrule) h hbatch
  · intro hall
    obtain ⟨hmode, hunsharded⟩ := of_all_mem_batches ctx h hall
    exact ⟨eq_singleton_of_all_mem hmode h hall, hunsharded, hmode⟩

end Built

/-- Without overflow checks batches are always built. -/
theorem build_batches_unchecked (hchecks : ctx.profile.overflowChecks = false)
    {targetMode : Option BatchMode} :
    ∃ batches, buildBatches target kept ctx.config ctx.estimates ctx.profile capability
      targetMode = .ok batches := by
  unfold buildBatches
  dsimp only
  cases effectiveBatchMode ctx.config capability targetMode with
  | perTest => exact ⟨_, rfl⟩
  | durationBucketed p50LtMs => exact ⟨_, rfl⟩
  | target =>
      split
      · exact ⟨_, rfl⟩
      · exact ⟨_, rfl⟩
  | fixedChunk size =>
      rw [if_neg (by simp)]
      obtain ⟨chunks, hchunks⟩ := chunk_fixed_ok hchecks (batchInputs ctx target kept) size
        Batchable.weightMs
      have hpartition : (BatchMode.fixedChunk size).partition ctx.profile
          (batchInputs ctx target kept) = .ok (chunks.map .explicit) := by
        simp only [BatchMode.partition, hchunks]
        rfl
      unfold batchInputs at hpartition
      rw [hpartition]
      exact ⟨_, rfl⟩

end Shape

/-! ## The result -/

section Result

variable [External]

/-- Batches of the right shape are built exactly if, in a build with overflow checks and with
chunks of a fixed size, the sums of the chunks fit. Under logical-test supervision every request
of a run is for one test, also those of retries and isolation runs. -/
theorem batch_shape_iff (ctx : TargetCtx) (target : String) (kept : List TestCase)
    (capability : DemuxCapability) (labels : List String) (hkept : kept ≠ []) :
    ((∃ batches, buildBatches target kept ctx.config ctx.estimates ctx.profile capability
          (targetBatchMode labels) = .ok batches ∧
        BatchShape ctx target kept capability labels batches) ↔
      (ctx.profile.overflowChecks = true → ∀ size,
        effectiveBatchMode ctx.config capability (targetBatchMode labels) = .fixedChunk size →
          ChunksFit size
            (kept.map fun t => nameWeight target ctx.config ctx.estimates t.name))) ∧
    (ctx.config.cgroupGranularity = .logicalTest → ∀ specProto,
      ∀ task ∈ (runTarget ctx specProto).actions, ∀ run ∈ task.run.runs,
        ∃ name, run.selection = .explicit [name] ∧
          ∀ request ∈ run.requests, request.testcases = [name]) := by
  constructor
  · constructor
    · rintro ⟨batches, hbatches, -⟩ hchecks
      have hprofile : ctx.profile = BuildProfile.checked :=
        congrArg BuildProfile.mk hchecks
      rw [hprofile] at hbatches
      exact (build_batches_fits_iff target kept ctx.config ctx.estimates capability _).of_eq_ok
        hbatches
    · intro hfits
      have hbuilt : ∃ batches, buildBatches target kept ctx.config ctx.estimates ctx.profile
          capability (targetBatchMode labels) = .ok batches := by
        cases hchecks : ctx.profile.overflowChecks with
        | true =>
            have hprofile : ctx.profile = BuildProfile.checked :=
              congrArg BuildProfile.mk hchecks
            rw [hprofile]
            exact (build_batches_fits_iff target kept ctx.config ctx.estimates capability
              _).exists_ok.mpr (hfits hchecks)
        | false => exact build_batches_unchecked hchecks
      obtain ⟨batches, hbatches⟩ := hbuilt
      exact ⟨batches, hbatches, batch_shape_of_ok hkept hbatches⟩
  · intro hgranularity specProto task htask run hrun
    obtain ⟨plan, tests, batches, hexecutes, -, hmem⟩ := executes_of_mem_actions ctx htask
    have hmode : effectiveBatchMode ctx.config plan.translator.parserCapability plan.batchMode =
        .perTest := if_pos hgranularity
    obtain ⟨name, hnames, hselection⟩ :=
      per_test_task_names ctx hmode hexecutes.batches_ok hmem hrun
    refine ⟨name, hselection, fun request hrequest => ?_⟩
    obtain ⟨path, repeatIndex, attemptIndex, firstCall, heq⟩ := task_run_eq ctx hmem hrun
    rw [heq] at hrequest
    obtain ⟨_, _, -, rfl⟩ := run_group_requests ctx plan repeatIndex hrequest
    show displayTestcases run.selection = [name]
    rw [hselection]
    rfl

end Result

/-! ### A long history -/

/-- A store whose tests took `2 ^ 63` milliseconds. -/
def DurationDb.slow : DurationDb :=
  { DurationDb.ephemeral with
    perf := fun _ => (∅ : Table UInt64 PerfRecord).insert 0 ⟨[⟨0, 9223372036854775808⟩]⟩ }

/-- Batching two such tests panics in a build with overflow checks. -/
theorem slow_tests_abort_batching :
    letI := External.inert
    let ctx := { TargetCtx.withoutFlags (.always (.finished 0 "")) with
      estimates := DurationDb.slow }
    let kept := [syntheticTest "a", syntheticTest "b"]
    ctx.config.batchMode = .fixedChunk ⟨32, by decide⟩ ∧
      buildBatches "root//pkg:tests" kept ctx.config ctx.estimates ctx.profile .nameAttributable
        (targetBatchMode []) = .error "attempt to add with overflow" ∧
      ¬∃ batches, buildBatches "root//pkg:tests" kept ctx.config ctx.estimates ctx.profile
          .nameAttributable (targetBatchMode []) = .ok batches ∧
        BatchShape ctx "root//pkg:tests" kept .nameAttributable [] batches := by
  let := External.inert
  intro ctx kept
  have hpanic : buildBatches "root//pkg:tests" kept ctx.config ctx.estimates ctx.profile
      .nameAttributable (targetBatchMode []) = .error "attempt to add with overflow" := by
    decide +kernel
  refine ⟨rfl, hpanic, ?_⟩
  rintro ⟨batches, hbatches, -⟩
  rw [hpanic] at hbatches
  cases hbatches

/-- Two tests without history are batched together. -/
theorem unseen_tests_are_batched :
    letI := External.inert
    let ctx := TargetCtx.withoutFlags (.always (.finished 0 ""))
    let kept := [syntheticTest "a", syntheticTest "b"]
    ∃ batches, buildBatches "root//pkg:tests" kept ctx.config ctx.estimates ctx.profile
        .nameAttributable (targetBatchMode []) = .ok batches ∧
      BatchShape ctx "root//pkg:tests" kept .nameAttributable [] batches := by
  let := External.inert
  intro ctx kept
  refine (batch_shape_iff ctx "root//pkg:tests" kept .nameAttributable [] (by decide)).1.mpr ?_
  have hbuilt : (buildBatches "root//pkg:tests" kept ctx.config ctx.estimates .checked
      .nameAttributable (targetBatchMode [])).toOption.isSome = true := by
    decide +kernel
  have hok : ∃ batches, buildBatches "root//pkg:tests" kept ctx.config ctx.estimates .checked
      .nameAttributable (targetBatchMode []) = .ok batches := by
    cases hbatches : buildBatches "root//pkg:tests" kept ctx.config ctx.estimates .checked
        .nameAttributable (targetBatchMode []) with
    | error message => rw [hbatches] at hbuilt; cases hbuilt
    | ok batches => exact ⟨batches, rfl⟩
  exact fun _ => (build_batches_fits_iff _ _ _ _ _ _).exists_ok.mp hok

end Quokka
