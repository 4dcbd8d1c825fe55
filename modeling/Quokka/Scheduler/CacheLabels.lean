import Quokka.Library.Search
import Quokka.Scheduler.SeenTests
import Quokka.Scheduler.WholeTarget

/-!
# Labels that disable caching

A label asks for a target that is not cached by the word that it ends with. The cache class is
derived from what follows the first `:`, so that a word behind more than one namespace is not
recognized: `non_hermetic_labels_iff` is the condition on the labels of a target, and
`nested_namespace_is_cached` a target that is cached.
-/

namespace Quokka

/-! ## Words in labels -/

/-- The last of the segments that `:` separates. -/
def lastSegment (label : String) : String :=
  ((Text.rsplitOnce label ":").getD ("", label)).2

/-- Some label is a word of a non-hermetic target, or its last segment is one. -/
def NonHermetic (labels : List String) : Prop :=
  ∃ label ∈ labels, label ∈ cacheDisablingWords ∨ lastSegment label ∈ cacheDisablingWords

/-- Some label is such a word, alone or behind one namespace only. -/
def Recognized (labels : List String) : Prop :=
  ∃ label ∈ labels, ∃ word ∈ cacheDisablingWords,
    label = word ∨ ∃ space : String, ':' ∉ space.toList ∧ label = space ++ ":" ++ word

theorem cache_disabling_words_flat : ∀ word ∈ cacheDisablingWords, ':' ∉ word.toList := by
  decide

theorem label_suffix_eq_iff {label word : String} (hword : ':' ∉ word.toList) :
    labelSuffix label = word ↔
      label = word ∨ ∃ space : String, ':' ∉ space.toList ∧ label = space ++ ":" ++ word :=
  Text.split_once_rest_eq_iff rfl hword

theorem last_segment_eq_iff {label word : String} (hword : ':' ∉ word.toList) :
    lastSegment label = word ↔ label = word ∨ ∃ space : String, label = space ++ ":" ++ word :=
  Text.rsplit_once_rest_eq_iff rfl hword

/-- A label that is recognized ends with the word. -/
theorem Recognized.non_hermetic {labels : List String} (h : Recognized labels) :
    NonHermetic labels := by
  obtain ⟨label, hlabel, word, hword, hends⟩ := h
  have hlast : lastSegment label = word :=
    (last_segment_eq_iff (cache_disabling_words_flat word hword)).mpr
      (hends.imp_right fun ⟨space, _, hspace⟩ => ⟨space, hspace⟩)
  exact ⟨label, hlabel, .inr (hlast ▸ hword)⟩

theorem cache_class_eq_disabled_iff (labels : List String) :
    cacheClass labels = .disabled ↔ Recognized labels := by
  have hany : anyLabel labels cacheDisablingWords.contains = true ↔ Recognized labels := by
    simp only [anyLabel, List.any_eq_true, List.contains_iff_mem]
    refine exists_congr fun label => and_congr_right fun _ => ?_
    constructor
    · intro hmem
      exact ⟨_, hmem, (label_suffix_eq_iff (cache_disabling_words_flat _ hmem)).mp rfl⟩
    · rintro ⟨word, hword, hends⟩
      rwa [(label_suffix_eq_iff (cache_disabling_words_flat word hword)).mpr hends]
  rw [← hany, cacheClass]
  split
  case isTrue h => exact iff_of_true rfl h
  case isFalse h => exact iff_of_false nofun h

/-- `stress` is one of the words, so that a target of the cacheable class is not repeated by its
labels. -/
theorem target_repetition_of_cacheable {labels : List String} {config : RunnerConfig}
    (h : cacheClass labels = .cacheable) (hconfig : config.stress.isStress = false) :
    targetRepetition config labels = .once := by
  have hstress : ¬(anyLabel labels fun suffix => suffix == "stress") = true := by
    intro hany
    obtain ⟨label, hlabel, hsuffix⟩ := List.any_eq_true.mp hany
    have hdisabled : cacheClass labels = .disabled :=
      if_pos (List.any_eq_true.mpr ⟨label, hlabel, by rw [eq_of_beq hsuffix]; decide⟩)
    rw [h] at hdisabled
    cases hdisabled
  unfold targetRepetition
  rw [hconfig, if_neg Bool.false_ne_true, if_neg hstress]

/-! ## Requests of a target -/

/-- No request of a target with these labels has test-execution caching enabled, whatever its
specification, the configuration, the history and the answers of the orchestrator are. -/
def DisableCaching (labels : List String) : Prop :=
  ∀ [External] (ctx : TargetCtx) (specProto : ExternalRunnerSpec) (spec : TargetSpec),
    TargetSpec.fromProto specProto = .ok spec → spec.labels = labels →
    ∀ task ∈ (runTarget ctx specProto).actions, ∀ request ∈ task.run.requests,
      request.caching = .disabled

theorem derive_cache_class [HarnessText] {spec : TargetSpec} {config : RunnerConfig}
    {plan : TargetPlan} (h : TargetPlan.derive spec config = .ok plan) :
    plan.cacheClass = cacheClass spec.labels := by
  unfold TargetPlan.derive at h
  split at h
  · cases h
  · rw [← Except.ok.inj h]

/-- The cache class reaches the requests of every batch, attempt and isolated member. -/
theorem requests_of_disabled {labels : List String} (h : cacheClass labels = .disabled) :
    DisableCaching labels := by
  intro _ ctx specProto spec hspec hlabels task htask request hrequest
  obtain ⟨plan, tests, batches, hexecutes, -, hmem⟩ := executes_of_mem_actions ctx htask
  have hclass : plan.cacheClass = .disabled := by
    rw [derive_cache_class hexecutes.plan_ok,
      Except.ok.inj (hexecutes.spec_ok.symm.trans hspec), hlabels, h]
  obtain ⟨run, hrun, hsent⟩ := List.mem_flatMap.mp hrequest
  obtain ⟨path, repeatIndex, attemptIndex, firstCall, heq⟩ := task_run_eq ctx hmem hrun
  rw [heq] at hsent
  obtain ⟨index, memoryMax, -, rfl⟩ := run_group_requests ctx plan repeatIndex hsent
  exact group_caching_of_uncacheable ctx plan (.inl hclass) index

/-- A documentation test target of the cacheable class has a request with caching enabled. -/
theorem doctest_request_enabled {labels : List String} (h : cacheClass labels = .cacheable) :
    letI := External.inert
    let ctx := TargetCtx.withoutFlags (.always (.finished 0 ""))
    ∃ task ∈ (runTarget ctx (.plain "rust_doctest_v1" labels)).actions,
      ∃ request ∈ task.run.requests, request.caching = .enabled := by
  let := External.inert
  intro ctx
  let plan := TargetPlan.plain "rust_doctest_v1" labels (doctestTranslator ctx.config) ctx.config
  have honce : plan.repetition = .once :=
    @target_repetition_of_cacheable labels ctx.config h rfl
  have hmode : effectiveBatchMode ctx.config .singletonOnly plan.batchMode = .perTest := by
    unfold effectiveBatchMode
    split <;> rfl
  have hexecutes : Executes ctx (.plain "rust_doctest_v1" labels) plan
      [syntheticTest doctestResultName] [.explicit [doctestResultName]] :=
    { spec_ok := rfl
      plan_ok := rfl
      listing := rfl
      overrides := rfl
      not_list_only := rfl
      batches_ok := by
        show buildBatches _ [syntheticTest doctestResultName] ctx.config _ _ .singletonOnly _ = _
        unfold buildBatches
        rw [hmode]
        rfl }
  have hactions := (run_target_actions ctx hexecutes (List.cons_ne_nil _ _)).1
  obtain ⟨first, rest, hrequests, hcaching⟩ := @execute_test_action_first _ ctx plan [0, 0]
    (.explicit [doctestResultName]) [doctestResultName] 0 ctx.config.cgroupMemoryMax
    MemberTables.empty rfl
  -- A first attempt of the default variant that is not repeated, in a run without history.
  have henabled : groupCaching ctx plan [doctestResultName] 0 = .enabled := by
    show (TestExecutionCaching.resolve (cacheClass labels) true plan.repetition.isStress 0) = _
    rw [h, honce]
    rfl
  obtain ⟨task, htask, hrun⟩ : ∃ task ∈ actionTasks ctx plan
      (keptTests ctx plan [syntheticTest doctestResultName]) [.explicit [doctestResultName]],
      task.run = executeTestAction ctx plan [0, 0] (.explicit [doctestResultName])
        [doctestResultName] 0 0 MemberTables.empty := by
    unfold actionTasks
    rw [honce]
    exact ⟨_, List.mem_singleton_self _, rfl⟩
  refine ⟨task, hactions ▸ htask, first, ?_, hcaching.trans henabled⟩
  rw [hrun, hrequests]
  exact List.mem_cons_self

/-! ## Main result -/

/-- Labels of a non-hermetic target disable its caching, and other labels leave the target
cacheable, exactly as long as a word behind several namespaces is not all that the labels ask
with. -/
theorem non_hermetic_labels_iff (labels : List String) :
    ((NonHermetic labels → DisableCaching labels) ∧
        (¬NonHermetic labels → cacheClass labels = .cacheable)) ↔
      (¬NonHermetic labels ∨ Recognized labels) := by
  have hcacheable : ¬Recognized labels ↔ cacheClass labels = .cacheable := by
    rw [← cache_class_eq_disabled_iff]
    cases cacheClass labels with
    | cacheable => exact iff_of_true nofun rfl
    | disabled => exact iff_of_false (fun h => h rfl) nofun
  constructor
  · rintro ⟨hdisable, -⟩
    by_contra hmissed
    obtain ⟨hnon, hunrecognized⟩ := not_or.mp hmissed
    let := External.inert
    obtain ⟨task, htask, request, hrequest, henabled⟩ :=
      doctest_request_enabled (hcacheable.mp hunrecognized)
    have hdisabled := hdisable (not_not.mp hnon) _ _ _ rfl rfl task htask request hrequest
    rw [henabled] at hdisabled
    cases hdisabled
  · intro h
    refine ⟨fun hnon => ?_, fun hnon => hcacheable.mp fun hrec => hnon hrec.non_hermetic⟩
    have hrec := h.resolve_left (not_not.mpr hnon)
    exact @requests_of_disabled labels ((cache_class_eq_disabled_iff labels).mpr hrec)

/-- A word behind two namespaces: the target is cacheable and its request is cached. -/
theorem nested_namespace_is_cached :
    letI := External.inert
    let ctx := TargetCtx.withoutFlags (.always (.finished 0 ""))
    NonHermetic ["ci:linux:uses_network"] ∧ cacheClass ["ci:linux:uses_network"] = .cacheable ∧
      ∃ task ∈ (runTarget ctx (.plain "rust_doctest_v1" ["ci:linux:uses_network"])).actions,
        ∃ request ∈ task.run.requests, request.caching = .enabled := by
  let := External.inert
  intro ctx
  have hcacheable : cacheClass ["ci:linux:uses_network"] = .cacheable := by decide
  exact ⟨⟨_, List.mem_singleton_self _, .inr (by decide)⟩, hcacheable,
    doctest_request_enabled hcacheable⟩

end Quokka
