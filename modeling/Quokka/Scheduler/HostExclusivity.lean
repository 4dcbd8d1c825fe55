import Quokka.Library.KeyedUpdate
import Quokka.Scheduler.Plan

/-!
# Labels that ask for the host

The profiles of a target's labels are combined one by one; an error is the only thing that a label
can do to the labels before it. So a target runs exclusively exactly when some label asks for it
and its labels do not ask for both a GPU and large memory (`exclusive_iff`): then the conflict is
reported and the default profile is taken. The translator and local debugging change the
hardware only.

`exclusivity_monotone_iff` is the result for two lists of labels.
-/

namespace Quokka

/-- Some label asks for `word`. -/
def Labelled (labels : List String) (word : String) : Prop :=
  ∃ label ∈ labels, labelSuffix label = word

/-- The labels ask for hardware that no queue has together. -/
def Conflicting (labels : List String) : Prop :=
  Labelled labels "gpu" ∧ Labelled labels "large-mem"

/-- Some label asks for the host. -/
def AsksForHost (labels : List String) : Prop :=
  Labelled labels "exclusive" ∨ Labelled labels "serial_global_state"

theorem labelled_cons (label : String) (labels : List String) (word : String) :
    Labelled (label :: labels) word ↔ labelSuffix label = word ∨ Labelled labels word :=
  List.exists_mem_cons_iff _ _ _

theorem labelled_mono {labels other : List String}
    (h : ∀ label ∈ labels, ∃ label' ∈ other, labelSuffix label' = labelSuffix label)
    {word : String} (hasks : Labelled labels word) : Labelled other word := by
  obtain ⟨label, hlabel, hword⟩ := hasks
  obtain ⟨label', hlabel', hsame⟩ := h label hlabel
  exact ⟨label', hlabel', hsame.trans hword⟩

/-! ## One label -/

/-- What a label asks for. -/
theorem label_profile_spec (suffix : String) :
    ((labelProfile suffix).hardware.requiresGpu = true ↔ suffix = "gpu") ∧
      ((labelProfile suffix).hardware.requiresLargeMem = true ↔ suffix = "large-mem") ∧
      ((labelProfile suffix).exclusivity = .exclusive ↔
        suffix = "exclusive" ∨ suffix = "serial_global_state") := by
  unfold labelProfile
  split
  case isTrue hgpu =>
    subst hgpu
    decide
  case isFalse hgpu =>
    split
    case isTrue hmem =>
      subst hmem
      decide
    case isFalse hmem =>
      split
      case isTrue hnetwork =>
        subst hnetwork
        decide
      case isFalse hnetwork =>
        split
        case isTrue hhost =>
          rw [Bool.or_eq_true, decide_eq_true_eq, decide_eq_true_eq] at hhost
          exact ⟨iff_of_false Bool.false_ne_true hgpu, iff_of_false Bool.false_ne_true hmem,
            iff_of_true rfl hhost⟩
        case isFalse hhost =>
          rw [Bool.or_eq_true, decide_eq_true_eq, decide_eq_true_eq] at hhost
          cases Text.stripPrefix suffix "local-resource=" with
          | none =>
              exact ⟨iff_of_false Bool.false_ne_true hgpu, iff_of_false Bool.false_ne_true hmem,
                iff_of_false nofun hhost⟩
          | some resource =>
              exact ⟨iff_of_false Bool.false_ne_true hgpu, iff_of_false Bool.false_ne_true hmem,
                iff_of_false nofun hhost⟩

/-- What the union of two profiles is. -/
theorem combine_profiles_spec (first second : SchedulingProfile) :
    (∀ next, first.combine second = .ok next →
      (next.hardware.requiresGpu =
        (first.hardware.requiresGpu || second.hardware.requiresGpu)) ∧
      (next.hardware.requiresLargeMem =
        (first.hardware.requiresLargeMem || second.hardware.requiresLargeMem)) ∧
      (next.exclusivity = .exclusive ↔
        first.exclusivity = .exclusive ∨ second.exclusivity = .exclusive)) ∧
    ((∃ next, first.combine second = .ok next) ↔
      ¬((first.hardware.requiresGpu || second.hardware.requiresGpu) = true ∧
        (first.hardware.requiresLargeMem || second.hardware.requiresLargeMem) = true)) := by
  have hhardware : first.combine second = first.hardware.combine second.hardware >>= _ := rfl
  rw [hhardware]
  unfold HardwareNeeds.combine
  dsimp only
  split
  case isTrue hboth =>
    rw [Bool.and_eq_true] at hboth
    exact ⟨nofun, iff_of_false nofun (not_not.mpr hboth)⟩
  case isFalse hfits =>
    rw [Bool.and_eq_true] at hfits
    refine ⟨fun next hnext => ?_, iff_of_true ⟨_, rfl⟩ hfits⟩
    cases Except.ok.inj hnext
    refine ⟨rfl, rfl, ?_⟩
    dsimp only
    split
    case isTrue hexclusive => exact iff_of_true rfl (.inr hexclusive)
    case isFalse hshared => exact (or_iff_left hshared).symm

/-! ## All labels -/

/-- The two needs that no queue has together. -/
def SchedulingProfile.NeedsBoth (profile : SchedulingProfile) : Prop :=
  profile.hardware.requiresGpu = true ∧ profile.hardware.requiresLargeMem = true

/-- What one more label adds to a profile. -/
theorem combine_label_spec (start : SchedulingProfile) (label : String) :
    (∀ next, start.combine (labelProfile (labelSuffix label)) = .ok next →
      (next.hardware.requiresGpu = true ↔
        start.hardware.requiresGpu = true ∨ labelSuffix label = "gpu") ∧
      (next.hardware.requiresLargeMem = true ↔
        start.hardware.requiresLargeMem = true ∨ labelSuffix label = "large-mem") ∧
      (next.exclusivity = .exclusive ↔ start.exclusivity = .exclusive ∨
        labelSuffix label = "exclusive" ∨ labelSuffix label = "serial_global_state")) ∧
    ((∃ next, start.combine (labelProfile (labelSuffix label)) = .ok next) ↔
      ¬((start.hardware.requiresGpu = true ∨ labelSuffix label = "gpu") ∧
        (start.hardware.requiresLargeMem = true ∨ labelSuffix label = "large-mem"))) := by
  obtain ⟨hvalue, hok⟩ := combine_profiles_spec start (labelProfile (labelSuffix label))
  obtain ⟨hgpu, hmem, hhost⟩ := label_profile_spec (labelSuffix label)
  rw [Bool.or_eq_true, Bool.or_eq_true, hgpu, hmem] at hok
  refine ⟨fun next hcombine => ?_, hok⟩
  obtain ⟨hgpuEq, hmemEq, hexclusive⟩ := hvalue next hcombine
  rw [hgpuEq, hmemEq, Bool.or_eq_true, Bool.or_eq_true, hgpu, hmem, hexclusive, hhost]
  exact ⟨Iff.rfl, Iff.rfl, Iff.rfl⟩

/-- Combining the profiles of labels, from any profile on. -/
theorem foldlM_profiles_spec (labels : List String) (start : SchedulingProfile)
    (hstart : ¬start.NeedsBoth) :
    (∀ profile, labels.foldlM (fun profile label =>
        profile.combine (labelProfile (labelSuffix label))) start = .ok profile →
      (profile.exclusivity = .exclusive ↔
        start.exclusivity = .exclusive ∨ AsksForHost labels)) ∧
    ((∃ profile, labels.foldlM (fun profile label =>
        profile.combine (labelProfile (labelSuffix label))) start = .ok profile) ↔
      ¬((start.hardware.requiresGpu = true ∨ Labelled labels "gpu") ∧
        (start.hardware.requiresLargeMem = true ∨ Labelled labels "large-mem"))) := by
  induction labels generalizing start with
  | nil =>
      have hnone : ∀ word, ¬Labelled [] word := by
        rintro word ⟨label, hmem, -⟩
        cases hmem
      refine ⟨fun profile h => ?_, iff_of_true ⟨_, rfl⟩ ?_⟩
      · cases Except.ok.inj h
        exact (or_iff_left fun h => h.elim (hnone _) (hnone _)).symm
      · rwa [or_iff_left (hnone _), or_iff_left (hnone _)]
  | cons label labels ih =>
      obtain ⟨hvalue, hok⟩ := combine_label_spec start label
      -- The profile after the first label never needs both, or the label would have conflicted.
      have hnext : ∀ next, start.combine (labelProfile (labelSuffix label)) = .ok next →
          ¬next.NeedsBoth := by
        intro next hcombine
        rw [SchedulingProfile.NeedsBoth, (hvalue next hcombine).1, (hvalue next hcombine).2.1]
        exact hok.mp ⟨next, hcombine⟩
      constructor
      · intro profile h
        obtain ⟨next, hcombine, hrest⟩ := Except.foldlM_cons_eq_ok.mp h
        obtain ⟨-, -, hexclusive⟩ := hvalue next hcombine
        rw [(ih next (hnext next hcombine)).1 profile hrest, hexclusive, AsksForHost,
          AsksForHost, labelled_cons, labelled_cons, or_assoc, or_or_or_comm]
      · rw [labelled_cons, labelled_cons]
        constructor
        · rintro ⟨profile, h⟩
          obtain ⟨next, hcombine, hrest⟩ := Except.foldlM_cons_eq_ok.mp h
          have hall := (ih next (hnext next hcombine)).2.mp ⟨profile, hrest⟩
          rwa [(hvalue next hcombine).1, (hvalue next hcombine).2.1, or_assoc, or_assoc] at hall
        · intro hfits
          obtain ⟨next, hcombine⟩ := hok.mpr fun h =>
            hfits ⟨h.1.imp id .inl, h.2.imp id .inl⟩
          have hrestFits := (ih next (hnext next hcombine)).2
          rw [(hvalue next hcombine).1, (hvalue next hcombine).2.1, or_assoc, or_assoc]
            at hrestFits
          obtain ⟨profile, hrest⟩ := hrestFits.mpr hfits
          exact ⟨profile, Except.foldlM_cons_eq_ok.mpr ⟨next, hcombine, hrest⟩⟩

/-- The profile of labels exists exactly when they do not conflict, and then it is exclusive
exactly when some label asks for the host. -/
theorem profile_from_labels_spec (labels : List String) :
    (∀ profile, profileFromLabels labels = .ok profile →
      (profile.exclusivity = .exclusive ↔ AsksForHost labels)) ∧
    ((∃ profile, profileFromLabels labels = .ok profile) ↔ ¬Conflicting labels) := by
  obtain ⟨hvalue, hok⟩ := foldlM_profiles_spec labels {} (fun h => Bool.false_ne_true h.1)
  refine ⟨fun profile h => (hvalue profile h).trans (or_iff_right nofun), hok.trans ?_⟩
  rw [or_iff_right Bool.false_ne_true, or_iff_right Bool.false_ne_true]
  exact Iff.rfl

/-! ## Plans -/

/-- The translator and local debugging leave the exclusivity alone. -/
theorem exclusivity_testing_profile (plan : TargetPlan) (config : RunnerConfig) :
    (plan.testingProfile config).exclusivity = plan.profile.exclusivity := by
  unfold TargetPlan.testingProfile
  split
  · rfl
  · split <;> rfl

section Plans

variable [HarnessText]

/-- A target is executed exclusively exactly when some label asks for the host and the labels do
not conflict. -/
theorem exclusive_iff {spec : TargetSpec} {config : RunnerConfig} {plan : TargetPlan}
    (h : TargetPlan.derive spec config = .ok plan) (testing : RunnerConfig) :
    (plan.testingProfile testing).exclusivity = .exclusive ↔
      AsksForHost spec.labels ∧ ¬Conflicting spec.labels := by
  have hprofile : plan.profile = (profileFromLabels spec.labels).toOption.getD {} := by
    unfold TargetPlan.derive at h
    split at h
    · cases h
    · cases Except.ok.inj h
      rfl
  obtain ⟨hvalue, hok⟩ := profile_from_labels_spec spec.labels
  rw [exclusivity_testing_profile, hprofile, ← hok]
  cases hlabels : profileFromLabels spec.labels with
  | ok profile => exact (hvalue profile hlabels).trans (and_iff_left ⟨profile, rfl⟩).symm
  | error conflict => exact iff_of_false nofun fun ⟨_, _, hfound⟩ => nomatch hfound

/-- More labels keep a target exclusive exactly when they do not conflict. -/
theorem exclusivity_monotone_iff {spec other : TargetSpec} {config otherConfig : RunnerConfig}
    {plan otherPlan : TargetPlan} (h : TargetPlan.derive spec config = .ok plan)
    (hother : TargetPlan.derive other otherConfig = .ok otherPlan)
    (hlabels : ∀ label ∈ spec.labels, ∃ label' ∈ other.labels,
      labelSuffix label' = labelSuffix label)
    (hexclusive : (plan.testingProfile config).exclusivity = .exclusive) :
    (otherPlan.testingProfile otherConfig).exclusivity = .exclusive ↔
      ¬Conflicting other.labels := by
  rw [exclusive_iff hother]
  refine and_iff_right (((exclusive_iff h config).mp hexclusive).1.imp ?_ ?_)
  · exact labelled_mono hlabels
  · exact labelled_mono hlabels

end Plans

/-- One more label, and another namespace. -/
theorem gpu_target_stays_exclusive :
    letI := External.inert
    ∃ plan otherPlan,
      TargetPlan.derive (.plain "rust" ["rust:exclusive"]) .withoutFlags = .ok plan ∧
      TargetPlan.derive (.plain "rust" ["gpu", "ci:exclusive"]) .withoutFlags = .ok otherPlan ∧
      (otherPlan.testingProfile .withoutFlags).exclusivity = .exclusive := by
  let := External.inert
  have hlabels : ∀ label ∈ (TargetSpec.plain "rust" ["rust:exclusive"]).labels,
      ∃ label' ∈ (TargetSpec.plain "rust" ["gpu", "ci:exclusive"]).labels,
        labelSuffix label' = labelSuffix label := by
    intro label hlabel
    cases List.mem_singleton.mp hlabel
    exact ⟨"ci:exclusive", List.mem_cons_of_mem _ List.mem_cons_self, by decide⟩
  obtain ⟨plan, hplan, hexclusive⟩ : ∃ plan,
      TargetPlan.derive (.plain "rust" ["rust:exclusive"]) .withoutFlags = .ok plan ∧
      (plan.testingProfile .withoutFlags).exclusivity = .exclusive := ⟨_, rfl, by decide⟩
  obtain ⟨otherPlan, hother⟩ : ∃ plan,
      TargetPlan.derive (.plain "rust" ["gpu", "ci:exclusive"]) .withoutFlags = .ok plan :=
    ⟨_, rfl⟩
  refine ⟨plan, otherPlan, hplan, hother, ?_⟩
  refine (exclusivity_monotone_iff hplan hother hlabels hexclusive).mpr ?_
  rintro ⟨-, label, hlabel, hmem⟩
  have hall : ∀ label ∈ ["gpu", "ci:exclusive"], labelSuffix label ≠ "large-mem" := by decide
  exact hall label hlabel hmem

/-- Labels that conflict fall back to the default profile. -/
theorem conflict_is_shared :
    letI := External.inert
    ∃ plan otherPlan,
      TargetPlan.derive (.plain "rust" ["serial_global_state"]) .withoutFlags = .ok plan ∧
      TargetPlan.derive (.plain "rust" ["serial_global_state", "gpu", "large-mem"]) .withoutFlags =
        .ok otherPlan ∧
      (plan.testingProfile .withoutFlags).exclusivity = .exclusive ∧
      (otherPlan.testingProfile .withoutFlags).exclusivity = .shared := by
  let := External.inert
  exact ⟨_, _, rfl, rfl, by decide, by decide⟩

end Quokka
