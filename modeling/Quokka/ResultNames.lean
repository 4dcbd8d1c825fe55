import Quokka.Library.Search
import Quokka.Result

/-!
# Result names

A result name joins the test name, the variant and the repeat index of a run with `#`, and none
of them is escaped. `to_buck2_name_eq_iff` says which runs have one name: besides the same run,
those of `Confusable`. `result_names_identify_iff` is the result for two runs of a target.
-/

namespace Quokka

/-- The runs have the same test name and variant, are both stressed or both not, and if stressed
have the same repeat index. -/
structure SameRun (first second : RunIdentity) : Prop where
  name_eq : first.test.name = second.test.name
  variant_eq : first.test.variant = second.test.variant
  stress_eq : first.repetition.isStress = second.repetition.isStress
  index_eq : first.repetition.isStress = true → first.repeatIndex = second.repeatIndex

/-! ## Names and variants -/

/-- The longer test name is the other one, a `#` and a beginning of the other's variant, which
goes on with the variant of the longer name. -/
inductive Shifted : String → Option String → String → Option String → Prop where
  | whole (name text : String) : Shifted name (some text) (name ++ "#" ++ text) none
  | part (name start text : String) :
      Shifted name (some (start ++ "#" ++ text)) (name ++ "#" ++ start) (some text)

/-- The name and variant are the same, or one of the names continues in the other's variant. -/
def Alike (name : String) (variant : Option String) (other : String)
    (otherVariant : Option String) : Prop :=
  (name = other ∧ variant = otherVariant) ∨
    Shifted name variant other otherVariant ∨ Shifted other otherVariant name variant

/-- The test name with its variant. -/
def nameWithVariant (name : String) : Option String → String
  | some text => name ++ "#" ++ text
  | none => name

/-- A longer name is another name. -/
theorem Shifted.name_ne {name other : String} {variant otherVariant : Option String}
    (h : Shifted name variant other otherVariant) : name ≠ other := by
  have hlonger : ∀ more : String, name ≠ name ++ "#" ++ more := by
    intro more hsame
    have hlength := congrArg (fun text : String => text.toList.length) hsame
    simp only [String.toList_append, List.length_append] at hlength
    have hmark : ("#" : String).toList.length = 1 := rfl
    omega
  cases h with
  | whole => exact hlonger _
  | part => exact hlonger _

theorem name_with_variant_eq_iff (name : String) (variant : Option String) (other : String)
    (otherVariant : Option String) :
    nameWithVariant name variant = nameWithVariant other otherVariant ↔
      Alike name variant other otherVariant := by
  constructor
  · intro h
    cases variant with
    | none =>
        cases otherVariant with
        | none => exact .inl ⟨h, rfl⟩
        | some text =>
            obtain rfl : name = other ++ "#" ++ text := h
            exact .inr (.inr (.whole other text))
    | some text =>
        cases otherVariant with
        | none =>
            obtain rfl : name ++ "#" ++ text = other := h
            exact .inr (.inl (.whole name text))
        | some otherText =>
            rcases (Text.append_separator_eq_iff (c := '#') rfl).mp h with
              ⟨rfl, rfl⟩ | ⟨middle, rfl, rfl⟩ | ⟨middle, rfl, rfl⟩
            · exact .inl ⟨rfl, rfl⟩
            · exact .inr (.inl (.part name middle otherText))
            · exact .inr (.inr (.part other middle text))
  · have hshifted : ∀ {name other : String} {variant otherVariant : Option String},
        Shifted name variant other otherVariant →
        nameWithVariant name variant = nameWithVariant other otherVariant := by
      intro name other variant otherVariant h
      cases h with
      | whole => rfl
      | part start text => simp only [nameWithVariant, String.append_assoc]
    rintro (⟨rfl, rfl⟩ | h | h)
    · rfl
    · exact hshifted h
    · exact (hshifted h).symm

/-! ## Repeat indexes -/

/-- What follows the last `#` in the name of a stressed run. -/
def repeatMark (repeatIndex : Nat) : String :=
  "rep" ++ toString repeatIndex

/-- The variant, or the name of a run of the default variant, ends with a mark; the name and
variant without it. -/
inductive Marked (mark : String) :
    String → Option String → String → Option String → Prop where
  | name (name : String) : Marked mark (name ++ "#" ++ mark) none name none
  | variant (name : String) : Marked mark name (some mark) name none
  | variantEnd (name text : String) : Marked mark name (some (text ++ "#" ++ mark)) name (some text)

theorem repeat_mark_flat (repeatIndex : Nat) : '#' ∉ (repeatMark repeatIndex).toList := by
  rw [repeatMark, String.toList_append, List.mem_append]
  rintro (hrep | hdigits)
  · revert hrep
    decide
  · exact absurd (Text.digit_bounds repeatIndex '#' hdigits).1 (by decide)

theorem repeat_mark_inj {first second : Nat} (h : repeatMark first = repeatMark second) :
    first = second := by
  have hdigits : (toString first).toList = (toString second).toList := by
    have hlist := congrArg String.toList h
    simp only [repeatMark, String.toList_append] at hlist
    exact List.append_cancel_left hlist
  have htext : ∀ n : Nat, (toString n).toList = Nat.toDigits 10 n := fun n => Nat.toList_repr
  rw [htext, htext] at hdigits
  rw [← Nat.ofDigitChars_toDigits (by decide : 1 < 10) (by decide) (n := first), hdigits,
    Nat.ofDigitChars_toDigits (by decide) (by decide)]

/-- A text ends with a mark exactly as its parts say. -/
theorem marked_iff {mark text name : String} {variant : Option String}
    (hmark : '#' ∉ mark.toList) :
    text ++ "#" ++ mark = nameWithVariant name variant ↔
      ∃ start startVariant, Marked mark name variant start startVariant ∧
        text = nameWithVariant start startVariant := by
  constructor
  · intro h
    cases variant with
    | none =>
        obtain rfl : text ++ "#" ++ mark = name := h
        exact ⟨text, none, .name text, rfl⟩
    | some variantText =>
        rcases (Text.append_separator_eq_iff (c := '#') rfl).mp h with
          ⟨rfl, rfl⟩ | ⟨middle, -, rfl⟩ | ⟨middle, rfl, rfl⟩
        · exact ⟨text, none, .variant text, rfl⟩
        · exact absurd (by simp) hmark
        · exact ⟨name, some middle, .variantEnd name middle, rfl⟩
  · rintro ⟨start, startVariant, hmarked, rfl⟩
    cases hmarked with
    | name => rfl
    | variant => rfl
    | variantEnd name text => simp only [nameWithVariant, String.append_assoc]

/-! ## Runs -/

/-- A run that is not repeated has the mark of a stressed run at its end, and without it the name
and variant of that run or some that are not told apart from them. -/
def TakesMarkOf (single stressed : RunIdentity) : Prop :=
  single.repetition.isStress = false ∧ stressed.repetition.isStress = true ∧
    ∃ name variant,
      Marked (repeatMark stressed.repeatIndex) single.test.name single.test.variant.identity
        name variant ∧
      Alike stressed.test.name stressed.test.variant.identity name variant

/-- Different runs that have the same result name. -/
inductive Confusable (first second : RunIdentity) : Prop where
  | shifted (hstress : first.repetition.isStress = second.repetition.isStress)
      (hindex : first.repetition.isStress = true → first.repeatIndex = second.repeatIndex)
      (hshifted :
        Shifted first.test.name first.test.variant.identity second.test.name
            second.test.variant.identity ∨
          Shifted second.test.name second.test.variant.identity first.test.name
            first.test.variant.identity)
  | firstMarked (h : TakesMarkOf first second)
  | secondMarked (h : TakesMarkOf second first)

theorem to_buck2_name_eq (run : RunIdentity) :
    run.toBuck2Name =
      if run.repetition.isStress then
        nameWithVariant run.test.name run.test.variant.identity ++ "#" ++
          repeatMark run.repeatIndex
      else nameWithVariant run.test.name run.test.variant.identity := by
  have hrep : "#rep" = "#" ++ "rep" := rfl
  unfold RunIdentity.toBuck2Name nameWithVariant repeatMark
  rw [hrep]
  cases run.test.variant.identity with
  | none => simp only [String.append_assoc]
  | some text => simp only [String.append_assoc]

/-- Variants that were parsed are the same when their identities are. -/
theorem parse_eq_of_identity_eq {first second : String}
    (h : (Variant.parse first).identity = (Variant.parse second).identity) :
    Variant.parse first = Variant.parse second :=
  Variant.parse_eq_of_text_eq (congrArg (Option.getD · "default") h)

section Runs

variable {first second : RunIdentity}

/-- A stressed run and one that is not repeated. -/
theorem takes_mark_of_iff (hsingle : first.repetition.isStress = false)
    (hstressed : second.repetition.isStress = true) :
    first.toBuck2Name = second.toBuck2Name ↔ TakesMarkOf first second := by
  rw [to_buck2_name_eq first, to_buck2_name_eq second, hsingle, hstressed,
    if_neg Bool.false_ne_true, if_pos rfl, eq_comm, marked_iff (repeat_mark_flat _)]
  simp only [name_with_variant_eq_iff]
  exact ((and_iff_right hsingle).trans (and_iff_right hstressed)).symm

/-- Two stressed runs, or two that are not repeated. -/
theorem alike_of_same_stress (h : first.repetition.isStress = second.repetition.isStress) :
    first.toBuck2Name = second.toBuck2Name ↔
      Alike first.test.name first.test.variant.identity second.test.name
          second.test.variant.identity ∧
        (first.repetition.isStress = true → first.repeatIndex = second.repeatIndex) := by
  rw [to_buck2_name_eq first, to_buck2_name_eq second, ← h, ← name_with_variant_eq_iff]
  cases first.repetition.isStress with
  | false => exact (and_iff_left nofun).symm
  | true =>
      rw [if_pos rfl, if_pos rfl, Text.append_separator_inj (c := '#') rfl (repeat_mark_flat _)
        (repeat_mark_flat _)]
      refine and_congr_right fun _ => ?_
      constructor
      · intro hmark _
        exact repeat_mark_inj hmark
      · intro hindex
        rw [hindex rfl]

/-- Which runs have the same result name. -/
theorem to_buck2_name_eq_iff
    (hvariant : first.test.variant.identity = second.test.variant.identity →
      first.test.variant = second.test.variant) :
    first.toBuck2Name = second.toBuck2Name ↔ SameRun first second ∨ Confusable first second := by
  by_cases hstress : first.repetition.isStress = second.repetition.isStress
  · rw [alike_of_same_stress hstress]
    constructor
    · rintro ⟨⟨hname, hidentity⟩ | hshifted, hindex⟩
      · exact .inl ⟨hname, hvariant hidentity, hstress, hindex⟩
      · exact .inr (.shifted hstress hindex hshifted)
    · rintro (hsame | hconfusable)
      · exact ⟨.inl ⟨hsame.name_eq, congrArg Variant.identity hsame.variant_eq⟩, hsame.index_eq⟩
      · cases hconfusable with
        | shifted _ hindex hshifted => exact ⟨.inr hshifted, hindex⟩
        | firstMarked h => exact absurd (hstress.symm.trans h.1) (by rw [h.2.1]; nofun)
        | secondMarked h => exact absurd (hstress.trans h.1) (by rw [h.2.1]; nofun)
  · have hother : ¬SameRun first second := fun hsame => hstress hsame.stress_eq
    rw [or_iff_right hother]
    cases hfirst : first.repetition.isStress with
    | false =>
        have hsecond : second.repetition.isStress = true :=
          (Bool.eq_false_or_eq_true _).resolve_right fun h => hstress (hfirst.trans h.symm)
        rw [takes_mark_of_iff hfirst hsecond]
        refine ⟨.firstMarked, fun h => ?_⟩
        cases h with
        | shifted h => exact absurd h hstress
        | firstMarked h => exact h
        | secondMarked h => exact absurd h.1 (by rw [hsecond]; nofun)
    | true =>
        have hsecond : second.repetition.isStress = false :=
          (Bool.eq_false_or_eq_true _).resolve_left fun h => hstress (hfirst.trans h.symm)
        rw [eq_comm, takes_mark_of_iff hsecond hfirst]
        refine ⟨.secondMarked, fun h => ?_⟩
        cases h with
        | shifted h => exact absurd h hstress
        | firstMarked h => exact absurd h.1 (by rw [hfirst]; nofun)
        | secondMarked h => exact h

/-- Confusable runs are different runs. -/
theorem Confusable.not_same (h : Confusable first second) : ¬SameRun first second := by
  intro hsame
  cases h with
  | shifted _ _ hshifted =>
      rcases hshifted with hshifted | hshifted
      · exact hshifted.name_ne hsame.name_eq
      · exact hshifted.name_ne hsame.name_eq.symm
  | firstMarked h => exact absurd (hsame.stress_eq.symm.trans h.1) (by rw [h.2.1]; nofun)
  | secondMarked h => exact absurd (hsame.stress_eq.trans h.1) (by rw [h.2.1]; nofun)

end Runs

/-! ## Main result -/

/-- Equal result names mean the same run exactly for runs that are not confusable. -/
theorem result_names_identify_iff (target : String) (name value : String) (repetition : RepeatKind)
    (repeatIndex : Nat) (otherName otherValue : String) (otherRepetition : RepeatKind)
    (otherIndex : Nat) :
    let first : RunIdentity := ⟨⟨target, name, .parse value⟩, repetition, repeatIndex⟩
    let second : RunIdentity :=
      ⟨⟨target, otherName, .parse otherValue⟩, otherRepetition, otherIndex⟩
    (first.toBuck2Name = second.toBuck2Name → SameRun first second) ↔
      ¬Confusable first second := by
  intro first second
  have hiff : first.toBuck2Name = second.toBuck2Name ↔
      SameRun first second ∨ Confusable first second :=
    to_buck2_name_eq_iff parse_eq_of_identity_eq
  rw [hiff]
  constructor
  · intro himp hconfusable
    exact hconfusable.not_same (himp (.inr hconfusable))
  · intro hnot h
    exact h.resolve_right hnot

/-- The repetition of a test with the index 3, and its run under the variant `rep3`. -/
theorem repetition_named_as_variant :
    let stressed : RunIdentity := ⟨⟨"m", "t", .parse "default"⟩, .stress ⟨5, by decide⟩, 3⟩
    let single : RunIdentity := ⟨⟨"m", "t", .parse "rep3"⟩, .once, 0⟩
    stressed.toBuck2Name = single.toBuck2Name ∧ ¬SameRun stressed single := by
  intro stressed single
  refine ⟨by decide, fun hsame => ?_⟩
  cases hsame.stress_eq

end Quokka
