import Quokka.Library.Text
import Mathlib.Data.List.Infix

/-!
# Where a text is found

What the searches of `Text` return, for any pattern. A search finds the first occurrence
(`split_first_first`), and text behind an occurrence does not change what is found
(`split_first_append`). The searches from the end are the same on reversed texts.
-/

namespace Text

variable {pattern text before rest : List Char}

theorem cut_prefix_eq_none : cutPrefix pattern text = none ↔ ¬ pattern <+: text := by
  constructor
  · intro hnone hstarts
    obtain ⟨rest, hrest⟩ := hstarts
    rw [cut_prefix_eq_some.mpr hrest.symm] at hnone
    cases hnone
  · intro hstarts
    cases hcut : cutPrefix pattern text with
    | none => rfl
    | some rest => exact absurd ⟨rest, (cut_prefix_eq_some.mp hcut).symm⟩ hstarts

/-- At its beginning a text is found. -/
theorem split_first_start (pattern rest : List Char) :
    splitFirst pattern (pattern ++ rest) = some ([], rest) := by
  have hcut : cutPrefix pattern (pattern ++ rest) = some rest := cut_prefix_eq_some.mpr rfl
  cases htext : pattern ++ rest with
  | nil => simp [splitFirst, htext ▸ hcut]
  | cons c text =>
      rw [htext] at hcut
      rw [splitFirst, hcut]

/-- Where a text does not begin with the pattern, the search goes on. -/
theorem split_first_cons {c : Char} (h : ¬ pattern <+: c :: text) :
    splitFirst pattern (c :: text) =
      (splitFirst pattern text).map fun (before, rest) => (c :: before, rest) := by
  rw [splitFirst, cut_prefix_eq_none.mpr h]

theorem split_first_eq_none : splitFirst pattern text = none ↔ ¬ pattern <:+: text := by
  induction text with
  | nil => simp [splitFirst, cut_prefix_eq_none]
  | cons c text ih =>
      rw [List.infix_cons_iff]
      by_cases h : pattern <+: c :: text
      · obtain ⟨rest, hrest⟩ := h
        rw [← hrest, split_first_start]
        simp
      · rw [split_first_cons h, Option.map_eq_none_iff, ih]
        simp [h]

/-- The parts around an occurrence make up the text. -/
theorem eq_of_split_first (h : splitFirst pattern text = some (before, rest)) :
    text = before ++ pattern ++ rest := by
  induction text generalizing before with
  | nil =>
      obtain ⟨_, hcut, hparts⟩ := Option.map_eq_some_iff.mp h
      obtain ⟨rfl, rfl⟩ := Prod.mk.inj hparts
      simpa using cut_prefix_eq_some.mp hcut
  | cons c text ih =>
      by_cases hstart : pattern <+: c :: text
      · obtain ⟨tail, htail⟩ := hstart
        rw [← htail, split_first_start] at h
        obtain ⟨rfl, rfl⟩ := Prod.mk.inj (Option.some.inj h)
        exact htail.symm
      · rw [split_first_cons hstart] at h
        obtain ⟨⟨start, _⟩, hfound, hparts⟩ := Option.map_eq_some_iff.mp h
        obtain ⟨rfl, rfl⟩ := Prod.mk.inj hparts
        rw [ih hfound]
        rfl

/-- What follows an occurrence does not change what is found. -/
theorem split_first_append (h : splitFirst pattern text = some (before, rest))
    (more : List Char) : splitFirst pattern (text ++ more) = some (before, rest ++ more) := by
  have hpattern : pattern <:+: text := ⟨before, rest, (eq_of_split_first h).symm⟩
  induction text generalizing before with
  | nil =>
      have hnil := eq_of_split_first h
      obtain rfl : pattern = [] := List.eq_nil_of_infix_nil hpattern
      simp at hnil
      obtain ⟨rfl, rfl⟩ := hnil
      exact split_first_start [] more
  | cons c text ih =>
      by_cases hstart : pattern <+: c :: text
      · obtain ⟨tail, htail⟩ := hstart
        rw [← htail, split_first_start] at h
        obtain ⟨rfl, rfl⟩ := Prod.mk.inj (Option.some.inj h)
        rw [← htail, List.append_assoc, split_first_start]
      · rw [split_first_cons hstart] at h
        obtain ⟨⟨start, tail⟩, hfound, hparts⟩ := Option.map_eq_some_iff.mp h
        obtain ⟨rfl, rfl⟩ := Prod.mk.inj hparts
        have htext : pattern <:+: text := ⟨start, tail, (eq_of_split_first hfound).symm⟩
        -- The pattern is too short to reach into `more` from here.
        have hlonger : ¬ pattern <+: c :: (text ++ more) := by
          intro hmore
          have hlength : pattern.length ≤ (c :: text).length := by
            have hle := htext.length_le
            rw [List.length_cons]
            omega
          exact hstart (List.prefix_of_prefix_length_le hmore
            (List.prefix_append (c :: text) more) hlength)
        rw [List.cons_append, split_first_cons hlonger, ih hfound htext]
        rfl

/-- An occurrence before which there is none, not even an overlapping one, is found. -/
theorem split_first_first (h : ¬ pattern <:+: before ++ pattern.dropLast) (rest : List Char) :
    splitFirst pattern (before ++ pattern ++ rest) = some (before, rest) := by
  induction before with
  | nil => exact split_first_start pattern rest
  | cons c before ih =>
      have hstart : ¬ pattern <+: c :: (before ++ pattern ++ rest) := by
        intro hstart
        have hpart : c :: (before ++ pattern.dropLast) <+: c :: (before ++ pattern ++ rest) := by
          rw [List.prefix_cons_inj, List.append_assoc, List.prefix_append_right_inj]
          exact (List.dropLast_prefix pattern).trans (List.prefix_append pattern rest)
        have hlength : pattern.length ≤ (c :: (before ++ pattern.dropLast)).length := by
          simp only [List.length_cons, List.length_append, List.length_dropLast]
          omega
        exact h (List.prefix_of_prefix_length_le hstart hpart hlength).isInfix
      rw [List.cons_append, List.cons_append, split_first_cons hstart,
        ih fun hmem => h (hmem.trans (List.suffix_cons c _).isInfix)]
      rfl

/-- A pattern that begins with another character is not found earlier. -/
theorem split_first_skip {c : Char} (h : c ∉ before) (text : List Char) :
    splitFirst (c :: pattern) (before ++ text) =
      (splitFirst (c :: pattern) text).map fun (start, rest) => (before ++ start, rest) := by
  induction before with
  | nil => simp
  | cons d before ih =>
      have hd : ¬ c :: pattern <+: d :: (before ++ text) := by
        intro hstart
        have hcd := (List.cons_prefix_cons.mp hstart).1
        exact h (hcd ▸ List.mem_cons_self)
      rw [List.cons_append, split_first_cons hd, ih fun hmem => h (List.mem_cons_of_mem _ hmem),
        Option.map_map]
      rfl

/-- The text around the first occurrence of a character. -/
theorem split_first_char {c : Char} :
    splitFirst [c] text = some (before, rest) ↔ text = before ++ c :: rest ∧ c ∉ before := by
  constructor
  · intro h
    have htext := eq_of_split_first h
    refine ⟨by simpa using htext, fun hmem => ?_⟩
    -- An earlier occurrence is found in the text before it, so with less before it.
    obtain ⟨start, middle, hbefore, hstart⟩ := List.eq_append_cons_of_mem hmem
    have hearlier : splitFirst [c] text = some (start, middle ++ c :: rest) := by
      rw [htext, hbefore, List.append_assoc, List.append_assoc, split_first_skip hstart]
      show Option.map _ (splitFirst [c] ([c] ++ (middle ++ ([c] ++ rest)))) = _
      rw [split_first_start]
      simp
    have hsame := (Prod.mk.inj (Option.some.inj (h.symm.trans hearlier))).1
    rw [hsame] at hbefore
    exact absurd (congrArg List.length hbefore) (by simp)
  · intro h
    rw [h.1, split_first_skip h.2]
    show Option.map _ (splitFirst [c] ([c] ++ rest)) = _
    rw [split_first_start]
    simp

/-! ## From the end -/

/-- The text around the last occurrence of a character. -/
theorem split_last_char {c : Char} :
    splitLast [c] text = some (before, rest) ↔ text = before ++ c :: rest ∧ c ∉ rest := by
  have hreverse : text.reverse = rest.reverse ++ c :: before.reverse ↔
      text = before ++ c :: rest := by
    rw [← List.reverse_inj, List.reverse_reverse]
    simp
  rw [← hreverse, ← List.mem_reverse, ← split_first_char, splitLast, Option.map_eq_some_iff]
  constructor
  · rintro ⟨⟨after, front⟩, hfound, hparts⟩
    obtain ⟨rfl, rfl⟩ := Prod.mk.inj hparts
    rw [List.reverse_reverse, List.reverse_reverse]
    exact hfound
  · intro hfound
    exact ⟨_, hfound, Prod.ext before.reverse_reverse rest.reverse_reverse⟩

theorem split_last_eq_none : splitLast pattern text = none ↔ ¬ pattern <:+: text := by
  rw [splitLast, Option.map_eq_none_iff, split_first_eq_none, List.reverse_infix]

/-- What stands before an occurrence does not change which is the last. -/
theorem split_last_append (h : splitLast pattern text = some (before, rest))
    (start : List Char) : splitLast pattern (start ++ text) = some (start ++ before, rest) := by
  obtain ⟨⟨after, front⟩, hfound, hparts⟩ := Option.map_eq_some_iff.mp h
  obtain ⟨rfl, rfl⟩ := Prod.mk.inj hparts
  rw [splitLast, List.reverse_append, split_first_append hfound]
  simp

/-- An occurrence after which there is none, not even an overlapping one, is the last. -/
theorem split_last_last (h : ¬ pattern <:+: pattern.tail ++ rest) (before : List Char) :
    splitLast pattern (before ++ pattern ++ rest) = some (before, rest) := by
  have hreverse : ¬ pattern.reverse <:+: rest.reverse ++ pattern.reverse.dropLast := by
    rw [List.dropLast_reverse, ← List.reverse_append, List.reverse_infix]
    exact h
  have hfirst := split_first_first hreverse before.reverse
  rw [splitLast, List.reverse_append, List.reverse_append, ← List.append_assoc, hfirst]
  simp

theorem rsplit_once_eq_none {text pattern : String} :
    rsplitOnce text pattern = none ↔ ¬ pattern.toList <:+: text.toList := by
  rw [rsplitOnce, Option.map_eq_none_iff, split_last_eq_none]

theorem rsplit_once_append {text pattern before rest : String}
    (h : rsplitOnce text pattern = some (before, rest)) (start : String) :
    rsplitOnce (start ++ text) pattern = some (start ++ before, rest) := by
  obtain ⟨⟨front, after⟩, hfound, hparts⟩ := Option.map_eq_some_iff.mp h
  obtain ⟨rfl, rfl⟩ := Prod.mk.inj hparts
  rw [rsplitOnce, String.toList_append, split_last_append hfound]
  simp [String.ofList_append]

theorem rsplit_once_last {pattern rest : String}
    (h : ¬ pattern.toList <:+: pattern.toList.tail ++ rest.toList) (before : String) :
    rsplitOnce (before ++ pattern ++ rest) pattern = some (before, rest) := by
  rw [rsplitOnce, String.toList_append, String.toList_append, split_last_last h]
  simp

/-! ## Separators of one character -/

section Separator

variable {c : Char} {text separator before rest word : String}

theorem map_of_list_eq_some {found : Option (List Char × List Char)} :
    (found.map fun (before, rest) => (String.ofList before, String.ofList rest)) =
        some (before, rest) ↔
      found = some (before.toList, rest.toList) := by
  rw [Option.map_eq_some_iff]
  constructor
  · rintro ⟨⟨start, tail⟩, hfound, hparts⟩
    obtain ⟨rfl, rfl⟩ := Prod.mk.inj hparts
    rwa [String.toList_ofList, String.toList_ofList]
  · intro hfound
    exact ⟨_, hfound, Prod.ext String.ofList_toList String.ofList_toList⟩

theorem eq_append_separator_iff (h : separator.toList = [c]) :
    text = before ++ separator ++ rest ↔ text.toList = before.toList ++ c :: rest.toList := by
  rw [← String.toList_inj, String.toList_append, String.toList_append, h, List.append_assoc]
  rfl

theorem split_once_char (h : separator.toList = [c]) :
    splitOnce text separator = some (before, rest) ↔
      text = before ++ separator ++ rest ∧ c ∉ before.toList := by
  rw [eq_append_separator_iff h, ← split_first_char, splitOnce, h, map_of_list_eq_some]

theorem rsplit_once_char (h : separator.toList = [c]) :
    rsplitOnce text separator = some (before, rest) ↔
      text = before ++ separator ++ rest ∧ c ∉ rest.toList := by
  rw [eq_append_separator_iff h, ← split_last_char, rsplitOnce, h, map_of_list_eq_some]

/-- What a search at a separator leaves is a word without it, or the text is that word. -/
theorem found_rest_eq_iff {found : Option (String × String)} {Before : String → String → Prop}
    (hnone : found = none ↔ c ∉ text.toList)
    (hsome : ∀ before rest, found = some (before, rest) ↔
      text = before ++ separator ++ rest ∧ Before before rest)
    (hword : c ∉ word.toList) :
    (found.getD ("", text)).2 = word ↔
      text = word ∨ ∃ before, Before before word ∧ text = before ++ separator ++ word := by
  constructor
  · intro h
    cases found with
    | none => exact .inl h
    | some parts =>
        obtain ⟨before, rest⟩ := parts
        obtain ⟨htext, hbefore⟩ := (hsome before rest).mp rfl
        obtain rfl : rest = word := h
        exact .inr ⟨before, hbefore, htext⟩
  · rintro (rfl | ⟨before, hbefore, htext⟩)
    · rw [hnone.mpr hword]
      rfl
    · rw [(hsome before word).mpr ⟨htext, hbefore⟩]
      rfl

theorem split_once_rest_eq_iff (h : separator.toList = [c]) (hword : c ∉ word.toList) :
    ((splitOnce text separator).getD ("", text)).2 = word ↔
      text = word ∨
        ∃ before : String, c ∉ before.toList ∧ text = before ++ separator ++ word := by
  refine found_rest_eq_iff ?_ (fun before rest => split_once_char h) hword
  rw [splitOnce, Option.map_eq_none_iff, split_first_eq_none, h, List.singleton_infix_iff]

theorem rsplit_once_rest_eq_iff (h : separator.toList = [c]) (hword : c ∉ word.toList) :
    ((rsplitOnce text separator).getD ("", text)).2 = word ↔
      text = word ∨ ∃ before : String, text = before ++ separator ++ word := by
  refine (found_rest_eq_iff ?_ (fun before rest => rsplit_once_char h) hword).trans ?_
  · rw [rsplit_once_eq_none, h, List.singleton_infix_iff]
  · simp only [hword, not_false_eq_true, true_and]

/-- Two texts around a separator are the same when their parts are, or when one of the separators
stands in what the other one ends or begins. -/
theorem append_separator_eq_iff (h : separator.toList = [c]) {start finish : String} :
    before ++ separator ++ rest = start ++ separator ++ finish ↔
      (before = start ∧ rest = finish) ∨
      (∃ middle, start = before ++ separator ++ middle ∧
        rest = middle ++ separator ++ finish) ∨
      ∃ middle, before = start ++ separator ++ middle ∧
        finish = middle ++ separator ++ rest := by
  constructor
  · intro hsame
    have hlist := (eq_append_separator_iff h).mp hsame
    rw [(eq_append_separator_iff h).mp rfl] at hlist
    rcases List.append_eq_append_iff.mp hlist with ⟨more, hstart, hrest⟩ | ⟨more, hbefore, hfinish⟩
    · rcases List.cons_eq_append_iff.mp hrest with ⟨rfl, hsame⟩ | ⟨middle, rfl, hmiddle⟩
      · rw [List.append_nil] at hstart
        exact .inl ⟨String.toList_inj.mp hstart.symm,
          String.toList_inj.mp (List.cons.inj hsame).2.symm⟩
      · refine .inr (.inl ⟨String.ofList middle, ?_, ?_⟩)
        · rw [eq_append_separator_iff h, hstart, String.toList_ofList]
        · rw [eq_append_separator_iff h, hmiddle, String.toList_ofList]
    · rcases List.cons_eq_append_iff.mp hfinish with ⟨rfl, hsame⟩ | ⟨middle, rfl, hmiddle⟩
      · rw [List.append_nil] at hbefore
        exact .inl ⟨String.toList_inj.mp hbefore, String.toList_inj.mp (List.cons.inj hsame).2⟩
      · refine .inr (.inr ⟨String.ofList middle, ?_, ?_⟩)
        · rw [eq_append_separator_iff h, hbefore, String.toList_ofList]
        · rw [eq_append_separator_iff h, hmiddle, String.toList_ofList]
  · rintro (⟨rfl, rfl⟩ | ⟨middle, rfl, rfl⟩ | ⟨middle, rfl, rfl⟩)
    · rfl
    · simp only [String.append_assoc]
    · simp only [String.append_assoc]

/-- Behind the last separator the parts are told apart. -/
theorem append_separator_inj (h : separator.toList = [c]) {start finish : String}
    (hrest : c ∉ rest.toList) (hfinish : c ∉ finish.toList) :
    before ++ separator ++ rest = start ++ separator ++ finish ↔
      before = start ∧ rest = finish := by
  have hmem : ∀ middle text : String, c ∈ (middle ++ separator ++ text).toList := by
    intro middle text
    rw [(eq_append_separator_iff h).mp rfl]
    exact List.mem_append_right _ List.mem_cons_self
  rw [append_separator_eq_iff h]
  refine ⟨fun hcases => hcases.resolve_right ?_, .inl⟩
  rintro (⟨middle, -, rfl⟩ | ⟨middle, -, rfl⟩)
  · exact hrest (hmem middle finish)
  · exact hfinish (hmem middle rest)

end Separator

end Text
