import Quokka.Library.Search

/-!
# The lines of a text

How `Text.lines` cuts a text that is put together from parts. A line feed ends a line whatever
comes after it, so the lines of a text and of what follows its last line feed are independent of
each other (`line_chars_append`); a part without a line feed is one line or the beginning of one.

`unlines` is a text given by its lines. A search for a pattern on one line is a search through
the lines (`split_first_unlines`), and a search for a line feed and more is one for a line that
begins so (`split_first_newline`).
-/

namespace Text

theorem line_chars_newline (piece text : List Char) :
    lineChars piece ('\n' :: text) = chomp piece.reverse :: lineChars [] text := rfl

theorem line_chars_cons {c : Char} (h : c ≠ '\n') (piece text : List Char) :
    lineChars piece (c :: text) = lineChars (c :: piece) text := by
  simp [lineChars]

/-- What follows a line feed starts a line of its own. -/
theorem line_chars_append (piece text rest : List Char) :
    lineChars piece (text ++ '\n' :: rest) =
      lineChars piece (text ++ ['\n']) ++ lineChars [] rest := by
  induction text generalizing piece with
  | nil => rfl
  | cons c text ih =>
      by_cases h : c = '\n'
      · subst h
        simp only [List.cons_append, line_chars_newline, ih]
      · simp only [List.cons_append, line_chars_cons h, ih]

/-- Characters without a line feed are collected. -/
theorem line_chars_collect {line : List Char} (h : '\n' ∉ line) (piece text : List Char) :
    lineChars piece (line ++ text) = lineChars (line.reverse ++ piece) text := by
  induction line generalizing piece with
  | nil => rfl
  | cons c line ih =>
      have hc : c ≠ '\n' := fun hc => h (hc ▸ List.mem_cons_self)
      have hline : '\n' ∉ line := fun hmem => h (List.mem_cons_of_mem _ hmem)
      rw [List.cons_append, line_chars_cons hc, ih hline]
      simp

/-- A terminated line, and the lines after it. -/
theorem line_chars_line {line : List Char} (h : '\n' ∉ line) (rest : List Char) :
    lineChars [] (line ++ '\n' :: rest) = chomp line :: lineChars [] rest := by
  rw [line_chars_collect h, line_chars_newline]
  simp

/-- A last line without a line feed counts unless it is empty. -/
theorem line_chars_last {line : List Char} (h : '\n' ∉ line) :
    lineChars [] line = if line = [] then [] else [line] := by
  have hcollect := line_chars_collect h [] []
  rw [List.append_nil, List.append_nil] at hcollect
  rw [hcollect]
  simp [lineChars]

/-- A text is what its last line feed ends and an unfinished line. -/
theorem exists_unfinished_line (text : List Char) :
    ∃ full line, text = full ++ line ∧ '\n' ∉ line ∧
      (full = [] ∨ ∃ body, full = body ++ ['\n']) := by
  induction text with
  | nil => exact ⟨[], [], rfl, nofun, .inl rfl⟩
  | cons c text ih =>
      obtain ⟨full, line, rfl, hline, hfull⟩ := ih
      rcases hfull with rfl | ⟨body, rfl⟩
      · by_cases h : c = '\n'
        · subst h
          exact ⟨['\n'], line, rfl, hline, .inr ⟨[], rfl⟩⟩
        · refine ⟨[], c :: line, rfl, fun hmem => ?_, .inl rfl⟩
          rcases List.mem_cons.mp hmem with hc | hmem
          · exact h hc.symm
          · exact hline hmem
      · exact ⟨c :: (body ++ ['\n']), line, rfl, hline, .inr ⟨c :: body, rfl⟩⟩

/-- The lines of a text whose last line is finished, and of what follows. -/
theorem line_chars_append_full {full : List Char} (h : full = [] ∨ ∃ body, full = body ++ ['\n'])
    (rest : List Char) : lineChars [] (full ++ rest) = lineChars [] full ++ lineChars [] rest := by
  rcases h with rfl | ⟨body, rfl⟩
  · rfl
  · rw [List.append_assoc]
    exact line_chars_append [] body rest

/-- Dropping a carriage return leaves a prefix. -/
theorem prefix_of_chomp (line : List Char) : chomp line <+: line := by
  unfold chomp
  split
  · exact List.dropLast_prefix line
  · exact List.prefix_rfl

/-- A line without a carriage return stays as it is. -/
theorem chomp_eq_self {line : List Char} (h : '\r' ∉ line) : chomp line = line := by
  unfold chomp
  split
  · rename_i hlast
    exact absurd (List.mem_of_getLast? hlast) h
  · rfl

/-- Only the end of a line is looked at. -/
theorem chomp_append {head : List Char} (h : head.getLast? ≠ some '\r') (line : List Char) :
    chomp (head ++ line) = head ++ chomp line := by
  rcases List.eq_nil_or_concat line with rfl | ⟨start, c, rfl⟩
  · have hnil : chomp [] = [] := rfl
    rw [hnil, List.append_nil, chomp, if_neg h]
  · rw [List.concat_eq_append, ← List.append_assoc]
    by_cases hc : c = '\r'
    · simp [chomp, hc]
    · simp [chomp, hc]

/-- A line is a part of its text. -/
theorem infix_of_mem_line_chars {piece text line : List Char} (h : line ∈ lineChars piece text) :
    line <:+: piece.reverse ++ text := by
  induction text generalizing piece with
  | nil =>
      by_cases hpiece : piece = []
      · simp [lineChars, hpiece] at h
      · simp [lineChars, hpiece] at h
        simp [h]
  | cons c text ih =>
      by_cases hc : c = '\n'
      · subst hc
        rw [line_chars_newline] at h
        rcases List.mem_cons.mp h with rfl | h
        · exact ((prefix_of_chomp _).isInfix).trans (List.prefix_append _ _).isInfix
        · have htext : line <:+: text := by simpa using ih h
          refine htext.trans (List.IsSuffix.isInfix ⟨piece.reverse ++ ['\n'], ?_⟩)
          simp
      · rw [line_chars_cons hc] at h
        simpa using ih h

/-! ## Texts given by their lines -/

/-- Text without a line feed. -/
def IsLine (text : String) : Prop :=
  '\n' ∉ text.toList

instance (text : String) : Decidable (IsLine text) :=
  inferInstanceAs (Decidable ('\n' ∉ text.toList))

theorem IsLine.append {first second : String} (hfirst : IsLine first) (hsecond : IsLine second) :
    IsLine (first ++ second) := by
  intro hmem
  rw [String.toList_append] at hmem
  exact (List.mem_append.mp hmem).elim hfirst hsecond

/-- A number is written on one line. -/
theorem is_line_number (n : Nat) : IsLine (toString n) := by
  intro hmem
  have hlow := (digit_bounds n '\n' hmem).1
  exact absurd hlow (by decide)

/-- Lines, each with its line feed. -/
def unlines (lines : List (List Char)) : List Char :=
  lines.flatMap fun line => line ++ ['\n']

@[simp] theorem unlines_nil : unlines [] = [] := rfl

@[simp] theorem unlines_cons (line : List Char) (lines : List (List Char)) :
    unlines (line :: lines) = line ++ '\n' :: unlines lines := by
  simp [unlines]

@[simp] theorem unlines_append (first second : List (List Char)) :
    unlines (first ++ second) = unlines first ++ unlines second := by
  simp [unlines]

theorem unlines_eq_nil {lines : List (List Char)} : unlines lines = [] ↔ lines = [] := by
  cases lines with
  | nil => simp
  | cons line lines => simp

/-- A line feed before each line, and one at the end. -/
theorem newline_unlines (lines : List (List Char)) :
    '\n' :: unlines lines = (lines.flatMap fun line => '\n' :: line) ++ ['\n'] := by
  induction lines with
  | nil => rfl
  | cons line lines ih => simp [ih]

/-- The lines of a text come back without their carriage returns. -/
theorem line_chars_unlines {lines : List (List Char)} (h : ∀ line ∈ lines, '\n' ∉ line) :
    lineChars [] (unlines lines) = lines.map chomp := by
  induction lines with
  | nil => rfl
  | cons line lines ih =>
      rw [unlines_cons, line_chars_line (h line List.mem_cons_self),
        ih fun other hmem => h other (List.mem_cons_of_mem _ hmem), List.map_cons]

/-- The lines of a text that is finished by a line feed. -/
def linesOf (text : List Char) : List (List Char) :=
  pieces (· == '\n') [] text

theorem unlines_lines_of (text : List Char) : unlines (linesOf text) = text ++ ['\n'] := by
  have hpieces : ∀ piece, unlines (pieces (· == '\n') piece text) =
      piece.reverse ++ (text ++ ['\n']) := by
    induction text with
    | nil => simp [pieces]
    | cons c text ih =>
        intro piece
        by_cases hc : c = '\n'
        · simp [pieces, hc, ih]
        · simp [pieces, hc, ih]
  exact hpieces []

/-- A line feed before each line of a text. -/
theorem newline_lines_of (text : List Char) :
    ((linesOf text).flatMap fun line => '\n' :: line) = '\n' :: text := by
  have hlines := newline_unlines (linesOf text)
  rw [unlines_lines_of, ← List.cons_append] at hlines
  exact (List.append_cancel_right hlines).symm

theorem not_mem_lines_of (text : List Char) : ∀ line ∈ linesOf text, '\n' ∉ line := by
  have hpieces : ∀ piece : List Char, '\n' ∉ piece →
      ∀ line ∈ pieces (· == '\n') piece text, '\n' ∉ line := by
    induction text with
    | nil =>
        intro piece hpiece line hline
        obtain rfl := List.mem_singleton.mp hline
        simpa using hpiece
    | cons c text ih =>
        intro piece hpiece line hline
        by_cases hc : c = '\n'
        · simp only [pieces, hc, beq_self_eq_true, if_true, List.mem_cons] at hline
          rcases hline with rfl | hline
          · simpa using hpiece
          · exact ih [] List.not_mem_nil line hline
        · simp only [pieces, beq_iff_eq, hc, if_false] at hline
          refine ih (c :: piece) ?_ line hline
          exact List.not_mem_cons_of_ne_of_not_mem (Ne.symm hc) hpiece
  exact hpieces [] List.not_mem_nil

/-- What begins a line and what the line begins with. -/
theorem starts_line {pattern line rest : List Char} (h : '\n' ∉ pattern) :
    pattern <+: line ++ '\n' :: rest ↔ pattern <+: line := by
  constructor
  · intro hstarts
    rcases List.prefix_or_prefix_of_prefix hstarts (List.prefix_append line _) with hline | hlong
    · exact hline
    · obtain ⟨more, rfl⟩ := hlong
      rw [List.prefix_append_right_inj] at hstarts
      cases more with
      | nil => exact (List.append_nil line).symm ▸ List.prefix_rfl
      | cons c more =>
          -- A longer pattern would reach the line feed.
          have hc := (List.cons_prefix_cons.mp hstarts).1
          exact absurd (List.mem_append_right _ (hc ▸ List.mem_cons_self)) h
  · intro hline
    exact hline.trans (List.prefix_append line _)

/-- A pattern on one line is found on this line or on a later one. -/
theorem split_first_line {pattern : List Char} (h : '\n' ∉ pattern) (hne : pattern ≠ [])
    (line rest : List Char) :
    splitFirst pattern (line ++ '\n' :: rest) =
      match splitFirst pattern line with
      | some (before, tail) => some (before, tail ++ '\n' :: rest)
      | none => (splitFirst pattern rest).map fun (before, tail) =>
          (line ++ '\n' :: before, tail) := by
  cases hfound : splitFirst pattern line with
  | some found => exact split_first_append hfound _
  | none =>
      rw [split_first_eq_none] at hfound
      induction line with
      | nil =>
          have hnewline : ¬ pattern <+: '\n' :: rest := by
            intro hstarts
            rw [← List.nil_append ('\n' :: rest), starts_line h] at hstarts
            exact hne (List.prefix_nil.mp hstarts)
          rw [List.nil_append, split_first_cons hnewline]
          rfl
      | cons c line ih =>
          have hrest := (not_or.mp (mt List.infix_cons_iff.mpr hfound))
          have hstarts : ¬ pattern <+: c :: (line ++ '\n' :: rest) := by
            intro hstarts
            exact hrest.1 ((@starts_line pattern (c :: line) rest h).mp hstarts)
          rw [List.cons_append, split_first_cons hstarts, ih hrest.2]
          simp [Option.map_map, Function.comp_def]

/-- The rest of the first line that holds a pattern, and the lines after it. -/
def lineAfter (pattern : List Char) : List (List Char) → Option (List Char × List (List Char))
  | [] => none
  | line :: lines =>
      match splitFirst pattern line with
      | some (_, rest) => some (rest, lines)
      | none => lineAfter pattern lines

/-- A search for a pattern on one line goes through the lines. -/
theorem split_first_unlines {pattern : List Char} (h : '\n' ∉ pattern) (hne : pattern ≠ [])
    (lines : List (List Char)) :
    (splitFirst pattern (unlines lines)).map Prod.snd =
      (lineAfter pattern lines).map fun (rest, later) => rest ++ '\n' :: unlines later := by
  induction lines with
  | nil =>
      have hnil : splitFirst pattern [] = none := by
        rw [split_first_eq_none, List.infix_nil]
        exact hne
      rw [unlines_nil, hnil]
      rfl
  | cons line lines ih =>
      rw [unlines_cons, split_first_line h hne, lineAfter]
      cases splitFirst pattern line with
      | some found => rfl
      | none =>
          rw [← ih]
          simp [Option.map_map, Function.comp_def]

/-- What is left of the line, and the lines after it, are of the text. -/
theorem line_after_parts {pattern : List Char} {lines later : List (List Char)}
    {rest : List Char} (h : lineAfter pattern lines = some (rest, later)) :
    (∃ line ∈ lines, rest <:+ line) ∧ later ⊆ lines := by
  induction lines with
  | nil => cases h
  | cons line lines ih =>
      rw [lineAfter] at h
      cases hfound : splitFirst pattern line with
      | some found =>
          rw [hfound] at h
          obtain ⟨rfl, rfl⟩ := Prod.mk.inj (Option.some.inj h)
          have hparts := eq_of_split_first hfound
          exact ⟨⟨line, List.mem_cons_self, ⟨found.1 ++ pattern, hparts.symm⟩⟩,
            List.subset_cons_self line _⟩
      | none =>
          rw [hfound] at h
          obtain ⟨⟨other, hother, hrest⟩, hlater⟩ := ih h
          exact ⟨⟨other, List.mem_cons_of_mem _ hother, hrest⟩,
            List.Subset.trans hlater (List.subset_cons_self line lines)⟩

theorem line_after_append (pattern : List Char) (first second : List (List Char)) :
    lineAfter pattern (first ++ second) =
      match lineAfter pattern first with
      | some (rest, lines) => some (rest, lines ++ second)
      | none => lineAfter pattern second := by
  induction first with
  | nil => rfl
  | cons line first ih =>
      rw [List.cons_append, lineAfter, lineAfter, ih]
      cases splitFirst pattern line <;> rfl

/-- The lines before the first line that begins with `opening`. -/
def linesBefore (opening : List Char) : List (List Char) → Option (List (List Char))
  | [] => none
  | line :: lines =>
      if opening <+: line then some [] else (linesBefore opening lines).map (line :: ·)

/-- A search for a line feed and more is one for a line that begins so. -/
theorem split_first_newline {opening : List Char} (h : '\n' ∉ opening) (hne : opening ≠ [])
    {piece : List Char} (hpiece : '\n' ∉ piece) {lines : List (List Char)}
    (hlines : ∀ line ∈ lines, '\n' ∉ line) :
    (splitFirst ('\n' :: opening) (piece ++ '\n' :: unlines lines)).map Prod.fst =
      (linesBefore opening lines).map fun before =>
        piece ++ before.flatMap fun line => '\n' :: line := by
  induction lines generalizing piece with
  | nil =>
      have hend : splitFirst ('\n' :: opening) ['\n'] = none := by
        rw [split_first_eq_none, List.infix_cons_iff, List.infix_nil, List.cons_prefix_cons,
          List.prefix_nil]
        simp [hne]
      rw [split_first_skip hpiece, unlines_nil, hend]
      rfl
  | cons line lines ih =>
      have hrest := ih (hlines line List.mem_cons_self) fun other hmem =>
        hlines other (List.mem_cons_of_mem _ hmem)
      rw [split_first_skip hpiece, unlines_cons, linesBefore]
      by_cases hopening : opening <+: line
      · obtain ⟨tail, rfl⟩ := hopening
        have hfound := split_first_start ('\n' :: opening) (tail ++ '\n' :: unlines lines)
        rw [List.cons_append, ← List.append_assoc] at hfound
        rw [hfound, if_pos (List.prefix_append opening tail)]
        rfl
      · have hstarts : ¬ '\n' :: opening <+: '\n' :: (line ++ '\n' :: unlines lines) := by
          rw [List.prefix_cons_inj, starts_line h]
          exact hopening
        -- What is found from `line` on comes behind the piece and a line feed.
        have hbehind : ∀ found : Option (List Char × List Char),
            ((found.map fun (start, rest) => ('\n' :: start, rest)).map
                fun (start, rest) => (piece ++ start, rest)).map Prod.fst =
              (found.map Prod.fst).map fun start => piece ++ '\n' :: start := by
          intro found
          cases found <;> rfl
        rw [if_neg hopening, split_first_cons hstarts, hbehind, hrest, Option.map_map,
          Option.map_map]
        rfl

theorem lines_before_append (opening : List Char) (first second : List (List Char)) :
    linesBefore opening (first ++ second) =
      match linesBefore opening first with
      | some before => some before
      | none => (linesBefore opening second).map (first ++ ·) := by
  induction first with
  | nil => simp [linesBefore]
  | cons line first ih =>
      rw [List.cons_append, linesBefore, linesBefore, ih]
      by_cases h : opening <+: line
      · simp [h]
      · simp only [h, if_false]
        cases linesBefore opening first <;> simp [Option.map_map, Function.comp_def]

theorem lines_before_eq_none {opening : List Char} {lines : List (List Char)} :
    linesBefore opening lines = none ↔ ∀ line ∈ lines, ¬ opening <+: line := by
  induction lines with
  | nil => simp [linesBefore]
  | cons line lines ih =>
      rw [linesBefore]
      by_cases h : opening <+: line
      · simp [h]
      · simp [h, ih]

/-- The line that was looked for comes next. -/
theorem exists_of_lines_before {opening : List Char} {lines before : List (List Char)}
    (h : linesBefore opening lines = some before) :
    ∃ line after, lines = before ++ line :: after ∧ opening <+: line := by
  induction lines generalizing before with
  | nil => cases h
  | cons first lines ih =>
      rw [linesBefore] at h
      split at h
      case isTrue hfirst =>
        obtain rfl := Option.some.inj h
        exact ⟨first, lines, rfl, hfirst⟩
      case isFalse =>
        obtain ⟨start, hstart, rfl⟩ := Option.map_eq_some_iff.mp h
        obtain ⟨line, after, rfl, hline⟩ := ih hstart
        exact ⟨line, after, rfl, hline⟩

/-- A line that begins with what looks for it does so without its carriage return. -/
theorem starts_chomp {opening line : List Char} (h : opening.getLast? ≠ some '\r') :
    opening <+: chomp line ↔ opening <+: line := by
  constructor
  · intro hstarts
    exact hstarts.trans (prefix_of_chomp line)
  · intro hstarts
    obtain ⟨rest, rfl⟩ := hstarts
    rw [chomp_append h]
    exact List.prefix_append _ _

/-- What is cut off a text with a line takes something visible away. -/
theorem cut_lines_not_infix {text : String} {opening : List Char} {before : List (List Char)}
    (hopening : 0 < visible opening)
    (h : linesBefore opening (linesOf text.toList) = some before) :
    ¬ (trim text).toList <:+: before.flatMap fun line => '\n' :: line := by
  obtain ⟨line, after, hlines, hline⟩ := exists_of_lines_before h
  intro hpart
  have hle := visible_le_of_infix hpart
  have hopeningLine := visible_le_of_infix hline.isInfix
  have htext := congrArg visible (newline_lines_of text.toList)
  rw [hlines, List.flatMap_append, List.flatMap_cons, visible_append, visible_append] at htext
  have hnewline : ∀ text : List Char, visible ('\n' :: text) = visible text := fun text =>
    List.countP_cons_of_neg (by decide)
  rw [hnewline, hnewline] at htext
  rw [visible_trim] at hle
  omega

end Text
