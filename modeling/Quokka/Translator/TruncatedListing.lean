import Quokka.Translator.ListOutput

/-!
# Truncated listings

What `parse_listing` makes of a JSON listing that was cut short. The parser skips the line that
the cut broke, which is no object any more, and never compares what it found with the counts of
the last line, so the tests behind the cut are missing without an error.
`truncated_listing_iff` says for which cuts nothing is lost.
-/

namespace Quokka

/-- An unfinished object is no JSON text. -/
structure TruncationLaws [HarnessText] [JsonEncoder] (tests : List TestCase) : Prop
    extends JsonLaws tests where
  truncated : ∀ fields ∈ listingObjects tests, ∀ text : List Char,
    text <+: (renderObject fields).toList → text ≠ (renderObject fields).toList →
      HarnessText.parseListEvent (String.ofList text) = none

section Truncation

variable [HarnessText] [JsonEncoder] {tests : List TestCase}

/-- Objects one a line, each with its line feed. -/
def objectLines (objects : List (List (String × JsonValue))) : List Char :=
  objects.flatMap fun fields => (renderObject fields).toList ++ ['\n']

omit [HarnessText] in
theorem json_list_output_chars (tests : List TestCase) :
    (libtestJsonListOutput tests).toList = objectLines (listingObjects tests) := by
  rw [json_list_output_eq, String.toList_join, List.flatMap_map]
  simp [objectLines, String.toList_append]

/-- The test on one line. -/
def lineTest (line : List Char) : Option TestCase :=
  parseJsonLine (String.ofList line)

/-- What is read of a text, by its characters. -/
def testsRead (text : List Char) : List TestCase :=
  (Text.lineChars [] text).filterMap lineTest

omit [JsonEncoder] in
theorem parse_json_eq (text : String) : parseJson text = testsRead text.toList := by
  have hcomp : parseJsonLine ∘ String.ofList = lineTest := by
    funext line
    rw [Function.comp_apply, lineTest]
  unfold parseJson testsRead Text.lines
  rw [List.filterMap_map, hcomp]

/-- An unfinished object is skipped. -/
theorem tests_read_unfinished (laws : TruncationLaws tests) {fields : List (String × JsonValue)}
    (hfields : fields ∈ listingObjects tests) {text : List Char}
    (hbegins : text <+: (renderObject fields).toList)
    (hne : text ≠ (renderObject fields).toList) : testsRead text = [] := by
  obtain ⟨hcontrol, middle, hobject⟩ := render_listing_object laws.toJsonLaws hfields
  have hone : '\n' ∉ text := fun hmem => hcontrol.one_line.1 (hbegins.subset hmem)
  unfold testsRead
  rw [Text.line_chars_last hone]
  split
  · rfl
  rename_i hnonempty
  -- The text begins with a brace, so only its end is trimmed.
  have hstart : Text.trimStart (String.ofList text) = String.ofList text := by
    obtain ⟨rest, hrest⟩ := hbegins
    cases text with
    | nil => exact absurd rfl hnonempty
    | cons c text =>
        rw [hobject, List.cons_append] at hrest
        rw [Text.trimStart, String.toList_ofList, (List.cons.inj hrest).1,
          List.dropWhile_cons_of_neg (by decide +kernel)]
  have htrim : Text.trim (String.ofList text) = Text.trimEnd (String.ofList text) := by
    rw [Text.trim, hstart]
  have hpart : (Text.trimEnd (String.ofList text)).toList <+: text := by
    have hend := Text.prefix_of_trim_end (String.ofList text)
    rw [String.toList_ofList] at hend
    exact hend
  have hnone : HarnessText.parseListEvent (Text.trim (String.ofList text)) = none := by
    have hlaw := laws.truncated fields hfields (Text.trimEnd (String.ofList text)).toList
    rw [String.ofList_toList] at hlaw
    rw [htrim]
    refine hlaw (hpart.trans hbegins) fun heq => ?_
    -- A trimmed text as long as the object would be the object before trimming.
    rw [heq] at hpart
    exact hne (hbegins.eq_of_length_le hpart.length_le)
  have hline : lineTest text = none := by
    unfold lineTest
    cases hempty : (Text.trim (String.ofList text)).isEmpty with
    | true =>
        unfold parseJsonLine
        simp only [hempty, if_true]
    | false => rw [parse_json_line_eq hempty, hnone, Option.bind_none]
  rw [List.filterMap_cons_none hline, List.filterMap_nil]

/-- A finished object is read. -/
theorem line_test_object (laws : TruncationLaws tests) {fields : List (String × JsonValue)}
    (hfields : fields ∈ listingObjects tests) (rest : List (List Char)) :
    ((renderObject fields).toList :: rest).filterMap lineTest =
      (testOfFields fields).toList ++ rest.filterMap lineTest := by
  have hline : lineTest (renderObject fields).toList = testOfFields fields := by
    rw [lineTest, String.ofList_toList, parse_json_object laws.toJsonLaws hfields]
  cases htest : testOfFields fields with
  | none =>
      rw [htest] at hline
      rw [List.filterMap_cons_none hline]
      rfl
  | some test =>
      rw [htest] at hline
      rw [List.filterMap_cons_some hline]
      rfl

/-- A finished object without its line feed is read. -/
theorem tests_read_finished (laws : TruncationLaws tests) {fields : List (String × JsonValue)}
    (hfields : fields ∈ listingObjects tests) :
    testsRead (renderObject fields).toList = (testOfFields fields).toList := by
  obtain ⟨hcontrol, middle, hobject⟩ := render_listing_object laws.toJsonLaws hfields
  unfold testsRead
  rw [Text.line_chars_last hcontrol.one_line.1,
    if_neg (by rw [hobject]; exact List.cons_ne_nil _ _), line_test_object laws hfields,
    List.filterMap_nil, List.append_nil]

/-- A finished object is read, and what follows its line is read on its own. -/
theorem tests_read_line (laws : TruncationLaws tests) {fields : List (String × JsonValue)}
    (hfields : fields ∈ listingObjects tests) (rest : List Char) :
    testsRead ((renderObject fields).toList ++ '\n' :: rest) =
      (testOfFields fields).toList ++ testsRead rest := by
  obtain ⟨hone, hchomp⟩ := (render_listing_object laws.toJsonLaws hfields).1.one_line
  unfold testsRead
  rw [Text.line_chars_line hone, hchomp, line_test_object laws hfields]

omit [HarnessText] in
theorem object_lines_cons (fields : List (String × JsonValue))
    (objects : List (List (String × JsonValue))) :
    objectLines (fields :: objects) =
      (renderObject fields).toList ++ '\n' :: objectLines objects := by
  simp [objectLines]

omit [HarnessText] [JsonEncoder] in
/-- A text that reaches beyond the first line ends that line. -/
theorem beyond_first_line {line rest text : List Char} (htext : text <+: line ++ '\n' :: rest)
    (hshort : ¬ text <+: line) : ∃ more, text = line ++ '\n' :: more ∧ more <+: rest := by
  obtain ⟨tail, htail⟩ := htext
  rcases List.append_eq_append_iff.mp htail with ⟨beyond, hbeyond, _⟩ | ⟨more, hmore, hrest⟩
  · exact absurd ⟨beyond, hbeyond.symm⟩ hshort
  · cases more with
    | nil =>
        rw [List.append_nil] at hmore
        exact absurd (hmore ▸ List.prefix_rfl) hshort
    | cons c more =>
        rw [List.cons_append] at hrest
        obtain ⟨rfl, hmoreTail⟩ := List.cons.inj hrest
        exact ⟨more, hmore, ⟨tail, hmoreTail.symm⟩⟩

omit [HarnessText] [JsonEncoder] in
theorem tests_of_cons (fields : List (String × JsonValue))
    (objects : List (List (String × JsonValue))) :
    (fields :: objects).filterMap testOfFields =
      (testOfFields fields).toList ++ objects.filterMap testOfFields := by
  rw [List.filterMap_eq_flatMap_toList, List.flatMap_cons, ← List.filterMap_eq_flatMap_toList]

/-- A cut within the first line reads the first object if it is whole, and nothing later. -/
theorem tests_read_first_line (laws : TruncationLaws tests)
    {first : List (String × JsonValue)} (hfirst : first ∈ listingObjects tests)
    (objects : List (List (String × JsonValue))) {text : List Char}
    (hshort : text <+: (renderObject first).toList) :
    ∃ count, testsRead text = ((first :: objects).take count).filterMap testOfFields ∧
      ∀ before fields after, first :: objects = before ++ fields :: after →
        (objectLines before ++ (renderObject fields).toList <+: text ↔ before.length < count) := by
  have hlater : ∀ before fields, ¬objectLines (first :: before) ++
      (renderObject fields).toList <+: text := by
    intro before fields hreach
    have hlong := hreach.length_le
    have hle := hshort.length_le
    rw [object_lines_cons] at hlong
    simp only [List.length_append, List.length_cons] at hlong
    omega
  by_cases hfull : text = (renderObject first).toList
  · refine ⟨1, ?_, fun before fields after hsplit => ?_⟩
    · rw [hfull, tests_read_finished laws hfirst, List.take_succ_cons, List.take_zero,
        tests_of_cons, List.filterMap_nil, List.append_nil]
    · cases before with
      | nil =>
          obtain ⟨rfl, _⟩ := List.cons.inj hsplit
          exact iff_of_true (hfull ▸ List.prefix_rfl) Nat.one_pos
      | cons head before =>
          obtain ⟨rfl, _⟩ := List.cons.inj hsplit
          exact iff_of_false (hlater before fields) (by simp)
  · refine ⟨0, tests_read_unfinished laws hfirst hshort hfull,
      fun before fields after hsplit => iff_of_false (fun hreach => ?_) (Nat.not_lt_zero _)⟩
    cases before with
    | nil =>
        obtain ⟨rfl, _⟩ := List.cons.inj hsplit
        exact hfull (hshort.eq_of_length_le hreach.length_le)
    | cons head before =>
        obtain ⟨rfl, _⟩ := List.cons.inj hsplit
        exact hlater before fields hreach

/-- A text reads the objects whose closing brace it reaches: `count` of them, in order. -/
theorem tests_read_prefix (laws : TruncationLaws tests)
    {objects : List (List (String × JsonValue))} (hobjects : objects ⊆ listingObjects tests)
    {text : List Char} (htext : text <+: objectLines objects) :
    ∃ count, testsRead text = (objects.take count).filterMap testOfFields ∧
      ∀ before fields after, objects = before ++ fields :: after →
        (objectLines before ++ (renderObject fields).toList <+: text ↔ before.length < count) := by
  induction objects generalizing text with
  | nil =>
      obtain rfl : text = [] := List.prefix_nil.mp htext
      exact ⟨0, rfl, fun before fields after h => by simp at h⟩
  | cons first objects ih =>
      obtain ⟨hfirst, hrest⟩ := List.cons_subset.mp hobjects
      rw [object_lines_cons] at htext
      by_cases hshort : text <+: (renderObject first).toList
      · exact tests_read_first_line laws hfirst objects hshort
      · obtain ⟨more, rfl, hmore⟩ := beyond_first_line htext hshort
        obtain ⟨count, hread, hfinished⟩ := ih hrest hmore
        refine ⟨count + 1, ?_, fun before fields after hsplit => ?_⟩
        · rw [tests_read_line laws hfirst, hread, List.take_succ_cons, tests_of_cons]
        · cases before with
          | nil =>
              obtain ⟨rfl, _⟩ := List.cons.inj hsplit
              exact iff_of_true (List.prefix_append _ _) (Nat.succ_pos count)
          | cons head before =>
              rw [List.cons_append] at hsplit
              obtain ⟨rfl, hobjects⟩ := List.cons.inj hsplit
              rw [object_lines_cons, List.append_assoc, List.cons_append,
                List.prefix_append_right_inj, List.cons_prefix_cons, List.length_cons,
                Nat.succ_lt_succ_iff]
              exact (and_iff_right rfl).trans (hfinished before fields after hobjects)

omit [HarnessText] [JsonEncoder] in
/-- The first `count` objects of a listing hold the first `count - 1` tests. -/
theorem tests_of_take (count : Nat) :
    ((listingObjects tests).take count).filterMap testOfFields = tests.take (count - 1) := by
  obtain ⟨hdiscovery, hcompleted⟩ := no_test_of_suite_fields tests
  cases count with
  | zero => rfl
  | succ count =>
      have htests : ∀ shown : List TestCase,
          (shown.map testFields).filterMap testOfFields = shown := by
        intro shown
        rw [List.filterMap_map]
        exact (List.filterMap_congr fun test _ => test_of_test_fields test).trans
          List.filterMap_some
      have hlast : ([completedFields tests].take (count - tests.length)).filterMap testOfFields =
          [] := by
        refine List.filterMap_eq_nil_iff.mpr fun fields hfields => ?_
        obtain rfl := List.mem_singleton.mp (List.mem_of_mem_take hfields)
        exact hcompleted
      unfold listingObjects
      rw [List.take_succ_cons, List.filterMap_cons_none hdiscovery, List.take_append,
        List.filterMap_append, List.length_map, hlast, List.append_nil, ← List.map_take, htests,
        Nat.add_sub_cancel]

omit [HarnessText] [JsonEncoder] in
/-- Cutting a list keeps all selected elements exactly when each of them is before the cut. -/
theorem filter_take_iff {α : Type} {keep : α → Bool} {items : List α} {count : Nat} :
    (items.take count).filter keep = items.filter keep ↔
      ∀ before item after, items = before ++ item :: after → keep item = true →
        before.length < count := by
  have hsplit : items.filter keep =
      (items.take count).filter keep ++ (items.drop count).filter keep := by
    rw [← List.filter_append, List.take_append_drop]
  constructor
  · intro h before item after hitems hkeep
    by_contra hlate
    rw [h, List.self_eq_append_right] at hsplit
    have hmem : item ∈ items.drop count := by
      rw [hitems, List.drop_append_of_le_length (by omega)]
      simp
    exact absurd (List.filter_eq_nil_iff.mp hsplit item hmem) (by simp [hkeep])
  · intro h
    have hnone : (items.drop count).filter keep = [] := by
      refine List.filter_eq_nil_iff.mpr fun item hitem hkeep => ?_
      obtain ⟨before, after, hdrop⟩ := List.append_of_mem hitem
      have hitems : items = (items.take count ++ before) ++ item :: after := by
        rw [List.append_assoc, ← hdrop, List.take_append_drop]
      have hearly := h _ item after hitems hkeep
      -- An element behind the cut is not before it.
      have hlength := congrArg List.length hitems
      simp only [List.length_append, List.length_take, List.length_cons] at hearly hlength
      omega
    rw [hsplit, hnone, List.append_nil]

/-- A listing up to the closing brace of a test. -/
def listingUpTo (before : List TestCase) (test : TestCase) : String :=
  renderObject discoveryFields ++ "\n" ++ String.join (before.map jsonListLine) ++
    renderObject (testFields test)

omit [HarnessText] in
theorem listing_up_to_chars (before : List TestCase) (test : TestCase) :
    (listingUpTo before test).toList =
      objectLines (discoveryFields :: before.map testFields) ++
        (renderObject (testFields test)).toList := by
  have hlines : (String.join (before.map jsonListLine)).toList =
      objectLines (before.map testFields) := by
    rw [String.toList_join, List.flatMap_map, objectLines, List.flatMap_map]
    refine List.flatMap_congr fun other _ => ?_
    rw [json_list_line_eq, String.toList_append]
    rfl
  unfold listingUpTo
  rw [String.toList_append, String.toList_append, String.toList_append, hlines, object_lines_cons]
  simp

/-- A listing that was cut anywhere is read in full, or rejected, exactly when the cut broke a
character or came after the closing brace of every test that the policy selects. -/
theorem truncated_listing_iff (laws : TruncationLaws tests) (policy : IgnoredPolicy) (n : Nat) :
    let captured := (Text.bytes (libtestJsonListOutput tests)).take n
    ((∃ error, parseListing .json captured policy = .error error) ∨
        parseListing .json captured policy =
          .ok (tests.filter fun test => policy.selects test.ignored)) ↔
      (Text.fromUtf8 captured = none ∨
        ∀ before test after, tests = before ++ test :: after →
          policy.selects test.ignored = true →
            Text.bytes (listingUpTo before test) <+: captured) := by
  intro captured
  cases hdecoded : Text.fromUtf8 captured with
  | none =>
      have herror : parseListing .json captured policy = .error .notUtf8 := by
        unfold parseListing
        rw [hdecoded]
      exact iff_of_true (.inl ⟨_, herror⟩) (.inl rfl)
  | some text =>
      have hbytes := Text.bytes_of_from_utf8 hdecoded
      have htext : text.toList <+: objectLines (listingObjects tests) := by
        rw [← json_list_output_chars, ← Text.bytes_prefix_iff, hbytes]
        exact List.take_prefix n _
      obtain ⟨count, hread, hfinished⟩ :=
        tests_read_prefix laws (List.Subset.refl _) htext
      have hparse : parseListing .json captured policy =
          .ok ((tests.take (count - 1)).filter fun test => policy.selects test.ignored) := by
        unfold parseListing
        rw [hdecoded]
        simp only [parse_json_eq, hread, tests_of_take]
      -- The discovery line comes first, so a test is one place later among the objects.
      have hreached : ∀ before test after, tests = before ++ test :: after →
          (Text.bytes (listingUpTo before test) <+: captured ↔
            before.length < count - 1) := by
        intro before test after htests
        have hobjects : listingObjects tests = (discoveryFields :: before.map testFields) ++
            testFields test :: (after.map testFields ++ [completedFields tests]) := by
          unfold listingObjects
          rw [congrArg (List.map testFields) htests]
          simp
        rw [← hbytes, Text.bytes_prefix_iff, listing_up_to_chars,
          hfinished _ _ _ hobjects, List.length_cons, List.length_map]
        omega
      rw [hparse]
      constructor
      · rintro (⟨error, herror⟩ | hall)
        · cases herror
        · refine .inr fun before test after htests hselected => ?_
          rw [hreached before test after htests]
          exact filter_take_iff.mp (Except.ok.inj hall) before test after htests hselected
      · rintro (hnone | hall)
        · cases hnone
        · refine .inr (congrArg Except.ok (filter_take_iff.mpr fun before test after htests
            hselected => ?_))
          rw [← hreached before test after htests]
          exact hall before test after htests hselected

end Truncation

theorem sample_truncation_laws : @TruncationLaws sampleHarness ⟨serdeString⟩ sampleListing := by
  -- The sample's objects have their only closing brace at the end.
  have hbrace : ∀ fields ∈ listingObjects sampleListing,
      '\x7d' ∉ (@renderObject ⟨serdeString⟩ fields).toList.dropLast := by decide +kernel
  have hread : ∀ line : String, '\x7d' ∉ line.toList →
      sampleHarness.parseListEvent line = none := by
    intro line hline
    have hne : ∀ full : String, '\x7d' ∈ full.toList → line ≠ full :=
      fun full hfull heq => hline (heq ▸ hfull)
    iterate 4 refine (if_neg (hne _ (by decide +kernel))).trans ?_
    rfl
  refine @TruncationLaws.mk sampleHarness ⟨serdeString⟩ sampleListing sample_laws
    fun fields hfields text hbegins hne => hread _ fun hmem => hbrace fields hfields ?_
  rw [String.toList_ofList] at hmem
  obtain ⟨rest, hrest⟩ := hbegins
  rcases List.eq_nil_or_concat rest with rfl | ⟨start, last, rfl⟩
  · exact absurd (by rwa [List.append_nil] at hrest) hne
  · rw [← hrest, List.concat_eq_append, ← List.append_assoc, List.dropLast_concat]
    exact List.mem_append_left _ hmem

/-- The two items of the sample, cut 300 bytes into the listing. -/
theorem sample_truncated :
    let captured := (Text.bytes (@libtestJsonListOutput ⟨serdeString⟩ sampleListing)).take 300
    ((∃ error, @parseListing sampleHarness .json captured .excludeIgnored = .error error) ∨
        @parseListing sampleHarness .json captured .excludeIgnored =
          .ok (sampleListing.filter fun test =>
            IgnoredPolicy.excludeIgnored.selects test.ignored)) ↔
      (Text.fromUtf8 captured = none ∨
        ∀ before test after, sampleListing = before ++ test :: after →
          IgnoredPolicy.excludeIgnored.selects test.ignored = true →
            Text.bytes (@listingUpTo ⟨serdeString⟩ before test) <+: captured) :=
  @truncated_listing_iff sampleHarness ⟨serdeString⟩ sampleListing sample_truncation_laws
    .excludeIgnored 300

/-- Of a listing that was cut before its first byte no test is read, and no error either. -/
theorem empty_capture_passes :
    ¬ ∀ (harness : HarnessText) (encoder : JsonEncoder) (tests : List TestCase),
      @TruncationLaws harness encoder tests → ∀ (policy : IgnoredPolicy) (n : Nat),
        n < (Text.bytes (@libtestJsonListOutput encoder tests)).length →
          let captured := (Text.bytes (@libtestJsonListOutput encoder tests)).take n
          (∃ error, @parseListing harness .json captured policy = .error error) ∨
            @parseListing harness .json captured policy =
              .ok (tests.filter fun test => policy.selects test.ignored) := by
  intro h
  have hprefix := h sampleHarness ⟨serdeString⟩ sampleListing sample_truncation_laws
    .includeIgnored 0 (by decide +kernel)
  have hparse : @parseListing sampleHarness .json [] .includeIgnored = .ok [] := by
    have hempty : Text.fromUtf8 [] = some "" := Text.from_utf8_bytes ""
    unfold parseListing
    rw [hempty]
    rfl
  rw [List.take_zero] at hprefix
  rcases (show (∃ error, @parseListing sampleHarness .json [] .includeIgnored = .error error) ∨
      @parseListing sampleHarness .json [] .includeIgnored = _ from hprefix) with
    ⟨error, herror⟩ | hall
  · rw [hparse] at herror
    cases herror
  · rw [hparse] at hall
    exact absurd (congrArg List.length (Except.ok.inj hall)) (by decide +kernel)

end Quokka
