import Quokka.Library.Lines
import Quokka.Translator.Decode
import Quokka.Translator.UserArgs

/-!
# Printing a listing

The `--list` output that the runner prints in place of a libtest binary, after
`libtest_list_output` of `translator.rs`, and that `parse_listing` reads it back
(`listing_round_trip`). The string encoder of the JSON output comes from outside the repository;
what is used of it and of the decoder is `JsonLaws`.
-/

namespace Quokka

/-- The JSON string encoder from outside the repository. -/
class JsonEncoder where
  encodeString : String → String

/-- How a listing is printed. -/
inductive LibtestListOutputFormat where
  | text (summary : Bool)
  | json
  deriving DecidableEq, Repr

/-- The format of the listing that the parsed arguments ask for. -/
def LibtestUserArgs.listOutputFormat (parsed : LibtestUserArgs) : LibtestListOutputFormat :=
  match parsed.outputFormat with
  | .pretty | .junit => .text true
  | .terse => .text false
  | .json => .json

/-- The singular for one. -/
def plural (count : Nat) (singular plural : String) : String :=
  if count = 1 then singular else plural

/-- The number of listed items of a kind. -/
def kindCount (tests : List TestCase) (kind : TestCaseKind) : Nat :=
  tests.countP fun test => test.kind = kind

/-- One line of a text listing. -/
def textListLine (test : TestCase) : String :=
  test.name ++
    match test.kind with
    | .test => ": test\n"
    | .benchmark => ": benchmark\n"

/-- A listing as stable `--list` text. -/
def libtestTextListOutput (tests : List TestCase) (summary : Bool) : String :=
  let out := String.join (tests.map textListLine)
  if summary then
    let testCount := kindCount tests .test
    let benchmarkCount := kindCount tests .benchmark
    out ++ "\n" ++
      (toString testCount ++ " " ++ plural testCount "test" "tests" ++ ", " ++
        toString benchmarkCount ++ " " ++ plural benchmarkCount "benchmark" "benchmarks" ++ "\n")
  else out

section Json

variable [JsonEncoder]

/-- The name of a kind in a JSON listing. -/
def TestCaseKind.jsonName : TestCaseKind → String
  | .test => "test"
  | .benchmark => "benchmark"

/-- One test of a JSON listing. -/
def jsonListLine (test : TestCase) : String :=
  let out := "\x7b \"type\": \"" ++ test.kind.jsonName ++
    "\", \"event\": \"discovered\", \"name\": " ++ JsonEncoder.encodeString test.name ++
    ", \"ignore\": " ++ toString test.ignored
  let out :=
    match test.metadata.ignoreMessage with
    | some ignoreMessage =>
        out ++ ", \"ignore_message\": " ++ JsonEncoder.encodeString ignoreMessage
    | none => out
  let out :=
    match test.metadata.location with
    | some location =>
        out ++ ", \"source_path\": " ++ JsonEncoder.encodeString location.sourcePath ++
          ", \"start_line\": " ++ toString location.startLine.toNat ++
          ", \"start_col\": " ++ toString location.startCol.toNat ++
          ", \"end_line\": " ++ toString location.endLine.toNat ++
          ", \"end_col\": " ++ toString location.endCol.toNat
    | none => out
  out ++ " \x7d\n"

/-- A listing as nightly JSON. -/
def libtestJsonListOutput (tests : List TestCase) : String :=
  let testCount := kindCount tests .test
  let benchmarkCount := kindCount tests .benchmark
  let ignoredCount := tests.countP TestCase.ignored
  "\x7b \"type\": \"suite\", \"event\": \"discovery\" \x7d\n" ++
    String.join (tests.map jsonListLine) ++
    ("\x7b \"type\": \"suite\", \"event\": \"completed\", \"tests\": " ++ toString testCount ++
      ", \"benchmarks\": " ++ toString benchmarkCount ++ ", \"total\": " ++
      toString (testCount + benchmarkCount) ++ ", \"ignored\": " ++ toString ignoredCount ++
      " \x7d\n")

/-- The listing that the user's arguments ask for. -/
def libtestListOutput (userArgs : List String) (tests : List TestCase) : String :=
  match (LibtestUserArgs.parse userArgs).listOutputFormat with
  | .text summary => libtestTextListOutput tests summary
  | .json => libtestJsonListOutput tests

/-! ## Objects on a line -/

/-- A value of a printed object. A word is text that is written as it is. -/
inductive JsonValue where
  | word (value : String)
  | text (value : String)
  | flag (value : Bool)
  | number (value : Nat)

/-- A value as it is printed. -/
def JsonValue.render : JsonValue → String
  | .word value => "\"" ++ value ++ "\""
  | .text value => JsonEncoder.encodeString value
  | .flag value => toString value
  | .number value => toString value

/-- The fields of an object as they are printed. -/
def renderFields : List (String × JsonValue) → String
  | [] => ""
  | [(key, value)] => "\"" ++ key ++ "\": " ++ value.render
  | (key, value) :: fields => "\"" ++ key ++ "\": " ++ value.render ++ ", " ++ renderFields fields

/-- An object as it is printed. -/
def renderObject (fields : List (String × JsonValue)) : String :=
  "\x7b " ++ renderFields fields ++ " \x7d"

/-- The fields of a listed test. -/
def testFields (test : TestCase) : List (String × JsonValue) :=
  [("type", .word test.kind.jsonName), ("event", .word "discovered"), ("name", .text test.name),
    ("ignore", .flag test.ignored)] ++
  (match test.metadata.ignoreMessage with
    | some ignoreMessage => [("ignore_message", .text ignoreMessage)]
    | none => []) ++
  match test.metadata.location with
  | some location =>
      [("source_path", .text location.sourcePath),
        ("start_line", .number location.startLine.toNat),
        ("start_col", .number location.startCol.toNat),
        ("end_line", .number location.endLine.toNat),
        ("end_col", .number location.endCol.toNat)]
  | none => []

/-- The fields of the line before the tests. -/
def discoveryFields : List (String × JsonValue) :=
  [("type", .word "suite"), ("event", .word "discovery")]

/-- The fields of the line after the tests. -/
def completedFields (tests : List TestCase) : List (String × JsonValue) :=
  [("type", .word "suite"), ("event", .word "completed"),
    ("tests", .number (kindCount tests .test)),
    ("benchmarks", .number (kindCount tests .benchmark)),
    ("total", .number (kindCount tests .test + kindCount tests .benchmark)),
    ("ignored", .number (tests.countP TestCase.ignored))]

/-- The objects of a listing, one a line. -/
def listingObjects (tests : List TestCase) : List (List (String × JsonValue)) :=
  discoveryFields :: (tests.map testFields ++ [completedFields tests])

theorem json_list_line_eq (test : TestCase) :
    jsonListLine test = renderObject (testFields test) ++ "\n" := by
  obtain ⟨name, kind, ignored, ignoreMessage, location⟩ := test
  refine String.toList_inj.mp ?_
  cases ignoreMessage <;> cases location <;>
    simp [jsonListLine, renderObject, testFields, renderFields, JsonValue.render,
      String.toList_append]

/-- A listing is one object a line. -/
theorem json_list_output_eq (tests : List TestCase) :
    libtestJsonListOutput tests =
      String.join ((listingObjects tests).map fun fields => renderObject fields ++ "\n") := by
  have htests : tests.map jsonListLine =
      (tests.map testFields).map fun fields => renderObject fields ++ "\n" := by
    rw [List.map_map]
    exact List.map_congr_left fun test _ => json_list_line_eq test
  have hdiscovery : renderObject discoveryFields ++ "\n" =
      "\x7b \"type\": \"suite\", \"event\": \"discovery\" \x7d\n" := by
    refine String.toList_inj.mp ?_
    simp [renderObject, discoveryFields, renderFields, JsonValue.render]
  have hcompleted : renderObject (completedFields tests) ++ "\n" =
      "\x7b \"type\": \"suite\", \"event\": \"completed\", \"tests\": " ++
        toString (kindCount tests .test) ++ ", \"benchmarks\": " ++
        toString (kindCount tests .benchmark) ++ ", \"total\": " ++
        toString (kindCount tests .test + kindCount tests .benchmark) ++ ", \"ignored\": " ++
        toString (tests.countP TestCase.ignored) ++ " \x7d\n" := by
    refine String.toList_inj.mp ?_
    simp [renderObject, completedFields, renderFields, JsonValue.render, String.toList_append]
  have hlines : (listingObjects tests).map (fun fields => renderObject fields ++ "\n") =
      (renderObject discoveryFields ++ "\n") :: (tests.map jsonListLine ++
        [renderObject (completedFields tests) ++ "\n"]) := by
    rw [listingObjects, List.map_cons, List.map_append, htests, List.map_singleton]
  rw [hlines, hdiscovery, hcompleted]
  refine String.toList_inj.mp ?_
  unfold libtestJsonListOutput
  simp [String.toList_append]

end Json

/-! ## Reading an object -/

namespace JsonValue

/-- The string that a value is. -/
def asText : JsonValue → Option String
  | .word value => some value
  | .text value => some value
  | _ => none

/-- The Boolean that a value is. -/
def asFlag : JsonValue → Option Bool
  | .flag value => some value
  | _ => none

/-- The 64-bit number that a value is. -/
def asNumber : JsonValue → Option UInt64
  | .number value => if value < UInt64.size then some (.ofNat value) else none
  | _ => none

end JsonValue

/-- A field that may be missing. -/
def optionalField {α : Type} (fields : List (String × JsonValue)) (key : String)
    (read : JsonValue → Option α) : Option (Option α) :=
  match fields.lookup key with
  | none => some none
  | some value => (read value).map some

/-- The record that an object's fields stand for: `type` is required, `ignore` is false unless it
is there, the other fields of the record are optional and unknown fields are ignored. -/
def decodeFields (fields : List (String × JsonValue)) : Option JsonListEvent := do
  let kind ← (fields.lookup "type").bind JsonValue.asText
  let event ← optionalField fields "event" JsonValue.asText
  let name ← optionalField fields "name" JsonValue.asText
  let ignore ← optionalField fields "ignore" JsonValue.asFlag
  let ignoreMessage ← optionalField fields "ignore_message" JsonValue.asText
  let sourcePath ← optionalField fields "source_path" JsonValue.asText
  let startLine ← optionalField fields "start_line" JsonValue.asNumber
  let startCol ← optionalField fields "start_col" JsonValue.asNumber
  let endLine ← optionalField fields "end_line" JsonValue.asNumber
  let endCol ← optionalField fields "end_col" JsonValue.asNumber
  pure
    { kind
      event
      name
      ignore := ignore.getD false
      ignoreMessage
      sourcePath
      startLine
      startCol
      endLine
      endCol }

/-- What a listing relies on: encoded strings hold no control character, and the objects of the
listing are decoded to their fields. -/
structure JsonLaws [HarnessText] [JsonEncoder] (tests : List TestCase) : Prop where
  escaped : ∀ value : String, ∀ c ∈ (JsonEncoder.encodeString value).toList, 32 ≤ c.toNat
  decoded : ∀ fields ∈ listingObjects tests,
    HarnessText.parseListEvent (renderObject fields) = decodeFields fields

/-- The test that a listing event announces. -/
def JsonListEvent.testCase (event : JsonListEvent) : Option TestCase := do
  let kind ←
    if event.kind = "test" then some TestCaseKind.test
    else if event.kind = "benchmark" then some .benchmark
    else none
  if event.event.any (· != "discovered") then none
  else
    let name ← event.name
    pure
      { name
        kind
        ignored := event.ignore
        metadata := { ignoreMessage := event.ignoreMessage, location := event.location } }

/-- The test that an object announces. -/
def testOfFields (fields : List (String × JsonValue)) : Option TestCase :=
  (decodeFields fields).bind JsonListEvent.testCase

/-- A listed test is read back from its fields. -/
theorem test_of_test_fields (test : TestCase) : testOfFields (testFields test) = some test := by
  obtain ⟨name, kind, ignored, ignoreMessage, location⟩ := test
  have hsize : ∀ n : UInt64, n.toNat < UInt64.size := fun n => n.toNat_lt
  cases kind <;> cases ignoreMessage <;> cases location <;>
    simp [testOfFields, decodeFields, testFields, optionalField, JsonValue.asText, JsonValue.asFlag,
      JsonValue.asNumber, JsonListEvent.testCase, JsonListEvent.location, TestCaseKind.jsonName,
      List.lookup_cons, List.lookup_nil, hsize]

/-- A suite line is no test. -/
theorem no_test_of_suite_fields (tests : List TestCase) :
    testOfFields discoveryFields = none ∧ testOfFields (completedFields tests) = none := by
  constructor <;>
    simp [testOfFields, decodeFields, discoveryFields, completedFields, optionalField,
      JsonValue.asText, JsonListEvent.testCase, List.lookup_cons, List.lookup_nil]

/-- The tests of a listing are read back from its objects. -/
theorem tests_of_listing_objects (tests : List TestCase) :
    (listingObjects tests).filterMap testOfFields = tests := by
  obtain ⟨hdiscovery, hcompleted⟩ := no_test_of_suite_fields tests
  have htests : (tests.map testFields).filterMap testOfFields = tests := by
    rw [List.filterMap_map]
    exact (List.filterMap_congr fun test _ => test_of_test_fields test).trans List.filterMap_some
  unfold listingObjects
  rw [List.filterMap_cons_none hdiscovery, List.filterMap_append, htests,
    List.filterMap_cons_none hcompleted, List.filterMap_nil, List.append_nil]

/-! ## Lines of a listing -/

/-- Text without control characters. -/
def NoControl (text : String) : Prop :=
  ∀ c ∈ text.toList, 32 ≤ c.toNat

instance (text : String) : Decidable (NoControl text) :=
  List.decidableBAll _ _

theorem NoControl.append {first second : String} (hfirst : NoControl first)
    (hsecond : NoControl second) : NoControl (first ++ second) := by
  intro c hc
  rw [String.toList_append] at hc
  exact (List.mem_append.mp hc).elim (hfirst c) (hsecond c)

/-- Text without control characters stays on its line and loses nothing at its end. -/
theorem NoControl.one_line {text : String} (h : NoControl text) :
    '\n' ∉ text.toList ∧ Text.chomp text.toList = text.toList := by
  constructor
  · intro hmem
    have hlow := h _ hmem
    revert hlow
    decide
  · refine Text.chomp_eq_self fun hmem => ?_
    have hlow := h _ hmem
    revert hlow
    decide

/-- The keys and words of an object hold no control character. -/
def PlainFields (fields : List (String × JsonValue)) : Prop :=
  ∀ field ∈ fields, NoControl field.1 ∧ ∀ value, field.2 = .word value → NoControl value

/-- The objects of a listing have plain keys and words. -/
theorem plain_listing_objects (tests : List TestCase) :
    ∀ fields ∈ listingObjects tests, PlainFields fields := by
  have hkind : ∀ kind : TestCaseKind, NoControl kind.jsonName := by
    intro kind
    cases kind <;> decide
  intro fields hfields
  rcases List.mem_cons.mp hfields with rfl | hfields
  · simp [PlainFields, discoveryFields]
    decide
  rcases List.mem_append.mp hfields with hfields | hfields
  · obtain ⟨test, _, rfl⟩ := List.mem_map.mp hfields
    have hname := hkind test.kind
    obtain ⟨name, kind, ignored, ignoreMessage, location⟩ := test
    cases ignoreMessage <;> cases location <;>
      simp [PlainFields, testFields, hname] <;> decide
  · obtain rfl := List.mem_singleton.mp hfields
    simp [PlainFields, completedFields]
    decide

section Lines

variable [HarnessText] [JsonEncoder] {tests : List TestCase}

theorem no_control_render (laws : JsonLaws tests) {value : JsonValue}
    (h : ∀ word, value = .word word → NoControl word) : NoControl value.render := by
  have hquote : NoControl "\"" := by decide
  cases value with
  | word value => exact (hquote.append (h value rfl)).append hquote
  | text value => exact laws.escaped value
  | flag value =>
      have hflag : ∀ flag : Bool, NoControl (toString flag) := by decide
      exact hflag value
  | number value =>
      intro c hc
      obtain ⟨hlow, _⟩ := Text.digit_bounds value c hc
      omega

theorem no_control_fields (laws : JsonLaws tests) {fields : List (String × JsonValue)}
    (h : PlainFields fields) : NoControl (renderFields fields) := by
  have hfield : ∀ field ∈ fields, NoControl ("\"" ++ field.1 ++ "\": " ++ field.2.render) := by
    intro field hmem
    obtain ⟨hkey, hword⟩ := h field hmem
    exact (((show NoControl "\"" by decide).append hkey).append
      (show NoControl "\": " by decide)).append (no_control_render laws hword)
  fun_induction renderFields fields with
  | case1 => exact (by decide : NoControl "")
  | case2 key value => exact hfield (key, value) List.mem_cons_self
  | case3 key value fields _ ih =>
      have hrest := ih (fun field hmem => h field (List.mem_cons_of_mem _ hmem))
        fun field hmem => hfield field (List.mem_cons_of_mem _ hmem)
      exact ((hfield (key, value) List.mem_cons_self).append
        (show NoControl ", " by decide)).append hrest

/-- An object of a listing stands on one line between its braces. -/
theorem render_listing_object (laws : JsonLaws tests) {fields : List (String × JsonValue)}
    (hfields : fields ∈ listingObjects tests) :
    NoControl (renderObject fields) ∧
      ∃ middle, (renderObject fields).toList = '\x7b' :: (middle ++ ['\x7d']) := by
  have hplain := no_control_fields laws (plain_listing_objects tests fields hfields)
  constructor
  · exact ((show NoControl "\x7b " by decide).append hplain).append
      (show NoControl " \x7d" by decide)
  · refine ⟨' ' :: ((renderFields fields).toList ++ [' ']), ?_⟩
    simp [renderObject, String.toList_append]

omit [JsonEncoder] in
/-- A line that holds more than whitespace is read as the event on it. -/
theorem parse_json_line_eq {line : String} (h : (Text.trim line).isEmpty = false) :
    parseJsonLine line =
      (HarnessText.parseListEvent (Text.trim line)).bind JsonListEvent.testCase := by
  unfold parseJsonLine
  simp only [h, Bool.false_eq_true, if_false]
  cases HarnessText.parseListEvent (Text.trim line) <;> rfl

/-- A line that is an object of the listing is read as its fields. -/
theorem parse_json_object (laws : JsonLaws tests) {fields : List (String × JsonValue)}
    (hfields : fields ∈ listingObjects tests) :
    parseJsonLine (renderObject fields) = testOfFields fields := by
  obtain ⟨_, middle, hobject⟩ := render_listing_object laws hfields
  have htrim := Text.trim_eq_self hobject (by decide) (by decide)
  have hnonempty : (Text.trim (renderObject fields)).isEmpty = false := by
    rw [htrim, String.isEmpty_eq_false_iff]
    intro hempty
    rw [hempty] at hobject
    cases hobject
  rw [parse_json_line_eq hnonempty, htrim, laws.decoded fields hfields]
  rfl

/-- The lines of a listing are its objects. -/
theorem lines_of_json_output (laws : JsonLaws tests) :
    Text.lines (libtestJsonListOutput tests) = (listingObjects tests).map renderObject := by
  have hlines : ∀ objects ⊆ listingObjects tests,
      Text.lineChars [] (String.join (objects.map fun fields =>
        renderObject fields ++ "\n")).toList = objects.map fun fields =>
          (renderObject fields).toList := by
    intro objects
    induction objects with
    | nil => intro _; rfl
    | cons fields objects ih =>
        intro hsubset
        obtain ⟨hfields, hobjects⟩ := List.cons_subset.mp hsubset
        obtain ⟨hcontrol, _⟩ := render_listing_object laws hfields
        have hjoin : (String.join ((fields :: objects).map fun fields =>
            renderObject fields ++ "\n")).toList = (renderObject fields).toList ++
              '\n' :: (String.join (objects.map fun fields =>
                renderObject fields ++ "\n")).toList := by
          simp [String.toList_append]
        obtain ⟨hone, hchomp⟩ := hcontrol.one_line
        rw [hjoin, Text.line_chars_line hone, ih hobjects, hchomp, List.map_cons]
  rw [Text.lines, json_list_output_eq, hlines _ (List.Subset.refl _), List.map_map]
  exact List.map_congr_left fun fields _ => String.ofList_toList

/-- A JSON listing is read as the tests that it lists. -/
theorem parse_json_output (laws : JsonLaws tests) :
    parseJson (libtestJsonListOutput tests) = tests := by
  have hread : ∀ fields ∈ listingObjects tests,
      (parseJsonLine ∘ renderObject) fields = testOfFields fields := by
    intro fields hfields
    rw [Function.comp_apply, parse_json_object laws hfields]
  unfold parseJson
  rw [lines_of_json_output laws, List.filterMap_map, List.filterMap_congr hread,
    tests_of_listing_objects]

end Lines

/-! ## Text listings -/

/-- What follows the name on a line of a text listing. -/
def TestCaseKind.textSuffix : TestCaseKind → String
  | .test => ": test"
  | .benchmark => ": benchmark"

/-- One line of a text listing without its line feed. -/
def textLine (test : TestCase) : String :=
  test.name ++ test.kind.textSuffix

theorem text_list_line_eq (test : TestCase) : textListLine test = textLine test ++ "\n" := by
  obtain ⟨name, kind, ignored, metadata⟩ := test
  refine String.toList_inj.mp ?_
  cases kind <;> simp [textListLine, textLine, TestCaseKind.textSuffix]

/-- The last character of a line is one of its kind's word. -/
theorem text_line_last (test : TestCase) :
    ∃ start last, (textLine test).toList = start ++ [last] ∧ Text.isWhitespace last = false ∧
      last ≠ '\r' := by
  obtain ⟨name, kind, ignored, metadata⟩ := test
  cases kind with
  | test =>
      exact ⟨name.toList ++ ": tes".toList, 't', by simp [textLine, TestCaseKind.textSuffix],
        by decide, by decide⟩
  | benchmark =>
      exact ⟨name.toList ++ ": benchmar".toList, 'k',
        by simp [textLine, TestCaseKind.textSuffix], by decide, by decide⟩

/-- A line of a listing is read as its name and kind, whatever the name ends in. -/
theorem parse_text_line {test : TestCase} (h : test.name ≠ "") :
    parseTextLine (textLine test) =
      some { name := test.name, kind := test.kind, ignored := false } := by
  obtain ⟨start, last, hline, hlast, _⟩ := text_line_last test
  have htrim := Text.trim_end_eq_self hline hlast
  have hname : test.name.isEmpty = false := String.isEmpty_eq_false_iff.mpr h
  unfold parseTextLine
  rw [htrim]
  cases hkind : test.kind with
  | test =>
      have hstrip : Text.stripSuffix (textLine test) ": test" = some test.name := by
        rw [Text.strip_suffix_eq_some, textLine, hkind, TestCaseKind.textSuffix]
      simp only [hstrip, hname, Option.bind_eq_bind, Option.bind_some, Bool.false_eq_true, if_false]
  | benchmark =>
      have hother : Text.stripSuffix (textLine test) ": test" = none := by
        have hend :
            (textLine test).toList = (test.name.toList ++ ": benchmar".toList) ++ ['k'] := by
          rw [textLine, hkind]
          simp [TestCaseKind.textSuffix]
        have hword : ": test".toList = ": tes".toList ++ ['t'] := rfl
        exact Text.strip_suffix_other hend hword (by decide)
      have hstrip : Text.stripSuffix (textLine test) ": benchmark" = some test.name := by
        rw [Text.strip_suffix_eq_some, textLine, hkind, TestCaseKind.textSuffix]
      simp only [hother, hstrip, hname, Option.map_some, Option.bind_eq_bind, Option.bind_some,
        Bool.false_eq_true, if_false]

/-- The lines of a listing, and of what follows it. -/
theorem lines_of_text_output {tests : List TestCase} (h : ∀ test ∈ tests, '\n' ∉ test.name.toList)
    (rest : List Char) :
    Text.lineChars [] ((String.join (tests.map textListLine)).toList ++ rest) =
      tests.map (fun test => (textLine test).toList) ++ Text.lineChars [] rest := by
  induction tests with
  | nil => rfl
  | cons test tests ih =>
      obtain ⟨start, last, hline, _, hlast⟩ := text_line_last test
      have hone : '\n' ∉ (textLine test).toList := by
        have hsuffix : '\n' ∉ test.kind.textSuffix.toList := by
          cases test.kind <;> decide
        rw [textLine, String.toList_append, List.mem_append]
        exact fun hmem => hmem.elim (h test List.mem_cons_self) hsuffix
      have hjoin : (String.join ((test :: tests).map textListLine)).toList ++ rest =
          (textLine test).toList ++
            '\n' :: ((String.join (tests.map textListLine)).toList ++ rest) := by
        simp [text_list_line_eq]
      have hchomp : Text.chomp (textLine test).toList = (textLine test).toList := by
        rw [hline, Text.chomp, if_neg (by rw [List.getLast?_concat]; simpa using hlast)]
      rw [hjoin, Text.line_chars_line hone, hchomp,
        ih fun other hother => h other (List.mem_cons_of_mem _ hother)]
      rfl

/-- The last line of a listing with a summary. -/
def summaryLine (testCount benchmarkCount : Nat) : String :=
  toString testCount ++ " " ++ plural testCount "test" "tests" ++ ", " ++
    toString benchmarkCount ++ " " ++ plural benchmarkCount "benchmark" "benchmarks"

/-- A text that ends with neither word of a kind is no listed test. -/
theorem parse_text_line_none {line : String} (htrim : Text.trimEnd line = line)
    (htest : Text.stripSuffix line ": test" = none)
    (hbenchmark : Text.stripSuffix line ": benchmark" = none) : parseTextLine line = none := by
  unfold parseTextLine
  rw [htrim]
  simp [htest, hbenchmark]

/-- The summary is no listed test: a number stands before its last word, and no colon. -/
theorem parse_summary_line (testCount benchmarkCount : Nat) :
    parseTextLine (summaryLine testCount benchmarkCount) = none := by
  let before := toString testCount ++ " " ++ plural testCount "test" "tests" ++ ", "
  have hword : ": test".toList = ": tes".toList ++ ['t'] := rfl
  by_cases hone : benchmarkCount = 1
  · subst hone
    have hline : (summaryLine testCount 1).toList =
        (before.toList ++ "1".toList) ++ " benchmark".toList := by
      have hdigit : Nat.toDigits 10 1 = ['1'] := rfl
      simp [summaryLine, before, plural, hdigit]
    have hlast : (summaryLine testCount 1).toList =
        ((before.toList ++ "1".toList) ++ " benchmar".toList) ++ ['k'] := by
      rw [hline, List.append_assoc _ _ ['k']]
      rfl
    refine parse_text_line_none (Text.trim_end_eq_self hlast (by decide))
      (Text.strip_suffix_other hlast hword (by decide)) ?_
    cases hstrip : Text.stripSuffix (summaryLine testCount 1) ": benchmark" with
    | none => rfl
    | some rest =>
        rw [Text.strip_suffix_eq_some] at hstrip
        have hcolon : (before.toList ++ ['1']) ++ " benchmark".toList =
            (rest.toList ++ [':']) ++ " benchmark".toList := by
          have hright : (rest ++ ": benchmark").toList =
              rest.toList ++ ([':'] ++ " benchmark".toList) := String.toList_append
          rw [List.append_assoc rest.toList]
          exact hline.symm.trans ((congrArg String.toList hstrip).trans hright)
        have hdigit := List.append_cancel_right hcolon
        have hchar := List.singleton_inj.mp (List.append_inj' hdigit rfl).2
        exact absurd hchar (by decide)
  · have hlast : (summaryLine testCount benchmarkCount).toList =
        ((before ++ toString benchmarkCount).toList ++ " benchmark".toList) ++ ['s'] := by
      simp [summaryLine, before, plural, hone]
    have hother : ": benchmark".toList = ": benchmar".toList ++ ['k'] := rfl
    exact parse_text_line_none (Text.trim_end_eq_self hlast (by decide))
      (Text.strip_suffix_other hlast hword (by decide))
      (Text.strip_suffix_other hlast hother (by decide))

theorem no_control_summary (testCount benchmarkCount : Nat) :
    NoControl (summaryLine testCount benchmarkCount) := by
  have hplural : ∀ count, NoControl (plural count "test" "tests") ∧
      NoControl (plural count "benchmark" "benchmarks") := by
    intro count
    unfold plural
    split <;> decide
  have hdigits : ∀ n : Nat, NoControl (toString n) := by
    intro n c hc
    obtain ⟨hlow, _⟩ := Text.digit_bounds n c hc
    omega
  exact ((((((hdigits testCount).append (show NoControl " " by decide)).append
    (hplural testCount).1).append (show NoControl ", " by decide)).append
    (hdigits benchmarkCount)).append (show NoControl " " by decide)).append
    (hplural benchmarkCount).2

/-- A text listing is read as its names and kinds, with or without a summary. -/
theorem parse_text_output {tests : List TestCase}
    (h : ∀ test ∈ tests, test.name ≠ "" ∧ '\n' ∉ test.name.toList) (summary : Bool) :
    parseText (libtestTextListOutput tests summary) =
      tests.map fun test => { name := test.name, kind := test.kind, ignored := false } := by
  have hlines := lines_of_text_output fun test htest => (h test htest).2
  have htests : (tests.map fun test => (textLine test).toList).filterMap
      (fun line => parseTextLine (String.ofList line)) =
        tests.map fun test => { name := test.name, kind := test.kind, ignored := false } := by
    rw [List.filterMap_map, ← List.filterMap_eq_map]
    refine List.filterMap_congr fun test htest => ?_
    simp only [Function.comp_apply, String.ofList_toList]
    exact parse_text_line (h test htest).1
  have hparse : ∀ text : String, parseText text =
      (Text.lineChars [] text.toList).filterMap fun line => parseTextLine (String.ofList line) := by
    intro text
    unfold parseText Text.lines
    rw [List.filterMap_map]
    simp only [Function.comp_def]
  cases summary with
  | false =>
      have hout : (libtestTextListOutput tests false).toList =
          (String.join (tests.map textListLine)).toList ++ [] := by
        rw [List.append_nil]
        rfl
      have hnil : Text.lineChars [] [] = [] := rfl
      rw [hparse, hout, hlines, hnil, List.append_nil, htests]
  | true =>
      let last := summaryLine (kindCount tests .test) (kindCount tests .benchmark)
      have hbody : libtestTextListOutput tests true =
          String.join (tests.map textListLine) ++ "\n" ++ (last ++ "\n") := rfl
      have hout : (libtestTextListOutput tests true).toList =
          (String.join (tests.map textListLine)).toList ++ '\n' :: (last.toList ++ ['\n']) := by
        rw [hbody]
        simp [String.toList_append]
      obtain ⟨hone, hchomp⟩ :=
        (no_control_summary (kindCount tests .test) (kindCount tests .benchmark)).one_line
      have hend : Text.lineChars [] ('\n' :: (last.toList ++ ['\n'])) = [[], last.toList] := by
        rw [Text.line_chars_newline, Text.line_chars_line hone, hchomp]
        rfl
      -- The empty line and the summary are skipped.
      have hnone : [[], last.toList].filterMap
          (fun line => parseTextLine (String.ofList line)) = [] := by
        refine List.filterMap_eq_nil_iff.mpr fun line hline => ?_
        rcases List.mem_cons.mp hline with rfl | hline
        · rfl
        · obtain rfl := List.mem_singleton.mp hline
          rw [String.ofList_toList]
          exact parse_summary_line _ _
      rw [hparse, hout, hlines, hend, List.filterMap_append, htests, hnone, List.append_nil]

/-! ## Round trip -/

/-- What is printed is read back: a JSON listing as the tests that the policy selects, with all
that the listing says about them, and a text listing of names on one line as their names and
kinds. -/
theorem listing_round_trip [HarnessText] [JsonEncoder] {tests : List TestCase}
    (laws : JsonLaws tests) :
    (∀ policy : IgnoredPolicy,
      parseListing .json (Text.bytes (libtestJsonListOutput tests)) policy =
        .ok (tests.filter fun test => policy.selects test.ignored)) ∧
      ((∀ test ∈ tests, test.name ≠ "" ∧ '\n' ∉ test.name.toList) → ∀ summary : Bool,
        parseListing .text (Text.bytes (libtestTextListOutput tests summary)) .includeIgnored =
          .ok (tests.map fun test =>
            { name := test.name, kind := test.kind, ignored := false, metadata := {} })) := by
  constructor
  · intro policy
    simp only [parseListing, Text.from_utf8_bytes, parse_json_output laws]
  · intro hnames summary
    simp only [parseListing, Text.from_utf8_bytes, parse_text_output hnames,
      IgnoredPolicy.selects, List.filter_true]

/-- One character of `serde_json`'s string encoding. -/
def serdeChar (c : Char) : List Char :=
  let hex := Nat.toDigits 16 c.toNat
  if c.toNat = 0x22 then "\\\"".toList
  else if c.toNat = 0x5C then "\\\\".toList
  else if c.toNat = 0x08 then "\\b".toList
  else if c.toNat = 0x09 then "\\t".toList
  else if c.toNat = 0x0A then "\\n".toList
  else if c.toNat = 0x0C then "\\f".toList
  else if c.toNat = 0x0D then "\\r".toList
  else if c.toNat < 0x20 then "\\u00".toList ++ List.replicate (2 - hex.length) '0' ++ hex
  else [c]

/-- `serde_json`'s string encoding. -/
def serdeString (value : String) : String :=
  "\"" ++ String.ofList (value.toList.flatMap serdeChar) ++ "\""

theorem serde_char_no_control (c : Char) : NoControl (String.ofList (serdeChar c)) := by
  have hescape : ∀ n < 32, NoControl (String.ofList (serdeChar (Char.ofNat n))) := by
    decide +kernel
  by_cases hlow : c.toNat < 32
  · have hc := hescape c.toNat hlow
    rwa [Char.ofNat_toNat] at hc
  · have hother : serdeChar c = "\\\"".toList ∨ serdeChar c = "\\\\".toList ∨
        serdeChar c = [c] := by
      unfold serdeChar
      grind
    rcases hother with h | h | h
    · rw [h]
      decide
    · rw [h]
      decide
    · rw [h]
      intro d hd
      obtain rfl := List.mem_singleton.mp (String.toList_ofList ▸ hd)
      show 32 ≤ d.toNat
      omega

theorem serde_string_no_control (value : String) : NoControl (serdeString value) := by
  refine NoControl.append (NoControl.append (by decide) ?_) (by decide)
  intro c hc
  rw [String.toList_ofList] at hc
  obtain ⟨d, _, hd⟩ := List.mem_flatMap.mp hc
  exact serde_char_no_control d c (String.toList_ofList.symm ▸ hd)

/-- An ignored test with a message of two lines, and a benchmark with a name like a summary. -/
def sampleListing : List TestCase :=
  [⟨"net::slow: test", .test, true, ⟨some "a\nb", some ⟨"src/lib.rs", 10, 8, 10, 17⟩⟩⟩,
    ⟨"1 test, 0 benchmarks", .benchmark, false, {}⟩]

/-- The decoder on the lines of the sample. -/
@[reducible] def sampleHarness : HarnessText where
  parseListEvent line :=
    if line = "\x7b \"type\": \"suite\", \"event\": \"discovery\" \x7d" then
      some { kind := "suite", event := some "discovery" }
    else if line = "\x7b \"type\": \"test\", \"event\": \"discovered\", \"name\": " ++
        "\"net::slow: test\", \"ignore\": true, \"ignore_message\": \"a\\nb\", " ++
        "\"source_path\": \"src/lib.rs\", \"start_line\": 10, \"start_col\": 8, " ++
        "\"end_line\": 10, \"end_col\": 17 \x7d" then
      some
        { kind := "test", event := some "discovered", name := some "net::slow: test"
          ignore := true, ignoreMessage := some "a\nb", sourcePath := some "src/lib.rs"
          startLine := some 10, startCol := some 8, endLine := some 10, endCol := some 17 }
    else if line = "\x7b \"type\": \"benchmark\", \"event\": \"discovered\", " ++
        "\"name\": \"1 test, 0 benchmarks\", \"ignore\": false \x7d" then
      some
        { kind := "benchmark", event := some "discovered", name := some "1 test, 0 benchmarks" }
    else if line = "\x7b \"type\": \"suite\", \"event\": \"completed\", \"tests\": 1, " ++
        "\"benchmarks\": 1, \"total\": 2, \"ignored\": 1 \x7d" then
      some { kind := "suite", event := some "completed" }
    else none
  parseRunEvent _ := none
  parseF64 _ := none
  tryFromSecsF64 _ := none

theorem sample_laws : @JsonLaws sampleHarness ⟨serdeString⟩ sampleListing :=
  @JsonLaws.mk sampleHarness ⟨serdeString⟩ sampleListing serde_string_no_control
    (by decide +kernel)

theorem sample_round_trip :
    (∀ policy : IgnoredPolicy,
      @parseListing sampleHarness .json
          (Text.bytes (@libtestJsonListOutput ⟨serdeString⟩ sampleListing)) policy =
        .ok (sampleListing.filter fun test => policy.selects test.ignored)) ∧
      ∀ summary : Bool,
        @parseListing sampleHarness .text
            (Text.bytes (libtestTextListOutput sampleListing summary)) .includeIgnored =
          .ok (sampleListing.map fun test =>
            { name := test.name, kind := test.kind, ignored := false, metadata := {} }) :=
  have h := @listing_round_trip sampleHarness ⟨serdeString⟩ sampleListing sample_laws
  ⟨h.1, h.2 (by decide)⟩

end Quokka
