import Mathlib.Data.List.Sort
import Quokka.Library.Lines
import Quokka.Translator.ListOutput

/-!
# The text report of a libtest binary

What a libtest binary prints on a run, which `decode_text` of `translator.rs` reads: a line for
each test, and the captured output and the names of the failed ones. `report_lines` gives a
report by its lines, and `read_report_lines` what the reader takes each line for.
-/

namespace Quokka

/-- Text on one line. -/
structure OneLine where
  text : String
  one_line : Text.IsLine text

/-- A decimal number of seconds. -/
structure Seconds where
  whole : Nat
  fraction : List (Fin 10)

/-- Seconds as they are printed. -/
def Seconds.render (seconds : Seconds) : String :=
  toString seconds.whole ++ "." ++
    String.ofList (seconds.fraction.map fun digit => Nat.digitChar digit.val) ++ "s"

/-- The status of a test; a test that ran may have its time behind it. -/
inductive TextStatus where
  | ok (reportTime : Option Seconds)
  | failed (reportTime : Option Seconds)
  | ignored
  | ignoredBecause (reason : OneLine)
  | bench (samples : OneLine)

/-- A report time. -/
def reportTimeText : Option Seconds → String
  | none => ""
  | some seconds => " <" ++ seconds.render ++ ">"

/-- A status as it is printed. -/
def TextStatus.render : TextStatus → String
  | .ok reportTime => "ok" ++ reportTimeText reportTime
  | .failed reportTime => "FAILED" ++ reportTimeText reportTime
  | .ignored => "ignored"
  | .ignoredBecause reason => "ignored, " ++ reason.text
  | .bench samples => "bench: " ++ samples.text

/-- The outcome that a status stands for. -/
def TextStatus.verdict : TextStatus → TestVerdict
  | .ok _ | .bench _ => .pass
  | .failed _ => .fail
  | .ignored | .ignoredBecause _ => .skip

/-- A test that was run or ignored, and what it printed. -/
structure TextResult where
  name : OneLine
  shouldPanic : Bool := false
  status : TextStatus
  captured : String := ""

/-- The name of a test on its line. -/
def TextResult.title (test : TextResult) : String :=
  if test.shouldPanic then test.name.text ++ " - should panic" else test.name.text

/-- The line of a test. -/
def TextResult.line (test : TextResult) : String :=
  "test " ++ test.title ++ " ... " ++ test.status.render

/-- The line above the captured output of a test. -/
def TextResult.header (test : TextResult) : String :=
  "---- " ++ test.name.text ++ " stdout ----"

/-- A test failed. -/
def TextResult.isFailed (test : TextResult) : Bool :=
  test.status.verdict = .fail

/-- The captured output is printed when a test failed and printed anything. -/
def TextResult.hasBlock (test : TextResult) : Bool :=
  test.isFailed && !test.captured.isEmpty

/-- The captured output of a failed test. -/
def TextResult.block (test : TextResult) : String :=
  if test.hasBlock then test.header ++ "\n" ++ test.captured ++ "\n" else ""

/-- A run: its tests in the order in which they ended. -/
structure TextReport where
  tests : List TextResult
  filteredOut : Nat := 0
  finishedIn : Option Seconds := none

/-- How long the run took. -/
def finishedText : Option Seconds → String
  | none => ""
  | some seconds => "; finished in " ++ seconds.render

/-- The number of tests with a status. -/
def TextReport.count (report : TextReport) (status : TextStatus → Bool) : Nat :=
  report.tests.countP fun test => status test.status

/-- The line before the tests. -/
def TextReport.running (report : TextReport) : String :=
  "running " ++ toString report.tests.length ++ " " ++
    plural report.tests.length "test" "tests"

/-- The last line. -/
def TextReport.result (report : TextReport) : String :=
  let failed := report.tests.countP TextResult.isFailed
  let passed := report.count fun status => status matches .ok _
  let ignored := report.count fun status => status.verdict = .skip
  let measured := report.count fun status => status matches .bench _
  "test result: " ++ (if failed = 0 then "ok" else "FAILED") ++ ". " ++ toString passed ++
    " passed; " ++ toString failed ++ " failed; " ++ toString ignored ++ " ignored; " ++
    toString measured ++ " measured; " ++ toString report.filteredOut ++ " filtered out" ++
    finishedText report.finishedIn

/-- The names of the failed tests. -/
def TextReport.failedNames (report : TextReport) : List String :=
  ((report.tests.filter TextResult.isFailed).map fun test => test.name.text).insertionSort (· ≤ ·)

/-- The captured output and the names of the failed tests. -/
def TextReport.failures (report : TextReport) : String :=
  let blocks := String.join (report.tests.map TextResult.block)
  "\nfailures:\n" ++ (if blocks.isEmpty then "" else "\n" ++ blocks) ++ "\nfailures:\n" ++
    String.join (report.failedNames.map fun name => "    " ++ name ++ "\n")

/-- The report of a run. -/
def TextReport.render (report : TextReport) : String :=
  "\n" ++ report.running ++ "\n" ++
    String.join (report.tests.map fun test => test.line ++ "\n") ++
    (if report.tests.any TextResult.isFailed then report.failures else "") ++
    "\n" ++ report.result ++ "\n\n"

/-! ## The lines of a report -/

theorem is_line_seconds (seconds : Seconds) : Text.IsLine seconds.render := by
  have hdigits : Text.IsLine (String.ofList
      (seconds.fraction.map fun digit => Nat.digitChar digit.val)) := by
    intro hmem
    rw [String.toList_ofList] at hmem
    obtain ⟨digit, _, hdigit⟩ := List.mem_map.mp hmem
    have hother : ∀ digit : Fin 10, Nat.digitChar digit.val ≠ '\n' := by decide
    exact hother digit hdigit
  exact (((Text.is_line_number _).append (show Text.IsLine "." by decide)).append hdigits).append
    (show Text.IsLine "s" by decide)

theorem is_line_report_time (reportTime : Option Seconds) :
    Text.IsLine (reportTimeText reportTime) := by
  cases reportTime with
  | none => exact (by decide : Text.IsLine "")
  | some seconds =>
      exact ((show Text.IsLine " <" by decide).append (is_line_seconds seconds)).append
        (show Text.IsLine ">" by decide)

theorem is_line_status (status : TextStatus) : Text.IsLine status.render := by
  cases status with
  | ok reportTime => exact (show Text.IsLine "ok" by decide).append (is_line_report_time _)
  | failed reportTime =>
      exact (show Text.IsLine "FAILED" by decide).append (is_line_report_time _)
  | ignored => exact (by decide : Text.IsLine "ignored")
  | ignoredBecause reason =>
      exact (show Text.IsLine "ignored, " by decide).append reason.one_line
  | bench samples => exact (show Text.IsLine "bench: " by decide).append samples.one_line

theorem TextResult.is_line_title (test : TextResult) : Text.IsLine test.title := by
  unfold title
  split
  · exact test.name.one_line.append (show Text.IsLine " - should panic" by decide)
  · exact test.name.one_line

theorem TextResult.is_line_line (test : TextResult) : Text.IsLine test.line :=
  (((show Text.IsLine "test " by decide).append test.is_line_title).append
    (show Text.IsLine " ... " by decide)).append (is_line_status test.status)

theorem TextResult.is_line_header (test : TextResult) : Text.IsLine test.header :=
  ((show Text.IsLine "---- " by decide).append test.name.one_line).append
    (show Text.IsLine " stdout ----" by decide)

theorem TextReport.is_line_running (report : TextReport) : Text.IsLine report.running := by
  have hplural : Text.IsLine (plural report.tests.length "test" "tests") := by
    unfold plural
    split <;> decide
  exact (((show Text.IsLine "running " by decide).append (Text.is_line_number _)).append
    (show Text.IsLine " " by decide)).append hplural

/-- The lines of a block: the header and the captured output. -/
def TextResult.blockLines (test : TextResult) : List (List Char) :=
  if test.hasBlock then test.header.toList :: Text.linesOf test.captured.toList else []

theorem TextResult.block_chars (test : TextResult) :
    test.block.toList = Text.unlines test.blockLines := by
  unfold block blockLines
  split
  · rw [Text.unlines_cons, Text.unlines_lines_of]
    simp
  · rfl

theorem TextResult.is_line_block (test : TextResult) :
    ∀ line ∈ test.blockLines, '\n' ∉ line := by
  intro line hline
  unfold blockLines at hline
  split at hline
  · rcases List.mem_cons.mp hline with rfl | hline
    · exact test.is_line_header
    · exact Text.not_mem_lines_of _ line hline
  · cases hline

/-- The lines of the failure section. -/
def TextReport.failureLines (report : TextReport) : List (List Char) :=
  let blocks := report.tests.flatMap TextResult.blockLines
  [[], "failures:".toList] ++ (if blocks = [] then [] else [] :: blocks) ++
    [[], "failures:".toList] ++ report.failedNames.map fun name => ("    " ++ name).toList

/-- The lines of a report. -/
def TextReport.lines (report : TextReport) : List (List Char) :=
  [[], report.running.toList] ++ report.tests.map (fun test => test.line.toList) ++
    (if report.tests.any TextResult.isFailed then report.failureLines else []) ++
    [[], report.result.toList, []]

theorem TextReport.blocks_chars (tests : List TextResult) :
    (String.join (tests.map TextResult.block)).toList =
      Text.unlines (tests.flatMap TextResult.blockLines) := by
  rw [String.toList_join, List.flatMap_map, Text.unlines, List.flatMap_assoc]
  exact List.flatMap_congr fun test _ => test.block_chars

theorem TextReport.tests_chars (report : TextReport) :
    (String.join (report.tests.map fun test => test.line ++ "\n")).toList =
      Text.unlines (report.tests.map fun test => test.line.toList) := by
  rw [String.toList_join, List.flatMap_map, Text.unlines, List.flatMap_map]
  exact List.flatMap_congr fun test _ => String.toList_append

theorem TextReport.failures_chars (report : TextReport) :
    report.failures.toList = Text.unlines report.failureLines := by
  have hblocks := blocks_chars report.tests
  have hnames : (String.join (report.failedNames.map fun name => "    " ++ name ++ "\n")).toList =
      Text.unlines (report.failedNames.map fun name => ("    " ++ name).toList) := by
    rw [String.toList_join, List.flatMap_map, Text.unlines, List.flatMap_map]
    exact List.flatMap_congr fun name _ => String.toList_append
  have hempty : (String.join (report.tests.map TextResult.block)).isEmpty = true ↔
      report.tests.flatMap TextResult.blockLines = [] := by
    rw [String.isEmpty_iff, ← String.toList_eq_nil_iff, hblocks, Text.unlines_eq_nil]
  unfold failures failureLines
  simp only [String.toList_append, hnames]
  by_cases hnil : report.tests.flatMap TextResult.blockLines = []
  · rw [if_pos (hempty.mpr hnil), if_pos hnil]
    simp
  · rw [if_neg (mt hempty.mp hnil), if_neg hnil]
    simp [hblocks]

theorem TextReport.render_chars (report : TextReport) :
    report.render.toList = Text.unlines report.lines := by
  unfold render lines
  simp only [String.toList_append, tests_chars]
  cases report.tests.any TextResult.isFailed with
  | true => simp [failures_chars]
  | false => simp

/-- Text with fewer than three dots has no ellipsis. -/
theorem no_ellipsis {text : List Char} (h : text.count '.' < 3) :
    ¬ " ... ".toList <:+: text := by
  intro hpart
  have hcount : " ... ".toList.count '.' ≤ text.count '.' := hpart.sublist.count_le _
  have hdots : " ... ".toList.count '.' = 3 := by decide
  omega

theorem count_dot_number (n : Nat) : (toString n).toList.count '.' = 0 := by
  rw [List.count_eq_zero]
  intro hmem
  exact absurd (Text.digit_bounds n '.' hmem).1 (by decide)

theorem count_dot_seconds (seconds : Seconds) : seconds.render.toList.count '.' = 1 := by
  have hdigits : (seconds.fraction.map fun digit => Nat.digitChar digit.val).count '.' = 0 := by
    rw [List.count_eq_zero]
    intro hmem
    obtain ⟨digit, _, hdigit⟩ := List.mem_map.mp hmem
    have hother : ∀ digit : Fin 10, Nat.digitChar digit.val ≠ '.' := by decide
    exact hother digit hdigit
  unfold Seconds.render
  simp only [String.toList_append, List.count_append, count_dot_number, String.toList_ofList,
    hdigits]
  rfl

/-- The last line is on one line and has two dots at most. -/
theorem TextReport.result_line (report : TextReport) :
    Text.IsLine report.result ∧ report.result.toList.count '.' ≤ 2 := by
  have hnumber : ∀ n : Nat, '\n' ∉ (toString n).toList := Text.is_line_number
  obtain ⟨hline, hdots⟩ : '\n' ∉ (finishedText report.finishedIn).toList ∧
      (finishedText report.finishedIn).toList.count '.' ≤ 1 := by
    cases report.finishedIn with
    | none => decide
    | some seconds =>
        refine ⟨(show Text.IsLine "; finished in " by decide).append (is_line_seconds seconds), ?_⟩
        rw [finishedText, String.toList_append, List.count_append, count_dot_seconds]
        decide
  unfold Text.IsLine result
  dsimp only
  constructor
  · split <;> simp only [String.toList_append, List.mem_append, hnumber, hline] <;> decide
  · rw [String.toList_append, List.count_append]
    have hcounts : ∀ start : String, start.toList.count '.' = 1 →
        start.toList.count '.' + (finishedText report.finishedIn).toList.count '.' ≤ 2 := by
      intro start hstart
      omega
    refine hcounts _ ?_
    split <;> simp only [String.toList_append, List.count_append, count_dot_number] <;> decide

theorem TextReport.result_starts (report : TextReport) :
    ∃ rest, report.result.toList = 't' :: rest := by
  unfold result
  simp only [String.append_assoc]
  rw [String.toList_append]
  exact ⟨_, rfl⟩

theorem TextReport.is_line_failures (report : TextReport) :
    ∀ line ∈ report.failureLines, '\n' ∉ line := by
  have hblocks : ∀ line ∈ report.tests.flatMap TextResult.blockLines, '\n' ∉ line := by
    intro line hline
    obtain ⟨test, _, hline⟩ := List.mem_flatMap.mp hline
    exact test.is_line_block line hline
  have hnames : ∀ name ∈ report.failedNames, Text.IsLine ("    " ++ name) := by
    intro name hname
    obtain ⟨test, _, rfl⟩ := List.mem_map.mp ((List.mem_insertionSort _).mp hname)
    exact (show Text.IsLine "    " by decide).append test.name.one_line
  have htitle : ∀ line ∈ [[], "failures:".toList], '\n' ∉ line := by decide
  intro line hline
  unfold failureLines at hline
  rcases List.mem_append.mp hline with hline | hline
  · rcases List.mem_append.mp hline with hline | hline
    · rcases List.mem_append.mp hline with hline | hline
      · exact htitle line hline
      · split at hline
        · cases hline
        · rcases List.mem_cons.mp hline with rfl | hline
          · exact List.not_mem_nil
          · exact hblocks line hline
    · exact htitle line hline
  · obtain ⟨name, hname, rfl⟩ := List.mem_map.mp hline
    exact hnames name hname

theorem TextReport.is_line_lines (report : TextReport) :
    ∀ line ∈ report.lines, '\n' ∉ line := by
  have hfirst : ∀ line ∈ [[], report.running.toList], '\n' ∉ line :=
    List.forall_mem_cons.mpr
      ⟨List.not_mem_nil, List.forall_mem_singleton.mpr report.is_line_running⟩
  have hlast : ∀ line ∈ [[], report.result.toList, []], '\n' ∉ line :=
    List.forall_mem_cons.mpr ⟨List.not_mem_nil, List.forall_mem_cons.mpr
      ⟨report.result_line.1, List.forall_mem_singleton.mpr List.not_mem_nil⟩⟩
  intro line hline
  rcases List.mem_append.mp hline with hline | hline
  · rcases List.mem_append.mp hline with hline | hline
    · rcases List.mem_append.mp hline with hline | hline
      · exact hfirst line hline
      · obtain ⟨test, _, rfl⟩ := List.mem_map.mp hline
        exact test.is_line_line
    · split at hline
      · exact report.is_line_failures line hline
      · cases hline
  · exact hlast line hline

/-! ## Around a block -/

/-- The report above the block of a test, with the tests before it. -/
def TextReport.above (report : TextReport) (before : List TextResult) : String :=
  "\n" ++ report.running ++ "\n" ++
    String.join (report.tests.map fun test => test.line ++ "\n") ++ "\nfailures:\n\n" ++
    String.join (before.map TextResult.block)

/-- The lines above the block of a test. -/
def TextReport.upperLines (report : TextReport) (before : List TextResult) :
    List (List Char) :=
  [[], report.running.toList] ++ report.tests.map (fun test => test.line.toList) ++
    [[], "failures:".toList, []] ++ before.flatMap TextResult.blockLines

/-- The lines below the block of a test, with the tests after it. -/
def TextReport.lowerLines (report : TextReport) (after : List TextResult) : List (List Char) :=
  after.flatMap TextResult.blockLines ++ ([] :: "failures:".toList ::
    (report.failedNames.map (fun name => ("    " ++ name).toList) ++
      [[], report.result.toList, []]))

theorem TextReport.above_chars (report : TextReport) (before : List TextResult) :
    (report.above before).toList = Text.unlines (report.upperLines before) := by
  unfold above upperLines
  simp only [String.toList_append, tests_chars, blocks_chars]
  simp

/-- The lines of a report, around the block of a test. -/
theorem TextReport.lines_around {report : TextReport} {before after : List TextResult}
    {test : TextResult} (h : report.tests = before ++ test :: after)
    (hblock : test.hasBlock = true) :
    report.lines = report.upperLines before ++
      test.header.toList :: (Text.linesOf test.captured.toList ++ report.lowerLines after) := by
  have hblocks : report.tests.flatMap TextResult.blockLines =
      before.flatMap TextResult.blockLines ++ (test.header.toList ::
        (Text.linesOf test.captured.toList ++ after.flatMap TextResult.blockLines)) := by
    have htest : test.blockLines = test.header.toList :: Text.linesOf test.captured.toList := by
      rw [TextResult.blockLines, if_pos hblock]
    rw [h, List.flatMap_append, List.flatMap_cons, htest, List.cons_append]
  have hfailed : report.tests.any TextResult.isFailed = true := by
    refine List.any_eq_true.mpr ⟨test, ?_, (Bool.and_eq_true_iff.mp hblock).1⟩
    rw [h]
    exact List.mem_append_right _ List.mem_cons_self
  have hnonempty : report.tests.flatMap TextResult.blockLines ≠ [] := by
    rw [hblocks]
    simp
  unfold lines failureLines upperLines lowerLines
  rw [if_pos hfailed]
  simp only [if_neg hnonempty]
  rw [hblocks]
  simp only [List.append_assoc, List.cons_append, List.nil_append]

end Quokka
