import Quokka.Translator.TextReport

/-!
# Decoding a text report

What `decode_text` makes of the report of a libtest binary. It reads every line of the report
as if it were the line of a test, the lines of captured output included, and looks for a failure
block wherever its header stands first. `decode_text_iff` says for which reports all outcomes
and all captured outputs come back.
-/

namespace Quokka

/-! ## Lines that are read as results -/

/-- The result on one line of a text report. -/
def lineResult (line : String) : Option (String × TestVerdict) := do
  let rest ← Text.stripPrefix line "test "
  let (name, statusToken) ← Text.rsplitOnce rest " ... "
  let status ← textTokenStatus (Text.trim statusToken)
  pure (name, status)

theorem decode_text_line_status [HarnessText] (stdout stderr line : String) :
    (decodeTextLine stdout stderr line).map (fun result => (result.1, result.2.status)) =
      lineResult line := by
  unfold decodeTextLine lineResult
  cases Text.stripPrefix line "test " with
  | none => rfl
  | some rest =>
      cases hsplit : Text.rsplitOnce rest " ... " with
      | none => simp [hsplit]
      | some parts => cases hstatus : textTokenStatus (Text.trim parts.2) <;> simp [hsplit, hstatus]

/-- The details of a failed result are the failure block of its name, if there is one. -/
theorem decode_text_line_details [HarnessText] {stdout stderr line name block : String}
    {found : PerTestObservation} (h : decodeTextLine stdout stderr line = some (name, found))
    (hfail : found.status = .fail) (hblock : extractFailureBlock stdout name = some block) :
    found.details = block := by
  unfold decodeTextLine at h
  simp only [Option.bind_eq_bind, Option.bind_eq_some_iff, Option.pure_def, Option.some.injEq,
    Prod.mk.injEq] at h
  obtain ⟨rest, _, ⟨other, token⟩, _, status, _, rfl, rfl⟩ := h
  obtain rfl : status = .fail := hfail
  simp [hblock]

/-- A status as it stands on a line that was read. -/
def TextStatus.shown (status : TextStatus) : String :=
  String.ofList (Text.chomp status.render.toList)

/-- What the line of a test is read as. The name ends at the last ellipsis, and a reason for
ignoring a test hides that it was ignored. -/
def TextResult.reading (test : TextResult) : Option (String × TestVerdict) :=
  match Text.rsplitOnce test.status.shown " ... " with
  | some (before, token) =>
      (textTokenStatus (Text.trim token)).map fun status =>
        (test.title ++ " ... " ++ before, status)
  | none =>
      match test.status with
      | .ignoredBecause _ => none
      | status => some (test.title, status.verdict)

/-- A word and what may come after it on a line. -/
theorem text_token_status_word {word rest : String}
    (hword : ∀ c ∈ word.toList, Text.isWhitespace c = false) (hne : word.toList ≠ [])
    (hbench : ¬ "bench:".toList <+: word.toList ∧ ¬ word.toList <+: "bench:".toList)
    (hrest : rest.toList = [] ∨ ∃ more, rest.toList = ' ' :: more) :
    textTokenStatus (Text.trim (word ++ rest)) =
      if word = "ok" then some .pass
      else if word = "FAILED" then some .fail
      else if word = "ignored" then some .skip
      else none := by
  have hend : (Text.trimEnd rest).toList = [] ∨
      ∃ c more, (Text.trimEnd rest).toList = c :: more ∧ Text.isWhitespace c = true := by
    have hstart := Text.prefix_of_trim_end rest
    rcases hrest with hnil | ⟨more, hmore⟩
    · rw [hnil, List.prefix_nil] at hstart
      exact .inl hstart
    · cases hleft : (Text.trimEnd rest).toList with
      | nil => exact .inl rfl
      | cons c left =>
          rw [hmore, hleft, List.cons_prefix_cons] at hstart
          exact .inr ⟨c, left, rfl, by rw [hstart.1]; decide⟩
  have hhead := Text.head_split_whitespace hword hne hend
  have hstarts : Text.startsWith (word ++ Text.trimEnd rest) "bench:" = false := by
    rw [Text.startsWith, Text.strip_prefix_other _ hbench]
    rfl
  unfold textTokenStatus
  rw [Text.trim_word hword hne, hstarts, hhead]
  rfl

/-- The word that a status begins with. -/
def TextStatus.word : TextStatus → String
  | .ok _ => "ok"
  | .failed _ => "FAILED"
  | .ignored => "ignored"
  | .ignoredBecause _ => "ignored,"
  | .bench _ => "bench:"

/-- The words are visible and begin with no dot. -/
theorem TextStatus.word_facts (status : TextStatus) :
    (∀ c ∈ status.word.toList, Text.isWhitespace c = false) ∧
      (∃ c rest, status.word.toList = c :: rest ∧ c ≠ '.') ∧
      status.word.toList.getLast? ≠ some '\r' := by
  have hall : ∀ word ∈ ["ok", "FAILED", "ignored", "ignored,", "bench:"],
      word.toList.all (fun c => !Text.isWhitespace c) = true ∧ word.toList.head?.any (· ≠ '.') ∧
        word.toList.getLast? ≠ some '\r' := by decide
  have hmem : status.word ∈ ["ok", "FAILED", "ignored", "ignored,", "bench:"] := by
    cases status <;> simp [word]
  obtain ⟨hvisible, hfirst, hlast⟩ := hall _ hmem
  refine ⟨fun c hc => by simpa using List.all_eq_true.mp hvisible c hc, ?_, hlast⟩
  cases hword : status.word.toList with
  | nil => rw [hword] at hfirst; cases hfirst
  | cons c rest =>
      rw [hword] at hfirst
      exact ⟨c, rest, rfl, by simpa using hfirst⟩

/-- A status is its word, and nothing or a space and more. -/
theorem TextStatus.shown_eq (status : TextStatus) :
    ∃ rest : String, status.shown = status.word ++ rest ∧
      (rest.toList = [] ∨ ∃ more, rest.toList = ' ' :: more) := by
  obtain ⟨tail, hrender, htail⟩ : ∃ tail : String, status.render = status.word ++ tail ∧
      (tail.toList = [] ∨ ∃ more, tail.toList = ' ' :: more) := by
    have htime : ∀ reportTime, (reportTimeText reportTime).toList = [] ∨
        ∃ more, (reportTimeText reportTime).toList = ' ' :: more := by
      intro reportTime
      cases reportTime with
      | none => exact .inl rfl
      | some seconds =>
          refine .inr ⟨'<' :: (seconds.render ++ ">").toList, ?_⟩
          simp [reportTimeText]
    cases status with
    | ok reportTime => exact ⟨_, rfl, htime reportTime⟩
    | failed reportTime => exact ⟨_, rfl, htime reportTime⟩
    | ignored => exact ⟨"", rfl, .inl rfl⟩
    | ignoredBecause reason =>
        refine ⟨" " ++ reason.text, ?_, .inr ⟨_, by rw [String.toList_append]; rfl⟩⟩
        exact String.toList_inj.mp (by simp [render, word])
    | bench samples =>
        refine ⟨" " ++ samples.text, ?_, .inr ⟨_, by rw [String.toList_append]; rfl⟩⟩
        exact String.toList_inj.mp (by simp [render, word])
  have hlast := status.word_facts.2.2
  refine ⟨String.ofList (Text.chomp tail.toList), ?_, ?_⟩
  · refine String.toList_inj.mp ?_
    rw [shown, hrender, String.toList_append, Text.chomp_append hlast]
    simp
  · rw [String.toList_ofList]
    rcases htail with hnil | ⟨more, hmore⟩
    · exact .inl (by rw [hnil]; rfl)
    · refine .inr ⟨Text.chomp more, ?_⟩
      rw [hmore]
      exact @Text.chomp_append [' '] (by decide) more

/-- What a status is taken for when no ellipsis stands in it. -/
theorem TextStatus.token_status (status : TextStatus) :
    textTokenStatus (Text.trim status.shown) =
      match status with
      | .ignoredBecause _ => none
      | status => some status.verdict := by
  obtain ⟨rest, hshown, hrest⟩ := status.shown_eq
  obtain ⟨hword, ⟨first, more, hfirst, _⟩, _⟩ := status.word_facts
  have hne : status.word.toList ≠ [] := by
    rw [hfirst]
    exact List.cons_ne_nil first more
  rw [hshown]
  cases status with
  | bench samples =>
      have hstarts : Text.startsWith ("bench:" ++ Text.trimEnd rest) "bench:" = true := by
        rw [Text.startsWith, Text.strip_prefix_eq_some.mpr rfl]
        rfl
      unfold textTokenStatus
      rw [Text.trim_word hword hne, word, hstarts]
      rfl
  | ok reportTime => exact @text_token_status_word "ok" rest hword hne (by decide) hrest
  | failed reportTime => exact @text_token_status_word "FAILED" rest hword hne (by decide) hrest
  | ignored => exact @text_token_status_word "ignored" rest hword hne (by decide) hrest
  | ignoredBecause reason =>
      exact @text_token_status_word "ignored," rest hword hne (by decide) hrest

/-- An ellipsis before a status does not overlap with one inside. -/
theorem TextStatus.ellipsis_before {status : TextStatus}
    (h : ¬ " ... ".toList <:+: status.shown.toList) :
    ¬ " ... ".toList <:+: " ... ".toList.tail ++ status.shown.toList := by
  obtain ⟨rest, hshown, _⟩ := status.shown_eq
  have hfirst : ∃ c more, status.shown.toList = c :: more ∧ c ≠ '.' := by
    obtain ⟨_, ⟨c, more, hfirst, hc⟩, _⟩ := status.word_facts
    exact ⟨c, more ++ rest.toList, by rw [hshown, String.toList_append, hfirst]; rfl, hc⟩
  obtain ⟨c, more, hmore, hc⟩ := hfirst
  rw [hmore] at h ⊢
  intro hpart
  have hdots : " ... ".toList = [' ', '.', '.', '.', ' '] := rfl
  simp only [hdots, List.tail_cons, List.cons_append, List.nil_append] at h hpart
  -- It would begin at the space before the status, whose first character is no dot.
  have hinside : [' ', '.', '.', '.', ' '] <:+: c :: more := by
    simpa [List.infix_cons_iff, List.cons_prefix_cons, Ne.symm hc] using hpart
  exact h hinside

/-- The line of a test is read so. -/
theorem TextResult.line_result (test : TextResult) :
    lineResult (String.ofList (Text.chomp test.line.toList)) = test.reading := by
  have hline : String.ofList (Text.chomp test.line.toList) =
      "test " ++ (test.title ++ " ... " ++ test.status.shown) := by
    have hlast : ("test " ++ test.title ++ " ... ").toList.getLast? ≠ some '\r' := by
      have hspace : " ... ".toList.getLast? = some ' ' := rfl
      rw [String.toList_append, List.getLast?_append, hspace]
      simp
    refine String.toList_inj.mp ?_
    rw [line, String.toList_append, Text.chomp_append hlast, TextStatus.shown]
    simp
  rw [hline]
  unfold lineResult reading
  rw [Text.strip_prefix_eq_some.mpr rfl]
  cases hsplit : Text.rsplitOnce test.status.shown " ... " with
  | some parts =>
      have happend := Text.rsplit_once_append hsplit (test.title ++ " ... ")
      simp only [Option.bind_eq_bind, Option.bind_some, happend]
      cases textTokenStatus (Text.trim parts.2) <;> rfl
  | none =>
      rw [Text.rsplit_once_eq_none] at hsplit
      have hlast := Text.rsplit_once_last (TextStatus.ellipsis_before hsplit) test.title
      have hstatus := test.status.token_status
      simp only [Option.bind_eq_bind, Option.bind_some, hlast, hstatus]
      cases test.status <;> rfl

/-- The status of a test that is read as it is meant. -/
def TextStatus.IsPlain : TextStatus → Prop
  | .ok _ | .failed _ | .ignored => True
  | .ignoredBecause _ => False
  | .bench samples => Text.rsplitOnce (TextStatus.bench samples).shown " ... " = none

/-- A test whose line is read as its own result. -/
def TextResult.IsPlain (test : TextResult) : Prop :=
  test.shouldPanic = false ∧ test.status.IsPlain

theorem TextStatus.shown_dots (status : TextStatus) :
    status.shown.toList.count '.' ≤ status.render.toList.count '.' := by
  rw [shown, String.toList_ofList]
  exact (Text.prefix_of_chomp _).sublist.count_le _

theorem count_dot_report_time (reportTime : Option Seconds) :
    (reportTimeText reportTime).toList.count '.' ≤ 1 := by
  cases reportTime with
  | none => decide
  | some seconds =>
      rw [reportTimeText, String.toList_append, String.toList_append, List.count_append,
        List.count_append, count_dot_seconds]
      decide

/-- No ellipsis stands in a plain status. -/
theorem TextStatus.IsPlain.no_split {status : TextStatus} (h : status.IsPlain) :
    Text.rsplitOnce status.shown " ... " = none := by
  have htime : ∀ (word : String) (reportTime : Option Seconds), word.toList.count '.' = 0 →
      (word ++ reportTimeText reportTime).toList.count '.' < 3 := by
    intro word reportTime hword
    have hdots := count_dot_report_time reportTime
    rw [String.toList_append, List.count_append]
    omega
  have hshort : status.render.toList.count '.' < 3 →
      Text.rsplitOnce status.shown " ... " = none := by
    intro hdots
    have hshown := status.shown_dots
    exact Text.rsplit_once_eq_none.mpr (no_ellipsis (by omega))
  cases status with
  | ok reportTime => exact hshort (htime "ok" reportTime (by decide))
  | failed reportTime => exact hshort (htime "FAILED" reportTime (by decide))
  | ignored => exact hshort (by decide)
  | ignoredBecause reason => exact h.elim
  | bench samples => exact h

/-- The line of a plain test is read as its own result. -/
theorem TextResult.IsPlain.reading {test : TextResult} (h : test.IsPlain) :
    test.reading = some (test.name.text, test.status.verdict) := by
  obtain ⟨hpanic, hstatus⟩ := h
  have htitle : test.title = test.name.text := by
    rw [TextResult.title, hpanic]
    rfl
  unfold TextResult.reading
  rw [hstatus.no_split, htitle]
  cases hkind : test.status with
  | ignoredBecause reason =>
      rw [hkind] at hstatus
      exact hstatus.elim
  | ok | failed | ignored | bench => rfl

/-- Any other line is read as the result of a longer name, or not at all. -/
theorem TextResult.misread_name {test : TextResult} (h : ¬ test.IsPlain)
    {reading : String × TestVerdict} (hreading : test.reading = some reading) :
    test.name.text.length < reading.1.length := by
  have htitle : test.name.text.length ≤ test.title.length := by
    unfold title
    split
    · rw [String.length_append]
      omega
    · exact Nat.le_refl _
  unfold TextResult.reading at hreading
  split at hreading
  · rename_i before token _
    obtain ⟨status, _, rfl⟩ := Option.map_eq_some_iff.mp hreading
    have hdots : " ... ".length = 5 := by decide
    show _ < (test.title ++ " ... " ++ before).length
    rw [String.length_append, String.length_append, hdots]
    omega
  · rename_i hsplit
    have hpanic : test.shouldPanic = true := by
      by_contra hpanic
      refine h ⟨by simpa using hpanic, ?_⟩
      cases hkind : test.status with
      | ignoredBecause reason =>
          rw [hkind] at hreading
          cases hreading
      | bench samples => rwa [hkind] at hsplit
      | ok | failed | ignored => trivial
    have hlong : test.title.length = test.name.text.length + " - should panic".length := by
      rw [title, hpanic, if_pos rfl, String.length_append]
    have hname : reading.1 = test.title := by
      split at hreading
      · cases hreading
      · obtain rfl := Option.some.inj hreading
        rfl
    have hsuffix : " - should panic".length = 15 := by decide
    rw [hname, hlong, hsuffix]
    omega

/-! ## Everything that is read as a result -/

/-- The lines of a captured output, as they stand in the report. -/
def TextResult.outputLines (test : TextResult) : List String :=
  Text.lines (test.captured ++ "\n")

/-- All lines that are read as results, in the order of the report. -/
def TextReport.readings (report : TextReport) : List (String × TestVerdict) :=
  report.tests.filterMap TextResult.reading ++
    (report.tests.filter TextResult.hasBlock).flatMap fun test =>
      test.outputLines.filterMap lineResult

/-- The result on a line of a report, by its characters. -/
def lineReading (line : List Char) : Option (String × TestVerdict) :=
  lineResult (String.ofList (Text.chomp line))

theorem TextResult.output_lines_eq (test : TextResult) :
    test.outputLines = (Text.linesOf test.captured.toList).map fun line =>
      String.ofList (Text.chomp line) := by
  have hchars :
      (test.captured ++ "\n").toList = Text.unlines (Text.linesOf test.captured.toList) := by
    rw [Text.unlines_lines_of, String.toList_append]
    rfl
  unfold outputLines Text.lines
  rw [hchars, Text.line_chars_unlines (Text.not_mem_lines_of _), List.map_map]
  rfl

/-- A line that begins otherwise is no result. -/
theorem line_reading_other {line : List Char} (h : ¬ "test ".toList <+: line) :
    lineReading line = none := by
  unfold lineReading lineResult
  cases hstrip : Text.stripPrefix (String.ofList (Text.chomp line)) "test " with
  | none => rfl
  | some rest =>
      have hparts := Text.strip_prefix_eq_some.mp hstrip
      have hstarts : "test ".toList <+: Text.chomp line := by
        refine ⟨rest.toList, ?_⟩
        rw [← String.toList_append, ← hparts, String.toList_ofList]
      exact absurd (hstarts.trans (Text.prefix_of_chomp line)) h

theorem line_reading_first {c : Char} {line : List Char} (h : c ≠ 't') :
    lineReading (c :: line) = none := by
  refine line_reading_other fun hstarts => ?_
  have hlist : "test ".toList = 't' :: "est ".toList := rfl
  rw [hlist, List.cons_prefix_cons] at hstarts
  exact h hstarts.1.symm

/-- A line without an ellipsis is no result. -/
theorem line_reading_plain {line : List Char} (h : ¬ " ... ".toList <:+: line) :
    lineReading line = none := by
  unfold lineReading lineResult
  cases hstrip : Text.stripPrefix (String.ofList (Text.chomp line)) "test " with
  | none => rfl
  | some rest =>
      have hparts := Text.strip_prefix_eq_some.mp hstrip
      have hrest : rest.toList <:+: line := by
        have hsuffix : rest.toList <:+ Text.chomp line := by
          refine ⟨"test ".toList, ?_⟩
          rw [← String.toList_append, ← hparts, String.toList_ofList]
        exact hsuffix.isInfix.trans (Text.prefix_of_chomp line).isInfix
      have hnone := Text.rsplit_once_eq_none.mpr fun hpart => h (hpart.trans hrest)
      simp [hnone]

theorem TextResult.block_readings (test : TextResult) :
    test.blockLines.filterMap lineReading =
      if test.hasBlock then test.outputLines.filterMap lineResult else [] := by
  unfold blockLines
  split
  · have hheader : lineReading test.header.toList = none := by
      have hchars : test.header.toList =
          '-' :: ("--- ".toList ++ (test.name.text ++ " stdout ----").toList) := by
        simp [header]
      rw [hchars, line_reading_first (by decide)]
    rw [List.filterMap_cons_none hheader, output_lines_eq, List.filterMap_map]
    rfl
  · rfl

theorem TextReport.blocks_readings (tests : List TextResult) :
    (tests.flatMap TextResult.blockLines).filterMap lineReading =
      (tests.filter TextResult.hasBlock).flatMap fun test =>
        test.outputLines.filterMap lineResult := by
  induction tests with
  | nil => rfl
  | cons test tests ih =>
      rw [List.flatMap_cons, List.filterMap_append, ih, TextResult.block_readings]
      cases hblock : test.hasBlock with
      | true => rw [if_pos rfl, List.filter_cons_of_pos hblock, List.flatMap_cons]
      | false => rw [if_neg nofun, List.filter_cons_of_neg (by simp [hblock]), List.nil_append]

/-- Of the failure section only captured output is read. -/
theorem TextReport.failure_readings (report : TextReport) :
    report.failureLines.filterMap lineReading =
      (report.tests.filter TextResult.hasBlock).flatMap fun test =>
        test.outputLines.filterMap lineResult := by
  have hnil : lineReading [] = none := by decide
  have htitle : lineReading "failures:".toList = none := line_reading_first (by decide)
  have hnames : (report.failedNames.map fun name => ("    " ++ name).toList).filterMap
      lineReading = [] := by
    refine List.filterMap_eq_nil_iff.mpr fun line hline => ?_
    obtain ⟨name, _, rfl⟩ := List.mem_map.mp hline
    rw [String.toList_append]
    exact line_reading_first (by decide)
  have hblocks : (if report.tests.flatMap TextResult.blockLines = [] then []
      else [] :: report.tests.flatMap TextResult.blockLines).filterMap lineReading =
      (report.tests.flatMap TextResult.blockLines).filterMap lineReading := by
    split
    case isTrue hempty => rw [hempty]
    case isFalse => rw [List.filterMap_cons_none hnil]
  unfold failureLines
  simp only [List.filterMap_append, List.filterMap_cons_none hnil,
    List.filterMap_cons_none htitle, List.filterMap_nil, hblocks, hnames, blocks_readings,
    List.nil_append, List.append_nil]

/-- What is read of a report. -/
theorem TextReport.read_report_lines (report : TextReport) :
    (Text.lines report.render).filterMap lineResult = report.readings := by
  have hlines : Text.lines report.render =
      report.lines.map fun line => String.ofList (Text.chomp line) := by
    unfold Text.lines
    rw [render_chars, Text.line_chars_unlines report.is_line_lines, List.map_map]
    rfl
  have hnil : lineReading [] = none := by decide
  have hrunning : lineReading report.running.toList = none := by
    have hchars : report.running.toList =
        'r' :: ("unning ".toList ++ (toString report.tests.length ++ " " ++
          plural report.tests.length "test" "tests").toList) := by
      simp [running]
    rw [hchars, line_reading_first (by decide)]
  have hresult : lineReading report.result.toList = none := by
    refine line_reading_plain (no_ellipsis ?_)
    have hdots := report.result_line.2
    omega
  have htests : (report.tests.map fun test => test.line.toList).filterMap lineReading =
      report.tests.filterMap TextResult.reading := by
    rw [List.filterMap_map]
    exact List.filterMap_congr fun test _ => test.line_result
  have hfailures : (if report.tests.any TextResult.isFailed then report.failureLines
      else []).filterMap lineReading = (report.tests.filter TextResult.hasBlock).flatMap
        fun test => test.outputLines.filterMap lineResult := by
    split
    case isTrue => exact report.failure_readings
    case isFalse hnone =>
      -- Without a failed test there is no block.
      have hblocks : report.tests.filter TextResult.hasBlock = [] := by
        refine List.filter_eq_nil_iff.mpr fun test htest hblock => hnone ?_
        exact List.any_eq_true.mpr ⟨test, htest, (Bool.and_eq_true_iff.mp hblock).1⟩
      rw [hblocks]
      rfl
  rw [hlines, List.filterMap_map]
  show report.lines.filterMap lineReading = _
  unfold lines readings
  simp only [List.filterMap_append, List.filterMap_cons_none hnil,
    List.filterMap_cons_none hrunning, List.filterMap_cons_none hresult, List.filterMap_nil,
    htests, hfailures, List.nil_append, List.append_nil]

/-- The decoded outcome of a name is that of the last line that is read as its result. -/
theorem lookup_decode_text [HarnessText] (stdout stderr name : String) :
    ((decodeText stdout stderr).lookup name).map PerTestObservation.status =
      Table.lastOf name ((Text.lines stdout).filterMap lineResult) := by
  have hstatus : ((Text.lines stdout).filterMap (decodeTextLine stdout stderr)).map
      (fun result => (result.1, result.2.status)) =
        (Text.lines stdout).filterMap lineResult := by
    rw [List.map_filterMap]
    exact List.filterMap_congr fun line _ => decode_text_line_status stdout stderr line
  rw [decodeText, lookup_collect_observations, ← Table.last_of_map, hstatus]

/-- The details of a failed test are its failure block. -/
theorem details_decode_text [HarnessText] {stdout stderr name block : String}
    {found : PerTestObservation} (h : (decodeText stdout stderr).lookup name = some found)
    (hfail : found.status = .fail) (hblock : extractFailureBlock stdout name = some block) :
    found.details = block := by
  rw [decodeText, lookup_collect_observations] at h
  obtain ⟨line, _, hline⟩ := List.mem_filterMap.mp (Table.mem_of_last_of h)
  exact decode_text_line_details hline hfail hblock

/-! ## Failure blocks -/

/-- What is taken for captured output: the rest of the header's line and the lines after it, up
to the next line that looks like a header, or else to the footer. -/
def blockText (rest : List Char) (lines : List (List Char)) : List Char :=
  match Text.linesBefore "---- ".toList lines with
  | some before => rest ++ before.flatMap fun line => '\n' :: line
  | none =>
      match Text.linesBefore "failures:".toList lines with
      | some before => rest ++ before.flatMap fun line => '\n' :: line
      | none => rest ++ '\n' :: Text.unlines lines

/-- The part of a text before a line feed and more, by its lines. -/
theorem split_once_newline {opening : String} {rest : List Char} {lines : List (List Char)}
    (hopening : Text.IsLine opening) (hne : opening.toList ≠ []) (hrest : '\n' ∉ rest)
    (hlines : ∀ line ∈ lines, '\n' ∉ line) :
    (Text.splitOnce (String.ofList (rest ++ '\n' :: Text.unlines lines)) ("\n" ++ opening)).map
        Prod.fst =
      (Text.linesBefore opening.toList lines).map fun before =>
        String.ofList (rest ++ before.flatMap fun line => '\n' :: line) := by
  have hpattern : ("\n" ++ opening).toList = '\n' :: opening.toList := by
    rw [String.toList_append]
    rfl
  have hfirst := Text.split_first_newline hopening hne hrest hlines
  unfold Text.splitOnce
  rw [hpattern, String.toList_ofList, Option.map_map]
  show Option.map (String.ofList ∘ Prod.fst) _ = _
  rw [← Option.map_map, hfirst, Option.map_map]
  rfl

/-- The text up to the next header, or else to the footer. -/
def blockBody (after : String) : String :=
  match Text.splitOnce after "\n---- " with
  | some (body, _) => body
  | none =>
      match Text.splitOnce after "\nfailures:" with
      | some (body, _) => body
      | none => after

theorem extract_failure_block_eq (stdout : String) (test : TextResult) :
    extractFailureBlock stdout test.name.text =
      (Text.splitOnce stdout test.header).map fun parts => Text.trim (blockBody parts.2) := by
  unfold extractFailureBlock TextResult.header
  cases Text.splitOnce stdout ("---- " ++ test.name.text ++ " stdout ----") <;> rfl

theorem block_body_lines {rest : List Char} {lines : List (List Char)} (hrest : '\n' ∉ rest)
    (hlines : ∀ line ∈ lines, '\n' ∉ line) :
    blockBody (String.ofList (rest ++ '\n' :: Text.unlines lines)) =
      String.ofList (blockText rest lines) := by
  have hheader := split_once_newline (show Text.IsLine "---- " by decide) (by decide) hrest hlines
  have hfooter :=
    split_once_newline (show Text.IsLine "failures:" by decide) (by decide) hrest hlines
  have hopening : "\n" ++ "---- " = "\n---- " ∧ "\n" ++ "failures:" = "\nfailures:" := by decide
  rw [hopening.1] at hheader
  rw [hopening.2] at hfooter
  unfold blockBody blockText
  cases hbefore : Text.linesBefore "---- ".toList lines with
  | some before =>
      rw [hbefore, Option.map_some, Option.map_eq_some_iff] at hheader
      obtain ⟨⟨body, after⟩, hsplit, hbody⟩ := hheader
      rw [hsplit]
      exact hbody
  | none =>
      rw [hbefore, Option.map_none, Option.map_eq_none_iff] at hheader
      rw [hheader]
      cases hend : Text.linesBefore "failures:".toList lines with
      | some before =>
          rw [hend, Option.map_some, Option.map_eq_some_iff] at hfooter
          obtain ⟨⟨body, after⟩, hsplit, hbody⟩ := hfooter
          rw [hsplit]
          exact hbody
      | none =>
          rw [hend, Option.map_none, Option.map_eq_none_iff] at hfooter
          rw [hfooter]

/-- The failure block that is found in a text, by its lines. -/
theorem extract_failure_block_lines {lines : List (List Char)}
    (hlines : ∀ line ∈ lines, '\n' ∉ line) (test : TextResult) :
    extractFailureBlock (String.ofList (Text.unlines lines)) test.name.text =
      (Text.lineAfter test.header.toList lines).map fun (rest, later) =>
        Text.trim (String.ofList (blockText rest later)) := by
  have hfound := Text.split_first_unlines test.is_line_header
    (show test.header.toList ≠ [] by simp [TextResult.header]) lines
  rw [extract_failure_block_eq]
  unfold Text.splitOnce
  rw [String.toList_ofList]
  cases hafter : Text.lineAfter test.header.toList lines with
  | none =>
      rw [hafter, Option.map_none, Option.map_eq_none_iff] at hfound
      rw [hfound]
      rfl
  | some parts =>
      obtain ⟨rest, later⟩ := parts
      rw [hafter, Option.map_some, Option.map_eq_some_iff] at hfound
      obtain ⟨⟨before, after⟩, hsplit, rfl⟩ := hfound
      obtain ⟨⟨line, hline, hrest⟩, hlater⟩ := Text.line_after_parts hafter
      have hbody := block_body_lines (fun hmem => hlines line hline (hrest.subset hmem))
        fun other hmem => hlines other (hlater hmem)
      rw [hsplit, Option.map_some, Option.map_some, Option.map_some, hbody]

/-- A text up to the next line that looks like a header. -/
def untilHeader (text : String) : String :=
  (Text.splitOnce text "\n---- ").elim text Prod.fst

/-- The captured output of a test is found. Where no header like its own stands further up, no
line of the output looks like a header, nor like the footer when no block follows; otherwise the
output stands below that other header as well. -/
structure TextReport.BlockFound (report : TextReport) (before : List TextResult)
    (test : TextResult) (after : List TextResult) : Prop where
  header : Text.splitOnce (report.above before) test.header = none →
    ∀ line ∈ test.outputLines, Text.startsWith line "---- " = false
  footer : Text.splitOnce (report.above before) test.header = none →
    (∀ later ∈ after, later.hasBlock = false) →
      ∀ line ∈ test.outputLines, Text.startsWith line "failures:" = false
  above : ∀ start behind,
    Text.splitOnce (report.above before) test.header = some (start, behind) →
      (Text.trim test.captured).toList <:+: (untilHeader behind).toList

theorem starts_with_eq_false {text pattern : String} :
    Text.startsWith text pattern = false ↔ ¬ pattern.toList <+: text.toList := by
  rw [Text.startsWith, Text.stripPrefix, Option.isSome_map, Option.isSome_eq_false_iff,
    Option.isNone_iff_eq_none, Text.cut_prefix_eq_none]

/-- No line of the output begins with a text. -/
theorem TextResult.output_starts {opening : String} (test : TextResult)
    (h : opening.toList.getLast? ≠ some '\r') :
    (∀ line ∈ test.outputLines, Text.startsWith line opening = false) ↔
      Text.linesBefore opening.toList (Text.linesOf test.captured.toList) = none := by
  rw [Text.lines_before_eq_none, output_lines_eq, List.forall_mem_map]
  refine forall₂_congr fun line _ => ?_
  rw [starts_with_eq_false, String.toList_ofList, Text.starts_chomp h]

theorem header_starts (test : TextResult) : "---- ".toList <+: test.header.toList := by
  rw [TextResult.header, String.append_assoc, String.toList_append]
  exact List.prefix_append _ _

/-- Below a block the next header is the first line, if there is one. -/
theorem TextReport.lower_header {report : TextReport} {after : List TextResult} :
    Text.linesBefore "---- ".toList (report.lowerLines after) =
      if ∀ later ∈ after, later.hasBlock = false then none else some [] := by
  have hopening : "---- ".toList = '-' :: "--- ".toList := rfl
  have hother : ∀ (c : Char) (rest : List Char), c ≠ '-' → ¬ "---- ".toList <+: c :: rest := by
    intro c rest hc hstarts
    rw [hopening, List.cons_prefix_cons] at hstarts
    exact hc hstarts.1.symm
  induction after with
  | nil =>
      rw [if_pos nofun, Text.lines_before_eq_none]
      have hnil : ¬ "---- ".toList <+: [] := by decide
      have hname : ∀ name : String, ¬ "---- ".toList <+: ("    " ++ name).toList := by
        intro name
        rw [String.toList_append]
        exact hother ' ' _ (by decide)
      have hresult : ¬ "---- ".toList <+: report.result.toList := by
        obtain ⟨rest, hrest⟩ := report.result_starts
        rw [hrest]
        exact hother 't' rest (by decide)
      -- Without a block the list of failures and the result line are left.
      have hlast : ∀ line ∈ [[], report.result.toList, []], ¬ "---- ".toList <+: line :=
        List.forall_mem_cons.mpr ⟨hnil, List.forall_mem_cons.mpr
          ⟨hresult, List.forall_mem_singleton.mpr hnil⟩⟩
      intro line hline
      rcases List.mem_cons.mp hline with rfl | hline
      · exact hnil
      rcases List.mem_cons.mp hline with rfl | hline
      · exact hother 'f' _ (by decide)
      rcases List.mem_append.mp hline with hline | hline
      · obtain ⟨name, _, rfl⟩ := List.mem_map.mp hline
        exact hname name
      · exact hlast line hline
  | cons later after ih =>
      cases hblock : later.hasBlock with
      | true =>
          have hlines : report.lowerLines (later :: after) = later.header.toList ::
              (Text.linesOf later.captured.toList ++ report.lowerLines after) := by
            unfold lowerLines
            rw [List.flatMap_cons, TextResult.blockLines, if_pos hblock]
            simp only [List.append_assoc, List.cons_append]
          rw [hlines, Text.linesBefore, if_pos (header_starts later), if_neg]
          intro hnone
          rw [hnone later List.mem_cons_self] at hblock
          cases hblock
      | false =>
          have hlines : report.lowerLines (later :: after) = report.lowerLines after := by
            unfold lowerLines
            rw [List.flatMap_cons, TextResult.blockLines, if_neg (by simp [hblock])]
            rfl
          rw [hlines, ih]
          simp [hblock]

/-- Below the last block the footer comes after an empty line. -/
theorem TextReport.lower_footer {report : TextReport} {after : List TextResult}
    (h : ∀ later ∈ after, later.hasBlock = false) :
    Text.linesBefore "failures:".toList (report.lowerLines after) = some [[]] := by
  have hblocks : after.flatMap TextResult.blockLines = [] := by
    refine List.flatMap_eq_nil_iff.mpr fun later hlater => ?_
    rw [TextResult.blockLines, if_neg (by simp [h later hlater])]
  unfold lowerLines
  rw [hblocks, List.nil_append, Text.linesBefore, if_neg (by decide), Text.linesBefore,
    if_pos List.prefix_rfl]
  rfl

/-- What is found below the header of a test. -/
theorem TextReport.own_block {report : TextReport} {test : TextResult}
    {after : List TextResult} :
    (Text.trim test.captured).toList <:+:
        blockText [] (Text.linesOf test.captured.toList ++ report.lowerLines after) ↔
      (∀ line ∈ test.outputLines, Text.startsWith line "---- " = false) ∧
        ((∀ later ∈ after, later.hasBlock = false) →
          ∀ line ∈ test.outputLines, Text.startsWith line "failures:" = false) := by
  have hself : (Text.trim test.captured).toList <:+: test.captured.toList :=
    (Text.trim_infix_trim _ _).mp (List.infix_refl _)
  have hwhole : ∀ more : List (List Char), (Text.trim test.captured).toList <:+:
      (Text.linesOf test.captured.toList ++ more).flatMap fun line => '\n' :: line := by
    intro more
    rw [List.flatMap_append, Text.newline_lines_of]
    exact (hself.trans (List.suffix_cons _ _).isInfix).trans (List.prefix_append _ _).isInfix
  rw [test.output_starts (by decide), test.output_starts (by decide)]
  unfold blockText
  rw [Text.lines_before_append, Text.lines_before_append, TextReport.lower_header]
  cases hheader : Text.linesBefore "---- ".toList (Text.linesOf test.captured.toList) with
  | some before =>
      exact iff_of_false (Text.cut_lines_not_infix (by decide) hheader) nofun
  | none =>
      by_cases hlast : ∀ later ∈ after, later.hasBlock = false
      · rw [if_pos hlast, TextReport.lower_footer hlast]
        cases hfooter : Text.linesBefore "failures:".toList
            (Text.linesOf test.captured.toList) with
        | some before =>
            refine iff_of_false (Text.cut_lines_not_infix (by decide) hfooter) fun hfound => ?_
            cases hfound.2 hlast
        | none => exact iff_of_true (hwhole _) ⟨rfl, fun _ => rfl⟩
      · rw [if_neg hlast]
        exact iff_of_true (hwhole _) ⟨rfl, fun h => absurd h hlast⟩

/-- What is found where the header stands further up. -/
theorem other_block {test : TextResult} {lines later : List (List Char)} {rest : List Char}
    (hrest : '\n' ∉ rest)
    (hlines : ∀ line ∈ lines, '\n' ∉ line) :
    (Text.trim test.captured).toList <:+:
        blockText rest (lines ++ test.header.toList :: later) ↔
      (Text.trim test.captured).toList <:+:
        (untilHeader (String.ofList (rest ++ '\n' :: Text.unlines lines))).toList := by
  have hbehind := split_once_newline (show Text.IsLine "---- " by decide) (by decide) hrest hlines
  have hopening : "\n" ++ "---- " = "\n---- " := by decide
  rw [hopening] at hbehind
  unfold blockText untilHeader
  rw [Text.lines_before_append, Text.linesBefore, if_pos (header_starts test)]
  cases hbefore : Text.linesBefore "---- ".toList lines with
  | some before =>
      rw [hbefore, Option.map_some, Option.map_eq_some_iff] at hbehind
      obtain ⟨⟨body, after⟩, hsplit, hbody⟩ := hbehind
      rw [hsplit]
      obtain rfl : body = _ := hbody
      show (Text.trim test.captured).toList <:+:
        rest ++ before.flatMap (fun line => '\n' :: line) ↔
          (Text.trim test.captured).toList <:+:
            (String.ofList (rest ++ before.flatMap fun line => '\n' :: line)).toList
      rw [String.toList_ofList]
  | none =>
      rw [hbefore, Option.map_none, Option.map_eq_none_iff] at hbehind
      rw [hbehind]
      -- The text up to the header's own line has a line feed more.
      have hlast : String.ofList (rest ++ '\n' :: Text.unlines lines) =
          String.ofList (rest ++ lines.flatMap fun line => '\n' :: line) ++ "\n" := by
        refine String.toList_inj.mp ?_
        rw [Text.newline_unlines, String.toList_append]
        simp
      show (Text.trim test.captured).toList <:+:
        rest ++ (lines ++ []).flatMap (fun line => '\n' :: line) ↔
          (Text.trim test.captured).toList <:+:
            (String.ofList (rest ++ '\n' :: Text.unlines lines)).toList
      rw [hlast, ← Text.trim_infix_trim test.captured (_ ++ "\n"), Text.trim_newline,
        Text.trim_infix_trim, List.append_nil, String.toList_ofList]

section Block

variable {report : TextReport} {before after : List TextResult} {test : TextResult}

/-- The report above a block is searched line by line. -/
theorem TextReport.split_once_above (report : TextReport) (before : List TextResult)
    (test : TextResult) :
    (Text.splitOnce (report.above before) test.header).map Prod.snd =
      (Text.lineAfter test.header.toList (report.upperLines before)).map fun (rest, lines) =>
        String.ofList (rest ++ '\n' :: Text.unlines lines) := by
  have hlines := Text.split_first_unlines test.is_line_header
    (show test.header.toList ≠ [] by simp [TextResult.header]) (report.upperLines before)
  unfold Text.splitOnce
  rw [above_chars, Option.map_map]
  show Option.map (String.ofList ∘ Prod.snd) _ = _
  rw [← Option.map_map, hlines, Option.map_map]
  rfl

/-- Without a header further up, the block is found by what stands below the header. -/
theorem TextReport.block_found_below
    (h : Text.splitOnce (report.above before) test.header = none) :
    (Text.trim test.captured).toList <:+:
        blockText [] (Text.linesOf test.captured.toList ++ report.lowerLines after) ↔
      report.BlockFound before test after := by
  rw [own_block]
  constructor
  · rintro ⟨hheader, hfooter⟩
    refine ⟨fun _ => hheader, fun _ => hfooter, fun start behind hsome => ?_⟩
    rw [h] at hsome
    cases hsome
  · intro hfound
    exact ⟨hfound.header h, hfound.footer h⟩

/-- With a header further up, the block is found by what stands below that one. -/
theorem TextReport.block_found_above {start behind : String}
    (h : Text.splitOnce (report.above before) test.header = some (start, behind)) :
    (Text.trim test.captured).toList <:+: (untilHeader behind).toList ↔
      report.BlockFound before test after := by
  constructor
  · intro hpart
    refine ⟨fun hnone => ?_, fun hnone => ?_, fun _ _ hother => ?_⟩
    · rw [h] at hnone
      cases hnone
    · rw [h] at hnone
      cases hnone
    · rw [h] at hother
      obtain ⟨rfl, rfl⟩ := Prod.mk.inj (Option.some.inj hother)
      exact hpart
  · intro hfound
    exact hfound.above start behind h

/-- The details of a failed test contain its captured output when its block is found. -/
theorem TextReport.block_found_iff (h : report.tests = before ++ test :: after)
    (hblock : test.hasBlock = true) :
    ∃ block, extractFailureBlock report.render test.name.text = some block ∧
      ((Text.trim test.captured).toList <:+: block.toList ↔
        report.BlockFound before test after) := by
  have hrender : report.render = String.ofList (Text.unlines report.lines) := by
    rw [← render_chars, String.ofList_toList]
  have hupper : ∀ line ∈ report.upperLines before, '\n' ∉ line := by
    intro line hline
    refine report.is_line_lines line ?_
    rw [lines_around h hblock]
    exact List.mem_append_left _ hline
  have habove := report.split_once_above before test
  rw [hrender, extract_failure_block_lines report.is_line_lines, lines_around h hblock,
    Text.line_after_append]
  cases hfound : Text.lineAfter test.header.toList (report.upperLines before) with
  | none =>
      rw [hfound, Option.map_none, Option.map_eq_none_iff] at habove
      have hown := Text.split_first_start test.header.toList []
      rw [List.append_nil] at hown
      rw [Text.lineAfter, hown]
      refine ⟨_, rfl, ?_⟩
      rw [Text.trim_infix_trim, String.toList_ofList]
      exact block_found_below habove
  | some parts =>
      obtain ⟨rest, lines⟩ := parts
      rw [hfound, Option.map_some, Option.map_eq_some_iff] at habove
      obtain ⟨⟨start, behind⟩, hsplit, hbehind⟩ := habove
      obtain rfl : behind = String.ofList (rest ++ '\n' :: Text.unlines lines) := hbehind
      obtain ⟨⟨line, hline, hrest⟩, hlines⟩ := Text.line_after_parts hfound
      refine ⟨_, rfl, ?_⟩
      rw [Text.trim_infix_trim, String.toList_ofList, ← block_found_above hsplit]
      exact other_block (fun hmem => hupper line hline (hrest.subset hmem))
        fun other hmem => hupper other (hlines hmem)

end Block

/-! ## Whole reports -/

/-- What the decoded results of a report should be: the outcomes of its tests, those of no other
names, and in the details of a failed test its captured output. -/
structure TextReport.DecodedTo (report : TextReport)
    (observations : Table String PerTestObservation) : Prop where
  outcomes : ∀ test ∈ report.tests,
    (observations.lookup test.name.text).map PerTestObservation.status =
      some test.status.verdict
  named : ∀ name found, observations.lookup name = some found →
    ∃ test ∈ report.tests, test.name.text = name
  details : ∀ test ∈ report.tests, test.hasBlock = true →
    ∀ found, observations.lookup test.name.text = some found →
      (Text.trim test.captured).toList <:+: found.details.toList

/-- The lines that are read as results are all of tests of the report, and the last one that is
read for a test says its outcome. -/
structure TextReport.ReadRight (report : TextReport) : Prop where
  named : ∀ reading ∈ report.readings, ∃ test ∈ report.tests, test.name.text = reading.1
  outcomes : ∀ test ∈ report.tests,
    Table.lastOf test.name.text report.readings = some test.status.verdict

/-- Where no line of captured output is read as a result, the lines are read right exactly when
all tests are plain. -/
theorem TextReport.read_right_iff_plain {report : TextReport}
    (hnames : (report.tests.map fun test => test.name.text).Nodup)
    (houtput : ∀ test ∈ report.tests, test.hasBlock = true →
      ∀ line ∈ test.outputLines, lineResult line = none) :
    report.ReadRight ↔ ∀ test ∈ report.tests, test.IsPlain := by
  have hreadings : report.readings = report.tests.filterMap TextResult.reading := by
    have hnone : ((report.tests.filter TextResult.hasBlock).flatMap fun test =>
        test.outputLines.filterMap lineResult) = [] := by
      refine List.flatMap_eq_nil_iff.mpr fun test htest => ?_
      obtain ⟨hmem, hblock⟩ := List.mem_filter.mp htest
      exact List.filterMap_eq_nil_iff.mpr (houtput test hmem hblock)
    rw [readings, hnone, List.append_nil]
  have hsame : ∀ test ∈ report.tests, ∀ other ∈ report.tests,
      test.name.text = other.name.text → test = other := by
    intro test htest other hother hname
    exact List.inj_on_of_nodup_map hnames htest hother hname
  constructor
  · intro h
    -- By induction on the length of its name: a shorter test would have to be misread as it.
    have hplain : ∀ n, ∀ test ∈ report.tests, test.name.text.length = n → test.IsPlain := by
      intro n
      induction n using Nat.strong_induction_on with
      | _ n ih =>
          intro test htest hlength
          by_contra hother
          have houtcome := h.outcomes test htest
          rw [hreadings] at houtcome
          obtain ⟨reader, hreader, hreading⟩ :=
            List.mem_filterMap.mp (Table.mem_of_last_of houtcome)
          by_cases hreaderPlain : reader.IsPlain
          · rw [hreaderPlain.reading] at hreading
            have hname := (Prod.mk.inj (Option.some.inj hreading)).1
            exact hother (hsame reader hreader test htest hname ▸ hreaderPlain)
          · have hlonger := TextResult.misread_name hreaderPlain hreading
            exact hreaderPlain (ih _ (hlength ▸ hlonger) reader hreader rfl)
    exact fun test htest => hplain _ test htest rfl
  · intro hplain
    have hentries : report.tests.filterMap TextResult.reading =
        report.tests.map fun test => (test.name.text, test.status.verdict) := by
      rw [← List.filterMap_eq_map]
      exact List.filterMap_congr fun test htest => (hplain test htest).reading
    rw [hentries] at hreadings
    refine ⟨fun reading hreading => ?_, fun test htest => ?_⟩
    · rw [hreadings] at hreading
      obtain ⟨test, htest, rfl⟩ := List.mem_map.mp hreading
      exact ⟨test, htest, rfl⟩
    · have hkeys : ((report.tests.map fun test =>
          (test.name.text, test.status.verdict)).map Prod.fst).Nodup := by
        rw [List.map_map]
        exact hnames
      rw [hreadings]
      exact Table.last_of_distinct hkeys (List.mem_map_of_mem htest)

/-- A report is decoded to its tests exactly when its lines are read right and the blocks of the
failed tests are found. -/
theorem decode_text_iff [HarnessText] (report : TextReport) (stderr : String) :
    report.DecodedTo (decodeText report.render stderr) ↔
      report.ReadRight ∧ ∀ before test after, report.tests = before ++ test :: after →
        test.hasBlock = true → report.BlockFound before test after := by
  have hstatus : ∀ name,
      ((decodeText report.render stderr).lookup name).map PerTestObservation.status =
        Table.lastOf name report.readings := by
    intro name
    rw [lookup_decode_text, report.read_report_lines]
  -- Of a failed test the details are its block, whether it was found or not.
  have hdetails : ∀ before test after, report.tests = before ++ test :: after →
      test.hasBlock = true →
      Table.lastOf test.name.text report.readings = some test.status.verdict →
      ∃ found, (decodeText report.render stderr).lookup test.name.text = some found ∧
        ((Text.trim test.captured).toList <:+: found.details.toList ↔
          report.BlockFound before test after) := by
    intro before test after htests hblock houtcome
    obtain ⟨block, hextract, hiff⟩ := TextReport.block_found_iff htests hblock
    have hlookup := hstatus test.name.text
    rw [houtcome, Option.map_eq_some_iff] at hlookup
    obtain ⟨found, hfound, hverdict⟩ := hlookup
    have hfail : found.status = .fail := by
      rw [hverdict]
      exact of_decide_eq_true (Bool.and_eq_true_iff.mp hblock).1
    rw [← details_decode_text hfound hfail hextract] at hiff
    exact ⟨found, hfound, hiff⟩
  constructor
  · intro h
    have hright : report.ReadRight := by
      refine ⟨fun reading hreading => ?_, fun test htest => ?_⟩
      · have hread : Table.lastOf reading.1 report.readings ≠ none := by
          intro hnone
          exact Table.last_of_eq_none.mp hnone reading hreading rfl
        rw [← hstatus, Ne, Option.map_eq_none_iff] at hread
        obtain ⟨found, hfound⟩ := Option.ne_none_iff_exists'.mp hread
        exact h.named reading.1 found hfound
      · rw [← hstatus]
        exact h.outcomes test htest
    refine ⟨hright, fun before test after htests hblock => ?_⟩
    have htest : test ∈ report.tests := by
      rw [htests]
      exact List.mem_append_right _ List.mem_cons_self
    obtain ⟨found, hfound, hiff⟩ :=
      hdetails before test after htests hblock (hright.outcomes test htest)
    exact hiff.mp (h.details test htest hblock found hfound)
  · rintro ⟨hright, hblocks⟩
    refine ⟨fun test htest => ?_, fun name found hfound => ?_,
      fun test htest hblock found hfound => ?_⟩
    · rw [hstatus]
      exact hright.outcomes test htest
    · have hread := hstatus name
      rw [hfound, Option.map_some] at hread
      exact hright.named _ (Table.mem_of_last_of hread.symm)
    · obtain ⟨before, after, htests⟩ := List.append_of_mem htest
      obtain ⟨other, hother, hiff⟩ :=
        hdetails before test after htests hblock (hright.outcomes test htest)
      have hsame : other = found := Option.some.inj (hother.symm.trans hfound)
      rw [← hsame, hiff]
      exact hblocks before test after htests hblock

/-- A test that was ignored for a reason is not in the decoded results. -/
theorem ignore_reason_hides_test :
    ¬ ∀ (harness : HarnessText) (report : TextReport) (stderr : String),
      (report.tests.map fun test => test.name.text).Nodup →
        (∀ test ∈ report.tests, test.name.text ≠ "") →
          report.DecodedTo (@decodeText harness report.render stderr) := by
  intro h
  let test : TextResult :=
    { name := ⟨"slow", by decide⟩, status := .ignoredBecause ⟨"takes an hour", by decide⟩ }
  have hdecoded := h sampleHarness { tests := [test] } "" (List.nodup_singleton _)
    (List.forall_mem_singleton.mpr (by decide))
  have hfound := hdecoded.outcomes test List.mem_cons_self
  exact absurd hfound (by decide +kernel)

end Quokka
