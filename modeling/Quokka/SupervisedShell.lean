import Quokka.Library.Shell
import Quokka.ResourceMarkers

/-!
# The supervised command, read by a shell

`build_supervised_cmd` puts the arguments of every logical command into a line of a shell script.
This module reads those lines back with the shell's own rules of quoting and word expansion: the
script consists of the settings, one call of `quokka_run_logical` for each logical command with
exactly its arguments, and the call that ends the action. No argument is read as shell syntax.

The shell reads these lines after the text of the supervisor script, which is a sequence of
complete commands; it leaves the positional parameters of the script alone.
-/

namespace Quokka

open Shell (Spells WordText IsLine Expanded)

/-! ## What the shell is given -/

/-- The words that a value of a command stands for when it is run: a verbatim value stands for
itself, and `handle` says what the others stand for. -/
def ArgValue.words (handle : ArgValue → List String) : ArgValue → List String
  | .specValue (.verbatim text) => [text]
  | value => handle value

/-- The arguments with which a command is run. -/
def argvOf (handle : ArgValue → List String) (cmd : List ArgValue) : List String :=
  cmd.flatMap (ArgValue.words handle)

/-- The commands that the script is meant to carry out when the last exit status and the value of
`overall_status` are the ones given. -/
def supervisedRun (args : List String) (commands : List LogicalCommand) (timeout : Duration)
    (cgroupGranularity : CgroupGranularity) (cgroupMemoryMax : CgroupMemoryMax)
    (resourceMarkerToken : ResourceMarkerToken) (status : Nat) (overallStatus : String) :
    List (List Expanded) :=
  [[⟨[("quokka_cgroup_granularity", cgroupGranularity.shellValue)], []⟩],
    [⟨[("quokka_logical_timeout_seconds", toString timeout.asSecs)], []⟩],
    [⟨[("quokka_memory_max_value", cgroupMemoryMax.shellValue)], []⟩],
    [⟨[("quokka_resource_marker_token", resourceMarkerToken.text)], []⟩],
    [⟨[("overall_status", "0")], []⟩],
    [⟨[], ["quokka_begin_action"]⟩]] ++
  commands.map (fun logical =>
    [⟨[], "quokka_run_logical" :: toString logical.index :: (args ++ logical.appended)⟩,
      ⟨[("overall_status", toString status)], []⟩]) ++
  [[⟨[], ["quokka_finish_action", overallStatus]⟩]]

/-- The lines after the supervisor's text carry out exactly the intended commands, in every
state in which the shell may reach them. -/
def RunsAsIntended [SupervisorScript] (handle : ArgValue → List String)
    (baseCommand : List ArgValue) (commands : List LogicalCommand) (timeout : Duration)
    (cgroupGranularity : CgroupGranularity) (cgroupMemoryMax : CgroupMemoryMax)
    (resourceMarkerToken : ResourceMarkerToken) : Prop :=
  ∃ lines program,
    Shell.invocation (argvOf handle (buildSupervisedCmd baseCommand commands timeout
      cgroupGranularity cgroupMemoryMax resourceMarkerToken)) =
        some (SupervisorScript.resourceSupervisorSh ++ "\n" ++ lines, argvOf handle baseCommand) ∧
    Shell.parse lines.toList = some program ∧
    ∀ env : Shell.Env, env.positional = argvOf handle baseCommand →
      program.map (Shell.expandList env) =
        (supervisedRun (argvOf handle baseCommand) commands timeout cgroupGranularity
          cgroupMemoryMax resourceMarkerToken env.status (env.var "overall_status")).map some

/-! ## Words -/

theorem shellQuote_eq (value : String) :
    (shellQuote value).toList = Shell.singleQuote value.toList := by
  have hmark : "'\"'\"'".toList = Shell.quoteMark := by decide
  have hinner := @String.toList_ofList (value.toList.flatMap fun c =>
    if c = '\'' then Shell.quoteMark else [c])
  simp only [shellQuote, String.toList_append, hmark, hinner]
  rfl

theorem number_plain (n : Nat) : (toString n).toList.all Shell.plain = true := by
  refine List.all_eq_true.mpr fun c hc => ?_
  have hlist : (toString n).toList = Nat.toDigits 10 n := Nat.toList_repr
  rw [hlist] at hc
  have hdigit : c.isDigit = true := Nat.isDigit_of_mem_toDigits (by decide) (by decide) hc
  refine Shell.plain_of_isNameChar ?_
  simp only [Shell.isNameChar, Char.isAlphanum, hdigit, Bool.or_true, Bool.true_or]

theorem number_ne_nil (n : Nat) : (toString n).toList ≠ [] := by
  have hlist : (toString n).toList = Nat.toDigits 10 n := Nat.toList_repr
  rw [hlist]
  exact Nat.toDigits_ne_nil

theorem spells_number (n : Nat) :
    Spells (toString n).toList (Shell.bare (toString n).toList) (toString n).toList :=
  Shell.spells_bare (number_ne_nil n) (number_plain n)

theorem spells_granularity (granularity : CgroupGranularity) :
    Spells granularity.shellValue.toList (Shell.bare granularity.shellValue.toList)
      granularity.shellValue.toList := by
  cases granularity <;> exact Shell.spells_bare (by decide) (by decide)

theorem spells_shellQuote {value : String} (h : Shell.nul ∉ value.toList) :
    Spells (shellQuote value).toList (Shell.quoted value.toList) value.toList := by
  rw [shellQuote_eq]
  exact Shell.spells_quoted h

/-! ## The line of a logical command -/

/-- The words of the line, as they are written. -/
def logicalTexts (logical : LogicalCommand) : List (List Char) :=
  "quokka_run_logical".toList :: (toString logical.index).toList :: "\"$@\"".toList ::
    logical.appended.map fun arg => (shellQuote arg).toList

/-- The words of the line, as they are read. -/
def logicalWords (logical : LogicalCommand) : List Shell.Word :=
  Shell.bare "quokka_run_logical".toList :: Shell.bare (toString logical.index).toList ::
    [.param .all true] :: logical.appended.map fun arg => Shell.quoted arg.toList

theorem wordTexts_logical {logical : LogicalCommand}
    (hnul : ∀ arg ∈ logical.appended, Shell.nul ∉ arg.toList) :
    List.Forall₂ WordText (logicalTexts logical) (logicalWords logical) := by
  have hargs : List.Forall₂ WordText
      (logical.appended.map fun arg => (shellQuote arg).toList)
      (logical.appended.map fun arg => Shell.quoted arg.toList) := by
    rw [List.forall₂_map_left_iff, List.forall₂_map_right_iff, List.forall₂_same]
    intro arg harg
    exact (spells_shellQuote (hnul arg harg)).wordText
  exact .cons (Shell.spells_bare (by decide) (by decide)).wordText
    (.cons (spells_number _).wordText (.cons Shell.wordText_all hargs))

/-- Blanks before words, seen as blanks after words. -/
theorem flatMap_blank (text : List Char) (texts : List (List Char)) (rest : List Char) :
    text ++ (texts.flatMap (' ' :: ·) ++ ' ' :: rest) =
      (text :: texts).flatMap (· ++ [' ']) ++ rest := by
  induction texts generalizing text with
  | nil => simp
  | cons next texts ih =>
      have hrest := ih next
      rw [List.flatMap_cons, List.flatMap_cons, List.append_assoc, List.append_assoc, ← hrest]
      simp

/-- A line of a name, a number, a word, further words and an end, as words with blanks. -/
theorem toList_line {name index all args fallback : String} {nameText allText rest : List Char}
    {texts : List (List Char)} (hname : name.toList = nameText ++ [' '])
    (hall : all.toList = ' ' :: allText) (hargs : args.toList = texts.flatMap (' ' :: ·))
    (hend : fallback.toList = ' ' :: rest) :
    (name ++ index ++ all ++ args ++ fallback).toList =
      (nameText :: index.toList :: allText :: texts).flatMap (· ++ [' ']) ++ rest := by
  have hblank := flatMap_blank allText texts rest
  simp only [String.toList_append, hname, hall, hargs, hend, List.flatMap_cons, List.append_assoc,
    List.cons_append, List.nil_append] at hblank ⊢
  rw [hblank]

theorem logicalLine_eq (logical : LogicalCommand) :
    (logicalLine logical).toList = (logicalTexts logical).flatMap (· ++ [' ']) ++
      ("|| ".toList ++ ("overall_status=$?".toList ++ ['\n'])) := by
  have hargs : (String.join (logical.appended.map fun arg => " " ++ shellQuote arg)).toList =
      (logical.appended.map fun arg => (shellQuote arg).toList).flatMap (' ' :: ·) := by
    have hblank : " ".toList = [' '] := by decide
    simp only [String.toList_join, List.flatMap_map, String.toList_append, hblank,
      List.singleton_append]
  exact toList_line (by decide) (by decide) hargs (by decide)

theorem isLine_logical {logical : LogicalCommand}
    (hnul : ∀ arg ∈ logical.appended, Shell.nul ∉ arg.toList) :
    IsLine (logicalLine logical).toList
      [⟨[], logicalWords logical⟩,
        ⟨[("overall_status", [.param .status false])], []⟩] := by
  have hfallback : WordText ("overall_status".toList ++ ['='] ++ ['$', '?'])
      (Shell.bare ("overall_status".toList ++ ['=']) ++ [.param .status false]) :=
    (Shell.spells_bare (by decide) (by decide)).wordText.append Shell.wordText_status
  have hassign := @Shell.simpleCommand_assignment "overall_status".toList (by decide)
    [.param .status false]
  rw [logicalLine_eq]
  exact Shell.isLine_orIf (wordTexts_logical hnul) hfallback
    (Shell.simpleCommand_words (by decide) (by decide) _) hassign

theorem expandWord_plain {text : String} (hne : text.toList ≠ [])
    (hplain : text.toList.all Shell.plain = true) (env : Shell.Env) :
    Shell.expandWord env (Shell.bare text.toList) = some [text] := by
  rw [(Shell.spells_bare hne hplain).literal.expandWord env, String.ofList_toList]

/-- The line runs the base command's arguments and the appended ones, unchanged. -/
theorem expand_logical (logical : LogicalCommand) (env : Shell.Env) :
    Shell.expandList env [⟨[], logicalWords logical⟩,
      ⟨[("overall_status", [.param .status false])], []⟩] =
      some [⟨[], "quokka_run_logical" :: toString logical.index ::
          (env.positional ++ logical.appended)⟩,
        ⟨[("overall_status", toString env.status)], []⟩] := by
  have hargs : List.Forall₂ (fun word field => Shell.expandWord env word = some field)
      (logical.appended.map fun arg => Shell.quoted arg.toList)
      (logical.appended.map fun arg => [arg]) := by
    rw [List.forall₂_map_left_iff, List.forall₂_map_right_iff, List.forall₂_same]
    intro arg _
    rw [(Shell.literal_quoted arg.toList).expandWord env, String.ofList_toList]
  have hwords : List.Forall₂ (fun word field => Shell.expandWord env word = some field)
      (logicalWords logical) (["quokka_run_logical"] :: [toString logical.index] ::
        env.positional :: logical.appended.map fun arg => [arg]) :=
    .cons (expandWord_plain (by decide) (by decide) env)
      (.cons (expandWord_plain (number_ne_nil _) (number_plain _) env)
      (.cons (Shell.expandWord_all env) hargs))
  have hflatten : (logical.appended.map fun arg => [arg]).flatten = logical.appended :=
    List.flatMap_singleton' _
  have hstatus := Shell.expand_assignment env "overall_status"
    (Shell.expandValue_status env false)
  have hcommand := Shell.expand_words hwords
  rw [List.flatten_cons, List.flatten_cons, List.flatten_cons, hflatten] at hcommand
  rw [String.ofList_toList] at hstatus
  exact Shell.expandList_cons hcommand (Shell.expandList_cons hstatus rfl)

/-! ## The script -/

/-- A line that assigns a variable, without its line end. -/
def assignmentText (name text : List Char) : List Char := name ++ '=' :: text

/-- The lines after the supervisor's text. -/
def scriptLines (commands : List LogicalCommand) (timeout : Duration)
    (cgroupGranularity : CgroupGranularity) (cgroupMemoryMax : CgroupMemoryMax)
    (resourceMarkerToken : ResourceMarkerToken) : List (List Char) :=
  [assignmentText "quokka_cgroup_granularity".toList cgroupGranularity.shellValue.toList ++ ['\n'],
    assignmentText "quokka_logical_timeout_seconds".toList (toString timeout.asSecs).toList ++
      ['\n'],
    assignmentText "quokka_memory_max_value".toList
      (shellQuote cgroupMemoryMax.shellValue).toList ++ ['\n'],
    assignmentText "quokka_resource_marker_token".toList
      (shellQuote resourceMarkerToken.text).toList ++ ['\n'],
    assignmentText "overall_status".toList ['0'] ++ ['\n'],
    "quokka_begin_action".toList ++ ['\n']] ++
  commands.map (fun logical => (logicalLine logical).toList) ++
  [["quokka_finish_action".toList].flatMap (· ++ [' ']) ++ ("\"$overall_status\"".toList ++ ['\n'])]

/-- The text of a script of four settings, two lines, further lines and an end, cut at its line
ends. -/
theorem flatten_script {first granularity second timeout third memory fourth token fifth joined
    last : String} {firstName secondName thirdName fourthName status begin finish : List Char}
    {lines : List (List Char)} (hfirst : first.toList = firstName ++ ['='])
    (hsecond : second.toList = '\n' :: (secondName ++ ['=']))
    (hthird : third.toList = '\n' :: (thirdName ++ ['=']))
    (hfourth : fourth.toList = '\n' :: (fourthName ++ ['=']))
    (hfifth : fifth.toList = '\n' :: (status ++ begin)) (hjoined : joined.toList = lines.flatten)
    (hlast : last.toList = finish) :
    (first ++ granularity ++ second ++ timeout ++ third ++ memory ++ fourth ++ token ++ fifth ++
      joined ++ last).toList =
      ([assignmentText firstName granularity.toList ++ ['\n'],
        assignmentText secondName timeout.toList ++ ['\n'],
        assignmentText thirdName memory.toList ++ ['\n'],
        assignmentText fourthName token.toList ++ ['\n'], status, begin] ++
        lines ++ [finish]).flatten := by
  simp only [String.toList_append, hfirst, hsecond, hthird, hfourth, hfifth, hjoined, hlast,
    assignmentText, List.append_assoc, List.cons_append, List.nil_append, List.flatten_append,
    List.flatten_cons, List.flatten_nil, List.append_nil]

theorem append_cut {first cut : String} (h : first = "\n" ++ cut)
    (script a b c d e f g i j k : String) :
    script ++ first ++ a ++ b ++ c ++ d ++ e ++ f ++ g ++ i ++ j ++ k =
      script ++ "\n" ++ (cut ++ a ++ b ++ c ++ d ++ e ++ f ++ g ++ i ++ j ++ k) := by
  subst h
  simp only [String.append_assoc]

/-- The program that the lines are read as. -/
def scriptProgram (commands : List LogicalCommand) (timeout : Duration)
    (cgroupGranularity : CgroupGranularity) (cgroupMemoryMax : CgroupMemoryMax)
    (resourceMarkerToken : ResourceMarkerToken) : List (List Shell.SimpleCommand) :=
  [[⟨[("quokka_cgroup_granularity", Shell.bare cgroupGranularity.shellValue.toList)], []⟩],
    [⟨[("quokka_logical_timeout_seconds", Shell.bare (toString timeout.asSecs).toList)], []⟩],
    [⟨[("quokka_memory_max_value", Shell.quoted cgroupMemoryMax.shellValue.toList)], []⟩],
    [⟨[("quokka_resource_marker_token", Shell.quoted resourceMarkerToken.text.toList)], []⟩],
    [⟨[("overall_status", Shell.bare ['0'])], []⟩],
    [⟨[], [Shell.bare "quokka_begin_action".toList]⟩]] ++
  commands.map (fun logical => [⟨[], logicalWords logical⟩,
    ⟨[("overall_status", [.param .status false])], []⟩]) ++
  [[⟨[], [Shell.bare "quokka_finish_action".toList,
    [.param (.var "overall_status") true]]⟩]]

/-- The limit is a number or the word `max`. -/
theorem nul_notMem_memoryMax (memoryMax : CgroupMemoryMax) :
    Shell.nul ∉ memoryMax.shellValue.toList := by
  cases memoryMax with
  | unlimited => decide
  | bytes limit =>
      intro hmem
      exact absurd (List.all_eq_true.mp (number_plain limit.val.toNat) _ hmem) (by decide)

theorem nul_notMem_token {token : ResourceMarkerToken} (htoken : TokenText token) :
    Shell.nul ∉ token.text.toList := by
  intro hmem
  exact absurd (htoken.printable _ hmem) (by decide)

theorem isLine_assign {name : String} {text : List Char} {word : Shell.Word} {value : List Char}
    (hname : Shell.isName name.toList = true) (hword : Spells text word value) :
    IsLine (assignmentText name.toList text ++ ['\n']) [⟨[(name, word)], []⟩] := by
  have hline := Shell.isLine_assignment hname hword.wordText
  rwa [String.ofList_toList] at hline

theorem wordText_command (name : String) (hne : name.toList ≠ [])
    (hname : name.toList.all Shell.plain = true) :
    WordText name.toList (Shell.bare name.toList) :=
  (Shell.spells_bare hne hname).wordText

/-- Every line of the script is read as the commands that it is meant to be. -/
theorem isLine_script {commands : List LogicalCommand}
    (hnul : ∀ logical ∈ commands, ∀ arg ∈ logical.appended, Shell.nul ∉ arg.toList)
    (timeout : Duration) (cgroupGranularity : CgroupGranularity)
    (cgroupMemoryMax : CgroupMemoryMax) {token : ResourceMarkerToken}
    (htoken : TokenText token) :
    List.Forall₂ IsLine
      (scriptLines commands timeout cgroupGranularity cgroupMemoryMax token)
      (scriptProgram commands timeout cgroupGranularity cgroupMemoryMax token) := by
  have hlogical : List.Forall₂ IsLine
      (commands.map fun logical => (logicalLine logical).toList)
      (commands.map fun logical => [⟨[], logicalWords logical⟩,
        ⟨[("overall_status", [.param .status false])], []⟩]) := by
    rw [List.forall₂_map_left_iff, List.forall₂_map_right_iff, List.forall₂_same]
    exact fun logical hmem => isLine_logical (hnul logical hmem)
  have hbegin : IsLine ("quokka_begin_action".toList ++ ['\n'])
      [⟨[], [Shell.bare "quokka_begin_action".toList]⟩] :=
    Shell.isLine_command .nil
      (wordText_command "quokka_begin_action" (by decide) (by decide))
      (Shell.simpleCommand_words (by decide) (by decide) [])
  have hfinish : IsLine
      (["quokka_finish_action".toList].flatMap (· ++ [' ']) ++
        ("\"$overall_status\"".toList ++ ['\n']))
      [⟨[], [Shell.bare "quokka_finish_action".toList,
        [.param (.var "overall_status") true]]⟩] := by
    have hvar : WordText "\"$overall_status\"".toList [.param (.var "overall_status") true] :=
      @Shell.wordText_var 'o' "verall_status".toList (by decide) (by decide)
    exact Shell.isLine_command
      (.cons (wordText_command "quokka_finish_action" (by decide) (by decide)) .nil) hvar
      (Shell.simpleCommand_words (by decide) (by decide) _)
  refine List.rel_append (List.rel_append ?_ hlogical) (.cons hfinish .nil)
  exact .cons (isLine_assign (by decide) (spells_granularity cgroupGranularity))
    (.cons (isLine_assign (by decide) (spells_number timeout.asSecs))
    (.cons (isLine_assign (by decide) (spells_shellQuote (nul_notMem_memoryMax cgroupMemoryMax)))
    (.cons (isLine_assign (by decide) (spells_shellQuote (nul_notMem_token htoken)))
    (.cons (isLine_assign (by decide) (@Shell.spells_bare ['0'] (by decide) (by decide)))
    (.cons hbegin .nil)))))

/-! ## The program that is carried out -/

theorem expand_assign {text : List Char} {word : Shell.Word} {value : String} (name : String)
    (h : Spells text word value.toList) (env : Shell.Env) :
    Shell.expandList env [⟨[(name, word)], []⟩] = some [⟨[(name, value)], []⟩] := by
  have hassign := Shell.expand_assignment env name (h.literal.expandValue env)
  rw [String.ofList_toList] at hassign
  exact Shell.expandList_cons hassign rfl

/-- In every state with the given parameters the program is what it is meant to be. -/
theorem expand_script {commands : List LogicalCommand} (timeout : Duration)
    (cgroupGranularity : CgroupGranularity) (cgroupMemoryMax : CgroupMemoryMax)
    {token : ResourceMarkerToken} (htoken : TokenText token) (env : Shell.Env) :
    (scriptProgram commands timeout cgroupGranularity cgroupMemoryMax token).map
      (Shell.expandList env) =
      (supervisedRun env.positional commands timeout cgroupGranularity cgroupMemoryMax token
        env.status (env.var "overall_status")).map some := by
  have hlogical : commands.map (Shell.expandList env ∘ fun logical =>
      [⟨[], logicalWords logical⟩, ⟨[("overall_status", [.param .status false])], []⟩]) =
      commands.map (some ∘ fun logical =>
        [⟨[], "quokka_run_logical" :: toString logical.index ::
            (env.positional ++ logical.appended)⟩,
          ⟨[("overall_status", toString env.status)], []⟩]) :=
    List.map_congr_left fun logical _ => expand_logical logical env
  have hbegin : Shell.expandList env [⟨[], [Shell.bare "quokka_begin_action".toList]⟩] =
      some [⟨[], ["quokka_begin_action"]⟩] :=
    Shell.expandList_cons (Shell.expand_words
      (.cons (expandWord_plain (by decide) (by decide) env) .nil)) rfl
  have hfinish : Shell.expandList env [⟨[], [Shell.bare "quokka_finish_action".toList,
      [.param (.var "overall_status") true]]⟩] =
      some [⟨[], ["quokka_finish_action", env.var "overall_status"]⟩] :=
    Shell.expandList_cons (Shell.expand_words
      (.cons (expandWord_plain (by decide) (by decide) env)
        (.cons (Shell.expandWord_var env _) .nil))) rfl
  have hzero : Spells ['0'] (Shell.bare ['0']) "0".toList :=
    Shell.spells_bare (by decide) (by decide)
  simp only [scriptProgram, supervisedRun, List.map_append, List.map_cons, List.map_nil,
    List.map_map, hlogical, hbegin, hfinish, expand_assign _ hzero env,
    expand_assign _ (spells_granularity cgroupGranularity) env,
    expand_assign _ (spells_number timeout.asSecs) env,
    expand_assign _ (spells_shellQuote (nul_notMem_memoryMax cgroupMemoryMax)) env,
    expand_assign _ (spells_shellQuote (nul_notMem_token htoken)) env]

/-- The text of the lines after the supervisor's text. -/
def scriptText (commands : List LogicalCommand) (timeout : Duration)
    (cgroupGranularity : CgroupGranularity) (cgroupMemoryMax : CgroupMemoryMax)
    (resourceMarkerToken : ResourceMarkerToken) : String :=
  "quokka_cgroup_granularity=" ++ cgroupGranularity.shellValue ++
    "\nquokka_logical_timeout_seconds=" ++ toString timeout.asSecs ++
    "\nquokka_memory_max_value=" ++ shellQuote cgroupMemoryMax.shellValue ++
    "\nquokka_resource_marker_token=" ++ shellQuote resourceMarkerToken.text ++
    "\noverall_status=0\nquokka_begin_action\n" ++
    String.join (commands.map logicalLine) ++
    "quokka_finish_action \"$overall_status\"\n"

theorem toList_scriptText (commands : List LogicalCommand) (timeout : Duration)
    (cgroupGranularity : CgroupGranularity) (cgroupMemoryMax : CgroupMemoryMax)
    (token : ResourceMarkerToken) :
    (scriptText commands timeout cgroupGranularity cgroupMemoryMax token).toList =
      (scriptLines commands timeout cgroupGranularity cgroupMemoryMax token).flatten := by
  have hjoined : (String.join (commands.map logicalLine)).toList =
      (commands.map fun logical => (logicalLine logical).toList).flatten := by
    rw [String.toList_join, List.flatMap_map]
    rfl
  have hfirst : "quokka_cgroup_granularity=".toList =
      "quokka_cgroup_granularity".toList ++ ['='] := by decide
  have hsecond : "\nquokka_logical_timeout_seconds=".toList =
      '\n' :: ("quokka_logical_timeout_seconds".toList ++ ['=']) := by decide
  have hthird : "\nquokka_memory_max_value=".toList =
      '\n' :: ("quokka_memory_max_value".toList ++ ['=']) := by decide
  have hfourth : "\nquokka_resource_marker_token=".toList =
      '\n' :: ("quokka_resource_marker_token".toList ++ ['=']) := by decide
  have hfifth : "\noverall_status=0\nquokka_begin_action\n".toList =
      '\n' :: (assignmentText "overall_status".toList ['0'] ++ ['\n'] ++
        ("quokka_begin_action".toList ++ ['\n'])) := by decide
  have hlast : "quokka_finish_action \"$overall_status\"\n".toList =
      ["quokka_finish_action".toList].flatMap (· ++ [' ']) ++
        ("\"$overall_status\"".toList ++ ['\n']) := by decide
  exact flatten_script hfirst hsecond hthird hfourth hfifth hjoined hlast

variable [SupervisorScript]

/-- The command that is sent runs the lines as a shell script, with the arguments of the base
command as its parameters. -/
theorem invocation_supervised (handle : ArgValue → List String) (baseCommand : List ArgValue)
    {commands : List LogicalCommand} (hne : commands ≠ []) (timeout : Duration)
    (cgroupGranularity : CgroupGranularity) (cgroupMemoryMax : CgroupMemoryMax)
    (token : ResourceMarkerToken) :
    Shell.invocation (argvOf handle (buildSupervisedCmd baseCommand commands timeout
      cgroupGranularity cgroupMemoryMax token)) =
      some (SupervisorScript.resourceSupervisorSh ++ "\n" ++
          scriptText commands timeout cgroupGranularity cgroupMemoryMax token,
        argvOf handle baseCommand) := by
  have hcut : "\nquokka_cgroup_granularity=" = "\n" ++ "quokka_cgroup_granularity=" := by decide
  have hempty : commands.isEmpty = false := by
    rw [List.isEmpty_eq_false_iff]
    exact hne
  have hscript := append_cut hcut SupervisorScript.resourceSupervisorSh
    cgroupGranularity.shellValue "\nquokka_logical_timeout_seconds=" (toString timeout.asSecs)
    "\nquokka_memory_max_value=" (shellQuote cgroupMemoryMax.shellValue)
    "\nquokka_resource_marker_token=" (shellQuote token.text)
    "\noverall_status=0\nquokka_begin_action\n" (String.join (commands.map logicalLine))
    "quokka_finish_action \"$overall_status\"\n"
  rw [buildSupervisedCmd, hempty, if_neg Bool.false_ne_true]
  exact congrArg (fun script => some (script, argvOf handle baseCommand)) hscript

/-- The supervised command runs exactly the intended arguments: the lines of the script are read
as the settings, the calls of the logical commands with the base command's arguments and their own
ones, and the end of the action, whatever the arguments hold. -/
theorem supervised_cmd_runs_as_intended (handle : ArgValue → List String)
    (baseCommand : List ArgValue) {commands : List LogicalCommand} (hne : commands ≠ [])
    (hnul : ∀ logical ∈ commands, ∀ arg ∈ logical.appended, Shell.nul ∉ arg.toList)
    (timeout : Duration) (cgroupGranularity : CgroupGranularity)
    (cgroupMemoryMax : CgroupMemoryMax) (domain : String) (fields : List String) :
    RunsAsIntended handle baseCommand commands timeout cgroupGranularity cgroupMemoryMax
      (ResourceMarkerToken.fromStableFields domain fields) := by
  have htoken := token_text domain fields
  have hparse := Shell.parse_lines
    (isLine_script hnul timeout cgroupGranularity cgroupMemoryMax htoken)
  rw [← toList_scriptText] at hparse
  refine ⟨_, _, invocation_supervised handle baseCommand hne .., hparse, fun env henv => ?_⟩
  rw [← henv]
  exact expand_script timeout cgroupGranularity cgroupMemoryMax htoken env

omit [SupervisorScript] in
/-- Arguments with quotes, blanks, line ends, expansions and operators. -/
theorem hostile_arguments_run_as_intended :
    @RunsAsIntended ⟨"set -u\n"⟩ (fun _ => ["/bin/tool"])
      [.specValue (.argHandle 3), .specValue (.verbatim "two words")]
      [⟨0, ["it's", "a  b", "$(date)\n; `id` \"$@\" || exit"]⟩, ⟨1, ["", "'"]⟩]
      (.fromSecs 60) .logicalTest .unlimited
      (ResourceMarkerToken.fromStableFields "testing" ["root//x:foo"]) :=
  @supervised_cmd_runs_as_intended ⟨"set -u\n"⟩ _ _ _ (List.cons_ne_nil _ _)
    (by decide +kernel) _ _ _ _ _

end Quokka
