import Mathlib.Data.List.Basic

/-!
# A fragment of the shell command language

Token recognition, the grammar of simple commands joined by `||`, and word expansion of the POSIX
shell, as far as a generated script needs them: both kinds of quotes, backslashes, comments,
parameters by name, `$?` and `$@`. The lexer is a state machine that reads one character at a
time. Everything outside the fragment (pipelines, redirections, substitutions, patterns, reserved
words, field splitting of unquoted expansions) makes reading fail, so that what is read has no
other meaning in a shell.

`Lexes` says what a text adds to the tokens, and composes along concatenation. `lexes_quoted` is
the inverse law of single quotes: a quoted text is one literal part of a word, whatever it holds.
-/

namespace Shell

/-! ## Tokens -/

/-- A parameter: a variable, the last exit status, or all positional parameters. -/
inductive Param where
  | var (name : String)
  | status
  | all
  deriving DecidableEq, Repr

/-- A part of a word. `null` stands for quotes, which make a word even where they hold nothing. -/
inductive Piece where
  | char (c : Char) (quoted : Bool)
  | null
  | param (p : Param) (quoted : Bool)
  deriving DecidableEq, Repr

abbrev Word := List Piece

inductive Token where
  | word (word : Word)
  | orIf
  | newline
  deriving DecidableEq, Repr

/-- Where the lexer stands. A double-quoted part remembers whether it is still empty. -/
inductive Mode where
  | unquoted
  | escaped
  | single
  | double (empty : Bool)
  | doubleEscaped (empty : Bool)
  | dollar (quoted : Bool)
  | name (quoted : Bool) (chars : List Char)
  | bar
  | comment
  deriving DecidableEq, Repr

/-- The lexer's state: its mode and the word that it has begun. -/
structure LexState where
  mode : Mode
  word : Option Word
  deriving DecidableEq, Repr

/-- Between two tokens. -/
def LexState.start : LexState := ⟨.unquoted, none⟩

/-- Add parts to the word, in the given mode. -/
def LexState.push (s : LexState) (pieces : Word) (mode : Mode) : LexState :=
  ⟨mode, some (s.word.getD [] ++ pieces)⟩

/-- The token of the word that ends here, if one was begun. -/
def LexState.ended (s : LexState) : List Token := (s.word.map Token.word).toList

/-- The character that no argument of a process can hold. -/
def nul : Char := Char.ofNat 0

def isNameStart (c : Char) : Bool := c.isAlpha || c == '_'

def isNameChar (c : Char) : Bool := c.isAlphanum || c == '_'

/-- Unquoted characters whose meaning is outside the fragment. -/
def outside : List Char :=
  [nul, '&', ';', '<', '>', '(', ')', '`', '*', '?', '[', ']', '~', '\x7b', '\x7d', '!']

/-- Unquoted characters that only stand for themselves, wherever in a word they are. -/
def plain (c : Char) : Bool :=
  !(c ∈ outside ++ [' ', '\t', '\n', '\'', '"', '\\', '$', '|', '#'])

/-- The mode after a parameter. -/
def afterParam (quoted : Bool) : Mode := if quoted then .double false else .unquoted

/-- One unquoted character. -/
def stepUnquoted (s : LexState) (c : Char) : Option (List Token × LexState) :=
  if c = ' ' ∨ c = '\t' then some (s.ended, .start)
  else if c = '\n' then some (s.ended ++ [.newline], .start)
  else if c = '\'' then some ([], s.push [.null] .single)
  else if c = '"' then some ([], s.push [] (.double true))
  else if c = '\\' then some ([], ⟨.escaped, s.word⟩)
  else if c = '$' then some ([], s.push [] (.dollar false))
  else if c = '|' then some (s.ended, ⟨.bar, none⟩)
  else if c = '#' ∧ s.word = none then some ([], ⟨.comment, none⟩)
  else if c ∈ outside then none
  else some ([], s.push [.char c false] .unquoted)

/-- One character inside double quotes. -/
def stepDouble (s : LexState) (empty : Bool) (c : Char) : Option (List Token × LexState) :=
  if c = '"' then some ([], s.push (if empty then [.null] else []) .unquoted)
  else if c = '\\' then some ([], ⟨.doubleEscaped empty, s.word⟩)
  else if c = '$' then some ([], ⟨.dollar true, s.word⟩)
  else if c = '`' ∨ c = nul then none
  else some ([], s.push [.char c true] (.double false))

/-- One character of the script. -/
def step (s : LexState) (c : Char) : Option (List Token × LexState) :=
  match s.mode with
  | .unquoted => stepUnquoted s c
  | .escaped =>
      if c = '\n' then some ([], ⟨.unquoted, s.word⟩)
      else if c = nul then none
      else some ([], s.push [.char c true] .unquoted)
  | .single =>
      if c = '\'' then some ([], ⟨.unquoted, s.word⟩)
      else if c = nul then none
      else some ([], s.push [.char c true] .single)
  | .double empty => stepDouble s empty c
  | .doubleEscaped empty =>
      if c = '\n' then some ([], ⟨.double empty, s.word⟩)
      else if c = nul then none
      else if c ∈ ['$', '`', '"', '\\'] then some ([], s.push [.char c true] (.double false))
      else some ([], s.push [.char '\\' true, .char c true] (.double false))
  | .dollar quoted =>
      if isNameStart c then some ([], ⟨.name quoted [c], s.word⟩)
      else if c = '?' then some ([], s.push [.param .status quoted] (afterParam quoted))
      else if c = '@' then some ([], s.push [.param .all quoted] (afterParam quoted))
      else none
  | .name quoted chars =>
      if isNameChar c then some ([], ⟨.name quoted (chars ++ [c]), s.word⟩)
      else
        -- this character ends the name and is read as what follows the parameter
        let named := s.push [.param (.var (String.ofList chars)) quoted] (afterParam quoted)
        if quoted then stepDouble named false c else stepUnquoted named c
  | .bar => if c = '|' then some ([.orIf], .start) else none
  | .comment => if c = '\n' then some ([.newline], .start) else some ([], s)

/-- The tokens that a text adds, and the state after it. -/
def lexFrom : LexState → List Char → Option (List Token × LexState)
  | s, [] => some ([], s)
  | s, c :: rest => do
      let (first, next) ← step s c
      let (more, last) ← lexFrom next rest
      pure (first ++ more, last)

/-- The tokens at the end of the script; quotes must be closed. -/
def LexState.finish (s : LexState) : Option (List Token) :=
  match s.mode with
  | .unquoted => some s.ended
  | .name false chars =>
      some (s.push [.param (.var (String.ofList chars)) false] .unquoted).ended
  | .comment => some []
  | _ => none

/-- The tokens of a script. -/
def lex (text : List Char) : Option (List Token) := do
  let (tokens, last) ← lexFrom .start text
  let final ← last.finish
  pure (tokens ++ final)

/-! ## Commands -/

/-- Assignments and words that are still to be expanded. -/
structure SimpleCommand where
  assignments : List (String × Word)
  words : List Word
  deriving DecidableEq, Repr

/-- Words that begin a compound command. -/
def reserved : List String :=
  ["if", "then", "else", "elif", "fi", "do", "done", "case", "esac", "while", "until", "for", "in"]

/-- A word without quotes and parameters. -/
def bareText : Word → Option (List Char)
  | [] => some []
  | .char c false :: rest => (bareText rest).map (c :: ·)
  | _ => none

/-- Split a word of the form `name=value`; the name and the sign are not quoted. -/
def splitAssignment : List Char → Word → Option (String × Word)
  | name, .char c false :: rest =>
      if c = '=' then
        match name with
        | first :: others =>
            if isNameStart first ∧ others.all isNameChar then some (String.ofList name, rest)
            else none
        | [] => none
      else splitAssignment (name ++ [c]) rest
  | _, _ => none

/-- The leading words that are assignments, and the words of the command. -/
def splitAssignments : List Word → List (String × Word) × List Word
  | [] => ([], [])
  | word :: rest =>
      match splitAssignment [] word with
      | some assignment =>
          let (more, words) := splitAssignments rest
          (assignment :: more, words)
      | none => ([], word :: rest)

/-- The simple command of its words; it is not empty and does not begin with a reserved word. -/
def simpleCommand (words : List Word) : Option SimpleCommand :=
  match splitAssignments words with
  | ([], []) => none
  | (assignments, []) => some ⟨assignments, []⟩
  | (assignments, first :: rest) =>
      if (bareText first).any (String.ofList · ∈ reserved) then none
      else some ⟨assignments, first :: rest⟩

/-- Parse the tokens after the words of a command and the commands of a list that are read
already. Every list is a chain of commands joined by `||`. -/
def parseTokens : List Word → List SimpleCommand → List Token →
    Option (List (List SimpleCommand))
  | [], [], [] => some []
  | [], _ :: _, [] => none
  | word :: words, chain, [] => do
      let command ← simpleCommand (word :: words)
      pure [chain ++ [command]]
  | words, chain, .word word :: rest => parseTokens (words ++ [word]) chain rest
  | words, chain, .orIf :: rest => do
      let command ← simpleCommand words
      parseTokens [] (chain ++ [command]) rest
  -- a blank line, or a line break after `||`
  | [], chain, .newline :: rest => parseTokens [] chain rest
  | word :: words, chain, .newline :: rest => do
      let command ← simpleCommand (word :: words)
      let more ← parseTokens [] [] rest
      pure ((chain ++ [command]) :: more)

/-- The lists of commands in a script. -/
def parse (text : List Char) : Option (List (List SimpleCommand)) := do
  parseTokens [] [] (← lex text)

/-! ## Expansion -/

/-- What expansion reads of the shell's state. -/
structure Env where
  positional : List String
  status : Nat
  var : String → String

/-- The value of a parameter that expands to one string. -/
def Env.value (env : Env) : Param → Option (List Char)
  | .var name => some (env.var name).toList
  | .status => some (toString env.status).toList
  | .all => none

/-- The positional parameters as fields: the first continues the open field, the last stays
open. Without parameters nothing changes. -/
def spread : Option (List Char) → List (List Char) → List (List Char) × Option (List Char)
  | field, [] => ([], field)
  | field, [last] => ([], some (field.getD [] ++ last))
  | field, first :: second :: rest =>
      let (closed, final) := spread none (second :: rest)
      ((field.getD [] ++ first) :: closed, final)

/-- The fields of a word. -/
def expandPieces (env : Env) : Option (List Char) → Word → Option (List (List Char))
  | field, [] => some field.toList
  | field, .char c _ :: rest => expandPieces env (some (field.getD [] ++ [c])) rest
  | field, .null :: rest => expandPieces env (some (field.getD [])) rest
  | field, .param .all true :: rest =>
      let (closed, last) := spread field (env.positional.map String.toList)
      (expandPieces env last rest).map (closed ++ ·)
  | field, .param p true :: rest => do
      let value ← env.value p
      expandPieces env (some (field.getD [] ++ value)) rest
  -- unquoted expansions are split into fields
  | _, .param _ false :: _ => none

def expandWord (env : Env) (word : Word) : Option (List String) :=
  (expandPieces env none word).map (List.map String.ofList)

/-- The value of an assignment, which is never split into fields. -/
def expandValue (env : Env) : Word → Option (List Char)
  | [] => some []
  | .char c _ :: rest => (expandValue env rest).map (c :: ·)
  | .null :: rest => expandValue env rest
  | .param p _ :: rest => do
      let value ← env.value p
      let more ← expandValue env rest
      pure (value ++ more)

/-- A command as it is carried out: its assignments, and the words it runs. -/
structure Expanded where
  assignments : List (String × String)
  argv : List String
  deriving DecidableEq, Repr

def SimpleCommand.expand (env : Env) (command : SimpleCommand) : Option Expanded := do
  let assignments ← command.assignments.mapM fun (name, word) =>
    (expandValue env word).map fun value => (name, String.ofList value)
  let argv ← command.words.mapM (expandWord env)
  pure ⟨assignments, argv.flatten⟩

/-- The commands of a list, each expanded in the same state. -/
def expandList (env : Env) (commands : List SimpleCommand) : Option (List Expanded) :=
  commands.mapM (SimpleCommand.expand env)

/-- What `sh -c script name args` runs: the script, with the arguments as its parameters. -/
def invocation : List String → Option (String × List String)
  | "/bin/sh" :: "-c" :: script :: _name :: args => some (script, args)
  | _ => none

/-! ## Reading -/

/-- The text adds these tokens and takes the lexer from one state to the other. -/
def Lexes (s : LexState) (text : List Char) (tokens : List Token) (final : LexState) : Prop :=
  lexFrom s text = some (tokens, final)

theorem Lexes.nil (s : LexState) : Lexes s [] [] s := rfl

theorem Lexes.cons {s middle final : LexState} {c : Char} {rest : List Char}
    {first more : List Token} (hstep : step s c = some (first, middle))
    (hrest : Lexes middle rest more final) : Lexes s (c :: rest) (first ++ more) final := by
  have hlex : lexFrom middle rest = some (more, final) := hrest
  show lexFrom s (c :: rest) = _
  simp only [lexFrom, hstep, hlex, Option.bind_eq_bind, Option.bind_some, Option.pure_def]

/-- A character that adds no token. -/
theorem Lexes.quiet {s middle final : LexState} {c : Char} {rest : List Char}
    {tokens : List Token} (hstep : step s c = some ([], middle))
    (hrest : Lexes middle rest tokens final) : Lexes s (c :: rest) tokens final :=
  Lexes.cons hstep hrest

theorem Lexes.single {s final : LexState} {c : Char} {tokens : List Token}
    (hstep : step s c = some (tokens, final)) : Lexes s [c] tokens final := by
  have h := Lexes.cons hstep (Lexes.nil final)
  rwa [List.append_nil] at h

theorem Lexes.append {s middle final : LexState} {text rest : List Char}
    {first more : List Token} (htext : Lexes s text first middle)
    (hrest : Lexes middle rest more final) :
    Lexes s (text ++ rest) (first ++ more) final := by
  induction text generalizing s first with
  | nil =>
      have heq : ([], s) = (first, middle) := Option.some.inj htext
      cases heq
      exact hrest
  | cons c text ih =>
      have hlex : lexFrom s (c :: text) = some (first, middle) := htext
      simp only [lexFrom, Option.bind_eq_bind, Option.bind_eq_some_iff, Option.pure_def,
        Prod.exists, Option.some.injEq, Prod.mk.injEq] at hlex
      obtain ⟨head, next, hstep, tail, last, htail, rfl, rfl⟩ := hlex
      rw [List.append_assoc]
      exact Lexes.cons hstep (ih htail)

@[simp] theorem LexState.push_push (s : LexState) (first second : Word) (m mode : Mode) :
    (s.push first m).push second mode = s.push (first ++ second) mode := by
  simp [LexState.push]

/-- A text that adds a word, or a part of one, wherever words may stand. -/
def WordText (text : List Char) (word : Word) : Prop :=
  ∀ s : LexState, s.mode = .unquoted → Lexes s text [] (s.push word .unquoted)

theorem WordText.append {first second : List Char} {head tail : Word}
    (hfirst : WordText first head) (hsecond : WordText second tail) :
    WordText (first ++ second) (head ++ tail) := by
  intro s hs
  have hrest := hsecond (s.push head .unquoted) rfl
  rw [LexState.push_push] at hrest
  exact (hfirst s hs).append hrest

/-- Unquoted characters. -/
def bare (text : List Char) : Word := text.map (Piece.char · false)

theorem step_plain {s : LexState} (hs : s.mode = .unquoted) {c : Char} (hc : plain c = true) :
    step s c = some ([], s.push [.char c false] .unquoted) := by
  have hmem : c ∉ outside ++ [' ', '\t', '\n', '\'', '"', '\\', '$', '|', '#'] := by
    simpa only [plain, Bool.not_eq_true', decide_eq_false_iff_not] using hc
  simp only [List.mem_append, List.mem_cons, List.not_mem_nil, or_false, not_or] at hmem
  obtain ⟨hout, hspace, htab, hline, hquote, hdouble, hback, hdollar, hbar, hhash⟩ := hmem
  simp only [step, hs, stepUnquoted, hspace, htab, hline, hquote, hdouble, hback, hdollar, hbar,
    hhash, hout, or_self, false_and, if_false]

theorem wordText_bare {c : Char} {text : List Char} (h : ∀ d ∈ c :: text, plain d = true) :
    WordText (c :: text) (bare (c :: text)) := by
  induction text generalizing c with
  | nil =>
      intro s hs
      exact Lexes.single (step_plain hs (h c (List.mem_cons_self ..)))
  | cons d text ih =>
      intro s hs
      have hstep := step_plain hs (h c (List.mem_cons_self ..))
      have hrest := ih (fun e he => h e (List.mem_cons_of_mem _ he))
        (s.push [.char c false] .unquoted) rfl
      rw [LexState.push_push] at hrest
      exact Lexes.cons hstep hrest

/-- A quote inside a word in single quotes: they are closed, and opened again after it. -/
def quoteMark : List Char := ['\'', '"', '\'', '"', '\'']

/-- A word in single quotes; every quote that it holds is put into double quotes. -/
def singleQuote (text : List Char) : List Char :=
  '\'' :: ((text.flatMap fun c => if c = '\'' then quoteMark else [c]) ++ ['\''])

/-- The parts of a character in single quotes. -/
def quotedChar (c : Char) : Word := if c = '\'' then [.char c true, .null] else [.char c true]

/-- The parts of a word in single quotes. -/
def quoted (text : List Char) : Word := .null :: text.flatMap quotedChar

theorem lexes_quoteMark (s : LexState) (word : Word) :
    Lexes (s.push word .single) quoteMark [] (s.push (word ++ quotedChar '\'') .single) := by
  have hnul : '\'' ≠ nul := by decide
  show lexFrom _ _ = _
  simp [lexFrom, quoteMark, step, stepUnquoted, stepDouble, LexState.push, quotedChar, hnul]

theorem step_single (s : LexState) (word : Word) {c : Char} (hquote : c ≠ '\'') (hnul : c ≠ nul) :
    step (s.push word .single) c = some ([], s.push (word ++ quotedChar c) .single) := by
  show (if c = '\'' then _ else if c = nul then _ else _) = _
  rw [if_neg hquote, if_neg hnul, LexState.push_push, quotedChar, if_neg hquote]

/-- The characters inside single quotes, to the quote that closes them. -/
theorem lexes_inside {text : List Char} (h : nul ∉ text) (s : LexState) (word : Word) :
    Lexes (s.push word .single)
      ((text.flatMap fun c => if c = '\'' then quoteMark else [c]) ++ ['\'']) []
      (s.push (word ++ text.flatMap quotedChar) .unquoted) := by
  induction text generalizing word with
  | nil =>
      rw [List.flatMap_nil, List.flatMap_nil, List.append_nil]
      exact Lexes.single rfl
  | cons c text ih =>
      have hrest := ih (fun hmem => h (List.mem_cons_of_mem _ hmem)) (word ++ quotedChar c)
      rw [List.flatMap_cons, List.flatMap_cons, List.append_assoc, ← List.append_assoc word]
      by_cases hc : c = '\''
      · subst hc
        rw [if_pos rfl]
        exact (lexes_quoteMark s word).append hrest
      · rw [if_neg hc]
        have hnul : c ≠ nul := fun heq => h (heq ▸ List.mem_cons_self ..)
        exact Lexes.quiet (step_single s word hc hnul) hrest

/-- The inverse law: whatever a quoted text holds, it is a literal part of one word. -/
theorem wordText_quoted {text : List Char} (h : nul ∉ text) :
    WordText (singleQuote text) (quoted text) := by
  intro s hs
  have hopen : step s '\'' = some ([], s.push [.null] .single) := by
    simp [step, hs, stepUnquoted]
  exact Lexes.quiet hopen (lexes_inside h s [.null])

/-- The characters of a name in double quotes. -/
theorem lexes_name {text : List Char} (h : ∀ c ∈ text, isNameChar c = true) (name : List Char)
    (word : Option Word) :
    Lexes ⟨.name true name, word⟩ text [] ⟨.name true (name ++ text), word⟩ := by
  induction text generalizing name with
  | nil => simpa using Lexes.nil (⟨.name true name, word⟩ : LexState)
  | cons c text ih =>
      have hstep : step ⟨.name true name, word⟩ c =
          some ([], ⟨.name true (name ++ [c]), word⟩) := by
        simp [step, h c (List.mem_cons_self ..)]
      have hrest := ih (fun d hd => h d (List.mem_cons_of_mem _ hd)) (name ++ [c])
      rw [List.append_assoc] at hrest
      exact Lexes.cons hstep hrest

/-- A variable in double quotes. -/
theorem wordText_var {c : Char} {name : List Char} (hstart : isNameStart c = true)
    (h : name.all isNameChar = true) :
    WordText ('"' :: '$' :: c :: (name ++ ['"']))
      [.param (.var (String.ofList (c :: name))) true] := by
  intro s hs
  have hopen : step s '"' = some ([], s.push [] (.double true)) := by
    simp [step, hs, stepUnquoted]
  have hdollar : step (s.push [] (.double true)) '$' = some ([], s.push [] (.dollar true)) := by
    simp [step, stepDouble, LexState.push]
  have hfirst : step (s.push [] (.dollar true)) c = some ([], s.push [] (.name true [c])) := by
    simp [step, hstart, LexState.push]
  have hend : isNameChar '"' = false := by decide
  have hclose : step ⟨.name true ([c] ++ name), some (s.word.getD [] ++ [])⟩ '"' =
      some ([], s.push [.param (.var (String.ofList (c :: name))) true] .unquoted) := by
    simp [step, hend, stepDouble, LexState.push]
  have hname := (lexes_name (List.all_eq_true.mp h) [c] (some (s.word.getD [] ++ []))).append
    (Lexes.single hclose)
  exact Lexes.quiet hopen (Lexes.quiet hdollar (Lexes.quiet hfirst hname))

/-- All positional parameters. -/
theorem wordText_all : WordText ['"', '$', '@', '"'] [.param .all true] := by
  intro s hs
  have hstart : isNameStart '@' = false := by decide
  show lexFrom _ _ = _
  simp [lexFrom, step, hs, stepUnquoted, stepDouble, LexState.push, hstart, afterParam]

/-- The last exit status, without quotes. -/
theorem wordText_status : WordText ['$', '?'] [.param .status false] := by
  intro s hs
  have hstart : isNameStart '?' = false := by decide
  show lexFrom _ _ = _
  simp [lexFrom, step, hs, stepUnquoted, LexState.push, hstart, afterParam]

/-! ## Lines -/

/-- A word and the blank after it. -/
theorem WordText.blank {text : List Char} {word : Word} (h : WordText text word) :
    Lexes .start (text ++ [' ']) [.word word] .start :=
  (h .start rfl).append (Lexes.single rfl)

/-- The last word of a line. -/
theorem WordText.line {text : List Char} {word : Word} (h : WordText text word) :
    Lexes .start (text ++ ['\n']) [.word word, .newline] .start :=
  (h .start rfl).append (Lexes.single rfl)

/-- Words, each with a blank after it. -/
theorem lexes_words {texts : List (List Char)} {words : List Word}
    (h : List.Forall₂ WordText texts words) :
    Lexes .start (texts.flatMap (· ++ [' '])) (words.map .word) .start := by
  induction h with
  | nil => exact Lexes.nil _
  | cons hword _ ih => exact hword.blank.append ih

theorem parseTokens_words (chain : List SimpleCommand) (words more : List Word)
    (rest : List Token) :
    parseTokens words chain (more.map .word ++ rest) = parseTokens (words ++ more) chain rest := by
  induction more generalizing words with
  | nil => simp
  | cons word more ih =>
      have hstep : parseTokens words chain (.word word :: (more.map .word ++ rest)) =
          parseTokens (words ++ [word]) chain (more.map .word ++ rest) := by
        cases words <;> simp only [parseTokens]
      rw [List.map_cons, List.cons_append, hstep, ih, List.append_assoc, List.singleton_append]

theorem simpleCommand_ne_nil {words : List Word} {command : SimpleCommand}
    (h : simpleCommand words = some command) : words ≠ [] := by
  rintro rfl
  cases h

/-- A command at the end of its line. -/
theorem parseTokens_newline {words : List Word} {command : SimpleCommand}
    (h : simpleCommand words = some command) (chain : List SimpleCommand) (rest : List Token) :
    parseTokens [] chain (words.map .word ++ .newline :: rest) =
      (parseTokens [] [] rest).map ((chain ++ [command]) :: ·) := by
  rw [parseTokens_words, List.nil_append]
  cases words with
  | nil => exact absurd rfl (simpleCommand_ne_nil h)
  | cons word words =>
      simp only [parseTokens, h, Option.bind_eq_bind, Option.bind_some, Option.pure_def]
      cases parseTokens [] [] rest <;> rfl

/-- A command before `||`. -/
theorem parseTokens_orIf {words : List Word} {command : SimpleCommand}
    (h : simpleCommand words = some command) (chain : List SimpleCommand) (rest : List Token) :
    parseTokens [] chain (words.map .word ++ .orIf :: rest) =
      parseTokens [] (chain ++ [command]) rest := by
  rw [parseTokens_words, List.nil_append]
  cases words with
  | nil => exact absurd rfl (simpleCommand_ne_nil h)
  | cons word words =>
      simp only [parseTokens, h, Option.bind_eq_bind, Option.bind_some]

/-- A line that stands for one list of commands, whatever follows it. -/
def IsLine (line : List Char) (commands : List SimpleCommand) : Prop :=
  ∃ tokens, Lexes .start line tokens .start ∧ ∀ rest : List Token,
    parseTokens [] [] (tokens ++ rest) = (parseTokens [] [] rest).map (commands :: ·)

/-- A line of one command. -/
theorem isLine_command {texts : List (List Char)} {last : List Char} {words : List Word}
    {word : Word} {command : SimpleCommand} (htexts : List.Forall₂ WordText texts words)
    (hlast : WordText last word) (h : simpleCommand (words ++ [word]) = some command) :
    IsLine (texts.flatMap (· ++ [' ']) ++ (last ++ ['\n'])) [command] := by
  refine ⟨words.map .word ++ [.word word, .newline], (lexes_words htexts).append hlast.line, ?_⟩
  intro rest
  have hparse := parseTokens_newline h [] rest
  rw [List.map_append, List.map_singleton, List.append_assoc] at hparse
  rw [List.append_assoc]
  exact hparse

/-- A line of a command and what is run when it fails. -/
theorem isLine_orIf {texts : List (List Char)} {last : List Char} {words : List Word}
    {word : Word} {command fallback : SimpleCommand}
    (htexts : List.Forall₂ WordText texts words) (hlast : WordText last word)
    (h : simpleCommand words = some command) (hfallback : simpleCommand [word] = some fallback) :
    IsLine (texts.flatMap (· ++ [' ']) ++ ("|| ".toList ++ (last ++ ['\n'])))
      [command, fallback] := by
  have hor : Lexes .start "|| ".toList [.orIf] .start := by
    show lexFrom .start _ = _
    decide +kernel
  refine ⟨words.map .word ++ ([.orIf] ++ [.word word, .newline]),
    (lexes_words htexts).append (hor.append hlast.line), ?_⟩
  intro rest
  have hfirst := parseTokens_orIf h [] (.word word :: .newline :: rest)
  have hsecond := parseTokens_newline hfallback [command] rest
  rw [List.append_assoc]
  exact hfirst.trans hsecond

/-- Lines one after another are the lists of commands one after another. -/
theorem parse_lines {lines : List (List Char)} {program : List (List SimpleCommand)}
    (h : List.Forall₂ IsLine lines program) : parse lines.flatten = some program := by
  have hall : ∃ tokens, Lexes .start lines.flatten tokens .start ∧
      parseTokens [] [] tokens = some program := by
    induction h with
    | nil => exact ⟨[], Lexes.nil _, rfl⟩
    | cons hline _ ih =>
        obtain ⟨tokens, hlex, hparse⟩ := hline
        obtain ⟨more, hmore, hrest⟩ := ih
        refine ⟨tokens ++ more, hlex.append hmore, ?_⟩
        rw [hparse more, hrest]
        rfl
  obtain ⟨tokens, hlex, hparse⟩ := hall
  have hread : lexFrom .start lines.flatten = some (tokens, .start) := hlex
  have hfinish : LexState.start.finish = some [] := rfl
  simp only [parse, lex, hread, hfinish, hparse, Option.bind_eq_bind, Option.bind_some,
    Option.pure_def, List.append_nil]

/-! ## Assignments -/

theorem splitAssignment_bare {name : List Char} (h : '=' ∉ name) (acc : List Char) (value : Word) :
    splitAssignment acc (bare name ++ .char '=' false :: value) =
      splitAssignment (acc ++ name) (.char '=' false :: value) := by
  induction name generalizing acc with
  | nil => simp [bare]
  | cons c name ih =>
      have hc : c ≠ '=' := fun heq => h (heq ▸ List.mem_cons_self ..)
      have hrest := ih (fun hmem => h (List.mem_cons_of_mem _ hmem)) (acc ++ [c])
      rw [List.append_assoc, List.singleton_append] at hrest
      rw [← hrest]
      show (if c = '=' then _ else splitAssignment (acc ++ [c]) (bare name ++ _)) = _
      rw [if_neg hc]

/-- A name in the sense of the shell. -/
def isName : List Char → Bool
  | [] => false
  | c :: rest => isNameStart c && rest.all isNameChar

theorem not_mem_of_isName {name : List Char} (h : isName name = true) : '=' ∉ name := by
  cases name with
  | nil => exact List.not_mem_nil
  | cons c rest =>
      simp only [isName, Bool.and_eq_true, List.all_eq_true] at h
      intro hmem
      rcases List.mem_cons.mp hmem with rfl | hrest
      · exact absurd h.1 (by decide)
      · exact absurd (h.2 _ hrest) (by decide)

/-- A command that only assigns a variable. -/
theorem simpleCommand_assignment {name : List Char} (h : isName name = true) (value : Word) :
    simpleCommand [bare name ++ .char '=' false :: value] =
      some ⟨[(String.ofList name, value)], []⟩ := by
  have hsplit : splitAssignment [] (bare name ++ .char '=' false :: value) =
      some (String.ofList name, value) := by
    rw [splitAssignment_bare (not_mem_of_isName h), List.nil_append]
    cases name with
    | nil => cases h
    | cons c rest =>
        simp only [isName, Bool.and_eq_true] at h
        simp only [splitAssignment, if_pos, h.1, h.2, and_self]
  simp only [simpleCommand, splitAssignments, hsplit]

/-- A command whose first word is unquoted, holds no sign of an assignment and is not reserved. -/
theorem simpleCommand_words {first : List Char} (hname : '=' ∉ first)
    (hreserved : String.ofList first ∉ reserved) (rest : List Word) :
    simpleCommand (bare first :: rest) = some ⟨[], bare first :: rest⟩ := by
  have hsplit : ∀ {first : List Char}, '=' ∉ first → ∀ acc,
      splitAssignment acc (bare first) = none := by
    intro first
    induction first with
    | nil => exact fun _ _ => rfl
    | cons c first ih =>
        intro hname acc
        have hc : c ≠ '=' := fun heq => hname (heq ▸ List.mem_cons_self ..)
        show (if c = '=' then _ else splitAssignment (acc ++ [c]) (bare first)) = _
        rw [if_neg hc, ih (fun hmem => hname (List.mem_cons_of_mem _ hmem))]
  have htext : ∀ first : List Char, bareText (bare first) = some first := by
    intro first
    induction first with
    | nil => rfl
    | cons c first ih =>
        show (bareText (bare first)).map (c :: ·) = _
        rw [ih, Option.map_some]
  simp only [simpleCommand, splitAssignments, hsplit hname, htext, Option.any_some, hreserved,
    decide_false, Bool.false_eq_true, if_false]

/-! ## Fields -/

/-- A word, or a part of one, that stands for itself in every state of the shell. -/
structure Literal (word : Word) (text : List Char) : Prop where
  fields : ∀ (env : Env) (field : Option (List Char)) (rest : Word),
    expandPieces env field (word ++ rest) =
      expandPieces env (some (field.getD [] ++ text)) rest
  value : ∀ (env : Env) (rest : Word),
    expandValue env (word ++ rest) = (expandValue env rest).map (text ++ ·)

theorem Literal.expandWord {word : Word} {text : List Char} (h : Literal word text) (env : Env) :
    Shell.expandWord env word = some [String.ofList text] := by
  have hfields := h.fields env none []
  rw [List.append_nil] at hfields
  simp only [Shell.expandWord, hfields, expandPieces, Option.getD_none, List.nil_append,
    Option.toList_some, Option.map_some, List.map_cons, List.map_nil]

theorem Literal.expandValue {word : Word} {text : List Char} (h : Literal word text) (env : Env) :
    Shell.expandValue env word = some text := by
  have hvalue := h.value env []
  rw [List.append_nil] at hvalue
  simp only [hvalue, Shell.expandValue, Option.map_some, List.append_nil]

theorem literal_char (c : Char) (quoted : Bool) : Literal [.char c quoted] [c] :=
  ⟨fun _ _ _ => rfl, fun _ _ => rfl⟩

theorem Literal.append {first second : Word} {head tail : List Char}
    (hfirst : Literal first head) (hsecond : Literal second tail) :
    Literal (first ++ second) (head ++ tail) := by
  constructor
  · intro env field rest
    rw [List.append_assoc, hfirst.fields, hsecond.fields, Option.getD_some, List.append_assoc]
  · intro env rest
    rw [List.append_assoc, hfirst.value, hsecond.value, Option.map_map]
    congr 1
    funext value
    exact (List.append_assoc head tail value).symm

theorem literal_bare (c : Char) (text : List Char) : Literal (bare (c :: text)) (c :: text) := by
  induction text generalizing c with
  | nil => exact literal_char c false
  | cons d text ih => exact (literal_char c false).append (ih d)

theorem literal_null : Literal [.null] [] := by
  constructor
  · intro env field rest
    show expandPieces env (some (field.getD [])) rest = _
    rw [List.append_nil]
  · intro env rest
    show expandValue env rest = _
    simp

theorem literal_quoted (text : List Char) : Literal (quoted text) text := by
  have hchar : ∀ c, Literal (quotedChar c) [c] := by
    intro c
    by_cases hc : c = '\''
    · rw [quotedChar, if_pos hc]
      exact (literal_char c true).append literal_null
    · rw [quotedChar, if_neg hc]
      exact literal_char c true
  -- the quotes that open the word come first, so that it is a field even when it is empty
  have hall : ∀ (word : Word) (head : List Char), Literal word head →
      Literal (word ++ text.flatMap quotedChar) (head ++ text) := by
    induction text with
    | nil =>
        intro word head h
        simpa using h
    | cons c text ih =>
        intro word head h
        have hrest := ih (word ++ quotedChar c) (head ++ [c]) (h.append (hchar c))
        rw [List.append_assoc, List.append_assoc] at hrest
        exact hrest
  exact hall [.null] [] literal_null

theorem spread_fields (field : List (List Char)) :
    (spread none field).1 ++ (spread none field).2.toList = field := by
  induction field with
  | nil => rfl
  | cons first rest ih =>
      cases rest with
      | nil => rfl
      | cons second rest =>
          show first :: ((spread none (second :: rest)).1 ++
            (spread none (second :: rest)).2.toList) = _
          rw [ih]

/-- All positional parameters in double quotes are one field each, and none without parameters. -/
theorem expandWord_all (env : Env) : expandWord env [.param .all true] = some env.positional := by
  have hfields := spread_fields (env.positional.map String.toList)
  show ((expandPieces env _ []).map (_ ++ ·)).map (List.map String.ofList) = _
  simp only [expandPieces, Option.map_some, hfields, List.map_map]
  simp

theorem expandWord_var (env : Env) (name : String) :
    expandWord env [.param (.var name) true] = some [env.var name] := by
  show ((some (env.var name).toList).bind fun value => expandPieces env (some ([] ++ value)) []).map
    (List.map String.ofList) = _
  simp [expandPieces]

theorem expandValue_status (env : Env) (quoted : Bool) :
    expandValue env [.param .status quoted] = some (toString env.status).toList := by
  show ((some (toString env.status).toList).bind fun value => (some []).bind fun more =>
    some (value ++ more)) = _
  simp

theorem expandWords {env : Env} {words : List Word} {fields : List (List String)}
    (h : List.Forall₂ (fun word field => expandWord env word = some field) words fields) :
    words.mapM (expandWord env) = some fields := by
  induction h with
  | nil => rfl
  | cons hword _ ih =>
      rw [List.mapM_cons, hword, ih]
      rfl

/-- A command without assignments runs the fields of its words. -/
theorem expand_words {env : Env} {words : List Word} {fields : List (List String)}
    (h : List.Forall₂ (fun word field => expandWord env word = some field) words fields) :
    SimpleCommand.expand env ⟨[], words⟩ = some ⟨[], fields.flatten⟩ := by
  simp only [SimpleCommand.expand, expandWords h, List.mapM_nil, Option.pure_def,
    Option.bind_eq_bind, Option.bind_some]

theorem expandList_cons {env : Env} {command : SimpleCommand} {commands : List SimpleCommand}
    {first : Expanded} {rest : List Expanded} (hfirst : command.expand env = some first)
    (hrest : expandList env commands = some rest) :
    expandList env (command :: commands) = some (first :: rest) := by
  have hcommands : commands.mapM (SimpleCommand.expand env) = some rest := hrest
  rw [expandList, List.mapM_cons, hfirst, hcommands]
  rfl

/-! ## Spelled words -/

/-- A text that adds a literal word. -/
structure Spells (text : List Char) (word : Word) (value : List Char) : Prop where
  wordText : WordText text word
  literal : Literal word value

theorem spells_bare {text : List Char} (hne : text ≠ []) (h : text.all plain = true) :
    Spells text (bare text) text := by
  cases text with
  | nil => exact absurd rfl hne
  | cons c text => exact ⟨wordText_bare (List.all_eq_true.mp h), literal_bare c text⟩

theorem spells_quoted {text : List Char} (h : nul ∉ text) :
    Spells (singleQuote text) (quoted text) text :=
  ⟨wordText_quoted h, literal_quoted text⟩

theorem plain_of_isNameChar {c : Char} (h : isNameChar c = true) : plain c = true := by
  have hother : (outside ++ [' ', '\t', '\n', '\'', '"', '\\', '$', '|', '#']).all
      (!isNameChar ·) = true := by decide
  rw [plain, Bool.not_eq_true', decide_eq_false_iff_not]
  intro hmem
  have hname := List.all_eq_true.mp hother c hmem
  rw [h] at hname
  cases hname

theorem isNameChar_of_isName {name : List Char} (h : isName name = true) :
    ∀ c ∈ name, isNameChar c = true := by
  cases name with
  | nil => exact fun c hc => absurd hc List.not_mem_nil
  | cons c rest =>
      simp only [isName, Bool.and_eq_true, List.all_eq_true] at h
      have hstart : isNameChar c = true := by
        have hc := h.1
        simp only [isNameStart, Bool.or_eq_true] at hc
        simp only [isNameChar, Bool.or_eq_true, Char.isAlphanum]
        rcases hc with halpha | hunderscore
        · exact .inl (.inl halpha)
        · exact .inr hunderscore
      exact List.forall_mem_cons.mpr ⟨hstart, h.2⟩

/-- A line that assigns a variable. -/
theorem isLine_assignment {name text : List Char} {word : Word} (hname : isName name = true)
    (hword : WordText text word) :
    IsLine (name ++ '=' :: text ++ ['\n']) [⟨[(String.ofList name, word)], []⟩] := by
  have hplain : (name ++ ['=']).all plain = true := by
    refine List.all_eq_true.mpr fun c hc => ?_
    rcases List.mem_append.mp hc with hc | hc
    · exact plain_of_isNameChar (isNameChar_of_isName hname c hc)
    · rw [List.mem_singleton.mp hc]
      decide
  have hne : name ++ ['='] ≠ [] := by simp
  have hspelled := (spells_bare hne hplain).wordText.append hword
  have hparts : bare (name ++ ['=']) ++ word = bare name ++ .char '=' false :: word := by
    simp [bare]
  rw [hparts, List.append_assoc, List.singleton_append] at hspelled
  exact isLine_command .nil hspelled (simpleCommand_assignment hname word)

theorem expand_assignment {word : Word} {value : List Char} (env : Env) (name : String)
    (h : expandValue env word = some value) :
    SimpleCommand.expand env ⟨[(name, word)], []⟩ = some ⟨[(name, String.ofList value)], []⟩ := by
  simp [SimpleCommand.expand, h]

end Shell
