import Quokka.Library.Table
import Quokka.Library.Text
import Quokka.Listing
import Quokka.Result

/-!
# Decoding harness output

Reading libtest listings and run reports, after `translator.rs`. Both formats are line based:
every line is read on its own and the lines that are no result are skipped.

`HarnessText` stands for the JSON decoder and for floating-point seconds, which come from
outside the repository. A JSON line is given by the fields of the record that it decodes to.
-/

namespace Quokka

/-- A floating-point number, by its bits. -/
structure F64 where
  bits : UInt64
  deriving DecidableEq, Repr

/-- The fields of a JSON listing line. -/
structure JsonListEvent where
  kind : String
  event : Option String := none
  name : Option String := none
  ignore : Bool := false
  ignoreMessage : Option String := none
  sourcePath : Option String := none
  startLine : Option UInt64 := none
  startCol : Option UInt64 := none
  endLine : Option UInt64 := none
  endCol : Option UInt64 := none
  deriving DecidableEq

/-- The fields of a JSON run report line. -/
structure RunEvent where
  kind : String
  name : Option String := none
  event : Option String := none
  stdout : Option String := none
  message : Option String := none
  execTime : Option F64 := none
  deriving DecidableEq

/-- Decoders from outside the repository. -/
class HarnessText where
  parseListEvent : String → Option JsonListEvent
  parseRunEvent : String → Option RunEvent
  parseF64 : String → Option F64
  tryFromSecsF64 : F64 → Option Duration

/-- The format used for `--list` output. -/
inductive ListFormat where
  | text
  | json
  deriving DecidableEq, Repr

/-- The format of a run report. -/
inductive RunFormat where
  | text
  | json
  deriving DecidableEq, Repr

/-- One observed per-test outcome. -/
structure PerTestObservation where
  status : TestVerdict
  details : String
  frameworkCaseDuration : Option Duration
  deriving DecidableEq

/-! ## Listings -/

/-- The test on one line of a text listing. -/
def parseTextLine (line : String) : Option TestCase := do
  let line := Text.trimEnd line
  let (name, kind) ←
    match Text.stripSuffix line ": test" with
    | some name => some (name, TestCaseKind.test)
    | none => (Text.stripSuffix line ": benchmark").map fun name => (name, .benchmark)
  if name.isEmpty then none
  else some { name, kind, ignored := false }

/-- Parse stable `--list` text. -/
def parseText (text : String) : List TestCase :=
  (Text.lines text).filterMap parseTextLine

/-- The location of a listed test, if all its fields are there. -/
def JsonListEvent.location (event : JsonListEvent) : Option TestCaseLocation := do
  let sourcePath ← event.sourcePath
  let startLine ← event.startLine
  let startCol ← event.startCol
  let endLine ← event.endLine
  let endCol ← event.endCol
  pure { sourcePath, startLine, startCol, endLine, endCol }

/-- The test on one line of a JSON listing. -/
def parseJsonLine [HarnessText] (line : String) : Option TestCase := do
  let line := Text.trim line
  if line.isEmpty then none
  else
    let event ← HarnessText.parseListEvent line
    let kind ←
      if event.kind = "test" then some TestCaseKind.test
      else if event.kind = "benchmark" then some .benchmark
      else none
    if event.event.any (· != "discovered") then none
    else
      let name ← event.name
      pure
        { name
          kind
          ignored := event.ignore
          metadata := { ignoreMessage := event.ignoreMessage, location := event.location } }

/-- Parse JSON `--list` output. -/
def parseJson [HarnessText] (text : String) : List TestCase :=
  (Text.lines text).filterMap parseJsonLine

/-- Parse a listing and keep the tests that the policy selects. -/
def parseListing [HarnessText] (format : ListFormat) (stdout : List UInt8)
    (policy : IgnoredPolicy) : Except ListingParseError (List TestCase) :=
  match Text.fromUtf8 stdout with
  | none => .error .notUtf8
  | some text =>
      let all :=
        match format with
        | .text => parseText text
        | .json => parseJson text
      .ok (all.filter fun t => policy.selects t.ignored)

/-! ## Run reports -/

/-- Negative and unrepresentable seconds are no duration. -/
def nonnegativeDuration [HarnessText] (seconds : Option F64) : Option Duration :=
  seconds.bind HarnessText.tryFromSecsF64

/-- The details of a JSON result. -/
def jsonFailureDetails : Option String → Option String → String
  | some stdout, some message =>
      if stdout.isEmpty then message
      else if message.isEmpty || stdout == message then stdout
      else stdout ++ "\n" ++ message
  | some stdout, none => stdout
  | none, some message => message
  | none, none => ""

/-- The status of a JSON test event; a started test has none yet. -/
def jsonEventStatus (event : String) : Option TestVerdict :=
  if event = "ok" then some .pass
  else if event = "failed" then some .fail
  else if event = "ignored" then some .skip
  else if event = "started" then none
  else some .fatal

/-- The result on one line of a JSON report. -/
def decodeJsonLine [HarnessText] (line : String) : Option (String × PerTestObservation) := do
  let line := Text.trim line
  if line.isEmpty then none
  else
    let event ← HarnessText.parseRunEvent line
    if event.kind = "bench" then
      let name ← event.name
      pure (name, ⟨.pass, "", none⟩)
    else if event.kind ≠ "test" then none
    else
      let name ← event.name
      let ev ← event.event
      let status ← jsonEventStatus ev
      pure (name, ⟨status, jsonFailureDetails event.stdout event.message,
        nonnegativeDuration event.execTime⟩)

/-- The later of two results for a name replaces the earlier one. -/
def collectObservations (results : List (String × PerTestObservation)) :
    Table String PerTestObservation :=
  results.foldl (fun out (name, observation) => out.insert name observation) ∅

/-- Of each name the last result is kept. -/
theorem lookup_collect_observations (results : List (String × PerTestObservation))
    (name : String) : (collectObservations results).lookup name = Table.lastOf name results := by
  unfold collectObservations
  rw [Table.lookup_foldl_insert, AList.lookup_empty, Option.or_none]

/-- Parse JSON run output. -/
def decodeJson [HarnessText] (stdout : String) : Table String PerTestObservation :=
  collectObservations ((Text.lines stdout).filterMap decodeJsonLine)

/-- The failure block of a test in text run output. -/
def extractFailureBlock (stdout name : String) : Option String := do
  let (_, after) ← Text.splitOnce stdout ("---- " ++ name ++ " stdout ----")
  let body :=
    match Text.splitOnce after "\n---- " with
    | some (body, _) => body
    | none =>
        match Text.splitOnce after "\nfailures:" with
        | some (body, _) => body
        | none => after
  pure (Text.trim body)

/-- The status that a status token announces. -/
def textTokenStatus (statusToken : String) : Option TestVerdict :=
  if Text.startsWith statusToken "bench:" then some .pass
  else
    let word := (Text.splitWhitespace statusToken).head?.getD ""
    if word = "ok" then some .pass
    else if word = "FAILED" then some .fail
    else if word = "ignored" then some .skip
    else none

/-- The reported seconds at the end of a status token. -/
def textTokenDuration [HarnessText] (statusToken : String) : Option Duration := do
  let token ← (Text.splitWhitespace statusToken).getLast?
  let token ← Text.stripPrefix token "<"
  let token ← Text.stripSuffix token "s>"
  let seconds ← HarnessText.parseF64 token
  nonnegativeDuration (some seconds)

/-- The result on one line of a text report. -/
def decodeTextLine [HarnessText] (stdout stderr line : String) :
    Option (String × PerTestObservation) := do
  let rest ← Text.stripPrefix line "test "
  let (name, statusToken) ← Text.rsplitOnce rest " ... "
  let statusToken := Text.trim statusToken
  let status ← textTokenStatus statusToken
  let details :=
    if status = .fail then
      (extractFailureBlock stdout name).getD
        (if stderr.isEmpty then "" else "---- stderr ----\n" ++ stderr)
    else ""
  pure (name, ⟨status, details, textTokenDuration statusToken⟩)

/-- Parse stable text run output. -/
def decodeText [HarnessText] (stdout stderr : String) : Table String PerTestObservation :=
  collectObservations ((Text.lines stdout).filterMap (decodeTextLine stdout stderr))

/-- Decode the output of a libtest process. -/
def libtestDecode [HarnessText] (format : RunFormat) (stdout stderr : List UInt8) :
    Table String PerTestObservation :=
  let stdout := Text.fromUtf8Lossy stdout
  match format with
  | .json => decodeJson stdout
  | .text => decodeText stdout (Text.fromUtf8Lossy stderr)

end Quokka
