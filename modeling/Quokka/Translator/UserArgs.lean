import Quokka.Library.Text
import Quokka.Listing

/-!
# Libtest user arguments

Splitting the user's libtest arguments into listing and execution arguments, after
`LibtestUserArgs` of `translator.rs`. `classify` is the table of options in the order in which
the source tries them; `events` walks the argument list with it, and `apply` is what one
recognised option does to the parsed arguments.
-/

namespace Quokka

/-- The output format the user asked for. -/
inductive LibtestOutputFormat where
  | pretty
  | terse
  | json
  | junit
  deriving DecidableEq, Repr

/-- One recognised user argument. -/
inductive UserArg where
  | skip (value : String)
  | filter (value : String)
  | executionValue (flag value : String)
  | unstableExecutionValue (flag value : String)
  | outputFormat (value : String)
  | unstableOption (value : String)
  | ignoredPolicy (policy : IgnoredPolicy)
  | exact
  | list
  | listingAndExecutionFlag (flag : String)
  | excludeShouldPanic (flag : String)
  | executionFlag (flag : String)
  | unstableExecutionFlag (flag : String)
  | quiet
  | help
  | dropped
  deriving DecidableEq, Repr

/-- How many arguments an option takes: itself, itself and a value, or everything after it. -/
inductive ArgForm where
  | alone (arg : UserArg)
  | withValue (arg : String → UserArg)
  | filters

/-- The options written as `--name=value`. -/
def classifyAssigned (arg : String) : Option ArgForm :=
  match Text.stripPrefix arg "--skip=" with
  | some value => some (.alone (.skip value))
  | none =>
  match Text.stripPrefix arg "--logfile=" with
  | some value => some (.alone (.executionValue "--logfile" value))
  | none =>
  if Text.startsWith arg "--test-threads=" || Text.startsWith arg "--color=" then
    some (.alone .dropped)
  else
  match Text.stripPrefix arg "--format=" with
  | some value => some (.alone (.outputFormat value))
  | none =>
  match Text.stripPrefix arg "--filter=" with
  | some value => some (.alone (.filter value))
  | none =>
  match Text.stripPrefix arg "--shuffle-seed=" with
  | some value => some (.alone (.unstableExecutionValue "--shuffle-seed" value))
  | none =>
  match Text.stripPrefix arg "-Z" with
  | some value =>
      if value.isEmpty then some (.withValue .unstableOption)
      else some (.alone (.unstableOption value))
  | none => none

/-- The options written as whole words; any other word is a flag or a filter. -/
def classifyWord (arg : String) : ArgForm :=
  if arg = "--include-ignored" then .alone (.ignoredPolicy .includeIgnored)
  else if arg = "--ignored" then .alone (.ignoredPolicy .ignoredOnly)
  else if arg = "--exact" then .alone .exact
  else if arg = "--skip" then .withValue .skip
  else if arg = "--list" then .alone .list
  else if arg = "--filter" then .withValue .filter
  else if ["--test", "--bench"].contains arg then .alone (.listingAndExecutionFlag arg)
  else if arg = "--exclude-should-panic" then .alone (.excludeShouldPanic arg)
  else if ["--force-run-in-process", "--no-capture", "--nocapture", "--show-output"].contains arg
    then .alone (.executionFlag arg)
  else if ["--fail-fast", "--report-time", "--ensure-time", "--shuffle"].contains arg then
    .alone (.unstableExecutionFlag arg)
  else if arg = "--shuffle-seed" then .withValue (.unstableExecutionValue arg)
  else if arg = "--logfile" then .withValue (.executionValue arg)
  else if arg = "--format" then .withValue .outputFormat
  else if ["--test-threads", "--color"].contains arg then .withValue fun _ => .dropped
  else if ["-q", "--quiet"].contains arg then .alone .quiet
  else if ["-h", "--help"].contains arg then .alone .help
  else if arg = "--" then .filters
  else if Text.startsWith arg "-" then .alone (.executionFlag arg)
  else .alone (.filter arg)

/-- What an argument is. -/
def classify (arg : String) : ArgForm :=
  (classifyAssigned arg).getD (classifyWord arg)

/-- The recognised arguments of an argument list; an option whose value is missing at the end
is dropped. -/
def userArgs : List String → List UserArg
  | [] => []
  | arg :: rest =>
      match classify arg with
      | .alone recognised => recognised :: userArgs rest
      | .withValue recognised =>
          match rest with
          | value :: rest => recognised value :: userArgs rest
          | [] => []
      | .filters => rest.map .filter

/-- The parsed user arguments. -/
structure LibtestUserArgs where
  listingArgs : List String := []
  perTestExecutionArgs : List String := []
  wholeTargetExecutionArgs : List String := []
  ignoredPolicies : List IgnoredPolicy := []
  listingOnly : Bool := false
  help : Bool := false
  outputFormat : LibtestOutputFormat := .pretty
  unstableOptions : Bool := false
  formatError : Option String := none
  listingNeedsUnstable : Bool := false
  executionNeedsUnstable : Bool := false
  deriving DecidableEq, Repr

namespace LibtestUserArgs

def pushFilter (parsed : LibtestUserArgs) (value : String) : LibtestUserArgs :=
  { parsed with
    listingArgs := parsed.listingArgs ++ [value]
    wholeTargetExecutionArgs := parsed.wholeTargetExecutionArgs ++ [value] }

def pushSkip (parsed : LibtestUserArgs) (value : String) : LibtestUserArgs :=
  { parsed with
    listingArgs := parsed.listingArgs ++ ["--skip", value]
    wholeTargetExecutionArgs := parsed.wholeTargetExecutionArgs ++ ["--skip", value] }

def pushExecutionFlag (parsed : LibtestUserArgs) (flag : String) : LibtestUserArgs :=
  { parsed with
    perTestExecutionArgs := parsed.perTestExecutionArgs ++ [flag]
    wholeTargetExecutionArgs := parsed.wholeTargetExecutionArgs ++ [flag] }

def pushListingAndExecutionFlag (parsed : LibtestUserArgs) (flag : String) : LibtestUserArgs :=
  { parsed with listingArgs := parsed.listingArgs ++ [flag] }.pushExecutionFlag flag

def pushExecutionValue (parsed : LibtestUserArgs) (flag value : String) : LibtestUserArgs :=
  { parsed with
    perTestExecutionArgs := parsed.perTestExecutionArgs ++ [flag, value]
    wholeTargetExecutionArgs := parsed.wholeTargetExecutionArgs ++ [flag, value] }

def pushUnstableExecutionValue (parsed : LibtestUserArgs) (flag value : String) :
    LibtestUserArgs :=
  { parsed with executionNeedsUnstable := true }.pushExecutionValue flag value

def noteUnstableOption (parsed : LibtestUserArgs) (value : String) : LibtestUserArgs :=
  { parsed with
    executionNeedsUnstable := true
    unstableOptions := parsed.unstableOptions || value == "unstable-options" }

def setOutputFormat (parsed : LibtestUserArgs) (value : String) : LibtestUserArgs :=
  if value = "pretty" then { parsed with outputFormat := .pretty }
  else if value = "terse" then { parsed with outputFormat := .terse }
  else if value = "json" then { parsed with outputFormat := .json }
  else if value = "junit" then { parsed with outputFormat := .junit }
  else
    { parsed with
      formatError := some
        ("argument for --format must be pretty, terse, json or junit (was " ++ value ++ ")") }

/-- What one recognised argument does. -/
def apply (parsed : LibtestUserArgs) : UserArg → LibtestUserArgs
  | .skip value => parsed.pushSkip value
  | .filter value => parsed.pushFilter value
  | .executionValue flag value => parsed.pushExecutionValue flag value
  | .unstableExecutionValue flag value => parsed.pushUnstableExecutionValue flag value
  | .outputFormat value => parsed.setOutputFormat value
  | .unstableOption value => parsed.noteUnstableOption value
  | .ignoredPolicy policy =>
      { parsed with ignoredPolicies := parsed.ignoredPolicies ++ [policy] }
  | .exact =>
      { parsed with
        listingArgs := parsed.listingArgs ++ ["--exact"]
        wholeTargetExecutionArgs := parsed.wholeTargetExecutionArgs ++ ["--exact"] }
  | .list => { parsed with listingOnly := true }
  | .listingAndExecutionFlag flag => parsed.pushListingAndExecutionFlag flag
  | .excludeShouldPanic flag =>
      { parsed with
        listingNeedsUnstable := true
        executionNeedsUnstable := true }.pushListingAndExecutionFlag flag
  | .executionFlag flag => parsed.pushExecutionFlag flag
  | .unstableExecutionFlag flag =>
      { parsed with executionNeedsUnstable := true }.pushExecutionFlag flag
  | .quiet => { parsed with outputFormat := .terse }
  | .help => { parsed with help := true }
  | .dropped => parsed

/-- Parse an argument list. -/
def parse (args : List String) : LibtestUserArgs :=
  (userArgs args).foldl apply {}

end LibtestUserArgs

/-- The ignored policies that the user's arguments ask for. -/
def libtestUserIgnoredPolicies (args : List String) : List IgnoredPolicy :=
  (LibtestUserArgs.parse args).ignoredPolicies

/-- Whether the user's arguments ask for a listing only. -/
def libtestUserRequestsListingOnly (args : List String) : Bool :=
  (LibtestUserArgs.parse args).listingOnly

/-- Whether the user's arguments ask for the help text. -/
def libtestUserRequestsHelp (args : List String) : Bool :=
  (LibtestUserArgs.parse args).help

/-- The usage error of the user's arguments, unless they ask for help. -/
def libtestUserUsageError (args : List String) : Option String :=
  let parsed := LibtestUserArgs.parse args
  if parsed.help then none
  else
    match parsed.formatError with
    | some error => some error
    | none =>
        if parsed.unstableOptions then none
        else
          match parsed.outputFormat with
          | .json => some (nightlyOnly "json")
          | .junit => some (nightlyOnly "junit")
          | .pretty | .terse => none
where
  nightlyOnly (format : String) : String :=
    "The \"" ++ format ++
      "\" format is only accepted on the nightly compiler with -Z unstable-options"

end Quokka
