import Quokka.Cli
import Quokka.Translator.UserArgs

/-!
# Framework translators

Listing and execution arguments and the three translators, after `translator.rs`. A
`Translator` is what the source's trait object offers; `resolve` looks one up by test type.
-/

namespace Quokka

/-- The synthetic test name of a documentation test target. -/
def doctestResultName : String := "<doctests>"

/-- The synthetic test name of a custom test binary. -/
def binaryResultName : String := "<binary>"

/-- Whether results can be told apart by name. -/
inductive DemuxCapability where
  | singletonOnly
  | nameAttributable
  deriving DecidableEq, Repr

/-- How a target's tests are discovered and fanned out. -/
inductive ListingStrategy where
  | perTestListing (requestArgs : IgnoredPolicy → List String → List String)
      (parse : List UInt8 → IgnoredPolicy → Except ListingParseError (List TestCase))
  | wholeTarget (name : String)
  | wholeBinary (name : String)

/-- Whether one execution covers the whole target or binary under a synthetic name. -/
def ListingStrategy.isWholeTarget : ListingStrategy → Bool
  | .perTestListing _ _ => false
  | .wholeTarget _ => true
  | .wholeBinary _ => true

/-- A test-framework translator. -/
structure Translator where
  declaresExecutorOverrides : Bool
  parserCapability : DemuxCapability
  listingStrategy : ListingStrategy
  executionArgs : List String → IgnoredPolicy → List String → List String
  parseResults : List UInt8 → List UInt8 → Table String PerTestObservation

/-- The flag of an ignored policy. -/
def ignoredFlag : IgnoredPolicy → List String
  | .excludeIgnored => []
  | .includeIgnored => ["--include-ignored"]
  | .ignoredOnly => ["--ignored"]

/-- Arguments of a listing action. -/
def libtestListingArgs (ignored : IgnoredPolicy) (format : ListFormat) (userArgs : List String) :
    List String :=
  let userArgs := LibtestUserArgs.parse userArgs
  let args :=
    match format with
    | .text => ["--list"]
    | .json => ["-Z", "unstable-options", "--list", "--format", "json"]
  let args :=
    if format = .text && userArgs.listingNeedsUnstable then args ++ ["-Z", "unstable-options"]
    else args
  args ++ ignoredFlag ignored ++ userArgs.listingArgs

/-- The format flags of an execution. -/
def formatFlags (format : RunFormat) (userArgs : LibtestUserArgs) : List String :=
  if format = .json then ["-Z", "unstable-options", "--format", "json"]
  else if userArgs.executionNeedsUnstable then ["-Z", "unstable-options"]
  else []

/-- Arguments of a per-test execution: exactly the named tests. -/
def libtestExecutionArgs (names : List String) (ignored : IgnoredPolicy) (format : RunFormat)
    (userArgs : List String) : List String :=
  let userArgs := LibtestUserArgs.parse userArgs
  names ++ ["--exact", "--test-threads=1", "--color=never"] ++ ignoredFlag ignored ++
    formatFlags format userArgs ++ userArgs.perTestExecutionArgs

/-- Arguments of a documentation test execution. -/
def doctestExecutionArgs (ignored : IgnoredPolicy) (format : RunFormat)
    (userArgs : List String) : List String :=
  let userArgs := LibtestUserArgs.parse userArgs
  ["--test-threads=1", "--color=never"] ++ ignoredFlag ignored ++
    formatFlags format userArgs ++ userArgs.wholeTargetExecutionArgs

/-- A libtest binary: listed, then run by name. -/
def libtestTranslator [HarnessText] (config : RunnerConfig) : Translator where
  declaresExecutorOverrides := false
  parserCapability := .nameAttributable
  listingStrategy :=
    .perTestListing
      (fun ignored userArgs =>
        libtestListingArgs ignored config.listFormat (userArgs ++ config.directLibtestArgs))
      (parseListing config.listFormat)
  executionArgs names ignored userArgs :=
    libtestExecutionArgs names ignored config.runFormat (userArgs ++ config.directLibtestArgs)
  parseResults := libtestDecode config.runFormat

/-- Documentation tests: one run of the whole target. -/
def doctestTranslator [HarnessText] (config : RunnerConfig) : Translator where
  declaresExecutorOverrides := false
  parserCapability := .singletonOnly
  listingStrategy := .wholeTarget doctestResultName
  executionArgs _ ignored userArgs :=
    doctestExecutionArgs ignored config.runFormat (userArgs ++ config.directLibtestArgs)
  parseResults := libtestDecode config.runFormat

/-- A custom test binary: its exit code is the whole result. -/
def customBinaryTranslator : Translator where
  declaresExecutorOverrides := true
  parserCapability := .singletonOnly
  listingStrategy := .wholeBinary binaryResultName
  executionArgs _ _ userArgs := userArgs
  parseResults _ _ := ∅

/-- `TranslatorRegistry::resolve` over the registered test types. -/
def resolveTranslator [HarnessText] (testType : String) (config : RunnerConfig) :
    Option Translator :=
  if testType = "rust" then some (libtestTranslator config)
  else if testType = "rust_doctest_v1" then some (doctestTranslator config)
  else if testType = "custom_test_v1" then some customBinaryTranslator
  else none

end Quokka
