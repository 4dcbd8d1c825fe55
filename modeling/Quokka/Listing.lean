/-!
# Discovered tests

Framework-agnostic test discovery, after `listing.rs`: the test case record and the policy
that decides which discovered tests are kept.
-/

namespace Quokka

/-- How ignored tests are handled. -/
inductive IgnoredPolicy where
  | excludeIgnored
  | includeIgnored
  | ignoredOnly
  deriving DecidableEq, Repr

/-- Keep only the discovered tests that the policy will actually run. -/
def IgnoredPolicy.selects : IgnoredPolicy → Bool → Bool
  | .excludeIgnored, ignored => !ignored
  | .includeIgnored, _ => true
  | .ignoredOnly, ignored => ignored

/-- What a harness calls a listed item. -/
inductive TestCaseKind where
  | test
  | benchmark
  deriving DecidableEq, Repr

/-- Where a test is defined. -/
structure TestCaseLocation where
  sourcePath : String
  startLine : UInt64
  startCol : UInt64
  endLine : UInt64
  endCol : UInt64
  deriving DecidableEq

/-- What a JSON listing says beyond the name. -/
structure TestCaseMetadata where
  ignoreMessage : Option String := none
  location : Option TestCaseLocation := none
  deriving DecidableEq

/-- A single discovered test. -/
structure TestCase where
  name : String
  kind : TestCaseKind
  ignored : Bool
  metadata : TestCaseMetadata := {}
  deriving DecidableEq

/-- Why a listing could not be read. -/
inductive ListingParseError where
  | notUtf8
  deriving DecidableEq, Repr

/-- The error's message. -/
def ListingParseError.message : ListingParseError → String
  | .notUtf8 => "listing output was not valid UTF-8"

end Quokka
