import Mathlib.Data.List.Sort
import Mathlib.Data.String.Basic

/-!
# Target specifications

The cold per-target data parsed once from an `ExternalRunnerSpec`, after `spec.rs`. The wire
message's map of environment variables is given by its entries in iteration order.
-/

namespace Quokka

/-- An argument in a command or environment. -/
inductive CommandArg where
  | verbatim (text : String)
  | argHandle (handle : Int)
  | envHandle (handle : String)
  deriving DecidableEq, Repr

/-- `ExternalRunnerSpecValue`: its oneof may be absent. -/
abbrev ExternalRunnerSpecValue := Option CommandArg

/-- `ConfiguredTarget`; the handle is given by its id. -/
structure ConfiguredTarget where
  handle : Option Int
  cell : String
  package : String
  target : String
  configuration : String
  deriving DecidableEq, Repr

/-- The wire specification of one target. -/
structure ExternalRunnerSpec where
  target : Option ConfiguredTarget
  testType : String
  command : List ExternalRunnerSpecValue
  env : List (String × ExternalRunnerSpecValue)
  labels : List String
  contacts : List String
  oncall : Option String
  deriving DecidableEq, Repr

/-- Cold per-target data. -/
structure TargetSpec where
  handle : Int
  suite : String
  display : String
  targetPlatform : Option String
  testType : String
  command : List CommandArg
  env : List (String × CommandArg)
  labels : List String
  contacts : List String
  oncall : Option String
  deriving DecidableEq, Repr

/-- Why a specification was rejected. -/
inductive SpecError where
  | missingTarget
  | missingHandle
  | missingValue (location : String)
  deriving DecidableEq, Repr

/-- The error's message. -/
def SpecError.message : SpecError → String
  | .missingTarget => "ExternalRunnerSpec missing target"
  | .missingHandle => "ExternalRunnerSpec target missing handle"
  | .missingValue location => "ExternalRunnerSpec " ++ location ++ " missing value"

/-- `CommandArg::from_proto`. -/
def CommandArg.fromProto (value : ExternalRunnerSpecValue) (location : String) :
    Except SpecError CommandArg :=
  match value with
  | some arg => .ok arg
  | none => .error (.missingValue location)

/-- The `cell//package:target` display of a target. -/
def ConfiguredTarget.display (target : ConfiguredTarget) : String :=
  target.cell ++ "//" ++ target.package ++ ":" ++ target.target

/-- Parse a wire specification into cold target data. -/
def TargetSpec.fromProto (spec : ExternalRunnerSpec) : Except SpecError TargetSpec := do
  let some target := spec.target | .error .missingTarget
  let some handle := target.handle | .error .missingHandle
  let env ← spec.env.mapM fun (key, value) => do
    let arg ← CommandArg.fromProto value ("environment variable `" ++ key ++ "`")
    pure (key, arg)
  let command ← spec.command.zipIdx.mapM fun (value, index) =>
    CommandArg.fromProto value ("command argument " ++ toString index)
  pure
    { handle
      suite := target.display
      display := target.display
      targetPlatform := if target.configuration.isEmpty then none else some target.configuration
      testType := spec.testType
      command
      env := env.insertionSort fun a b => a.1 ≤ b.1
      labels := spec.labels
      contacts := spec.contacts
      oncall := spec.oncall }

/-- The specification of the target `root//pkg:tests` with one argument and no environment. -/
def ExternalRunnerSpec.plain (testType : String) (labels : List String) : ExternalRunnerSpec where
  target := some ⟨some 7, "root", "pkg", "tests", ""⟩
  testType := testType
  command := [some (.argHandle 1)]
  env := []
  labels := labels
  contacts := []
  oncall := none

/-- What `ExternalRunnerSpec.plain` parses to. -/
def TargetSpec.plain (testType : String) (labels : List String) : TargetSpec where
  handle := 7
  suite := "root//pkg:tests"
  display := "root//pkg:tests"
  targetPlatform := none
  testType := testType
  command := [.argHandle 1]
  env := []
  labels := labels
  contacts := []
  oncall := none

theorem from_proto_plain (testType : String) (labels : List String) :
    TargetSpec.fromProto (.plain testType labels) = .ok (.plain testType labels) :=
  rfl

end Quokka
