/-!
# Variants and repetitions

The two multiplicity axes of a test run, after `variant.rs`: the variant identity that
disambiguates an action, and how often the action is repeated.
-/

namespace Quokka

/-- The `Testing.variant` identity. `default` emits no variant string. -/
inductive Variant where
  | default
  | asan
  | tsan
  | miri
  | loom
  | coverage
  | named (name : String)
  deriving DecidableEq, Repr

namespace Variant

/-- Whether this is the unmarked variant. -/
def isDefault : Variant → Bool
  | .default => true
  | _ => false

/-- The string to put in `Testing.variant`. -/
def identity : Variant → Option String
  | .default => none
  | .asan => some "asan"
  | .tsan => some "tsan"
  | .miri => some "miri"
  | .loom => some "loom"
  | .coverage => some "coverage"
  | .named name => some name

/-- Parse a `--variant` value. -/
def parse (value : String) : Variant :=
  if value = "default" then .default
  else if value = "asan" then .asan
  else if value = "tsan" then .tsan
  else if value = "miri" then .miri
  else if value = "loom" then .loom
  else if value = "coverage" then .coverage
  else .named value

/-- The text under which a variant is stored. -/
def text (variant : Variant) : String :=
  variant.identity.getD "default"

/-- Storing a parsed variant keeps its text. -/
theorem text_parse (value : String) : (parse value).text = value := by
  unfold parse
  repeat' split
  all_goals simp_all [text, identity]

/-- A parsed variant is read back from its stored text. -/
theorem parse_text_parse (value : String) : parse (parse value).text = parse value := by
  rw [text_parse]

/-- Variants that `parse` returns are told apart by their text. -/
theorem parse_eq_of_text_eq {first second : String} (h : (parse first).text = (parse second).text) :
    parse first = parse second := by
  rw [← parse_text_parse first, h, parse_text_parse]

end Variant

/-- A count of at least one. -/
abbrev NonZeroU32 := {n : UInt32 // n ≠ 0}

/-- Execution multiplicity: one run, or a run for each repeat index below the count. -/
inductive RepeatKind where
  | once
  | stress (count : NonZeroU32)
  deriving DecidableEq

namespace RepeatKind

/-- Whether each run carries its own repeat index. -/
def isStress : RepeatKind → Bool
  | .once => false
  | .stress _ => true

/-- Number of action copies this repetition implies. -/
def count : RepeatKind → Nat
  | .once => 1
  | .stress n => n.val.toNat

/-- Every repetition runs at least once. -/
theorem count_pos (repetition : RepeatKind) : 0 < repetition.count := by
  cases repetition with
  | once => exact Nat.one_pos
  | stress n =>
      have hne : n.val.toNat ≠ 0 := fun h => n.property (UInt32.toNat.inj h)
      exact Nat.pos_of_ne_zero hne

end RepeatKind

end Quokka
