import Quokka.DurationDb.Flush
import Mathlib.Data.List.Destutter
import Mathlib.Data.String.Basic

/-!
# The database commands

`quokka db stats` and `quokka db list`, after `db_cli.rs`: what they print of the store in a
directory. A command loads the store and goes through all keys in ascending order, so that the
order in which the tables are iterated does not show.

Numbers with decimals are shown by `DecimalText`: a flake rate is given by the bits of its 64-bit
float, which is never negative, so that rates are ordered as these are. The text of a JSON list is
serde_json's, so that `ListOutput.json` holds its rows.
-/

namespace Quokka

/-- The path of a file in a directory whose own path may be empty. -/
def joinDir (dir name : String) : String :=
  if dir.isEmpty then name else joinPath dir name

/-- What a process knows of its surroundings: the home directory, and the directory in which its
executable is. -/
structure ProcessPaths where
  home : Option String
  exeDir : Option String

/-- Where the test runner keeps its store when it is not told. -/
def defaultDurationDb (paths : ProcessPaths) : Option String :=
  match paths.home with
  | some home => some (joinDir home ".quokka")
  | none => paths.exeDir.map fun dir => joinDir dir "quokka-db"

/-- Where a database command looks for the store. -/
def resolveDbPath (durationDb : Option String) (paths : ProcessPaths) : String :=
  match durationDb with
  | some path => path
  | none =>
      match paths.home with
      | some home => joinDir home ".quokka"
      | none => (paths.exeDir.map fun dir => joinDir dir "quokka-db").getD ".quokka"

namespace DurationDb

/-! ## Keys -/

end DurationDb

/-- The texts of numbers with decimals. -/
class DecimalText where
  /-- `{:.2}` of a number of bytes in kilobytes. -/
  kilobytes : UInt64 → String
  /-- The bits of `failures as f64 / runs as f64 * 100.0`. -/
  percent (failures runs : UInt64) : UInt64
  /-- `{:.1}` of a flake rate. -/
  rate : UInt64 → String

/-! ## Statistics -/

/-- What `stats` finds. -/
structure DbStats where
  databaseDir : String
  totalSize : UInt64
  totalKeys : Nat
  namedCount : Int32
  totalRuns : UInt64
  totalFailures : UInt64
  deriving DecidableEq

/-- The lines that `stats` prints. -/
def DbStats.lines [DecimalText] (stats : DbStats) : List String :=
  ["Database directory: " ++ stats.databaseDir,
    "Total size on disk:  " ++ DecimalText.kilobytes stats.totalSize ++ " KB",
    "Total distinct keys: " ++ toString stats.totalKeys,
    "Named test records:  " ++ toString stats.namedCount,
    "Total test runs:     " ++ toString stats.totalRuns,
    "Total failures:      " ++ toString stats.totalFailures]

/-- One line of the list. -/
structure ListRow where
  key : UInt64
  target : String
  name : String
  variant : String
  p50Ms : Option UInt64
  p95Ms : Option UInt64
  runs : UInt64
  failures : UInt64
  flakeRate : UInt64
  deriving DecidableEq, Repr

/-- What is to be listed, and how. -/
structure ListOptions where
  sort : String := "target"
  env : Option String := none
  target : Option String := none
  name : Option String := none
  format : String := "text"
  deriving DecidableEq, Repr

namespace DurationDb

variable (db : DurationDb) (key : UInt64)

end DurationDb

/-- Whether a test is listed. -/
def ListOptions.selects (options : ListOptions) (target name : String) : Bool :=
  (options.target.all fun pattern => Text.contains target pattern) &&
    options.name.all fun pattern => Text.contains name pattern

/-- What the list is sorted by. -/
inductive ListOrder where
  | target
  | name
  | p50
  | p95
  | runs
  | failures
  | flakeRate
  deriving DecidableEq, Repr

namespace ListOrder

/-- The order that a sort option asks for. -/
def parse (sort : String) : Option ListOrder :=
  if sort = "target" then some .target
  else if sort = "name" then some .name
  else if sort = "p50" then some .p50
  else if sort = "p95" then some .p95
  else if sort = "runs" then some .runs
  else if sort = "failures" then some .failures
  else if sort = "flake-rate" then some .flakeRate
  else none

/-- Texts are compared from the front; the second one decides between equal first ones. -/
def textsLe (first other : String × String) : Prop :=
  first.1 < other.1 ∨ first.1 = other.1 ∧ first.2 ≤ other.2

instance : DecidableRel textsLe := fun _ _ => instDecidableOr

/-- Names come in ascending order and numbers in descending order. -/
def le : ListOrder → ListRow → ListRow → Prop
  | .target, a, b => textsLe (a.target, a.name) (b.target, b.name)
  | .name, a, b => textsLe (a.name, a.target) (b.name, b.target)
  | .p50, a, b => b.p50Ms.getD 0 ≤ a.p50Ms.getD 0
  | .p95, a, b => b.p95Ms.getD 0 ≤ a.p95Ms.getD 0
  | .runs, a, b => b.runs ≤ a.runs
  | .failures, a, b => b.failures ≤ a.failures
  | .flakeRate, a, b => b.flakeRate ≤ a.flakeRate

instance (order : ListOrder) : DecidableRel order.le := fun a b => by
  cases order <;> unfold le <;> infer_instance

theorem texts_le_total (first other : String × String) :
    textsLe first other ∨ textsLe other first := by
  unfold textsLe
  rcases lt_trichotomy first.1 other.1 with hlt | heq | hgt
  · exact .inl (.inl hlt)
  · rcases le_total first.2 other.2 with hle | hge
    · exact .inl (.inr ⟨heq, hle⟩)
    · exact .inr (.inr ⟨heq.symm, hge⟩)
  · exact .inr (.inl hgt)

theorem texts_le_trans {first second third : String × String} (h : textsLe first second)
    (hnext : textsLe second third) : textsLe first third := by
  rcases h with hlt | ⟨heq, hle⟩
  · rcases hnext with hnextLt | ⟨hnextEq, -⟩
    · exact .inl (hlt.trans hnextLt)
    · exact .inl (hnextEq ▸ hlt)
  · rcases hnext with hnextLt | ⟨hnextEq, hnextLe⟩
    · exact .inl (heq ▸ hnextLt)
    · exact .inr ⟨heq.trans hnextEq, hle.trans hnextLe⟩

instance (order : ListOrder) : Std.Total order.le where
  total a b := by
    cases order with
    | target | name => exact texts_le_total _ _
    | p50 | p95 | runs | failures | flakeRate => exact UInt64.le_total _ _

instance (order : ListOrder) : IsTrans ListRow order.le where
  trans a b c hab hbc := by
    cases order with
    | target | name => exact texts_le_trans hab hbc
    | p50 | p95 | runs | failures | flakeRate => exact UInt64.le_trans hbc hab

end ListOrder

/-! ### The table -/

/-- The headers of the table. -/
def listHeaders : List String :=
  ["Target", "Test Name", "Variant", "p50 (ms)", "p95 (ms)", "Runs", "Failures", "Flake %"]

/-- The cells of a row. -/
def ListRow.cells [DecimalText] (row : ListRow) : List String :=
  [row.target, row.name, row.variant, row.p50Ms.elim "N/A" toString,
    row.p95Ms.elim "N/A" toString, toString row.runs, toString row.failures,
    DecimalText.rate row.flakeRate ++ "%"]

/-- The widths that a row asks for, in bytes. -/
def ListRow.widths [DecimalText] (row : ListRow) : List Nat :=
  [row.target.utf8ByteSize, row.name.utf8ByteSize, row.variant.utf8ByteSize,
    row.p50Ms.elim 4 fun ms => (toString ms).utf8ByteSize,
    row.p95Ms.elim 4 fun ms => (toString ms).utf8ByteSize, (toString row.runs).utf8ByteSize,
    (toString row.failures).utf8ByteSize, (DecimalText.rate row.flakeRate ++ "%").utf8ByteSize]

/-- The widths of the columns. -/
def columnWidths [DecimalText] (rows : List ListRow) : List Nat :=
  rows.foldl (fun widths row => List.zipWith max widths row.widths)
    (listHeaders.map String.utf8ByteSize)

/-- The cell of a column, filled up to its width; numbers are at the right. -/
def padCell (index width : Nat) (value : String) : String :=
  let space := String.ofList (List.replicate (width - value.length) ' ')
  (if 3 ≤ index then space ++ value else value ++ space) ++ " "

/-- One line of the table. -/
def tableLine (widths : List Nat) (values : List String) : String :=
  String.join (List.zipWith (fun (entry : String × Nat) width =>
    padCell entry.2 width entry.1) values.zipIdx widths)

/-- The lines of the table. -/
def tableLines [DecimalText] (rows : List ListRow) : List String :=
  let widths := columnWidths rows
  tableLine widths listHeaders ::
    tableLine widths (widths.map fun width => String.ofList (List.replicate width '-')) ::
    rows.map fun row => tableLine widths row.cells

section Table

variable [DecimalText]

end Table

/-- What `list` prints. -/
inductive ListOutput where
  | json (rows : List ListRow)
  | text (lines : List String)
  deriving DecidableEq, Repr

/-- Show the rows in the format that was asked for. -/
def ListOptions.show [DecimalText] (options : ListOptions) (rows : List ListRow) : ListOutput :=
  if options.format = "json" then .json rows
  else if rows.isEmpty then .text ["No records found."]
  else .text (tableLines rows)

end Quokka
