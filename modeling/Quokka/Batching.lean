import Mathlib.Data.List.Sort

/-!
# Batching

Grouping a target's tests into actions, after `batching.rs`. Additions of weights are 64-bit;
`BuildProfile` says whether one that overflows panics or wraps. A computation that may panic is
a `MayPanic`, whose error is the panic's message.

`chunkFixedGeneric` is the balanced packing, `bucketGeneric` the grouping of short tests, and
`BatchMode.partition` the entry point.
-/

namespace Quokka

/-- A computation that returns or panics with a message. -/
abbrev MayPanic (α : Type) := Except String α

/-- How the program was built: with overflow checks an addition that does not fit panics,
without them it wraps. -/
structure BuildProfile where
  overflowChecks : Bool
  deriving DecidableEq, Repr

namespace BuildProfile

/-- `u64` addition. -/
def addU64 (profile : BuildProfile) (a b : UInt64) : MayPanic UInt64 :=
  if profile.overflowChecks && UInt64.size ≤ a.toNat + b.toNat then
    .error "attempt to add with overflow"
  else .ok (a + b)

/-- `u32` addition. -/
def addU32 (profile : BuildProfile) (a b : UInt32) : MayPanic UInt32 :=
  if profile.overflowChecks && UInt32.size ≤ a.toNat + b.toNat then
    .error "attempt to add with overflow"
  else .ok (a + b)

/-- An addition that fits never panics. -/
theorem add_u64_of_lt (profile : BuildProfile) {a b : UInt64}
    (h : a.toNat + b.toNat < UInt64.size) : profile.addU64 a b = .ok (a + b) := by
  simp [addU64, Nat.not_le.mpr h]

/-- An addition that fits never panics. -/
theorem add_u32_of_lt (profile : BuildProfile) {a b : UInt32}
    (h : a.toNat + b.toNat < UInt32.size) : profile.addU32 a b = .ok (a + b) := by
  simp [addU32, Nat.not_le.mpr h]

end BuildProfile

/-- A chunk size of at least one. -/
abbrev NonZeroUsize := {n : Nat // n ≠ 0}

/-- How tests within a target are grouped into actions. -/
inductive BatchMode where
  | perTest
  | durationBucketed (p50LtMs : UInt64)
  | fixedChunk (size : NonZeroUsize)
  | target
  deriving DecidableEq

/-- What to do when a batch fails to attribute a result to every member. -/
inductive BatchFailurePolicy where
  | failAll
  | rerunPerTestToIsolate
  deriving DecidableEq, Repr

/-- Largest number of tests collapsed into one bucketed action. -/
def maxBatch : Nat := 64

/-- The subset of a target's tests to execute in a single action. -/
inductive TestSelection (α : Type) where
  | all
  | explicit (tests : List α)
  deriving DecidableEq

/-- The same selection with every test renamed. -/
def TestSelection.map {α β : Type} (f : α → β) : TestSelection α → TestSelection β
  | .all => .all
  | .explicit tests => .explicit (tests.map f)

/-- An item for batching: its weight and its typical duration. -/
class Batchable (α : Type) where
  weightMs : α → UInt64
  p50Ms : α → UInt64

section Chunks

variable {α : Type}

/-- Entries of the heap order by weight, then by chunk index. -/
def heapLe (first second : UInt64 × Nat) : Bool :=
  first.1 < second.1 || (first.1 == second.1 && first.2 ≤ second.2)

/-- Pop the least entry of a heap. -/
def popMin : List (UInt64 × Nat) → Option ((UInt64 × Nat) × List (UInt64 × Nat))
  | [] => none
  | entry :: heap =>
      match popMin heap with
      | none => some (entry, [])
      | some (least, rest) =>
          if heapLe entry least then some (entry, heap) else some (least, entry :: rest)

/-- The chunks built so far and the chunks that still have room, with their weights. -/
structure Packing (α : Type) where
  chunks : List (List α)
  heap : List (UInt64 × Nat)

/-- Put one item into the lightest chunk that has room. -/
def packItem (profile : BuildProfile) (size : Nat) (weightFn : α → UInt64)
    (packing : Packing α) (input : α) : MayPanic (Packing α) := do
  let some ((weight, idx), heap) := popMin packing.heap
    | .error "a non-full chunk is always available"
  let chunks := packing.chunks.modify idx (· ++ [input])
  if (chunks.getD idx []).length < size then
    let newWeight ← profile.addU64 weight (weightFn input)
    pure ⟨chunks, (newWeight, idx) :: heap⟩
  else
    pure ⟨chunks, heap⟩

/-- Items in descending order of weight; equal weights keep their order. -/
def byWeight (weightFn : α → UInt64) (items : List α) : List α :=
  items.insertionSort fun a b => weightFn b ≤ weightFn a

/-- Group items into balanced chunks of at most `size` members. -/
def chunkFixedGeneric (profile : BuildProfile) (items : List α) (size : NonZeroUsize)
    (weightFn : α → UInt64) : MayPanic (List (List α)) :=
  if items.isEmpty then .ok []
  else
    let numChunks := (items.length + size.val - 1) / size.val
    let start : Packing α :=
      ⟨List.replicate numChunks [], (List.range numChunks).map fun i => (0, i)⟩
    ((byWeight weightFn items).foldlM (packItem profile size.val weightFn) start).map
      Packing.chunks

/-- Group small items up to `maxBatch` in order, keeping every large item alone; `current` is
the open batch. -/
def bucketGeneric (maxBatch : Nat) (isSmall : α → Bool) : List α → List α → List (List α)
  | current, [] => if current.isEmpty then [] else [current]
  | current, input :: items =>
      if isSmall input then
        let current := current ++ [input]
        if maxBatch ≤ current.length then current :: bucketGeneric maxBatch isSmall [] items
        else bucketGeneric maxBatch isSmall current items
      else if current.isEmpty then [input] :: bucketGeneric maxBatch isSmall [] items
      else current :: [input] :: bucketGeneric maxBatch isSmall [] items

/-- Partition a list of tests into batched actions. -/
def BatchMode.partition [Batchable α] (mode : BatchMode) (profile : BuildProfile)
    (tests : List α) : MayPanic (List (TestSelection α)) :=
  match mode with
  | .perTest => .ok (tests.map fun t => .explicit [t])
  | .target => .ok [.all]
  | .durationBucketed p50LtMs =>
      .ok ((bucketGeneric maxBatch (fun t => Batchable.p50Ms t < p50LtMs) [] tests).map
        .explicit)
  | .fixedChunk size =>
      (chunkFixedGeneric profile tests size Batchable.weightMs).map (·.map .explicit)

end Chunks

end Quokka
