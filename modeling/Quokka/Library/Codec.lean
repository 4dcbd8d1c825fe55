import Mathlib.Data.List.Basic
import Mathlib.Tactic.Ring

/-!
# Binary formats

Little-endian integers, readers that consume a byte stream, and logs of fixed-width records.

A `Reader` follows `read_exact`: one that fails for lack of input leaves the stream at its end.
`Reads reader image value` says that the bytes `image` are read as `value` in front of any other
bytes; `Reads.bind` composes such facts along a reader, and `read_times_images` is the rule for
a counted table of them. `Yields reader p` says that the reader has values with `p` only.
`records_cons` and `records_flat_map` are the rules for a log.
-/

namespace Codec

/-! ## Little-endian integers -/

/-- The `width` low bytes of `value`, least significant first. -/
def leBytes : Nat → Nat → List UInt8
  | 0, _ => []
  | width + 1, value => UInt8.ofNat value :: leBytes width (value / 256)

/-- The value of little-endian bytes. -/
def leValue : List UInt8 → Nat
  | [] => 0
  | b :: rest => b.toNat + 256 * leValue rest

@[simp] theorem length_le_bytes (width value : Nat) : (leBytes width value).length = width := by
  induction width generalizing value with
  | zero => rfl
  | succ width ih => simp [leBytes, ih]

/-- Reading the bytes back gives the value modulo the width. -/
theorem le_value_le_bytes (width value : Nat) :
    leValue (leBytes width value) = value % 256 ^ width := by
  induction width generalizing value with
  | zero => simp [leBytes, leValue, Nat.mod_one]
  | succ width ih =>
      have hlow : (UInt8.ofNat value).toNat = value % 256 := UInt8.toNat_ofNat'
      rw [leBytes, leValue, ih, hlow, Nat.pow_succ', Nat.mod_mul]

/-- The eight bytes of a 64-bit integer. -/
def u64Bytes (value : UInt64) : List UInt8 :=
  leBytes 8 value.toNat

/-- The 64-bit integer of eight bytes. -/
def u64OfBytes (image : List UInt8) : UInt64 :=
  UInt64.ofNat (leValue image)

@[simp] theorem length_u64_bytes (value : UInt64) : (u64Bytes value).length = 8 :=
  length_le_bytes _ _

@[simp] theorem take_u64_bytes (value : UInt64) : (u64Bytes value).take 8 = u64Bytes value :=
  List.take_of_length_le (by simp)

@[simp] theorem u64_of_bytes_u64_bytes (value : UInt64) :
    u64OfBytes (u64Bytes value) = value := by
  have hlt : value.toNat < 256 ^ 8 := value.toNat_lt
  rw [u64OfBytes, u64Bytes, le_value_le_bytes, Nat.mod_eq_of_lt hlt, UInt64.ofNat_toNat]

/-! ## Readers -/

/-- A reader takes the remaining stream to a value, if there is one, and what is left. -/
def Reader (α : Type) := List UInt8 → Option α × List UInt8

namespace Reader

variable {α β : Type}

instance : Monad Reader where
  pure a := fun input => (some a, input)
  bind reader next := fun input =>
    match reader input with
    | (some a, rest) => next a rest
    | (none, rest) => (none, rest)

/-- A computation ends with the first reader that has no value. -/
theorem bind_of_none {reader : Reader α} {next : α → Reader β} {input rest : List UInt8}
    (h : reader input = (none, rest)) : (reader >>= next) input = (none, rest) := by
  show (match reader input with
    | (some a, rest) => next a rest
    | (none, rest) => (none, rest)) = _
  rw [h]

theorem bind_of_some {reader : Reader α} {next : α → Reader β} {input rest : List UInt8} {a : α}
    (h : reader input = (some a, rest)) : (reader >>= next) input = next a rest := by
  show (match reader input with
    | (some a, rest) => next a rest
    | (none, rest) => (none, rest)) = _
  rw [h]

/-- The reader that reads nothing and has no value. -/
def fail : Reader α := fun input => (none, input)

/-- A value that may be missing, without reading. -/
def ofOption (value : Option α) : Reader α := fun input => (value, input)

/-- `read_exact`: `count` bytes, or none and the end of the stream. -/
def exact (count : Nat) : Reader (List UInt8) := fun input =>
  if count ≤ input.length then (some (input.take count), input.drop count) else (none, [])

/-- Run a reader `count` times and collect what it read; a failure is skipped. -/
def times (reader : Reader α) : Nat → List UInt8 → List α × List UInt8
  | 0, input => ([], input)
  | count + 1, input =>
      let (value, rest) := reader input
      let (values, rest) := times reader count rest
      (value.toList ++ values, rest)

/-- Run a reader `count` times as one that always has a value. -/
def many (reader : Reader α) (count : Nat) : Reader (List α) := fun input =>
  let (values, rest) := times reader count input
  (some values, rest)

/-- The reader takes exactly `image` to `value`, whatever follows. -/
def Reads (reader : Reader α) (image : List UInt8) (value : α) : Prop :=
  ∀ rest, reader (image ++ rest) = (some value, rest)

theorem Reads.pure (value : α) : Reads (Pure.pure value : Reader α) [] value :=
  fun _ => rfl

/-- Reading in sequence consumes the images in sequence. -/
theorem Reads.bind {reader : Reader α} {next : α → Reader β} {first second : List UInt8} {a : α}
    {b : β} (hfirst : Reads reader first a) (hsecond : Reads (next a) second b) :
    Reads (reader >>= next) (first ++ second) b := by
  intro rest
  show (match reader (first ++ second ++ rest) with
    | (some a, rest) => next a rest
    | (none, rest) => (none, rest)) = _
  rw [List.append_assoc, hfirst]
  exact hsecond rest

/-- A last step that reads nothing. -/
theorem Reads.map {reader : Reader α} {f : α → β} {image : List UInt8} {a : α} {b : β}
    (h : Reads reader image a) (hf : f a = b) :
    Reads (reader >>= fun a => Pure.pure (f a)) image b := by
  have hmap : Reads (reader >>= fun a => Pure.pure (f a)) (image ++ []) (f a) :=
    Reads.bind h (Reads.pure (f a))
  rw [hf, List.append_nil] at hmap
  exact hmap

/-- `read_exact` of the image's own length reads the image. -/
theorem reads_exact {count : Nat} {image : List UInt8} (h : image.length = count) :
    Reads (exact count) image image := by
  intro rest
  subst h
  simp [exact]

theorem reads_of_option {value : Option α} {a : α} (h : value = some a) :
    Reads (ofOption value) [] a := by
  subst h
  exact fun _ => rfl

/-- Reading as often as there are images reads all of them. -/
theorem times_images {reader : Reader α} {image : β → List UInt8} {value : β → α}
    {items : List β} (h : ∀ item ∈ items, Reads reader (image item) (value item))
    (rest : List UInt8) :
    times reader items.length (items.flatMap image ++ rest) = (items.map value, rest) := by
  induction items with
  | nil => rfl
  | cons item items ih =>
      have hitem := h item List.mem_cons_self
      have hitems := ih fun other hother => h other (List.mem_cons_of_mem _ hother)
      simp [times, List.append_assoc, hitem _, hitems]

/-- Reading a known number of images. -/
theorem reads_many {reader : Reader α} {image : β → List UInt8} {value : β → α} {items : List β}
    (h : ∀ item ∈ items, Reads reader (image item) (value item)) {count : Nat}
    (hcount : items.length = count) :
    Reads (many reader count) (items.flatMap image) (items.map value) := by
  intro rest
  subst hcount
  simp only [many, times_images h]

/-- Every value that the reader can have satisfies `p`. -/
def Yields (reader : Reader α) (p : α → Prop) : Prop :=
  ∀ input a rest, reader input = (some a, rest) → p a

theorem Yields.bind {reader : Reader α} {next : α → Reader β} {p : α → Prop} {q : β → Prop}
    (h : Yields reader p) (hnext : ∀ a, p a → Yields (next a) q) : Yields (reader >>= next) q := by
  intro input b last hread
  have hcases : (match reader input with
    | (some a, rest) => next a rest
    | (none, rest) => (none, rest)) = (some b, last) := hread
  split at hcases
  case h_1 a rest hfirst => exact hnext a (h input a rest hfirst) rest b last hcases
  case h_2 => cases hcases

theorem Yields.map {reader : Reader α} {p : α → Prop} {q : β → Prop} {f : α → β}
    (h : Yields reader p) (hf : ∀ a, p a → q (f a)) :
    Yields (reader >>= fun a => Pure.pure (f a)) q :=
  h.bind fun a ha => by
    intro input b rest hread
    cases hread
    exact hf a ha

theorem yields_fail (p : α → Prop) : Yields fail p :=
  nofun

theorem yields_of_option (value : Option α) : Yields (ofOption value) fun a => value = some a := by
  intro input a rest hread
  cases hread
  rfl

theorem yields_exact (count : Nat) : Yields (exact count) fun image => image.length = count := by
  intro input image rest hread
  unfold exact at hread
  split at hread
  case isTrue hle =>
    cases hread
    exact List.length_take_of_le hle
  case isFalse => cases hread

/-- A reader that is run several times. -/
theorem Yields.times {reader : Reader α} {p : α → Prop} (h : Yields reader p) (count : Nat)
    (input : List UInt8) : ∀ a ∈ (times reader count input).1, p a := by
  induction count generalizing input with
  | zero => nofun
  | succ count ih =>
      intro a ha
      rcases List.mem_append.mp ha with hfirst | hrest
      · exact h input a _ (Prod.ext (Option.mem_toList.mp hfirst) rfl)
      · exact ih _ a hrest

theorem length_times_le (reader : Reader α) (count : Nat) (input : List UInt8) :
    (times reader count input).1.length ≤ count := by
  induction count generalizing input with
  | zero => exact Nat.le_refl 0
  | succ count ih =>
      have hrest := ih (reader input).2
      have hfirst : (reader input).1.toList.length ≤ 1 := by
        cases (reader input).1 <;> simp
      show ((reader input).1.toList ++ (times reader count (reader input).2).1).length ≤ count + 1
      rw [List.length_append]
      omega

/-- The reader never goes back. -/
def Shrinks (reader : Reader α) : Prop :=
  ∀ input, (reader input).2.length ≤ input.length

theorem Shrinks.bind {reader : Reader α} {next : α → Reader β} (h : Shrinks reader)
    (hnext : ∀ a, Shrinks (next a)) : Shrinks (reader >>= next) := by
  intro input
  have hfirst := h input
  show (match reader input with
    | (some a, rest) => next a rest
    | (none, rest) => (none, rest)).2.length ≤ _
  split
  case h_1 a rest heq =>
    rw [heq] at hfirst
    exact Nat.le_trans (hnext a rest) hfirst
  case h_2 rest heq =>
    rw [heq] at hfirst
    exact hfirst

theorem shrinks_pure (value : α) : Shrinks (Pure.pure value : Reader α) :=
  fun _ => Nat.le_refl _

theorem shrinks_fail : Shrinks (fail : Reader α) :=
  fun _ => Nat.le_refl _

theorem shrinks_of_option (value : Option α) : Shrinks (ofOption value) :=
  fun _ => Nat.le_refl _

theorem shrinks_exact (count : Nat) : Shrinks (exact count) := by
  intro input
  unfold exact
  split
  · simp
  · exact Nat.zero_le _

/-- What `read_exact` takes is no longer there. -/
theorem length_of_exact {count : Nat} {input image rest : List UInt8}
    (h : exact count input = (some image, rest)) : rest.length + count = input.length := by
  unfold exact at h
  split at h
  case isTrue hle =>
    cases h
    rw [List.length_drop]
    omega
  case isFalse => cases h

end Reader

/-! ## Logs of fixed-width records -/

/-- The whole records of a log; a shorter rest at the end is no record. -/
def records (width : Nat) (log : List UInt8) : List (List UInt8) :=
  (List.range (log.length / width)).map fun i => (log.drop (i * width)).take width

theorem records_cons {width : Nat} (hwidth : 0 < width) {image : List UInt8}
    (h : image.length = width) (rest : List UInt8) :
    records width (image ++ rest) = image :: records width rest := by
  have hcount : (image ++ rest).length / width = rest.length / width + 1 := by
    rw [List.length_append, h, Nat.add_comm, Nat.add_div_right _ hwidth]
  rw [records, hcount, List.range_succ_eq_map, List.map_cons, List.map_map]
  congr 1
  · simp [h]
  · refine List.map_congr_left fun i _ => ?_
    have hdrop : (i + 1) * width = image.length + i * width := by rw [h]; ring
    have hpast : image.drop (image.length + i * width) = [] :=
      List.drop_eq_nil_of_le (Nat.le_add_right _ _)
    simp [Function.comp, hdrop, List.drop_append, hpast]

/-- A log of images followed by anything has the images as its first records. -/
theorem records_flat_map {α : Type} {width : Nat} (hwidth : 0 < width) {image : α → List UInt8}
    {items : List α} (h : ∀ item ∈ items, (image item).length = width) (rest : List UInt8) :
    records width (items.flatMap image ++ rest) = items.map image ++ records width rest := by
  induction items with
  | nil => rfl
  | cons item items ih =>
      have hitems := ih fun other hother => h other (List.mem_cons_of_mem _ hother)
      rw [List.flatMap_cons, List.append_assoc,
        records_cons hwidth (h item List.mem_cons_self), hitems]
      rfl

/-- A log shorter than one record has none. -/
theorem records_of_length_lt {width : Nat} {log : List UInt8} (h : log.length < width) :
    records width log = [] := by
  simp [records, Nat.div_eq_of_lt h]

/-- Every record has its whole width. -/
theorem length_of_mem_records {width : Nat} {log image : List UInt8}
    (h : image ∈ records width log) : image.length = width := by
  obtain ⟨i, hi, rfl⟩ := List.mem_map.mp h
  have hfits : (i + 1) * width ≤ log.length :=
    Nat.le_trans (Nat.mul_le_mul_right width (List.mem_range.mp hi)) (Nat.div_mul_le_self _ _)
  rw [Nat.succ_mul] at hfits
  rw [List.length_take, List.length_drop]
  omega

end Codec
