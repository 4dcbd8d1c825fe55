import Mathlib.Logic.Function.Basic

/-!
# Files that stay open

A directory whose names refer to files by number. Opening a name gives the number of its file, and
a file is written by its number: it can be written although its name has been removed, and two
that open one name write the same file. No two names refer to one file.

For each operation: what it does to its own name or file, and that it leaves the others alone.
-/

/-- The names of a directory and the contents of the files. -/
structure OpenFiles (ν : Type) where
  file : ν → Option Nat
  contents : Nat → List UInt8
  fresh : Nat
  file_lt : ∀ name n, file name = some n → n < fresh
  file_inj : ∀ name other n, file name = some n → file other = some n → name = other

namespace OpenFiles

variable {ν : Type} [DecidableEq ν] (files : OpenFiles ν) {name other : ν}

/-- What is read at a name. -/
def read (name : ν) : Option (List UInt8) :=
  (files.file name).map files.contents

/-- Replace the contents of a file. -/
def replace (n : Nat) (bytes : List UInt8) : OpenFiles ν :=
  { files with contents := Function.update files.contents n bytes }

/-- A new empty file. -/
def create (name : ν) : OpenFiles ν where
  file := Function.update files.file name (some files.fresh)
  contents := Function.update files.contents files.fresh []
  fresh := files.fresh + 1
  file_lt other n h := by
    by_cases hname : other = name
    · subst hname
      rw [Function.update_self] at h
      cases h
      exact Nat.lt_succ_self _
    · rw [Function.update_of_ne hname] at h
      exact Nat.lt_succ_of_lt (files.file_lt other n h)
  file_inj a b n ha hb := by
    by_cases hname : a = name
    · by_cases hname' : b = name
      · rw [hname, hname']
      · rw [hname, Function.update_self] at ha
        rw [Function.update_of_ne hname'] at hb
        cases ha
        exact absurd (files.file_lt b _ hb) (Nat.lt_irrefl _)
    · rw [Function.update_of_ne hname] at ha
      by_cases hname' : b = name
      · rw [hname', Function.update_self] at hb
        cases hb
        exact absurd (files.file_lt a _ ha) (Nat.lt_irrefl _)
      · rw [Function.update_of_ne hname'] at hb
        exact files.file_inj a b n ha hb

/-- Open a name for writing: the file there is truncated, or a new one is made. -/
def openTruncated (name : ν) : OpenFiles ν × Nat :=
  match files.file name with
  | some n => (files.replace n [], n)
  | none => (files.create name, files.fresh)

/-- Write at the start of a file. -/
def overwrite (n : Nat) (bytes : List UInt8) : OpenFiles ν :=
  files.replace n (bytes ++ (files.contents n).drop bytes.length)

/-- Remove a name; its file is not reached by a name any more. -/
def unlink (name : ν) : OpenFiles ν :=
  { files with
    file := Function.update files.file name none
    file_lt := fun other n h => by
      by_cases hname : other = name
      · rw [hname, Function.update_self] at h
        cases h
      · rw [Function.update_of_ne hname] at h
        exact files.file_lt other n h
    file_inj := fun a b n ha hb => by
      by_cases hname : a = name
      · rw [hname, Function.update_self] at ha
        cases ha
      · by_cases hname' : b = name
        · rw [hname', Function.update_self] at hb
          cases hb
        · rw [Function.update_of_ne hname] at ha
          rw [Function.update_of_ne hname'] at hb
          exact files.file_inj a b n ha hb }

/-! ## Opening -/

theorem file_open_self :
    (files.openTruncated name).1.file name = some (files.openTruncated name).2 := by
  unfold openTruncated
  cases hfile : files.file name with
  | some n => exact hfile
  | none => exact Function.update_self name _ files.file

theorem file_open_ne (h : other ≠ name) :
    (files.openTruncated name).1.file other = files.file other := by
  unfold openTruncated
  cases files.file name with
  | some n => rfl
  | none => exact Function.update_of_ne h _ files.file

/-- A file that was there stays the file of its name. -/
theorem file_open_of_some {n : Nat} (h : files.file name = some n) :
    (files.openTruncated name).1.file name = some n := by
  unfold openTruncated
  rw [h]
  exact h

theorem read_open_self : (files.openTruncated name).1.read name = some [] := by
  unfold read
  rw [file_open_self]
  refine congrArg some ?_
  unfold openTruncated
  cases files.file name with
  | some n => exact Function.update_self n _ files.contents
  | none => exact Function.update_self files.fresh _ files.contents

theorem read_open_ne (h : other ≠ name) :
    (files.openTruncated name).1.read other = files.read other := by
  unfold read
  rw [files.file_open_ne h]
  cases hother : files.file other with
  | none => rfl
  | some m =>
      refine congrArg some ?_
      unfold openTruncated
      cases hname : files.file name with
      | some n =>
          refine Function.update_of_ne (fun hsame => ?_) _ files.contents
          exact h (files.file_inj other name n (hsame ▸ hother) hname)
      | none =>
          exact Function.update_of_ne (Nat.ne_of_lt (files.file_lt other m hother)) _ files.contents

/-! ## Writing -/

omit [DecidableEq ν] in
theorem file_overwrite (n : Nat) (bytes : List UInt8) :
    (files.overwrite n bytes).file = files.file := rfl

omit [DecidableEq ν] in
/-- Writing a whole text into a file that holds nothing or the same text. -/
theorem read_overwrite_self {n : Nat} {bytes old : List UInt8} (h : files.file name = some n)
    (hread : files.read name = some old) (hold : old = [] ∨ old = bytes) :
    (files.overwrite n bytes).read name = some bytes := by
  have hcontents : files.contents n = old := by
    unfold read at hread
    rw [h] at hread
    exact Option.some.inj hread
  unfold read
  rw [file_overwrite, h]
  refine congrArg some ((Function.update_self n _ files.contents).trans ?_)
  rw [hcontents]
  rcases hold with rfl | rfl
  · rw [List.drop_nil, List.append_nil]
  · rw [List.drop_length, List.append_nil]

omit [DecidableEq ν] in
theorem read_overwrite_ne {n : Nat} {bytes : List UInt8} (hname : files.file name = some n)
    (h : other ≠ name) : (files.overwrite n bytes).read other = files.read other := by
  unfold read
  rw [file_overwrite]
  cases hother : files.file other with
  | none => rfl
  | some m =>
      refine congrArg some (Function.update_of_ne (fun hsame => ?_) _ files.contents)
      exact h (files.file_inj other name n (hsame ▸ hother) hname)

/-! ## Removing -/

theorem file_unlink_ne (h : other ≠ name) : (files.unlink name).file other = files.file other :=
  Function.update_of_ne h _ files.file

theorem read_unlink_ne (h : other ≠ name) : (files.unlink name).read other = files.read other := by
  unfold read
  rw [files.file_unlink_ne h]
  rfl

end OpenFiles
