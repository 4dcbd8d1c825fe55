import Quokka.Library.WeakestPre
import Mathlib.Logic.Function.Basic

/-!
# Files whose operations may fail

A `Disk` maps names to entries and says of the operations to come which of them fail. A failing
operation changes nothing, except that a write leaves a part of what it was to write and a copy
a part of the copy. `Io` programs use the operations; there is one rule of weakest
preconditions for each, which covers its success and all its failures.
-/

open Fallible

/-- What a name stands for. -/
inductive DiskEntry where
  | file (content : List UInt8)
  | directory
  deriving DecidableEq, Repr

/-- An operation that fails. `left` is how many bytes a write or a copy leaves in the file that
it writes, if it touches that file at all. -/
structure Fault where
  message : String
  left : Option Nat
  deriving DecidableEq, Repr

/-- The error of an operation. -/
inductive IoError where
  | notFound
  | other (message : String)
  deriving DecidableEq, Repr

/-- The text of an error. -/
def IoError.text : IoError → String
  | .notFound => "No such file or directory (os error 2)"
  | .other message => message

/-- The entries, and the outcomes of the operations to come; past the end they succeed. -/
structure Disk (Name : Type) where
  entry : Name → Option DiskEntry
  faults : List (Option Fault)

/-- Programs over a disk. -/
abbrev Io (Name : Type) := EStateM IoError (Disk Name)

namespace Io

open Function

variable {Name α : Type}

/-- One operation: it does what `act` says, unless it fails and leaves what `wreck` says. -/
def operation (wreck : Fault → (Name → Option DiskEntry) → Name → Option DiskEntry)
    (act : (Name → Option DiskEntry) → Except IoError (α × (Name → Option DiskEntry))) :
    Io Name α := fun disk =>
  match disk.faults with
  | some fault :: rest => .error (.other fault.message) ⟨wreck fault disk.entry, rest⟩
  | faults =>
      match act disk.entry with
      | .ok (value, entry) => .ok value ⟨entry, faults.tail⟩
      | .error error => .error error ⟨disk.entry, faults.tail⟩

/-- An operation fails as it is told to, or acts. -/
theorem wp_operation {post : α → Disk Name → Prop} {fail : IoError → Disk Name → Prop}
    {disk : Disk Name}
    {wreck : Fault → (Name → Option DiskEntry) → Name → Option DiskEntry}
    {act : (Name → Option DiskEntry) → Except IoError (α × (Name → Option DiskEntry))}
    (hfault : ∀ fault faults, fail (.other fault.message) ⟨wreck fault disk.entry, faults⟩)
    (hact : ∀ value entry faults, act disk.entry = .ok (value, entry) → post value ⟨entry, faults⟩)
    (herror : ∀ error faults, act disk.entry = .error error → fail error ⟨disk.entry, faults⟩) :
    wp (operation wreck act) post fail disk := by
  unfold wp operation
  rcases disk with ⟨entry, faults⟩
  match faults with
  | some fault :: rest => exact hfault fault rest
  | none :: rest | [] =>
      cases hrun : act entry with
      | ok out => simpa [hrun] using hact out.1 out.2 _ hrun
      | error error => simpa [hrun] using herror error _ hrun

/-- A failure that leaves everything as it was. -/
def untouched (_ : Fault) (entry : Name → Option DiskEntry) : Name → Option DiskEntry := entry

variable {done : Unit → Disk Name → Prop} {fail : IoError → Disk Name → Prop} {disk : Disk Name}
  {name source target : Name}

/-- An operation without a visible effect: creating the directory, syncing it or an open file. -/
def settle : Io Name Unit :=
  operation untouched fun entry => .ok ((), entry)

/-- An operation without a visible effect. -/
theorem wp_settle (hdone : ∀ faults, done () ⟨disk.entry, faults⟩)
    (hfail : ∀ error faults, fail error ⟨disk.entry, faults⟩) : wp settle done fail disk := by
  refine wp_operation (fun fault faults => hfail _ faults) ?_ (fun error faults _ => hfail _ faults)
  rintro value entry faults ⟨⟩
  exact hdone faults

/-- Open a file and sync it. -/
def syncFile (name : Name) : Io Name Unit :=
  operation untouched fun entry =>
    match entry name with
    | some _ => .ok ((), entry)
    | none => .error .notFound

/-- A sync leaves all entries as they are. -/
theorem wp_sync_file (hdone : ∀ faults, done () ⟨disk.entry, faults⟩)
    (hfail : ∀ error faults, fail error ⟨disk.entry, faults⟩) :
    wp (syncFile name) done fail disk := by
  refine wp_operation (fun fault faults => hfail _ faults) ?_ (fun error faults _ => hfail _ faults)
  intro value entry faults hact
  split at hact
  · cases hact; exact hdone faults
  · cases hact

/-- Whether a name stands for a file. -/
def isFile (name : Name) : Io Name Bool :=
  operation untouched fun entry =>
    match entry name with
    | some (.file _) => .ok (true, entry)
    | some .directory => .ok (false, entry)
    | none => .error .notFound

/-- A look at a name. -/
theorem wp_is_file {post : Bool → Disk Name → Prop}
    (hfile : ∀ content faults, disk.entry name = some (.file content) →
      post true ⟨disk.entry, faults⟩)
    (hother : ∀ faults, post false ⟨disk.entry, faults⟩)
    (hmissing : ∀ faults, disk.entry name = none → fail .notFound ⟨disk.entry, faults⟩)
    (hfail : ∀ message faults, fail (.other message) ⟨disk.entry, faults⟩) :
    wp (isFile name) post fail disk := by
  refine wp_operation (fun fault faults => hfail _ faults) ?_ ?_
  · intro value entry faults hact
    split at hact
    · cases hact; exact hfile _ faults ‹_›
    · cases hact; exact hother faults
    · cases hact
  · intro error faults hact
    split at hact
    · cases hact
    · cases hact
    · cases hact; exact hmissing faults ‹_›

variable [DecidableEq Name]

/-- Create a file that must not exist. -/
def createNew (name : Name) : Io Name Unit :=
  operation untouched fun entry =>
    match entry name with
    | some _ => .error (.other "File exists (os error 17)")
    | none => .ok ((), update entry name (some (.file [])))

/-- A new file is empty, and its name was free. -/
theorem wp_create_new
    (hdone : ∀ faults, disk.entry name = none →
      done () ⟨update disk.entry name (some (.file [])), faults⟩)
    (hfail : ∀ error faults, fail error ⟨disk.entry, faults⟩) :
    wp (createNew name) done fail disk := by
  refine wp_operation (fun fault faults => hfail _ faults) ?_ (fun error faults _ => hfail _ faults)
  intro value entry faults hact
  split at hact
  · cases hact
  · cases hact; exact hdone faults ‹_›

/-- Write at the end of an open file. -/
def writeAll (name : Name) (bytes : List UInt8) : Io Name Unit :=
  let write (bytes : List UInt8) (entry : Name → Option DiskEntry) :=
    match entry name with
    | some (.file content) => update entry name (some (.file (content ++ bytes)))
    | _ => entry
  operation (fun fault => write (bytes.take (fault.left.getD 0))) fun entry =>
    .ok ((), write bytes entry)

/-- A write extends the file by its bytes, or by some of them when it fails. -/
theorem wp_write_all {content bytes : List UInt8} (hfile : disk.entry name = some (.file content))
    (hdone : ∀ faults, done () ⟨update disk.entry name (some (.file (content ++ bytes))), faults⟩)
    (hfail : ∀ error torn faults, fail error ⟨update disk.entry name (some (.file torn)), faults⟩) :
    wp (writeAll name bytes) done fail disk := by
  unfold writeAll
  simp only
  refine wp_operation ?_ ?_ nofun
  · intro fault faults
    simp only [hfile]
    exact hfail _ _ faults
  · rintro value entry faults ⟨⟩
    simp only [hfile]
    exact hdone faults

/-- Copy a file, over what the copy's name stood for. -/
def copy (source target : Name) : Io Name Unit :=
  let torn (fault : Fault) (entry : Name → Option DiskEntry) :=
    match entry source, entry target, fault.left with
    | some (.file content), some (.file _), some left
    | some (.file content), none, some left =>
        update entry target (some (.file (content.take left)))
    | _, _, _ => entry
  operation torn fun entry =>
    match entry source, entry target with
    | none, _ => .error .notFound
    | some .directory, _ =>
        .error (.other ("the source path is neither a regular file " ++
          "nor a symlink to a regular file"))
    | _, some .directory => .error (.other "Is a directory (os error 21)")
    | some (.file content), _ => .ok ((), update entry target (some (.file content)))

/-- A copy has the content of its source; a copy that fails touches nothing else. -/
theorem wp_copy
    (hdone : ∀ content faults, disk.entry source = some (.file content) →
      done () ⟨update disk.entry target (some (.file content)), faults⟩)
    (hfail : ∀ error torn faults, fail error ⟨update disk.entry target torn, faults⟩) :
    wp (copy source target) done fail disk := by
  have hsame : ∀ error faults, fail error ⟨disk.entry, faults⟩ := by
    intro error faults
    have h := hfail error (disk.entry target) faults
    rwa [update_eq_self] at h
  unfold copy
  simp only
  refine wp_operation ?_ ?_ (fun error faults _ => hsame error faults)
  · intro fault faults
    split
    · exact hfail _ _ faults
    · exact hfail _ _ faults
    · exact hsame _ faults
  · intro value entry faults hact
    split at hact <;> cases hact
    exact hdone _ faults ‹_›

/-- Rename a file, over what the new name stood for. -/
def rename (source target : Name) : Io Name Unit :=
  operation untouched fun entry =>
    match entry source, entry target with
    | none, _ => .error .notFound
    | some (.file _), some .directory => .error (.other "Is a directory (os error 21)")
    | some .directory, some (.file _) => .error (.other "Not a directory (os error 20)")
    | some moved, _ => .ok ((), update (update entry source none) target (some moved))

/-- A rename moves the entry. -/
theorem wp_rename
    (hdone : ∀ moved faults, disk.entry source = some moved →
      done () ⟨update (update disk.entry source none) target (some moved), faults⟩)
    (hfail : ∀ error faults, fail error ⟨disk.entry, faults⟩) :
    wp (rename source target) done fail disk := by
  refine wp_operation (fun fault faults => hfail _ faults) ?_ (fun error faults _ => hfail _ faults)
  intro value entry faults hact
  split at hact <;> cases hact
  exact hdone _ faults ‹_›

/-- Remove a file. -/
def removeFile (name : Name) : Io Name Unit :=
  operation untouched fun entry =>
    match entry name with
    | none => .error .notFound
    | some .directory => .error (.other "Is a directory (os error 21)")
    | some (.file _) => .ok ((), update entry name none)

/-- A removal; the file may be missing. -/
theorem wp_remove_file
    (hdone : ∀ faults, done () ⟨update disk.entry name none, faults⟩)
    (hmissing : ∀ faults, disk.entry name = none → fail .notFound ⟨disk.entry, faults⟩)
    (hfail : ∀ message faults, fail (.other message) ⟨disk.entry, faults⟩) :
    wp (removeFile name) done fail disk := by
  refine wp_operation (fun fault faults => hfail _ faults) ?_ ?_
  · intro value entry faults hact
    split at hact <;> cases hact
    exact hdone faults
  · intro error faults hact
    split at hact <;> cases hact
    · exact hmissing faults ‹_›
    · exact hfail _ faults

end Io
