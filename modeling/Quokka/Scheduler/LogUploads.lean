import Quokka.Library.OpenFiles
import Quokka.Scheduler.Details

/-!
# Uploading logs in parallel

Long logs are written to a temporary file, uploaded, and the file is removed, after
`upload_details_to_cas` of `scheduler.rs`. Many calls run at once in one process, each in four
steps. The file is named after the process and a hash of the log, so that calls with equal logs
share one file, which each of them truncates and removes.

A step is `Undisturbed` if it does not meet another call on the same file at a point where that
matters. In a run of undisturbed steps every call uploads its own log (`uploads_isolated_when`).
-/

namespace Quokka

/-- The temporary file of a log. -/
def tempFile (tempDir : String) (processId : Nat) (details : String) : String :=
  tempDir ++ "/brtr-log-" ++ toString processId ++ "-" ++
    toString (fnv1a (Text.bytes details)).toNat ++ ".txt"

/-- The next step of a call. -/
inductive UploadPc where
  | create
  | write (file : Nat)
  | upload
  | remove (outcome : UploadOutcome)
  | returned (outcome : UploadOutcome)
  deriving DecidableEq, Repr

/-- What a step meets: it succeeds, for an upload with a digest, or it fails, for a write after
some bytes. -/
inductive UploadIo where
  | ok (hash : String) (sizeBytes : Int)
  | failed (error : String) (written : Nat)
  deriving DecidableEq, Repr

/-- The temporary directory and the calls of one process. The last two fields record what has
happened: the bytes that were uploaded, and the calls whose file was not there. -/
structure UploadState (ι : Type) where
  files : OpenFiles String
  pc : ι → UploadPc
  uploads : List (ι × List UInt8)
  missing : List ι

/-- The error of an upload that does not find its file. -/
def missingFile : String := "No such file or directory (os error 2)"

/-- The call has opened its file and not uploaded it yet. -/
def UploadPc.Pending (pc : UploadPc) : Prop :=
  (∃ file, pc = .write file) ∨ pc = .upload

namespace UploadState

variable {ι : Type} [DecidableEq ι] (path : ι → String) (text : ι → List UInt8)

/-- Calls that have not started. -/
def initial (files : OpenFiles String) : UploadState ι where
  files
  pc _ := .create
  uploads := []
  missing := []

/-- One step of a call. -/
def step (s : UploadState ι) (i : ι) (io : UploadIo) : UploadState ι :=
  match s.pc i with
  | .create =>
      match io with
      | .ok _ _ =>
          { s with
            files := (s.files.openTruncated (path i)).1
            pc := Function.update s.pc i (.write (s.files.openTruncated (path i)).2) }
      | .failed error _ => { s with pc := Function.update s.pc i (.returned (.skipped error)) }
  | .write file =>
      match io with
      | .ok _ _ =>
          { s with
            files := s.files.overwrite file (text i)
            pc := Function.update s.pc i .upload }
      | .failed error written =>
          { s with
            files := s.files.overwrite file ((text i).take written)
            pc := Function.update s.pc i (.returned (.skipped error)) }
  | .upload =>
      match s.files.read (path i) with
      | none =>
          { s with
            pc := Function.update s.pc i (.remove (.failed missingFile))
            missing := s.missing ++ [i] }
      | some bytes =>
          match io with
          | .ok hash sizeBytes =>
              { s with
                pc := Function.update s.pc i (.remove (.uploaded hash sizeBytes))
                uploads := s.uploads ++ [(i, bytes)] }
          | .failed error _ => { s with pc := Function.update s.pc i (.remove (.failed error)) }
  | .remove outcome =>
      -- A file that cannot be removed is reported on standard error only.
      { s with
        files :=
          match io with
          | .ok _ _ => s.files.unlink (path i)
          | .failed _ _ => s.files
        pc := Function.update s.pc i (.returned outcome) }
  | .returned _ => s

/-- The steps of the calls in some order. -/
def run (s : UploadState ι) (steps : List (ι × UploadIo)) : UploadState ι :=
  steps.foldl (fun s (i, io) => s.step path text i io) s

/-- The step does not meet another call on its file at a point where that matters: a call that
creates its file meets no pending one with another log, one that uploads meets none that has
still to write, and one that removes its file, or fails to write it, meets no pending one. -/
def Undisturbed (s : UploadState ι) (i : ι) (io : UploadIo) : Prop :=
  ∀ j, j ≠ i → path j = path i →
    match s.pc i, io with
    | .create, .ok _ _ => text j ≠ text i → ¬(s.pc j).Pending
    | .write _, .failed _ _ => ¬(s.pc j).Pending
    | .upload, .ok _ _ => ∀ file, s.pc j ≠ .write file
    | .remove _, .ok _ _ => ¬(s.pc j).Pending
    | _, _ => True

/-- Every step of a run is undisturbed. -/
def UndisturbedRun (s : UploadState ι) : List (ι × UploadIo) → Prop
  | [] => True
  | (i, io) :: steps =>
      s.Undisturbed path text i io ∧ UndisturbedRun (s.step path text i io) steps

/-- Every call that has a digest uploaded its own log, and none has missed its file. -/
structure Isolated (s : UploadState ι) : Prop where
  own : ∀ i bytes, (i, bytes) ∈ s.uploads → bytes = text i
  uploaded : ∀ i hash sizeBytes, s.pc i = .returned (.uploaded hash sizeBytes) →
    (i, text i) ∈ s.uploads
  found : s.missing = []

/-- What holds of the files in a run of undisturbed steps: pending calls on one file have one
log, the file is there, and it holds the log unless a call has still to write it. -/
structure Consistent (files : OpenFiles String) (pc : ι → UploadPc) : Prop where
  opened : ∀ i file, pc i = .write file → files.file (path i) = some file
  alike : ∀ i j, path i = path j → (pc i).Pending → (pc j).Pending → text i = text j
  clean : ∀ i, (pc i).Pending →
    ∃ bytes, files.read (path i) = some bytes ∧ (bytes = [] ∨ bytes = text i)
  complete : ∀ i, pc i = .upload → files.read (path i) = some (text i) ∨
    ∃ j file, j ≠ i ∧ path j = path i ∧ pc j = .write file

/-- What holds of the history. -/
structure Truthful (s : UploadState ι) : Prop where
  own : ∀ i bytes, (i, bytes) ∈ s.uploads → bytes = text i
  uploaded : ∀ i hash sizeBytes, (s.pc i = .remove (.uploaded hash sizeBytes) ∨
    s.pc i = .returned (.uploaded hash sizeBytes)) → (i, text i) ∈ s.uploads
  found : s.missing = []

variable {path text} {files next : OpenFiles String} {pc : ι → UploadPc} {i : ι}

/-! ## One step -/

theorem pending_write (file : Nat) : (UploadPc.write file).Pending :=
  .inl ⟨file, rfl⟩

theorem pending_upload : UploadPc.upload.Pending :=
  .inr rfl

theorem not_pending_remove (outcome : UploadOutcome) : ¬(UploadPc.remove outcome).Pending :=
  fun h => h.elim (fun ⟨_, h⟩ => nomatch h) nofun

theorem not_pending_returned (outcome : UploadOutcome) : ¬(UploadPc.returned outcome).Pending :=
  fun h => h.elim (fun ⟨_, h⟩ => nomatch h) nofun

/-- A call that goes on to a place where it is not pending leaves the other pending calls. -/
theorem pending_of_update {new : UploadPc} (hnew : ¬new.Pending) {k : ι}
    (hk : (Function.update pc i new k).Pending) : k ≠ i ∧ (pc k).Pending := by
  by_cases hki : k = i
  · subst hki
    rw [Function.update_self] at hk
    exact absurd hk hnew
  · rw [Function.update_of_ne hki] at hk
    exact ⟨hki, hk⟩

/-- A call that goes on is not the one that has still to write another file. -/
theorem Consistent.complete_ne (h : Consistent path text files pc) {k : ι}
    (hpath : path k ≠ path i) (hk : pc k = .upload) (new : UploadPc) :
    files.read (path k) = some (text k) ∨
      ∃ j file, j ≠ k ∧ path j = path k ∧ Function.update pc i new j = .write file := by
  refine (h.complete k hk).imp id fun hwriting => ?_
  obtain ⟨j, file, hjk, hjpath, hj⟩ := hwriting
  have hji : j ≠ i := fun heq => hpath (hjpath.symm.trans (congrArg path heq))
  exact ⟨j, file, hjk, hjpath, by rwa [Function.update_of_ne hji]⟩

/-- A call leaves its file: the others on it are not pending, or it changes nothing. -/
theorem Consistent.leave (h : Consistent path text files pc) {new : UploadPc}
    (hnew : ¬new.Pending)
    (hothers : ∀ name, name ≠ path i → next.file name = files.file name ∧
      next.read name = files.read name)
    (halone : ∀ j, j ≠ i → path j = path i → ¬(pc j).Pending) :
    Consistent path text next (Function.update pc i new) := by
  have hpending : ∀ k, (Function.update pc i new k).Pending →
      k ≠ i ∧ (pc k).Pending ∧ path k ≠ path i := by
    intro k hk
    obtain ⟨hki, hold⟩ := pending_of_update hnew hk
    exact ⟨hki, hold, fun hpath => halone k hki hpath hold⟩
  refine ⟨fun k file hk => ?_, fun k j hpath hk hj => ?_, fun k hk => ?_, fun k hk => ?_⟩
  · obtain ⟨hki, -, hpath⟩ := hpending k (hk ▸ pending_write file)
    rw [Function.update_of_ne hki] at hk
    rw [(hothers _ hpath).1]
    exact h.opened k file hk
  · exact h.alike k j hpath (hpending k hk).2.1 (hpending j hj).2.1
  · obtain ⟨-, hold, hpath⟩ := hpending k hk
    rw [(hothers _ hpath).2]
    exact h.clean k hold
  · obtain ⟨hki, -, hpath⟩ := hpending k (hk ▸ pending_upload)
    rw [Function.update_of_ne hki] at hk
    rw [(hothers _ hpath).2]
    exact h.complete_ne hpath hk new

/-- A call that is not writing goes on without touching a file. -/
theorem Consistent.pass (h : Consistent path text files pc) {new : UploadPc}
    (hnew : ¬new.Pending) (hold : ∀ file, pc i ≠ .write file) :
    Consistent path text files (Function.update pc i new) := by
  have hpending : ∀ k, (Function.update pc i new k).Pending → k ≠ i ∧ (pc k).Pending :=
    fun _ => pending_of_update hnew
  refine ⟨fun k file hk => ?_, fun k j hpath hk hj => ?_, fun k hk => ?_, fun k hk => ?_⟩
  · obtain ⟨hki, -⟩ := hpending k (hk ▸ pending_write file)
    rw [Function.update_of_ne hki] at hk
    exact h.opened k file hk
  · exact h.alike k j hpath (hpending k hk).2 (hpending j hj).2
  · exact h.clean k (hpending k hk).2
  · obtain ⟨hki, -⟩ := hpending k (hk ▸ pending_upload)
    rw [Function.update_of_ne hki] at hk
    refine (h.complete k hk).imp id fun ⟨j, file, hjk, hjpath, hj⟩ => ?_
    have hji : j ≠ i := fun heq => hold file (heq ▸ hj)
    exact ⟨j, file, hjk, hjpath, by rwa [Function.update_of_ne hji]⟩

/-- A call creates its file, where pending calls have the same log. -/
theorem Consistent.create (h : Consistent path text files pc) (hold : pc i = .create)
    (halike : ∀ j, j ≠ i → path j = path i → text j ≠ text i → ¬(pc j).Pending) :
    Consistent path text (files.openTruncated (path i)).1
      (Function.update pc i (.write (files.openTruncated (path i)).2)) := by
  have hsame : ∀ j, path j = path i → (Function.update pc i
      (.write (files.openTruncated (path i)).2) j).Pending → text j = text i := by
    intro j hpath hj
    by_cases hji : j = i
    · rw [hji]
    · rw [Function.update_of_ne hji] at hj
      by_contra hne
      exact halike j hji hpath hne hj
  have hothers : ∀ k, path k ≠ path i → Function.update pc i
      (.write (files.openTruncated (path i)).2) k = pc k := by
    intro k hpath
    exact Function.update_of_ne (fun heq => hpath (congrArg path heq)) _ pc
  -- Opening truncates the file; the other pending calls on it have the same log.
  refine ⟨fun k file hk => ?_, fun k j hpath hk hj => ?_, fun k hk => ?_, fun k hk => ?_⟩
  · by_cases hpath : path k = path i
    · by_cases hki : k = i
      · subst hki
        rw [Function.update_self] at hk
        cases hk
        exact files.file_open_self
      · rw [Function.update_of_ne hki] at hk
        rw [hpath]
        exact files.file_open_of_some (hpath ▸ h.opened k file hk)
    · rw [hothers k hpath] at hk
      rw [files.file_open_ne hpath]
      exact h.opened k file hk
  · by_cases hk' : path k = path i
    · rw [hsame k hk' hk, hsame j (hpath.symm.trans hk') hj]
    · rw [hothers k hk'] at hk
      rw [hothers j (fun hj' => hk' (hpath.trans hj'))] at hj
      exact h.alike k j hpath hk hj
  · by_cases hpath : path k = path i
    · rw [hpath]
      exact ⟨[], files.read_open_self, .inl rfl⟩
    · rw [hothers k hpath] at hk
      rw [files.read_open_ne hpath]
      exact h.clean k hk
  · by_cases hpath : path k = path i
    · by_cases hki : k = i
      · subst hki
        rw [Function.update_self] at hk
        cases hk
      · exact .inr ⟨i, _, fun heq => hki heq.symm, hpath.symm, Function.update_self i _ pc⟩
    · rw [hothers k hpath] at hk
      rw [files.read_open_ne hpath]
      exact h.complete_ne hpath hk _

/-- A call writes its log. -/
theorem Consistent.write (h : Consistent path text files pc) {file : Nat}
    (hold : pc i = .write file) :
    Consistent path text (files.overwrite file (text i)) (Function.update pc i .upload) := by
  have hfile := h.opened i file hold
  have hpendingSelf : (pc i).Pending := hold ▸ pending_write file
  obtain ⟨old, hread, hclean⟩ := h.clean i hpendingSelf
  have hwritten := files.read_overwrite_self hfile hread hclean
  have hpending : ∀ k, (Function.update pc i .upload k).Pending → (pc k).Pending := by
    intro k hk
    by_cases hki : k = i
    · rw [hki]
      exact hpendingSelf
    · rwa [Function.update_of_ne hki] at hk
  have hsame : ∀ k, path k = path i → (Function.update pc i .upload k).Pending →
      (files.overwrite file (text i)).read (path k) = some (text k) := by
    intro k hpath hk
    rw [hpath, hwritten, h.alike k i hpath (hpending k hk) hpendingSelf]
  refine ⟨fun k n hk => ?_, fun k j hpath hk hj => ?_, fun k hk => ?_, fun k hk => ?_⟩
  · have hki : k ≠ i := by
      rintro rfl
      rw [Function.update_self] at hk
      cases hk
    rw [Function.update_of_ne hki] at hk
    exact h.opened k n hk
  · exact h.alike k j hpath (hpending k hk) (hpending j hj)
  · by_cases hpath : path k = path i
    · exact ⟨text k, hsame k hpath hk, .inr rfl⟩
    · rw [files.read_overwrite_ne hfile hpath]
      exact h.clean k (hpending k hk)
  · by_cases hpath : path k = path i
    · exact .inl (hsame k hpath (by rw [hk]; exact pending_upload))
    · have hki : k ≠ i := fun heq => hpath (congrArg path heq)
      rw [Function.update_of_ne hki] at hk
      rw [files.read_overwrite_ne hfile hpath]
      exact h.complete_ne hpath hk _

omit [DecidableEq ι] in
/-- An undisturbed upload reads the log of its call. -/
theorem Consistent.read_upload (h : Consistent path text files pc) (hpc : pc i = .upload)
    (hothers : ∀ j, j ≠ i → path j = path i → ∀ file, pc j ≠ .write file) :
    files.read (path i) = some (text i) := by
  rcases h.complete i hpc with hread | ⟨j, file, hji, hpath, hj⟩
  · exact hread
  · exact absurd hj (hothers j hji hpath file)

variable {s : UploadState ι} {io : UploadIo}

/-- A step that uploads nothing. -/
theorem Truthful.pass (h : Truthful text s) {new : UploadPc} {files : OpenFiles String}
    (hnew : ∀ hash sizeBytes, new = .remove (.uploaded hash sizeBytes) ∨
      new = .returned (.uploaded hash sizeBytes) → (i, text i) ∈ s.uploads) :
    Truthful text { s with files, pc := Function.update s.pc i new } := by
  refine ⟨h.own, fun k hash sizeBytes hk => ?_, h.found⟩
  by_cases hki : k = i
  · subst hki
    dsimp only at hk
    rw [Function.update_self] at hk
    exact hnew hash sizeBytes hk
  · dsimp only at hk
    rw [Function.update_of_ne hki] at hk
    exact h.uploaded k hash sizeBytes hk

/-- A step to a place without a digest. -/
theorem Truthful.quiet (h : Truthful text s) {new : UploadPc} {files : OpenFiles String}
    (hremove : ∀ hash sizeBytes, new ≠ .remove (.uploaded hash sizeBytes))
    (hreturned : ∀ hash sizeBytes, new ≠ .returned (.uploaded hash sizeBytes)) :
    Truthful text { s with files, pc := Function.update s.pc i new } :=
  h.pass fun hash sizeBytes hnew =>
    (hnew.elim (hremove hash sizeBytes) (hreturned hash sizeBytes)).elim

/-- A call uploads its own log. -/
theorem Truthful.upload (h : Truthful text s) (hash : String) (sizeBytes : Int) :
    Truthful text { s with
      pc := Function.update s.pc i (.remove (.uploaded hash sizeBytes))
      uploads := s.uploads ++ [(i, text i)] } := by
  refine ⟨fun k bytes hk => ?_, fun k hash sizeBytes hk => ?_, h.found⟩
  · rcases List.mem_append.mp hk with hk | hk
    · exact h.own k bytes hk
    · cases List.mem_singleton.mp hk
      rfl
  · by_cases hki : k = i
    · subst hki
      exact List.mem_append_right _ (List.mem_singleton_self _)
    · dsimp only at hk
      rw [Function.update_of_ne hki] at hk
      exact List.mem_append_left _ (h.uploaded k hash sizeBytes hk)

/-- An undisturbed step keeps the files consistent and the history true. -/
theorem step_spec (h : Consistent path text s.files s.pc) (ht : Truthful text s)
    (hu : s.Undisturbed path text i io) :
    Consistent path text (s.step path text i io).files (s.step path text i io).pc ∧
      Truthful text (s.step path text i io) := by
  unfold step
  unfold Undisturbed at hu
  cases hpc : s.pc i with
  | create =>
      rw [hpc] at hu
      cases io with
      | ok hash sizeBytes =>
          exact ⟨h.create hpc hu, ht.quiet nofun nofun⟩
      | failed error written =>
          refine ⟨h.pass (not_pending_returned _) fun file hfile => ?_, ht.quiet nofun nofun⟩
          rw [hpc] at hfile
          cases hfile
  | write file =>
      rw [hpc] at hu
      cases io with
      | ok hash sizeBytes =>
          exact ⟨h.write hpc, ht.quiet nofun nofun⟩
      | failed error written =>
          refine ⟨h.leave (not_pending_returned _) (fun name hname => ?_) hu, ht.quiet nofun nofun⟩
          exact ⟨rfl, s.files.read_overwrite_ne (h.opened i file hpc) hname⟩
  | upload =>
      rw [hpc] at hu
      have hwriting : ∀ file, s.pc i ≠ .write file := by
        intro file hfile
        rw [hpc] at hfile
        cases hfile
      -- A pending upload has its file, so the read does not fail on its own account.
      obtain ⟨bytes, hread, -⟩ := h.clean i (hpc ▸ pending_upload)
      cases io with
      | ok hash sizeBytes =>
          rw [h.read_upload hpc hu]
          exact ⟨h.pass (not_pending_remove _) hwriting, ht.upload hash sizeBytes⟩
      | failed error written =>
          rw [hread]
          exact ⟨h.pass (not_pending_remove _) hwriting, ht.quiet nofun nofun⟩
  | remove outcome =>
      rw [hpc] at hu
      -- A digest that is returned was uploaded before; removing the file keeps that true.
      have houtcome : ∀ hash sizeBytes,
          UploadPc.returned outcome = .remove (.uploaded hash sizeBytes) ∨
            UploadPc.returned outcome = .returned (.uploaded hash sizeBytes) →
          (i, text i) ∈ s.uploads := by
        intro hash sizeBytes hnew
        rcases hnew with hnew | hnew
        · cases hnew
        · cases hnew
          exact ht.uploaded i hash sizeBytes (.inl hpc)
      cases io with
      | ok hash sizeBytes =>
          exact ⟨h.leave (not_pending_returned _) (fun name hname =>
            ⟨s.files.file_unlink_ne hname, s.files.read_unlink_ne hname⟩) hu, ht.pass houtcome⟩
      | failed error written =>
          refine ⟨h.pass (not_pending_returned _) fun file hfile => ?_, ht.pass houtcome⟩
          rw [hpc] at hfile
          cases hfile
  | returned outcome => exact ⟨h, ht⟩

/-! ## Runs -/

theorem run_spec (h : Consistent path text s.files s.pc) (ht : Truthful text s)
    {steps : List (ι × UploadIo)} (hu : s.UndisturbedRun path text steps) :
    Consistent path text (s.run path text steps).files (s.run path text steps).pc ∧
      Truthful text (s.run path text steps) := by
  induction steps generalizing s with
  | nil => exact ⟨h, ht⟩
  | cons step steps ih =>
      obtain ⟨hfirst, hrest⟩ := hu
      obtain ⟨hnext, htnext⟩ := step_spec h ht hfirst
      exact ih hnext htnext hrest

omit [DecidableEq ι] in
theorem Truthful.isolated (h : Truthful text s) : s.Isolated text :=
  ⟨h.own, fun i hash sizeBytes hi => h.uploaded i hash sizeBytes (.inr hi), h.found⟩

omit [DecidableEq ι] in
variable (path text) in
theorem consistent_initial (files : OpenFiles String) :
    Consistent path text files (initial files : UploadState ι).pc := by
  have hpending : ∀ i, ¬((initial files : UploadState ι).pc i).Pending :=
    fun i h => h.elim (fun ⟨_, h⟩ => nomatch h) nofun
  exact ⟨nofun, fun i _ _ hi => absurd hi (hpending i), fun i hi => absurd hi (hpending i), nofun⟩

omit [DecidableEq ι] in
variable (text) in
theorem truthful_initial (files : OpenFiles String) :
    Truthful text (initial files : UploadState ι) :=
  ⟨nofun, fun _ _ _ h => h.elim nofun nofun, rfl⟩

/-- Calls with different files do not disturb each other. -/
theorem undisturbed_run_of_injective (hpath : Function.Injective path)
    (steps : List (ι × UploadIo)) : s.UndisturbedRun path text steps := by
  induction steps generalizing s with
  | nil => trivial
  | cons step steps ih =>
      exact ⟨fun j hji hsame => absurd (hpath hsame) hji, ih⟩

end UploadState

/-! ## Main result -/

section Calls

variable {ι : Type} [DecidableEq ι]

/-- The file of each call. -/
def callPath (tempDir : String) (processId : Nat) (details : ι → String) (i : ι) : String :=
  tempFile tempDir processId (details i)

/-- The bytes of each call. -/
def callText (details : ι → String) (i : ι) : List UInt8 :=
  Text.bytes (details i)

/-- In every run of undisturbed steps every call that has a digest uploaded its own log and none
misses its file; calls with different files are never disturbed. -/
theorem uploads_isolated_when (tempDir : String) (processId : Nat) (details : ι → String)
    (files : OpenFiles String) :
    (∀ steps : List (ι × UploadIo),
      (UploadState.initial files).UndisturbedRun (callPath tempDir processId details)
        (callText details) steps →
      ((UploadState.initial files).run (callPath tempDir processId details)
        (callText details) steps).Isolated (callText details)) ∧
    (Function.Injective (callPath tempDir processId details) →
      ∀ steps : List (ι × UploadIo),
        ((UploadState.initial files).run (callPath tempDir processId details)
          (callText details) steps).Isolated (callText details)) := by
  have hmain : ∀ steps : List (ι × UploadIo),
      (UploadState.initial files).UndisturbedRun (callPath tempDir processId details)
        (callText details) steps →
      ((UploadState.initial files).run (callPath tempDir processId details)
        (callText details) steps).Isolated (callText details) := by
    intro steps hsteps
    have hrun := UploadState.run_spec (UploadState.consistent_initial _ _ files)
      (UploadState.truthful_initial _ files) hsteps
    exact hrun.2.isolated
  exact ⟨hmain, fun hpath steps => hmain steps
    (UploadState.undisturbed_run_of_injective hpath steps)⟩

end Calls

/-- Nothing in the temporary directory. -/
def noTempFiles : OpenFiles String where
  file _ := none
  contents _ := []
  fresh := 0
  file_lt := nofun
  file_inj := nofun

/-- Two calls with one log that share its file: both have written it when the first one uploads it,
and both have uploaded it when the first one removes it. -/
def sharedUploads : List (Bool × UploadIo) :=
  [(false, .ok "" 0), (true, .ok "" 0), (false, .ok "" 0), (true, .ok "" 0), (false, .ok "d" 3),
    (true, .ok "d" 3), (false, .ok "" 0), (true, .ok "" 0)]

/-- The two calls upload the log, although they share its file. -/
theorem shared_uploads_isolated :
    let last := (UploadState.initial noTempFiles).run (callPath "/tmp" 7 fun _ => "log")
      (callText fun _ => "log") sharedUploads
    last.Isolated (callText fun _ : Bool => "log") ∧
      last.uploads.map Prod.fst = [false, true] := by
  intro last
  refine ⟨(uploads_isolated_when "/tmp" 7 (fun _ => "log") noTempFiles).1 sharedUploads ?_,
    by decide +kernel⟩
  refine ⟨fun j _ _ hne => absurd rfl hne, fun j _ _ hne => absurd rfl hne, fun _ _ _ => trivial,
    fun _ _ _ => trivial, fun j hj _ => ?_, fun j hj _ => ?_, fun j hj _ => ?_, fun j hj _ => ?_,
    trivial⟩
  -- When the first call uploads, the second one has written its log.
  · cases j with
    | false => exact absurd rfl hj
    | true => exact fun file => nofun
  · cases j with
    | false => exact fun file => nofun
    | true => exact absurd rfl hj
  -- When the first call removes the file, the second one has uploaded it.
  · cases j with
    | false => exact absurd rfl hj
    | true => exact fun hpending => by obtain ⟨file, hfile⟩ | hfile := hpending <;> cases hfile
  · cases j with
    | false => exact fun hpending => by obtain ⟨file, hfile⟩ | hfile := hpending <;> cases hfile
    | true => exact absurd rfl hj

/-- Two tests with one log. The second one truncates the file before the first one uploads it, so
that the first one uploads nothing; or the first one removes the file before the second one
uploads it, which then fails. -/
theorem equal_logs_share_a_file :
    (∃ steps : List (Bool × UploadIo),
      ((UploadState.initial noTempFiles).run (callPath "/tmp" 7 fun _ => "log")
        (callText fun _ => "log") steps).uploads = [(false, [])]) ∧
    (∃ steps : List (Bool × UploadIo),
      ((UploadState.initial noTempFiles).run (callPath "/tmp" 7 fun _ => "log")
        (callText fun _ => "log") steps).missing = [true]) ∧
    callText (fun _ : Bool => "log") false ≠ [] := by
  refine ⟨⟨[(false, .ok "" 0), (false, .ok "" 0), (true, .ok "" 0), (false, .ok "d" 0)], ?_⟩,
    ⟨[(false, .ok "" 0), (false, .ok "" 0), (true, .ok "" 0), (true, .ok "" 0),
      (false, .ok "d" 3), (false, .ok "" 0), (true, .ok "d" 3)], ?_⟩, ?_⟩
  · decide +kernel
  · decide +kernel
  · decide +kernel

end Quokka
