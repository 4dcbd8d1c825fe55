import Quokka.Scheduler.ReportWriter

/-!
# Publication of the CI test report

The report is published as a whole or not at all, whichever file operations fail. `Unpublished`
and `Written` describe a session before the report is put into place, `Recoverable` one in which
`finish` may have failed anywhere: what was at the destination is there or in the backup, as the
writer's flags say. Each method has one lemma for its successes and its failures.
-/

namespace Quokka

open Fallible ReportIo Function

namespace CiTestReportWriter

variable {session : ReportSession} {paths : ReportPaths} {before spare : Option DiskEntry}
  {content : List UInt8}

/-- A writer that has not touched its destination, where `before` is. -/
structure Unpublished (paths : ReportPaths) (before : Option DiskEntry)
    (session : ReportSession) : Prop where
  paths_eq : session.writer.toReportPaths = paths
  not_installed : session.writer.destinationInstalled = false
  destination_eq : session.disk.entry paths.destination.name = before

/-- A writer whose temporary file has a content and which has made no backup; the name of the
backup stands for `spare`. -/
structure Written (paths : ReportPaths) (before spare : Option DiskEntry) (firstTest : Bool)
    (content : List UInt8) (session : ReportSession) : Prop
    extends Unpublished paths before session where
  first_test_eq : session.writer.firstTest = firstTest
  none_present : session.writer.previousDestinationPresent = false
  none_created : session.writer.backupCreated = false
  temporary_eq : session.disk.entry paths.temporary.name = some (.file content)
  backup_eq : session.disk.entry paths.backup.name = spare

/-- A write to the temporary file. -/
theorem wp_write_output {firstTest : Bool} {bytes : List UInt8} {text : String}
    (h : Written paths before spare firstTest content session) :
    wp (writeOutput bytes text)
      (fun _ => Written paths before spare firstTest (content ++ bytes))
      (fun _ => Unpublished paths before) session := by
  obtain ⟨⟨rfl, hinstalled, hdestination⟩, hfirst, hpresent, hcreated, htemporary, hbackup⟩ := h
  refine wp_bind.mpr (wp_self.mpr (wp_perform.mpr (Io.wp_write_all htemporary ?_ ?_)))
  · intro faults
    refine ⟨⟨rfl, hinstalled, ?_⟩, hfirst, hpresent, hcreated, ?_, ?_⟩
    · exact (update_of_ne session.writer.temporary_ne.symm _ _).trans hdestination
    · exact update_self _ _ _
    · exact (update_of_ne session.writer.distinct _ _).trans hbackup
  · intro error torn faults
    refine ⟨rfl, hinstalled, ?_⟩
    exact (update_of_ne session.writer.temporary_ne.symm _ _).trans hdestination

/-- Joining one more item with a separator. -/
theorem intercalate_concat (separator : List UInt8) (items : List (List UInt8))
    (item : List UInt8) :
    separator.intercalate (items ++ [item]) =
      separator.intercalate items ++ (if items.isEmpty then [] else separator) ++ item := by
  induction items with
  | nil => simp
  | cons first rest ih =>
      cases rest with
      | nil => simp
      | cons second rest =>
          show separator.intercalate (first :: second :: (rest ++ [item])) = _
          rw [List.intercalate_cons_cons, List.intercalate_cons_cons]
          show first ++ separator ++ separator.intercalate (second :: rest ++ [item]) = _
          rw [ih]
          simp

/-- The records of tests as they stand in the report. -/
def reportRecords (json : ReportJson) (tests : List FinishedTest) : List UInt8 :=
  (Text.bytes ",").intercalate (tests.map json.test)

/-- One more record, after a comma unless it is the first. -/
theorem wp_write_test {json : ReportJson} {header : List UInt8} {tests : List FinishedTest}
    {finished : FinishedTest}
    (h : Written paths before spare tests.isEmpty (header ++ reportRecords json tests) session) :
    wp (writeTest json finished)
      (fun _ => Written paths before spare false
        (header ++ reportRecords json (tests ++ [finished])))
      (fun _ => Unpublished paths before) session := by
  have hseparated : wp writeSeparator
      (fun _ => Written paths before spare tests.isEmpty
        (header ++ reportRecords json tests ++
          (if tests.isEmpty then [] else Text.bytes ",")))
      (fun _ => Unpublished paths before) session := by
    refine wp_bind.mpr (wp_self.mpr ?_)
    rw [h.first_test_eq]
    cases htests : tests.isEmpty with
    | true =>
        rw [htests] at h
        refine wp_pure.mpr ?_
        simpa using h
    | false => rw [htests] at h; exact wp_write_output h
  refine wp_bind.mpr (wp_mono hseparated ?_ fun _ _ hfail => hfail)
  rintro - session₁ h₁
  refine wp_bind.mpr (wp_mono (wp_write_output h₁) ?_ fun _ _ hfail => hfail)
  rintro - session₂ h₂
  refine wp_set_flags.mpr ?_
  obtain ⟨⟨hpaths, hinstalled, hdestination⟩, -, hpresent, hcreated, htemporary, hbackup⟩ := h₂
  refine ⟨⟨hpaths, hinstalled, hdestination⟩, rfl, hpresent, hcreated, ?_, hbackup⟩
  rw [htemporary]
  simp only [reportRecords, List.map_append, List.map_cons, List.map_nil, intercalate_concat,
    List.isEmpty_map, List.append_assoc]

/-- All records. -/
theorem wp_write_tests {json : ReportJson} {header : List UInt8} (tests : List FinishedTest) :
    ∀ {done : List FinishedTest} {session : ReportSession},
      Written paths before spare done.isEmpty (header ++ reportRecords json done) session →
      wp (writeTests json tests)
        (fun _ => Written paths before spare (done ++ tests).isEmpty
          (header ++ reportRecords json (done ++ tests)))
        (fun _ => Unpublished paths before) session := by
  induction tests with
  | nil =>
      intro done session h
      refine wp_pure.mpr ?_
      rwa [List.append_nil]
  | cons finished tests ih =>
      intro done session h
      refine wp_bind.mpr (wp_mono (wp_write_test h) ?_ fun _ _ hfail => hfail)
      rintro - session₁ h₁
      have hfirst : (done ++ [finished]).isEmpty = false := by simp
      rw [← hfirst] at h₁
      have hrest := ih h₁
      rwa [List.append_assoc, List.singleton_append] at hrest

/-! ## Starting a report -/

/-- Parts are written one after the other, and nothing but their file changes. -/
theorem wp_write_parts {name : EntryName} (parts : List (String × List UInt8)) :
    ∀ {content : List UInt8} {disk : Disk EntryName}, disk.entry name = some (.file content) →
      wp (writeParts name parts)
        (fun _ final => final.entry name = some (.file (content ++ parts.flatMap Prod.snd)) ∧
          ∀ other, other ≠ name → final.entry other = disk.entry other)
        (fun _ final => ∀ other, other ≠ name → final.entry other = disk.entry other) disk := by
  induction parts with
  | nil =>
      intro content disk hfile
      refine wp_pure.mpr ⟨?_, fun _ _ => rfl⟩
      rw [hfile, List.flatMap_nil, List.append_nil]
  | cons part parts ih =>
      intro content disk hfile
      refine wp_bind.mpr (wp_adapt.mpr (Io.wp_write_all hfile ?_ ?_))
      · intro faults
        have hwritten := update_self name (some (DiskEntry.file (content ++ part.2))) disk.entry
        refine wp_mono (ih hwritten) ?_ ?_
        · rintro - final ⟨hcontent, hothers⟩
          refine ⟨?_, fun other hother => ?_⟩
          · rw [hcontent, List.flatMap_cons, List.append_assoc]
          · exact (hothers other hother).trans (update_of_ne hother _ _)
        · intro error final hothers other hother
          exact (hothers other hother).trans (update_of_ne hother _ _)
      · intro error torn faults other hother
        exact update_of_ne hother _ _

/-- The header of a report. -/
def reportHeader (json : ReportJson) (context : SessionContext) : List UInt8 :=
  (headerParts json context).flatMap Prod.snd

/-- A new writer has written the header; without one, the destination is as it was. -/
theorem wp_new (json : ReportJson) (context : SessionContext) (path : ReportPath)
    (processId : UInt32) (sequence : UInt64) (disk : Disk EntryName) :
    let paths := ReportPaths.of path processId sequence
    wp (new json context path processId sequence)
      (fun writer opened =>
        Written paths (disk.entry paths.destination.name) (disk.entry paths.backup.name) true
          (reportHeader json context) ⟨writer, opened⟩)
      (fun _ final =>
        final.entry paths.destination.name = disk.entry paths.destination.name) disk := by
  intro paths
  have hkept {entry : EntryName → Option DiskEntry}
      (h : ∀ other, other ≠ paths.temporary.name → entry other = disk.entry other) :
      entry paths.destination.name = disk.entry paths.destination.name :=
    h _ paths.temporary_ne.symm
  refine wp_bind.mpr (wp_adapt.mpr (Io.wp_settle ?_ fun _ _ => rfl))
  intro faults
  refine wp_bind.mpr (wp_adapt.mpr (Io.wp_create_new ?_ fun _ _ => rfl))
  intro faults hfree
  have hempty := update_self paths.temporary.name (some (DiskEntry.file [])) disk.entry
  refine wp_bind.mpr (wp_observe.mpr (wp_mono (wp_write_parts _ hempty) ?_ ?_))
  · rintro - opened ⟨hcontent, hothers⟩
    have hsame : ∀ other, other ≠ paths.temporary.name →
        opened.entry other = disk.entry other :=
      fun other hother => (hothers other hother).trans (update_of_ne hother _ _)
    exact wp_pure.mpr
      ⟨⟨rfl, rfl, hkept hsame⟩, rfl, rfl, rfl, hcontent, hsame _ paths.distinct⟩
  · intro error torn hothers
    have hsame : ∀ other, other ≠ paths.temporary.name →
        torn.entry other = disk.entry other :=
      fun other hother => (hothers other hother).trans (update_of_ne hother _ _)
    refine wp_bind.mpr (wp_observe.mpr (Io.wp_remove_file ?_ ?_ ?_))
    · intro faults
      refine wp_throw.mpr (hkept fun other hother => ?_)
      exact (update_of_ne hother _ _).trans (hsame other hother)
    · intro faults hmissing
      exact wp_throw.mpr (hkept hsame)
    · intro message faults
      exact wp_throw.mpr (hkept hsame)

/-! ## Finishing a report -/

/-- A session after the destination was looked at: what is there is in the backup too. -/
structure Snapshotted (paths : ReportPaths) (before spare : Option DiskEntry)
    (content : List UInt8) (session : ReportSession) : Prop
    extends Unpublished paths before session where
  temporary_eq : session.disk.entry paths.temporary.name = some (.file content)
  created_eq : session.writer.backupCreated = session.writer.previousDestinationPresent
  present : session.writer.previousDestinationPresent = true →
    session.disk.entry paths.backup.name = before
  absent : session.writer.previousDestinationPresent = false →
    before = none ∧ session.disk.entry paths.backup.name = spare

theorem wp_snapshot_destination {firstTest : Bool}
    (h : Written paths before spare firstTest content session) :
    wp snapshotDestination (fun _ => Snapshotted paths before spare content)
      (fun _ => Unpublished paths before) session := by
  obtain ⟨⟨rfl, hinstalled, rfl⟩, hfirst, hpresent, hcreated, htemporary, hbackup⟩ := h
  have hbackupNe := session.writer.backup_ne
  refine wp_bind.mpr (wp_self.mpr (wp_bind.mpr (wp_outcome.mpr (Io.wp_is_file ?_ ?_ ?_ ?_))))
  · intro previous faults hprevious
    have hkept (torn : Option DiskEntry) :
        update session.disk.entry session.writer.backup.name torn
            session.writer.destination.name =
          session.disk.entry session.writer.destination.name :=
      update_of_ne hbackupNe.symm _ _
    refine wp_bind.mpr (wp_perform.mpr (Io.wp_copy ?_ ?_))
    · intro content faults hcontent
      refine wp_bind.mpr (wp_perform.mpr (Io.wp_sync_file ?_ ?_))
      · intro faults
        refine wp_set_flags.mpr ⟨⟨rfl, hinstalled, hkept _⟩, ?_, rfl, ?_, nofun⟩
        · exact (update_of_ne session.writer.distinct.symm _ _).trans htemporary
        · rintro -
          exact (update_self _ _ _).trans hcontent.symm
      · intro error faults
        exact ⟨rfl, hinstalled, hkept _⟩
    · intro error torn faults
      exact ⟨rfl, hinstalled, hkept torn⟩
  · intro faults
    exact wp_throw.mpr ⟨rfl, hinstalled, rfl⟩
  · intro faults hmissing
    refine wp_pure.mpr ⟨⟨rfl, hinstalled, rfl⟩, htemporary, ?_, ?_, ?_⟩
    · exact hcreated.trans hpresent.symm
    · intro h
      exact absurd (hpresent.symm.trans h) (by decide)
    · rintro -
      exact ⟨hmissing, hbackup⟩
  · intro message faults
    exact wp_throw.mpr ⟨rfl, hinstalled, rfl⟩

/-- A session in which `finish` has failed: what was at the destination is there, or it is in
the backup, or there was nothing. -/
structure Recoverable (paths : ReportPaths) (before : Option DiskEntry)
    (session : ReportSession) : Prop where
  paths_eq : session.writer.toReportPaths = paths
  untouched : session.writer.destinationInstalled = false →
    session.disk.entry paths.destination.name = before
  absent : session.writer.destinationInstalled = true →
    session.writer.previousDestinationPresent = false → before = none
  present : session.writer.destinationInstalled = true →
    session.writer.previousDestinationPresent = true →
    session.writer.backupCreated = true ∧ session.disk.entry paths.backup.name = before

/-- A writer that has not touched its destination can fail. -/
theorem Unpublished.recoverable (h : Unpublished paths before session) :
    Recoverable paths before session := by
  refine ⟨h.paths_eq, fun _ => h.destination_eq, fun hinstalled => ?_, fun hinstalled => ?_⟩
  all_goals exact absurd (h.not_installed.symm.trans hinstalled) (by decide)

/-- A session whose report is in place. -/
structure Published (paths : ReportPaths) (spare : Option DiskEntry) (content : List UInt8)
    (session : ReportSession) : Prop where
  destination_eq : session.disk.entry paths.destination.name = some (.file content)
  temporary_eq : session.disk.entry paths.temporary.name = none
  backup_eq : spare = none → session.disk.entry paths.backup.name = none

/-- A session whose report is in place, with a backup of what was there. -/
structure Installed (paths : ReportPaths) (before spare : Option DiskEntry)
    (content : List UInt8) (session : ReportSession) : Prop where
  paths_eq : session.writer.toReportPaths = paths
  installed : session.writer.destinationInstalled = true
  destination_eq : session.disk.entry paths.destination.name = some (.file content)
  temporary_eq : session.disk.entry paths.temporary.name = none
  created_eq : session.writer.backupCreated = session.writer.previousDestinationPresent
  present : session.writer.previousDestinationPresent = true →
    session.disk.entry paths.backup.name = before
  absent : session.writer.previousDestinationPresent = false →
    before = none ∧ session.disk.entry paths.backup.name = spare

/-- From there, what was there before can be restored. -/
theorem Installed.recoverable (h : Installed paths before spare content session) :
    Recoverable paths before session where
  paths_eq := h.paths_eq
  untouched hnot := absurd (h.installed.symm.trans hnot) (by decide)
  absent _ habsent := (h.absent habsent).1
  present _ hpresent := ⟨h.created_eq.trans hpresent, h.present hpresent⟩

/-- Renaming the temporary file puts it into place and leaves the backup alone. -/
theorem Snapshotted.installed (h : Snapshotted paths before spare content session)
    (faults : List (Option Fault)) :
    Installed paths before spare content
      { writer := { session.writer with destinationInstalled := true }
        disk :=
          ⟨update (update session.disk.entry paths.temporary.name none) paths.destination.name
            (some (.file content)), faults⟩ } := by
  have hbackup : update (update session.disk.entry paths.temporary.name none)
      paths.destination.name (some (.file content)) paths.backup.name =
        session.disk.entry paths.backup.name :=
    (update_of_ne paths.backup_ne _ _).trans (update_of_ne paths.distinct _ _)
  refine ⟨h.paths_eq, rfl, update_self _ _ _, ?_, h.created_eq, fun hpresent => ?_,
    fun habsent => ?_⟩
  · exact (update_of_ne paths.temporary_ne _ _).trans (update_self _ _ _)
  · exact hbackup.trans (h.present hpresent)
  · exact ⟨(h.absent habsent).1, hbackup.trans (h.absent habsent).2⟩

theorem wp_remove_backup (h : Installed paths before spare content session) :
    wp removeBackup (fun _ => Published paths spare content)
      (fun _ => Recoverable paths before) session := by
  obtain ⟨⟨paths', firstTest, previous, installed, created⟩, disk⟩ := session
  obtain ⟨rfl, hinstalled, hdestination, htemporary, hcreated, hpresent, habsent⟩ := h
  cases created with
  | false =>
      show Published paths' spare content _
      refine ⟨hdestination, htemporary, fun hspare => ?_⟩
      exact (habsent hcreated.symm).2.trans hspare
  | true =>
      have hrecoverable (faults : List (Option Fault)) :
          Recoverable paths' before
            ⟨⟨paths', firstTest, previous, installed, true⟩, ⟨disk.entry, faults⟩⟩ :=
        Installed.recoverable
          ⟨rfl, hinstalled, hdestination, htemporary, hcreated, hpresent, habsent⟩
      refine wp_bind.mpr (wp_self.mpr (wp_bind.mpr (wp_perform.mpr (Io.wp_remove_file ?_ ?_ ?_))))
      · intro faults
        refine wp_set_flags.mpr ⟨?_, ?_, fun _ => update_self _ _ _⟩
        · exact (update_of_ne paths'.backup_ne.symm _ _).trans hdestination
        · exact (update_of_ne paths'.distinct.symm _ _).trans htemporary
      · intro faults _
        exact hrecoverable faults
      · intro message faults
        exact hrecoverable faults

theorem wp_finish_inner {firstTest : Bool}
    (h : Written paths before spare firstTest content session) :
    wp finishInner (fun _ => Published paths spare (content ++ reportFooter))
      (fun _ => Recoverable paths before) session := by
  refine wp_bind.mpr (wp_mono (wp_write_output h) ?_ fun _ _ h => h.recoverable)
  rintro - session₁ h₁
  refine wp_bind.mpr (wp_perform.mpr (Io.wp_settle ?_ ?_))
  case refine_2 =>
    intro error faults
    exact Unpublished.recoverable ⟨h₁.paths_eq, h₁.not_installed, h₁.destination_eq⟩
  intro faults
  have hsynced : Written paths before spare firstTest (content ++ reportFooter)
      { session₁ with disk := ⟨session₁.disk.entry, faults⟩ } :=
    ⟨⟨h₁.paths_eq, h₁.not_installed, h₁.destination_eq⟩, h₁.first_test_eq, h₁.none_present,
      h₁.none_created, h₁.temporary_eq, h₁.backup_eq⟩
  refine wp_bind.mpr (wp_mono (wp_snapshot_destination hsynced) ?_ fun _ _ h => h.recoverable)
  rintro - session₂ h₂
  have hpaths := h₂.paths_eq
  refine wp_bind.mpr (wp_self.mpr (wp_bind.mpr (wp_perform.mpr (Io.wp_rename ?_ ?_))))
  case refine_2 =>
    intro error faults
    exact Unpublished.recoverable ⟨h₂.paths_eq, h₂.not_installed, h₂.destination_eq⟩
  intro moved faults hmoved
  rw [hpaths] at hmoved ⊢
  obtain rfl := Option.some.inj (hmoved.symm.trans h₂.temporary_eq)
  refine wp_bind.mpr (wp_set_flags.mpr (wp_bind.mpr (wp_perform.mpr (Io.wp_settle ?_ ?_))))
  · intro faults
    exact wp_remove_backup (h₂.installed faults)
  · intro error faults
    exact (h₂.installed faults).recoverable

/-! ## Rolling back -/

/-- A session whose destination is as it was before. -/
structure RolledBack (paths : ReportPaths) (before : Option DiskEntry)
    (session : ReportSession) : Prop where
  paths_eq : session.writer.toReportPaths = paths
  destination_eq : session.disk.entry paths.destination.name = before

/-- A session whose recovery path leads to what was at the destination, if anything was. -/
structure Retained (paths : ReportPaths) (before : Option DiskEntry)
    (session : ReportSession) : Prop where
  paths_eq : session.writer.toReportPaths = paths
  recovery_eq : before ≠ none → session.disk.entry session.writer.recoveryPath.name = before

/-- The destination is gone, or it could not be removed and is as it was. -/
theorem wp_remove_destination {text : String} :
    wp (removeDestination text)
      (fun _ final => ∃ faults, final =
        { session with
          disk := ⟨update session.disk.entry session.writer.destination.name none, faults⟩ })
      (fun _ final => ∃ faults, final = { session with disk := ⟨session.disk.entry, faults⟩ })
      session := by
  refine wp_bind.mpr (wp_self.mpr (wp_bind.mpr (wp_outcome.mpr (Io.wp_remove_file ?_ ?_ ?_))))
  · intro faults
    exact wp_pure.mpr ⟨faults, rfl⟩
  · intro faults hmissing
    refine wp_pure.mpr ⟨faults, ?_⟩
    rw [← hmissing, update_eq_self]
  · intro message faults
    exact wp_throw.mpr ⟨faults, rfl⟩

theorem wp_restore_previous (hpaths : session.writer.toReportPaths = paths)
    (hcreated : session.writer.backupCreated = true)
    (hbackup : session.disk.entry paths.backup.name = before) :
    wp restorePrevious
      (fun _ final => RolledBack paths before final ∧ final.writer.backupCreated = false)
      (fun _ => Retained paths before) session := by
  subst hpaths
  refine wp_bind.mpr (wp_self.mpr ?_)
  rw [hcreated]
  refine wp_bind.mpr (wp_mono wp_remove_destination ?_ ?_)
  case refine_2 =>
    rintro error _ ⟨faults, rfl⟩
    refine ⟨rfl, fun _ => ?_⟩
    have hpath : session.writer.recoveryPath = session.writer.backup := if_pos hcreated
    exact (congrArg session.disk.entry (congrArg ReportFile.name hpath)).trans hbackup
  rintro - _ ⟨faults, rfl⟩
  have hkept : update session.disk.entry session.writer.destination.name none
      session.writer.backup.name = before :=
    (update_of_ne session.writer.backup_ne _ _).trans hbackup
  refine wp_bind.mpr (wp_perform.mpr (Io.wp_rename ?_ ?_))
  case refine_2 =>
    intro error faults
    refine ⟨rfl, fun _ => ?_⟩
    have hpath : session.writer.recoveryPath = session.writer.backup := if_pos hcreated
    exact (congrArg (update session.disk.entry session.writer.destination.name none)
      (congrArg ReportFile.name hpath)).trans hkept
  intro moved faults hmoved
  have hmoved : before = some moved := hkept.symm.trans hmoved
  refine wp_bind.mpr (wp_set_flags.mpr (wp_perform.mpr (Io.wp_sync_file ?_ ?_)))
  · intro faults
    exact ⟨⟨rfl, (update_self _ _ _).trans hmoved.symm⟩, rfl⟩
  · intro error faults
    exact ⟨rfl, fun _ => (update_self _ _ _).trans hmoved.symm⟩

theorem wp_restore_destination (h : Recoverable paths before session)
    (hinstalled : session.writer.destinationInstalled = true) :
    wp restoreDestination
      (fun _ final => RolledBack paths before final ∧
        (before ≠ none → final.writer.backupCreated = false))
      (fun _ => Retained paths before) session := by
  obtain ⟨rfl, -, habsent, hpresent⟩ := h
  refine wp_bind.mpr (wp_self.mpr ?_)
  cases hprevious : session.writer.previousDestinationPresent with
  | true =>
      obtain ⟨hcreated, hbackup⟩ := hpresent hinstalled hprevious
      refine wp_mono (wp_restore_previous rfl hcreated hbackup) ?_ fun _ _ h => h
      rintro - final ⟨hback, hmoved⟩
      exact ⟨hback, fun _ => hmoved⟩
  | false =>
      have hnone := habsent hinstalled hprevious
      refine wp_mono wp_remove_destination ?_ ?_
      · rintro - _ ⟨faults, rfl⟩
        exact ⟨⟨rfl, (update_self _ _ _).trans hnone.symm⟩, fun h => absurd hnone h⟩
      · rintro error _ ⟨faults, rfl⟩
        exact ⟨rfl, fun h => absurd hnone h⟩

/-- A rollback restores what was at the destination, or leaves it where the recovery path
leads. -/
theorem wp_rollback (h : Recoverable paths before session) :
    wp rollback (fun _ => RolledBack paths before) (fun _ => Retained paths before) session := by
  refine wp_bind.mpr (wp_self.mpr ?_)
  cases hinstalled : session.writer.destinationInstalled with
  | false =>
      show RolledBack paths before session
      exact ⟨h.paths_eq, h.untouched hinstalled⟩
  | true =>
      refine wp_bind.mpr (wp_mono (wp_restore_destination h hinstalled) ?_ fun _ _ h => h)
      rintro - restored ⟨hback, hmoved⟩
      refine wp_bind.mpr (wp_perform.mpr (Io.wp_settle ?_ ?_))
      · intro faults
        exact wp_set_flags.mpr ⟨hback.paths_eq, hback.destination_eq⟩
      · intro error faults
        refine ⟨hback.paths_eq, fun hbefore => ?_⟩
        have hpath : restored.writer.recoveryPath = restored.writer.destination :=
          if_neg (by rw [hmoved hbefore]; decide)
        have hdestination : restored.writer.destination = paths.destination :=
          congrArg ReportPaths.destination hback.paths_eq
        show restored.disk.entry restored.writer.recoveryPath.name = before
        rw [hpath, hdestination]
        exact hback.destination_eq

/-! ## Cleaning up -/

/-- The files that are removed change, and no others; the backup does not when it is to stay. -/
theorem wp_cleanup_paths (preserveRecovery : Bool) (files : List ReportFile) :
    ∀ {detail : Option String} {session : ReportSession},
      wp (cleanupPaths preserveRecovery files detail)
        (fun _ final => final.writer = session.writer ∧
          ∀ name, (∀ file ∈ files, file.name = name →
              preserveRecovery = true ∧ file = session.writer.backup) →
            final.disk.entry name = session.disk.entry name)
        (fun _ _ => False) session := by
  induction files with
  | nil =>
      intro detail session
      exact wp_pure.mpr ⟨rfl, fun _ _ => rfl⟩
  | cons file files ih =>
      intro detail session
      refine wp_bind.mpr (wp_self.mpr ?_)
      by_cases hkeep : (preserveRecovery && file == session.writer.backup) = true
      · rw [if_pos hkeep]
        refine wp_mono ih ?_ fun _ _ h => h
        rintro - final ⟨hwriter, hothers⟩
        exact ⟨hwriter, fun name hname =>
          hothers name fun other hother => hname other (List.mem_cons_of_mem _ hother)⟩
      · rw [if_neg hkeep]
        -- A name that must not change is not the one of the file that is removed here.
        have hne {name : EntryName} (hname : ∀ other ∈ file :: files, other.name = name →
            preserveRecovery = true ∧ other = session.writer.backup) : name ≠ file.name := by
          rintro rfl
          obtain ⟨hpreserve, hbackup⟩ := hname file List.mem_cons_self rfl
          exact hkeep (by simp [hpreserve, hbackup])
        have hrest {detail : Option String} {entry : EntryName → Option DiskEntry}
            {faults : List (Option Fault)}
            (hentry : ∀ name, name ≠ file.name → entry name = session.disk.entry name) :
            wp (cleanupPaths preserveRecovery files detail)
              (fun _ final => final.writer = session.writer ∧
                ∀ name, (∀ other ∈ file :: files, other.name = name →
                    preserveRecovery = true ∧ other = session.writer.backup) →
                  final.disk.entry name = session.disk.entry name)
              (fun _ _ => False) { session with disk := ⟨entry, faults⟩ } := by
          refine wp_mono ih ?_ fun _ _ h => h
          rintro - final ⟨hwriter, hothers⟩
          refine ⟨hwriter, fun name hname => ?_⟩
          exact (hothers name fun other hother =>
            hname other (List.mem_cons_of_mem _ hother)).trans (hentry name (hne hname))
        refine wp_bind.mpr (wp_outcome.mpr (Io.wp_remove_file ?_ ?_ ?_))
        · intro faults
          exact hrest fun name hname => update_of_ne hname _ _
        · intro faults hmissing
          exact hrest fun _ _ => rfl
        · intro message faults
          exact hrest fun _ _ => rfl

/-- A cleanup never touches the destination, nor a backup to recover from. -/
theorem wp_cleanup (preserveRecovery : Bool) (hpaths : session.writer.toReportPaths = paths) :
    wp (cleanup preserveRecovery)
      (fun _ final =>
        final.disk.entry paths.destination.name = session.disk.entry paths.destination.name ∧
        (preserveRecovery = true →
          final.disk.entry paths.backup.name = session.disk.entry paths.backup.name))
      (fun _ _ => False) session := by
  subst hpaths
  refine wp_bind.mpr (wp_self.mpr (wp_mono (wp_cleanup_paths _ _) ?_ fun _ _ h => h))
  rintro - final ⟨-, hothers⟩
  refine ⟨hothers _ ?_, fun hpreserve => hothers _ ?_⟩
  · simp only [List.mem_cons, List.not_mem_nil, or_false]
    rintro file (rfl | rfl) hname
    · exact absurd hname session.writer.temporary_ne
    · exact absurd hname session.writer.backup_ne
  · simp only [List.mem_cons, List.not_mem_nil, or_false]
    rintro file (rfl | rfl) hname
    · exact absurd hname.symm session.writer.distinct
    · exact ⟨hpreserve, rfl⟩

/-! ## The whole report -/

/-- The bytes of a complete report. -/
def reportBytes (json : ReportJson) (context : SessionContext) (tests : List FinishedTest) :
    List UInt8 :=
  reportHeader json context ++ reportRecords json tests ++ reportFooter

/-- How a `finish` that returned an error started: its error, the rollback that followed, and
the session after it. -/
def RollbackEnded (written : ReportSession) (error : String) (result : Except String Unit)
    (after : ReportSession) : Prop :=
  ∃ failed, finishInner written = .error error failed ∧
    (observe rollback : ReportIo (Except String Unit)) failed = .ok result after

/-- A `finish` publishes the report, or the rollback restores the destination, or the error
names the file with what was there. -/
theorem wp_finish {firstTest : Bool}
    (h : Written paths before spare firstTest content session) :
    wp finish (fun _ => Published paths spare (content ++ reportFooter))
      (fun text final =>
        (∃ error after, RollbackEnded session error (.ok ()) after ∧
          final.disk.entry paths.destination.name = before) ∨
        ∃ error rollbackError after file rest,
          RollbackEnded session error (.error rollbackError) after ∧
          (file = paths.destination ∨ file = paths.backup) ∧
          text = error ++ "; rollback failed: " ++ rollbackError ++
            "; recovery retained at " ++ file.display ++ rest ∧
          (before ≠ none → final.disk.entry file.name = before))
      session := by
  -- `finish` is an inner part, then a rollback if that failed, then a cleanup.
  have hinner := wp_finish_inner h
  refine wp_bind.mpr (wp_observe.mpr (wp_of_run hinner ?_ ?_))
  · rintro - published - hpublished
    exact wp_pure.mpr hpublished
  · intro error failed hfailed hrecoverable
    refine wp_bind.mpr (wp_observe.mpr (wp_of_run (wp_rollback hrecoverable) ?_ ?_))
    · rintro ⟨⟩ after hafter hback
      have hended : RollbackEnded session error (.ok ()) after :=
        ⟨failed, hfailed, by rw [observe, hafter]⟩
      refine wp_bind.mpr (wp_self.mpr (wp_bind.mpr (wp_mono (wp_cleanup _ hback.paths_eq) ?_ ?_)))
      · rintro cleanupError final ⟨hdestination, -⟩
        exact wp_throw.mpr (.inl ⟨error, after, hended, hdestination.trans hback.destination_eq⟩)
      · exact fun _ _ h => h.elim
    · intro rollbackError after hafter hretained
      have hended : RollbackEnded session error (.error rollbackError) after :=
        ⟨failed, hfailed, by rw [observe, hafter]⟩
      refine wp_bind.mpr (wp_self.mpr (wp_bind.mpr
        (wp_mono (wp_cleanup _ hretained.paths_eq) ?_ ?_)))
      · rintro cleanupError final ⟨hdestination, hbackup⟩
        obtain ⟨rfl, hrecovery⟩ := hretained
        obtain ⟨rest, htext⟩ :=
          finish_detail_names error rollbackError after.writer.recoveryPath cleanupError
        refine wp_throw.mpr (.inr ⟨error, rollbackError, after, after.writer.recoveryPath, rest,
          hended, ?_, htext, fun hbefore => ?_⟩)
        · rw [recoveryPath]
          split
          · exact .inr rfl
          · exact .inl rfl
        · refine Eq.trans ?_ (hrecovery hbefore)
          rw [recoveryPath]
          split
          · exact hbackup rfl
          · exact hdestination
      · exact fun _ _ h => h.elim

/-- A report is published as a whole or not at all. A writer that cannot start, or whose record
cannot be written and which is then cleaned up, leaves the destination as it was. A `finish`
that returns puts exactly the report there and leaves none of the writer's files. One that
returns an error leaves the destination as it was if the rollback succeeded, and otherwise names
a file that has what was there, which the cleanup has left alone. -/
theorem report_is_all_or_nothing (json : ReportJson) (context : SessionContext)
    (path : ReportPath) (processId : UInt32) (sequence : UInt64) (tests : List FinishedTest)
    (disk : Disk EntryName) :
    let paths := ReportPaths.of path processId sequence
    let before := disk.entry paths.destination.name
    match new json context path processId sequence disk with
    | .error _ final => final.entry paths.destination.name = before
    | .ok writer opened =>
        match writeTests json tests ⟨writer, opened⟩ with
        | .error _ stopped =>
            match cleanup false stopped with
            | .error _ _ => False
            | .ok _ final => final.disk.entry paths.destination.name = before
        | .ok _ written =>
            match finish written with
            | .ok _ final =>
                final.disk.entry paths.destination.name =
                  some (.file (reportBytes json context tests)) ∧
                final.disk.entry paths.temporary.name = none ∧
                (disk.entry paths.backup.name = none →
                  final.disk.entry paths.backup.name = none)
            | .error text final =>
                (∃ error after, RollbackEnded written error (.ok ()) after ∧
                  final.disk.entry paths.destination.name = before) ∨
                ∃ error rollbackError after file rest,
                  RollbackEnded written error (.error rollbackError) after ∧
                  (file = paths.destination ∨ file = paths.backup) ∧
                  text = error ++ "; rollback failed: " ++ rollbackError ++
                    "; recovery retained at " ++ file.display ++ rest ∧
                  (before ≠ none → final.disk.entry file.name = before) := by
  intro paths before
  -- The three phases in order, each with its triple: open, write the tests, finish.
  have hnew := wp_new json context path processId sequence disk
  cases hopened : new json context path processId sequence disk with
  | error error final => exact fail_of_wp hnew hopened
  | ok writer opened =>
      dsimp only
      have hwriter := post_of_wp hnew hopened
      have hstart : Written paths before (disk.entry paths.backup.name)
          ([] : List FinishedTest).isEmpty (reportHeader json context ++ reportRecords json [])
          ⟨writer, opened⟩ := by
        show Written _ _ _ true (_ ++ []) _
        rwa [List.append_nil]
      have htests := wp_write_tests tests hstart
      cases hwritten : writeTests json tests ⟨writer, opened⟩ with
      | error error stopped =>
          dsimp only
          have hstopped := fail_of_wp htests hwritten
          have hcleanup := wp_cleanup false hstopped.paths_eq
          cases hcleaned : cleanup false stopped with
          | error error final => exact fail_of_wp hcleanup hcleaned
          | ok detail final =>
              exact (post_of_wp hcleanup hcleaned).1.trans hstopped.destination_eq
      | ok value written =>
          dsimp only
          have hfinish := wp_finish (post_of_wp htests hwritten)
          cases hfinished : finish written with
          | ok value final =>
              have hpublished := post_of_wp hfinish hfinished
              exact ⟨hpublished.destination_eq, hpublished.temporary_eq, hpublished.backup_eq⟩
          | error text final => exact fail_of_wp hfinish hfinished

end CiTestReportWriter

end Quokka
