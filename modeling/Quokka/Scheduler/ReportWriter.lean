import Quokka.DurationDb.Flush
import Quokka.Library.FaultyDisk
import Quokka.Library.Text
import Quokka.Scheduler.Reporter

/-!
# The CI test report

The structured report file of a run, after `CiTestReportWriter` of `scheduler.rs`: it is written
to a temporary file next to its destination and put into place when the run has finished.

The directory of the report is a `Disk`, whose operations may fail. A program of `ReportIo` has
the writer itself as a part of its state, so an error leaves the writer's flags as they were when
it occurred.
-/

namespace Quokka

open Fallible

/-- An entry of the directory of the report, by the last component of its path. That of the
destination need not be text. -/
inductive EntryName where
  | text (name : String)
  | unnamed
  deriving DecidableEq, Repr

/-- The configured path of the report: as it is shown, and what `Path::parent` and
`Path::file_name` with `OsStr::to_str` make of it. -/
structure ReportPath where
  display : String
  parent : Option String
  fileName : Option String

/-- The entry that a path stands for. -/
def ReportPath.entryName (path : ReportPath) : EntryName :=
  match path.fileName with
  | some name => .text name
  | none => .unnamed

/-- The directory of the report. -/
def reportParent (path : ReportPath) : String :=
  match path.parent with
  | some parent => if parent.isEmpty then "." else parent
  | none => "."

/-- A file of the writer. -/
structure ReportFile where
  name : EntryName
  display : String
  deriving DecidableEq, Repr

/-- A file next to the destination. -/
def reportSibling (path : ReportPath) (processId : UInt32) (sequence : UInt64)
    (extension : String) : ReportFile :=
  let name :=
    "." ++ (path.fileName.getD "quokka-ci-test-report" ++
      ("." ++ toString processId ++ "." ++ toString sequence ++ "." ++ extension))
  { name := .text name
    display := joinPath (reportParent path) name }

/-- The name of a file next to the destination is longer than the one of the destination. -/
theorem report_sibling_ne (path : ReportPath) (processId : UInt32) (sequence : UInt64)
    (extension : String) :
    (reportSibling path processId sequence extension).name ≠ path.entryName := by
  unfold ReportPath.entryName reportSibling
  cases path.fileName with
  | none => nofun
  | some name =>
      intro h
      have hlength := congrArg String.length (EntryName.text.inj h)
      simp only [Option.getD_some, String.length_append] at hlength
      have hdot : ".".length = 1 := rfl
      omega

/-- The three files of a writer, which are different. -/
structure ReportPaths where
  destination : ReportFile
  temporary : ReportFile
  backup : ReportFile
  temporary_ne : temporary.name ≠ destination.name
  backup_ne : backup.name ≠ destination.name
  distinct : backup.name ≠ temporary.name

/-- The files of the writer for a path. -/
def ReportPaths.of (path : ReportPath) (processId : UInt32) (sequence : UInt64) : ReportPaths where
  destination := { name := path.entryName, display := path.display }
  temporary := reportSibling path processId sequence "tmp"
  backup := reportSibling path processId sequence "bak"
  temporary_ne := report_sibling_ne path processId sequence "tmp"
  backup_ne := report_sibling_ne path processId sequence "bak"
  distinct := by
    intro h
    unfold reportSibling at h
    simp only [EntryName.text.injEq, String.append_right_inj] at h
    exact absurd h (by decide)

/-- The writer. Its `output` is the open temporary file. -/
structure CiTestReportWriter extends ReportPaths where
  firstTest : Bool
  previousDestinationPresent : Bool
  destinationInstalled : Bool
  backupCreated : Bool

/-- A writer and the directory it works in. -/
structure ReportSession where
  writer : CiTestReportWriter
  disk : Disk EntryName

/-- The methods of a writer. An error is its text. -/
abbrev ReportIo := EStateM String ReportSession

namespace ReportIo

variable {α : Type}

/-- A file operation; its error gets a text. -/
def perform (operation : Io EntryName α) (text : String → String) : ReportIo α :=
  zoom ReportSession.disk (fun disk session => { session with disk })
    (EStateM.adaptExcept (fun error => text error.text) operation)

/-- A file operation whose error is looked at. -/
def outcome (operation : Io EntryName α) : ReportIo (Except IoError α) :=
  zoom ReportSession.disk (fun disk session => { session with disk }) (observe operation)

/-- The writer. -/
def self : ReportIo CiTestReportWriter := do
  let session ← get
  pure session.writer

/-- Set fields of the writer. -/
def setFlags (change : CiTestReportWriter → CiTestReportWriter) : ReportIo Unit :=
  modify fun session => { session with writer := change session.writer }

variable {post : α → ReportSession → Prop} {fail : String → ReportSession → Prop}
  {session : ReportSession}

theorem wp_perform {operation : Io EntryName α} {text : String → String} :
    wp (perform operation text) post fail session ↔
      wp operation (fun value disk => post value { session with disk })
        (fun error disk => fail (text error.text) { session with disk }) session.disk :=
  wp_zoom.trans wp_adapt

theorem wp_outcome {operation : Io EntryName α}
    {post : Except IoError α → ReportSession → Prop} :
    wp (outcome operation) post fail session ↔
      wp operation (fun value disk => post (.ok value) { session with disk })
        (fun error disk => post (.error error) { session with disk }) session.disk :=
  wp_zoom.trans wp_observe

@[simp] theorem wp_self {post : CiTestReportWriter → ReportSession → Prop} :
    wp self post fail session ↔ post session.writer session := Iff.rfl

@[simp] theorem wp_set_flags {change : CiTestReportWriter → CiTestReportWriter}
    {post : Unit → ReportSession → Prop} :
    wp (setFlags change) post fail session ↔
      post () { session with writer := change session.writer } := Iff.rfl

end ReportIo

open ReportIo

/-- What `serde_json` writes for an optional string and for the value of a finished test. -/
structure ReportJson where
  string : Option String → List UInt8
  test : FinishedTest → List UInt8

/-- The parts of the header, each with the text of an error that writing it has. -/
def headerParts (json : ReportJson) (context : SessionContext) : List (String × List UInt8) :=
  [("write report header: ",
      Text.bytes "\x7b\"schema\":\"quokka.ci-test-report.v1\",\"host_platform\":"),
    ("write host platform: ", json.string context.hostPlatform),
    ("write report trace prefix: ", Text.bytes ",\"trace_id\":"),
    ("write trace id: ", json.string context.traceId),
    ("write test array prefix: ", Text.bytes ",\"tests\":[")]

/-- The footer. -/
def reportFooter : List UInt8 := Text.bytes "]\x7d\n"

/-- Write parts of a file one after the other. -/
def writeParts (name : EntryName) :
    List (String × List UInt8) → EStateM String (Disk EntryName) Unit
  | [] => pure ()
  | (text, bytes) :: parts => do
      EStateM.adaptExcept (fun error => text ++ error.text) (Io.writeAll name bytes)
      writeParts name parts

namespace CiTestReportWriter

/-- Open the temporary file and write the header; a temporary file without its header is
removed. -/
def new (json : ReportJson) (context : SessionContext) (path : ReportPath) (processId : UInt32)
    (sequence : UInt64) : EStateM String (Disk EntryName) CiTestReportWriter := do
  EStateM.adaptExcept (fun error => "create report directory: " ++ error.text) Io.settle
  let paths := ReportPaths.of path processId sequence
  EStateM.adaptExcept
    (fun error => "create temporary report " ++ paths.temporary.display ++ ": " ++ error.text)
    (Io.createNew paths.temporary.name)
  match ← observe (writeParts paths.temporary.name (headerParts json context)) with
  | .ok () =>
      pure
        { toReportPaths := paths
          firstTest := true
          previousDestinationPresent := false
          destinationInstalled := false
          backupCreated := false }
  | .error error =>
      match ← observe (Io.removeFile paths.temporary.name) with
      | .ok () | .error .notFound => throw error
      | .error cleanupError =>
          throw (error ++ "; failed to remove temporary report " ++ paths.temporary.display ++
            ": " ++ cleanupError.text)

/-- Write to the temporary file. -/
def writeOutput (bytes : List UInt8) (text : String) : ReportIo Unit := do
  let self ← self
  perform (Io.writeAll self.temporary.name bytes) (text ++ ·)

/-- The separator before every test but the first. -/
def writeSeparator : ReportIo Unit := do
  let self ← self
  if self.firstTest then pure ()
  else writeOutput (Text.bytes ",") "write test separator: "

/-- Write the record of a test. -/
def writeTest (json : ReportJson) (finished : FinishedTest) : ReportIo Unit := do
  writeSeparator
  writeOutput (json.test finished) "write test record: "
  setFlags fun self => { self with firstTest := false }

/-- Write the records of tests, up to the first one that fails. -/
def writeTests (json : ReportJson) : List FinishedTest → ReportIo Unit
  | [] => pure ()
  | finished :: tests => do
      writeTest json finished
      writeTests json tests

/-- Keep a copy of what is at the destination. -/
def snapshotDestination : ReportIo Unit := do
  let self ← self
  match ← outcome (Io.isFile self.destination.name) with
  | .ok true =>
      perform (Io.copy self.destination.name self.backup.name)
        (fun error => "backup existing report " ++ self.destination.display ++ ": " ++ error)
      perform (Io.syncFile self.backup.name)
        (fun error => "sync report backup " ++ self.backup.display ++ ": " ++ error)
      setFlags fun self => { self with previousDestinationPresent := true, backupCreated := true }
  | .ok false =>
      throw ("backup report destination " ++ self.destination.display ++
        " is not a regular file")
  | .error .notFound => pure ()
  | .error error =>
      throw ("inspect existing report " ++ self.destination.display ++ ": " ++ error.text)

/-- Sync the directory of the report. -/
def syncParent : ReportIo Unit :=
  perform Io.settle ("sync report directory: " ++ ·)

/-- Where the last good report is when a rollback fails. -/
def recoveryPath (self : CiTestReportWriter) : ReportFile :=
  if self.backupCreated then self.backup else self.destination

/-- Remove what is at the destination. -/
def removeDestination (text : String) : ReportIo Unit := do
  let self ← self
  match ← outcome (Io.removeFile self.destination.name) with
  | .ok () | .error .notFound => pure ()
  | .error error => throw (text ++ error.text)

/-- Put the backup back into place. -/
def restorePrevious : ReportIo Unit := do
  let self ← self
  if !self.backupCreated then throw "previous report backup is missing"
  else
    removeDestination "remove failed report before rollback: "
    perform (Io.rename self.backup.name self.destination.name) ("restore previous report: " ++ ·)
    setFlags fun self => { self with backupCreated := false }
    perform (Io.syncFile self.destination.name) ("sync restored report: " ++ ·)

/-- Bring the destination back to what it was. -/
def restoreDestination : ReportIo Unit := do
  let self ← self
  if self.previousDestinationPresent then restorePrevious
  else removeDestination "remove failed report: "

/-- Undo what a failed `finish` has done to the destination. -/
def rollback : ReportIo Unit := do
  let self ← self
  if !self.destinationInstalled then pure ()
  else
    restoreDestination
    syncParent
    setFlags fun self => { self with destinationInstalled := false }

/-- Remove the backup. -/
def removeBackup : ReportIo Unit := do
  let self ← self
  if !self.backupCreated then pure ()
  else
    perform (Io.removeFile self.backup.name)
      (fun error => "remove report backup " ++ self.backup.display ++ ": " ++ error)
    setFlags fun self => { self with backupCreated := false }

/-- Complete the report and put it into place. -/
def finishInner : ReportIo Unit := do
  writeOutput reportFooter "write report footer: "
  perform Io.settle ("sync report: " ++ ·)
  snapshotDestination
  let self ← self
  perform (Io.rename self.temporary.name self.destination.name) ("rename report into place: " ++ ·)
  setFlags fun self => { self with destinationInstalled := true }
  syncParent
  removeBackup

/-- Remove files of the writer, and say which could not be removed. -/
def cleanupPaths (preserveRecovery : Bool) :
    List ReportFile → Option String → ReportIo (Option String)
  | [], detail => pure detail
  | path :: paths, detail => do
      let self ← self
      if preserveRecovery && path == self.backup then cleanupPaths preserveRecovery paths detail
      else
        match ← outcome (Io.removeFile path.name) with
        | .ok () | .error .notFound => cleanupPaths preserveRecovery paths detail
        | .error error =>
            let message :=
              "failed to remove temporary report " ++ path.display ++ ": " ++ error.text
            let detail :=
              match detail with
              | some existing => existing ++ "; " ++ message
              | none => message
            cleanupPaths preserveRecovery paths (some detail)

/-- Remove the temporary file and the backup; a backup to recover from stays. -/
def cleanup (preserveRecovery : Bool) : ReportIo (Option String) := do
  let self ← self
  cleanupPaths preserveRecovery [self.temporary, self.backup] none

/-- The text of a failed `finish`. -/
def finishDetail (error : String) (rollbackResult : Except String Unit)
    (recoveryPath : ReportFile) (cleanupError : Option String) : String :=
  error ++
    (match rollbackResult with
      | .error rollbackError =>
          "; rollback failed: " ++ rollbackError ++ "; recovery retained at " ++
            recoveryPath.display
      | .ok () => "") ++
    (match cleanupError with
      | some cleanupError => "; cleanup failed: " ++ cleanupError
      | none => "")

/-- The text of a `finish` whose rollback failed names the recovery path. -/
theorem finish_detail_names (error rollbackError : String) (recoveryPath : ReportFile)
    (cleanupError : Option String) :
    ∃ rest, finishDetail error (.error rollbackError) recoveryPath cleanupError =
      error ++ "; rollback failed: " ++ rollbackError ++ "; recovery retained at " ++
        recoveryPath.display ++ rest := by
  cases cleanupError with
  | none => exact ⟨"", by simp only [finishDetail, String.append_assoc]⟩
  | some cleanupError =>
      exact ⟨"; cleanup failed: " ++ cleanupError, by simp only [finishDetail, String.append_assoc]⟩

/-- Finish the report; when that fails, the destination is rolled back and the writer's files
are removed. -/
def finish : ReportIo Unit := do
  match ← observe finishInner with
  | .ok () => pure ()
  | .error error =>
      let rollbackResult ← observe rollback
      let self ← self
      let cleanupError ← cleanup (!rollbackResult.isOk)
      throw (finishDetail error rollbackResult self.recoveryPath cleanupError)

end CiTestReportWriter

end Quokka
