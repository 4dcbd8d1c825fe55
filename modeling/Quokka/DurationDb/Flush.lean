import Quokka.DurationDb.OnDisk

/-!
# A flush as its file operations

`DurationDb::flush` of processes that share one directory, after `duration_db.rs`. `flushStep`
is one atomic file operation of a process at its program point: an attempt to create the lock
file, the look at its age and the removal of a stale one, the append to a log, the size of a
log, the two reads of a section by the load, the temporary file, the rename and the truncation,
and the removal of the lock file.

Every operation may fail. The clock, the failures and the order in which processes take steps
are chosen from outside (`FlushEvent`).
-/

namespace Quokka

namespace DbSection

/-- The position of a section. -/
def index : DbSection → Nat
  | .perf => 0
  | .flake => 1
  | .names => 2

/-- The section that is written next. -/
def following : DbSection → Option DbSection
  | .perf => some .flake
  | .flake => some .names
  | .names => none

def binName : DbSection → String
  | .perf => "perf.bin"
  | .flake => "flake.bin"
  | .names => "names.bin"

def logName : DbSection → String
  | .perf => "perf.log"
  | .flake => "flake.log"
  | .names => "names.log"

/-- What the records of a section are called in an error. -/
def recordsText : DbSection → String
  | .perf => "perf sample(s)"
  | .flake => "flake record(s)"
  | .names => "name(s)"

end DbSection

/-- `Path::join` of a directory and a file name. -/
def joinPath (dir name : String) : String :=
  if dir.endsWith "/" then dir ++ name else dir ++ "/" ++ name

/-- The program points of a flush. -/
inductive FlushPc where
  | createDir
  | lock (attempt : Nat)
  | lockStat (attempt : Nat)
  | lockRemove (attempt : Nat)
  | append (s : DbSection)
  | stat (s : DbSection)
  | readBin (s : DbSection)
  | readLog (s : DbSection)
  | writeTmp (s : DbSection)
  | rename (s : DbSection)
  | truncate (s : DbSection)
  | unlock
  | done (result : Except String Unit)
  | panicked (message : String)

/-- A process in a flush: the records that are not on disk yet, and the locals. `base` and
`dbDisk` are what the load has read so far, `tmp` is the temporary file of the process. -/
structure FlushProcess where
  pc : FlushPc
  dir : String
  pending : (s : DbSection) → List s.Record
  lockAcquired : Bool
  errors : List String
  large : Bool
  base : (s : DbSection) → s.Contents
  dbDisk : (s : DbSection) → s.Contents
  tmp : List UInt8

/-- The directory: the lock file by the time of its last change, and the files of the sections.
Times are in nanoseconds. -/
structure SharedDir where
  clock : Nat
  lock : Option Nat
  files : DbFiles

/-- How a file operation ends. An append that fails may have written some bytes. -/
inductive IoResult where
  | ok
  | failed (message : String) (written : Nat)

/-- A process that starts to flush a store. -/
def FlushProcess.start (db : DurationDb) : FlushProcess where
  pc := if db.dir.isEmpty then .done (.ok ()) else .createDir
  dir := db.dir
  pending := db.pending
  lockAcquired := false
  errors := []
  large := false
  base := DurationDb.ephemeral.contents
  dbDisk := DurationDb.ephemeral.contents
  tmp := []

/-! ## The lock -/

/-- How often the lock is tried. -/
def lockAttempts : Nat := 200

/-- The age in nanoseconds beyond which a lock is removed. -/
def staleLockAge : Nat := 10 * 10 ^ 9

/-- After an attempt that did not get the lock. -/
def afterAttempt (attempt : Nat) : FlushPc :=
  if attempt + 1 < lockAttempts then .lock (attempt + 1) else .append .perf

/-- Create the lock file, which must not exist. -/
def tryLock (shared : SharedDir) (p : FlushProcess) (attempt : Nat) (io : IoResult) :
    SharedDir × FlushProcess :=
  match io, shared.lock with
  | .ok, none =>
      ({ shared with lock := some shared.clock },
        { p with lockAcquired := true, pc := .append .perf })
  | .ok, some _ => (shared, { p with pc := .lockStat attempt })
  -- Any error other than `AlreadyExists` ends the attempts.
  | .failed _ _, _ => (shared, { p with pc := .append .perf })

/-- Look how old the lock file is. Whose it is does not matter. -/
def statLock (shared : SharedDir) (p : FlushProcess) (attempt : Nat) (io : IoResult) :
    SharedDir × FlushProcess :=
  match io, shared.lock with
  | .ok, some modified =>
      if staleLockAge < shared.clock - modified then
        (shared, { p with pc := .lockRemove attempt })
      else (shared, { p with pc := afterAttempt attempt })
  | _, _ => (shared, { p with pc := afterAttempt attempt })

/-- Remove the lock file, whoever created it since. -/
def removeLock (shared : SharedDir) (p : FlushProcess) (attempt : Nat) (io : IoResult) :
    SharedDir × FlushProcess :=
  match io with
  | .ok => ({ shared with lock := none }, { p with pc := afterAttempt attempt })
  | .failed _ _ => (shared, { p with pc := afterAttempt attempt })

/-- What a flush returns. -/
def flushResult (errors : List String) : Except String Unit :=
  if errors.isEmpty then .ok ()
  else
    .error ("duration DB flush incomplete (" ++ toString errors.length ++
      " section(s) failed): " ++ "; ".intercalate errors)

/-- Remove the lock file of a process that created one, and return. -/
def unlock (shared : SharedDir) (p : FlushProcess) (io : IoResult) : SharedDir × FlushProcess :=
  match p.lockAcquired, io with
  | true, .ok => ({ shared with lock := none }, { p with pc := .done (flushResult p.errors) })
  | _, _ => (shared, { p with pc := .done (flushResult p.errors) })

/-! ## Appends and sizes -/

/-- Where a flush goes on after the append to a log. -/
def afterAppend (s : DbSection) : FlushPc :=
  match s.following with
  | some next => .append next
  | none => .stat .perf

/-- Append the new records of a section to its log. -/
def appendSection (shared : SharedDir) (p : FlushProcess) (s : DbSection) (io : IoResult) :
    SharedDir × FlushProcess :=
  if (p.pending s).isEmpty then (shared, { p with pc := afterAppend s })
  else
    match io with
    | .ok =>
        ({ shared with
            files := Function.update shared.files s
              (DurationDb.appendRecords s (shared.files s) (p.pending s)) },
          { p with pc := afterAppend s, pending := Function.update p.pending s [] })
    | .failed message written =>
        let buf := (p.pending s).flatMap s.logBytes
        let log := if written = 0 then (shared.files s).log
          else some ((shared.files s).log.getD [] ++ buf.take written)
        ({ shared with files := Function.update shared.files s { shared.files s with log } },
          { p with
            pc := afterAppend s
            errors := p.errors ++ [toString (p.pending s).length ++ " " ++ s.recordsText ++
              " -> " ++ joinPath p.dir s.logName ++ ": " ++ message] })

/-- Where a flush goes on after the size of a log; after the last one it compacts or not. -/
def afterStat (s : DbSection) (large : Bool) : FlushPc :=
  match s.following with
  | some next => .stat next
  | none => if large then .readBin .perf else .unlock

/-- The size of a log. -/
def statSection (shared : SharedDir) (p : FlushProcess) (s : DbSection) (io : IoResult) :
    SharedDir × FlushProcess :=
  let size := match io with
    | .ok => ((shared.files s).log.getD []).length
    | .failed _ _ => 0
  let large := p.large || decide (DurationDb.compactionThreshold < size)
  (shared, { p with pc := afterStat s large, large })

/-! ## Compaction -/

/-- The load reads a base file; one that cannot be opened is taken for a missing one. -/
def loadBin (shared : SharedDir) (p : FlushProcess) (s : DbSection) (io : IoResult) :
    SharedDir × FlushProcess :=
  let bin := match io with
    | .ok => (shared.files s).bin
    | .failed _ _ => none
  (shared, { p with pc := .readLog s, base := Function.update p.base s (s.readBin bin) })

/-- Where a flush goes on after the load of a section. -/
def afterLoad (s : DbSection) : FlushPc :=
  match s.following with
  | some next => .readBin next
  | none => .writeTmp .perf

/-- The load reads a log and applies its records to the base; counting them may panic. -/
def loadLog (profile : BuildProfile) (shared : SharedDir) (p : FlushProcess) (s : DbSection)
    (io : IoResult) : SharedDir × FlushProcess :=
  let log := match io with
    | .ok => (shared.files s).log.getD []
    | .failed _ _ => []
  match (s.readLog log).foldlM (s.record profile) (p.base s) with
  | .ok contents =>
      (shared, { p with pc := afterLoad s, dbDisk := Function.update p.dbDisk s contents })
  | .error message => (shared, { p with pc := .panicked message })

/-- Where a flush goes on after the compaction of a section. -/
def afterCompaction (s : DbSection) : FlushPc :=
  match s.following with
  | some next => .writeTmp next
  | none => .unlock

/-- A section whose compaction failed. -/
def compactionFailed (p : FlushProcess) (s : DbSection) (message : String) : FlushProcess :=
  { p with
    pc := afterCompaction s
    errors := p.errors ++ ["compact " ++ s.binName ++ ": " ++ message] }

/-- Write the loaded contents of a section to the temporary file. -/
def writeTmp (shared : SharedDir) (p : FlushProcess) (s : DbSection) (io : IoResult) :
    SharedDir × FlushProcess :=
  match io with
  | .ok => (shared, { p with pc := .rename s, tmp := s.writeBin (p.dbDisk s) })
  | .failed message _ => (shared, compactionFailed p s message)

/-- Rename the temporary file to the base file. -/
def renameTmp (shared : SharedDir) (p : FlushProcess) (s : DbSection) (io : IoResult) :
    SharedDir × FlushProcess :=
  match io with
  | .ok =>
      ({ shared with
          files := Function.update shared.files s { shared.files s with bin := some p.tmp } },
        { p with pc := .truncate s })
  | .failed message _ => (shared, compactionFailed p s message)

/-- Truncate the log. -/
def truncateLog (shared : SharedDir) (p : FlushProcess) (s : DbSection) (io : IoResult) :
    SharedDir × FlushProcess :=
  match io with
  | .ok =>
      ({ shared with
          files := Function.update shared.files s { shared.files s with log := some [] } },
        { p with pc := afterCompaction s })
  | .failed message _ => (shared, compactionFailed p s message)

/-! ## Steps -/

/-- One step of a process. -/
def flushStep (profile : BuildProfile) (shared : SharedDir) (p : FlushProcess) (io : IoResult) :
    SharedDir × FlushProcess :=
  match p.pc with
  | .createDir =>
      match io with
      | .ok => (shared, { p with pc := .lock 0 })
      | .failed message _ => (shared, { p with pc := .done (.error message) })
  | .lock attempt => tryLock shared p attempt io
  | .lockStat attempt => statLock shared p attempt io
  | .lockRemove attempt => removeLock shared p attempt io
  | .append s => appendSection shared p s io
  | .stat s => statSection shared p s io
  | .readBin s => loadBin shared p s io
  | .readLog s => loadLog profile shared p s io
  | .writeTmp s => writeTmp shared p s io
  | .rename s => renameTmp shared p s io
  | .truncate s => truncateLog shared p s io
  | .unlock => unlock shared p io
  | .done _ => (shared, p)
  | .panicked _ => (shared, p)

end Quokka
