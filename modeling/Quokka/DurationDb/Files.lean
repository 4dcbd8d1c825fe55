import Quokka.DurationDb.Store
import Quokka.Library.Codec
import Quokka.Library.KeyedUpdate
import Quokka.Library.Text

/-!
# The duration store on disk

Base files, logs, `load` and `flush`, after `duration_db.rs`. The database has three sections,
each with a base file `.bin` and a log `.log`. A load reads the base and applies the records of
the log to it; a flush appends the new records and, when some log has become large, replaces
every base by the loaded contents and clears every log.

`DbSection.Contents` and `DbSection.Record` are what a section holds and what its log records.
A file that does not exist is `none`.
-/

namespace Quokka

open Codec

/-! ## Strings and identities -/

def failureClassToU8 : FailureClass → UInt8
  | .fail => 1
  | .fatal => 2
  | .timeout => 3
  | .infra => 4

def failureClassFromU8 (val : UInt8) : Option FailureClass :=
  if val = 1 then some .fail
  else if val = 2 then some .fatal
  else if val = 3 then some .timeout
  else if val = 4 then some .infra
  else none

/-- A class that may be missing as one byte. -/
def failureClassByte (failureClass : Option FailureClass) : UInt8 :=
  (failureClass.map failureClassToU8).getD 0

def readString : Reader String := do
  let lenBuf ← Reader.exact 4
  let len := leValue lenBuf
  if 10000 < len then Reader.fail
  else
    let buf ← Reader.exact len
    Reader.ofOption (Text.fromUtf8 buf)

def writeString (s : String) : List UInt8 :=
  leBytes 4 (Text.bytes s).length ++ Text.bytes s

def readTestIdentity : Reader TestIdentity := do
  let target ← readString
  let name ← readString
  let variantStr ← readString
  pure { target, name, variant := Variant.parse variantStr }

def writeTestIdentity (tid : TestIdentity) : List UInt8 :=
  writeString tid.target ++ writeString tid.name ++ writeString tid.variant.text

/-! ## Base files -/

section Bins

variable {ν : Type}

/-- The table of some read entries; a later one replaces an earlier one of its key. -/
def tableOf (entries : List (UInt64 × ν)) : Table UInt64 ν :=
  entries.foldl (fun table (key, value) => table.insert key value) ∅

/-- Read a counted table; without a count it is empty. -/
def readTable (entry : Reader (UInt64 × ν)) (input : List UInt8) : Table UInt64 ν × List UInt8 :=
  match Reader.exact 4 input with
  | (some lenBuf, rest) =>
      let (entries, rest) := Reader.times entry (leValue lenBuf) rest
      (tableOf entries, rest)
  | (none, rest) => (∅, rest)

/-- Write a table and its 32-bit count. -/
def writeTable (entry : UInt64 → ν → List UInt8) (table : Table UInt64 ν) : List UInt8 :=
  leBytes 4 table.entries.length ++ table.entries.flatMap fun e => entry e.1 e.2

/-- What follows the magic number of a base file, if it is the right one. -/
def afterMagic (magic : String) (bin : Option (List UInt8)) : Option (List UInt8) := do
  match Reader.exact 4 (← bin) with
  | (some found, rest) => if found = Text.bytes magic then some rest else none
  | (none, _) => none

/-- Read one table for each environment. -/
def readEnvironments (magic : String) (entry : Reader (UInt64 × ν)) (bin : Option (List UInt8)) :
    Environment → Table UInt64 ν :=
  match afterMagic magic bin with
  | some body =>
      let (localTable, rest) := readTable entry body
      let (remoteTable, _) := readTable entry rest
      fun
        | .local => localTable
        | .remote => remoteTable
  | none => fun _ => ∅

/-- Write one table for each environment. -/
def writeEnvironments (magic : String) (entry : UInt64 → ν → List UInt8)
    (tables : Environment → Table UInt64 ν) : List UInt8 :=
  Text.bytes magic ++ writeTable entry (tables .local) ++ writeTable entry (tables .remote)

end Bins

def readSample : Reader DurationSample := do
  let tsBuf ← Reader.exact 8
  let durBuf ← Reader.exact 8
  pure ⟨u64OfBytes tsBuf, u64OfBytes durBuf⟩

def readPerfEntry : Reader (UInt64 × PerfRecord) := do
  let kBuf ← Reader.exact 8
  let samplesLen ← Reader.exact 1
  let samples ← Reader.many readSample (leValue samplesLen)
  pure (u64OfBytes kBuf, ⟨samples⟩)

def writePerfEntry (key : UInt64) (perf : PerfRecord) : List UInt8 :=
  u64Bytes key ++ leBytes 1 perf.samples.length ++
    perf.samples.flatMap fun s => u64Bytes s.timestampMs ++ u64Bytes s.durationMs

/-- The timestamp that stands for none. -/
def noTimestamp : UInt64 := .ofNat (UInt64.size - 1)

def readFlakeEntry : Reader (UInt64 × FlakeRecord) := do
  let kBuf ← Reader.exact 8
  let runsBuf ← Reader.exact 8
  let failBuf ← Reader.exact 8
  let tsBuf ← Reader.exact 8
  let classBuf ← Reader.exact 1
  let ts := u64OfBytes tsBuf
  pure (u64OfBytes kBuf,
    { runs := u64OfBytes runsBuf
      failures := u64OfBytes failBuf
      lastFailureTimestampMs := if ts = noTimestamp then none else some ts
      lastFailureClass := failureClassFromU8 (classBuf.headD 0) })

def writeFlakeEntry (key : UInt64) (flake : FlakeRecord) : List UInt8 :=
  u64Bytes key ++ u64Bytes flake.runs ++ u64Bytes flake.failures ++
    u64Bytes (flake.lastFailureTimestampMs.getD noTimestamp) ++
    [failureClassByte flake.lastFailureClass]

def readNameEntry : Reader (UInt64 × TestIdentity) := do
  let kBuf ← Reader.exact 8
  let tid ← readTestIdentity
  pure (u64OfBytes kBuf, tid)

def writeNameEntry (key : UInt64) (tid : TestIdentity) : List UInt8 :=
  u64Bytes key ++ writeTestIdentity tid

/-! ## Logs -/

/-- The environment of an index byte. -/
def Environment.ofIndex (index : UInt8) : Option Environment :=
  Environment.all.find? fun env => env.toIndex == index

def perfLogBytes (sample : PerfSample) : List UInt8 :=
  [sample.env.toIndex] ++ u64Bytes sample.key ++ u64Bytes sample.timestampMs ++
    u64Bytes sample.durationMs

/-- The sample of a 25 byte record; one of an unknown environment is skipped. -/
def perfLogRecord (image : List UInt8) : Option PerfSample :=
  (Environment.ofIndex (image.headD 0)).map fun env =>
    { env
      key := u64OfBytes ((image.drop 1).take 8)
      timestampMs := u64OfBytes ((image.drop 9).take 8)
      durationMs := u64OfBytes ((image.drop 17).take 8) }

def flakeLogBytes (sample : FlakeSample) : List UInt8 :=
  [sample.env.toIndex] ++ u64Bytes sample.key ++ [if sample.failed then 1 else 0] ++
    [failureClassByte sample.failureClass] ++ u64Bytes sample.timestampMs

/-- The outcome of a 19 byte record; one of an unknown environment is skipped. -/
def flakeLogRecord (image : List UInt8) : Option FlakeSample :=
  (Environment.ofIndex (image.headD 0)).map fun env =>
    { env
      key := u64OfBytes ((image.drop 1).take 8)
      failed := (image.drop 9).headD 0 != 0
      failureClass := failureClassFromU8 ((image.drop 10).headD 0)
      timestampMs := u64OfBytes ((image.drop 11).take 8) }

/-- Read names until the log ends, at most `fuel` times. A name that cannot be read is skipped;
without a whole key the loop breaks. -/
def readNameLog : Nat → List UInt8 → List (UInt64 × TestIdentity)
  | 0, _ => []
  | _ + 1, [] => []
  | fuel + 1, input =>
      match Reader.exact 8 input with
      | (none, _) => []
      | (some kBuf, rest) =>
          let (tid, rest) := readTestIdentity rest
          (tid.toList.map fun tid => (u64OfBytes kBuf, tid)) ++ readNameLog fuel rest

/-! ## Sections -/

/-- The sections of the database, in the order in which they are written. -/
inductive DbSection where
  | perf
  | flake
  | names
  deriving DecidableEq, Repr

/-- A family over the sections from its three members. -/
def DbSection.each {α : DbSection → Type} (perf : α .perf) (flake : α .flake)
    (names : α .names) : (s : DbSection) → α s
  | .perf => perf
  | .flake => flake
  | .names => names

/-- The two files of a section. -/
structure SectionFiles where
  bin : Option (List UInt8)
  log : Option (List UInt8)
  deriving DecidableEq

/-- The files of the database. -/
abbrev DbFiles := DbSection → SectionFiles

namespace DbSection

/-- What a section holds. -/
@[reducible] def Contents : DbSection → Type
  | .perf => Environment → Table UInt64 PerfRecord
  | .flake => Environment → Table UInt64 FlakeRecord
  | .names => Table UInt64 TestIdentity

/-- What the log of a section records. -/
@[reducible] def Record : DbSection → Type
  | .perf => PerfSample
  | .flake => FlakeSample
  | .names => UInt64 × TestIdentity

/-- Read a base file. -/
def readBin : (s : DbSection) → Option (List UInt8) → s.Contents
  | .perf, bin => readEnvironments "PRF1" readPerfEntry bin
  | .flake, bin => readEnvironments "FLK1" readFlakeEntry bin
  | .names, bin =>
      match afterMagic "NMS1" bin with
      | some body => (readTable readNameEntry body).1
      | none => ∅

/-- Write a base file. -/
def writeBin : (s : DbSection) → s.Contents → List UInt8
  | .perf, tables => writeEnvironments "PRF1" writePerfEntry tables
  | .flake, tables => writeEnvironments "FLK1" writeFlakeEntry tables
  | .names, table => Text.bytes "NMS1" ++ writeTable writeNameEntry table

/-- Read a log. -/
def readLog : (s : DbSection) → List UInt8 → List s.Record
  | .perf, log => (records 25 log).filterMap perfLogRecord
  | .flake, log => (records 19 log).filterMap flakeLogRecord
  | .names, log => readNameLog log.length log

/-- The bytes of a log record. -/
def logBytes : (s : DbSection) → s.Record → List UInt8
  | .perf, sample => perfLogBytes sample
  | .flake, sample => flakeLogBytes sample
  | .names, (key, tid) => writeNameEntry key tid

/-- Apply a log record. -/
def record (profile : BuildProfile) : (s : DbSection) → s.Contents → s.Record → MayPanic s.Contents
  | .perf, tables, sample =>
      .ok (Function.update tables sample.env
        ((tables sample.env).update sample.key fun existing =>
          (existing.getD {}).record sample.timestampMs sample.durationMs))
  | .flake, tables, sample => do
      let counted ← (((tables sample.env).lookup sample.key).getD {}).record profile
        sample.failed sample.failureClass sample.timestampMs
      pure (Function.update tables sample.env ((tables sample.env).insert sample.key counted))
  | .names, table, (key, tid) => .ok (table.insert key tid)

/-- Load a section: its base with the records of its log. -/
def load (profile : BuildProfile) (s : DbSection) (files : SectionFiles) : MayPanic s.Contents :=
  (s.readLog (files.log.getD [])).foldlM (s.record profile) (s.readBin files.bin)

end DbSection

namespace DurationDb

/-- What the store holds in a section. -/
def contents (db : DurationDb) : (s : DbSection) → s.Contents
  | .perf => db.perf
  | .flake => db.flake
  | .names => db.names

/-- The records of a section that are not on disk yet. -/
def pending (db : DurationDb) : (s : DbSection) → List s.Record
  | .perf => db.newPerfSamples
  | .flake => db.newFlakeRecords
  | .names => db.newNames

/-- Load the store from a directory. -/
def load (profile : BuildProfile) (dir : String) (files : DbFiles) : MayPanic DurationDb := do
  let perf ← DbSection.load profile .perf (files .perf)
  let flake ← DbSection.load profile .flake (files .flake)
  let names ← DbSection.load profile .names (files .names)
  pure { ephemeral with dir, perf, flake, names }

/-- A log that grew beyond this many bytes is compacted. -/
def compactionThreshold : Nat := 512 * 1024

/-- `append_records`: nothing is written for an empty batch. -/
def appendRecords (s : DbSection) (files : SectionFiles) (batch : List s.Record) : SectionFiles :=
  if batch.isEmpty then files
  else { files with log := some (files.log.getD [] ++ batch.flatMap s.logBytes) }

/-- Whether some log is large. -/
def needsCompaction (files : DbFiles) : Bool :=
  [DbSection.perf, .flake, .names].any fun s =>
    compactionThreshold < ((files s).log.getD []).length

/-- A flush whose file operations all succeed: it appends the new records and compacts the
files if some log is large. -/
def flush (profile : BuildProfile) (files : DbFiles) (db : DurationDb) :
    MayPanic (DbFiles × DurationDb) :=
  if db.dir.isEmpty then .ok (files, db)
  else
    let appended : DbFiles := fun s => appendRecords s (files s) (db.pending s)
    let db := { db with newPerfSamples := [], newFlakeRecords := [], newNames := [] }
    if needsCompaction appended then do
      let dbDisk ← load profile db.dir appended
      pure (fun s => ⟨some (s.writeBin (dbDisk.contents s)), some []⟩, db)
    else .ok (appended, db)

end DurationDb

end Quokka
