import Quokka.DurationDb.OnDisk
import Quokka.DurationDb.Operations

/-!
# The store on disk follows the store in memory

Sessions use one directory one after another. A session loads the store and flushes it after
each batch of operations; what the last one leaves on disk is loaded as the store that all the
operations make of an empty store in memory.

`Follows` is the relation between a session's files and store and the store in memory, which
operations (`Follows.perform`) and flushes (`Follows.flush`) keep, whether or not a flush
compacts the files. `Settled.sessions` is the run.
-/

namespace Quokka

namespace DurationDb

/-- A directory without files. -/
def noFiles : DbFiles := fun _ => ⟨none, none⟩

section Sessions

variable [HashKey] (profile : BuildProfile)

/-- Perform a batch of operations and flush. -/
def performAndFlush (state : DbFiles × DurationDb) (ops : List DbOp) :
    MayPanic (DbFiles × DurationDb) := do
  let db ← state.2.performAll profile ops
  flush profile state.1 db

/-- One session on a directory: load, then perform and flush each batch. -/
def session (dir : String) (files : DbFiles) (batches : List (List DbOp)) :
    MayPanic (DbFiles × DurationDb) := do
  let db ← load profile dir files
  batches.foldlM (performAndFlush profile) (files, db)

/-- Sessions on a directory, one after another. -/
def sessions (dir : String) (files : DbFiles) (runs : List (List (List DbOp))) :
    MayPanic DbFiles :=
  runs.foldlM (fun files batches => (session profile dir files batches).map Prod.fst) files

end Sessions

/-! ## Following the store in memory -/

/-- Two stores in which the same is found. -/
def Same (db mem : DurationDb) : Prop :=
  ∀ s : DbSection, s.find (db.contents s) = s.find (mem.contents s)

/-- The keys that are found in a store are among some keys. -/
def KeysAmong (keys : List UInt64) (db : DurationDb) : Prop :=
  ∀ (s : DbSection) (key : s.Key) (value : s.Value), s.find (db.contents s) key = some value →
    s.hashOf key ∈ keys

/-- The files hold what the store in memory holds, and no log is large. -/
structure Settled (profile : BuildProfile) (files : DbFiles) (mem : DurationDb) : Prop where
  holds : ∀ s : DbSection, s.Holds profile (files s) (s.find (mem.contents s))
  small_logs : needsCompaction files = false

/-- The files, followed by the records that are not on disk yet, hold what the store in memory
holds, and so does the store of the session. -/
structure Follows (profile : BuildProfile) (files : DbFiles) (db mem : DurationDb) : Prop where
  holds : ∀ s : DbSection, ∃ found, s.Holds profile (files s) found ∧
    (s.update profile).replay found (db.pending s) = .ok (s.find (mem.contents s))
  pending_storable : ∀ s : DbSection, ∀ record ∈ db.pending s, s.StorableRecord record
  same : db.Same mem

variable {profile : BuildProfile}

/-- Loading files that hold something. -/
theorem load_eq_ok {files : DbFiles} {found : (s : DbSection) → s.Key → Option s.Value}
    (dir : String) (h : ∀ s : DbSection, s.Holds profile (files s) (found s)) :
    ∃ db, load profile dir files = .ok db ∧ db.dir = dir ∧ (∀ s, db.pending s = []) ∧
      ∀ s : DbSection, s.find (db.contents s) = found s := by
  obtain ⟨perf, hperf, hperfFound⟩ := (h .perf).load
  obtain ⟨flake, hflake, hflakeFound⟩ := (h .flake).load
  obtain ⟨names, hnames, hnamesFound⟩ := (h .names).load
  refine ⟨{ ephemeral with dir, perf, flake, names }, ?_, rfl, ?_, ?_⟩
  · unfold load
    rw [hperf, hflake, hnames]
    rfl
  · intro s
    cases s <;> rfl
  · intro s
    cases s with
    | perf => exact hperfFound
    | flake => exact hflakeFound
    | names => exact hnamesFound

/-- A session whose records are all on disk. -/
theorem Follows.of_settled {files : DbFiles} {db mem : DurationDb}
    (h : Settled profile files mem) (hpending : ∀ s, db.pending s = []) (hsame : db.Same mem) :
    Follows profile files db mem := by
  refine ⟨fun s => ⟨_, h.holds s, ?_⟩, ?_, hsame⟩
  · rw [hpending]
    rfl
  · intro s record hrecord
    rw [hpending] at hrecord
    cases hrecord

/-- A session starts with the store in memory. -/
theorem Settled.load {files : DbFiles} {mem : DurationDb} (h : Settled profile files mem)
    (dir : String) :
    ∃ db, DurationDb.load profile dir files = .ok db ∧ db.dir = dir ∧
      (∀ s, db.pending s = []) ∧ Follows profile files db mem := by
  obtain ⟨db, hdb, hdir, hpending, hsame⟩ := load_eq_ok dir h.holds
  exact ⟨db, hdb, hdir, hpending, .of_settled h hpending hsame⟩

/-- An empty directory and an empty store. -/
theorem settled_no_files : Settled profile noFiles ephemeral := by
  refine ⟨fun s => ⟨fun _ => none, [], s.on_disk_none, ?_⟩, rfl⟩
  cases s <;> rfl

section Steps

variable [HashKey]

/-- An operation on both stores. -/
theorem Follows.perform {files : DbFiles} {db mem nextMem : DurationDb} {op : DbOp}
    (h : Follows profile files db mem) (hop : op.Storable)
    (hmem : mem.perform profile op = .ok nextMem) :
    ∃ nextDb, db.perform profile op = .ok nextDb ∧ nextDb.dir = db.dir ∧
      Follows profile files nextDb nextMem := by
  have hextends := perform_spec hmem
  have hknows : db.knows op.key = mem.knows op.key := by
    unfold knows
    rw [h.same .names]
  have hflake : DbSection.find .flake db.flake = DbSection.find .flake mem.flake := h.same .flake
  obtain ⟨nextDb, hdb⟩ := exists_perform (by rw [hflake]; exact hextends.replay_eq .flake)
  have hown := perform_spec hdb
  rw [hknows] at hown
  refine ⟨nextDb, hdb, hown.dir_eq, ?_, ?_, ?_⟩
  · intro s
    obtain ⟨found, hfound, hreplay⟩ := h.holds s
    refine ⟨found, hfound, ?_⟩
    rw [hown.pending_eq s, KeyedUpdate.replay_append, hreplay]
    exact hextends.replay_eq s
  · intro s record hrecord
    rw [hown.pending_eq s] at hrecord
    rcases List.mem_append.mp hrecord with hold | hnew
    · exact h.pending_storable s record hold
    · exact records_storable hop _ s record hnew
  · intro s
    have hreplay := hown.replay_eq s
    rw [h.same s, hextends.replay_eq s] at hreplay
    exact (Except.ok.inj hreplay).symm

/-- A batch of operations on both stores. -/
theorem Follows.performAll {files : DbFiles} {db mem nextMem : DurationDb} {ops : List DbOp}
    (h : Follows profile files db mem) (hops : ∀ op ∈ ops, op.Storable)
    (hmem : mem.performAll profile ops = .ok nextMem) :
    ∃ nextDb, db.performAll profile ops = .ok nextDb ∧ nextDb.dir = db.dir ∧
      Follows profile files nextDb nextMem := by
  induction ops generalizing db mem with
  | nil =>
      cases hmem
      exact ⟨db, rfl, rfl, h⟩
  | cons op ops ih =>
      obtain ⟨middle, hfirst, hrest⟩ := Except.foldlM_cons_eq_ok.mp hmem
      obtain ⟨dbMiddle, hdbFirst, hdir, hmiddle⟩ := h.perform (hops op List.mem_cons_self) hfirst
      obtain ⟨nextDb, hdbRest, hdirRest, hnext⟩ :=
        ih hmiddle (fun other hother => hops other (List.mem_cons_of_mem _ hother)) hrest
      exact ⟨nextDb, Except.foldlM_cons_eq_ok.mpr ⟨dbMiddle, hdbFirst, hdbRest⟩,
        hdirRest.trans hdir, hnext⟩

/-- Operations keep the keys of the store among theirs. -/
theorem KeysAmong.performAll {keys : List UInt64} {mem nextMem : DurationDb} {ops : List DbOp}
    (h : KeysAmong keys mem) (hops : ∀ op ∈ ops, op.key ∈ keys)
    (hmem : mem.performAll profile ops = .ok nextMem) : KeysAmong keys nextMem := by
  induction ops generalizing mem with
  | nil => cases hmem; exact h
  | cons op ops ih =>
      obtain ⟨middle, hfirst, hrest⟩ := Except.foldlM_cons_eq_ok.mp hmem
      refine ih ?_ (fun other hother => hops other (List.mem_cons_of_mem _ hother)) hrest
      intro s
      refine (s.update profile).replay_invariant (P := fun key _ => s.hashOf key ∈ keys) ?_ (h s)
        ((perform_spec hfirst).replay_eq s)
      intro record hrecord _ _ _ _
      rw [records_key op _ s record hrecord]
      exact hops op List.mem_cons_self

end Steps

/-- The files after the new records are appended hold what the store in memory holds. -/
theorem Follows.appended {files : DbFiles} {db mem : DurationDb}
    (h : Follows profile files db mem) (s : DbSection) :
    s.Holds profile (appendRecords s (files s) (db.pending s)) (s.find (mem.contents s)) := by
  obtain ⟨found, hfound, hreplay⟩ := h.holds s
  exact hfound.append (h.pending_storable s) hreplay

/-- A flush that finds a large log compacts. -/
theorem flush_of_large {files : DbFiles} {db disk : DurationDb} (hdir : db.dir.isEmpty = false)
    (hlarge : needsCompaction (fun s => appendRecords s (files s) (db.pending s)) = true)
    (hdisk : DurationDb.load profile db.dir
      (fun s => appendRecords s (files s) (db.pending s)) = .ok disk) :
    DurationDb.flush profile files db =
      .ok (fun s => ⟨some (s.writeBin (disk.contents s)), some []⟩,
        { db with newPerfSamples := [], newFlakeRecords := [], newNames := [] }) := by
  unfold DurationDb.flush
  rw [hdir]
  simp only [Bool.false_eq_true, if_false]
  rw [if_pos hlarge, hdisk]
  rfl

/-- A flush leaves on disk what the store in memory holds. -/
theorem Follows.flush {keys : List UInt64} {files : DbFiles} {db mem : DurationDb}
    (h : Follows profile files db mem) (hdir : db.dir.isEmpty = false)
    (hkeys : KeysAmong keys mem) (hcount : keys.length < 2 ^ 32) :
    ∃ nextFiles nextDb, DurationDb.flush profile files db = .ok (nextFiles, nextDb) ∧
      nextDb.dir = db.dir ∧ (∀ s, nextDb.pending s = []) ∧ Settled profile nextFiles mem ∧
      Follows profile nextFiles nextDb mem := by
  let appended : DbFiles := fun s => appendRecords s (files s) (db.pending s)
  let flushed : DurationDb :=
    { db with newPerfSamples := [], newFlakeRecords := [], newNames := [] }
  have hpending : ∀ s, flushed.pending s = [] := by
    intro s
    cases s <;> rfl
  have hcontents : flushed.contents = db.contents := by
    funext s
    cases s <;> rfl
  have hsame : flushed.Same mem := by
    intro s
    rw [hcontents]
    exact h.same s
  by_cases hlarge : needsCompaction appended = true
  · obtain ⟨disk, hdisk, -, -, hdiskSame⟩ := load_eq_ok db.dir h.appended
    have hsettled : Settled profile (fun s => ⟨some (s.writeBin (disk.contents s)), some []⟩)
        mem := by
      refine ⟨fun s => ?_, rfl⟩
      have hfound := h.appended s
      rw [← hdiskSame s] at hfound ⊢
      refine hfound.compact (DbSection.small_of_keys (fun key value hvalue => ?_) hcount)
      rw [hdiskSame s] at hvalue
      exact hkeys s key value hvalue
    exact ⟨_, flushed, flush_of_large hdir hlarge hdisk, rfl, hpending, hsettled,
      .of_settled hsettled hpending hsame⟩
  · have hsettled : Settled profile appended mem := ⟨h.appended, by simpa using hlarge⟩
    refine ⟨appended, flushed, ?_, rfl, hpending, hsettled, .of_settled hsettled hpending hsame⟩
    unfold DurationDb.flush
    rw [hdir]
    simp only [Bool.false_eq_true, if_false]
    rw [if_neg hlarge]

/-- A flush with nothing new changes nothing on settled files. -/
theorem flush_again {files : DbFiles} {db mem : DurationDb} (h : Settled profile files mem)
    (hpending : ∀ s, db.pending s = []) : DurationDb.flush profile files db = .ok (files, db) := by
  have hsame : (fun s => appendRecords s (files s) (db.pending s)) = files := by
    funext s
    rw [hpending]
    rfl
  have hflushed : ({ db with newPerfSamples := [], newFlakeRecords := [], newNames := [] } :
      DurationDb) = db := by
    have hperf : db.newPerfSamples = [] := hpending .perf
    have hflake : db.newFlakeRecords = [] := hpending .flake
    have hnames : db.newNames = [] := hpending .names
    cases db
    simp_all
  unfold DurationDb.flush
  split
  · rfl
  · dsimp only
    rw [hsame, h.small_logs, hflushed]
    rfl

/-! ## Sessions -/

section Sessions

variable [HashKey]

/-- The batches of a session. -/
theorem Follows.batches {keys : List UInt64} {files : DbFiles} {db mem nextMem : DurationDb}
    {batches : List (List DbOp)} (h : Follows profile files db mem)
    (hsettled : Settled profile files mem) (hnone : ∀ s, db.pending s = [])
    (hdir : db.dir.isEmpty = false) (hkeys : KeysAmong keys mem) (hcount : keys.length < 2 ^ 32)
    (hops : ∀ op ∈ batches.flatten, op.Storable ∧ op.key ∈ keys)
    (hmem : mem.performAll profile batches.flatten = .ok nextMem) :
    ∃ nextFiles nextDb,
      batches.foldlM (performAndFlush profile) (files, db) = .ok (nextFiles, nextDb) ∧
      Settled profile nextFiles nextMem ∧ (∀ s, nextDb.pending s = []) ∧
      KeysAmong keys nextMem := by
  induction batches generalizing files db mem with
  | nil =>
      cases hmem
      exact ⟨files, db, rfl, hsettled, hnone, hkeys⟩
  | cons ops batches ih =>
      rw [List.flatten_cons] at hmem
      obtain ⟨middle, hfirst, hbatches⟩ := Except.foldlM_append_eq_ok.mp hmem
      have hopsFirst : ∀ op ∈ ops, op.Storable ∧ op.key ∈ keys :=
        fun op hop => hops op (List.mem_append_left _ hop)
      obtain ⟨performed, hperformed, hdirPerformed, hfollows⟩ :=
        h.performAll (fun op hop => (hopsFirst op hop).1) hfirst
      have hkeysMiddle := hkeys.performAll (fun op hop => (hopsFirst op hop).2) hfirst
      obtain ⟨flushedFiles, flushed, hflushed, hdirFlushed, hpending, hsettled, hnext⟩ :=
        hfollows.flush (hdirPerformed ▸ hdir) hkeysMiddle hcount
      obtain ⟨nextFiles, nextDb, hrest, hresult⟩ := ih hnext hsettled hpending
        (by rw [hdirFlushed, hdirPerformed]; exact hdir) hkeysMiddle
        (fun op hop => hops op (List.mem_append_right _ hop)) hbatches
      refine ⟨nextFiles, nextDb, Except.foldlM_cons_eq_ok.mpr ⟨_, ?_, hrest⟩, hresult⟩
      unfold performAndFlush
      dsimp only
      rw [hperformed]
      exact hflushed

/-- Sessions one after another. -/
theorem Settled.sessions {keys : List UInt64} {dir : String} {files : DbFiles}
    {mem nextMem : DurationDb} {runs : List (List (List DbOp))} (h : Settled profile files mem)
    (hdir : dir.isEmpty = false) (hkeys : KeysAmong keys mem) (hcount : keys.length < 2 ^ 32)
    (hops : ∀ op ∈ runs.flatten.flatten, op.Storable ∧ op.key ∈ keys)
    (hmem : mem.performAll profile runs.flatten.flatten = .ok nextMem) :
    ∃ nextFiles, DurationDb.sessions profile dir files runs = .ok nextFiles ∧
      Settled profile nextFiles nextMem := by
  induction runs generalizing files mem with
  | nil =>
      cases hmem
      exact ⟨files, rfl, h⟩
  | cons batches runs ih =>
      rw [List.flatten_cons, List.flatten_append] at hops hmem
      obtain ⟨middle, hfirst, hruns⟩ := Except.foldlM_append_eq_ok.mp hmem
      obtain ⟨db, hdb, hdirDb, hpending, hfollows⟩ := h.load dir
      obtain ⟨nextFiles, nextDb, hbatches, hsettled, -, hkeysNext⟩ :=
        hfollows.batches h hpending (by rw [hdirDb]; exact hdir) hkeys hcount
          (fun op hop => hops op (List.mem_append_left _ hop)) hfirst
      obtain ⟨finalFiles, hrest, hfinal⟩ := ih hsettled hkeysNext
        (fun op hop => hops op (List.mem_append_right _ hop)) hruns
      refine ⟨finalFiles, Except.foldlM_cons_eq_ok.mpr ⟨nextFiles, ?_, hrest⟩, hfinal⟩
      unfold session
      rw [hdb]
      show (batches.foldlM (performAndFlush profile) (files, db)).map Prod.fst = _
      rw [hbatches]
      rfl

end Sessions

end DurationDb

end Quokka
