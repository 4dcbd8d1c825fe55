import Quokka.DurationDb.Persistence
import Quokka.DurationDb.History
import Quokka.Scheduler.ActionResults
import Quokka.Scheduler.AttemptIndexes
import Quokka.Scheduler.FlakeHistory
import Quokka.Scheduler.RunVerdict

/-!
# Tests with history across runs

A test counts as seen once the store holds a duration sample for it, and only attempts that did
not fail leave one. `reporter_task_performs` turns the reporter's work into operations on the
store, which record the observations of the finished tests and no others. `sampled_after_report_iff`
follows the samples through the flush to the next load, and `sampled_tests_are_cached` is the first
request of the next run.
-/

namespace Quokka

/-! ## Samples in a store -/

/-- The store holds a duration sample for a key. -/
def DurationDb.Sampled (db : DurationDb) (key : UInt64) : Prop :=
  ∃ env record, (db.perf env).lookup key = some record ∧ record.samples ≠ []

theorem PerfRecord.record_ne_nil (perf : PerfRecord) (timestampMs durationMs : UInt64) :
    (perf.record timestampMs durationMs).samples ≠ [] :=
  sort_and_truncate_ne_nil (by simp)

/-- A key with a sample has an estimate. -/
theorem DurationDb.Sampled.estimate_ne {db : DurationDb} {key : UInt64} (h : db.Sampled key) :
    db.estimateByKey none key ≠ .unseen := by
  obtain ⟨env, record, hlookup, hsamples⟩ := h
  have hcombined : db.getPerfSamples none key ≠ [] := by
    unfold getPerfSamples environments
    cases env with
    | «local» =>
        cases hremote : (db.perf .remote).lookup key with
        | none =>
            simp only [Environment.all, List.foldl_cons, List.foldl_nil, hlookup, hremote]
            exact sort_and_truncate_ne_nil (by simpa using hsamples)
        | some other =>
            simp only [Environment.all, List.foldl_cons, List.foldl_nil, hlookup, hremote]
            refine sort_and_truncate_ne_nil (List.append_ne_nil_of_left_ne_nil ?_ _)
            exact sort_and_truncate_ne_nil (by simpa using hsamples)
    | remote =>
        simp only [Environment.all, List.foldl_cons, List.foldl_nil, hlookup]
        exact sort_and_truncate_ne_nil (List.append_ne_nil_of_right_ne_nil _ hsamples)
  unfold estimateByKey
  rw [if_neg (by simpa using hcombined)]
  intro hunseen
  cases hunseen

/-- A key without a sample has no estimate. -/
theorem DurationDb.estimate_of_not_sampled {db : DurationDb} {key : UInt64}
    (h : ¬db.Sampled key) : db.estimateByKey none key = .unseen := by
  have hempty : ∀ env record, (db.perf env).lookup key = some record → record.samples = [] := by
    intro env record hlookup
    by_contra hsamples
    exact h ⟨env, record, hlookup, hsamples⟩
  have hkeep : ∀ (combined : PerfRecord) env, combined.samples = [] →
      (((db.perf env).lookup key).elim combined combined.combine).samples = [] := by
    intro combined env hcombined
    cases hlookup : (db.perf env).lookup key with
    | none => exact hcombined
    | some record =>
        show sortAndTruncate (combined.samples ++ record.samples) = []
        rw [hcombined, hempty env record hlookup]
        rfl
  have hnone : db.getPerfSamples none key = [] := by
    rw [get_perf_samples_eq]
    exact hkeep _ .remote (hkeep _ .local rfl)
  unfold estimateByKey
  rw [hnone]
  rfl

/-- The run that an operation records. -/
def DbOp.observation : DbOp → Option (TestIdentity × DbObservation)
  | .recordAt env testId duration failed failureClass _ =>
      some (testId, { duration, failed, failureClass, env })
  | .recordDiscoveredName _ => none

section Operations

variable [HashKey] {profile : BuildProfile}

/-- Some run of a test with this key did not fail. -/
def PassedKey (key : UInt64) (observations : List (TestIdentity × DbObservation)) : Prop :=
  ∃ entry ∈ observations, HashKey.hashKey entry.1 = key ∧ entry.2.failed = false

/-- An operation leaves a sample exactly if it records a run that did not fail. -/
theorem DurationDb.sampled_perform_iff {db next : DurationDb} {op : DbOp} {key : UInt64}
    (h : db.perform profile op = .ok next) :
    next.Sampled key ↔ db.Sampled key ∨ PassedKey key op.observation.toList := by
  have hafter := perf_of_perform h
  cases op with
  | recordDiscoveredName testId =>
      have hsame : next.Sampled key ↔ db.Sampled key :=
        exists_congr fun env => exists_congr fun record => by rw [hafter env key]; rfl
      rw [hsame]
      exact (or_iff_left fun hpassed => by obtain ⟨entry, hmem, -⟩ := hpassed; cases hmem).symm
  | recordAt env testId duration failed failureClass timestampMs =>
      have hpassed : PassedKey key (DbOp.observation (.recordAt env testId duration failed
          failureClass timestampMs)).toList ↔ HashKey.hashKey testId = key ∧ failed = false := by
        constructor
        · rintro ⟨entry, hmem, hkey, hfailed⟩
          cases List.mem_singleton.mp hmem
          exact ⟨hkey, hfailed⟩
        · exact fun hboth => ⟨_, List.mem_singleton_self _, hboth⟩
      rw [hpassed]
      constructor
      · rintro ⟨other, record, hlookup, hsamples⟩
        rw [hafter other key] at hlookup
        by_cases hsample : failed = false ∧ (env, HashKey.hashKey testId) = (other, key)
        · exact .inr ⟨congrArg Prod.snd hsample.2, hsample.1⟩
        · rw [DbOp.sampleOf, if_neg hsample] at hlookup
          exact .inl ⟨other, record, hlookup, hsamples⟩
      · rintro (⟨other, record, hlookup, hsamples⟩ | ⟨rfl, rfl⟩)
        · have hother := hafter other key
          by_cases hsample : failed = false ∧ (env, HashKey.hashKey testId) = (other, key)
          · rw [DbOp.sampleOf, if_pos hsample] at hother
            exact ⟨other, _, hother, PerfRecord.record_ne_nil _ _ _⟩
          · rw [DbOp.sampleOf, if_neg hsample] at hother
            exact ⟨other, record, hother.trans hlookup, hsamples⟩
        · have hown := hafter env (HashKey.hashKey testId)
          rw [DbOp.sampleOf, if_pos ⟨rfl, rfl⟩] at hown
          exact ⟨env, _, hown, PerfRecord.record_ne_nil _ _ _⟩

/-- After operations a key has a sample exactly if it had one or a run of it did not fail. -/
theorem DurationDb.sampled_perform_all_iff {db next : DurationDb} {ops : List DbOp} {key : UInt64}
    (h : db.performAll profile ops = .ok next) :
    next.Sampled key ↔ db.Sampled key ∨ PassedKey key (ops.filterMap DbOp.observation) := by
  induction ops generalizing db with
  | nil =>
      cases h
      exact (or_iff_left fun hpassed => by obtain ⟨entry, hmem, -⟩ := hpassed; cases hmem).symm
  | cons op ops ih =>
      obtain ⟨middle, hfirst, hrest⟩ := Except.foldlM_cons_eq_ok.mp h
      have hsplit : (op :: ops).filterMap DbOp.observation =
          op.observation.toList ++ ops.filterMap DbOp.observation := by
        rw [List.filterMap_cons]
        cases op.observation <;> rfl
      rw [ih hrest, sampled_perform_iff hfirst, or_assoc, hsplit]
      unfold PassedKey
      simp only [List.mem_append, or_and_right, exists_or]

end Operations

/-! ## The reporter's operations -/

/-- The runs of a finished test. -/
def FinishedTest.observations (finished : FinishedTest) : List (TestIdentity × DbObservation) :=
  finished.dbObservations.map (finished.testId, ·)

/-- The runs that a message brings. -/
def ReporterMessage.observations : ReporterMessage → List (TestIdentity × DbObservation)
  | .finished batch => batch.flatMap FinishedTest.observations
  | .discovered _ | .targetDropped _ => []

section Reporter

variable [HashKey] {profile : BuildProfile} {io : ReporterIo}

/-- Remembering names in order. -/
theorem perform_all_names (db : DurationDb) (tids : List TestIdentity) :
    db.performAll profile (tids.map .recordDiscoveredName) =
      .ok (tids.foldl DurationDb.recordDiscoveredName db) := by
  induction tids generalizing db with
  | nil => rfl
  | cons tid tids ih => exact ih (db.recordDiscoveredName tid)

/-- The operations of some observations, one for each. -/
theorem record_observations_performs {testId : TestIdentity} {observations : List DbObservation}
    {state next : ReporterState}
    (h : recordObservations profile io testId state observations = .ok next) :
    ∃ ops, state.db.performAll profile ops = .ok next.db ∧
      ops.filterMap DbOp.observation = observations.map (testId, ·) := by
  induction observations generalizing state with
  | nil => cases h; exact ⟨[], rfl, rfl⟩
  | cons obs rest ih =>
      unfold recordObservations at h
      cases hdb : state.db.recordAt profile obs.env testId obs.duration obs.failed
          obs.failureClass (io.now state.recorded) with
      | error message => rw [hdb] at h; cases h
      | ok db =>
          rw [hdb] at h
          obtain ⟨ops, hops, hrecorded⟩ := ih h
          let op : DbOp := .recordAt obs.env testId obs.duration obs.failed obs.failureClass
            (io.now state.recorded)
          have hop : state.db.perform profile op = .ok db := hdb
          refine ⟨op :: ops, Except.foldlM_cons_eq_ok.mpr ⟨db, hop, hops⟩, ?_⟩
          rw [List.filterMap_cons, hrecorded]
          rfl

/-- The operations of a finished test. -/
theorem report_finished_performs {state next : ReporterState} {finished : FinishedTest}
    (h : reportFinished profile io state finished = .ok next) :
    ∃ ops, state.db.performAll profile ops = .ok next.db ∧
      ops.filterMap DbOp.observation = finished.observations := by
  obtain ⟨ops, hops, hrecorded⟩ := record_observations_performs h
  rw [report_result_db] at hops
  exact ⟨ops, hops, hrecorded⟩

/-- A fold whose steps are operations on the store. -/
theorem fold_performs {α : Type} (f : ReporterState → α → MayPanic ReporterState)
    (observations : α → List (TestIdentity × DbObservation)) {list : List α}
    {state next : ReporterState}
    (hstep : ∀ a state next, f state a = .ok next →
      ∃ ops, state.db.performAll profile ops = .ok next.db ∧
        ops.filterMap DbOp.observation = observations a)
    (h : list.foldlM f state = .ok next) :
    ∃ ops, state.db.performAll profile ops = .ok next.db ∧
      ops.filterMap DbOp.observation = list.flatMap observations := by
  induction list generalizing state with
  | nil => cases h; exact ⟨[], rfl, rfl⟩
  | cons first rest ih =>
      obtain ⟨middle, hfirst, hrest⟩ := Except.foldlM_cons_eq_ok.mp h
      obtain ⟨ops, hops, hrecorded⟩ := hstep first state middle hfirst
      obtain ⟨others, hothers, hlater⟩ := ih hrest
      refine ⟨ops ++ others, Except.foldlM_append_eq_ok.mpr ⟨middle.db, hops, hothers⟩, ?_⟩
      rw [List.filterMap_append, hrecorded, hlater, List.flatMap_cons]

/-- The operations of one message. -/
theorem reporter_step_performs (message : ReporterMessage) (state next : ReporterState)
    (h : reporterStep profile io state message = .ok next) :
    ∃ ops, state.db.performAll profile ops = .ok next.db ∧
      ops.filterMap DbOp.observation = message.observations := by
  cases message with
  | targetDropped reason => cases h; exact ⟨[], rfl, rfl⟩
  | discovered tids =>
      cases h
      refine ⟨tids.map .recordDiscoveredName, perform_all_names state.db tids, ?_⟩
      rw [List.filterMap_map]
      exact List.filterMap_eq_nil_iff.mpr fun _ _ => rfl
  | finished batch =>
      exact fold_performs (reportFinished profile io) FinishedTest.observations
        (fun _ _ _ => report_finished_performs) h

/-- What the reporter does to the store: operations that record the observations of the finished
tests, in order and no others. -/
theorem reporter_task_performs {context : SessionContext} {db : DurationDb}
    {arrival : List ReporterMessage} {state : ReporterState}
    (h : reporterTask profile io context db arrival = .ok state) :
    ∃ ops, db.performAll profile ops = .ok state.db ∧
      ops.filterMap DbOp.observation = arrival.flatMap ReporterMessage.observations := by
  obtain ⟨last, hsteps, rfl⟩ : ∃ last,
      arrival.foldlM (reporterStep profile io) (ReporterState.start io db) = .ok last ∧
        finishSession io context last = state := by
    unfold reporterTask at h
    cases hsteps : arrival.foldlM (reporterStep profile io) (ReporterState.start io db) with
    | error message => rw [hsteps] at h; cases h
    | ok last => rw [hsteps] at h; exact ⟨last, rfl, Except.ok.inj h⟩
  have hstart : (ReporterState.start io db).db = db := by
    unfold ReporterState.start reportCiReportFailure
    repeat' split
    all_goals rfl
  have hfinish : (finishSession io context last).db = last.db := by
    unfold finishSession reportCiReportFailure
    dsimp only
    repeat' split
    all_goals rfl
  obtain ⟨ops, hops, hrecorded⟩ := fold_performs (reporterStep profile io)
    ReporterMessage.observations reporter_step_performs hsteps
  rw [hstart] at hops
  rw [hfinish]
  exact ⟨ops, hops, hrecorded⟩

end Reporter

/-! ## The samples on disk -/

section Disk

variable [HashKey] {profile : BuildProfile}

/-- Operations put aside the records of what they do to the store. -/
theorem perform_all_extends {db next : DurationDb} {ops : List DbOp}
    (h : db.performAll profile ops = .ok next) :
    ∃ new : (s : DbSection) → List s.Record, db.Extends profile next new := by
  induction ops generalizing db with
  | nil =>
      cases h
      exact ⟨fun _ => [], fun _ => (List.append_nil _).symm, fun _ => rfl, rfl⟩
  | cons op ops ih =>
      obtain ⟨middle, hfirst, hrest⟩ := Except.foldlM_cons_eq_ok.mp h
      have hop := perform_spec hfirst
      obtain ⟨new, hnew⟩ := ih hrest
      refine ⟨fun s => op.records (db.knows op.key) s ++ new s, fun s => ?_, fun s => ?_, ?_⟩
      · rw [hnew.pending_eq, hop.pending_eq, List.append_assoc]
      · rw [KeyedUpdate.replay_append, hop.replay_eq]
        exact hnew.replay_eq s
      · rw [hnew.dir_eq, hop.dir_eq]

omit [HashKey] in
/-- A loaded store has the samples of its files and nothing to flush. -/
theorem load_perf {dir : String} {files : DbFiles} {db : DurationDb}
    {found : Environment × UInt64 → Option PerfRecord}
    (h : DurationDb.load profile dir files = .ok db)
    (hfound : DbSection.perf.Holds profile (files .perf) found) :
    db.dir = dir ∧ db.pending .perf = [] ∧ DbSection.perf.find db.perf = found := by
  obtain ⟨contents, hcontents, rfl⟩ := hfound.load
  obtain ⟨perf, hperf, hrest⟩ := Except.bind_eq_ok.mp h
  obtain ⟨flake, -, hlast⟩ := Except.bind_eq_ok.mp hrest
  obtain ⟨names, -, hdb⟩ := Except.bind_eq_ok.mp hlast
  rw [hcontents] at hperf
  cases hperf
  cases hdb
  exact ⟨rfl, rfl, rfl⟩

omit [HashKey] in
/-- A flush leaves the samples of the store on disk. -/
theorem flush_perf {files next : DbFiles} {db flushed : DurationDb}
    {found : Environment × UInt64 → Option PerfRecord} (hdir : db.dir.isEmpty = false)
    (hsmall : ∀ env, (db.perf env).entries.length < 2 ^ 32)
    (hfound : DbSection.perf.Holds profile (files .perf) found)
    (hreplay : (DbSection.update profile .perf).replay found (db.pending .perf) =
      .ok (DbSection.perf.find db.perf))
    (h : DurationDb.flush profile files db = .ok (next, flushed)) :
    DbSection.perf.Holds profile (next .perf) (DbSection.perf.find db.perf) := by
  have happended := hfound.append (fun _ _ => trivial) hreplay
  unfold DurationDb.flush at h
  rw [hdir] at h
  dsimp only at h
  rw [if_neg Bool.false_ne_true] at h
  split at h
  case isTrue =>
    obtain ⟨disk, hload, hfiles⟩ := Except.bind_eq_ok.mp h
    cases hfiles
    obtain ⟨-, -, hsame⟩ := load_perf hload happended
    rw [← hsame] at happended ⊢
    refine happended.compact fun size hsize => ?_
    -- The tables on disk have as many keys as those in memory.
    have hlength : ∀ env, (disk.perf env).entries.length < 2 ^ 32 := fun env =>
      Nat.lt_of_le_of_lt (Table.length_le_of_lookup_eq fun key => congrFun hsame (env, key))
        (hsmall env)
    simp only [DbSection.sizes, List.mem_cons, List.not_mem_nil, or_false] at hsize
    rcases hsize with rfl | rfl
    · exact hlength .local
    · exact hlength .remote
  case isFalse =>
    cases h
    exact happended

end Disk

/-! ## The first request of an action -/

section FirstRequest

variable [External] {ctx : TargetCtx} {plan : TargetPlan} {path : List Nat}
  {selection : TestSelection String} {expectedMembers : List String} {repeatIndex : Nat}
  {memoryMax : CgroupMemoryMax}

/-- The first request of an action is for all its members under the index zero. -/
theorem execute_test_action_first (prior : MemberTables)
    (hmax : cgroupMemoryMaxForAction ctx.config.cgroupMemoryMax
      ctx.config.cgroupMemoryMaxOverrides plan.spec.display expectedMembers = .ok memoryMax) :
    ∃ first rest, (executeTestAction ctx plan path selection expectedMembers repeatIndex 0
        prior).requests = first :: rest ∧
      first.caching = groupCaching ctx plan expectedMembers 0 := by
  obtain ⟨isolated, hruns, -⟩ := execute_test_action_runs ctx plan repeatIndex path selection
    expectedMembers 0 prior
  obtain ⟨later, hloop⟩ := action_loop_first ctx plan path selection expectedMembers repeatIndex
    prior
  have hindexed := @run_group_indexed _ ctx plan path selection expectedMembers repeatIndex 0 0
  have hsends : (runGroup ctx plan path selection expectedMembers repeatIndex 0 0).requests ≠ [] :=
    run_group_sends hmax
  obtain ⟨first, others, hfirst⟩ := List.exists_cons_of_ne_nil hsends
  obtain ⟨index, limit, hindex, hrequest⟩ := hindexed.request 0 first (by rw [hfirst]; rfl)
  rw [show ctx.profile.addU32 0 (.ofNat 0) = .ok 0 from
    BuildProfile.add_u32_of_lt _ (by decide)] at hindex
  cases hindex
  refine ⟨first, others ++ (later ++ isolated).flatMap GroupRun.requests, ?_, ?_⟩
  · unfold ActionRun.requests
    rw [hruns, hloop, List.cons_append, List.flatMap_cons, hfirst, List.cons_append]
  · rw [hrequest]
    rfl

end FirstRequest

/-! ## The next run -/

/-- The reporter task of a run with a persistent database: it loads the store, consumes the
messages and flushes. -/
def reportOnDisk [HashKey] (profile : BuildProfile) (io : ReporterIo) (context : SessionContext)
    (dir : String) (files : DbFiles) (arrival : List ReporterMessage) :
    MayPanic (ReporterState × DbFiles) := do
  let db ← DurationDb.load profile dir files
  let state ← reporterTask profile io context db arrival
  let (files, _) ← DurationDb.flush profile files state.db
  pure (state, files)

/-- Every observation in a run of a test that shares the key failed. -/
def ReportedFailing [HashKey] (arrival : List ReporterMessage) (testId : TestIdentity) : Prop :=
  ∀ batch, .finished batch ∈ arrival → ∀ test ∈ batch,
    HashKey.hashKey test.testId = HashKey.hashKey testId →
      ∀ obs ∈ test.dbObservations, obs.failed = true

/-- The samples on disk leave a key without any. -/
def Unsampled (found : Environment × UInt64 → Option PerfRecord) (key : UInt64) : Prop :=
  ∀ env record, found (env, key) = some record → record.samples = []

section NextRun

variable [External] {profile : BuildProfile} {io : ReporterIo} {context : SessionContext}
  {dir : String} {files next : DbFiles} {arrival : List ReporterMessage} {state : ReporterState}

omit [External] in
/-- The steps of the reporter task. -/
theorem report_on_disk_eq_ok [HashKey]
    (h : reportOnDisk profile io context dir files arrival = .ok (state, next)) :
    ∃ db flushed, DurationDb.load profile dir files = .ok db ∧
      reporterTask profile io context db arrival = .ok state ∧
      DurationDb.flush profile files state.db = .ok (next, flushed) := by
  obtain ⟨db, hdb, hrest⟩ := Except.bind_eq_ok.mp h
  obtain ⟨reported, hreport, hlast⟩ := Except.bind_eq_ok.mp hrest
  obtain ⟨flushed, hflush, hpair⟩ := Except.bind_eq_ok.mp hlast
  cases hpair
  exact ⟨db, flushed.2, hdb, hreport, hflush⟩

/-- A finished test of a run has an observation that did not fail. -/
def ReportedPassing (arrival : List ReporterMessage) (testId : TestIdentity) : Prop :=
  ∃ batch, .finished batch ∈ arrival ∧ ∃ test ∈ batch, test.testId = testId ∧
    ∃ obs ∈ test.dbObservations, obs.failed = false

omit [External] in
/-- The runs with a key that did not fail are those of finished tests. -/
theorem passed_key_iff [HashKey] {key : UInt64} :
    PassedKey key (arrival.flatMap ReporterMessage.observations) ↔
      ∃ batch, .finished batch ∈ arrival ∧ ∃ test ∈ batch, HashKey.hashKey test.testId = key ∧
        ∃ obs ∈ test.dbObservations, obs.failed = false := by
  constructor
  · rintro ⟨entry, hentry, hkey, hpassed⟩
    obtain ⟨message, hmessage, hin⟩ := List.mem_flatMap.mp hentry
    cases message with
    | finished batch =>
        obtain ⟨test, htest, hobserved⟩ := List.mem_flatMap.mp hin
        obtain ⟨obs, hobs, rfl⟩ := List.mem_map.mp hobserved
        exact ⟨batch, hmessage, test, htest, hkey, obs, hobs, hpassed⟩
    | discovered tests => cases hin
    | targetDropped reason => cases hin
  · rintro ⟨batch, hbatch, test, htest, hkey, obs, hobs, hpassed⟩
    refine ⟨(test.testId, obs), List.mem_flatMap.mpr ⟨_, hbatch, ?_⟩, hkey, hpassed⟩
    exact List.mem_flatMap.mpr ⟨test, htest, List.mem_map.mpr ⟨obs, hobs, rfl⟩⟩

omit [External] in
/-- The next run knows a sample of a key exactly if the files had one or a run that was reported
did not fail. -/
theorem sampled_after_report_iff [HashKey]
    {found : Environment × UInt64 → Option PerfRecord} {estimates : DurationDb} {key : UInt64}
    (hdir : dir.isEmpty = false)
    (hfiles : DbSection.perf.Holds profile (files .perf) found)
    (hrun : reportOnDisk profile io context dir files arrival = .ok (state, next))
    (hsmall : ∀ env, (state.db.perf env).entries.length < 2 ^ 32)
    (hload : DurationDb.load profile dir next = .ok estimates) :
    estimates.Sampled key ↔ ¬Unsampled found key ∨
      PassedKey key (arrival.flatMap ReporterMessage.observations) := by
  obtain ⟨db, flushed, hdb, hreport, hflush⟩ := report_on_disk_eq_ok hrun
  obtain ⟨hdbDir, hpending, hdbFound⟩ := load_perf hdb hfiles
  obtain ⟨ops, hops, hrecorded⟩ := reporter_task_performs hreport
  obtain ⟨new, hnew⟩ := perform_all_extends hops
  have hreplay := hnew.replay_eq .perf
  have hnewPerf : state.db.pending .perf = new .perf := by
    rw [hnew.pending_eq, hpending, List.nil_append]
  rw [show db.contents .perf = db.perf from rfl, hdbFound, ← hnewPerf] at hreplay
  have hflushed := flush_perf (by rw [hnew.dir_eq, hdbDir]; exact hdir) hsmall hfiles hreplay hflush
  obtain ⟨-, -, hestimates⟩ := load_perf hload hflushed
  have hbefore : db.Sampled key ↔ ¬Unsampled found key := by
    have hlookup : ∀ env, (db.perf env).lookup key = found (env, key) := fun env =>
      congrFun hdbFound (env, key)
    unfold DurationDb.Sampled Unsampled
    simp only [hlookup, not_forall, exists_prop, ne_eq]
  have hafter : estimates.Sampled key ↔ state.db.Sampled key :=
    exists_congr fun env => exists_congr fun record => by
      rw [show (estimates.perf env).lookup key = (state.db.perf env).lookup key from
        congrFun hestimates (env, key)]
  rw [hafter, DurationDb.sampled_perform_all_iff hops, hbefore, hrecorded]

/-- The first request of the next run may hit the cache where every test of the batch had an attempt
that did not fail. A test without earlier samples of which only failed attempts are reported has no
estimate, and its batch is not looked up. -/
theorem sampled_tests_are_cached {found : Environment × UInt64 → Option PerfRecord}
    (hdir : dir.isEmpty = false) (hfiles : DbSection.perf.Holds profile (files .perf) found)
    (hrun : reportOnDisk profile io context dir files arrival = .ok (state, next))
    (hsmall : ∀ env, (state.db.perf env).entries.length < 2 ^ 32)
    {ctx : TargetCtx} {plan : TargetPlan} {memoryMax : CgroupMemoryMax}
    (hload : DurationDb.load profile dir next = .ok ctx.estimates)
    (hclass : plan.cacheClass = .cacheable) (hvariant : ctx.config.variant.isDefault = true)
    (hstress : plan.repetition.isStress = false) (path : List Nat)
    (selection : TestSelection String) (expectedMembers : List String) (repeatIndex : Nat)
    (prior : MemberTables)
    (hmax : cgroupMemoryMaxForAction ctx.config.cgroupMemoryMax
      ctx.config.cgroupMemoryMaxOverrides plan.spec.display expectedMembers = .ok memoryMax) :
    ∃ first rest, (executeTestAction ctx plan path selection expectedMembers repeatIndex 0
        prior).requests = first :: rest ∧
      ((∀ name ∈ expectedMembers,
          ReportedPassing arrival (testIdentity plan.spec.display ctx.config name)) →
        first.caching = .enabled) ∧
      ∀ name ∈ expectedMembers,
        let testId := testIdentity plan.spec.display ctx.config name
        Unsampled found (HashKey.hashKey testId) → ReportedFailing arrival testId →
          ctx.estimates.estimate none testId = .unseen ∧
            (ctx.config.durationDb.cacheBustsUnseenTests = true → first.caching = .disabled) := by
  obtain ⟨first, rest, hrequests, hcaching⟩ := execute_test_action_first prior hmax
  have hsampled (key : UInt64) :
      ctx.estimates.Sampled key ↔ ¬Unsampled found key ∨
        PassedKey key (arrival.flatMap ReporterMessage.observations) :=
    sampled_after_report_iff hdir hfiles hrun hsmall hload
  refine ⟨first, rest, hrequests, fun hreported => hcaching.trans ?_, ?_⟩
  · have hseen : hasUnseen ctx plan expectedMembers = false := by
      have hnone : (expectedMembers.any fun name => ctx.estimates.estimate none
          (testIdentity plan.spec.display ctx.config name) == .unseen) = false := by
        rw [List.any_eq_false]
        intro name hname hunseen
        obtain ⟨batch, hbatch, test, htest, hidentity, hobs⟩ := hreported name hname
        have hpassed := passed_key_iff.mpr ⟨batch, hbatch, test, htest, rfl, hobs⟩
        rw [hidentity] at hpassed
        exact ((hsampled _).mpr (.inr hpassed)).estimate_ne (eq_of_beq hunseen)
      unfold hasUnseen
      rw [hnone, Bool.and_false]
    unfold groupCaching TestExecutionCaching.resolve
    rw [hseen, hclass, hvariant, hstress]
    rfl
  · intro name hname testId hunsampled hfailing
    have hunseen : ctx.estimates.estimate none testId = .unseen := by
      refine DurationDb.estimate_of_not_sampled fun hsample => ?_
      obtain hknown | hpassed := (hsampled _).mp hsample
      · exact hknown hunsampled
      · obtain ⟨batch, hbatch, test, htest, hkey, obs, hobs, hnotFailed⟩ :=
          passed_key_iff.mp hpassed
        rw [hfailing batch hbatch test htest hkey obs hobs] at hnotFailed
        cases hnotFailed
    refine ⟨hunseen, fun hbusts => hcaching.trans ?_⟩
    have huncacheable : Uncacheable ctx plan expectedMembers :=
      .inr (.inr (.inr ⟨hbusts, name, hname, hunseen⟩))
    exact group_caching_of_uncacheable ctx plan huncacheable 0

end NextRun

/-! ### One test in two runs -/

/-- A run of one test on an empty directory, and what the next run loads. -/
structure FirstRun where
  finished : List FinishedTest
  state : ReporterState
  files : DbFiles
  estimates : DurationDb

/-- Execute one test, report it on an empty directory and load the store again. -/
def firstRun [External] (ctx : TargetCtx) (plan : TargetPlan) (dir name : String) :
    MayPanic FirstRun := do
  let finished ← (executeTestAction ctx plan [0, 0] (.explicit [name]) [name] 0 0
    MemberTables.empty).finished
  let (state, files) ← reportOnDisk ctx.profile .quiet ⟨none, none⟩ dir DurationDb.noFiles
    [.finished finished]
  let estimates ← DurationDb.load ctx.profile dir files
  pure { finished, state, files, estimates }

/-- A cacheable test with a persistent database. -/
def TargetCtx.onDisk (response : ExecuteResponse2) : TargetCtx :=
  { TargetCtx.textFormats (.always response) with
    config :=
      { RunnerConfig.withoutFlags with
        listFormat := .text
        runFormat := .text
        durationDb := .persistent "db" } }

/-- A test that passed in the first run. -/
theorem passed_test_is_cached :
    letI := External.inert
    let ctx := TargetCtx.onDisk (.ranLocally 0 "test a ... ok\n")
    ∃ plan first request rest, TargetPlan.derive (.plain "rust" []) ctx.config = .ok plan ∧
      firstRun ctx plan "db" "a" = .ok first ∧
      (executeTestAction { ctx with estimates := first.estimates } plan [0, 0]
        (.explicit ["a"]) ["a"] 0 0 MemberTables.empty).requests = request :: rest ∧
      request.caching = .enabled := by
  let := External.inert
  intro ctx
  obtain ⟨plan, hplan, hclass, hvariant, hstress, hmax, hrun⟩ : ∃ plan,
      TargetPlan.derive (.plain "rust" []) ctx.config = .ok plan ∧
      plan.cacheClass = .cacheable ∧ ctx.config.variant.isDefault = true ∧
      plan.repetition.isStress = false ∧
      cgroupMemoryMaxForAction ctx.config.cgroupMemoryMax ctx.config.cgroupMemoryMaxOverrides
        plan.spec.display ["a"] = .ok ctx.config.cgroupMemoryMax ∧
      ((firstRun ctx plan "db" "a").toOption.any fun first =>
        (first.finished.any fun test =>
          test.testId == testIdentity plan.spec.display ctx.config "a" &&
            test.dbObservations.any fun obs => !obs.failed) &&
        Environment.all.all fun env => (first.state.db.perf env).entries.length < 2 ^ 32) = true :=
    ⟨_, rfl, rfl, rfl, rfl, rfl, by decide +kernel⟩
  clear_value ctx
  cases hfirst : firstRun ctx plan "db" "a" with
  | error message => rw [hfirst] at hrun; cases hrun
  | ok first =>
      rw [hfirst] at hrun
      simp only [Except.toOption, Option.any_some, Bool.and_eq_true, List.any_eq_true,
        beq_iff_eq, Bool.not_eq_true', List.all_eq_true, decide_eq_true_eq] at hrun
      obtain ⟨⟨test, htest, hidentity, hpassed⟩, hsmall⟩ := hrun
      obtain ⟨finished, hfinished, hrest⟩ := Except.bind_eq_ok.mp hfirst
      obtain ⟨⟨state, files⟩, hreport, hlast⟩ := Except.bind_eq_ok.mp hrest
      obtain ⟨estimates, hload, hpair⟩ := Except.bind_eq_ok.mp hlast
      cases hpair
      have hreported : ∀ name ∈ ["a"], ReportedPassing [.finished finished]
          (testIdentity plan.spec.display ctx.config name) := by
        intro name hname
        rw [List.mem_singleton.mp hname]
        exact ⟨finished, List.mem_singleton.mpr rfl, test, htest, hidentity, hpassed⟩
      obtain ⟨request, rest, hrequests, hcached, -⟩ := @sampled_tests_are_cached _ _ _ _ _ _ _ _ _
        (fun _ => none) (by decide) ⟨_, [], DbSection.on_disk_none .perf, rfl⟩ hreport
        (fun env => hsmall env (by cases env <;> decide))
        { ctx with estimates } plan ctx.config.cgroupMemoryMax hload hclass hvariant hstress
        [0, 0] (.explicit ["a"]) ["a"] 0 MemberTables.empty hmax
      exact ⟨plan, _, request, rest, hplan, hfirst, hrequests, hcached hreported⟩

/-- A test that failed in the first run: its attempt is recorded, but without a sample. -/
theorem failed_test_stays_uncached :
    letI := External.inert
    let ctx := TargetCtx.onDisk (.ranLocally 101 "test a ... FAILED\n")
    ∃ plan first request rest, TargetPlan.derive (.plain "rust" []) ctx.config = .ok plan ∧
      plan.cacheClass = .cacheable ∧ ctx.config.variant.isDefault = true ∧
      plan.repetition.isStress = false ∧ firstRun ctx plan "db" "a" = .ok first ∧
      (∃ test ∈ first.finished, test.testId = testIdentity plan.spec.display ctx.config "a" ∧
        test.dbObservations ≠ []) ∧
      (executeTestAction { ctx with estimates := first.estimates } plan [0, 0]
        (.explicit ["a"]) ["a"] 0 0 MemberTables.empty).requests = request :: rest ∧
      request.caching = .disabled := by
  let := External.inert
  intro ctx
  obtain ⟨plan, hplan, hclass, hvariant, hstress, hrun⟩ : ∃ plan,
      TargetPlan.derive (.plain "rust" []) ctx.config = .ok plan ∧
      plan.cacheClass = .cacheable ∧ ctx.config.variant.isDefault = true ∧
      plan.repetition.isStress = false ∧
      ((firstRun ctx plan "db" "a").toOption.any fun first =>
        (first.finished.any fun test =>
          test.testId == testIdentity plan.spec.display ctx.config "a" &&
            !test.dbObservations.isEmpty) &&
        (executeTestAction { ctx with estimates := first.estimates } plan [0, 0]
          (.explicit ["a"]) ["a"] 0 0 MemberTables.empty).requests.head?.any fun request =>
            request.caching == .disabled) = true :=
    ⟨_, rfl, rfl, rfl, rfl, by decide +kernel⟩
  cases hfirst : firstRun ctx plan "db" "a" with
  | error message => rw [hfirst] at hrun; cases hrun
  | ok first =>
      rw [hfirst] at hrun
      simp only [Except.toOption, Option.any_some, Bool.and_eq_true, List.any_eq_true,
        beq_iff_eq, Bool.not_eq_true', Option.any_eq_true, List.isEmpty_eq_false_iff] at hrun
      obtain ⟨hrecorded, request, hhead, hcaching⟩ := hrun
      obtain ⟨rest, hrequests⟩ := List.head?_eq_some_iff.mp hhead
      exact ⟨plan, first, request, rest, hplan, hclass, hvariant, hstress, hfirst, hrecorded,
        hrequests, hcaching⟩

end Quokka
