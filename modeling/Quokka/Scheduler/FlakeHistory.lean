import Quokka.DurationDb.History
import Quokka.Scheduler.VerdictFold

/-!
# The attempts that reach the duration database

For a target whose tests are listed one by one, the observations of a finished test are one for
each group execution that asked for it, ran afresh, met no memory failure of the whole action
and decoded a result for it, in execution order (`reported_observations`). The reporter counts
each of them once in the flake record of the test (`recorded_observations`).
-/

namespace Quokka

/-- The observation that a group execution gives the database of one of its members. -/
def GroupOutcome.observation (name : String) : GroupOutcome → Option DbObservation
  | .groupFailed _ => none
  | .observed group =>
      match group.actionOom, group.observations.lookup name, group.execution.freshEnvironment with
      | none, some obs, some env =>
          some
            { duration := group.executionTime
              failed := obs.status.isFailure
              failureClass := failureClass obs.status
              env }
      | _, _, _ => none

/-- The observations of a member in a log, in execution order. -/
def observationsOf (runs : List GroupRun) (name : String) : List DbObservation :=
  (runs.filter fun run => run.names.contains name).filterMap fun run =>
    run.outcome.toOption.bind (GroupOutcome.observation name)

@[simp] theorem observations_of_append (first second : List GroupRun) (name : String) :
    observationsOf (first ++ second) name =
      observationsOf first name ++ observationsOf second name := by
  simp [observationsOf]

/-- Which test a finished test reports, and its observations. -/
def FinishedTest.observed (finished : FinishedTest) : String × List DbObservation :=
  (finished.testId.name, finished.dbObservations)

/-- The observations of a member in the tables. -/
def MemberTables.observed (members : MemberTables) (name : String) :
    String × List DbObservation :=
  (name, (members.attempts.lookup name).getD [])

/-! ## The observations in the log -/

theorem member_result_observation (singleton : Bool) (name : String) (outcome : GroupOutcome) :
    (outcome.memberResult singleton name).toObservation = outcome.observation name := by
  cases outcome with
  | groupFailed failure => rfl
  | observed group =>
      unfold GroupOutcome.memberResult ObservedGroup.memberResult GroupOutcome.observation
      cases hoom : group.actionOom with
      | some details =>
          cases singleton <;> simp [hoom, MemberResult.toObservation]
      | none =>
          cases hlookup : group.observations.lookup name with
          | none => simp [hoom, hlookup, MemberResult.toObservation]
          | some obs =>
              cases henv : group.execution.freshEnvironment <;>
                simp [hoom, hlookup, henv, MemberResult.toObservation]

section Log

variable [External] {ctx : TargetCtx} {plan : TargetPlan} {selection : TestSelection String}
  {expectedMembers : List String} {repeatIndex : Nat}

/-- The observations of the recorded attempts are those of the log. -/
theorem member_observations_eq {runs : List GroupRun} (hnodup : expectedMembers.Nodup)
    (hexecuted : ∀ run ∈ runs, Executed ctx plan selection expectedMembers repeatIndex run)
    (name : String) :
    (memberAttempts false expectedMembers runs name).filterMap MemberResult.toObservation =
      observationsOf runs name := by
  induction runs with
  | nil => rfl
  | cons run runs ih =>
      have hrest := ih fun other hother => hexecuted other (List.mem_cons_of_mem _ hother)
      have hdistinct := hnodup.sublist (hexecuted run List.mem_cons_self).names_sublist
      have hsplit : observationsOf (run :: runs) name =
          observationsOf [run] name ++ observationsOf runs name :=
        observations_of_append [run] runs name
      rw [hsplit, ← hrest, memberAttempts, List.flatMap_cons, List.filterMap_append]
      congr 1
      unfold GroupRun.results
      cases houtcome : run.outcome with
      | error message => simp [observationsOf, houtcome, Except.toOption, List.filter_cons]
      | ok outcome =>
          dsimp only
          rw [results_of_outcome expectedMembers hdistinct]
          by_cases hname : name ∈ run.names
          · rw [if_pos hname, List.filterMap_cons, member_result_observation]
            simp only [observationsOf, List.contains_iff_mem.mpr hname, List.filter_cons, if_true,
              List.filter_nil, List.filterMap_cons, List.filterMap_nil, houtcome,
              Except.toOption, Option.bind_some]
          · rw [if_neg hname]
            simp [observationsOf, hname]

/-- Other members have no observations in isolation runs. -/
theorem observations_of_other {runs : List GroupRun} {name other : String} (hne : name ≠ other)
    (hexecuted : ∀ run ∈ runs, Executed ctx plan (.explicit [other]) [other] repeatIndex run) :
    observationsOf runs name = [] := by
  rw [observationsOf, names_of_other hne hexecuted]
  rfl

/-- Recording a log adds its observations. -/
theorem Recorded.observed {prior members : MemberTables} {runs : List GroupRun}
    (hperTest : plan.translator.listingStrategy.isWholeTarget = false)
    (hnodup : expectedMembers.Nodup)
    (h : Recorded ctx plan selection expectedMembers repeatIndex prior members runs)
    (name : String) :
    (members.attempts.lookup name).getD [] =
      (prior.attempts.lookup name).getD [] ++ observationsOf runs name := by
  rw [h.attempts, hperTest, member_observations_eq hnodup h.executed]

end Log

/-! ## The observations of the finished tests -/

section Finished

variable [External] {ctx : TargetCtx} {plan : TargetPlan} {repeatIndex : Nat}

omit [External] in
theorem attempts_of_remove {members : MemberTables} {taken name : String} (h : name ≠ taken) :
    (members.remove taken).attempts.lookup name = members.attempts.lookup name :=
  AList.lookup_erase_ne h

omit [External] in
theorem attempts_of_remove_all {members : MemberTables} {taken : List String} {name : String}
    (h : name ∉ taken) :
    (removeAll members taken).attempts.lookup name = members.attempts.lookup name := by
  induction taken generalizing members with
  | nil => rfl
  | cons first rest ih =>
      rw [List.mem_cons, not_or] at h
      exact (ih h.2).trans (attempts_of_remove h.1)

/-- Distinct members are reported with the observations in the tables. -/
theorem report_members_observed {path : List Nat} {logIndex : Nat} {members : MemberTables}
    {names : List String} (hnodup : names.Nodup) {finished : List FinishedTest}
    (h : reportMembers ctx plan path repeatIndex logIndex members names = .ok finished) :
    finished.map FinishedTest.observed = names.map members.observed := by
  induction names generalizing logIndex members finished with
  | nil => cases h; rfl
  | cons name rest ih =>
      obtain ⟨hfresh, hrest⟩ := List.nodup_cons.mp hnodup
      unfold reportMembers at h
      cases hfirst : makeFinished ctx plan path logIndex name repeatIndex
          (members.outcomeOf name) ((members.attempts.lookup name).getD [])
          ((members.attemptHistory.lookup name).getD []) with
      | error message => rw [hfirst] at h; cases h
      | ok first =>
          cases hothers : reportMembers ctx plan path repeatIndex (logIndex + 1)
              (members.remove name) rest with
          | error message => rw [hfirst, hothers] at h; cases h
          | ok others =>
              rw [hfirst, hothers] at h
              cases h
              obtain ⟨details, rfl⟩ := make_finished_eq_ok ctx plan hfirst
              rw [List.map_cons, List.map_cons, ih hrest hothers]
              congr 1
              refine List.map_congr_left fun other hother => ?_
              have hne : other ≠ name := fun heq => hfresh (heq ▸ hother)
              unfold MemberTables.observed
              rw [attempts_of_remove hne]

variable (hperTest : plan.translator.listingStrategy.isWholeTarget = false)

include hperTest

/-- An isolation run adds the observations of its own log. -/
theorem execute_singleton_observed {path : List Nat} {name : String}
    {firstAttemptIndex : UInt32} {prior : MemberTables} {finished : List FinishedTest}
    (h : (executeSingleton ctx plan repeatIndex path name firstAttemptIndex prior).finished =
      .ok finished) :
    finished.map FinishedTest.observed = [(name, (prior.attempts.lookup name).getD [] ++
      observationsOf (executeSingleton ctx plan repeatIndex path name firstAttemptIndex
        prior).runs name)] := by
  obtain ⟨final, hrecorded, -, hreport⟩ := execute_singleton_report ctx plan h
  rw [report_members_observed (List.nodup_singleton name) hreport, List.map_singleton,
    MemberTables.observed, hrecorded.observed hperTest (List.nodup_singleton name)]

/-- The isolation runs report each of their members with its earlier observations and its own. -/
theorem isolate_members_observed {path : List Nat} {child : Nat} {attemptIndex : UInt32}
    {members : MemberTables} {names : List String} (hnodup : names.Nodup)
    {finished : List FinishedTest}
    (h : (isolateMembers path (executeSingleton ctx plan repeatIndex) attemptIndex child members
      names).finished = .ok finished) :
    let runs := (isolateMembers path (executeSingleton ctx plan repeatIndex) attemptIndex child
      members names).runs
    (∀ name, name ∉ names → observationsOf runs name = []) ∧
      finished.map FinishedTest.observed = names.map fun name =>
        (name, (members.attempts.lookup name).getD [] ++ observationsOf runs name) := by
  induction names generalizing child members finished with
  | nil => cases h; exact ⟨fun _ _ => rfl, rfl⟩
  | cons name rest ih =>
      obtain ⟨hfresh, hrest⟩ := List.nodup_cons.mp hnodup
      unfold isolateMembers at h ⊢
      dsimp only at h ⊢
      cases hsingle : (executeSingleton ctx plan repeatIndex (path ++ [child]) name attemptIndex
          (members.only name)).finished with
      | error message => rw [hsingle] at h; cases h
      | ok single =>
          cases hothers : (isolateMembers path (executeSingleton ctx plan repeatIndex)
              attemptIndex (child + 1) (members.remove name) rest).finished with
          | error message => rw [hsingle, hothers] at h; cases h
          | ok others =>
              rw [hsingle, hothers] at h
              cases h
              obtain ⟨hnone, hobserved⟩ := ih hrest hothers
              have hexecuted : ∀ run ∈ (executeSingleton ctx plan repeatIndex (path ++ [child])
                  name attemptIndex (members.only name)).runs,
                  Executed ctx plan (.explicit [name]) [name] repeatIndex run := by
                obtain ⟨final, hrecorded, -⟩ := execute_singleton_report ctx plan hsingle
                exact hrecorded.executed
              refine ⟨fun other hother => ?_, ?_⟩
              · rw [List.mem_cons, not_or] at hother
                rw [observations_of_append, observations_of_other hother.1 hexecuted,
                  hnone other hother.2, List.append_nil]
              · rw [List.map_append, execute_singleton_observed hperTest hsingle, hobserved,
                  List.map_cons, List.singleton_append]
                have hprior : (members.only name).attempts.lookup name =
                    members.attempts.lookup name := Table.lookup_single_self _ _
                rw [observations_of_append, hnone name hfresh, List.append_nil, hprior]
                congr 1
                refine List.map_congr_left fun other hother => ?_
                have hne : other ≠ name := fun heq => hfresh (heq ▸ hother)
                rw [attempts_of_remove hne, observations_of_append,
                  observations_of_other hne hexecuted, List.nil_append]

omit [External] hperTest in
/-- What a list of observed tests says of each test. -/
theorem observed_of_mem {finished : List FinishedTest} {names : List String}
    {f : String → List DbObservation}
    (h : finished.map FinishedTest.observed = names.map fun name => (name, f name))
    {test : FinishedTest} (htest : test ∈ finished) :
    test.testId.name ∈ names ∧ test.dbObservations = f test.testId.name := by
  have hmem : test.observed ∈ names.map fun name => (name, f name) := by
    rw [← h]
    exact List.mem_map_of_mem htest
  obtain ⟨name, hname, heq⟩ := List.mem_map.mp hmem
  have hsame : name = test.testId.name := congrArg Prod.fst heq
  subst hsame
  exact ⟨hname, (congrArg Prod.snd heq).symm⟩

/-- An action reports each of its members with the observations that its log holds of it. -/
theorem execute_test_action_observed {path : List Nat} {selection : TestSelection String}
    {expectedMembers : List String} {firstAttemptIndex : UInt32}
    (hnodup : expectedMembers.Nodup) {finished : List FinishedTest}
    (h : (executeTestAction ctx plan path selection expectedMembers repeatIndex
      firstAttemptIndex MemberTables.empty).finished = .ok finished) :
    ∀ test ∈ finished, test.dbObservations = observationsOf
      (executeTestAction ctx plan path selection expectedMembers repeatIndex firstAttemptIndex
        MemberTables.empty).runs test.testId.name := by
  obtain ⟨members, main, hrecorded, -, ⟨hreport, hruns⟩ |
    ⟨attemptIndex, kept, isolated, hkept, hisolated, rfl, hruns⟩⟩ :=
      execute_test_action_report ctx plan selection expectedMembers repeatIndex h
  · intro test htest
    obtain ⟨-, hobserved⟩ := observed_of_mem (report_members_observed hnodup hreport) htest
    rw [hruns, hobserved, hrecorded.observed hperTest hnodup]
    rfl
  · let failing := stillFailing expectedMembers members
    let passing := expectedMembers.filter fun name => !failing.contains name
    have hfailing : (stillFailing expectedMembers members).Nodup := hnodup.filter _
    obtain ⟨hnone, hisolatedObserved⟩ := isolate_members_observed hperTest hfailing hisolated
    intro test htest
    rw [hruns, observations_of_append]
    rcases List.mem_append.mp htest with hkeptTest | hisolatedTest
    · obtain ⟨hname, hobserved⟩ := observed_of_mem
        (report_members_observed (hnodup.filter _) hkept) hkeptTest
      have hnotFailing : test.testId.name ∉ failing := by
        simpa using (List.mem_filter.mp hname).2
      rw [hobserved, hrecorded.observed hperTest hnodup, hnone _ hnotFailing, List.append_nil]
      rfl
    · obtain ⟨hname, hobserved⟩ := observed_of_mem hisolatedObserved hisolatedTest
      have hnotPassing : test.testId.name ∉ passing := by
        intro hpassing
        have hnotFailing : test.testId.name ∉ failing := by
          simpa using (List.mem_filter.mp hpassing).2
        exact hnotFailing hname
      rw [hobserved, attempts_of_remove_all hnotPassing, hrecorded.observed hperTest hnodup]
      rfl

end Finished

/-! ## The flake record -/

/-- A flake record has grown by some runs and failures. Counters are 64-bit numbers; with
overflow checks they are exact. -/
structure FlakeRecord.Grows (profile : BuildProfile) (before after : FlakeRecord)
    (runs failures : Nat) : Prop where
  runs_eq : after.runs = before.runs + UInt64.ofNat runs
  failures_eq : after.failures = before.failures + UInt64.ofNat failures
  exact : profile.overflowChecks = true →
    after.runs.toNat = before.runs.toNat + runs ∧
      after.failures.toNat = before.failures.toNat + failures

section Records

variable {profile : BuildProfile}

/-- A checked addition is exact. -/
theorem BuildProfile.checked_add {a b c : UInt64} (hchecks : profile.overflowChecks = true)
    (h : profile.addU64 a b = .ok c) : c.toNat = a.toNat + b.toNat := by
  unfold BuildProfile.addU64 at h
  split at h
  case isTrue => cases h
  case isFalse hfits =>
    cases h
    rw [UInt64.toNat_add]
    exact Nat.mod_eq_of_lt (by simpa [hchecks] using hfits)

variable (profile) in
theorem FlakeRecord.grows_refl (flake : FlakeRecord) : flake.Grows profile flake 0 0 :=
  ⟨(UInt64.add_zero _).symm, (UInt64.add_zero _).symm, fun _ => ⟨rfl, rfl⟩⟩

/-- One more outcome. -/
theorem FlakeRecord.Grows.record {before flake next : FlakeRecord} {runs failures : Nat}
    (h : before.Grows profile flake runs failures) {failed : Bool}
    {failureClass : Option FailureClass} {timestampMs : UInt64}
    (hnext : flake.record profile failed failureClass timestampMs = .ok next) :
    before.Grows profile next (runs + 1) (failures + if failed then 1 else 0) := by
  obtain ⟨counted, hcounted, hcases⟩ := record_eq_ok hnext
  have hruns : next.runs = counted := by
    rcases hcases with ⟨-, rfl⟩ | ⟨-, _, -, rfl⟩
    · rfl
    · split <;> rfl
  have hfailures : ∃ added : UInt64, added.toNat = (if failed then 1 else 0) ∧
      (profile.addU64 flake.failures added = .ok next.failures ∨
        (added = 0 ∧ next.failures = flake.failures)) := by
    rcases hcases with ⟨rfl, rfl⟩ | ⟨rfl, total, htotal, rfl⟩
    · exact ⟨0, rfl, .inr ⟨rfl, rfl⟩⟩
    · refine ⟨1, rfl, .inl (htotal.trans ?_)⟩
      split <;> rfl
  obtain ⟨added, hadded, hsum⟩ := hfailures
  have haddedEq : added = UInt64.ofNat (if failed then 1 else 0) := by
    rw [← hadded, UInt64.ofNat_toNat]
  refine ⟨?_, ?_, fun hchecks => ⟨?_, ?_⟩⟩
  · rw [hruns, FlakeRecord.add_u64_eq_ok hcounted, h.runs_eq, UInt64.ofNat_add, UInt64.add_assoc]
    rfl
  · have hnextEq : next.failures = flake.failures + added := by
      rcases hsum with hsum | ⟨rfl, hsame⟩
      · exact FlakeRecord.add_u64_eq_ok hsum
      · rw [hsame, UInt64.add_zero]
    rw [hnextEq, h.failures_eq, UInt64.ofNat_add, UInt64.add_assoc, haddedEq]
  · rw [hruns, BuildProfile.checked_add hchecks hcounted, (h.exact hchecks).1, Nat.add_assoc]
    rfl
  · have hnextEq : next.failures.toNat = flake.failures.toNat + added.toNat := by
      rcases hsum with hsum | ⟨rfl, hsame⟩
      · exact BuildProfile.checked_add hchecks hsum
      · rw [hsame]
        rfl
    rw [hnextEq, (h.exact hchecks).2, Nat.add_assoc, hadded]

variable [HashKey] {io : ReporterIo}

/-- The flake record of a test in an environment. -/
def DurationDb.flakeAt (db : DurationDb) (env : Environment) (testId : TestIdentity) :
    FlakeRecord :=
  ((db.flake env).lookup (HashKey.hashKey testId)).getD {}

/-- Recording one observation. -/
theorem FlakeRecord.Grows.recordAt {before : FlakeRecord} {runs failures : Nat}
    {db next : DurationDb} {env : Environment} {testId : TestIdentity} {obs : DbObservation}
    {timestampMs : UInt64}
    (h : before.Grows profile (db.flakeAt env testId) runs failures)
    (hnext : db.recordAt profile obs.env testId obs.duration obs.failed obs.failureClass
      timestampMs = .ok next) :
    before.Grows profile (next.flakeAt env testId)
      (runs + if obs.env = env then 1 else 0)
      (failures + if obs.env = env ∧ obs.failed = true then 1 else 0) := by
  have hflake := @DurationDb.flake_of_perform _ profile db next (.recordAt obs.env testId
    obs.duration obs.failed obs.failureClass timestampMs) hnext env (HashKey.hashKey testId)
  by_cases henv : obs.env = env
  · rw [henv, DbOp.outcome_of_self] at hflake
    obtain ⟨counted, hcounted, hlookup⟩ := hflake
    have hafter : next.flakeAt env testId = counted := by
      unfold DurationDb.flakeAt
      rw [hlookup]
      rfl
    rw [hafter, if_pos henv]
    simpa [henv] using h.record hcounted
  · have hother : DbOp.outcomeOf env (HashKey.hashKey testId) (.recordAt obs.env testId
        obs.duration obs.failed obs.failureClass timestampMs) = none :=
      if_neg fun hsame => henv (congrArg Prod.fst hsame)
    rw [hother] at hflake
    have hafter : next.flakeAt env testId = db.flakeAt env testId := by
      unfold DurationDb.flakeAt
      rw [show (next.flake env).lookup _ = _ from hflake]
    simpa [henv, hafter] using h

/-- Recording observations counts each of them once, in its environment. -/
theorem recorded_observations {before : FlakeRecord} {runs failures : Nat}
    {testId : TestIdentity} {observations : List DbObservation} {state next : ReporterState}
    {env : Environment}
    (hgrows : before.Grows profile (state.db.flakeAt env testId) runs failures)
    (h : recordObservations profile io testId state observations = .ok next) :
    before.Grows profile (next.db.flakeAt env testId)
      (runs + observations.countP fun obs => obs.env = env)
      (failures + observations.countP fun obs => obs.env = env ∧ obs.failed) := by
  induction observations generalizing state runs failures with
  | nil => cases h; simpa using hgrows
  | cons obs rest ih =>
      unfold recordObservations at h
      cases hdb : state.db.recordAt profile obs.env testId obs.duration obs.failed
          obs.failureClass (io.now state.recorded) with
      | error message => rw [hdb] at h; cases h
      | ok db =>
          rw [hdb] at h
          have hrest := ih (hgrows.recordAt hdb) h
          rw [List.countP_cons, List.countP_cons]
          simpa [Nat.add_assoc, Nat.add_comm, Nat.add_left_comm] using hrest

omit [HashKey] in
/-- Counting and reporting a finished test leaves the store alone. -/
theorem report_result_db (io : ReporterIo) (state : ReporterState) (finished : FinishedTest) :
    (reportResult io (countFinished (writeCiTest io state) finished) finished.result).db =
      state.db := by
  unfold reportResult countFinished writeCiTest reportCiReportFailure
  dsimp only
  repeat' split
  all_goals rfl

/-- A finished test grows the flake record of its test by its observations. -/
theorem report_finished_grows {state next : ReporterState} {finished : FinishedTest}
    (h : reportFinished profile io state finished = .ok next) (env : Environment) :
    (state.db.flakeAt env finished.testId).Grows profile (next.db.flakeAt env finished.testId)
      (finished.dbObservations.countP fun obs => obs.env = env)
      (finished.dbObservations.countP fun obs => obs.env = env ∧ obs.failed) := by
  have hdb := report_result_db io state finished
  have hstart := (state.db.flakeAt env finished.testId).grows_refl profile
  rw [← hdb] at hstart
  have hgrows := recorded_observations hstart h
  rw [hdb] at hgrows
  simpa using hgrows

end Records

/-! ## The result -/

section History

variable [External] (ctx : TargetCtx) (plan : TargetPlan) (path : List Nat)
  (selection : TestSelection String) (expectedMembers : List String) (repeatIndex : Nat)
  (firstAttemptIndex : UInt32)

/-- An action of a per-test target over distinct members reports each member once, with one
observation for each attempt that asked for it, ran afresh without a memory failure of the whole
action and decoded a result for it. Reporting the test grows its flake record by exactly these
runs and failures. -/
theorem flake_history_is_exact {finished : List FinishedTest}
    (hperTest : plan.translator.listingStrategy.isWholeTarget = false)
    (hnodup : expectedMembers.Nodup)
    (h : (executeTestAction ctx plan path selection expectedMembers repeatIndex
      firstAttemptIndex MemberTables.empty).finished = .ok finished) :
    let runs := (executeTestAction ctx plan path selection expectedMembers repeatIndex
      firstAttemptIndex MemberTables.empty).runs
    (finished.map FinishedTest.key).Perm
        (expectedMembers.map fun name => (name, repeatIndex)) ∧
      ∀ test ∈ finished,
        let observations := observationsOf runs test.testId.name
        test.dbObservations = observations ∧
        ∀ profile io state next, reportFinished profile io state test = .ok next → ∀ env,
          (state.db.flakeAt env test.testId).Grows profile (next.db.flakeAt env test.testId)
            (observations.countP fun obs => obs.env = env)
            (observations.countP fun obs => obs.env = env ∧ obs.failed) := by
  intro runs
  obtain ⟨members, failing, hreported⟩ := execute_test_action_ok ctx plan selection
    expectedMembers repeatIndex h
  refine ⟨hreported.keys_perm, ?_⟩
  intro test htest observations
  have hobserved : test.dbObservations = observations :=
    execute_test_action_observed hperTest hnodup h test htest
  refine ⟨hobserved, fun profile io state next hnext env => ?_⟩
  rw [← hobserved]
  exact report_finished_grows hnext env

end History

/-- The response of an action that ran on this machine. -/
def ExecuteResponse2.ranLocally (exitCode : Int) (stdout : String) : ExecuteResponse2 where
  response := some (.result
    { status := some (some (.finished exitCode))
      stdout := some (some (Text.bytes stdout))
      stderr := none
      executionTime := none
      executionDetails := some (some (some .localCommand))
      maxMemoryUsedBytes := none })

/-- A batch of which one member passes and the other one fails in every attempt: the failing
member has an observation of the batch and one of its isolation run. -/
theorem isolated_flake_history_is_exact :
    letI := External.inert
    let ctx := TargetCtx.textFormats
      (.always (.ranLocally 101 "test a ... ok\ntest b ... FAILED\n"))
    ∃ plan finished, TargetPlan.derive (.plain "rust" []) ctx.config = .ok plan ∧
      let action := executeTestAction ctx plan [0, 0] (.explicit ["a", "b"]) ["a", "b"] 0 0
        MemberTables.empty
      action.finished = .ok finished ∧
      (∀ test ∈ finished, test.dbObservations = observationsOf action.runs test.testId.name) ∧
      (observationsOf action.runs "a").length = 1 ∧
      (observationsOf action.runs "b").length = 2 := by
  let := External.inert
  intro ctx
  obtain ⟨plan, hplan, hperTest, hfinished, hlengths⟩ : ∃ plan,
      TargetPlan.derive (.plain "rust" []) ctx.config = .ok plan ∧
      plan.translator.listingStrategy.isWholeTarget = false ∧
      (executeTestAction ctx plan [0, 0] (.explicit ["a", "b"]) ["a", "b"] 0 0
        MemberTables.empty).finished.toOption.isSome = true ∧
      ["a", "b"].map (fun name => (observationsOf (executeTestAction ctx plan [0, 0]
        (.explicit ["a", "b"]) ["a", "b"] 0 0 MemberTables.empty).runs name).length) = [1, 2] :=
    ⟨_, rfl, rfl, by decide +kernel, by decide +kernel⟩
  cases haction : (executeTestAction ctx plan [0, 0] (.explicit ["a", "b"]) ["a", "b"] 0 0
      MemberTables.empty).finished with
  | error message => rw [haction] at hfinished; cases hfinished
  | ok finished =>
      have hhistory := flake_history_is_exact ctx plan [0, 0] (.explicit ["a", "b"]) ["a", "b"] 0
        0 hperTest (by decide) haction
      rw [List.map_cons, List.map_singleton, List.cons.injEq, List.cons.injEq] at hlengths
      exact ⟨plan, finished, hplan, haction, fun test htest => (hhistory.2 test htest).1,
        hlengths.1, hlengths.2.1⟩

end Quokka
