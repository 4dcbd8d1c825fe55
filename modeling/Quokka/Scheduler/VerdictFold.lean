import Quokka.Scheduler.ActionResults
import Quokka.Scheduler.ProcessOutcome
import Quokka.Scheduler.Reporter

/-!
# The reported verdict as a fold of the attempts

For a target whose tests are listed one by one, what an action reports for a member is
determined by the member's own attempts: the last incomplete one if there is one, else the first
that is not a failure, else the last.

`attemptsOf` reads the attempts of a member off the log of group executions and `foldAttempts`
is the fold. `reported_verdict_is_fold_of_attempts` is the result, for members reported by the
action itself and for members reported by their isolation run.
-/

namespace Quokka

/-! ## The abstract fold -/

/-- What one attempt says of a member: its status, and whether the member's own end is missing
from it. -/
structure MemberAttempt where
  status : TestVerdict
  incomplete : Bool
  deriving DecidableEq

/-- The attempt does not count as a failure. -/
def MemberAttempt.passing (attempt : MemberAttempt) : Bool := !attempt.status.isFailure

/-- The integrity of a result that comes from this attempt. -/
def MemberAttempt.integrity (attempt : MemberAttempt) : ResultIntegrity :=
  if attempt.incomplete then .missingTerminalResult else .complete

/-- The last incomplete attempt, else the first that is not a failure, else the last one. -/
def foldAttempts (attempts : List MemberAttempt) : Option (TestVerdict × ResultIntegrity) :=
  match (attempts.filter MemberAttempt.incomplete).getLast? with
  | some attempt => some (attempt.status, .missingTerminalResult)
  | none =>
      match attempts.find? MemberAttempt.passing with
      | some attempt => some (attempt.status, .complete)
      | none => attempts.getLast?.map fun attempt => (attempt.status, .complete)

/-- The fold picks one attempt. -/
theorem fold_attempts_eq_pick (attempts : List MemberAttempt) :
    foldAttempts attempts =
      (StickyFold.pick MemberAttempt.incomplete MemberAttempt.passing attempts).map
        fun attempt => (attempt.status, attempt.integrity) := by
  unfold foldAttempts StickyFold.pick
  cases hlast : (attempts.filter MemberAttempt.incomplete).getLast? with
  | some attempt =>
      have hincomplete := (List.mem_filter.mp (List.mem_of_getLast? hlast)).2
      simp [MemberAttempt.integrity, hincomplete]
  | none =>
      have hnone : ∀ attempt ∈ attempts, attempt.incomplete = false := by
        rw [List.getLast?_eq_none_iff, List.filter_eq_nil_iff] at hlast
        exact fun attempt hattempt => by simpa using hlast attempt hattempt
      cases hfirst : attempts.find? MemberAttempt.passing with
      | some attempt =>
          have hmem := List.mem_of_find?_eq_some hfirst
          simp [MemberAttempt.integrity, hnone attempt hmem]
      | none =>
          cases hend : attempts.getLast? with
          | none => rfl
          | some attempt =>
              have hmem := List.mem_of_getLast? hend
              simp [MemberAttempt.integrity, hnone attempt hmem]

/-- Whether a result counts as a failure, for a quarantined target or another one, in terms of
the attempt that it comes from. -/
theorem failure_iff_of_attempt (attempt : MemberAttempt) (quarantined : Bool) :
    reportDisposition attempt.status attempt.integrity quarantined = .failure ↔
      attempt.incomplete = true ∨ (quarantined = false ∧ attempt.passing = false) := by
  obtain ⟨status, incomplete⟩ := attempt
  cases incomplete <;> cases quarantined <;> cases status <;> decide

/-- Whether the picked attempt is incomplete does not depend on the order. -/
theorem incomplete_of_perm {attempts others : List MemberAttempt} {attempt other : MemberAttempt}
    (hperm : attempts.Perm others)
    (hattempt : StickyFold.pick MemberAttempt.incomplete MemberAttempt.passing attempts =
      some attempt)
    (hother : StickyFold.pick MemberAttempt.incomplete MemberAttempt.passing others =
      some other) :
    attempt.incomplete = other.incomplete := by
  have hcomplete : ∀ {first second : List MemberAttempt} {a b : MemberAttempt},
      first.Perm second →
      StickyFold.pick MemberAttempt.incomplete MemberAttempt.passing first = some a →
      StickyFold.pick MemberAttempt.incomplete MemberAttempt.passing second = some b →
      a.incomplete = false → b.incomplete = false := by
    intro first second a b hperm ha hb hnot
    have hall := StickyFold.absorbing_of_pick ha hnot
    exact hall b (hperm.mem_iff.mpr (StickyFold.mem_of_pick_eq_some hb))
  cases hleft : attempt.incomplete with
  | false => rw [hcomplete hperm hattempt hother hleft]
  | true =>
      cases hright : other.incomplete with
      | false => rw [hcomplete hperm.symm hother hattempt hright] at hleft; exact hleft.symm
      | true => rfl

/-- Whether a member counts as a failure does not depend on the order of its attempts. -/
theorem failure_of_perm {attempts others : List MemberAttempt} {status : TestVerdict}
    {integrity : ResultIntegrity} (hperm : attempts.Perm others)
    (h : foldAttempts attempts = some (status, integrity)) :
    ∃ status' integrity', foldAttempts others = some (status', integrity') ∧
      ∀ quarantined,
        reportDisposition status' integrity' quarantined = .failure ↔
          reportDisposition status integrity quarantined = .failure := by
  rw [fold_attempts_eq_pick] at h
  obtain ⟨attempt, hattempt, heq⟩ := Option.map_eq_some_iff.mp h
  cases heq
  cases hother : StickyFold.pick MemberAttempt.incomplete MemberAttempt.passing others with
  | none =>
      have hnil := StickyFold.pick_eq_none.mp hother
      subst hnil
      rw [hperm.eq_nil] at hattempt
      cases hattempt
  | some other =>
      refine ⟨other.status, other.integrity, by rw [fold_attempts_eq_pick, hother]; rfl, ?_⟩
      have hincomplete := incomplete_of_perm hperm hattempt hother
      have hbad := StickyFold.bad_of_perm hperm hattempt hother
      intro quarantined
      rw [failure_iff_of_attempt, failure_iff_of_attempt]
      cases quarantined with
      | true => simp [hincomplete]
      | false => simpa using hbad.symm

/-! ## Attempts in the log -/

/-- What a group execution that asked for `names` says of one of them. A failure of the whole
group, a memory failure of an action with other members and a member without a result are
incomplete; an action timeout is not. -/
def GroupOutcome.attempt (names : List String) (name : String) : GroupOutcome → MemberAttempt
  | .groupFailed failure => ⟨failure.status, failure.disposition == .incomplete⟩
  | .observed group =>
      match group.actionOom with
      | some _ => if 1 < names.length then ⟨.fatal, true⟩ else ⟨.fail, false⟩
      | none =>
          match group.observations.lookup name with
          | some obs => ⟨obs.status, false⟩
          | none =>
              ⟨(absentNameVerdict group.raw false (names.length == 1) group.stdout
                group.stderr).1, true⟩

/-- The attempts that included a member, in execution order. -/
def attemptsOf (runs : List GroupRun) (name : String) : List MemberAttempt :=
  (runs.filter fun run => run.names.contains name).filterMap fun run =>
    run.outcome.toOption.map fun outcome => outcome.attempt run.names name

@[simp] theorem attempts_of_append (first second : List GroupRun) (name : String) :
    attemptsOf (first ++ second) name = attemptsOf first name ++ attemptsOf second name := by
  simp [attemptsOf]

/-- A member result as an attempt. -/
def MemberResult.attempt (result : MemberResult) : MemberAttempt where
  status := result.status
  incomplete := result.integrity == .missingTerminalResult

/-- What a group execution shows of one of its members, for a per-test target. -/
def GroupOutcome.memberResult (singleton : Bool) (name : String) : GroupOutcome → MemberResult
  | .observed group => group.memberResult false singleton name
  | .groupFailed failure => failure.memberResult

/-- A group execution shows one result for each of its members. -/
theorem results_of_outcome (expectedMembers : List String) {names : List String}
    (hnodup : names.Nodup) (name : String) (outcome : GroupOutcome) :
    resultsOf name (memberResults false expectedMembers names outcome) =
      if name ∈ names then
        [outcome.memberResult (!(1 < expectedMembers.length) || names.length == 1) name]
      else [] := by
  cases outcome with
  | groupFailed failure => exact results_of_map hnodup (fun _ => failure.memberResult) name
  | observed group =>
      have hnames : group.testNames false names = names := by simp [ObservedGroup.testNames]
      rw [memberResults, hnames]
      exact results_of_map hnodup _ name

/-- The recorded result of a member is what the group execution says of it. -/
theorem member_result_attempt {expectedMembers names : List String} {name : String}
    (hsublist : names.Sublist expectedMembers) (hname : name ∈ names) (hnodup : names.Nodup)
    (outcome : GroupOutcome) :
    (resultsOf name (memberResults false expectedMembers names outcome)).map
      MemberResult.attempt = [outcome.attempt names name] := by
  rw [results_of_outcome expectedMembers hnodup, if_pos hname]
  cases outcome with
  | groupFailed failure =>
      cases hdisposition : failure.disposition <;>
        simp [MemberResult.attempt, GroupOutcome.memberResult, FailedGroup.memberResult,
          GroupOutcome.attempt, hdisposition, GroupFailureDisposition.integrity]
  | observed group =>
      have hpos : 0 < names.length := List.length_pos_of_mem hname
      have hsingleton : (!decide (1 < expectedMembers.length) || names.length == 1) =
          (names.length == 1) := by
        have hle := hsublist.length_le
        by_cases hone : names.length = 1
        · simp [hone]
        · have hmany : 1 < expectedMembers.length := by omega
          simp [hmany]
      rw [hsingleton]
      unfold GroupOutcome.memberResult ObservedGroup.memberResult GroupOutcome.attempt
      cases hoom : group.actionOom with
      | some details =>
          by_cases hone : names.length = 1
          · simp [hoom, hone, MemberResult.attempt]
          · have hmany : 1 < names.length := by omega
            simp [hoom, hone, hmany, MemberResult.attempt]
      | none =>
          cases hlookup : group.observations.lookup name with
          | some obs => simp [hoom, hlookup, MemberResult.attempt]
          | none => simp [hoom, hlookup, MemberResult.attempt]

/-- The fold over recorded results, from the first attempt on. -/
theorem fold_attempts_of_best {results : List MemberResult} {best : BestObs}
    (h : StickyFold.foldFrom BestObs.incomplete BestObs.passing none
      (results.map MemberResult.toBest) = some best) :
    foldAttempts (results.map MemberResult.attempt) = some (best.status, best.integrity) := by
  rw [StickyFold.fold_eq_pick, StickyFold.pick_map] at h
  rw [fold_attempts_eq_pick, StickyFold.pick_map]
  have hincomplete : BestObs.incomplete ∘ MemberResult.toBest =
      MemberAttempt.incomplete ∘ MemberResult.attempt := rfl
  have hpassing : BestObs.passing ∘ MemberResult.toBest =
      MemberAttempt.passing ∘ MemberResult.attempt := rfl
  rw [hincomplete, hpassing] at h
  obtain ⟨result, hresult, rfl⟩ := Option.map_eq_some_iff.mp h
  rw [hresult]
  cases hintegrity : result.integrity <;>
    simp [MemberResult.attempt, MemberResult.toBest, MemberAttempt.integrity, hintegrity]

/-- A member with an attempt is reported as the fold of its attempts. -/
theorem summary_of_best {members : MemberTables} {repeatIndex : Nat}
    {results : List MemberResult} {name : String}
    (hbest : members.bestOf name = StickyFold.foldFrom BestObs.incomplete BestObs.passing none
      (results.map MemberResult.toBest))
    (hne : results ≠ []) :
    foldAttempts (results.map MemberResult.attempt) =
      some ((members.summary repeatIndex name).status,
        (members.summary repeatIndex name).integrity) := by
  cases hfold : StickyFold.foldFrom BestObs.incomplete BestObs.passing none
      (results.map MemberResult.toBest) with
  | none =>
      rw [StickyFold.fold_eq_pick, StickyFold.pick_eq_none] at hfold
      exact absurd (List.map_eq_nil_iff.mp hfold) hne
  | some best =>
      rw [fold_attempts_of_best hfold]
      simp [MemberTables.summary, MemberTables.outcomeOf, hbest, hfold, BestObs.intoOutcome]

section Recorded

variable [External] {ctx : TargetCtx} {plan : TargetPlan} {selection : TestSelection String}
  {expectedMembers : List String} {repeatIndex : Nat}

/-- The recorded attempts of a member are the ones in the log. -/
theorem member_attempts_eq {runs : List GroupRun} (hnodup : expectedMembers.Nodup)
    (hexecuted : ∀ run ∈ runs, Executed ctx plan selection expectedMembers repeatIndex run)
    (name : String) :
    (memberAttempts false expectedMembers runs name).map MemberResult.attempt =
      attemptsOf runs name := by
  induction runs with
  | nil => rfl
  | cons run runs ih =>
      have hrest := ih fun other hother => hexecuted other (List.mem_cons_of_mem _ hother)
      have hsublist := (hexecuted run List.mem_cons_self).names_sublist
      have hdistinct := hnodup.sublist hsublist
      have hsplit : attemptsOf (run :: runs) name =
          attemptsOf [run] name ++ attemptsOf runs name := attempts_of_append [run] runs name
      rw [hsplit, ← hrest, memberAttempts, List.flatMap_cons, List.map_append]
      congr 1
      unfold GroupRun.results
      cases houtcome : run.outcome with
      | error message => simp [attemptsOf, houtcome, Except.toOption, List.filter_cons]
      | ok outcome =>
          by_cases hname : name ∈ run.names
          · rw [member_result_attempt hsublist hname hdistinct]
            simp [attemptsOf, hname, houtcome, Except.toOption]
          · rw [results_of_outcome expectedMembers hdistinct, if_neg hname]
            simp [attemptsOf, hname]

/-- The first group execution asks for every member, so every member has an attempt. -/
theorem attempts_of_ne_nil {prior members : MemberTables} {runs : List GroupRun} {name : String}
    (h : Recorded ctx plan selection expectedMembers repeatIndex prior members runs)
    (hruns : runs ≠ []) (hname : name ∈ expectedMembers) : attemptsOf runs name ≠ [] := by
  cases runs with
  | nil => exact absurd rfl hruns
  | cons run runs =>
      have hfirst := h.first_names run rfl
      obtain ⟨outcome, houtcome⟩ := h.completed run List.mem_cons_self
      simp [attemptsOf, hfirst, hname, houtcome, Except.toOption]

/-- Isolation runs ask for no other member. -/
theorem names_of_other {runs : List GroupRun} {name other : String} (hne : name ≠ other)
    (hexecuted : ∀ run ∈ runs, Executed ctx plan (.explicit [other]) [other] repeatIndex run) :
    (runs.filter fun run => run.names.contains name) = [] := by
  rw [List.filter_eq_nil_iff]
  intro run hrun hcontains
  have hmem := (hexecuted run hrun).names_sublist.subset (List.contains_iff_mem.mp hcontains)
  exact hne (List.mem_singleton.mp hmem)

/-- Other members have no attempts in isolation runs. -/
theorem attempts_of_other {runs : List GroupRun} {name other : String} (hne : name ≠ other)
    (hexecuted : ∀ run ∈ runs, Executed ctx plan (.explicit [other]) [other] repeatIndex run) :
    attemptsOf runs name = [] := by
  rw [attemptsOf, names_of_other hne hexecuted]
  rfl

/-- The attempts recorded over a prior best result. -/
theorem best_recorded {prior members : MemberTables} {runs : List GroupRun}
    (hperTest : plan.translator.listingStrategy.isWholeTarget = false)
    (h : Recorded ctx plan selection expectedMembers repeatIndex prior members runs)
    {earlier : List MemberResult} {name : String}
    (hprior : prior.bestOf name = StickyFold.foldFrom BestObs.incomplete BestObs.passing none
      (earlier.map MemberResult.toBest)) :
    members.bestOf name = StickyFold.foldFrom BestObs.incomplete BestObs.passing none
      ((earlier ++ memberAttempts false expectedMembers runs name).map MemberResult.toBest) := by
  rw [h.best, hprior, List.map_append, StickyFold.fold_from_append, hperTest]

/-- What the isolation runs report of a member, in terms of all its attempts. -/
theorem isolated_verdict {members : MemberTables} {names : List String}
    {finished : List FinishedTest} {runs : List GroupRun}
    (hperTest : plan.translator.listingStrategy.isWholeTarget = false) (hnodup : names.Nodup)
    (h : Isolated ctx plan repeatIndex members names finished runs)
    {earlier : String → List MemberResult}
    (hearlier : ∀ name, members.bestOf name =
      StickyFold.foldFrom BestObs.incomplete BestObs.passing none
        ((earlier name).map MemberResult.toBest)) :
    (∀ name, name ∉ names → attemptsOf runs name = []) ∧
      ∀ test ∈ finished.map FinishedTest.summary,
        foldAttempts ((earlier test.name).map MemberResult.attempt ++
          attemptsOf runs test.name) = some (test.status, test.integrity) := by
  induction h with
  | nil => exact ⟨fun _ _ => rfl, fun _ h => by cases h⟩
  | @cons name prior final single singleRuns rest others otherRuns hprior hrecorded hruns
      hfinished hrest ih =>
      obtain ⟨hfresh, hrestNodup⟩ := List.nodup_cons.mp hnodup
      -- The names are distinct, so the other isolation runs say nothing about this member.
      obtain ⟨hothers, hverdicts⟩ := ih hrestNodup
      have hown := member_attempts_eq (List.nodup_singleton name) hrecorded.executed name
      constructor
      · intro other hother
        rw [List.mem_cons, not_or] at hother
        rw [attempts_of_append, attempts_of_other hother.1 hrecorded.executed,
          hothers other hother.2, List.append_nil]
      · intro test htest
        rw [List.map_append, hfinished] at htest
        rcases List.mem_append.mp htest with hsingle | hrestTest
        · rw [List.mem_singleton.mp hsingle]
          show foldAttempts ((earlier name).map MemberResult.attempt ++
            attemptsOf (singleRuns ++ otherRuns) name) = _
          rw [attempts_of_append, hothers name hfresh, List.append_nil, ← hown,
            ← List.map_append]
          refine summary_of_best (best_recorded hperTest hrecorded (hprior.trans (hearlier name)))
            ?_
          intro hnil
          refine attempts_of_ne_nil hrecorded hruns (List.mem_singleton_self name) ?_
          rw [← hown, (List.append_eq_nil_iff.mp hnil).2]
          rfl
        · have hname : test.name ≠ name := by
            intro heq
            have hmem : (test.name, test.repeatIndex) ∈ others.map FinishedTest.key := by
              rw [keys_of_summaries]
              exact List.mem_map_of_mem hrestTest
            rw [hrest.keys] at hmem
            obtain ⟨other, hother, hsame⟩ := List.mem_map.mp hmem
            have : other = test.name := congrArg Prod.fst hsame
            exact hfresh (heq ▸ this ▸ hother)
          rw [attempts_of_append, attempts_of_other hname hrecorded.executed, List.nil_append]
          exact hverdicts test hrestTest

/-- An action reports for each member the fold of the member's attempts. -/
theorem reported_verdict {members : MemberTables} {failing : List String}
    {finished : List FinishedTest} {runs : List GroupRun}
    (hperTest : plan.translator.listingStrategy.isWholeTarget = false)
    (hnodup : expectedMembers.Nodup)
    (h : Reported ctx plan selection expectedMembers repeatIndex MemberTables.empty members
      failing finished runs) :
    ∀ test ∈ finished.map FinishedTest.summary,
      foldAttempts (attemptsOf runs test.name) = some (test.status, test.integrity) := by
  cases h with
  | @intro main isolatedRuns _ kept isolated hrecorded hmain hfailing hkept hisolated =>
    have hown := member_attempts_eq hnodup hrecorded.executed
    have hbest : ∀ name, members.bestOf name =
        StickyFold.foldFrom BestObs.incomplete BestObs.passing none
          ((memberAttempts false expectedMembers main name).map MemberResult.toBest) :=
      fun name => best_recorded hperTest hrecorded
        (show MemberTables.empty.bestOf name = StickyFold.foldFrom BestObs.incomplete
          BestObs.passing none ([].map MemberResult.toBest) from rfl)
    have hdistinct : failing.Nodup := by
      rcases hfailing with rfl | rfl
      · exact List.nodup_nil
      · exact hnodup.filter _
    obtain ⟨hothers, hverdicts⟩ := isolated_verdict hperTest hdistinct hisolated hbest
    intro test htest
    rw [List.map_append] at htest
    rcases List.mem_append.mp htest with hkeptTest | hisolatedTest
    · rw [hkept] at hkeptTest
      obtain ⟨name, hname, rfl⟩ := List.mem_map.mp hkeptTest
      obtain ⟨hexpected, hnot⟩ := List.mem_filter.mp hname
      have hnotFailing : name ∉ failing := by simpa using hnot
      show foldAttempts (attemptsOf (main ++ isolatedRuns) name) = _
      rw [attempts_of_append, hothers name hnotFailing, List.append_nil, ← hown name]
      refine summary_of_best (hbest name) ?_
      intro hnil
      refine attempts_of_ne_nil hrecorded hmain hexpected ?_
      rw [← hown, hnil]
      rfl
    · rw [attempts_of_append, ← hown]
      exact hverdicts test hisolatedTest

end Recorded

/-! ## Who observed a passing result -/

/-- The answer to a call never fails the group with a passing or skipped status, and with
"omitted" only where nothing ended. -/
theorem classify_response_failed {ctx : TargetCtx} {plan : TargetPlan} {names : List String}
    {token : ResourceMarkerToken} {response : Except String ExecuteResponse2}
    {failure : FailedGroup}
    (h : classifyResponse ctx plan names token response = some (.groupFailed failure)) :
    failure.status.isFailure = true ∨
      (failure.status = .omitted ∧ failure.disposition = .incomplete) := by
  unfold classifyResponse at h
  split at h
  · cases h; exact .inl rfl
  split at h
  case h_1 action _ =>
    unfold classifyCompleted at h
    dsimp only at h
    split at h
    case h_1 marked hmarked => cases h; exact .inl (apply_markers_error hmarked)
    case h_2 => cases h
  · cases h
  · cases h; exact .inr ⟨rfl, rfl⟩
  · cases h; exact .inl rfl

section RunGroup

variable [External] {ctx : TargetCtx} {plan : TargetPlan}

/-- A failed group never has a passing or skipped status. -/
theorem run_group_failed {path : List Nat} {selection : TestSelection String}
    {names : List String} {repeatIndex : Nat} {attemptIndex : UInt32} {firstCall : Nat}
    {failure : FailedGroup}
    (h : (runGroup ctx plan path selection names repeatIndex attemptIndex firstCall).outcome =
      .ok (.groupFailed failure)) :
    failure.status.isFailure = true ∨
      (failure.status = .omitted ∧ failure.disposition = .incomplete) := by
  revert h
  refine (infraLoop ctx plan path selection names repeatIndex attemptIndex
    firstCall).run_invariant (fun _ => True)
    (fun exit => exit.outcome = .ok (.groupFailed failure) →
      failure.status.isFailure = true ∨
        (failure.status = .omitted ∧ failure.disposition = .incomplete))
    (fun _ _ _ _ => trivial) ?_ ⟨0, []⟩ trivial
  intro state exit _ hbody h
  cases infra_body_leave _ _ _ _ _ _ _ _ hbody with
  | overflowed => cases h
  | rejected =>
      cases h
      exact .inl rfl
  | answered hindex hmax houtcome =>
      cases h
      rcases houtcome with hclassified | hexhausted
      · exact classify_response_failed hclassified
      · cases hexhausted
        exact .inl rfl

end RunGroup

/-- The group execution completed and its output holds this status for the member. -/
def GroupRun.Observes (run : GroupRun) (name : String) (status : TestVerdict) : Prop :=
  name ∈ run.names ∧ ∃ group obs, run.outcome = .ok (.observed group) ∧
    group.actionOom = none ∧ group.observations.lookup name = some obs ∧ obs.status = status

/-- A passing or skipped attempt comes from an observation. -/
theorem observes_of_attempt [External] {ctx : TargetCtx} {plan : TargetPlan}
    {selection : TestSelection String} {expectedMembers : List String} {repeatIndex : Nat}
    {run : GroupRun} {outcome : GroupOutcome} {name : String} {status : TestVerdict}
    (hexecuted : Executed ctx plan selection expectedMembers repeatIndex run)
    (houtcome : run.outcome = .ok outcome) (hname : name ∈ run.names)
    (hattempt : (outcome.attempt run.names name).status = status)
    (hstatus : status = .pass ∨ status = .skip) :
    run.Observes name status ∧ (outcome.attempt run.names name).incomplete = false := by
  cases outcome with
  | groupFailed failure =>
      obtain ⟨path, attemptIndex, firstCall, hrun⟩ := hexecuted.eq_run_group
      have hfailed := run_group_failed (hrun ▸ houtcome)
      have hsame : failure.status = status := hattempt
      rcases hstatus with rfl | rfl
      · rw [hsame] at hfailed; simp [TestVerdict.isFailure] at hfailed
      · rw [hsame] at hfailed; simp [TestVerdict.isFailure] at hfailed
  | observed group =>
      have hnot : status.isFailure = false := by rcases hstatus with rfl | rfl <;> rfl
      subst hattempt
      cases hoom : group.actionOom with
      | some details =>
          simp only [GroupOutcome.attempt, hoom] at hnot
          split at hnot
          · cases hnot
          · cases hnot
      | none =>
          cases hlookup : group.observations.lookup name with
          | some obs =>
              simp only [GroupOutcome.attempt, hoom, hlookup]
              exact ⟨⟨hname, group, obs, houtcome, hoom, hlookup, rfl⟩, trivial⟩
          | none =>
              simp only [GroupOutcome.attempt, hoom, hlookup,
                absent_name_verdict_failing] at hnot
              cases hnot

/-! ## The result -/

section Verdict

variable [External] (ctx : TargetCtx) (plan : TargetPlan) (path : List Nat)
  (selection : TestSelection String) (expectedMembers : List String) (repeatIndex : Nat)
  (firstAttemptIndex : UInt32)

/-- An action of a per-test target over distinct members reports each member once, with the fold
of the member's own attempts. A passed or skipped member has no incomplete attempt and was
observed so, and whether a member counts as a failure does not depend on the order of its
attempts. -/
theorem reported_verdict_is_fold_of_attempts {finished : List FinishedTest}
    (hperTest : plan.translator.listingStrategy.isWholeTarget = false)
    (hnodup : expectedMembers.Nodup)
    (h : (executeTestAction ctx plan path selection expectedMembers repeatIndex
      firstAttemptIndex MemberTables.empty).finished = .ok finished) :
    let runs := (executeTestAction ctx plan path selection expectedMembers repeatIndex
      firstAttemptIndex MemberTables.empty).runs
    (finished.map FinishedTest.key).Perm
        (expectedMembers.map fun name => (name, repeatIndex)) ∧
      ∀ test ∈ finished,
        let attempts := attemptsOf runs test.testId.name
        foldAttempts attempts = some (test.status, test.integrity) ∧
        (test.status = .pass ∨ test.status = .skip →
          (∀ attempt ∈ attempts, attempt.incomplete = false) ∧
            ∃ run ∈ runs, run.Observes test.testId.name test.status) ∧
        (∀ others, attempts.Perm others →
          ∃ status integrity, foldAttempts others = some (status, integrity) ∧
            ∀ quarantined, reportDisposition status integrity quarantined = .failure ↔
              reportDisposition test.status test.integrity quarantined = .failure) := by
  intro runs
  obtain ⟨members, failing, hreported⟩ := execute_test_action_ok ctx plan selection
    expectedMembers repeatIndex h
  have hexecuted : ∀ run ∈ runs, ∃ selection members,
      Executed ctx plan selection members repeatIndex run := by
    intro run hrun
    rcases execute_test_action_executed ctx plan repeatIndex hrun with hown | ⟨_, _, hsingle⟩
    · exact ⟨_, _, hown⟩
    · exact ⟨_, _, hsingle⟩
  refine ⟨hreported.keys_perm, ?_⟩
  intro test htest attempts
  have hfold : foldAttempts attempts = some (test.status, test.integrity) :=
    reported_verdict hperTest hnodup hreported test.summary (List.mem_map_of_mem htest)
  refine ⟨hfold, ?_, fun others hperm => failure_of_perm hperm hfold⟩
  intro hstatus
  rw [fold_attempts_eq_pick] at hfold
  obtain ⟨attempt, hpick, heq⟩ := Option.map_eq_some_iff.mp hfold
  have hsame : attempt.status = test.status := congrArg Prod.fst heq
  have hmem : attempt ∈ attempts := StickyFold.mem_of_pick_eq_some hpick
  obtain ⟨run, hrun, hattempt⟩ := List.mem_filterMap.mp hmem
  obtain ⟨hlogged, hname⟩ := List.mem_filter.mp hrun
  obtain ⟨outcome, houtcome, rfl⟩ := Option.map_eq_some_iff.mp hattempt
  have hmember : test.testId.name ∈ run.names := List.contains_iff_mem.mp hname
  obtain ⟨_, _, hrunExecuted⟩ := hexecuted run hlogged
  obtain ⟨hobserves, hcomplete⟩ := observes_of_attempt hrunExecuted
    (by cases hrunOutcome : run.outcome <;> simp_all [Except.toOption]) hmember hsame hstatus
  exact ⟨StickyFold.absorbing_of_pick hpick hcomplete, run, hlogged, hobserves⟩

end Verdict

/-- A batch of which one member passes and the other one fails in every attempt. -/
theorem mixed_batch_verdict_is_fold_of_attempts :
    letI := External.inert
    let ctx := TargetCtx.textFormats
      (.always (.finished 101 "test a ... ok\ntest b ... FAILED\n"))
    ∃ plan finished, TargetPlan.derive (.plain "rust" []) ctx.config = .ok plan ∧
      let action := executeTestAction ctx plan [0, 0] (.explicit ["a", "b"]) ["a", "b"] 0 0
        MemberTables.empty
      action.finished = .ok finished ∧
      ∀ test ∈ finished,
        foldAttempts (attemptsOf action.runs test.testId.name) =
          some (test.status, test.integrity) := by
  let := External.inert
  intro ctx
  obtain ⟨plan, hplan, hperTest, hfinished⟩ : ∃ plan,
      TargetPlan.derive (.plain "rust" []) ctx.config = .ok plan ∧
      plan.translator.listingStrategy.isWholeTarget = false ∧
      (executeTestAction ctx plan [0, 0] (.explicit ["a", "b"]) ["a", "b"] 0 0
        MemberTables.empty).finished.toOption.isSome = true :=
    ⟨_, rfl, rfl, by decide +kernel⟩
  cases haction : (executeTestAction ctx plan [0, 0] (.explicit ["a", "b"]) ["a", "b"] 0 0
      MemberTables.empty).finished with
  | error message => rw [haction] at hfinished; cases hfinished
  | ok finished =>
      have hverdict := reported_verdict_is_fold_of_attempts ctx plan [0, 0]
        (.explicit ["a", "b"]) ["a", "b"] 0 0 hperTest (by decide) haction
      exact ⟨plan, finished, hplan, haction, fun test htest => (hverdict.2 test htest).1⟩

end Quokka
