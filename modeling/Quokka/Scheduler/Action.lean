import Quokka.Scheduler.Details

/-!
# Executing one test action

The retry loop of a possibly batched action and the isolation of its failing members, after
`execute_test_action` and `isolate_failures` of `scheduler.rs`.

`MemberTables` holds what the attempts have shown per member and `recordOutcome` adds one group
outcome to it. `afterOutcome` decides between another attempt, the report and isolation, and
`actionLoop` iterates it. `executeTestAction` reports the members, running isolated members as
actions of their own; `execute_test_action_eq` is the recursion that the source writes.
-/

namespace Quokka

/-- What the attempts have shown per member (`PriorActionState`). -/
structure MemberTables where
  best : Table String BestObs
  attempts : Table String (List DbObservation)
  attemptHistory : Table String (List AttemptObservation)

namespace MemberTables

/-- No attempt yet. -/
def empty : MemberTables := ⟨∅, ∅, ∅⟩

/-- The best result of a member. -/
def bestOf (members : MemberTables) (name : String) : Option BestObs :=
  members.best.lookup name

/-- The outcome that is reported for a member. -/
def outcomeOf (members : MemberTables) (name : String) : TestOutcome :=
  ((members.bestOf name).getD .missing).intoOutcome

/-- Whether a member has no result or a failing one. -/
def failing (members : MemberTables) (name : String) : Bool :=
  ((members.bestOf name).map fun best => best.status.isFailure).getD true

/-- Take a member's attempts out of the tables. -/
def remove (members : MemberTables) (name : String) : MemberTables :=
  { members with
    attempts := members.attempts.erase name
    attemptHistory := members.attemptHistory.erase name }

/-- The tables handed to the isolation run of a member. -/
def only (members : MemberTables) (name : String) : MemberTables where
  best := Table.single name (members.best.lookup name)
  attempts := Table.single name (members.attempts.lookup name)
  attemptHistory := Table.single name (members.attemptHistory.lookup name)

end MemberTables

/-! ## Recording a group outcome -/

/-- What one attempt showed of one member. -/
structure MemberResult where
  status : TestVerdict
  details : String
  frameworkCaseDuration : Option Duration
  fromHarness : Bool
  integrity : ResultIntegrity
  duration : AttemptDuration
  maxMemory : Option UInt64
  execution : AttemptExecution
  deriving DecidableEq

namespace MemberResult

/-- The result as a candidate for the best one. -/
def toBest (result : MemberResult) : BestObs where
  status := result.status
  integrity := result.integrity
  details := result.details
  duration := result.duration
  maxMemory := result.maxMemory

/-- The result as an attempt in the history. -/
def toAttempt (result : MemberResult) : AttemptObservation where
  status := result.status
  duration := result.duration
  frameworkCaseDuration := result.frameworkCaseDuration
  details := result.details
  execution := result.execution

/-- A fresh, harness-attributed attempt is an independent observation. -/
def toObservation (result : MemberResult) : Option DbObservation :=
  match result.fromHarness, result.execution.freshEnvironment, result.duration with
  | true, some env, .measured duration =>
      some
        { duration
          failed := result.status.isFailure
          failureClass := failureClass result.status
          env }
  | _, _, _ => none

end MemberResult

/-- What a completed action showed of one member. -/
def ObservedGroup.memberResult (group : ObservedGroup) (isWholeTarget singleton : Bool)
    (name : String) : MemberResult :=
  let result (status : TestVerdict) (details : String) (frameworkCaseDuration : Option Duration)
      (fromHarness : Bool) (integrity : ResultIntegrity) : MemberResult :=
    { status, details, frameworkCaseDuration, fromHarness, integrity
      duration := .measured group.executionTime
      maxMemory := group.maxMemory
      execution := group.execution }
  match group.actionOom with
  | some details =>
      if singleton then result .fail details none false .complete
      else result .fatal details none false .missingTerminalResult
  | none =>
      match group.observations.lookup name with
      | some obs => result obs.status obs.details obs.frameworkCaseDuration true .complete
      | none =>
          let (status, details) :=
            absentNameVerdict group.raw isWholeTarget singleton group.stdout group.stderr
          result status details none false
            (if isWholeTarget then .complete else .missingTerminalResult)

/-- What a failed group means for each of its members. -/
def FailedGroup.memberResult (failure : FailedGroup) : MemberResult where
  status := failure.status
  details := failure.details
  frameworkCaseDuration := none
  fromHarness := false
  integrity := failure.disposition.integrity
  duration := failure.duration
  maxMemory := none
  execution := failure.execution

section Recording

variable (isWholeTarget : Bool) (expectedMembers pending : List String)

/-- The names that a completed action is folded under: the names found in the output of a
whole-target action, else the requested ones. -/
def ObservedGroup.testNames (group : ObservedGroup) : List String :=
  if isWholeTarget && !group.observations.keys.isEmpty &&
      (pending == [doctestResultName] || pending == [binaryResultName]) then
    group.observations.keys
  else pending

/-- The member results of one group outcome, in the order in which they are recorded. -/
def memberResults : GroupOutcome → List (String × MemberResult)
  | .observed group =>
      let testNames := group.testNames isWholeTarget pending
      let singleton := !(1 < expectedMembers.length) || testNames.length == 1
      testNames.map fun name => (name, group.memberResult isWholeTarget singleton name)
  | .groupFailed failure => pending.map fun name => (name, failure.memberResult)

/-- Record one member result. -/
def recordResult (members : MemberTables) (entry : String × MemberResult) : MemberTables where
  best := mergeBest members.best entry.1 entry.2.toBest
  attempts :=
    match entry.2.toObservation with
    | some observation => members.attempts.push entry.1 observation
    | none => members.attempts
  attemptHistory := members.attemptHistory.push entry.1 entry.2.toAttempt

/-- Record a group outcome. -/
def recordOutcome (members : MemberTables) (outcome : GroupOutcome) : MemberTables :=
  (memberResults isWholeTarget expectedMembers pending outcome).foldl recordResult members

end Recording

/-- The disposition of a failed group. -/
def GroupOutcome.disposition : GroupOutcome → Option GroupFailureDisposition
  | .observed _ => none
  | .groupFailed failure => some failure.disposition

/-! ## The retry loop -/

/-- The state of the retry loop. `calls` counts the task's `Execute2` calls and `runs` logs its
group executions. -/
structure ActionState where
  members : MemberTables
  pending : List String
  failureAttempt : Nat
  actionTimeoutAttempts : Nat
  executionAttempt : UInt32
  calls : Nat
  runs : List GroupRun

/-- How the retry loop ends. -/
inductive Ending where
  | panicked (message : String)
  | report
  | isolate (stillFailing : List String)

/-- The end of the retry loop. -/
structure ActionExit where
  state : ActionState
  ending : Ending

/-- What an action reports, with the log of its group executions. -/
structure ActionRun where
  finished : MayPanic (List FinishedTest)
  runs : List GroupRun

section Loop

variable [External] (ctx : TargetCtx) (plan : TargetPlan)

/-- The attempts granted by the configuration file to tests with recorded failures. -/
def tomlAttempts : Nat :=
  (ctx.config.quokkaConfig.flakyRetry.map FlakyRetryConfig.attempts).getD 0

/-- Whether the test has recorded failures. -/
def isFlake (name : String) : MayPanic Bool := do
  let flake ← ctx.estimates.flakeOf ctx.profile none
    (testIdentity plan.spec.display ctx.config name)
  pure ((flake.map fun f => decide (0 < f.failures)).getD false)

/-- The attempts that a test is allowed. -/
def allowedAttempts (name : String) : MayPanic Nat := do
  let isFlake ← isFlake ctx plan name
  pure (max plan.retry.maxAttempts (if isFlake then tomlAttempts ctx else 0))

/-- A bound on the attempts of every test. -/
def attemptBound : Nat := max plan.retry.maxAttempts (tomlAttempts ctx)

theorem allowed_attempts_le {name : String} {allowed : Nat}
    (h : allowedAttempts ctx plan name = .ok allowed) : allowed ≤ attemptBound ctx plan := by
  unfold allowedAttempts at h
  cases hflake : isFlake ctx plan name with
  | error message => rw [hflake] at h; cases h
  | ok flake =>
      rw [hflake] at h
      cases h
      cases flake <;> simp [attemptBound]

/-- The failing members with failure budget left. -/
def retryPending (failureAttempt : Nat) : List String → MayPanic (List String)
  | [] => .ok []
  | name :: rest => do
      let allowed ← allowedAttempts ctx plan name
      let retried ← retryPending failureAttempt rest
      pure (if failureAttempt + 1 < allowed then name :: retried else retried)

/-- A retried member is allowed one more attempt. -/
theorem allowed_of_mem_retried {failureAttempt : Nat} {names retried : List String}
    (h : retryPending ctx plan failureAttempt names = .ok retried) {name : String}
    (hname : name ∈ retried) :
    name ∈ names ∧
      ∃ allowed, allowedAttempts ctx plan name = .ok allowed ∧ failureAttempt + 1 < allowed := by
  induction names generalizing retried with
  | nil => cases h; cases hname
  | cons first rest ih =>
      unfold retryPending at h
      cases hallowed : allowedAttempts ctx plan first with
      | error message => rw [hallowed] at h; cases h
      | ok allowed =>
          cases hrest : retryPending ctx plan failureAttempt rest with
          | error message => rw [hallowed, hrest] at h; cases h
          | ok others =>
              rw [hallowed, hrest] at h
              cases h
              have hothers : name ∈ others → name ∈ first :: rest ∧ ∃ allowed,
                  allowedAttempts ctx plan name = .ok allowed ∧ failureAttempt + 1 < allowed :=
                fun hmem => ⟨List.mem_cons_of_mem _ (ih hrest hmem).1, (ih hrest hmem).2⟩
              by_cases hlt : failureAttempt + 1 < allowed
              · rw [if_pos hlt] at hname
                cases hname with
                | head => exact ⟨List.mem_cons_self, allowed, hallowed, hlt⟩
                | tail _ hmem => exact hothers hmem
              · rw [if_neg hlt] at hname
                exact hothers hname

/-- A retry needs a member that is allowed one more attempt. -/
theorem retry_pending_bound {failureAttempt : Nat} {names retried : List String}
    (h : retryPending ctx plan failureAttempt names = .ok retried) (hne : retried ≠ []) :
    failureAttempt + 1 < attemptBound ctx plan := by
  obtain ⟨name, hname⟩ := List.exists_mem_of_ne_nil retried hne
  obtain ⟨-, allowed, hallowed, hlt⟩ := allowed_of_mem_retried ctx plan h hname
  have hle := allowed_attempts_le ctx plan hallowed
  omega

variable (path : List Nat) (selection : TestSelection String) (expectedMembers : List String)
  (repeatIndex : Nat) (firstAttemptIndex : UInt32)

/-- The expected members without a non-failing result. -/
def stillFailing (members : MemberTables) : List String :=
  expectedMembers.filter members.failing

/-- Go round again with the next execution attempt. -/
def nextAttempt (state : ActionState) (pending : List String)
    (failureAttempt actionTimeoutAttempts : Nat) : LoopFlow ActionState ActionExit :=
  match ctx.profile.addU32 state.executionAttempt 1 with
  | .error message => .leave ⟨state, .panicked message⟩
  | .ok executionAttempt =>
      .again { state with pending, failureAttempt, actionTimeoutAttempts, executionAttempt }

/-- What follows a recorded outcome: the end, a rerun of a timed out action, a retry of the
members with budget left, or isolation. -/
def afterOutcome (state : ActionState) (disposition : Option GroupFailureDisposition) :
    LoopFlow ActionState ActionExit :=
  let failing := stillFailing expectedMembers state.members
  if failing.isEmpty then .leave ⟨state, .report⟩
  else if disposition = some .completeActionTimeout then
    if state.actionTimeoutAttempts + 1 < infraMaxAttempts then
      nextAttempt ctx state failing state.failureAttempt (state.actionTimeoutAttempts + 1)
    else .leave ⟨state, .report⟩
  else
    match retryPending ctx plan state.failureAttempt failing with
    | .error message => .leave ⟨state, .panicked message⟩
    | .ok retried =>
        if !retried.isEmpty then
          nextAttempt ctx state retried (state.failureAttempt + 1) state.actionTimeoutAttempts
        else if 1 < expectedMembers.length &&
            ctx.config.batchFailurePolicy = .rerunPerTestToIsolate then
          .leave ⟨state, .isolate failing⟩
        else .leave ⟨state, .report⟩

/-- The selection of the next group execution: the batch's own on the first one. -/
def currentSelection (state : ActionState) : TestSelection String :=
  if state.failureAttempt = 0 then selection else .explicit state.pending

/-- The next group execution under a given attempt index. -/
def nextRun (state : ActionState) (attemptIndex : UInt32) : GroupRun :=
  runGroup ctx plan path (currentSelection selection state) state.pending repeatIndex
    attemptIndex state.calls

/-- The state after a group execution whose outcome is recorded. -/
def recordRun (state : ActionState) (run : GroupRun) (outcome : GroupOutcome) : ActionState :=
  { state with
    members := recordOutcome plan.translator.listingStrategy.isWholeTarget expectedMembers
      state.pending state.members outcome
    calls := state.calls + run.requests.length
    runs := state.runs ++ [run] }

/-- One pass of the retry loop. -/
def actionBody (state : ActionState) : LoopFlow ActionState ActionExit :=
  match ctx.profile.addU32 firstAttemptIndex state.executionAttempt with
  | .error message => .leave ⟨state, .panicked message⟩
  | .ok attemptIndex =>
      let run := nextRun ctx plan path selection repeatIndex state attemptIndex
      match run.outcome with
      | .error message =>
          .leave ⟨{ state with runs := state.runs ++ [run] }, .panicked message⟩
      | .ok outcome =>
          afterOutcome ctx plan expectedMembers (recordRun plan expectedMembers state run outcome)
            outcome.disposition

/-- The passes left: failure retries and action timeout reruns. -/
def attemptsLeft (state : ActionState) : Nat :=
  (attemptBound ctx plan - state.failureAttempt) +
    (infraMaxAttempts - state.actionTimeoutAttempts)

omit [External] in
theorem next_attempt_again {state next : ActionState} {pending : List String}
    {failureAttempt actionTimeoutAttempts : Nat}
    (h : nextAttempt ctx state pending failureAttempt actionTimeoutAttempts = .again next) :
    ∃ executionAttempt, next =
      { state with pending, failureAttempt, actionTimeoutAttempts, executionAttempt } := by
  unfold nextAttempt at h
  split at h
  · cases h
  · cases h; exact ⟨_, rfl⟩

/-- Going round again after an outcome uses up a timeout rerun or a failure retry. -/
theorem after_outcome_again {state next : ActionState}
    {disposition : Option GroupFailureDisposition}
    (h : afterOutcome ctx plan expectedMembers state disposition = .again next) :
    ∃ executionAttempt,
      (disposition = some .completeActionTimeout ∧
        state.actionTimeoutAttempts + 1 < infraMaxAttempts ∧
        next = { state with
          pending := stillFailing expectedMembers state.members
          actionTimeoutAttempts := state.actionTimeoutAttempts + 1
          executionAttempt }) ∨
      (disposition ≠ some .completeActionTimeout ∧
        ∃ retried, retried ≠ [] ∧
        retryPending ctx plan state.failureAttempt (stillFailing expectedMembers state.members) =
          .ok retried ∧
        next = { state with
          pending := retried
          failureAttempt := state.failureAttempt + 1
          executionAttempt }) := by
  unfold afterOutcome at h
  dsimp only at h
  split at h
  · cases h
  split at h
  case isTrue htimeout =>
    split at h
    case isTrue hbudget =>
      obtain ⟨executionAttempt, rfl⟩ := next_attempt_again ctx h
      exact ⟨executionAttempt, .inl ⟨htimeout, hbudget, rfl⟩⟩
    case isFalse => cases h
  case isFalse hother =>
    split at h
    · cases h
    case h_2 retried hretried =>
      split at h
      case isTrue hne =>
        obtain ⟨executionAttempt, rfl⟩ := next_attempt_again ctx h
        exact ⟨executionAttempt, .inr ⟨hother, retried, by simpa using hne, hretried, rfl⟩⟩
      case isFalse => split at h <;> cases h

/-- What one repeated pass does: a group execution whose outcome is recorded, then a rerun. -/
theorem action_body_again {state next : ActionState}
    (h : actionBody ctx plan path selection expectedMembers repeatIndex firstAttemptIndex state =
      .again next) :
    ∃ attemptIndex outcome,
      ctx.profile.addU32 firstAttemptIndex state.executionAttempt = .ok attemptIndex ∧
      (nextRun ctx plan path selection repeatIndex state attemptIndex).outcome = .ok outcome ∧
      afterOutcome ctx plan expectedMembers
        (recordRun plan expectedMembers state
          (nextRun ctx plan path selection repeatIndex state attemptIndex) outcome)
        outcome.disposition = .again next := by
  unfold actionBody at h
  split at h
  · cases h
  case h_2 attemptIndex hindex =>
    dsimp only at h
    split at h
    · cases h
    case h_2 outcome houtcome => exact ⟨attemptIndex, outcome, hindex, houtcome, h⟩

/-- How a pass of the retry loop ends it. -/
inductive ActionLeaves (state : ActionState) : ActionExit → Prop where
  | overflowed {message : String}
      (hindex : ctx.profile.addU32 firstAttemptIndex state.executionAttempt = .error message) :
      ActionLeaves state ⟨state, .panicked message⟩
  | panicked {attemptIndex : UInt32} {message : String}
      (hindex : ctx.profile.addU32 firstAttemptIndex state.executionAttempt = .ok attemptIndex)
      (hrun : (nextRun ctx plan path selection repeatIndex state attemptIndex).outcome =
        .error message) :
      ActionLeaves state ⟨{ state with runs := state.runs ++
        [nextRun ctx plan path selection repeatIndex state attemptIndex] }, .panicked message⟩
  | recorded {attemptIndex : UInt32} {outcome : GroupOutcome} {exit : ActionExit}
      (hindex : ctx.profile.addU32 firstAttemptIndex state.executionAttempt = .ok attemptIndex)
      (hrun : (nextRun ctx plan path selection repeatIndex state attemptIndex).outcome =
        .ok outcome)
      (hafter : afterOutcome ctx plan expectedMembers
        (recordRun plan expectedMembers state
          (nextRun ctx plan path selection repeatIndex state attemptIndex) outcome)
        outcome.disposition = .leave exit) :
      ActionLeaves state exit

theorem action_body_leave {state : ActionState} {exit : ActionExit}
    (h : actionBody ctx plan path selection expectedMembers repeatIndex firstAttemptIndex state =
      .leave exit) :
    ActionLeaves ctx plan path selection expectedMembers repeatIndex firstAttemptIndex state
      exit := by
  unfold actionBody at h
  split at h
  case h_1 message hindex =>
    cases h
    exact .overflowed hindex
  case h_2 attemptIndex hindex =>
    dsimp only at h
    split at h
    case h_1 message hrun =>
      cases h
      exact .panicked hindex hrun
    case h_2 outcome hrun => exact .recorded hindex hrun h

/-- The retry loop. -/
def actionLoop : BoundedLoop ActionState ActionExit where
  body := actionBody ctx plan path selection expectedMembers repeatIndex firstAttemptIndex
  measure := attemptsLeft ctx plan
  decreases {state next} h := by
    obtain ⟨_, outcome, _, _, hafter⟩ := action_body_again _ _ _ _ _ _ _ h
    obtain ⟨_, hnext | hnext⟩ := after_outcome_again _ _ _ hafter
    · obtain ⟨_, hbudget, rfl⟩ := hnext
      simp only [attemptsLeft, recordRun] at *
      omega
    · obtain ⟨_, retried, hne, hretried, rfl⟩ := hnext
      have hbound := retry_pending_bound ctx plan hretried hne
      simp only [attemptsLeft, recordRun] at *
      omega

/-! ## Reporting and isolation -/

/-- Report members in order. Each takes its attempts out of the tables, so a name that occurs
again finds none. -/
def reportMembers (logIndex : Nat) (members : MemberTables) :
    List String → MayPanic (List FinishedTest)
  | [] => .ok []
  | name :: rest => do
      let finished ← makeFinished ctx plan path logIndex name repeatIndex (members.outcomeOf name)
        ((members.attempts.lookup name).getD []) ((members.attemptHistory.lookup name).getD [])
      let others ← reportMembers (logIndex + 1) (members.remove name) rest
      pure (finished :: others)

/-- A rerun of one member as an action of its own: path, name, first attempt index, tables. -/
abbrev Rerun := List Nat → String → UInt32 → MemberTables → ActionRun

/-- Rerun the failing members one by one. The runs of all of them are logged, also when one of
them panics. -/
def isolateMembers (rerun : Rerun) (attemptIndex : UInt32) (child : Nat)
    (members : MemberTables) : List String → ActionRun
  | [] => ⟨.ok [], []⟩
  | name :: rest =>
      let single := rerun (path ++ [child]) name attemptIndex (members.only name)
      let others := isolateMembers rerun attemptIndex (child + 1) (members.remove name) rest
      { finished := do
          let first ← single.finished
          let others ← others.finished
          pure (first ++ others)
        runs := single.runs ++ others.runs }

/-- The tables after the attempts of some members were taken out. -/
def removeAll (members : MemberTables) (names : List String) : MemberTables :=
  names.foldl MemberTables.remove members

/-- Report the non-failing members and rerun the failing ones. -/
def isolateFailures (rerun : Rerun) (members : MemberTables) (failing : List String)
    (attemptIndex : UInt32) : ActionRun :=
  let kept := expectedMembers.filter fun name => !failing.contains name
  match reportMembers ctx plan path repeatIndex 0 members kept with
  | .error message => ⟨.error message, []⟩
  | .ok finished =>
      let isolated :=
        isolateMembers path rerun attemptIndex 0 (removeAll members kept) failing
      { isolated with finished := isolated.finished.map fun others => finished ++ others }

/-- The first attempt index of the isolation runs. -/
def isolationAttemptIndex (executionAttempt : UInt32) : MayPanic UInt32 := do
  let reached ← ctx.profile.addU32 firstAttemptIndex executionAttempt
  ctx.profile.addU32 reached 1

/-- Finish an action from the end of its retry loop. -/
def finishAction (rerun : Rerun) (exit : ActionExit) : ActionRun :=
  match exit.ending with
  | .panicked message => ⟨.error message, exit.state.runs⟩
  | .report =>
      ⟨reportMembers ctx plan path repeatIndex 0 exit.state.members expectedMembers,
        exit.state.runs⟩
  | .isolate failing =>
      match isolationAttemptIndex ctx firstAttemptIndex exit.state.executionAttempt with
      | .error message => ⟨.error message, exit.state.runs⟩
      | .ok attemptIndex =>
          let isolated := isolateFailures ctx plan path expectedMembers repeatIndex rerun
            exit.state.members failing attemptIndex
          { isolated with runs := exit.state.runs ++ isolated.runs }

/-- The start of the retry loop. -/
def ActionState.start (prior : MemberTables) : ActionState where
  members := prior
  pending := expectedMembers
  failureAttempt := 0
  actionTimeoutAttempts := 0
  executionAttempt := 0
  calls := 0
  runs := []

/-- Execute an action whose isolation runs are given. -/
def executeTestActionWith (rerun : Rerun) (prior : MemberTables) : ActionRun :=
  finishAction ctx plan path expectedMembers repeatIndex firstAttemptIndex rerun
    ((actionLoop ctx plan path selection expectedMembers repeatIndex firstAttemptIndex).run
      (ActionState.start expectedMembers prior))

/-- Execute one member alone. It cannot isolate again, so its rerun is never asked for. -/
def executeSingleton : Rerun := fun path name firstAttemptIndex prior =>
  executeTestActionWith ctx plan path (.explicit [name]) [name] repeatIndex firstAttemptIndex
    (fun _ _ _ _ => ⟨.error "", []⟩) prior

/-- Execute one (possibly batched) test action. -/
def executeTestAction (prior : MemberTables) : ActionRun :=
  executeTestActionWith ctx plan path selection expectedMembers repeatIndex firstAttemptIndex
    (executeSingleton ctx plan repeatIndex) prior

/-! ## The recursion of the source -/

/-- An action of at most one member never isolates. -/
theorem after_outcome_singleton {state : ActionState} {exit : ActionExit}
    {disposition : Option GroupFailureDisposition} (hsingle : expectedMembers.length ≤ 1)
    (h : afterOutcome ctx plan expectedMembers state disposition = .leave exit) :
    ∀ failing, exit.ending ≠ .isolate failing := by
  have hnot : ¬1 < expectedMembers.length := by omega
  intro failing hending
  unfold afterOutcome nextAttempt at h
  simp only [hnot, decide_false, Bool.false_and, Bool.false_eq_true, if_false] at h
  repeat' split at h
  all_goals cases h
  all_goals cases hending

/-- The result of an action of at most one member does not depend on the isolation runs. -/
theorem execute_singleton_with (hsingle : expectedMembers.length ≤ 1) (rerun other : Rerun)
    (prior : MemberTables) :
    executeTestActionWith ctx plan path selection expectedMembers repeatIndex firstAttemptIndex
        rerun prior =
      executeTestActionWith ctx plan path selection expectedMembers repeatIndex firstAttemptIndex
        other prior := by
  have hending := (actionLoop ctx plan path selection expectedMembers repeatIndex
    firstAttemptIndex).run_invariant (fun _ => True)
    (fun exit => ∀ failing, exit.ending ≠ .isolate failing)
    (fun _ _ _ _ => trivial)
    (fun state exit _ hbody => by
      intro failing
      cases action_body_leave _ _ _ _ _ _ _ hbody with
      | overflowed => exact nofun
      | panicked => exact nofun
      | recorded _ _ hafter =>
          exact after_outcome_singleton ctx plan expectedMembers hsingle hafter failing)
    (ActionState.start expectedMembers prior) trivial
  unfold executeTestActionWith finishAction
  split
  · rfl
  · rfl
  · exact absurd ‹_› (hending _)

/-- The recursion that the source writes: an isolation run is the action of one member. -/
theorem execute_test_action_eq (prior : MemberTables) :
    executeTestAction ctx plan path selection expectedMembers repeatIndex firstAttemptIndex
        prior =
      executeTestActionWith ctx plan path selection expectedMembers repeatIndex firstAttemptIndex
        (fun path name firstAttemptIndex prior =>
          executeTestAction ctx plan path (.explicit [name]) [name] repeatIndex
            firstAttemptIndex prior)
        prior := by
  unfold executeTestAction
  congr 1
  funext path name firstAttemptIndex prior
  exact execute_singleton_with ctx plan path (.explicit [name]) [name] repeatIndex
    firstAttemptIndex (Nat.le_refl 1) _ _ prior

end Loop

end Quokka
