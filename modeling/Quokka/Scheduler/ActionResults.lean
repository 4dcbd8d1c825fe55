import Quokka.Scheduler.Attempts

/-!
# What an action reports

The finished tests of an action in terms of its log of group executions. An action that does
not panic reports every expected member: those outside `failing` from the tables of its own
retry loop, and each failing one from an isolation run that starts from these tables.

`execute_test_action_ok` is this inversion, `names_of_reported` says that nothing is lost or
reported twice, and `execute_test_action_executed` says what every group execution of the action
asked for, also when it panics.
-/

namespace Quokka

/-- Which test a finished test reports, and with what outcome. -/
structure Summary where
  name : String
  repeatIndex : Nat
  status : TestVerdict
  integrity : ResultIntegrity
  deriving DecidableEq

/-- The summary of a finished test. -/
def FinishedTest.summary (finished : FinishedTest) : Summary where
  name := finished.testId.name
  repeatIndex := finished.runId.repeatIndex
  status := finished.status
  integrity := finished.integrity

/-- Which test a finished test reports, and which repetition of it. -/
def FinishedTest.key (finished : FinishedTest) : String × Nat :=
  (finished.testId.name, finished.runId.repeatIndex)

/-- The summary of a member that is reported from the tables. -/
def MemberTables.summary (members : MemberTables) (repeatIndex : Nat) (name : String) :
    Summary where
  name := name
  repeatIndex := repeatIndex
  status := (members.outcomeOf name).status
  integrity := (members.outcomeOf name).integrity

@[simp] theorem best_of_remove (members : MemberTables) (taken name : String) :
    (members.remove taken).bestOf name = members.bestOf name := rfl

@[simp] theorem best_of_remove_all (members : MemberTables) (taken : List String)
    (name : String) : (removeAll members taken).bestOf name = members.bestOf name := by
  induction taken generalizing members with
  | nil => rfl
  | cons first rest ih => exact ih (members.remove first)

@[simp] theorem best_of_only (members : MemberTables) (name : String) :
    (members.only name).bestOf name = members.bestOf name := by
  simp [MemberTables.only, MemberTables.bestOf]

section Results

variable [External] (ctx : TargetCtx) (plan : TargetPlan)

/-- Reporting members in order reports each from the tables. -/
theorem report_members_ok {path : List Nat} {repeatIndex logIndex : Nat}
    {members : MemberTables} {names : List String} {finished : List FinishedTest}
    (h : reportMembers ctx plan path repeatIndex logIndex members names = .ok finished) :
    finished.map FinishedTest.summary = names.map (members.summary repeatIndex) := by
  induction names generalizing logIndex members finished with
  | nil => cases h; rfl
  | cons name rest ih =>
      unfold reportMembers at h
      cases hfirst : makeFinished ctx plan path logIndex name repeatIndex
          (members.outcomeOf name) ((members.attempts.lookup name).getD [])
          ((members.attemptHistory.lookup name).getD []) with
      | error message => rw [hfirst] at h; cases h
      | ok first =>
          cases hothers : reportMembers ctx plan path repeatIndex (logIndex + 1)
              (members.remove name) rest with
          | error message => rw [hfirst, hothers] at h; cases h
          | ok others =>
              rw [hfirst, hothers] at h
              cases h
              obtain ⟨details, rfl⟩ := make_finished_eq_ok ctx plan hfirst
              rw [List.map_cons, List.map_cons, ih hothers]
              congr 1

/-- The isolation runs of some members, one after another. Each starts from the member's best
result in `members` and reports the member from its own tables. -/
inductive Isolated (repeatIndex : Nat) (members : MemberTables) :
    List String → List FinishedTest → List GroupRun → Prop where
  | nil : Isolated repeatIndex members [] [] []
  | cons {name : String} {prior final : MemberTables} {finished : List FinishedTest}
      {runs : List GroupRun} {rest : List String} {others : List FinishedTest}
      {otherRuns : List GroupRun}
      (hprior : prior.bestOf name = members.bestOf name)
      (hrecorded : Recorded ctx plan (.explicit [name]) [name] repeatIndex prior final runs)
      (hruns : runs ≠ [])
      (hfinished : finished.map FinishedTest.summary = [final.summary repeatIndex name])
      (hrest : Isolated repeatIndex members rest others otherRuns) :
      Isolated repeatIndex members (name :: rest) (finished ++ others) (runs ++ otherRuns)

/-- An action of one member reports it from the tables of its retry loop. -/
theorem execute_singleton_report {path : List Nat} {repeatIndex : Nat} {name : String}
    {firstAttemptIndex : UInt32} {prior : MemberTables} {finished : List FinishedTest}
    (h : (executeSingleton ctx plan repeatIndex path name firstAttemptIndex prior).finished =
      .ok finished) :
    ∃ final,
      Recorded ctx plan (.explicit [name]) [name] repeatIndex prior final
        (executeSingleton ctx plan repeatIndex path name firstAttemptIndex prior).runs ∧
      (executeSingleton ctx plan repeatIndex path name firstAttemptIndex prior).runs ≠ [] ∧
      reportMembers ctx plan path repeatIndex 0 final [name] = .ok finished := by
  have hexit := action_loop_exit ctx plan path (.explicit [name]) [name] repeatIndex
    firstAttemptIndex prior
  unfold executeSingleton executeTestActionWith at h ⊢
  generalize (actionLoop ctx plan path (.explicit [name]) [name] repeatIndex
    firstAttemptIndex).run (ActionState.start [name] prior) = exit at h hexit ⊢
  obtain ⟨state, ending⟩ := exit
  rcases hexit.recorded with ⟨message, hpanicked⟩ | ⟨hrecorded, hruns, hends⟩
  · cases hpanicked
    cases h
  · dsimp only at hrecorded hruns hends
    cases hends with
    | panicked message => cases h
    | report => exact ⟨state.members, hrecorded, hruns, h⟩
    | isolate hbatched => exact absurd hbatched (Nat.lt_irrefl 1)

/-- An action of one member reports it from its own tables. -/
theorem execute_singleton_ok {path : List Nat} {repeatIndex : Nat} {name : String}
    {firstAttemptIndex : UInt32} {prior : MemberTables} {finished : List FinishedTest}
    (h : (executeSingleton ctx plan repeatIndex path name firstAttemptIndex prior).finished =
      .ok finished) :
    ∃ final,
      Recorded ctx plan (.explicit [name]) [name] repeatIndex prior final
        (executeSingleton ctx plan repeatIndex path name firstAttemptIndex prior).runs ∧
      (executeSingleton ctx plan repeatIndex path name firstAttemptIndex prior).runs ≠ [] ∧
      finished.map FinishedTest.summary = [final.summary repeatIndex name] := by
  obtain ⟨final, hrecorded, hruns, hreport⟩ := execute_singleton_report ctx plan h
  exact ⟨final, hrecorded, hruns, report_members_ok ctx plan hreport⟩

/-- Isolation runs that do not panic. -/
theorem isolate_members_ok {path : List Nat} {repeatIndex child : Nat} {attemptIndex : UInt32}
    {reference members : MemberTables} {names : List String} {finished : List FinishedTest}
    (hbest : ∀ name, members.bestOf name = reference.bestOf name)
    (h : (isolateMembers path (executeSingleton ctx plan repeatIndex) attemptIndex child members
      names).finished = .ok finished) :
    Isolated ctx plan repeatIndex reference names finished
      (isolateMembers path (executeSingleton ctx plan repeatIndex) attemptIndex child members
        names).runs := by
  induction names generalizing child members finished with
  | nil => cases h; exact .nil
  | cons name rest ih =>
      unfold isolateMembers at h ⊢
      dsimp only at h ⊢
      cases hsingle : (executeSingleton ctx plan repeatIndex (path ++ [child]) name attemptIndex
          (members.only name)).finished with
      | error message => rw [hsingle] at h; cases h
      | ok single =>
          cases hothers : (isolateMembers path (executeSingleton ctx plan repeatIndex)
              attemptIndex (child + 1) (members.remove name) rest).finished with
          | error message => rw [hsingle, hothers] at h; cases h
          | ok others =>
              rw [hsingle, hothers] at h
              cases h
              obtain ⟨final, hrecorded, hruns, hfinished⟩ := execute_singleton_ok ctx plan hsingle
              have hprior : (members.only name).bestOf name = reference.bestOf name := by
                rw [best_of_only, hbest]
              have hrest : ∀ other, (members.remove name).bestOf other =
                  reference.bestOf other := by
                intro other
                rw [best_of_remove, hbest]
              exact .cons hprior hrecorded hruns hfinished (ih hrest hothers)

variable (selection : TestSelection String) (expectedMembers : List String) (repeatIndex : Nat)

/-- What an action that does not panic reports, and its log: `main` are the group executions of
its own loop and `failing` the members that are isolated. -/
inductive Reported (prior : MemberTables) :
    MemberTables → List String → List FinishedTest → List GroupRun → Prop where
  | intro {members : MemberTables} {main isolatedRuns : List GroupRun} {failing : List String}
      {kept isolated : List FinishedTest}
      (hrecorded : Recorded ctx plan selection expectedMembers repeatIndex prior members main)
      (hmain : main ≠ [])
      (hfailing : failing = [] ∨ failing = stillFailing expectedMembers members)
      (hkept : kept.map FinishedTest.summary =
        (expectedMembers.filter fun name => !failing.contains name).map
          (members.summary repeatIndex))
      (hisolated : Isolated ctx plan repeatIndex members failing isolated isolatedRuns) :
      Reported prior members failing (kept ++ isolated) (main ++ isolatedRuns)

/-- What an action that does not panic reports: all members from the tables of its retry loop, or
the failing ones by their isolation runs. -/
theorem execute_test_action_report {path : List Nat} {firstAttemptIndex : UInt32}
    {prior : MemberTables} {finished : List FinishedTest}
    (h : (executeTestAction ctx plan path selection expectedMembers repeatIndex
      firstAttemptIndex prior).finished = .ok finished) :
    ∃ members main,
      Recorded ctx plan selection expectedMembers repeatIndex prior members main ∧ main ≠ [] ∧
      ((reportMembers ctx plan path repeatIndex 0 members expectedMembers = .ok finished ∧
          (executeTestAction ctx plan path selection expectedMembers repeatIndex
            firstAttemptIndex prior).runs = main) ∨
        ∃ attemptIndex kept isolated,
          let failing := stillFailing expectedMembers members
          let passing := expectedMembers.filter fun name => !failing.contains name
          let action := isolateMembers path (executeSingleton ctx plan repeatIndex) attemptIndex 0
            (removeAll members passing) failing
          reportMembers ctx plan path repeatIndex 0 members passing = .ok kept ∧
          action.finished = .ok isolated ∧ finished = kept ++ isolated ∧
          (executeTestAction ctx plan path selection expectedMembers repeatIndex
            firstAttemptIndex prior).runs = main ++ action.runs) := by
  have hexit := action_loop_exit ctx plan path selection expectedMembers repeatIndex
    firstAttemptIndex prior
  unfold executeTestAction executeTestActionWith at h ⊢
  generalize (actionLoop ctx plan path selection expectedMembers repeatIndex
    firstAttemptIndex).run (ActionState.start expectedMembers prior) = exit at h hexit ⊢
  obtain ⟨state, ending⟩ := exit
  -- The retry loop ends in a panic, in a report of all members, or in isolation runs.
  rcases hexit.recorded with ⟨message, hpanicked⟩ | ⟨hrecorded, hruns, hends⟩
  · cases hpanicked
    cases h
  · dsimp only at hrecorded hruns hends
    cases hends with
    | panicked message => cases h
    | report => exact ⟨state.members, state.runs, hrecorded, hruns, .inl ⟨h, rfl⟩⟩
    | isolate hbatched hpolicy =>
        refine ⟨state.members, state.runs, hrecorded, hruns, .inr ?_⟩
        unfold finishAction at h ⊢
        dsimp only at h ⊢
        cases hindex : isolationAttemptIndex ctx firstAttemptIndex state.executionAttempt with
        | error message => rw [hindex] at h; cases h
        | ok attemptIndex =>
            rw [hindex] at h
            unfold isolateFailures at h ⊢
            dsimp only at h ⊢
            cases hkept : reportMembers ctx plan path repeatIndex 0 state.members
                (expectedMembers.filter fun name =>
                  !(stillFailing expectedMembers state.members).contains name) with
            | error message => rw [hkept] at h; cases h
            | ok kept =>
                rw [hkept] at h
                dsimp only at h ⊢
                generalize hothers : isolateMembers path (executeSingleton ctx plan repeatIndex)
                  attemptIndex 0 _ (stillFailing expectedMembers state.members) = others at h ⊢
                cases hisolated : others.finished with
                | error message => rw [hisolated] at h; cases h
                | ok isolated =>
                    rw [hisolated] at h
                    cases h
                    refine ⟨attemptIndex, kept, isolated, rfl, ?_, rfl, ?_⟩
                    · rw [hothers]; exact hisolated
                    · rw [hothers]

/-- An action that does not panic. -/
theorem execute_test_action_ok {path : List Nat} {firstAttemptIndex : UInt32}
    {prior : MemberTables} {finished : List FinishedTest}
    (h : (executeTestAction ctx plan path selection expectedMembers repeatIndex
      firstAttemptIndex prior).finished = .ok finished) :
    ∃ members failing, Reported ctx plan selection expectedMembers repeatIndex prior members
      failing finished
      (executeTestAction ctx plan path selection expectedMembers repeatIndex firstAttemptIndex
        prior).runs := by
  obtain ⟨members, main, hrecorded, hmain, ⟨hreport, hruns⟩ |
    ⟨attemptIndex, kept, isolated, hkept, hisolated, rfl, hruns⟩⟩ :=
      execute_test_action_report ctx plan selection expectedMembers repeatIndex h
  · rw [hruns]
    refine ⟨members, [], ?_⟩
    simpa using Reported.intro hrecorded hmain (.inl rfl)
      (by simpa using report_members_ok ctx plan hreport)
      (.nil : Isolated ctx plan repeatIndex members [] [] [])
  · rw [hruns]
    exact ⟨members, _, .intro hrecorded hmain (.inr rfl) (report_members_ok ctx plan hkept)
      (isolate_members_ok ctx plan (best_of_remove_all _ _) hisolated)⟩

variable {ctx plan selection expectedMembers repeatIndex}

omit [External] in
/-- The key is part of the summary. -/
theorem keys_of_summaries (finished : List FinishedTest) :
    finished.map FinishedTest.key =
      (finished.map FinishedTest.summary).map fun s => (s.name, s.repeatIndex) := by
  rw [List.map_map]
  rfl

/-- The isolation runs report each of their members once. -/
theorem Isolated.keys {members : MemberTables} {names : List String}
    {finished : List FinishedTest} {runs : List GroupRun}
    (h : Isolated ctx plan repeatIndex members names finished runs) :
    finished.map FinishedTest.key = names.map fun name => (name, repeatIndex) := by
  induction h with
  | nil => rfl
  | cons hprior hrecorded hruns hfinished hrest ih =>
      rw [List.map_append, ih, keys_of_summaries, hfinished]
      rfl

/-- An action reports every expected member as often as it is expected, and nothing else. -/
theorem Reported.keys_perm {prior members : MemberTables} {failing : List String}
    {finished : List FinishedTest} {runs : List GroupRun}
    (h : Reported ctx plan selection expectedMembers repeatIndex prior members failing finished
      runs) :
    (finished.map FinishedTest.key).Perm
      (expectedMembers.map fun name => (name, repeatIndex)) := by
  obtain ⟨hrecorded, hmain, hfailing, hkept, hisolated⟩ := h
  rw [List.map_append, hisolated.keys, keys_of_summaries, hkept, List.map_map]
  have hperm : ((expectedMembers.filter fun name => !failing.contains name) ++ failing).Perm
      expectedMembers := by
    rcases hfailing with rfl | rfl
    · simp
    · have hfilter : (expectedMembers.filter fun name =>
          !(stillFailing expectedMembers members).contains name) =
          expectedMembers.filter fun name => !members.failing name := by
        refine List.filter_congr fun name hname => ?_
        simp [stillFailing, hname]
      rw [hfilter]
      exact (List.perm_append_comm.trans
        (List.filter_append_perm members.failing expectedMembers))
  have hmap := hperm.map fun name => (name, repeatIndex)
  rw [List.map_append] at hmap
  exact hmap

end Results

/-! ## What the group executions ask for -/

section Executions

variable [External] (ctx : TargetCtx) (plan : TargetPlan) (repeatIndex : Nat)

/-- Every request of a group execution carries the arguments of its selection and the memory
limit of its names. -/
theorem run_group_requests {path : List Nat} {selection : TestSelection String}
    {names : List String} {attemptIndex : UInt32} {firstCall : Nat} {request : TestingRequest}
    (h : request ∈ (runGroup ctx plan path selection names repeatIndex attemptIndex
      firstCall).requests) :
    ∃ attemptIndex cgroupMemoryMax,
      cgroupMemoryMaxForAction ctx.config.cgroupMemoryMax ctx.config.cgroupMemoryMaxOverrides
        plan.spec.display names = .ok cgroupMemoryMax ∧
      request = testingRequest ctx plan selection names repeatIndex attemptIndex
        cgroupMemoryMax := by
  let Sent (request : TestingRequest) : Prop := ∃ attemptIndex cgroupMemoryMax,
    cgroupMemoryMaxForAction ctx.config.cgroupMemoryMax ctx.config.cgroupMemoryMaxOverrides
      plan.spec.display names = .ok cgroupMemoryMax ∧
    request = testingRequest ctx plan selection names repeatIndex attemptIndex cgroupMemoryMax
  have hsent : ∀ {requests : List TestingRequest} {last : TestingRequest},
      (∀ request ∈ requests, Sent request) → Sent last →
        ∀ request ∈ requests ++ [last], Sent request := by
    intro requests last hrequests hlast request hrequest
    rcases List.mem_append.mp hrequest with hold | hnew
    · exact hrequests request hold
    · rw [List.mem_singleton.mp hnew]; exact hlast
  -- A retry sends the request once more, under the next attempt index.
  refine (infraLoop ctx plan path selection names repeatIndex attemptIndex
    firstCall).run_invariant (fun state => ∀ request ∈ state.requests, Sent request)
    (fun exit => ∀ request ∈ exit.requests, Sent request) ?_ ?_ ⟨0, []⟩ (by simp) request h
  · intro state next hinv hbody
    obtain ⟨-, index, memoryMax, -, hmax, rfl⟩ := infra_body_again _ _ _ _ _ _ _ _ hbody
    exact hsent hinv ⟨index, memoryMax, hmax, rfl⟩
  · intro state exit hinv hbody
    cases infra_body_leave _ _ _ _ _ _ _ _ hbody with
    | overflowed => exact hinv
    | rejected => exact hinv
    | @answered index memoryMax _ _ hmax => exact hsent hinv ⟨index, memoryMax, hmax, rfl⟩

/-- The commands of the requests of a group execution. -/
theorem Executed.commands {selection : TestSelection String} {expectedMembers : List String}
    {run : GroupRun} (h : Executed ctx plan selection expectedMembers repeatIndex run)
    {request : TestingRequest} (hrequest : request ∈ run.requests) :
    request.commands = [⟨0, executionArgsOf ctx plan run.selection⟩] := by
  obtain ⟨path, attemptIndex, firstCall, hrun⟩ := h.eq_run_group
  rw [hrun] at hrequest
  obtain ⟨_, _, -, rfl⟩ := run_group_requests ctx plan repeatIndex hrequest
  rfl

/-- The group executions of an action of one member are those of its retry loop. -/
theorem execute_singleton_runs (path : List Nat) (name : String) (firstAttemptIndex : UInt32)
    (prior : MemberTables) :
    (executeSingleton ctx plan repeatIndex path name firstAttemptIndex prior).runs =
      ((actionLoop ctx plan path (.explicit [name]) [name] repeatIndex firstAttemptIndex).run
        (ActionState.start [name] prior)).state.runs := by
  have hexit := action_loop_exit ctx plan path (.explicit [name]) [name] repeatIndex
    firstAttemptIndex prior
  unfold executeSingleton executeTestActionWith
  generalize (actionLoop ctx plan path (.explicit [name]) [name] repeatIndex
    firstAttemptIndex).run (ActionState.start [name] prior) = exit at hexit ⊢
  obtain ⟨state, ending⟩ := exit
  cases ending with
  | panicked message => rfl
  | report => rfl
  | isolate failing =>
      rcases hexit.recorded with ⟨message, hpanicked⟩ | ⟨hrecorded, hruns, hends⟩
      · cases hpanicked
      · dsimp only at hends
        cases hends with
        | isolate hbatched => exact absurd hbatched (Nat.lt_irrefl 1)

/-- The group executions of the isolation runs. -/
theorem isolate_members_runs {path : List Nat} {attemptIndex : UInt32} {child : Nat}
    {members : MemberTables} {names : List String} {run : GroupRun}
    (h : run ∈ (isolateMembers path (executeSingleton ctx plan repeatIndex) attemptIndex child
      members names).runs) :
    ∃ name ∈ names, ∃ path prior,
      run ∈ (executeSingleton ctx plan repeatIndex path name attemptIndex prior).runs := by
  induction names generalizing child members with
  | nil => cases h
  | cons name rest ih =>
      rcases List.mem_append.mp h with hsingle | hothers
      · exact ⟨name, List.mem_cons_self, _, _, hsingle⟩
      · obtain ⟨other, hother, hrun⟩ := ih hothers
        exact ⟨other, List.mem_cons_of_mem _ hother, hrun⟩

/-- The log of an action is that of its retry loop, followed by the log of the isolation runs if
there are any. -/
theorem execute_test_action_log (path : List Nat) (selection : TestSelection String)
    (expectedMembers : List String) (firstAttemptIndex : UInt32) (prior : MemberTables) :
    let exit := (actionLoop ctx plan path selection expectedMembers repeatIndex
      firstAttemptIndex).run (ActionState.start expectedMembers prior)
    let runs := (executeTestAction ctx plan path selection expectedMembers repeatIndex
      firstAttemptIndex prior).runs
    runs = exit.state.runs ∨
      ∃ failing attemptIndex members,
        exit.ending = .isolate failing ∧
        isolationAttemptIndex ctx firstAttemptIndex exit.state.executionAttempt =
          .ok attemptIndex ∧
        (∀ name, members.bestOf name = exit.state.members.bestOf name) ∧
        runs = exit.state.runs ++ (isolateMembers path (executeSingleton ctx plan repeatIndex)
          attemptIndex 0 members failing).runs := by
  unfold executeTestAction executeTestActionWith
  generalize (actionLoop ctx plan path selection expectedMembers repeatIndex
    firstAttemptIndex).run (ActionState.start expectedMembers prior) = exit
  obtain ⟨state, ending⟩ := exit
  cases ending with
  | panicked message => exact .inl rfl
  | report => exact .inl rfl
  | isolate failing =>
      unfold finishAction
      dsimp only
      split
      · exact .inl rfl
      case h_2 attemptIndex hindex =>
        unfold isolateFailures
        dsimp only
        split
        · exact .inl (List.append_nil _)
        · exact .inr ⟨failing, attemptIndex, _, rfl, hindex, best_of_remove_all _ _, rfl⟩

/-- The log of an action is the log of its retry loop, followed by those of the isolation
runs. -/
theorem execute_test_action_runs (path : List Nat) (selection : TestSelection String)
    (expectedMembers : List String) (firstAttemptIndex : UInt32) (prior : MemberTables) :
    let exit := (actionLoop ctx plan path selection expectedMembers repeatIndex
      firstAttemptIndex).run (ActionState.start expectedMembers prior)
    ∃ isolated,
      (executeTestAction ctx plan path selection expectedMembers repeatIndex firstAttemptIndex
        prior).runs = exit.state.runs ++ isolated ∧
      ∀ run ∈ isolated, ∃ failing attemptIndex,
        exit.ending = .isolate failing ∧
        isolationAttemptIndex ctx firstAttemptIndex exit.state.executionAttempt =
          .ok attemptIndex ∧
        ∃ name ∈ failing, ∃ path prior,
          run ∈ (executeSingleton ctx plan repeatIndex path name attemptIndex prior).runs := by
  intro exit
  rcases execute_test_action_log ctx plan repeatIndex path selection expectedMembers
    firstAttemptIndex prior with hsame |
      ⟨failing, attemptIndex, members, hending, hindex, -, hruns⟩
  · exact ⟨[], by rw [hsame, List.append_nil], by simp⟩
  · exact ⟨_, hruns, fun run hrun => ⟨failing, attemptIndex, hending, hindex,
      isolate_members_runs ctx plan repeatIndex hrun⟩⟩

/-- Every group execution of an action, also of one that panics, is an execution of its own
loop or of the isolation run of one of its members. -/
theorem execute_test_action_executed {path : List Nat} {selection : TestSelection String}
    {expectedMembers : List String} {firstAttemptIndex : UInt32} {prior : MemberTables}
    {run : GroupRun}
    (h : run ∈ (executeTestAction ctx plan path selection expectedMembers repeatIndex
      firstAttemptIndex prior).runs) :
    Executed ctx plan selection expectedMembers repeatIndex run ∨
      ∃ name ∈ expectedMembers, Executed ctx plan (.explicit [name]) [name] repeatIndex run := by
  have hexit := action_loop_exit ctx plan path selection expectedMembers repeatIndex
    firstAttemptIndex prior
  obtain ⟨isolated, hruns, hisolated⟩ := execute_test_action_runs ctx plan repeatIndex path
    selection expectedMembers firstAttemptIndex prior
  rw [hruns] at h
  rcases List.mem_append.mp h with hmain | hrun
  · exact .inl (hexit.executed run hmain)
  · obtain ⟨failing, attemptIndex, hending, -, name, hname, path, prior, hmem⟩ :=
      hisolated run hrun
    refine .inr ⟨name, ?_, ?_⟩
    · rcases hexit.recorded with ⟨message, hpanicked⟩ | ⟨-, -, hends⟩
      · rw [hending] at hpanicked
        cases hpanicked
      · rw [hending] at hends
        cases hends with
        | isolate hbatched hpolicy => exact List.mem_of_mem_filter hname
    · rw [execute_singleton_runs] at hmem
      exact (action_loop_exit ctx plan path (.explicit [name]) [name] repeatIndex attemptIndex
        prior).executed run hmem

end Executions

end Quokka
