import Quokka.Library.FallibleMap
import Quokka.Library.KeyedUpdate
import Quokka.Scheduler.Target

/-!
# The order of the environment

The environment of a wire specification is a hash map, which may be iterated in any order.
`TargetSpec::from_proto` sorts it by name, so that the parsed specification does not depend on that
order (`from_proto_env_order`), and neither does anything that the target's run does
(`run_target_env_order`): its requests, reports and results are the same ones. A specification with
a missing value is rejected in every order, though another variable may be named.
-/

namespace Quokka

/-- Sorting entries by their keys gives one list in whichever order they come, if the keys are
different. -/
theorem sort_by_key_eq {α : Type} {first second : List (String × α)} (hperm : first.Perm second)
    (hkeys : (first.map Prod.fst).Nodup) :
    first.insertionSort (fun a b => a.1 ≤ b.1) = second.insertionSort fun a b => a.1 ≤ b.1 := by
  have htotal : Std.Total fun a b : String × α => a.1 ≤ b.1 := ⟨fun a b => String.le_total a.1 b.1⟩
  have htrans : IsTrans (String × α) fun a b => a.1 ≤ b.1 := ⟨fun _ _ _ => String.le_trans⟩
  have hsame := (List.perm_insertionSort (fun a b : String × α => a.1 ≤ b.1) first).trans
    (hperm.trans (List.perm_insertionSort (fun a b : String × α => a.1 ≤ b.1) second).symm)
  refine List.Perm.eq_of_pairwise (fun a b ha hb hab hba => ?_)
    (List.pairwise_insertionSort _ first) (List.pairwise_insertionSort _ second) hsame
  have hmem : a ∈ first ∧ b ∈ first :=
    ⟨(List.mem_insertionSort _).mp ha, hperm.mem_iff.mpr ((List.mem_insertionSort _).mp hb)⟩
  exact List.inj_on_of_nodup_map hkeys hmem.1 hmem.2 (String.le_antisymm hab hba)

/-- Two wire specifications that differ in the order of their environments. -/
structure SameButEnvOrder (first second : ExternalRunnerSpec) : Prop where
  target : second.target = first.target
  testType : second.testType = first.testType
  command : second.command = first.command
  env : first.env.Perm second.env
  labels : second.labels = first.labels
  contacts : second.contacts = first.contacts
  oncall : second.oncall = first.oncall

namespace SameButEnvOrder

variable {first second : ExternalRunnerSpec}

theorem symm (h : SameButEnvOrder first second) : SameButEnvOrder second first :=
  ⟨h.target.symm, h.testType.symm, h.command.symm, h.env.symm, h.labels.symm, h.contacts.symm,
    h.oncall.symm⟩

end SameButEnvOrder

/-- One variable of the environment. -/
def envEntry (entry : String × ExternalRunnerSpecValue) :
    Except SpecError (String × CommandArg) := do
  let arg ← CommandArg.fromProto entry.2 ("environment variable `" ++ entry.1 ++ "`")
  pure (entry.1, arg)

theorem env_entry_key {entry : String × ExternalRunnerSpecValue} {parsed : String × CommandArg}
    (h : envEntry entry = .ok parsed) : parsed.1 = entry.1 := by
  obtain ⟨arg, -, hparsed⟩ := Except.bind_eq_ok.mp h
  cases hparsed
  rfl

/-- The variables of a parsed environment are those of the wire. -/
theorem env_keys {env : List (String × ExternalRunnerSpecValue)}
    {parsed : List (String × CommandArg)} (h : env.mapM envEntry = .ok parsed) :
    parsed.map Prod.fst = env.map Prod.fst := by
  induction env generalizing parsed with
  | nil => cases h; rfl
  | cons entry env ih =>
      obtain ⟨first, rest, hfirst, hrest, rfl⟩ := Except.mapM_cons_eq_ok.mp h
      rw [List.map_cons, List.map_cons, ih hrest, env_entry_key hfirst]

/-- What a specification parses to. -/
theorem from_proto_eq_ok {specProto : ExternalRunnerSpec} {spec : TargetSpec} :
    TargetSpec.fromProto specProto = .ok spec ↔
      ∃ target handle env command, specProto.target = some target ∧ target.handle = some handle ∧
        specProto.env.mapM envEntry = .ok env ∧
        (specProto.command.zipIdx.mapM fun entry =>
          CommandArg.fromProto entry.1 ("command argument " ++ toString entry.2)) = .ok command ∧
        spec =
          { handle
            suite := target.display
            display := target.display
            targetPlatform :=
              if target.configuration.isEmpty then none else some target.configuration
            testType := specProto.testType
            command
            env := env.insertionSort fun a b => a.1 ≤ b.1
            labels := specProto.labels
            contacts := specProto.contacts
            oncall := specProto.oncall } := by
  unfold TargetSpec.fromProto
  cases specProto.target with
  | none =>
      refine iff_of_false (fun h => by cases h) ?_
      rintro ⟨target, _, _, _, htarget, -⟩
      cases htarget
  | some target =>
      cases hhandle : target.handle with
      | none =>
          simp only [hhandle]
          refine iff_of_false (fun h => by cases h) ?_
          rintro ⟨_, handle, _, _, htarget, hsome, -⟩
          cases htarget
          rw [hhandle] at hsome
          cases hsome
      | some handle =>
          simp only [hhandle]
          constructor
          · intro h
            obtain ⟨env, henv, h⟩ := Except.bind_eq_ok.mp h
            obtain ⟨command, hcommand, h⟩ := Except.bind_eq_ok.mp h
            cases h
            exact ⟨target, handle, env, command, rfl, hhandle, henv, hcommand, rfl⟩
          · rintro ⟨_, _, env, command, htarget, hsome, henv, hcommand, rfl⟩
            cases htarget
            cases hhandle.symm.trans hsome
            exact Except.bind_eq_ok.mpr ⟨env, henv,
              Except.bind_eq_ok.mpr ⟨command, hcommand, rfl⟩⟩

section Order

variable {first second : ExternalRunnerSpec}

theorem from_proto_of_order {spec : TargetSpec} (hsame : SameButEnvOrder first second)
    (hkeys : (first.env.map Prod.fst).Nodup) (h : TargetSpec.fromProto first = .ok spec) :
    TargetSpec.fromProto second = .ok spec := by
  obtain ⟨target, handle, env, command, htarget, hhandle, henv, hcommand, rfl⟩ :=
    from_proto_eq_ok.mp h
  obtain ⟨env', henv', hperm⟩ := Except.mapM_perm hsame.env henv
  have hsorted := sort_by_key_eq hperm (by rwa [env_keys henv])
  rw [from_proto_eq_ok, hsame.target, hsame.testType, hsame.command, hsame.labels,
    hsame.contacts, hsame.oncall, hsorted]
  exact ⟨target, handle, env', command, htarget, hhandle, henv', hcommand, rfl⟩

/-- In whichever order the environment is iterated, the specification is accepted or not, and what
it parses to is the same. -/
theorem from_proto_env_order (hsame : SameButEnvOrder first second)
    (hkeys : (first.env.map Prod.fst).Nodup) :
    (TargetSpec.fromProto first).toOption = (TargetSpec.fromProto second).toOption := by
  have hkeys' : (second.env.map Prod.fst).Nodup := (hsame.env.map Prod.fst).nodup_iff.mp hkeys
  cases hfirst : TargetSpec.fromProto first with
  | ok spec => rw [from_proto_of_order hsame hkeys hfirst]
  | error failure =>
      cases hsecond : TargetSpec.fromProto second with
      | ok spec => rw [from_proto_of_order hsame.symm hkeys' hsecond] at hfirst; cases hfirst
      | error other => rfl

end Order

/-- A target that was dropped because of its specification. -/
def Dropped (run : TargetRun) : Prop :=
  ∃ message, run = { messages := [.targetDropped message] }

/-- A target does the same in whichever order the environment of its specification is iterated,
unless a value is missing; then it is dropped in every order. -/
theorem run_target_env_order [External] (ctx : TargetCtx) (first second : ExternalRunnerSpec)
    (hsame : SameButEnvOrder first second) (hkeys : (first.env.map Prod.fst).Nodup) :
    runTarget ctx first = runTarget ctx second ∨
      Dropped (runTarget ctx first) ∧ Dropped (runTarget ctx second) := by
  have horder := from_proto_env_order hsame hkeys
  have hdropped : ∀ specProto failure, TargetSpec.fromProto specProto = .error failure →
      Dropped (runTarget ctx specProto) := by
    intro specProto failure h
    unfold runTarget
    rw [h]
    exact ⟨_, rfl⟩
  cases hfirst : TargetSpec.fromProto first with
  | ok spec =>
      left
      have hsecond := from_proto_of_order hsame hkeys hfirst
      unfold runTarget
      rw [hfirst, hsecond]
  | error failure =>
      right
      cases hsecond : TargetSpec.fromProto second with
      | ok spec => rw [hfirst, hsecond] at horder; cases horder
      | error other => exact ⟨hdropped _ _ hfirst, hdropped _ _ hsecond⟩

/-- Two variables that come in either order, with which the target is listed. -/
theorem swapped_env_same_run :
    letI := External.inert
    let ctx := TargetCtx.withoutFlags (.always (.finished 0 ""))
    let spec := fun env => { ExternalRunnerSpec.plain "rust" [] with env }
    let log : String × ExternalRunnerSpecValue := ("RUST_LOG", some (.verbatim "info"))
    let data : String × ExternalRunnerSpecValue := ("DATA", some (.argHandle 3))
    runTarget ctx (spec [log, data]) = runTarget ctx (spec [data, log]) ∧
      (runTarget ctx (spec [log, data])).listingRequests ≠ [] := by
  let := External.inert
  intro ctx spec log data
  have hsame : SameButEnvOrder (spec [log, data]) (spec [data, log]) :=
    ⟨rfl, rfl, rfl, List.Perm.swap _ _ _, rfl, rfl, rfl⟩
  have hsome : (runTarget ctx (spec [log, data])).listingRequests.isEmpty = false := by
    decide +kernel
  have hlisted : (runTarget ctx (spec [log, data])).listingRequests ≠ [] := by
    rwa [← List.isEmpty_eq_false_iff]
  refine ⟨(run_target_env_order ctx _ _ hsame (by decide)).resolve_right ?_, hlisted⟩
  rintro ⟨⟨message, hdropped⟩, -⟩
  exact hlisted (by rw [hdropped])

end Quokka
