import Quokka.Scheduler.Action

/-!
# Terminal results of JSON reports

A test is over when its JSON event says `ok`, `failed` or `ignored`, and a benchmark when it is
reported at all. `decodeJson` skips the event that starts a test, but takes every other event
for a fatal result, also the warning that a slow test is still running.

`RunEvent.terminal` are the results of a report and `RunEvent.unexpected` the events that are
taken for one. `terminal_results_iff` says when the table of results is that of the terminal
ones, and so when a test without one is reported as incomplete.
-/

namespace Quokka

section Events

variable [HarnessText]

/-- The event on one line of a report. -/
def lineEvent (line : String) : Option RunEvent :=
  let line := Text.trim line
  if line.isEmpty then none else HarnessText.parseRunEvent line

/-- The events of a report, in order. -/
def reportEvents (stdout : String) : List RunEvent :=
  (Text.lines stdout).filterMap lineEvent

end Events

namespace RunEvent

/-- The terminal result that an event reports. -/
def terminal (event : RunEvent) : Option (String × TestVerdict) := do
  let name ← event.name
  if event.kind = "bench" then pure (name, .pass)
  else if event.kind ≠ "test" then none
  else
    let ev ← event.event
    if ev = "ok" then pure (name, .pass)
    else if ev = "failed" then pure (name, .fail)
    else if ev = "ignored" then pure (name, .skip)
    else none

/-- The test of an event that neither starts it nor ends it. -/
def unexpected (event : RunEvent) : Option String := do
  let name ← event.name
  if event.kind ≠ "test" then none
  else
    let ev ← event.event
    if ["ok", "failed", "ignored", "started"].contains ev then none else pure name

/-- The result that an event is taken for. -/
def taken (event : RunEvent) : Option (String × TestVerdict) :=
  event.terminal.or (event.unexpected.map fun name => (name, .fatal))

/-- No terminal result is fatal. -/
theorem terminal_ne_fatal {event : RunEvent} {name : String} :
    event.terminal ≠ some (name, .fatal) := by
  intro h
  obtain ⟨other, -, h⟩ := Option.bind_eq_some_iff.mp h
  split at h
  · cases h
  split at h
  · cases h
  obtain ⟨ev, -, h⟩ := Option.bind_eq_some_iff.mp h
  repeat' split at h
  all_goals cases h

/-- An unexpected event is no terminal result. -/
theorem terminal_of_unexpected {event : RunEvent} {name : String}
    (h : event.unexpected = some name) : event.terminal = none := by
  obtain ⟨other, hname, h⟩ := Option.bind_eq_some_iff.mp h
  split at h
  · cases h
  case isFalse htest =>
    have hkind : event.kind = "test" := not_not.mp htest
    obtain ⟨ev, hev, h⟩ := Option.bind_eq_some_iff.mp h
    split at h
    · cases h
    case isFalse hother =>
      simp only [List.contains_cons, List.contains_nil, Bool.or_false, Bool.or_eq_true,
        beq_iff_eq, not_or] at hother
      simp [terminal, hname, hkind, hev, hother]

end RunEvent

/-- The status of a decoded line is the one that its event is taken for. -/
theorem decode_json_line_status [HarnessText] (line : String) :
    (decodeJsonLine line).map (fun result => (result.1, result.2.status)) =
      (lineEvent line).bind RunEvent.taken := by
  unfold decodeJsonLine lineEvent
  dsimp only
  split
  · rfl
  cases HarnessText.parseRunEvent (Text.trim line) with
  | none => rfl
  | some event =>
      show _ = event.taken
      obtain ⟨kind, name, ev, stdout, message, execTime⟩ := event
      dsimp only [Option.bind_eq_bind, Option.bind_some, RunEvent.taken, RunEvent.terminal,
        RunEvent.unexpected]
      by_cases hbench : kind = "bench"
      · subst hbench
        cases name <;> rfl
      by_cases htest : kind = "test"
      · subst htest
        cases name with
        | none => rfl
        | some name =>
            cases ev with
            | none => rfl
            | some ev =>
                by_cases hok : ev = "ok"
                · subst hok; rfl
                by_cases hfailed : ev = "failed"
                · subst hfailed; rfl
                by_cases hignored : ev = "ignored"
                · subst hignored; rfl
                by_cases hstarted : ev = "started"
                · subst hstarted; rfl
                simp [jsonEventStatus, hok, hfailed, hignored, hstarted]
      · cases name <;> simp [hbench, htest]

section Report

variable [HarnessText]

/-- The status that a report gives each test is that of its last event that is taken for a
result. -/
theorem decode_json_status (stdout name : String) :
    ((decodeJson stdout).lookup name).map PerTestObservation.status =
      Table.lastOf name ((reportEvents stdout).filterMap RunEvent.taken) := by
  have hlines : ((Text.lines stdout).filterMap decodeJsonLine).map
      (fun result => (result.1, result.2.status)) =
        (reportEvents stdout).filterMap RunEvent.taken := by
    rw [reportEvents, List.map_filterMap, List.filterMap_filterMap]
    exact List.filterMap_congr fun line _ => decode_json_line_status line
  rw [decodeJson, lookup_collect_observations, ← Table.last_of_map, hlines]

end Report

/-- Every event that is taken for a result, but is none, is followed by a terminal result of the
same test. -/
def Superseded (events : List RunEvent) : Prop :=
  ∀ before event after name, events = before ++ event :: after →
    event.unexpected = some name →
      ∃ later ∈ after, ∃ status, later.terminal = some (name, status)

theorem Superseded.tail {event : RunEvent} {events : List RunEvent}
    (h : Superseded (event :: events)) : Superseded events := by
  intro before other after name hsplit
  exact h (event :: before) other after name (by rw [hsplit, List.cons_append])

/-- Superseded events leave only terminal results. -/
theorem Superseded.last_taken {events : List RunEvent} (h : Superseded events) (name : String) :
    Table.lastOf name (events.filterMap RunEvent.taken) =
      Table.lastOf name (events.filterMap RunEvent.terminal) := by
  induction events with
  | nil => rfl
  | cons event events ih =>
      have hrest := ih h.tail
      cases hterminal : event.terminal with
      | some result =>
          have htaken : event.taken = some result := by rw [RunEvent.taken, hterminal]; rfl
          rw [List.filterMap_cons_some htaken, List.filterMap_cons_some hterminal, Table.lastOf,
            Table.lastOf, hrest]
      | none =>
          rw [List.filterMap_cons_none hterminal]
          cases hunexpected : event.unexpected with
          | none =>
              have htaken : event.taken = none := by
                rw [RunEvent.taken, hterminal, hunexpected]; rfl
              rw [List.filterMap_cons_none htaken, hrest]
          | some other =>
              have htaken : event.taken = some (other, .fatal) := by
                rw [RunEvent.taken, hterminal, hunexpected]; rfl
              rw [List.filterMap_cons_some htaken, Table.lastOf, hrest]
              by_cases hname : other = name
              · subst hname
                obtain ⟨later, hlater, status, hstatus⟩ := h [] event events other rfl hunexpected
                cases hlast : Table.lastOf other (events.filterMap RunEvent.terminal) with
                | some value => rfl
                | none =>
                    exact absurd rfl (Table.last_of_eq_none.mp hlast (other, status)
                      (List.mem_filterMap.mpr ⟨later, hlater, hstatus⟩))
              · rw [if_neg hname, Option.or_none]

/-- An event that is not superseded leaves a fatal result. -/
theorem last_taken_fatal {event : RunEvent} {after : List RunEvent} {name : String}
    (hunexpected : event.unexpected = some name)
    (hnone : ∀ later ∈ after, ∀ status, later.terminal ≠ some (name, status)) :
    Table.lastOf name ((event :: after).filterMap RunEvent.taken) = some .fatal := by
  have htaken : event.taken = some (name, .fatal) := by
    rw [RunEvent.taken, RunEvent.terminal_of_unexpected hunexpected, hunexpected]
    rfl
  cases hlast : Table.lastOf name ((event :: after).filterMap RunEvent.taken) with
  | none =>
      exact absurd rfl (Table.last_of_eq_none.mp hlast (name, .fatal)
        (List.mem_filterMap.mpr ⟨event, List.mem_cons_self, htaken⟩))
  | some status =>
      obtain ⟨other, hother, hstatus⟩ := List.mem_filterMap.mp (Table.mem_of_last_of hlast)
      cases hterminal : other.terminal with
      | none =>
          rw [RunEvent.taken, hterminal, Option.none_or] at hstatus
          obtain ⟨_, -, hpair⟩ := Option.map_eq_some_iff.mp hstatus
          cases hpair
          rfl
      | some result =>
          rw [RunEvent.taken, hterminal, Option.some_or] at hstatus
          cases hstatus
          rcases List.mem_cons.mp hother with rfl | hlater
          · rw [RunEvent.terminal_of_unexpected hunexpected] at hterminal
            cases hterminal
          · exact absurd hterminal (hnone other hlater status)

/-- A report gives every test the status of its last terminal result, and leaves a test without
one incomplete: the member results of an action that ended without a memory failure say so. -/
def TerminalOnly [HarnessText] (stdout : String) : Prop :=
  (∀ name, ((decodeJson stdout).lookup name).map PerTestObservation.status =
    Table.lastOf name ((reportEvents stdout).filterMap RunEvent.terminal)) ∧
  ∀ (group : ObservedGroup) singleton name, group.observations = decodeJson stdout →
    group.actionOom = none →
      ((group.memberResult false singleton name).integrity = .missingTerminalResult ↔
        Table.lastOf name ((reportEvents stdout).filterMap RunEvent.terminal) = none)

/-- A member without an entry is incomplete. -/
theorem integrity_of_lookup {group : ObservedGroup} (hoom : group.actionOom = none)
    (singleton : Bool) (name : String) :
    (group.memberResult false singleton name).integrity = .missingTerminalResult ↔
      group.observations.lookup name = none := by
  unfold ObservedGroup.memberResult
  simp only [hoom]
  cases group.observations.lookup name <;> simp

/-- The results of a JSON report are its terminal ones exactly if every other event that is
taken for a result is followed by a terminal result of the same test. -/
theorem terminal_results_iff [HarnessText] (stdout : String) :
    TerminalOnly stdout ↔ Superseded (reportEvents stdout) := by
  constructor
  · rintro ⟨hstatus, -⟩ before event after name hsplit hunexpected
    by_contra hnone
    have hnone' : ∀ later ∈ after, ∀ status, later.terminal ≠ some (name, status) :=
      fun later hlater status heq => hnone ⟨later, hlater, status, heq⟩
    have hfatal := last_taken_fatal hunexpected hnone'
    have hlast := hstatus name
    rw [decode_json_status, hsplit, List.filterMap_append, Table.last_of_append, hfatal,
      Option.some_or] at hlast
    obtain ⟨event, -, hevent⟩ := List.mem_filterMap.mp (Table.mem_of_last_of hlast.symm)
    exact RunEvent.terminal_ne_fatal hevent
  · intro hsuperseded
    have hstatus : ∀ name, ((decodeJson stdout).lookup name).map PerTestObservation.status =
        Table.lastOf name ((reportEvents stdout).filterMap RunEvent.terminal) := by
      intro name
      rw [decode_json_status]
      exact hsuperseded.last_taken name
    refine ⟨hstatus, fun group singleton name hobservations hoom => ?_⟩
    rw [integrity_of_lookup hoom, hobservations, ← hstatus name, Option.map_eq_none_iff]

/-! ### A slow test -/

/-- The line that starts the test `a`. -/
def startedLine : String :=
  "\x7b \"type\": \"test\", \"event\": \"started\", \"name\": \"a\" \x7d"

/-- The line that warns that the test `a` has been running for long. -/
def timeoutLine : String :=
  "\x7b \"type\": \"test\", \"event\": \"timeout\", \"name\": \"a\" \x7d"

/-- A decoder that knows these two lines. -/
@[reducible] def External.slowTest : External :=
  { External.inert with
    parseRunEvent := fun line =>
      if line = startedLine then
        some { kind := "test", name := some "a", event := some "started" }
      else if line = timeoutLine then
        some { kind := "test", name := some "a", event := some "timeout" }
      else none }

/-- A slow test that was killed has a fatal result, which is a complete one. -/
theorem slow_test_looks_complete :
    letI := External.slowTest
    let stdout := startedLine ++ "\n" ++ timeoutLine ++ "\n"
    ((decodeJson stdout).lookup "a").map PerTestObservation.status = some .fatal ∧
      (reportEvents stdout).filterMap RunEvent.terminal = [] ∧ ¬TerminalOnly stdout := by
  let := External.slowTest
  intro stdout
  have hlookup : ((decodeJson stdout).lookup "a").map PerTestObservation.status = some .fatal :=
    by decide +kernel
  have hterminal : (reportEvents stdout).filterMap RunEvent.terminal = [] := by decide +kernel
  refine ⟨hlookup, hterminal, fun honly => ?_⟩
  have hstatus := honly.1 "a"
  rw [hlookup, hterminal] at hstatus
  cases hstatus

end Quokka
