import Quokka.Supervisor.Watchdog

/-!
# The watchdog comes to its end

Nothing but the end of the command or of its time can keep `quokka_run_logical` waiting: once one
of the two has happened, the commands of the shell and of the watchdog lead to the end in every
order (`watchdog_completes_iff`). `WatchdogState.work` is the measure that they use up. The end is
that the shell has its answer or that it has given up on the handshake.
-/

namespace Quokka

/-- The commands of the shell and of the watchdog; the others are events outside of them. -/
def WatchdogEvent.Own : WatchdogEvent → Prop
  | .shell | .watchdog => True
  | .childEnds _ | .timerExpires | .killFails _ _ => False

/-- Whether the watchdog has yet to come to its end. -/
def WatchdogPc.live : WatchdogPc → Bool
  | .ended | .reaped => false
  | _ => true

/-- The command has ended, or its time is up and the watchdog will see to it. -/
def CommandEnds (state : WatchdogState) : Prop :=
  state.childStatus.isSome = true ∨ state.expired = true ∧ state.watchdog.live = true

/-- The shell has come to its end; `failed` is that it has given up on the handshake. -/
def ShellEnded (state : WatchdogState) : Prop :=
  state.shell = .finished ∨ state.shell = .failed

/-- A bound on the commands that the shell has left. -/
def ShellPc.work : ShellPc → Nat
  | .waitingChild => handshakeWaits + stopWaits + 20
  | .pollingHandshake waits => (handshakeWaits - waits) + stopWaits + 15
  | .readingHandshake => stopWaits + 14
  | .removingHandshake => stopWaits + 13
  | .checkingMarker => stopWaits + 12
  | .terminatingTimer => stopWaits + 11
  | .pollingTimer waits => (stopWaits - waits) + 6
  | .killingTimer => 5
  | .waitingWatchdog => 4
  | .reporting => 3
  | .removingMarker => 2
  | .finished => 0
  | .failed => 0

/-- A bound on the commands that the watchdog has left. -/
def WatchdogPc.work : WatchdogPc → Nat
  | .starting => 8
  | .openingHandshake => 7
  | .writingHandshake => 6
  | .waitingTimer => 5
  | .checkingChild => 4
  | .creatingMarker => 3
  | .killingChild => 2
  | .ended => 1
  | .reaped => 0

def WatchdogState.work (state : WatchdogState) : Nat :=
  state.shell.work + state.watchdog.work

section Ending

variable {timeout : ResourceMarker} {state next : WatchdogState} {event : WatchdogEvent}

/-- A command of the shell or of the watchdog uses up work. -/
theorem watchdog_work_lt (hown : event.Own) (hstep : WatchdogStep timeout state event next) :
    next.work < state.work := by
  unfold WatchdogState.work
  cases hstep with
  | childEnds => exact hown.elim
  | timerExpires => exact hown.elim
  | killFails => exact hown.elim
  | waitHandshake waits hpc hmissing hwaits =>
      simp only [hpc, ShellPc.work]
      omega
  | waitTimer waits hpc hwaits =>
      simp only [hpc, ShellPc.work]
      omega
  | reapWatchdog hpc hended =>
      simp only [hpc, hended, ShellPc.work, WatchdogPc.work]
      omega
  | startTimer hpc => simp only [hpc, WatchdogPc.work]; omega
  | openHandshake hpc => simp only [hpc, WatchdogPc.work]; omega
  | writeHandshake hpc => simp only [hpc, WatchdogPc.work]; omega
  | reapTimer status hpc => simp only [hpc, WatchdogPc.work]; omega
  | findChild hpc => simp only [hpc, WatchdogPc.work]; omega
  | missChild hpc => simp only [hpc, WatchdogPc.work]; omega
  | createMarker hpc => simp only [hpc, WatchdogPc.work]; omega
  | killChild hpc => simp only [hpc, WatchdogPc.work]; omega
  | reapChild status hpc => simp only [hpc, ShellPc.work]; omega
  | seeHandshake waits hpc => simp only [hpc, ShellPc.work]; omega
  | giveUp waits hpc => simp only [hpc, ShellPc.work]; omega
  | readHandshake hpc => simp only [hpc, ShellPc.work]; omega
  | removeHandshake hpc => simp only [hpc, ShellPc.work]; omega
  | seeMarker hpc => simp only [hpc, ShellPc.work]; omega
  | missMarker hpc => simp only [hpc, ShellPc.work]; omega
  | terminateTimer hpc => simp only [hpc, ShellPc.work]; omega
  | endPolling waits hpc => simp only [hpc, ShellPc.work]; omega
  | killTimer hpc => simp only [hpc, ShellPc.work]; omega
  | reportTimeout hpc => simp only [hpc, ShellPc.work]; omega
  | reportNothing hpc => simp only [hpc, ShellPc.work]; omega
  | removeMarker hpc => simp only [hpc, ShellPc.work]; omega

/-- A command that has not ended and that nothing will end keeps the shell waiting. -/
theorem waiting_of_not_ends (h : Watched timeout state) (hnot : ¬CommandEnds state) :
    state.shell = .waitingChild ∧ state.child = .running := by
  have hunknown : state.childStatus = none := by
    simpa using fun hsome => hnot (.inl hsome)
  have hchild : state.child = .running := by
    cases hat : state.child with
    | running => rfl
    | zombie status => rw [h.child.zombie status hat] at hunknown; cases hunknown
    | reaped =>
        have hknown := h.child.reaped_status hat
        rw [hunknown] at hknown
        cases hknown
  refine ⟨?_, hchild⟩
  cases hpc : state.shell with
  | waitingChild => rfl
  | _ =>
      have hreaped := h.child.reaped_iff.mpr (by rw [hpc]; rfl)
      rw [hchild] at hreaped
      cases hreaped

/-- Whether the command ends does not depend on the commands of the shell and the watchdog. -/
theorem command_ends_iff_of_step (h : Watched timeout state) (hown : event.Own)
    (hstep : WatchdogStep timeout state event next) : CommandEnds next ↔ CommandEnds state := by
  cases hstep with
  | childEnds => exact hown.elim
  | timerExpires => exact hown.elim
  | killFails => exact hown.elim
  | missChild hpc hreaped =>
      have hknown := h.child.reaped_status hreaped
      exact iff_of_true (.inl hknown) (.inl hknown)
  | killChild hpc =>
      have hexpired := h.timer.fired_expired (h.marker.firing (.inr hpc))
      exact iff_of_true (.inl (by simp)) (.inr ⟨hexpired, by rw [hpc]; rfl⟩)
  | reapWatchdog hpc hended => simp [CommandEnds, hended, WatchdogPc.live]
  | startTimer hpc => simp [CommandEnds, hpc, WatchdogPc.live]
  | openHandshake hpc => simp [CommandEnds, hpc, WatchdogPc.live]
  | writeHandshake hpc => simp [CommandEnds, hpc, WatchdogPc.live]
  | reapTimer status hpc => simp [CommandEnds, hpc, WatchdogPc.live]
  | findChild hpc => simp [CommandEnds, hpc, WatchdogPc.live]
  | createMarker hpc => simp [CommandEnds, hpc, WatchdogPc.live]
  | _ => exact Iff.rfl

/-- A watchdog whose timer does not run can go on until its end. -/
theorem live_watchdog_can_step (h : Watched timeout state) (hlive : state.watchdog.live = true)
    (hstopped : state.timer ≠ some .running) (hstarted : state.timer ≠ none) :
    (watchdogCommand state).isSome = true := by
  unfold watchdogCommand
  cases hpc : state.watchdog with
  | waitingTimer =>
      have hreaped := h.timer.reaped_iff
      rw [hpc] at hreaped
      match htimer : state.timer with
      | some (.zombie status) => rfl
      | some .running => exact absurd htimer hstopped
      | some .reaped => cases (hreaped.mp htimer).2
      | none => exact absurd htimer hstarted
  | checkingChild => dsimp only; split <;> rfl
  | ended => rw [hpc] at hlive; cases hlive
  | reaped => rw [hpc] at hlive; cases hlive
  | _ => rfl

/-- The shell can go on, or the watchdog can, until the shell has come to its end. -/
theorem watchdog_progress (h : Watched timeout state) (hends : CommandEnds state)
    (hnot : ¬ShellEnded state) :
    ∃ event : WatchdogEvent, event.Own ∧ (watchdogStep timeout state event).isSome := by
  cases hpc : state.shell with
  | waitingChild =>
      cases hchild : state.child with
      | running =>
          -- The command has not ended, so its time is up.
          have hunknown := h.child.running hchild
          obtain hknown | ⟨hexpired, hlive⟩ := hends
          · rw [hunknown] at hknown
            cases hknown
          · obtain ⟨hstopped, hstarted⟩ := h.stopped.expired hexpired
            exact ⟨.watchdog, trivial, live_watchdog_can_step h hlive hstopped hstarted⟩
      | zombie status => exact ⟨.shell, trivial, by simp [watchdogStep, shellStep, hpc, hchild]⟩
      | reaped =>
          have hwaited := h.child.reaped_iff.mp hchild
          rw [hpc] at hwaited
          cases hwaited
  | waitingWatchdog =>
      by_cases hended : state.watchdog = .ended
      · exact ⟨.shell, trivial, by simp [watchdogStep, shellStep, hpc, hended]⟩
      · have hhanded := h.handshake.handed_over (by rw [hpc]; rfl)
        have hunreaped := h.marker.watchdog_reaped_iff
        have hlive : state.watchdog.live = true := by
          cases hat : state.watchdog with
          | ended => exact absurd hat hended
          | reaped => rw [hpc] at hunreaped; cases hunreaped.mp hat
          | _ => rfl
        have hstarted : state.timer ≠ none := by
          intro hnone
          rw [h.timer.none_iff.mp hnone] at hhanded
          cases hhanded
        exact ⟨.watchdog, trivial, live_watchdog_can_step h hlive
          (h.stopped.stopped (by rw [hpc]; rfl)) hstarted⟩
  | pollingHandshake waits =>
      refine ⟨.shell, trivial, ?_⟩
      simp only [watchdogStep, shellStep, hpc]
      split
      · rfl
      · split <;> rfl
  | pollingTimer waits =>
      refine ⟨.shell, trivial, ?_⟩
      simp only [watchdogStep, shellStep, hpc]
      split <;> rfl
  | checkingMarker =>
      refine ⟨.shell, trivial, ?_⟩
      simp only [watchdogStep, shellStep, hpc]
      split <;> rfl
  | reporting =>
      refine ⟨.shell, trivial, ?_⟩
      simp only [watchdogStep, shellStep, hpc]
      split <;> rfl
  | finished => exact absurd (.inl hpc) hnot
  | failed => exact absurd (.inr hpc) hnot
  | _ => exact ⟨.shell, trivial, by simp [watchdogStep, shellStep, hpc]⟩

/-- Once the command ends or its time is up, the shell and the watchdog come to the end. -/
theorem watchdog_drains (timeout : ResourceMarker) :
    Runs.Drains (watchdogStep timeout) WatchdogEvent.Own
      (fun state => Watched timeout state ∧ CommandEnds state) ShellEnded
      WatchdogState.work where
  keeps h hown hstep :=
    ⟨watched_step h.1 hstep,
      (command_ends_iff_of_step h.1 hown (watchdog_step_of hstep)).mpr h.2⟩
  decreases _ hown hstep := watchdog_work_lt hown (watchdog_step_of hstep)
  progress h hnot := watchdog_progress h.1 h.2 hnot

/-- Whether the command ends does not depend on what the shell and the watchdog do. -/
theorem command_ends_iff_of_after {state final : WatchdogState} {events : List WatchdogEvent}
    (h : Watched timeout state) (hown : ∀ event ∈ events, event.Own)
    (hafter : Runs.after (watchdogStep timeout) state events = some final) :
    CommandEnds final ↔ CommandEnds state := by
  induction events generalizing state with
  | nil => cases hafter; exact Iff.rfl
  | cons event events ih =>
      obtain ⟨middle, hfirst, hrest⟩ := Runs.after_cons_eq_some.mp hafter
      have hsame := command_ends_iff_of_step h (hown event (by simp)) (watchdog_step_of hfirst)
      have hlater := ih (watched_step h hfirst)
        (fun other hother => hown other (by simp [hother])) hrest
      exact hlater.trans hsame

/-- In every state the shell and the watchdog can come to the end exactly if the command has ended
or its time is up while the watchdog lives; then they do so in whichever order their commands are
performed, after at most `work` of them. Unlike in `watchdog_outcome`, giving up on the handshake
counts as an end. -/
theorem watchdog_completes_iff (timeout : ResourceMarker) (events : List WatchdogEvent)
    (state : WatchdogState) (hrun : Runs.after (watchdogStep timeout) {} events = some state) :
    ((∃ more final, (∀ event ∈ more, WatchdogEvent.Own event) ∧
        Runs.after (watchdogStep timeout) state more = some final ∧ ShellEnded final) ↔
      CommandEnds state) ∧
    (CommandEnds state → ∀ more final, (∀ event ∈ more, WatchdogEvent.Own event) →
      Runs.after (watchdogStep timeout) state more = some final →
        more.length ≤ state.work ∧
          (Runs.Stuck (watchdogStep timeout) WatchdogEvent.Own final → ShellEnded final)) := by
  have hwatched := watched_of_after hrun
  refine ⟨⟨?_, fun hends => ?_⟩, fun hends more final hown hafter => ⟨?_, fun hstuck => ?_⟩⟩
  · rintro ⟨more, final, hown, hafter, hended⟩
    by_contra hnot
    have hopen := (command_ends_iff_of_after hwatched hown hafter).not.mpr hnot
    have hfinal := Runs.after_invariant (P := Watched timeout) watched_step hwatched hafter
    have hwaiting := (waiting_of_not_ends hfinal hopen).1
    obtain hfinished | hfailed := hended
    · rw [hwaiting] at hfinished
      cases hfinished
    · rw [hwaiting] at hfailed
      cases hfailed
  · exact (watchdog_drains timeout).completes ⟨hwatched, hends⟩
  · have hbound := (watchdog_drains timeout).length_le ⟨hwatched, hends⟩ hown hafter
    omega
  · exact (watchdog_drains timeout).done_of_stuck ⟨hwatched, hends⟩ hown hafter hstuck

end Ending

/-- When the time of a command is up before the watchdog has handed over its timer, the shell comes
to its end all the same. -/
theorem expired_command_completes :
    ∃ state, Runs.after (watchdogStep (timeoutMarker .action 0 60)) {} [.watchdog, .timerExpires] =
        some state ∧
      ∃ more final, (∀ event ∈ more, WatchdogEvent.Own event) ∧
        Runs.after (watchdogStep (timeoutMarker .action 0 60)) state more = some final ∧
          ShellEnded final := by
  obtain ⟨state, hrun, hexpired, hlive⟩ :
      ∃ state, Runs.after (watchdogStep (timeoutMarker .action 0 60)) {}
          [.watchdog, .timerExpires] = some state ∧
        state.expired = true ∧ state.watchdog.live = true :=
    ⟨_, rfl, rfl, rfl⟩
  exact ⟨state, hrun, (watchdog_completes_iff _ _ state hrun).1.mpr (.inr ⟨hexpired, hlive⟩)⟩

end Quokka
