import Mathlib.Logic.Basic

/-!
# Weakest preconditions of fallible programs

A program of `EStateM ε σ` either ends with a value or fails with an error, and in both cases
leaves a state: nothing is undone by a failure. `wp prog post fail s` says that `prog`, started
in `s`, ends in a value and a state of `post` or fails with an error and a state of `fail`.

There is one rule for each way to build a program. A proof about a program applies the rule of
its first step, gives what the rest needs as the new `post`, and goes on with the rest.
-/

namespace Fallible

variable {ε δ σ τ α β : Type}

/-- The weakest precondition of a program for a postcondition of its value and one of its
error. -/
def wp (prog : EStateM ε σ α) (post : α → σ → Prop) (fail : ε → σ → Prop) (s : σ) : Prop :=
  match prog s with
  | .ok value s' => post value s'
  | .error error s' => fail error s'

/-- Run a program on a part of the state. -/
def zoom (get : τ → σ) (put : σ → τ → τ) (prog : EStateM ε σ α) : EStateM ε τ α := fun t =>
  match prog (get t) with
  | .ok value s => .ok value (put s t)
  | .error error s => .error error (put s t)

/-- Run a program and hand its error on as a value. -/
def observe (prog : EStateM ε σ α) : EStateM δ σ (Except ε α) := fun s =>
  match prog s with
  | .ok value s' => .ok (.ok value) s'
  | .error error s' => .ok (.error error) s'

variable {prog : EStateM ε σ α} {post : α → σ → Prop} {fail : ε → σ → Prop} {s : σ}

/-- A program that ended in a value. -/
theorem post_of_wp (h : wp prog post fail s) {value : α} {s' : σ} (hrun : prog s = .ok value s') :
    post value s' := by
  unfold wp at h
  rw [hrun] at h
  exact h

/-- A program that failed. -/
theorem fail_of_wp (h : wp prog post fail s) {error : ε} {s' : σ}
    (hrun : prog s = .error error s') : fail error s' := by
  unfold wp at h
  rw [hrun] at h
  exact h

/-- The rule of consequence, with what is known of the run. -/
theorem wp_of_run {post' : α → σ → Prop} {fail' : ε → σ → Prop} (h : wp prog post' fail' s)
    (hpost : ∀ value s', prog s = .ok value s' → post' value s' → post value s')
    (hfail : ∀ error s', prog s = .error error s' → fail' error s' → fail error s') :
    wp prog post fail s := by
  unfold wp at h ⊢
  cases hrun : prog s with
  | ok value s' => rw [hrun] at h; exact hpost value s' hrun h
  | error error s' => rw [hrun] at h; exact hfail error s' hrun h

/-- The rule of consequence. -/
theorem wp_mono {post' : α → σ → Prop} {fail' : ε → σ → Prop} (h : wp prog post' fail' s)
    (hpost : ∀ value s', post' value s' → post value s')
    (hfail : ∀ error s', fail' error s' → fail error s') : wp prog post fail s :=
  wp_of_run h (fun value s' _ => hpost value s') (fun error s' _ => hfail error s')

/-- A value. -/
@[simp] theorem wp_pure {value : α} :
    wp (pure value : EStateM ε σ α) post fail s ↔ post value s := Iff.rfl

/-- A failure. -/
@[simp] theorem wp_throw {error : ε} :
    wp (throw error : EStateM ε σ α) post fail s ↔ fail error s := Iff.rfl

/-- A sequence: the first part must establish what the second one needs. -/
theorem wp_bind {next : α → EStateM ε σ β} {post : β → σ → Prop} :
    wp (prog >>= next) post fail s ↔ wp prog (fun value => wp (next value) post fail) fail s := by
  show wp (EStateM.bind prog next) post fail s ↔ _
  unfold wp EStateM.bind
  cases prog s <;> rfl

/-- A program whose errors are given another form. -/
theorem wp_adapt {form : ε → δ} {fail : δ → σ → Prop} :
    wp (EStateM.adaptExcept form prog) post fail s ↔
      wp prog post (fun error => fail (form error)) s := by
  unfold wp EStateM.adaptExcept
  cases prog s <;> rfl

/-- A program on a part of the state. -/
theorem wp_zoom {get : τ → σ} {put : σ → τ → τ} {post : α → τ → Prop} {fail : ε → τ → Prop}
    {t : τ} :
    wp (zoom get put prog) post fail t ↔
      wp prog (fun value s => post value (put s t)) (fun error s => fail error (put s t))
        (get t) := by
  unfold wp zoom
  cases prog (get t) <;> rfl

/-- A program whose error is observed. -/
theorem wp_observe {post : Except ε α → σ → Prop} {fail : δ → σ → Prop} :
    wp (observe prog : EStateM δ σ (Except ε α)) post fail s ↔
      wp prog (fun value => post (.ok value)) (fun error => post (.error error)) s := by
  unfold wp observe
  cases prog s <;> rfl

end Fallible
