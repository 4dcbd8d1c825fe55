import Mathlib.Data.List.Basic

/-!
# Counting semaphores with a queue

A `Semaphore` has a number of free permits and a first-in-first-out queue of waiting tasks, given
by their positions in a list of tasks. A released permit goes to the first waiting task.

`Governs` relates a semaphore to the tasks: which of them hold a permit and which of them wait.
It is kept by each change of the tasks: one that does not concern the semaphore
(`Governs.set_same`, `Governs.append`), one that asks for a permit (`Governs.granted`,
`Governs.queued`) and one that gives a permit back (`Governs.freed`, `Governs.handed`). From it
follow the bound on the holders and that nobody waits while a permit is free.
-/

/-- Free permits and waiting tasks. -/
structure Semaphore where
  available : Nat
  queue : List Nat
  deriving DecidableEq, Repr

namespace Semaphore

/-- A semaphore whose permits are all free. -/
def new (limit : Nat) : Semaphore where
  available := limit
  queue := []

/-- Ask for a permit: the answer is whether it was free, otherwise the task waits. A task that
asks while others wait goes behind them. -/
def acquire (sem : Semaphore) (task : Nat) : Bool × Semaphore :=
  if sem.available = 0 ∨ sem.queue ≠ [] then (false, { sem with queue := sem.queue ++ [task] })
  else (true, { sem with available := sem.available - 1 })

/-- Give a permit back: the answer is the waiting task that gets it. -/
def release (sem : Semaphore) : Option Nat × Semaphore :=
  match sem.queue with
  | [] => (none, { sem with available := sem.available + 1 })
  | task :: queue => (some task, { sem with queue })

variable {α : Type*}

/-- A semaphore of `limit` permits, for tasks some of which hold a permit and some of which wait
for one. -/
structure Governs (sem : Semaphore) (limit : Nat) (holds waits : α → Bool) (tasks : List α) :
    Prop where
  balance : sem.available + tasks.countP holds = limit
  mem_queue : ∀ {task : Nat}, task ∈ sem.queue ↔ ∃ a, tasks[task]? = some a ∧ waits a = true
  nodup : sem.queue.Nodup
  full : sem.queue ≠ [] → sem.available = 0

variable {sem sem' : Semaphore} {limit task : Nat} {holds waits : α → Bool} {tasks : List α}
  {a b c : α}

/-- Replacing a task changes the number of tasks of a kind by that task. -/
theorem count_set (kind : α → Bool) (ha : tasks[task]? = some a) :
    (tasks.set task b).countP kind + (if kind a then 1 else 0) =
      tasks.countP kind + (if kind b then 1 else 0) := by
  obtain ⟨hlt, rfl⟩ := List.getElem?_eq_some_iff.mp ha
  have hpos : (if kind tasks[task] then 1 else 0) ≤ tasks.countP kind := by
    split
    · exact List.countP_pos_iff.mpr ⟨_, List.getElem_mem hlt, ‹_›⟩
    · exact Nat.zero_le _
  rw [List.countP_set hlt]
  omega

/-- The tasks of a kind after one of them was replaced. -/
theorem kind_set_iff (kind : α → Bool) (ha : tasks[task]? = some a) {other : Nat} :
    (∃ x, (tasks.set task b)[other]? = some x ∧ kind x = true) ↔
      if other = task then kind b = true else ∃ x, tasks[other]? = some x ∧ kind x = true := by
  obtain ⟨hlt, -⟩ := List.getElem?_eq_some_iff.mp ha
  split
  · rename_i heq
    rw [heq, List.getElem?_set_self hlt]
    simp
  · rename_i hne
    rw [List.getElem?_set_ne (Ne.symm hne)]

/-- Without tasks all permits are free. -/
theorem governs_new (limit : Nat) (holds waits : α → Bool) :
    (new limit).Governs limit holds waits [] where
  balance := rfl
  mem_queue := by simp [new]
  nodup := List.nodup_nil
  full h := absurd rfl h

namespace Governs

/-- No more tasks than there are permits hold one. -/
theorem count_le (h : sem.Governs limit holds waits tasks) : tasks.countP holds ≤ limit := by
  have := h.balance
  omega

/-- Somebody holds a permit if somebody waits for one. -/
theorem holder_of_waiting (h : sem.Governs limit holds waits tasks) (hlimit : 0 < limit)
    (ha : tasks[task]? = some a) (hwaits : waits a = true) : ∃ holder ∈ tasks, holds holder := by
  have hqueue : sem.queue ≠ [] := List.ne_nil_of_mem (h.mem_queue.mpr ⟨a, ha, hwaits⟩)
  have hnone := h.full hqueue
  have hbalance := h.balance
  exact List.countP_pos_iff.mp (by omega)

/-- A task changes, but neither holds nor waits more or less than before. -/
theorem set_same (h : sem.Governs limit holds waits tasks) (ha : tasks[task]? = some a)
    (hholds : holds b = holds a) (hwaits : waits b = waits a) :
    sem.Governs limit holds waits (tasks.set task b) := by
  refine ⟨?_, fun {other} => ?_, h.nodup, h.full⟩
  · have hcount := @count_set α task tasks a b holds ha
    have hbalance := h.balance
    rw [hholds] at hcount
    omega
  · rw [kind_set_iff waits ha, h.mem_queue]
    split
    · rename_i heq
      rw [heq, ha, hwaits]
      simp
    · rfl

/-- New tasks neither hold nor wait. -/
theorem append (h : sem.Governs limit holds waits tasks) {added : List α}
    (hholds : ∀ x ∈ added, holds x = false) (hwaits : ∀ x ∈ added, waits x = false) :
    sem.Governs limit holds waits (tasks ++ added) := by
  refine ⟨?_, fun {other} => ?_, h.nodup, h.full⟩
  · have hzero : added.countP holds = 0 :=
      List.countP_eq_zero.mpr fun x hx hheld => absurd ((hholds x hx).symm.trans hheld) (by decide)
    rw [List.countP_append, hzero]
    exact h.balance
  · rw [h.mem_queue]
    constructor
    · rintro ⟨x, hx, hwaiting⟩
      have hlt := (List.getElem?_eq_some_iff.mp hx).1
      exact ⟨x, (List.getElem?_append_left hlt).trans hx, hwaiting⟩
    · rintro ⟨x, hx, hwaiting⟩
      by_cases hlt : other < tasks.length
      · exact ⟨x, (List.getElem?_append_left hlt).symm.trans hx, hwaiting⟩
      · rw [List.getElem?_append_right (by omega)] at hx
        have hmem := List.mem_of_getElem? hx
        exact absurd ((hwaits x hmem).symm.trans hwaiting) (by decide)

/-- A task gets a free permit. -/
theorem granted (h : sem.Governs limit holds waits tasks) (ha : tasks[task]? = some a)
    (hholds : holds a = false) (hwaits : waits a = false) (hbHolds : holds b = true)
    (hbWaits : waits b = false) (hacquire : sem.acquire task = (true, sem')) :
    sem'.Governs limit holds waits (tasks.set task b) := by
  unfold acquire at hacquire
  split at hacquire
  · cases hacquire
  rename_i hfree
  cases hacquire
  rw [not_or, not_not] at hfree
  refine ⟨?_, fun {other} => ?_, h.nodup, fun hqueue => absurd hfree.2 hqueue⟩
  · have hcount := @count_set α task tasks a b holds ha
    have hbalance := h.balance
    simp only [hholds, hbHolds, Bool.false_eq_true, if_false, if_true] at hcount
    show sem.available - 1 + _ = limit
    omega
  · rw [kind_set_iff waits ha]
    show other ∈ sem.queue ↔ _
    rw [h.mem_queue]
    split
    · rename_i heq
      rw [heq, ha, hbWaits]
      simp [hwaits]
    · rfl

/-- A task waits for a permit. -/
theorem queued (h : sem.Governs limit holds waits tasks) (ha : tasks[task]? = some a)
    (hholds : holds a = false) (hwaits : waits a = false) (hbHolds : holds b = false)
    (hbWaits : waits b = true) (hacquire : sem.acquire task = (false, sem')) :
    sem'.Governs limit holds waits (tasks.set task b) := by
  unfold acquire at hacquire
  split at hacquire
  case isFalse => cases hacquire
  rename_i hbusy
  cases hacquire
  have hfresh : task ∉ sem.queue := by
    intro hmem
    obtain ⟨x, hx, hwaiting⟩ := h.mem_queue.mp hmem
    cases Option.some.inj (ha.symm.trans hx)
    exact absurd (hwaits.symm.trans hwaiting) (by decide)
  refine ⟨?_, fun {other} => ?_, ?_, fun _ => ?_⟩
  · have hcount := @count_set α task tasks a b holds ha
    have hbalance := h.balance
    simp only [hholds, hbHolds, Bool.false_eq_true, if_false] at hcount
    show sem.available + _ = limit
    omega
  · rw [kind_set_iff waits ha, List.mem_append, List.mem_singleton, h.mem_queue]
    split
    · simp [*]
    · simp [*]
  · exact List.nodup_append.mpr
      ⟨h.nodup, List.pairwise_singleton _ task, by
        rintro x hx y hy rfl
        exact hfresh (List.mem_singleton.mp hy ▸ hx)⟩
  · rcases hbusy with hnone | hqueue
    · exact hnone
    · exact h.full hqueue

/-- A permit that nobody waits for is free again. -/
theorem freed (h : sem.Governs limit holds waits tasks) (ha : tasks[task]? = some a)
    (hholds : holds a = true) (hwaits : waits a = false) (hbHolds : holds b = false)
    (hbWaits : waits b = false) (hrelease : sem.release = (none, sem')) :
    sem'.Governs limit holds waits (tasks.set task b) := by
  unfold release at hrelease
  split at hrelease
  case h_2 => cases hrelease
  rename_i hqueue
  cases hrelease
  refine ⟨?_, fun {other} => ?_, h.nodup, fun hne => absurd hqueue hne⟩
  · have hcount := @count_set α task tasks a b holds ha
    have hbalance := h.balance
    simp only [hholds, hbHolds, Bool.false_eq_true, if_false, if_true] at hcount
    show sem.available + 1 + _ = limit
    omega
  · rw [kind_set_iff waits ha]
    show other ∈ sem.queue ↔ _
    rw [h.mem_queue]
    split
    · rename_i heq
      rw [heq, ha, hbWaits]
      simp [hwaits]
    · rfl

/-- A permit is handed on to the first waiting task. -/
theorem handed (h : sem.Governs limit holds waits tasks) (ha : tasks[task]? = some a)
    (hholds : holds a = true) (hwaits : waits a = false) (hbHolds : holds b = false)
    (hbWaits : waits b = false) {next : Nat} (hrelease : sem.release = (some next, sem')) :
    ∃ x, next ≠ task ∧ tasks[next]? = some x ∧ waits x = true ∧
      (holds x = false → ∀ {c : α}, holds c = true → waits c = false →
        sem'.Governs limit holds waits ((tasks.set task b).set next c)) := by
  unfold release at hrelease
  split at hrelease
  · cases hrelease
  rename_i first rest hqueue
  cases hrelease
  have hnodup := h.nodup
  rw [hqueue] at hnodup
  obtain ⟨x, hx, hwaiting⟩ := h.mem_queue.mp (hqueue ▸ List.mem_cons_self : next ∈ sem.queue)
  have hne : next ≠ task := by
    rintro rfl
    cases Option.some.inj (ha.symm.trans hx)
    exact absurd (hwaits.symm.trans hwaiting) (by decide)
  have hx' : (tasks.set task b)[next]? = some x := by
    rw [List.getElem?_set_ne hne.symm]
    exact hx
  -- The permit changes hands within one release: `available` stays as it is.
  refine ⟨x, hne, hx, hwaiting, fun hxHolds c hcHolds hcWaits => ⟨?_, fun {other} => ?_, ?_, ?_⟩⟩
  · have hfirst := @count_set α task tasks a b holds ha
    have hsecond := @count_set α next (tasks.set task b) x c holds hx'
    have hbalance := h.balance
    simp only [hholds, hbHolds, hxHolds, hcHolds, Bool.false_eq_true, if_false, if_true]
      at hfirst hsecond
    show sem.available + _ = limit
    omega
  · rw [kind_set_iff waits hx', kind_set_iff waits ha]
    have hold : other ∈ sem.queue ↔ other = next ∨ other ∈ rest := by
      rw [hqueue, List.mem_cons]
    rw [h.mem_queue] at hold
    show other ∈ rest ↔ _
    split
    · rename_i heq
      rw [heq, hcWaits]
      simpa using (List.nodup_cons.mp hnodup).1
    · rename_i hother
      split
      · rename_i heq
        rw [hbWaits]
        have hnot : ¬ ∃ y, tasks[other]? = some y ∧ waits y = true := by
          rintro ⟨y, hy, hywaits⟩
          cases Option.some.inj (ha.symm.trans (heq ▸ hy))
          exact absurd (hwaits.symm.trans hywaits) (by decide)
        simp only [Bool.false_eq_true, iff_false]
        exact fun hmem => hnot (hold.mpr (.inr hmem))
      · rw [hold]
        simp [hother]
  · exact (List.nodup_cons.mp hnodup).2
  · intro _
    exact h.full (by rw [hqueue]; exact List.cons_ne_nil _ _)

end Governs

end Semaphore
