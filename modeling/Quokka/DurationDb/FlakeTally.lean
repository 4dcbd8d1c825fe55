import Quokka.DurationDb.Counters
import Quokka.DurationDb.History
import Quokka.Library.Latest

/-!
# Flake records as sums

A flake record stands for two counters and a register that keeps the last failure: a
`FlakeTally`. Counting a run adds the tally of its outcome and combining two records adds their
tallies, so that both are one operation, `FlakeTally.add`.

Addition is associative with the empty tally as identity. The counters do not depend on the order
of a sum, and neither does whether it panics; the last failure does (`foldlM_add_eq_iff`).
-/

namespace Quokka

/-- The sum of two 64-bit numbers fits, or the build does not check. -/
theorem BuildProfile.add_u64_ok_iff (profile : BuildProfile) (a b : UInt64) :
    FitsIff (profile.overflowChecks = true → a.toNat + b.toNat < 2 ^ 64)
      (profile.addU64 a b) := by
  obtain ⟨_ | _⟩ := profile
  · exact nofun
  · exact (add_u64_fits_iff a b).congr ⟨fun h _ => h, fun h => h rfl⟩

/-- A failure that a record keeps. -/
structure LastFailure where
  timestampMs : UInt64
  failureClass : Option FailureClass
  deriving DecidableEq, Repr

/-- When the failure happened. -/
def LastFailure.time (failure : LastFailure) : Nat :=
  failure.timestampMs.toNat

/-- The failure of an outcome. -/
def FlakeSample.failureOf (outcome : FlakeSample) : Option LastFailure :=
  if outcome.failed then some ⟨outcome.timestampMs, outcome.failureClass⟩ else none

/-- The last failure of a record. -/
def FlakeRecord.lastFailure (flake : FlakeRecord) : Option LastFailure :=
  flake.lastFailureTimestampMs.map fun timestampMs => ⟨timestampMs, flake.lastFailureClass⟩

/-- Two counters and a register. -/
@[ext]
structure FlakeTally where
  runs : UInt64
  failures : UInt64
  last : Option LastFailure
  deriving DecidableEq, Repr

namespace FlakeTally

/-- The record with these counters and this last failure. -/
def toRecord (tally : FlakeTally) : FlakeRecord where
  runs := tally.runs
  failures := tally.failures
  lastFailureTimestampMs := tally.last.map LastFailure.timestampMs
  lastFailureClass := tally.last.bind LastFailure.failureClass

/-- The tally of one run. -/
def ofOutcome (outcome : FlakeSample) : FlakeTally :=
  ⟨1, if outcome.failed then 1 else 0, outcome.failureOf⟩

/-- The sum, as long as its counters fit. -/
def add (profile : BuildProfile) (tally other : FlakeTally) : MayPanic FlakeTally := do
  let runs ← profile.addU64 tally.runs other.runs
  let failures ← profile.addU64 tally.failures other.failures
  pure ⟨runs, failures, Latest.later LastFailure.time tally.last other.last⟩

/-- The empty tally. -/
def zero : FlakeTally := ⟨0, 0, none⟩

@[simp] theorem to_record_zero : zero.toRecord = {} := rfl

@[simp] theorem last_failure_to_record (tally : FlakeTally) :
    tally.toRecord.lastFailure = tally.last := by
  obtain ⟨runs, failures, _ | last⟩ := tally
  · rfl
  · rfl

theorem to_record_injective : Function.Injective toRecord := by
  intro tally other h
  have hlast : tally.last = other.last := by
    rw [← last_failure_to_record tally, h, last_failure_to_record]
  exact FlakeTally.ext (congrArg FlakeRecord.runs h) (congrArg FlakeRecord.failures h) hlast

variable {profile : BuildProfile}

/-- A failure replaces the last one unless it is older. -/
theorem later_eq_ite (last : Option LastFailure) (timestampMs : UInt64)
    (failureClass : Option FailureClass) :
    Latest.later LastFailure.time last (some ⟨timestampMs, failureClass⟩) =
      if (last.map LastFailure.timestampMs).getD 0 ≤ timestampMs then
        some ⟨timestampMs, failureClass⟩
      else last := by
  cases last with
  | none =>
      rw [Latest.none_later, if_pos]
      exact UInt64.le_iff_toNat_le.mpr (Nat.zero_le _)
  | some last =>
      show (if last.timestampMs.toNat ≤ timestampMs.toNat then _ else _) =
        if last.timestampMs ≤ timestampMs then _ else _
      simp only [UInt64.le_iff_toNat_le]

/-- Combining records adds their tallies. -/
theorem combine_to_record (tally other : FlakeTally) :
    tally.toRecord.combine profile other.toRecord = (tally.add profile other).map toRecord := by
  unfold FlakeRecord.combine add
  show (profile.addU64 tally.runs other.runs >>= fun runs =>
    profile.addU64 tally.failures other.failures >>= fun failures => _) = _
  cases profile.addU64 tally.runs other.runs with
  | error message => rfl
  | ok runs =>
      cases profile.addU64 tally.failures other.failures with
      | error message => rfl
      | ok failures =>
          cases hother : other.last with
          | none =>
              rw [toRecord, hother, Latest.later_none]
              rfl
          | some failure =>
              obtain ⟨timestampMs, failureClass⟩ := failure
              rw [later_eq_ite, toRecord, hother]
              show (if (tally.last.map LastFailure.timestampMs).getD 0 ≤ timestampMs then _ else _ :
                MayPanic FlakeRecord) = _
              split
              · rfl
              · rfl

/-- Counting a run adds the tally of its outcome. -/
theorem record_to_record (tally : FlakeTally) (outcome : FlakeSample) :
    tally.toRecord.record profile outcome.failed outcome.failureClass outcome.timestampMs =
      (tally.add profile (ofOutcome outcome)).map toRecord := by
  obtain ⟨env, key, failed, failureClass, timestampMs⟩ := outcome
  unfold FlakeRecord.record add
  show (profile.addU64 tally.runs 1 >>= fun runs => _) =
    Except.map toRecord (profile.addU64 tally.runs 1 >>= fun runs => _)
  cases profile.addU64 tally.runs 1 with
  | error message => rfl
  | ok runs =>
      cases failed with
      | false =>
          have hfailures : profile.addU64 tally.failures 0 = .ok (tally.failures + 0) :=
            profile.add_u64_of_lt tally.failures.toNat_lt
          show Except.ok _ = Except.map toRecord (profile.addU64 tally.failures 0 >>= fun _ => _)
          rw [hfailures]
          show Except.ok _ = Except.ok (toRecord ⟨runs, tally.failures + 0,
            Latest.later LastFailure.time tally.last none⟩)
          rw [Latest.later_none, UInt64.add_zero]
          rfl
      | true =>
          show (profile.addU64 tally.failures 1 >>= fun failures => _) =
            Except.map toRecord (profile.addU64 tally.failures 1 >>= fun _ => _)
          cases profile.addU64 tally.failures 1 with
          | error message => rfl
          | ok failures =>
              show (if (tally.last.map LastFailure.timestampMs).getD 0 ≤ timestampMs then _
                  else _ : MayPanic FlakeRecord) =
                Except.ok (toRecord ⟨runs, failures, Latest.later LastFailure.time tally.last
                  (some ⟨timestampMs, failureClass⟩)⟩)
              rw [later_eq_ite]
              split <;> rfl

/-! ## One addition -/

/-- What a sum is. -/
theorem add_eq_ok {tally other sum : FlakeTally} (h : tally.add profile other = .ok sum) :
    sum = ⟨tally.runs + other.runs, tally.failures + other.failures,
      Latest.later LastFailure.time tally.last other.last⟩ := by
  obtain ⟨runs, hruns, h⟩ := Except.bind_eq_ok.mp h
  obtain ⟨failures, hfailures, h⟩ := Except.bind_eq_ok.mp h
  cases h
  rw [FlakeRecord.add_u64_eq_ok hruns, FlakeRecord.add_u64_eq_ok hfailures]

/-- The sums of the counters fit, or the build does not check. -/
def Fits (profile : BuildProfile) (runs failures : Nat) : Prop :=
  profile.overflowChecks = true → runs < 2 ^ 64 ∧ failures < 2 ^ 64

theorem add_ok_iff (profile : BuildProfile) (tally other : FlakeTally) :
    FitsIff (Fits profile (tally.runs.toNat + other.runs.toNat)
        (tally.failures.toNat + other.failures.toNat)) (tally.add profile other) := by
  refine ((profile.add_u64_ok_iff _ _).and fun runs _ =>
    (profile.add_u64_ok_iff _ _).then_pure fun failures _ => ⟨_, rfl⟩).congr ?_
  exact ⟨fun h hchecks => ⟨h.1 hchecks, h.2 hchecks⟩,
    fun h => ⟨fun hchecks => (h hchecks).1, fun hchecks => (h hchecks).2⟩⟩

/-- What a checked sum is. -/
theorem to_nat_add {tally other sum : FlakeTally} (h : tally.add profile other = .ok sum)
    (hchecks : profile.overflowChecks = true) :
    sum.runs.toNat = tally.runs.toNat + other.runs.toNat ∧
      sum.failures.toNat = tally.failures.toNat + other.failures.toNat := by
  obtain ⟨hruns, hfailures⟩ := (add_ok_iff profile tally other).of_eq_ok h hchecks
  rw [add_eq_ok h]
  refine ⟨?_, ?_⟩
  · rw [UInt64.toNat_add, Nat.mod_eq_of_lt hruns]
  · rw [UInt64.toNat_add, Nat.mod_eq_of_lt hfailures]

theorem add_zero (tally : FlakeTally) : tally.add profile zero = .ok tally := by
  obtain ⟨sum, hsum⟩ := (add_ok_iff profile tally zero).exists_ok.mpr fun _ =>
    ⟨tally.runs.toNat_lt, tally.failures.toNat_lt⟩
  rw [hsum, add_eq_ok hsum]
  show Except.ok (FlakeTally.mk (tally.runs + 0) (tally.failures + 0)
    (Latest.later LastFailure.time tally.last none)) = _
  rw [UInt64.add_zero, UInt64.add_zero, Latest.later_none]

theorem zero_add (tally : FlakeTally) : zero.add profile tally = .ok tally := by
  obtain ⟨sum, hsum⟩ := (add_ok_iff profile zero tally).exists_ok.mpr fun _ => by
    show 0 + _ < 2 ^ 64 ∧ 0 + _ < 2 ^ 64
    rw [Nat.zero_add, Nat.zero_add]
    exact ⟨tally.runs.toNat_lt, tally.failures.toNat_lt⟩
  rw [hsum, add_eq_ok hsum]
  show Except.ok (FlakeTally.mk (0 + tally.runs) (0 + tally.failures)
    (Latest.later LastFailure.time none tally.last)) = _
  rw [UInt64.zero_add, UInt64.zero_add, Latest.none_later]

/-- Either grouping panics when the sum of all three does not fit, and gives the same sum
otherwise. -/
theorem add_assoc (profile : BuildProfile) (first second third : FlakeTally) :
    (first.add profile second >>= fun sum => sum.add profile third) =
      (second.add profile third >>= fun sum => first.add profile sum) := by
  let Total := Fits profile (first.runs.toNat + second.runs.toNat + third.runs.toNat)
    (first.failures.toNat + second.failures.toNat + third.failures.toNat)
  have hleft : FitsIff Total (first.add profile second >>= fun sum => sum.add profile third) := by
    refine ((add_ok_iff profile first second).bind fun sum _ =>
      add_ok_iff profile sum third).congr ⟨fun ⟨hfirst, hrest⟩ hchecks => ?_, fun h => ?_⟩
    · obtain ⟨sum, hsum⟩ := (add_ok_iff profile first second).exists_ok.mpr hfirst
      have hfits := hrest sum hsum hchecks
      obtain ⟨hruns, hfailures⟩ := to_nat_add hsum hchecks
      omega
    · refine ⟨fun hchecks => ?_, fun sum hsum hchecks => ?_⟩
      · have hfits := h hchecks
        omega
      · have hfits := h hchecks
        obtain ⟨hruns, hfailures⟩ := to_nat_add hsum hchecks
        omega
  have hright : FitsIff Total (second.add profile third >>= fun sum => first.add profile sum) := by
    refine ((add_ok_iff profile second third).bind fun sum _ =>
      add_ok_iff profile first sum).congr ⟨fun ⟨hfirst, hrest⟩ hchecks => ?_, fun h => ?_⟩
    · obtain ⟨sum, hsum⟩ := (add_ok_iff profile second third).exists_ok.mpr hfirst
      have hfits := hrest sum hsum hchecks
      obtain ⟨hruns, hfailures⟩ := to_nat_add hsum hchecks
      omega
    · refine ⟨fun hchecks => ?_, fun sum hsum hchecks => ?_⟩
      · have hfits := h hchecks
        omega
      · have hfits := h hchecks
        obtain ⟨hruns, hfailures⟩ := to_nat_add hsum hchecks
        omega
  refine hleft.eq_of_ok_eq hright fun left right hleft hright => ?_
  obtain ⟨sum, hsum, hleft⟩ := Except.bind_eq_ok.mp hleft
  obtain ⟨sum', hsum', hright⟩ := Except.bind_eq_ok.mp hright
  rw [add_eq_ok hleft, add_eq_ok hright, add_eq_ok hsum, add_eq_ok hsum',
    UInt64.add_assoc, UInt64.add_assoc, Latest.later_assoc]

/-- Addition commutes exactly when it panics or the last failures are not different ones of one
time. -/
theorem add_comm_iff (profile : BuildProfile) (tally other : FlakeTally) :
    tally.add profile other = other.add profile tally ↔
      ¬Fits profile (tally.runs.toNat + other.runs.toNat)
          (tally.failures.toNat + other.failures.toNat) ∨
        ¬∃ a b, tally.last = some a ∧ other.last = some b ∧ a.time = b.time ∧ a ≠ b := by
  have hother := add_ok_iff profile other tally
  rw [Nat.add_comm, Nat.add_comm other.failures.toNat] at hother
  rw [(add_ok_iff profile tally other).eq_iff hother (fun _ h => add_eq_ok h)
    (fun _ h => add_eq_ok h), FlakeTally.mk.injEq, UInt64.add_comm other.runs,
    UInt64.add_comm other.failures, ← Latest.later_comm_iff]
  simp only [true_and]

/-! ## Sums of many -/

/-- The numbers of runs and of failures in tallies. -/
def runsIn (tallies : List FlakeTally) : Nat :=
  (tallies.map fun tally => tally.runs.toNat).sum

def failuresIn (tallies : List FlakeTally) : Nat :=
  (tallies.map fun tally => tally.failures.toNat).sum

/-- What a sum of many is. -/
theorem foldlM_add_eq_ok {start sum : FlakeTally} {tallies : List FlakeTally}
    (h : tallies.foldlM (add profile) start = .ok sum) :
    sum = ⟨start.runs + UInt64.ofNat (runsIn tallies),
      start.failures + UInt64.ofNat (failuresIn tallies),
      Latest.later LastFailure.time start.last
        (Latest.latest LastFailure.time (tallies.filterMap last))⟩ := by
  induction tallies generalizing start with
  | nil =>
      rw [← Except.ok.inj h]
      show _ = FlakeTally.mk (start.runs + 0) (start.failures + 0) _
      rw [UInt64.add_zero, UInt64.add_zero, List.filterMap_nil, Latest.latest_nil,
        Latest.later_none]
  | cons tally tallies ih =>
      obtain ⟨next, hnext, hrest⟩ := Except.foldlM_cons_eq_ok.mp h
      rw [ih hrest, add_eq_ok hnext, Latest.later_assoc, ← Latest.latest_filterMap_cons]
      simp only [runsIn, failuresIn, List.map_cons, List.sum_cons, UInt64.ofNat_add,
        UInt64.ofNat_toNat, UInt64.add_assoc]

/-- A sum of many returns exactly when the counters fit. -/
theorem foldlM_add_ok_iff (profile : BuildProfile) (start : FlakeTally)
    (tallies : List FlakeTally) :
    FitsIff (Fits profile (start.runs.toNat + runsIn tallies)
      (start.failures.toNat + failuresIn tallies)) (tallies.foldlM (add profile) start) := by
  refine Except.OkIff.foldlM (fun _ _ => True)
    (P := fun (start : FlakeTally) (tallies : List FlakeTally) =>
      Fits profile (start.runs.toNat + runsIn tallies)
        (start.failures.toNat + failuresIn tallies))
    (fun start _ _ => ⟨start.runs.toNat_lt, start.failures.toNat_lt⟩)
    (fun start tally _ _ => add_ok_iff profile start tally) (fun start tally tallies _ => ?_)
    (fun _ _ _ _ _ _ => trivial) trivial
  simp only [runsIn, failuresIn, List.map_cons, List.sum_cons]
  constructor
  · intro hfits
    refine ⟨fun hchecks => ?_, fun next hnext hchecks => ?_⟩
    · have hall := hfits hchecks
      omega
    · have hall := hfits hchecks
      obtain ⟨hruns, hfailures⟩ := to_nat_add hnext hchecks
      omega
  · rintro ⟨hfirst, hrest⟩ hchecks
    obtain ⟨next, hnext⟩ := (add_ok_iff profile start tally).exists_ok.mpr hfirst
    have hall := hrest next hnext hchecks
    obtain ⟨hruns, hfailures⟩ := to_nat_add hnext hchecks
    omega

/-- Tallies in another order have the same sum exactly when it panics or the same failure is the
last one. -/
theorem foldlM_add_eq_iff (profile : BuildProfile) (start : FlakeTally)
    {tallies other : List FlakeTally} (h : other.Perm tallies) :
    other.foldlM (add profile) start = tallies.foldlM (add profile) start ↔
      ¬Fits profile (start.runs.toNat + runsIn tallies)
          (start.failures.toNat + failuresIn tallies) ∨
        Latest.later LastFailure.time start.last
            (Latest.latest LastFailure.time (other.filterMap last)) =
          Latest.later LastFailure.time start.last
            (Latest.latest LastFailure.time (tallies.filterMap last)) := by
  have hruns : runsIn other = runsIn tallies := (h.map _).sum_nat
  have hfailures : failuresIn other = failuresIn tallies := (h.map _).sum_nat
  have hother := foldlM_add_ok_iff profile start other
  rw [hruns, hfailures] at hother
  rw [hother.eq_iff (foldlM_add_ok_iff profile start tallies) (fun _ h => foldlM_add_eq_ok h)
    (fun _ h => foldlM_add_eq_ok h), hruns, hfailures, FlakeTally.mk.injEq]
  simp only [true_and]

/-! ## Outcomes -/

/-- The tally of some outcomes. -/
def ofOutcomes (outcomes : List FlakeSample) : FlakeTally where
  runs := UInt64.ofNat outcomes.length
  failures := UInt64.ofNat (outcomes.countP FlakeSample.failed)
  last := Latest.latest LastFailure.time (outcomes.filterMap FlakeSample.failureOf)

theorem runs_in_outcomes (outcomes : List FlakeSample) :
    runsIn (outcomes.map ofOutcome) = outcomes.length := by
  induction outcomes with
  | nil => rfl
  | cons outcome outcomes ih =>
      show 1 + runsIn (outcomes.map ofOutcome) = outcomes.length + 1
      rw [ih, Nat.add_comm]

theorem failures_in_outcomes (outcomes : List FlakeSample) :
    failuresIn (outcomes.map ofOutcome) = outcomes.countP FlakeSample.failed := by
  induction outcomes with
  | nil => rfl
  | cons outcome outcomes ih =>
      show (ofOutcome outcome).failures.toNat + failuresIn (outcomes.map ofOutcome) = _
      rw [ih, List.countP_cons, Nat.add_comm]
      unfold ofOutcome
      split <;> rfl

theorem last_of_outcomes (outcomes : List FlakeSample) :
    (outcomes.map ofOutcome).filterMap last = outcomes.filterMap FlakeSample.failureOf := by
  rw [List.filterMap_map]
  rfl

/-- Recording outcomes adds their tallies. -/
theorem foldlM_record_to_record (tally : FlakeTally) (outcomes : List FlakeSample) :
    outcomes.foldlM (fun flake outcome => flake.record profile outcome.failed
        outcome.failureClass outcome.timestampMs) tally.toRecord =
      ((outcomes.map ofOutcome).foldlM (add profile) tally).map toRecord := by
  induction outcomes generalizing tally with
  | nil => rfl
  | cons outcome outcomes ih =>
      rw [List.foldlM_cons, record_to_record, List.map_cons, List.foldlM_cons]
      cases tally.add profile (ofOutcome outcome) with
      | error message => rfl
      | ok next => exact ih next

/-- The latest failure is what a register keeps. -/
theorem latest_failure_eq (outcomes : List FlakeSample) :
    (latestFailure outcomes).map (fun outcome =>
        LastFailure.mk outcome.timestampMs outcome.failureClass) =
      (ofOutcomes outcomes).last := by
  unfold ofOutcomes
  dsimp only
  induction outcomes using List.reverseRecOn with
  | nil => rfl
  | append_singleton outcomes outcome ih =>
      rw [List.filterMap_append, Latest.latest_append, ← ih]
      cases hfailed : outcome.failed with
      | false =>
          rw [FlakeRecord.latest_failure_concat_of_passed _ hfailed]
          simp [FlakeSample.failureOf, hfailed]
      | true =>
          have hfailure : [outcome].filterMap FlakeSample.failureOf =
              [⟨outcome.timestampMs, outcome.failureClass⟩] := by
            simp [FlakeSample.failureOf, hfailed]
          rw [FlakeRecord.latest_failure_concat_of_failed _ hfailed, hfailure]
          show _ = Latest.later LastFailure.time _ (some _)
          rw [later_eq_ite, Option.map_map]
          split
          case isTrue hlater => exact (if_pos hlater).symm
          case isFalse hearlier => exact (if_neg hearlier).symm

/-- The record of some outcomes is the one of their tally. -/
theorem counts_iff {flake : FlakeRecord} {outcomes : List FlakeSample} :
    flake.Counts outcomes ↔ flake = (ofOutcomes outcomes).toRecord := by
  have htimestamp : (ofOutcomes outcomes).toRecord.lastFailureTimestampMs =
      (latestFailure outcomes).map FlakeSample.timestampMs := by
    show (ofOutcomes outcomes).last.map LastFailure.timestampMs = _
    rw [← latest_failure_eq, Option.map_map]
    rfl
  have hclass : (ofOutcomes outcomes).toRecord.lastFailureClass =
      (latestFailure outcomes).bind FlakeSample.failureClass := by
    show (ofOutcomes outcomes).last.bind LastFailure.failureClass = _
    rw [← latest_failure_eq]
    cases latestFailure outcomes <;> rfl
  constructor
  · rintro ⟨hruns, hfailures, htime, hcls⟩
    rw [← htimestamp] at htime
    rw [← hclass] at hcls
    obtain ⟨runs, failures, timestampMs, failureClass⟩ := flake
    cases hruns
    cases hfailures
    cases htime
    cases hcls
    rfl
  · rintro rfl
    exact ⟨rfl, rfl, htimestamp, hclass⟩

/-- The tally of two lists of outcomes, one after the other. -/
theorem of_outcomes_append (first second : List FlakeSample) :
    ofOutcomes (first ++ second) =
      ⟨(ofOutcomes first).runs + (ofOutcomes second).runs,
        (ofOutcomes first).failures + (ofOutcomes second).failures,
        Latest.later LastFailure.time (ofOutcomes first).last (ofOutcomes second).last⟩ := by
  unfold ofOutcomes
  rw [List.length_append, List.countP_append, List.filterMap_append, Latest.latest_append,
    UInt64.ofNat_add, UInt64.ofNat_add]

/-- A tally with some outcomes added. -/
def after (tally : FlakeTally) (outcomes : List FlakeSample) : FlakeTally where
  runs := tally.runs + (ofOutcomes outcomes).runs
  failures := tally.failures + (ofOutcomes outcomes).failures
  last := Latest.later LastFailure.time tally.last (ofOutcomes outcomes).last

theorem zero_after (outcomes : List FlakeSample) : zero.after outcomes = ofOutcomes outcomes := by
  show FlakeTally.mk (0 + (ofOutcomes outcomes).runs) (0 + (ofOutcomes outcomes).failures)
    (Latest.later LastFailure.time none (ofOutcomes outcomes).last) = _
  rw [UInt64.zero_add, UInt64.zero_add, Latest.none_later]

/-- What adding the tallies of outcomes leads to. -/
theorem foldlM_outcomes_eq_ok {start sum : FlakeTally} {outcomes : List FlakeSample}
    (h : (outcomes.map ofOutcome).foldlM (add profile) start = .ok sum) :
    sum = start.after outcomes := by
  rw [foldlM_add_eq_ok h, runs_in_outcomes, failures_in_outcomes, last_of_outcomes]
  rfl

end FlakeTally

/-- Combining records counts the outcomes of both. -/
theorem FlakeRecord.Counts.combine {profile : BuildProfile} {flake other next : FlakeRecord}
    {first second : List FlakeSample} (h : flake.Counts first) (hother : other.Counts second)
    (hnext : flake.combine profile other = .ok next) : next.Counts (first ++ second) := by
  rw [FlakeTally.counts_iff] at h hother ⊢
  rw [h, hother, FlakeTally.combine_to_record] at hnext
  cases hsum : (FlakeTally.ofOutcomes first).add profile (FlakeTally.ofOutcomes second) with
  | error message => rw [hsum] at hnext; cases hnext
  | ok sum =>
      rw [hsum] at hnext
      rw [FlakeTally.of_outcomes_append, ← FlakeTally.add_eq_ok hsum]
      exact (Except.ok.inj hnext).symm

end Quokka
