import Quokka.DurationDb.Recording

/-!
# Merging flake records

Flake records with `combine` are a monoid: grouping does not matter, for records, for stores, or
for what a query adds up. It is not a commutative one. Of two failures with one timestamp the one
that comes second replaces the first, so that a record depends on the order exactly when different
classes are the latest ones (`LatestAgree`); sums that do not fit panic in every order.

`flake_merge_iff` says this of two records, of recorded outcomes, of stores filled in any way, of
an aggregated query, and of the logs that parallel runs append.
-/

namespace Quokka

/-- The failures with the greatest timestamp are of one class. -/
def LatestAgree (failures : List LastFailure) : Prop :=
  ∀ first ∈ failures, ∀ second ∈ failures,
    (∀ failure ∈ failures, failure.timestampMs ≤ first.timestampMs) →
    (∀ failure ∈ failures, failure.timestampMs ≤ second.timestampMs) →
    first.failureClass = second.failureClass

theorem latest_agree_iff (failures : List LastFailure) :
    LatestAgree failures ↔ ¬Latest.Tied LastFailure.time failures := by
  constructor
  · rintro h ⟨first, second, ⟨hfirst, hmax⟩, ⟨hsecond, hmax'⟩, hne⟩
    have hclass := h first hfirst second hsecond
      (fun failure hfailure => UInt64.le_iff_toNat_le.mpr (hmax failure hfailure))
      (fun failure hfailure => UInt64.le_iff_toNat_le.mpr (hmax' failure hfailure))
    have htime : first.timestampMs = second.timestampMs :=
      UInt64.toNat_inj.mp (Nat.le_antisymm (hmax' first hfirst) (hmax second hsecond))
    obtain ⟨timestampMs, failureClass⟩ := first
    obtain ⟨timestampMs', failureClass'⟩ := second
    cases hclass
    cases htime
    exact hne rfl
  · intro h first hfirst second hsecond hmax hmax'
    by_contra hne
    refine h ⟨first, second, ⟨hfirst, fun failure hfailure => ?_⟩,
      ⟨hsecond, fun failure hfailure => ?_⟩, fun heq => hne (congrArg _ heq)⟩
    · exact UInt64.le_iff_toNat_le.mp (hmax failure hfailure)
    · exact UInt64.le_iff_toNat_le.mp (hmax' failure hfailure)

namespace FlakeRecord

variable {profile : BuildProfile}

/-- The records that counting runs and combining records lead to. -/
inductive Reachable (profile : BuildProfile) : FlakeRecord → Prop
  | default : Reachable profile {}
  | record {flake next : FlakeRecord} {failed : Bool} {failureClass : Option FailureClass}
      {timestampMs : UInt64} (h : Reachable profile flake)
      (hnext : flake.record profile failed failureClass timestampMs = .ok next) :
      Reachable profile next
  | combine {flake other next : FlakeRecord} (h : Reachable profile flake)
      (hother : Reachable profile other) (hnext : flake.combine profile other = .ok next) :
      Reachable profile next

/-- The counters and the last failure of a record. -/
def tally (flake : FlakeRecord) : FlakeTally :=
  ⟨flake.runs, flake.failures, flake.lastFailure⟩

@[simp] theorem tally_to_record (t : FlakeTally) : t.toRecord.tally = t := by
  show FlakeTally.mk t.runs t.failures t.toRecord.lastFailure = t
  rw [FlakeTally.last_failure_to_record]

/-- A reachable record stands for a tally: a class comes with a timestamp. -/
theorem Reachable.to_record_tally {flake : FlakeRecord} (h : flake.Reachable profile) :
    flake.tally.toRecord = flake := by
  suffices hof : ∃ t : FlakeTally, flake = t.toRecord by
    obtain ⟨t, rfl⟩ := hof
    rw [tally_to_record]
  induction h with
  | default => exact ⟨.zero, rfl⟩
  | @record flake next failed failureClass timestampMs h hnext ih =>
      obtain ⟨t, rfl⟩ := ih
      have hrecord := @FlakeTally.record_to_record profile t
        ⟨.local, 0, failed, failureClass, timestampMs⟩
      rw [hnext] at hrecord
      obtain ⟨sum, -, hsum⟩ := Except.map_eq_ok.mp hrecord.symm
      exact ⟨sum, hsum.symm⟩
  | @combine flake other next h hother hnext ih ihOther =>
      obtain ⟨t, rfl⟩ := ih
      obtain ⟨t', rfl⟩ := ihOther
      rw [FlakeTally.combine_to_record] at hnext
      obtain ⟨sum, -, hsum⟩ := Except.map_eq_ok.mp hnext
      exact ⟨sum, hsum.symm⟩

/-! ## Two records -/

/-- The last failures of two records have one timestamp and different classes. -/
def Tied (flake other : FlakeRecord) : Prop :=
  flake.lastFailureTimestampMs.isSome ∧
    flake.lastFailureTimestampMs = other.lastFailureTimestampMs ∧
    flake.lastFailureClass ≠ other.lastFailureClass

/-- The counters of two records can be added. -/
def SumFits (profile : BuildProfile) (flake other : FlakeRecord) : Prop :=
  FlakeTally.Fits profile (flake.runs.toNat + other.runs.toNat)
    (flake.failures.toNat + other.failures.toNat)

theorem tied_iff (t other : FlakeTally) :
    t.toRecord.Tied other.toRecord ↔ ∃ a b, t.last = some a ∧ other.last = some b ∧
      a.time = b.time ∧ a ≠ b := by
  obtain ⟨runs, failures, last⟩ := t
  obtain ⟨runs', failures', last'⟩ := other
  cases last with
  | none => exact iff_of_false (fun h => Bool.false_ne_true h.1) (fun ⟨_, _, h, _⟩ => nomatch h)
  | some a =>
      cases last' with
      | none => exact iff_of_false (fun h => nomatch h.2.1) (fun ⟨_, _, _, h, _⟩ => nomatch h)
      | some b =>
          obtain ⟨timestampMs, failureClass⟩ := a
          obtain ⟨timestampMs', failureClass'⟩ := b
          constructor
          · rintro ⟨-, htime, hclass⟩
            have htime : timestampMs = timestampMs' := Option.some.inj htime
            exact ⟨_, _, rfl, rfl, congrArg UInt64.toNat htime,
              fun h => hclass (LastFailure.mk.inj h).2⟩
          · rintro ⟨a, b, ha, hb, htime, hne⟩
            cases ha
            cases hb
            have htime : timestampMs = timestampMs' := UInt64.toNat_inj.mp htime
            exact ⟨rfl, congrArg some htime, fun h => hne (LastFailure.mk.injEq .. ▸ ⟨htime, h⟩)⟩

/-- Combining the tallies of a computation. -/
theorem map_bind_combine (x : MayPanic FlakeTally) (t : FlakeTally) :
    (x.map FlakeTally.toRecord >>= fun sum => sum.combine profile t.toRecord) =
      (x >>= fun sum => sum.add profile t).map FlakeTally.toRecord := by
  cases x with
  | error message => rfl
  | ok sum => exact FlakeTally.combine_to_record sum t

theorem map_bind_combine_left (x : MayPanic FlakeTally) (t : FlakeTally) :
    (x.map FlakeTally.toRecord >>= fun sum => t.toRecord.combine profile sum) =
      (x >>= fun sum => t.add profile sum).map FlakeTally.toRecord := by
  cases x with
  | error message => rfl
  | ok sum => exact FlakeTally.combine_to_record t sum

/-- Grouping does not matter. -/
theorem combine_assoc {first second third : FlakeRecord} (hfirst : first.Reachable profile)
    (hsecond : second.Reachable profile) (hthird : third.Reachable profile) :
    (first.combine profile second >>= fun sum => sum.combine profile third) =
      (second.combine profile third >>= fun sum => first.combine profile sum) := by
  rw [← hfirst.to_record_tally, ← hsecond.to_record_tally, ← hthird.to_record_tally,
    FlakeTally.combine_to_record, FlakeTally.combine_to_record, map_bind_combine,
    map_bind_combine_left, FlakeTally.add_assoc]

/-- The default record changes nothing. -/
theorem combine_default {flake : FlakeRecord} (h : flake.Reachable profile) :
    flake.combine profile {} = .ok flake ∧
      ({} : FlakeRecord).combine profile flake = .ok flake := by
  rw [← h.to_record_tally, ← FlakeTally.to_record_zero, FlakeTally.combine_to_record,
    FlakeTally.combine_to_record, FlakeTally.add_zero, FlakeTally.zero_add]
  exact ⟨rfl, rfl⟩

/-- The order matters exactly when the last failures are tied and the sums fit. -/
theorem combine_comm_iff {flake other : FlakeRecord} (h : flake.Reachable profile)
    (hother : other.Reachable profile) :
    flake.combine profile other = other.combine profile flake ↔
      ¬SumFits profile flake other ∨ ¬flake.Tied other := by
  rw [← h.to_record_tally, ← hother.to_record_tally, FlakeTally.combine_to_record,
    FlakeTally.combine_to_record, Except.map_inj FlakeTally.to_record_injective, tied_iff]
  exact FlakeTally.add_comm_iff profile flake.tally other.tally

/-! ## Outcomes in any order -/

/-- Record outcomes in order. -/
def recordAll (profile : BuildProfile) (flake : FlakeRecord) (outcomes : List FlakeSample) :
    MayPanic FlakeRecord :=
  outcomes.foldlM (fun flake outcome => flake.record profile outcome.failed outcome.failureClass
    outcome.timestampMs) flake

/-- Outcomes in another order lead to the same record exactly when they cannot be counted or the
same failure is the last one. -/
theorem record_all_eq_iff {flake : FlakeRecord} (h : flake.Reachable profile)
    {outcomes other : List FlakeSample} (hperm : other.Perm outcomes) :
    flake.recordAll profile other = flake.recordAll profile outcomes ↔
      ¬FlakeTally.Fits profile (flake.runs.toNat + outcomes.length)
          (flake.failures.toNat + outcomes.countP FlakeSample.failed) ∨
        Latest.later LastFailure.time flake.lastFailure
            (Latest.latest LastFailure.time (other.filterMap FlakeSample.failureOf)) =
          Latest.later LastFailure.time flake.lastFailure
            (Latest.latest LastFailure.time (outcomes.filterMap FlakeSample.failureOf)) := by
  have hsum := FlakeTally.foldlM_add_eq_iff profile flake.tally
    (hperm.map FlakeTally.ofOutcome)
  rw [FlakeTally.runs_in_outcomes, FlakeTally.failures_in_outcomes,
    FlakeTally.last_of_outcomes, FlakeTally.last_of_outcomes,
    ← Except.map_inj FlakeTally.to_record_injective, ← FlakeTally.foldlM_record_to_record,
    ← FlakeTally.foldlM_record_to_record,
    h.to_record_tally] at hsum
  exact hsum

/-- Outcomes may be recorded in any order exactly when they cannot be counted or the latest
failures are of one class. -/
theorem record_all_perm_iff (profile : BuildProfile) (outcomes : List FlakeSample) :
    (∀ other : List FlakeSample, other.Perm outcomes →
      ({} : FlakeRecord).recordAll profile other = ({} : FlakeRecord).recordAll profile outcomes) ↔
      (profile.overflowChecks = true ∧ 2 ^ 64 ≤ outcomes.length) ∨
        LatestAgree (outcomes.filterMap FlakeSample.failureOf) := by
  have hfits : ¬FlakeTally.Fits profile outcomes.length (outcomes.countP FlakeSample.failed) ↔
      profile.overflowChecks = true ∧ 2 ^ 64 ≤ outcomes.length := by
    have hle : outcomes.countP FlakeSample.failed ≤ outcomes.length := List.countP_le_length
    unfold FlakeTally.Fits
    rw [Classical.not_imp]
    refine and_congr_right fun _ => ?_
    omega
  have heq : ∀ other : List FlakeSample, other.Perm outcomes →
      (({} : FlakeRecord).recordAll profile other = ({} : FlakeRecord).recordAll profile outcomes ↔
        (profile.overflowChecks = true ∧ 2 ^ 64 ≤ outcomes.length) ∨
          Latest.latest LastFailure.time (other.filterMap FlakeSample.failureOf) =
            Latest.latest LastFailure.time (outcomes.filterMap FlakeSample.failureOf)) := by
    intro other hperm
    have h := @record_all_eq_iff profile _ .default _ _ hperm
    have hlast : ({} : FlakeRecord).lastFailure = none := rfl
    rw [hlast, Latest.none_later, Latest.none_later] at h
    refine h.trans (or_congr_left ?_)
    show ¬FlakeTally.Fits profile (0 + _) (0 + _) ↔ _
    rw [Nat.zero_add, Nat.zero_add]
    exact hfits
  rw [latest_agree_iff, ← Latest.latest_perm_iff, forall₂_congr heq]
  simp only [forall_or_left]

end FlakeRecord

/-! ## Queries -/

namespace DurationDb

variable {profile : BuildProfile}

/-- A query of the environments in some order. -/
def getFlakeRecordIn (profile : BuildProfile) (db : DurationDb) (envs : List Environment)
    (key : UInt64) : MayPanic (Option FlakeRecord) := do
  let found := envs.filterMap fun e => (db.flake e).lookup key
  let combined ← found.foldlM (FlakeRecord.combine profile) {}
  pure (if found.isEmpty then none else some combined)

theorem get_flake_record_in (db : DurationDb) (env : Option Environment) (key : UInt64) :
    db.getFlakeRecordIn profile (environments env) key = db.getFlakeRecord profile env key := rfl

/-- What a query finds is combined from its first record on. -/
theorem foldlM_combine_found {flake : FlakeRecord} (h : flake.Reachable profile)
    (found : List FlakeRecord) :
    (flake :: found).foldlM (FlakeRecord.combine profile) {} =
      found.foldlM (FlakeRecord.combine profile) flake := by
  rw [List.foldlM_cons, (FlakeRecord.combine_default h).2]
  rfl

/-- The records of a store are reachable. -/
def FlakesReachable (profile : BuildProfile) (tables : Environment → Table UInt64 FlakeRecord) :
    Prop :=
  ∀ env key flake, (tables env).lookup key = some flake → flake.Reachable profile

theorem FlakesReachable.getD {tables : Environment → Table UInt64 FlakeRecord}
    (h : FlakesReachable profile tables) (env : Environment) (key : UInt64) :
    (((tables env).lookup key).getD {}).Reachable profile := by
  cases hlookup : (tables env).lookup key with
  | none => exact .default
  | some flake => exact h env key flake hlookup

/-- A query of one environment finds the record there. -/
theorem get_flake_record_one {db : DurationDb} (h : FlakesReachable profile db.flake)
    (env : Environment) (key : UInt64) :
    db.getFlakeRecord profile (some env) key = .ok ((db.flake env).lookup key) := by
  rw [← get_flake_record_in]
  unfold getFlakeRecordIn environments
  dsimp only
  cases hlookup : (db.flake env).lookup key with
  | none =>
      simp only [List.filterMap_cons, List.filterMap_nil, hlookup]
      rfl
  | some flake =>
      simp only [List.filterMap_cons, List.filterMap_nil, hlookup]
      rw [foldlM_combine_found (h env key flake hlookup)]
      rfl

/-- The last failures of the two environments have one timestamp and different classes. -/
def EnvironmentsTied (db : DurationDb) (key : UInt64) : Prop :=
  ∃ flakeLocal flakeRemote, (db.flake .local).lookup key = some flakeLocal ∧
    (db.flake .remote).lookup key = some flakeRemote ∧ flakeLocal.Tied flakeRemote

section TwoRecords

variable {db : DurationDb} {key : UInt64} {flakeLocal flakeRemote : FlakeRecord}

theorem environments_tied_iff (hlocal : (db.flake .local).lookup key = some flakeLocal)
    (hremote : (db.flake .remote).lookup key = some flakeRemote) :
    db.EnvironmentsTied key ↔ flakeLocal.Tied flakeRemote := by
  constructor
  · rintro ⟨a, b, ha, hb, htied⟩
    rw [hlocal] at ha
    rw [hremote] at hb
    cases ha
    cases hb
    exact htied
  · intro htied
    exact ⟨_, _, hlocal, hremote, htied⟩

theorem query_fits_iff (hlocal : (db.flake .local).lookup key = some flakeLocal)
    (hremote : (db.flake .remote).lookup key = some flakeRemote) :
    db.QueryFits none key ↔
      flakeLocal.runs.toNat + flakeRemote.runs.toNat < 2 ^ 64 ∧
        flakeLocal.failures.toNat + flakeRemote.failures.toNat < 2 ^ 64 := by
  simp only [QueryFits, environments, Environment.all, List.map_cons, List.map_nil,
    List.sum_cons, List.sum_nil, runsOf, failuresOf, hlocal, hremote, Option.getD_some,
    Nat.add_zero]

/-- The record of two environments that both have one. -/
theorem get_flake_record_pair {first second : Environment} {record other : FlakeRecord}
    (hrecord : record.Reachable profile) (hfirst : (db.flake first).lookup key = some record)
    (hsecond : (db.flake second).lookup key = some other) :
    db.getFlakeRecordIn profile [first, second] key =
      (record.combine profile other).map some := by
  unfold getFlakeRecordIn
  simp only [List.filterMap_cons, List.filterMap_nil, hfirst, hsecond, List.isEmpty_cons,
    Bool.false_eq_true, if_false]
  rw [foldlM_combine_found hrecord, List.foldlM_cons]
  cases record.combine profile other with
  | error message => rfl
  | ok combined => rfl

end TwoRecords

/-- The environments may be queried in any order exactly when their sum panics or their last
failures are not tied. -/
theorem query_perm_iff {db : DurationDb} (h : FlakesReachable profile db.flake) (key : UInt64) :
    (∀ envs : List Environment, envs.Perm Environment.all →
      db.getFlakeRecordIn profile envs key = db.getFlakeRecord profile none key) ↔
      (profile.overflowChecks = true ∧ ¬db.QueryFits none key) ∨ ¬db.EnvironmentsTied key := by
  have hswap : (∀ envs : List Environment, envs.Perm Environment.all →
      db.getFlakeRecordIn profile envs key = db.getFlakeRecord profile none key) ↔
      db.getFlakeRecordIn profile [.remote, .local] key =
        db.getFlakeRecordIn profile [.local, .remote] key := by
    refine ⟨fun hall => hall [.remote, .local] (List.Perm.swap _ _ _), fun heq envs hperm => ?_⟩
    rcases List.perm_pair.mp hperm with rfl | rfl
    · rfl
    · exact heq
  rw [hswap]
  cases hlocal : (db.flake .local).lookup key with
  | none =>
      refine iff_of_true ?_ (.inr fun ⟨_, _, hfound, _⟩ => ?_)
      · unfold getFlakeRecordIn
        simp only [List.filterMap_cons, List.filterMap_nil, hlocal]
      · rw [hlocal] at hfound
        cases hfound
  | some flakeLocal =>
      cases hremote : (db.flake .remote).lookup key with
      | none =>
          refine iff_of_true ?_ (.inr fun ⟨_, _, _, hfound, _⟩ => ?_)
          · unfold getFlakeRecordIn
            simp only [List.filterMap_cons, List.filterMap_nil, hremote]
          · rw [hremote] at hfound
            cases hfound
      | some flakeRemote =>
          have hlocalReach := h _ _ _ hlocal
          have hremoteReach := h _ _ _ hremote
          have hfits : ¬FlakeRecord.SumFits profile flakeLocal flakeRemote ↔
              profile.overflowChecks = true ∧ ¬db.QueryFits none key := by
            rw [query_fits_iff hlocal hremote]
            exact Classical.not_imp
          rw [environments_tied_iff hlocal hremote, ← hfits,
            ← FlakeRecord.combine_comm_iff hlocalReach hremoteReach,
            get_flake_record_pair hremoteReach hremote hlocal,
            get_flake_record_pair hlocalReach hlocal hremote,
            Except.map_inj (Option.some_injective _)]
          exact eq_comm

end DurationDb

/-! ## Stores -/

/-- The record of a key after some outcomes. -/
def flakeAfter (old : Option FlakeRecord) (outcomes : List FlakeSample) : Option FlakeRecord :=
  if outcomes.isEmpty then old
  else some ((old.getD {}).tally.after outcomes).toRecord

/-- Outcomes in another order lead to one record exactly when the same failure is the last one. -/
theorem flake_after_eq_iff (old : Option FlakeRecord) {outcomes other : List FlakeSample}
    (h : other.Perm outcomes) :
    flakeAfter old other = flakeAfter old outcomes ↔
      Latest.later LastFailure.time (old.getD {}).lastFailure
          (Latest.latest LastFailure.time (other.filterMap FlakeSample.failureOf)) =
        Latest.later LastFailure.time (old.getD {}).lastFailure
          (Latest.latest LastFailure.time (outcomes.filterMap FlakeSample.failureOf)) := by
  cases outcomes with
  | nil =>
      rw [h.eq_nil]
      exact iff_of_true rfl rfl
  | cons first rest =>
      have hsome : ∀ l : List FlakeSample, l.Perm (first :: rest) →
          flakeAfter old l = some ((old.getD {}).tally.after l).toRecord := by
        intro l hl
        have hne : ¬l.isEmpty = true := by
          rw [hl.isEmpty_eq]
          exact Bool.false_ne_true
        exact if_neg hne
      rw [hsome other h, hsome _ (List.Perm.refl _), Option.some.injEq,
        FlakeTally.to_record_injective.eq_iff, FlakeTally.after, FlakeTally.after,
        FlakeTally.ofOutcomes, FlakeTally.ofOutcomes, FlakeTally.mk.injEq, h.length_eq,
        h.countP_eq]
      simp only [true_and]
      exact Iff.rfl

section Recordings

variable [HashKey] {profile : BuildProfile}

/-- The record of a key in a store that remembers. -/
theorem DurationDb.Remembers.lookup_flake {db : DurationDb} {ops : List DbOp}
    (h : db.Remembers ops) (env : Environment) (key : UInt64) :
    (db.flake env).lookup key = flakeAfter none (ops.filterMap (DbOp.outcomeOf env key)) := by
  have hcounts := FlakeTally.counts_iff.mp (h.outcomes env key)
  have htested := h.tested env key
  unfold flakeAfter
  cases hlookup : (db.flake env).lookup key with
  | none =>
      rw [hlookup] at htested
      have hnil : ops.filterMap (DbOp.outcomeOf env key) = [] := by
        by_contra hne
        exact Bool.false_ne_true (htested.mpr hne)
      rw [hnil]
      rfl
  | some flake =>
      rw [hlookup] at htested hcounts
      rw [if_neg (mt List.isEmpty_iff.mp (htested.mp rfl))]
      refine congrArg some (hcounts.trans (congrArg FlakeTally.toRecord ?_))
      exact (FlakeTally.zero_after _).symm

namespace Recording

/-- What a query of the store of a recording returns. -/
def flakeRecord (profile : BuildProfile) (recording : Recording) (env : Option Environment)
    (key : UInt64) : MayPanic (Option FlakeRecord) := do
  let db ← recording.store profile
  db.getFlakeRecord profile env key

theorem flakes_reachable {recording : Recording} {db : DurationDb}
    (h : recording.store profile = .ok db) : DurationDb.FlakesReachable profile db.flake := by
  induction recording generalizing db with
  | empty =>
      cases Except.ok.inj h
      exact fun _ _ _ hlookup => nomatch hlookup
  | perform recording op ih =>
      obtain ⟨before, hbefore, hperform⟩ := Except.bind_eq_ok.mp h
      intro env key flake hlookup
      have hflake := DurationDb.flake_of_perform hperform env key
      cases houtcome : op.outcomeOf env key with
      | none =>
          rw [houtcome] at hflake
          exact ih hbefore env key flake (hflake ▸ hlookup)
      | some outcome =>
          rw [houtcome] at hflake
          obtain ⟨counted, hcounted, hfound⟩ := hflake
          rw [hfound] at hlookup
          cases hlookup
          exact .record ((ih hbefore).getD env key) hcounted
  | combine recording other ih ihOther =>
      obtain ⟨first, hfirst, h⟩ := Except.bind_eq_ok.mp h
      obtain ⟨second, hsecond, hcombine⟩ := Except.bind_eq_ok.mp h
      intro env key flake hlookup
      obtain ⟨hsome, hnone⟩ :=
        DurationDb.lookup_combine_flake ((DurationDb.combine_eq_ok hcombine).2.1 env) key
      cases hother : (second.flake env).lookup key with
      | none => exact ih hfirst env key flake (hnone hother ▸ hlookup)
      | some added =>
          obtain ⟨sum, hsum, hfound⟩ := hsome added hother
          rw [hfound] at hlookup
          cases hlookup
          exact .combine ((ih hfirst).getD env key) (ihOther hsecond env key added hother) hsum

/-- A query depends on the operations, not on how the stores were grouped. -/
theorem flake_record_of_ops {recording other : Recording} (h : recording.ops = other.ops)
    (env : Option Environment) (key : UInt64) :
    recording.flakeRecord profile env key = other.flakeRecord profile env key := by
  have hok := store_ok_iff profile recording
  have hokOther := store_ok_iff profile other
  rw [← h] at hokOther
  unfold flakeRecord
  cases hstore : recording.store profile with
  | error message =>
      rw [hstore] at hok
      cases hother : other.store profile with
      | error message' =>
          rw [hother] at hokOther
          rw [hok.2, hokOther.2]
      | ok otherDb =>
          rw [hother] at hokOther
          exact absurd hokOther hok.1
  | ok db =>
      obtain ⟨otherDb, hother⟩ := hokOther.exists_ok.mpr (hok.of_eq_ok hstore)
      have hlookup : ∀ e, (db.flake e).lookup key = (otherDb.flake e).lookup key := by
        intro e
        rw [(remembers hstore).lookup_flake, (remembers hother).lookup_flake, h]
      rw [hother]
      show db.getFlakeRecord profile env key = otherDb.getFlakeRecord profile env key
      unfold DurationDb.getFlakeRecord
      simp only [hlookup]

/-- What a query of one environment returns, unless the recording panics. -/
theorem flake_record_one {recording : Recording} {env : Environment} {key : UInt64}
    {found : Option FlakeRecord} (h : recording.flakeRecord profile (some env) key = .ok found) :
    found = flakeAfter none (recording.ops.filterMap (DbOp.outcomeOf env key)) := by
  obtain ⟨db, hdb, h⟩ := Except.bind_eq_ok.mp h
  rw [DurationDb.get_flake_record_one (flakes_reachable hdb), (remembers hdb).lookup_flake] at h
  exact (Except.ok.inj h).symm

theorem flake_record_ok_iff (profile : BuildProfile) (recording : Recording) (env : Environment)
    (key : UInt64) :
    FitsIff (profile.overflowChecks = true → Countable recording.ops)
      (recording.flakeRecord profile (some env) key) :=
  (store_ok_iff profile recording).then_pure fun _ hdb =>
    ⟨_, DurationDb.get_flake_record_one (flakes_reachable hdb) env key⟩

/-- The operations may come in any order exactly when some test has too many runs to be counted
or the latest failures of the key are of one class. -/
theorem flake_record_perm_iff (profile : BuildProfile) (recording : Recording)
    (env : Environment) (key : UInt64) :
    (∀ other : Recording, other.ops.Perm recording.ops →
      other.flakeRecord profile (some env) key = recording.flakeRecord profile (some env) key) ↔
      (profile.overflowChecks = true ∧ ¬Countable recording.ops) ∨
        LatestAgree ((recording.ops.filterMap (DbOp.outcomeOf env key)).filterMap
          FlakeSample.failureOf) := by
  have heq : ∀ other : Recording, other.ops.Perm recording.ops →
      (other.flakeRecord profile (some env) key = recording.flakeRecord profile (some env) key ↔
        (profile.overflowChecks = true ∧ ¬Countable recording.ops) ∨
          Latest.latest LastFailure.time
              (other.ops.filterMap fun op => (op.outcomeOf env key).bind FlakeSample.failureOf) =
            Latest.latest LastFailure.time (recording.ops.filterMap fun op =>
              (op.outcomeOf env key).bind FlakeSample.failureOf)) := by
    intro other hperm
    have hcount : Countable other.ops ↔ Countable recording.ops := by
      refine forall₂_congr fun e k => ?_
      rw [(hperm.filterMap _).length_eq]
    have hother := flake_record_ok_iff profile other env key
    rw [hcount] at hother
    rw [hother.eq_iff (flake_record_ok_iff profile recording env key)
      (fun _ h => flake_record_one h) (fun _ h => flake_record_one h), Classical.not_imp,
      flake_after_eq_iff none (hperm.filterMap _), List.filterMap_filterMap,
      List.filterMap_filterMap]
    show _ ∨ Latest.later _ none _ = Latest.later _ none _ ↔ _
    rw [Latest.none_later, Latest.none_later]
  rw [List.filterMap_filterMap, latest_agree_iff, ← Latest.latest_perm_iff, forall₂_congr heq]
  simp only [forall_or_left]
  refine or_congr_right ⟨fun hall l hl => ?_, fun hall other hperm => hall other.ops hperm⟩
  have hof := hall (ofOps l)
  rw [ops_of_ops] at hof
  exact hof hl

end Recording

end Recordings

/-! ## Logs of parallel runs -/

section Logs

variable {profile : BuildProfile}

/-- What is found at a key when runs have appended their records to the log, one run after
another. -/
def flakeAfterRuns (profile : BuildProfile) (base : Environment → Table UInt64 FlakeRecord)
    (runs : List (List FlakeSample)) (env : Environment) (key : UInt64) :
    MayPanic (Option FlakeRecord) :=
  (runs.flatten.foldlM (DbSection.record profile .flake) base).map fun tables =>
    (tables env).lookup key

/-- The last failure of a key in the records of one run. -/
def runFailure (env : Environment) (key : UInt64) (run : List FlakeSample) : Option LastFailure :=
  Latest.latest LastFailure.time ((recordsOf env key run).filterMap FlakeSample.failureOf)

theorem latest_run_failures (env : Environment) (key : UInt64) (runs : List (List FlakeSample)) :
    Latest.latest LastFailure.time (runs.filterMap (runFailure env key)) =
      Latest.latest LastFailure.time
        ((recordsOf env key runs.flatten).filterMap FlakeSample.failureOf) := by
  rw [recordsOf, List.filter_flatten, List.filterMap_flatten, List.map_map,
    ← List.flatMap_def]
  exact Latest.latest_filterMap_latest LastFailure.time
    (fun run => (recordsOf env key run).filterMap FlakeSample.failureOf) runs

/-- Applying a log panics exactly when the build checks and some counters do not fit. -/
theorem records_ok_iff (profile : BuildProfile)
    (base : Environment → Table UInt64 FlakeRecord) (log : List FlakeSample) :
    FitsIff (profile.overflowChecks = true → CountersFit base log)
      (log.foldlM (DbSection.record profile .flake) base) := by
  cases hchecks : profile.overflowChecks with
  | true =>
      have hprofile : profile = .checked := congrArg BuildProfile.mk hchecks
      rw [hprofile]
      exact (records_fits_iff base log).congr ⟨fun h _ => h, fun h => h rfl⟩
  | false =>
      have honly : OverflowOnly profile (log.foldlM (DbSection.record profile .flake) base) := by
        refine Except.FailsOnly.foldlM (fun tables sample => ?_) base log
        exact (FlakeRecord.overflow_only_record _ _ _ _).bind fun _ _ => Except.fails_only_ok _
      cases hlog : log.foldlM (DbSection.record profile .flake) base with
      | ok tables => exact nofun
      | error message =>
          rw [(honly message hlog).1] at hchecks
          cases hchecks

/-- Records of one key, applied to the value there. -/
theorem replay_at_some (flake : FlakeRecord) (records : List FlakeSample) :
    (DbSection.update profile .flake).replayAt (some flake) records =
      (flake.recordAll profile records).map some := by
  induction records generalizing flake with
  | nil => rfl
  | cons record records ih =>
      rw [KeyedUpdate.replayAt, List.foldlM_cons, FlakeRecord.recordAll, List.foldlM_cons]
      show ((flake.record profile record.failed record.failureClass record.timestampMs).map some >>=
        _) = _
      cases flake.record profile record.failed record.failureClass record.timestampMs with
      | error message => rfl
      | ok next => exact ih next

/-- What a log makes of the record of a key. -/
theorem lookup_after_records {base tables : Environment → Table UInt64 FlakeRecord}
    (hbase : DurationDb.FlakesReachable profile base) {log : List FlakeSample}
    (h : log.foldlM (DbSection.record profile .flake) base = .ok tables) (env : Environment)
    (key : UInt64) :
    (tables env).lookup key = flakeAfter ((base env).lookup key) (recordsOf env key log) := by
  have hreplay := DbSection.find_records profile .flake base log
  rw [h] at hreplay
  have hat := (DbSection.update profile .flake).replay_at hreplay.symm (env, key)
  have hrecords : (log.filter fun record =>
      (DbSection.update profile .flake).key record = (env, key)) = recordsOf env key log := by
    refine List.filter_congr fun sample _ => ?_
    show decide ((sample.env, sample.key) = (env, key)) = _
    simp only [Prod.mk.injEq]
  rw [hrecords] at hat
  change (DbSection.update profile .flake).replayAt ((base env).lookup key) _ =
    Except.ok ((tables env).lookup key) at hat
  unfold flakeAfter
  cases hrecs : recordsOf env key log with
  | nil =>
      rw [hrecs] at hat
      exact (Except.ok.inj hat).symm
  | cons first rest =>
      rw [hrecs] at hat
      -- The first record of a new key is counted by a default record.
      have hsome : (DbSection.update profile .flake).replayAt ((base env).lookup key)
          (first :: rest) = (DbSection.update profile .flake).replayAt
            (some (((base env).lookup key).getD {})) (first :: rest) := rfl
      rw [hsome, replay_at_some] at hat
      obtain ⟨flake, hflake, hlookup⟩ := Except.map_eq_ok.mp hat
      have hreach := hbase.getD env key
      rw [← hreach.to_record_tally, FlakeRecord.recordAll,
        FlakeTally.foldlM_record_to_record] at hflake
      obtain ⟨sum, hsum, rfl⟩ := Except.map_eq_ok.mp hflake
      rw [← hlookup, FlakeTally.foldlM_outcomes_eq_ok hsum]
      rfl

theorem counters_fit_perm {base : Environment → Table UInt64 FlakeRecord}
    {log other : List FlakeSample} (h : other.Perm log) :
    CountersFit base other ↔ CountersFit base log := by
  refine forall₂_congr fun env key => ?_
  have hrecords : (recordsOf env key other).Perm (recordsOf env key log) := h.filter _
  rw [hrecords.length_eq, hrecords.countP_eq]

/-- Runs may append their records in any order exactly when some counters do not fit, the store
has a failure that is later than all of theirs, or the latest of their last failures are of one
class. -/
theorem flake_after_runs_perm_iff {base : Environment → Table UInt64 FlakeRecord}
    (hbase : DurationDb.FlakesReachable profile base) (runs : List (List FlakeSample))
    (env : Environment) (key : UInt64) :
    (∀ order : List (List FlakeSample), order.Perm runs →
      flakeAfterRuns profile base order env key = flakeAfterRuns profile base runs env key) ↔
      (profile.overflowChecks = true ∧ ¬CountersFit base runs.flatten) ∨
        (∃ last, (((base env).lookup key).getD {}).lastFailure = some last ∧
          ∀ failure ∈ runs.filterMap (runFailure env key),
            failure.timestampMs < last.timestampMs) ∨
        LatestAgree (runs.filterMap (runFailure env key)) := by
  have hvalue : ∀ (order : List (List FlakeSample)) (found : Option FlakeRecord),
      flakeAfterRuns profile base order env key = .ok found →
        found = flakeAfter ((base env).lookup key) (recordsOf env key order.flatten) := by
    intro order found hfound
    obtain ⟨tables, htables, hlookup⟩ := Except.map_eq_ok.mp hfound
    rw [← hlookup, lookup_after_records hbase htables]
  have heq : ∀ order : List (List FlakeSample), order.Perm runs →
      (flakeAfterRuns profile base order env key = flakeAfterRuns profile base runs env key ↔
        (profile.overflowChecks = true ∧ ¬CountersFit base runs.flatten) ∨
          Latest.later LastFailure.time (((base env).lookup key).getD {}).lastFailure
              (Latest.latest LastFailure.time (order.filterMap (runFailure env key))) =
            Latest.later LastFailure.time (((base env).lookup key).getD {}).lastFailure
              (Latest.latest LastFailure.time (runs.filterMap (runFailure env key)))) := by
    intro order hperm
    have hok := (records_ok_iff profile base order.flatten).map
      fun tables => (tables env).lookup key
    rw [counters_fit_perm hperm.flatten] at hok
    have hrecords : (recordsOf env key order.flatten).Perm (recordsOf env key runs.flatten) :=
      hperm.flatten.filter _
    rw [latest_run_failures, latest_run_failures, ← flake_after_eq_iff _ hrecords,
      ← Classical.not_imp]
    exact hok.eq_iff ((records_ok_iff profile base runs.flatten).map _)
      (hvalue order) (hvalue runs)
  rw [latest_agree_iff, forall₂_congr heq]
  simp only [forall_or_left]
  rw [Latest.later_latest_perm_iff]
  rfl

end Logs

/-! ## Main result -/

/-- Merging flake records is a monoid, and a commutative one exactly where the latest failures are
of one class. -/
theorem flake_merge_iff [HashKey] (profile : BuildProfile) :
    (∀ first second third : FlakeRecord, first.Reachable profile → second.Reachable profile →
      third.Reachable profile →
      (first.combine profile second >>= fun sum => sum.combine profile third) =
          (second.combine profile third >>= fun sum => first.combine profile sum) ∧
        first.combine profile {} = .ok first ∧
        ({} : FlakeRecord).combine profile first = .ok first) ∧
    (∀ flake other : FlakeRecord, flake.Reachable profile → other.Reachable profile →
      (flake.combine profile other = other.combine profile flake ↔
        ¬FlakeRecord.SumFits profile flake other ∨ ¬flake.Tied other)) ∧
    (∀ outcomes : List FlakeSample,
      (∀ order : List FlakeSample, order.Perm outcomes →
        ({} : FlakeRecord).recordAll profile order =
          ({} : FlakeRecord).recordAll profile outcomes) ↔
        (profile.overflowChecks = true ∧ 2 ^ 64 ≤ outcomes.length) ∨
          LatestAgree (outcomes.filterMap FlakeSample.failureOf)) ∧
    (∀ (recording : Recording) (env : Option Environment) (key : UInt64),
      (∀ other : Recording, other.ops = recording.ops →
        other.flakeRecord profile env key = recording.flakeRecord profile env key)) ∧
    (∀ (recording : Recording) (env : Environment) (key : UInt64),
      (∀ other : Recording, other.ops.Perm recording.ops →
        other.flakeRecord profile (some env) key =
          recording.flakeRecord profile (some env) key) ↔
        (profile.overflowChecks = true ∧ ¬Recording.Countable recording.ops) ∨
          LatestAgree ((recording.ops.filterMap (DbOp.outcomeOf env key)).filterMap
            FlakeSample.failureOf)) ∧
    (∀ (recording : Recording) (db : DurationDb), recording.store profile = .ok db →
      ∀ key : UInt64,
        (∀ envs : List Environment, envs.Perm Environment.all →
          db.getFlakeRecordIn profile envs key = db.getFlakeRecord profile none key) ↔
          (profile.overflowChecks = true ∧ ¬db.QueryFits none key) ∨ ¬db.EnvironmentsTied key) ∧
    ∀ base : Environment → Table UInt64 FlakeRecord, DurationDb.FlakesReachable profile base →
      ∀ (runs : List (List FlakeSample)) (env : Environment) (key : UInt64),
        (∀ order : List (List FlakeSample), order.Perm runs →
          flakeAfterRuns profile base order env key = flakeAfterRuns profile base runs env key) ↔
          (profile.overflowChecks = true ∧ ¬CountersFit base runs.flatten) ∨
            (∃ last, (((base env).lookup key).getD {}).lastFailure = some last ∧
              ∀ failure ∈ runs.filterMap (runFailure env key),
                failure.timestampMs < last.timestampMs) ∨
            LatestAgree (runs.filterMap (runFailure env key)) := by
  refine ⟨fun first second third hfirst hsecond hthird =>
      ⟨FlakeRecord.combine_assoc hfirst hsecond hthird, FlakeRecord.combine_default hfirst⟩,
    fun flake other h hother => FlakeRecord.combine_comm_iff h hother,
    FlakeRecord.record_all_perm_iff profile,
    fun recording env key other hops => Recording.flake_record_of_ops hops env key,
    Recording.flake_record_perm_iff profile, fun recording db hdb key => ?_,
    fun base hbase runs env key => flake_after_runs_perm_iff hbase runs env key⟩
  exact DurationDb.query_perm_iff (Recording.flakes_reachable hdb) key

/-- Two failures of one millisecond and of different classes: what is recorded last, added last,
or appended last is the last failure. -/
theorem order_of_tied_failures :
    ({} : FlakeRecord).recordAll ⟨true⟩
        [⟨.local, 1, true, some .fail, 5⟩, ⟨.local, 1, true, some .fatal, 5⟩] =
      .ok ⟨2, 2, some 5, some .fatal⟩ ∧
    ({} : FlakeRecord).recordAll ⟨true⟩
        [⟨.local, 1, true, some .fatal, 5⟩, ⟨.local, 1, true, some .fail, 5⟩] =
      .ok ⟨2, 2, some 5, some .fail⟩ ∧
    (FlakeRecord.mk 1 1 (some 5) (some .fail)).combine ⟨true⟩ ⟨1, 1, some 5, some .fatal⟩ ≠
      (FlakeRecord.mk 1 1 (some 5) (some .fatal)).combine ⟨true⟩ ⟨1, 1, some 5, some .fail⟩ := by
  decide

end Quokka
