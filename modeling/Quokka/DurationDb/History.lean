import Quokka.DurationDb.Operations
import Quokka.Library.SortedTake
import Mathlib.Data.List.MinMax

/-!
# What the store in memory remembers

The contents of a store in memory as a function of the operations that were performed on it:
for every environment and key the most recent samples of the successful runs, the number of runs
and of failures with the latest failure, and for every key the name that came first.

`Remembers` is this relation and `Remembers.perform` its step. Counters are 64-bit numbers, so
that they are the numbers of runs and failures as long as these fit (`Counts.exact`).
-/

namespace Quokka

/-! ## Samples -/

instance : Std.Total DurationSample.descending where
  total a b := by
    simp only [DurationSample.descending, UInt64.lt_iff_toNat_lt, UInt64.le_iff_toNat_le,
      ← UInt64.toNat_inj]
    omega

instance : IsTrans DurationSample DurationSample.descending where
  trans a b c := by
    simp only [DurationSample.descending, UInt64.lt_iff_toNat_lt, UInt64.le_iff_toNat_le,
      ← UInt64.toNat_inj]
    omega

instance : Std.Antisymm DurationSample.descending where
  antisymm a b := by
    obtain ⟨aTimestamp, aDuration⟩ := a
    obtain ⟨bTimestamp, bDuration⟩ := b
    simp only [DurationSample.descending, UInt64.lt_iff_toNat_lt, UInt64.le_iff_toNat_le,
      ← UInt64.toNat_inj, DurationSample.mk.injEq]
    omega

/-- A sample that was cut off before does not matter when another one is added. -/
theorem sort_and_truncate_concat (samples : List DurationSample) (sample : DurationSample) :
    sortAndTruncate (sortAndTruncate samples ++ [sample]) =
      sortAndTruncate (samples ++ [sample]) :=
  List.take_insertionSort_concat _ samples sample maxSamples

theorem sort_and_truncate_ne_nil {samples : List DurationSample} (h : samples ≠ []) :
    sortAndTruncate samples ≠ [] := by
  intro hnone
  rcases List.take_eq_nil_iff.mp hnone with hzero | hempty
  · cases hzero
  · rw [← List.length_eq_zero_iff, List.length_insertionSort] at hempty
    exact h (List.length_eq_zero_iff.mp hempty)

/-- What is kept of the samples of a key; a key without samples is not in the store. -/
def PerfRecord.ofSamples (samples : List DurationSample) : Option PerfRecord :=
  if samples.isEmpty then none else some ⟨sortAndTruncate samples⟩

theorem PerfRecord.of_samples_concat (samples : List DurationSample) (sample : DurationSample) :
    PerfRecord.ofSamples (samples ++ [sample]) =
      some (((PerfRecord.ofSamples samples).getD {}).record sample.timestampMs
        sample.durationMs) := by
  have hsome : PerfRecord.ofSamples (samples ++ [sample]) =
      some ⟨sortAndTruncate (samples ++ [sample])⟩ := by
    simp [PerfRecord.ofSamples]
  rw [hsome]
  cases samples with
  | nil => rfl
  | cons first rest =>
      show some (PerfRecord.mk (sortAndTruncate (first :: rest ++ [sample]))) =
        some ⟨sortAndTruncate (sortAndTruncate (first :: rest) ++ [sample])⟩
      rw [sort_and_truncate_concat]

/-! ## Outcomes -/

/-- The latest failure; of several with one timestamp, the one recorded last. -/
def latestFailure (outcomes : List FlakeSample) : Option FlakeSample :=
  (outcomes.filter FlakeSample.failed).reverse.argmax fun outcome => outcome.timestampMs.toNat

/-- The counters of a key after some outcomes. -/
structure FlakeRecord.Counts (flake : FlakeRecord) (outcomes : List FlakeSample) : Prop where
  runs_eq : flake.runs = UInt64.ofNat outcomes.length
  failures_eq : flake.failures = UInt64.ofNat (outcomes.countP FlakeSample.failed)
  timestamp_eq : flake.lastFailureTimestampMs =
    (latestFailure outcomes).map FlakeSample.timestampMs
  class_eq : flake.lastFailureClass = (latestFailure outcomes).bind FlakeSample.failureClass

namespace FlakeRecord

theorem counts_nil : ({} : FlakeRecord).Counts [] where
  runs_eq := rfl
  failures_eq := rfl
  timestamp_eq := rfl
  class_eq := rfl

/-- An addition that does not panic is an addition of 64-bit numbers. -/
theorem add_u64_eq_ok {profile : BuildProfile} {a b c : UInt64}
    (h : profile.addU64 a b = .ok c) : c = a + b := by
  unfold BuildProfile.addU64 at h
  split at h
  · cases h
  · exact (Except.ok.inj h).symm

theorem latest_failure_concat_of_passed (outcomes : List FlakeSample) {outcome : FlakeSample}
    (h : outcome.failed = false) : latestFailure (outcomes ++ [outcome]) =
      latestFailure outcomes := by
  simp [latestFailure, h]

/-- A failure becomes the latest one unless an earlier record has a later timestamp. -/
theorem latest_failure_concat_of_failed (outcomes : List FlakeSample) {outcome : FlakeSample}
    (h : outcome.failed = true) : latestFailure (outcomes ++ [outcome]) =
      if ((latestFailure outcomes).map FlakeSample.timestampMs).getD 0 ≤ outcome.timestampMs then
        some outcome
      else latestFailure outcomes := by
  have hconcat : ((outcomes ++ [outcome]).filter FlakeSample.failed).reverse =
      outcome :: (outcomes.filter FlakeSample.failed).reverse := by
    simp [h]
  unfold latestFailure
  rw [hconcat, List.argmax_cons]
  cases (outcomes.filter FlakeSample.failed).reverse.argmax
      fun outcome => outcome.timestampMs.toNat with
  | none =>
      rw [if_pos]
      exact UInt64.le_iff_toNat_le.mpr (Nat.zero_le _)
  | some latest =>
      show (if outcome.timestampMs.toNat < latest.timestampMs.toNat then some latest
        else some outcome) =
          if latest.timestampMs ≤ outcome.timestampMs then some outcome else some latest
      by_cases hlater : latest.timestampMs.toNat ≤ outcome.timestampMs.toNat
      · rw [if_neg (Nat.not_lt.mpr hlater), if_pos (UInt64.le_iff_toNat_le.mpr hlater)]
      · rw [if_pos (Nat.lt_of_not_le hlater),
          if_neg fun hle => hlater (UInt64.le_iff_toNat_le.mp hle)]

/-- Counting one more outcome. -/
theorem Counts.record {profile : BuildProfile} {flake next : FlakeRecord}
    {outcomes : List FlakeSample} {outcome : FlakeSample} (h : flake.Counts outcomes)
    (hnext : flake.record profile outcome.failed outcome.failureClass outcome.timestampMs =
      .ok next) :
    next.Counts (outcomes ++ [outcome]) := by
  obtain ⟨runs, hruns, hcases⟩ := record_eq_ok hnext
  have hrunsEq : runs = UInt64.ofNat (outcomes ++ [outcome]).length := by
    rw [add_u64_eq_ok hruns, h.runs_eq, List.length_append, UInt64.ofNat_add]
    rfl
  obtain ⟨hpassed, rfl⟩ | ⟨hfailed, failures, hfailures, rfl⟩ := hcases
  · have hlatest := latest_failure_concat_of_passed outcomes hpassed
    refine ⟨hrunsEq, ?_, ?_, ?_⟩
    · show flake.failures = _
      rw [h.failures_eq, List.countP_append, List.countP_singleton, hpassed]
      simp
    · rw [hlatest]; exact h.timestamp_eq
    · rw [hlatest]; exact h.class_eq
  · have hfailuresEq : failures =
        UInt64.ofNat ((outcomes ++ [outcome]).countP FlakeSample.failed) := by
      rw [add_u64_eq_ok hfailures, h.failures_eq, List.countP_append, List.countP_singleton,
        hfailed, UInt64.ofNat_add]
      rfl
    have hlatest := latest_failure_concat_of_failed outcomes hfailed
    rw [← h.timestamp_eq] at hlatest
    split
    case isTrue hlater =>
      rw [if_pos hlater] at hlatest
      exact ⟨hrunsEq, hfailuresEq, by rw [hlatest]; rfl, by rw [hlatest]; rfl⟩
    case isFalse hearlier =>
      rw [if_neg hearlier] at hlatest
      exact ⟨hrunsEq, hfailuresEq, by rw [hlatest]; exact h.timestamp_eq,
        by rw [hlatest]; exact h.class_eq⟩

/-- Counting an outcome panics only where a counter overflows. -/
theorem exists_record {profile : BuildProfile} {flake : FlakeRecord} {runs failures : UInt64}
    (hruns : profile.addU64 flake.runs 1 = .ok runs)
    (hfailures : profile.addU64 flake.failures 1 = .ok failures) (failed : Bool)
    (failureClass : Option FailureClass) (timestampMs : UInt64) :
    ∃ next, flake.record profile failed failureClass timestampMs = .ok next := by
  unfold FlakeRecord.record
  rw [hruns]
  cases failed with
  | false => exact ⟨_, rfl⟩
  | true =>
      rw [hfailures]
      show ∃ next, (ite _ (.ok _) (.ok _) : MayPanic FlakeRecord) = .ok next
      split <;> exact ⟨_, rfl⟩

/-- Counting one more outcome does not panic as long as the counters fit. -/
theorem Counts.exists_record {flake : FlakeRecord} {outcomes : List FlakeSample}
    (h : flake.Counts outcomes) (profile : BuildProfile)
    (hlength : outcomes.length + 1 < 2 ^ 64) (outcome : FlakeSample) :
    ∃ next, flake.record profile outcome.failed outcome.failureClass outcome.timestampMs =
      .ok next := by
  have hfailures : outcomes.countP FlakeSample.failed ≤ outcomes.length := List.countP_le_length
  have hadd : ∀ {count : UInt64} {n : Nat}, count = UInt64.ofNat n → n + 1 < UInt64.size →
      profile.addU64 count 1 = .ok (count + 1) := by
    intro count n hcount hn
    refine profile.add_u64_of_lt ?_
    rw [hcount, UInt64.toNat_ofNat_of_lt' (Nat.lt_of_succ_lt hn)]
    exact hn
  exact FlakeRecord.exists_record (hadd h.runs_eq hlength)
    (hadd h.failures_eq (Nat.lt_of_le_of_lt (Nat.succ_le_succ hfailures) hlength)) _ _ _

/-- As long as the counters fit they are the numbers of runs and failures, and a key has a latest
failure if and only if it has failures. -/
theorem Counts.exact {flake : FlakeRecord} {outcomes : List FlakeSample}
    (h : flake.Counts outcomes) (hlength : outcomes.length < 2 ^ 64) :
    flake.runs.toNat = outcomes.length ∧
      flake.failures.toNat = outcomes.countP FlakeSample.failed ∧
      flake.failures ≤ flake.runs ∧
      (flake.lastFailureTimestampMs.isSome ↔ 0 < flake.failures) := by
  have hle : outcomes.countP FlakeSample.failed ≤ outcomes.length := List.countP_le_length
  have hruns : flake.runs.toNat = outcomes.length := by
    rw [h.runs_eq, UInt64.toNat_ofNat_of_lt' hlength]
  have hfailures : flake.failures.toNat = outcomes.countP FlakeSample.failed := by
    rw [h.failures_eq, UInt64.toNat_ofNat_of_lt' (Nat.lt_of_le_of_lt hle hlength)]
  refine ⟨hruns, hfailures, ?_, ?_⟩
  · rw [UInt64.le_iff_toNat_le, hruns, hfailures]
    exact hle
  · rw [h.timestamp_eq, Option.isSome_map, UInt64.lt_iff_toNat_lt, hfailures,
      Option.isSome_iff_ne_none, ne_eq, latestFailure, List.argmax_eq_none,
      List.reverse_eq_nil_iff, List.countP_eq_length_filter, ← List.length_eq_zero_iff]
    exact Nat.pos_iff_ne_zero.symm

end FlakeRecord

/-! ## Operations -/

section Operations

variable [HashKey]

/-- The sample that an operation adds to a key. -/
def DbOp.sampleOf (env : Environment) (key : UInt64) : DbOp → Option DurationSample
  | .recordAt opEnv testId duration failed _ timestampMs =>
      if failed = false ∧ (opEnv, HashKey.hashKey testId) = (env, key) then
        some ⟨timestampMs, UInt64.ofNat duration.asMillis⟩
      else none
  | .recordDiscoveredName _ => none

/-- The outcome that an operation adds to a key. -/
def DbOp.outcomeOf (env : Environment) (key : UInt64) : DbOp → Option FlakeSample
  | .recordAt opEnv testId _ failed failureClass timestampMs =>
      if (opEnv, HashKey.hashKey testId) = (env, key) then
        some ⟨opEnv, HashKey.hashKey testId, failed, failureClass, timestampMs⟩
      else none
  | .recordDiscoveredName _ => none

theorem DbOp.outcome_of_self (env : Environment) (testId : TestIdentity) (duration : Duration)
    (failed : Bool) (failureClass : Option FailureClass) (timestampMs : UInt64) :
    DbOp.outcomeOf env (HashKey.hashKey testId)
        (.recordAt env testId duration failed failureClass timestampMs) =
      some ⟨env, HashKey.hashKey testId, failed, failureClass, timestampMs⟩ :=
  if_pos rfl

/-- The store remembers the operations that were performed on it. -/
structure DurationDb.Remembers (db : DurationDb) (ops : List DbOp) : Prop where
  samples : ∀ env key,
    (db.perf env).lookup key = PerfRecord.ofSamples (ops.filterMap (DbOp.sampleOf env key))
  outcomes : ∀ env key, (((db.flake env).lookup key).getD {}).Counts
    (ops.filterMap (DbOp.outcomeOf env key))
  tested : ∀ env key, ((db.flake env).lookup key).isSome ↔
    ops.filterMap (DbOp.outcomeOf env key) ≠ []
  names : ∀ key, db.names.lookup key =
    (ops.find? fun op => op.key = key).map DbOp.testId

namespace DurationDb

theorem remembers_nil : ephemeral.Remembers [] where
  samples _ _ := rfl
  outcomes _ _ := FlakeRecord.counts_nil
  tested _ _ := by simp [ephemeral]
  names _ := rfl

variable {profile : BuildProfile}

/-- The samples of a key after an operation. -/
theorem perf_of_perform {db next : DurationDb} {op : DbOp}
    (h : db.perform profile op = .ok next) (env : Environment) (key : UInt64) :
    (next.perf env).lookup key =
      match op.sampleOf env key with
      | none => (db.perf env).lookup key
      | some sample => some ((((db.perf env).lookup key).getD {}).record sample.timestampMs
          sample.durationMs) := by
  have hreplay := (perform_spec h).replay_eq .perf
  cases op with
  | recordDiscoveredName testId => exact (congrFun (Except.ok.inj hreplay) (env, key)).symm
  | recordAt opEnv testId duration failed failureClass timestampMs =>
      cases failed with
      | true => exact (congrFun (Except.ok.inj hreplay) (env, key)).symm
      | false =>
          obtain ⟨record, hrecord, hfound⟩ := KeyedUpdate.apply_eq_ok _
            ((KeyedUpdate.replay_singleton _ _ _).symm.trans hreplay)
          cases hrecord
          have hlookup := congrFun hfound (env, key)
          by_cases hkey : (env, key) = (opEnv, HashKey.hashKey testId)
          · rw [DbOp.sampleOf, if_pos ⟨rfl, hkey.symm⟩]
            cases hkey
            exact hlookup.trans (Function.update_self _ _ _)
          · rw [DbOp.sampleOf, if_neg fun hsame => hkey hsame.2.symm]
            exact hlookup.trans (Function.update_of_ne hkey _ _)

/-- The counters of a key after an operation. -/
theorem flake_of_perform {db next : DurationDb} {op : DbOp}
    (h : db.perform profile op = .ok next) (env : Environment) (key : UInt64) :
    match op.outcomeOf env key with
    | none => (next.flake env).lookup key = (db.flake env).lookup key
    | some outcome => ∃ counted, (((db.flake env).lookup key).getD {}).record profile
          outcome.failed outcome.failureClass outcome.timestampMs = .ok counted ∧
        (next.flake env).lookup key = some counted := by
  have hreplay := (perform_spec h).replay_eq .flake
  cases op with
  | recordDiscoveredName testId => exact (congrFun (Except.ok.inj hreplay) (env, key)).symm
  | recordAt opEnv testId duration failed failureClass timestampMs =>
      obtain ⟨counted, hcounted, hfound⟩ := KeyedUpdate.apply_eq_ok _
        ((KeyedUpdate.replay_singleton _ _ _).symm.trans hreplay)
      have hlookup := congrFun hfound (env, key)
      by_cases hkey : (env, key) = (opEnv, HashKey.hashKey testId)
      · rw [DbOp.outcomeOf, if_pos hkey.symm]
        cases hkey
        exact ⟨counted, hcounted, hlookup.trans (Function.update_self _ _ _)⟩
      · rw [DbOp.outcomeOf, if_neg fun hsame => hkey hsame.symm]
        exact hlookup.trans (Function.update_of_ne hkey _ _)

/-- The name of a key after an operation. -/
theorem names_of_perform {db next : DurationDb} {op : DbOp}
    (h : db.perform profile op = .ok next) (key : UInt64) :
    next.names.lookup key =
      (db.names.lookup key).or (if op.key = key then some op.testId else none) := by
  have hreplay := (perform_spec h).replay_eq .names
  unfold DbOp.records at hreplay
  cases hname : db.names.lookup op.key with
  | some found =>
      have hknown : db.knows op.key = true := congrArg Option.isSome hname
      rw [hknown] at hreplay
      have hlookup : next.names.lookup key = db.names.lookup key :=
        (congrFun (Except.ok.inj hreplay) key).symm
      rw [hlookup]
      by_cases hkey : op.key = key
      · rw [← hkey, hname, Option.some_or]
      · rw [if_neg hkey, Option.or_none]
  | none =>
      have hknown : db.knows op.key = false := congrArg Option.isSome hname
      rw [hknown] at hreplay
      obtain ⟨name, hnameEq, hfound⟩ := KeyedUpdate.apply_eq_ok _
        ((KeyedUpdate.replay_singleton _ _ _).symm.trans hreplay)
      cases hnameEq
      have hlookup : next.names.lookup key =
          Function.update (DbSection.find .names db.names) op.key (some op.testId) key :=
        congrFun hfound key
      rw [hlookup]
      by_cases hkey : op.key = key
      · rw [← hkey, Function.update_self, hname, if_pos rfl, Option.none_or]
      · rw [Function.update_of_ne (Ne.symm hkey), if_neg hkey, Option.or_none]
        rfl

/-- One more operation. -/
theorem Remembers.perform {db next : DurationDb} {ops : List DbOp} {op : DbOp}
    (h : db.Remembers ops) (hnext : db.perform profile op = .ok next) :
    next.Remembers (ops ++ [op]) := by
  constructor
  · intro env key
    rw [perf_of_perform hnext env key, h.samples env key, List.filterMap_append]
    cases hsample : op.sampleOf env key with
    | none => simp [hsample]
    | some sample =>
        rw [List.filterMap_cons_some hsample, List.filterMap_nil, PerfRecord.of_samples_concat]
  · intro env key
    have hflake := flake_of_perform hnext env key
    rw [List.filterMap_append]
    cases houtcome : op.outcomeOf env key with
    | none =>
        rw [houtcome] at hflake
        rw [List.filterMap_cons_none houtcome, List.filterMap_nil, List.append_nil, hflake]
        exact h.outcomes env key
    | some outcome =>
        rw [houtcome] at hflake
        obtain ⟨counted, hcounted, hlookup⟩ := hflake
        rw [List.filterMap_cons_some houtcome, List.filterMap_nil, hlookup]
        exact (h.outcomes env key).record hcounted
  · intro env key
    have hflake := flake_of_perform hnext env key
    rw [List.filterMap_append]
    cases houtcome : op.outcomeOf env key with
    | none =>
        rw [houtcome] at hflake
        rw [List.filterMap_cons_none houtcome, List.filterMap_nil, List.append_nil, hflake]
        exact h.tested env key
    | some outcome =>
        rw [houtcome] at hflake
        obtain ⟨counted, -, hlookup⟩ := hflake
        rw [List.filterMap_cons_some houtcome, hlookup]
        simp
  · intro key
    rw [names_of_perform hnext key, h.names key, List.find?_append]
    cases (ops.find? fun op => op.key = key) with
    | some first => simp
    | none => by_cases hkey : op.key = key <;> simp [hkey]

/-- Operations in order. -/
theorem Remembers.performAll {db next : DurationDb} {before ops : List DbOp}
    (h : db.Remembers before) (hnext : db.performAll profile ops = .ok next) :
    next.Remembers (before ++ ops) := by
  induction ops generalizing db before with
  | nil =>
      cases hnext
      rwa [List.append_nil]
  | cons op ops ih =>
      obtain ⟨middle, hfirst, hrest⟩ := Except.foldlM_cons_eq_ok.mp hnext
      have hops := ih (h.perform hfirst) hrest
      rwa [List.append_assoc] at hops

/-- An operation panics only where its outcome cannot be counted. -/
theorem exists_perform_of_record {db : DurationDb} {op : DbOp}
    (h : ∀ env testId duration failed failureClass timestampMs,
      op = .recordAt env testId duration failed failureClass timestampMs →
      ∃ counted, (((db.flake env).lookup (HashKey.hashKey testId)).getD {}).record profile failed
        failureClass timestampMs = .ok counted) :
    ∃ next, db.perform profile op = .ok next := by
  cases op with
  | recordDiscoveredName testId => exact ⟨_, rfl⟩
  | recordAt env testId duration failed failureClass timestampMs =>
      obtain ⟨counted, hcounted⟩ := h env testId duration failed failureClass timestampMs rfl
      let outcome : FlakeSample := ⟨env, HashKey.hashKey testId, failed, failureClass, timestampMs⟩
      have hreplay := (KeyedUpdate.replay_singleton (DbSection.update profile .flake)
        (DbSection.find .flake db.flake) outcome).trans
        (KeyedUpdate.apply_of_value (DbSection.update profile .flake) hcounted)
      exact @exists_perform _ profile db _ true _ hreplay

/-- Fewer than `2 ^ 64` runs of each key do not panic on an empty store. -/
theorem exists_performAll (profile : BuildProfile) {ops : List DbOp}
    (hcount : ∀ env key, (ops.filterMap (DbOp.outcomeOf env key)).length < 2 ^ 64) :
    ∃ mem, ephemeral.performAll profile ops = .ok mem := by
  induction ops using List.reverseRecOn with
  | nil => exact ⟨ephemeral, rfl⟩
  | append_singleton ops op ih =>
      simp only [List.filterMap_append, List.length_append] at hcount
      obtain ⟨middle, hmiddle⟩ :=
        ih fun env key => Nat.lt_of_le_of_lt (Nat.le_add_right _ _) (hcount env key)
      have hremembers : middle.Remembers ops := remembers_nil.performAll hmiddle
      obtain ⟨next, hnext⟩ := @exists_perform_of_record _ profile middle op (by
        intro env testId duration failed failureClass timestampMs hop
        subst hop
        have hlength := hcount env (HashKey.hashKey testId)
        rw [List.filterMap_cons_some (DbOp.outcome_of_self _ _ _ _ _ _)] at hlength
        exact (hremembers.outcomes env (HashKey.hashKey testId)).exists_record profile hlength
          ⟨env, HashKey.hashKey testId, failed, failureClass, timestampMs⟩)
      exact ⟨next, Except.foldlM_append_eq_ok.mpr
        ⟨middle, hmiddle, Except.foldlM_cons_eq_ok.mpr ⟨next, hnext, rfl⟩⟩⟩

end DurationDb

end Operations

end Quokka
