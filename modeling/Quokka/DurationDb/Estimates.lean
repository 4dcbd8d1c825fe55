import Quokka.DurationDb.Recording

/-!
# Estimates

An estimate is a function of the samples that were recorded, not of the order or the stores in
which they were recorded: over the 64 greatest samples, the smallest durations that at least 50
and at least 95 percent of them do not exceed. `IsEstimate` says this without the operations of
the store, and `estimates_ignore_order` is the main result.
-/

namespace Quokka

/-! ## Percentiles -/

/-- The smallest sample that at least `p` percent of the samples do not exceed. -/
structure NearestRank (p : Nat) (samples : List UInt64) (value : UInt64) : Prop where
  mem : value ∈ samples
  covers : p * samples.length ≤ 100 * samples.countP (· ≤ value)
  least : ∀ other ∈ samples, p * samples.length ≤ 100 * samples.countP (· ≤ other) → value ≤ other

theorem nearest_rank_percentile {samples : List UInt64} (hne : samples ≠ []) {p : Nat}
    (hpos : 1 ≤ p) (hp : p ≤ 100) : NearestRank p samples (percentile samples p) := by
  have hempty : ¬samples.isEmpty = true := by rwa [List.isEmpty_iff]
  have hlength : 0 < samples.length := List.length_pos_iff.mpr hne
  have hproduct : p * samples.length ≤ 100 * samples.length := Nat.mul_le_mul_right _ hp
  have hfirst : 1 * samples.length ≤ p * samples.length := Nat.mul_le_mul_right _ hpos
  let sorted := samples.insertionSort (· ≤ ·)
  let index := min (max ((p * sorted.length + 99) / 100) 1) sorted.length - 1
  have hsorted : sorted.Pairwise (· ≤ ·) := List.pairwise_insertionSort _ samples
  have hperm : sorted.Perm samples := List.perm_insertionSort _ samples
  have hsortedLength : sorted.length = samples.length := hperm.length_eq
  -- the rank is the rounded-up number of samples to cover, and the index is one less
  obtain ⟨hindex, hcovered, hnext⟩ : index < sorted.length ∧
      p * samples.length ≤ 100 * (index + 1) ∧ 100 * index < p * samples.length := by
    show min (max ((p * sorted.length + 99) / 100) 1) sorted.length - 1 < sorted.length ∧
      p * samples.length ≤
        100 * (min (max ((p * sorted.length + 99) / 100) 1) sorted.length - 1 + 1) ∧
      100 * (min (max ((p * sorted.length + 99) / 100) 1) sorted.length - 1) < p * samples.length
    rw [hsortedLength]
    omega
  have hvalue : percentile samples p = sorted[index] := by
    unfold percentile
    rw [if_neg hempty]
    exact (List.getD_eq_getElem?_getD ..).trans
      (congrArg (Option.getD · 0) (List.getElem?_eq_getElem hindex))
  have hcount : ∀ value : UInt64, samples.countP (· ≤ value) = sorted.countP (· ≤ value) :=
    fun value => (hperm.countP_eq _).symm
  rw [hvalue]
  refine ⟨hperm.subset (List.getElem_mem hindex), ?_, fun other hother hcovers => ?_⟩
  · have hbefore := List.lt_countP_getElem hsorted hindex
    rw [hcount]
    omega
  · by_contra hle
    have hbefore := List.countP_le_of_not_getElem hsorted hindex hle
    rw [hcount] at hcovers
    omega

/-- A higher percentile is a longer duration. -/
theorem NearestRank.mono {p q : Nat} {samples : List UInt64} {value other : UInt64}
    (h : NearestRank p samples value) (hother : NearestRank q samples other) (hpq : p ≤ q) :
    value ≤ other :=
  h.least other hother.mem ((Nat.mul_le_mul_right _ hpq).trans hother.covers)

/-! ## Samples -/

/-- As many of the samples as there may be, none of them before one that is left out in the order
of timestamps and, among equal ones, durations. -/
structure MostRecent (count : Nat) (samples top : List DurationSample) : Prop where
  length_eq : top.length = min count samples.length
  split : ∃ rest, samples.Perm (top ++ rest) ∧ ∀ kept ∈ top, ∀ out ∈ rest, kept.descending out

theorem most_recent_sort_and_truncate (samples : List DurationSample) :
    MostRecent maxSamples samples (sortAndTruncate samples) where
  length_eq := by
    rw [sortAndTruncate, List.length_take, List.length_insertionSort]
  split := by
    refine ⟨(samples.insertionSort DurationSample.descending).drop maxSamples, ?_,
      fun kept hkept out hout => List.rel_of_mem_take_insertionSort _ hkept hout⟩
    rw [sortAndTruncate, List.take_append_drop]
    exact (List.perm_insertionSort _ samples).symm

/-- What an estimate should be. -/
def IsEstimate (samples : List DurationSample) : DurationEstimate → Prop
  | .unseen => samples = []
  | .measured p50Ms p95Ms =>
      samples ≠ [] ∧ ∃ top, MostRecent maxSamples samples top ∧
        NearestRank 50 (top.map DurationSample.durationMs) p50Ms ∧
        NearestRank 95 (top.map DurationSample.durationMs) p95Ms

/-- Both percentiles were recorded, and they are in order. -/
theorem IsEstimate.recorded {samples : List DurationSample} {p50Ms p95Ms : UInt64}
    (h : IsEstimate samples (.measured p50Ms p95Ms)) :
    p50Ms ≤ p95Ms ∧ p50Ms ∈ samples.map DurationSample.durationMs ∧
      p95Ms ∈ samples.map DurationSample.durationMs := by
  obtain ⟨-, top, ⟨-, rest, hperm, -⟩, hp50, hp95⟩ := h
  have hsubset : top.map DurationSample.durationMs ⊆ samples.map DurationSample.durationMs :=
    List.map_subset _ fun sample hsample =>
      hperm.symm.subset (List.mem_append_left rest hsample)
  exact ⟨hp50.mono hp95 (by decide), hsubset hp50.mem, hsubset hp95.mem⟩

/-- The estimate from all samples of a query. -/
def estimateOf (samples : List DurationSample) : DurationEstimate :=
  if samples.isEmpty then .unseen
  else
    let msSamples := (sortAndTruncate samples).map DurationSample.durationMs
    .measured (percentile msSamples 50) (percentile msSamples 95)

theorem is_estimate_of (samples : List DurationSample) :
    IsEstimate samples (estimateOf samples) := by
  unfold estimateOf
  by_cases hempty : samples.isEmpty = true
  · rw [if_pos hempty]
    exact List.isEmpty_iff.mp hempty
  · rw [if_neg hempty]
    have hne : samples ≠ [] := mt List.isEmpty_iff.mpr hempty
    have hdurations : (sortAndTruncate samples).map DurationSample.durationMs ≠ [] :=
      mt List.map_eq_nil_iff.mp (sort_and_truncate_ne_nil hne)
    exact ⟨hne, sortAndTruncate samples, most_recent_sort_and_truncate samples,
      nearest_rank_percentile hdurations (by decide) (by decide),
      nearest_rank_percentile hdurations (by decide) (by decide)⟩

example : estimateOf [⟨1, 100⟩, ⟨3, 200⟩] = .measured 100 200 := by decide

theorem estimate_of_perm {samples other : List DurationSample} (h : samples.Perm other) :
    estimateOf samples = estimateOf other := by
  have htop : sortAndTruncate samples = sortAndTruncate other := by
    unfold sortAndTruncate
    rw [h.insertionSort_eq DurationSample.descending]
  unfold estimateOf
  rw [htop, h.isEmpty_eq]

/-! ## Queries -/

variable [HashKey]

/-- The samples of a key that operations record in the queried environments. -/
def querySamples (ops : List DbOp) (env : Option Environment) (key : UInt64) :
    List DurationSample :=
  (DurationDb.environments env).flatMap fun e => ops.filterMap (DbOp.sampleOf e key)

namespace DurationDb

/-- A query keeps the greatest samples of all queried environments. -/
theorem Remembers.get_perf_samples {db : DurationDb} {ops : List DbOp} (h : db.Remembers ops)
    (env : Option Environment) (key : UInt64) :
    db.getPerfSamples env key = sortAndTruncate (querySamples ops env key) := by
  have hfold : ∀ (envs : List Environment) (before : List DurationSample),
      envs.foldl (fun (combined : PerfRecord) e =>
          ((db.perf e).lookup key).elim combined combined.combine) ⟨sortAndTruncate before⟩ =
      ⟨sortAndTruncate (before ++ envs.flatMap fun e => ops.filterMap (DbOp.sampleOf e key))⟩ := by
    intro envs
    induction envs with
    | nil => intro before; rw [List.foldl_nil, List.flatMap_nil, List.append_nil]
    | cons e envs ih =>
        intro before
        rw [List.foldl_cons, h.samples, List.flatMap_cons, ← List.append_assoc, ← ih]
        congr 1
        cases hsamples : ops.filterMap (DbOp.sampleOf e key) with
        | nil => rw [List.append_nil]; rfl
        | cons first rest =>
            show PerfRecord.mk (sortAndTruncate (sortAndTruncate before ++
              sortAndTruncate (first :: rest))) = _
            rw [sort_and_truncate_append]
  rw [get_perf_samples_eq]
  exact congrArg PerfRecord.samples (hfold (environments env) [])

/-- An estimate is the one from all recorded samples. -/
theorem Remembers.estimate_by_key {db : DurationDb} {ops : List DbOp} (h : db.Remembers ops)
    (env : Option Environment) (key : UInt64) :
    db.estimateByKey env key = estimateOf (querySamples ops env key) := by
  have hempty : (sortAndTruncate (querySamples ops env key)).isEmpty =
      (querySamples ops env key).isEmpty := by
    by_cases hnil : querySamples ops env key = []
    · rw [hnil]
      rfl
    · rw [List.isEmpty_eq_false_iff.mpr hnil,
        List.isEmpty_eq_false_iff.mpr (sort_and_truncate_ne_nil hnil)]
  unfold estimateByKey estimateOf
  rw [h.get_perf_samples]
  dsimp only
  rw [hempty]

end DurationDb

/-! ## Main result -/

/-- Every way to record samples gives the estimate that they should have, and so the same one; a
recording leaves a store as long as its runs can be counted. -/
theorem estimates_ignore_order (profile : BuildProfile) :
    (∀ (recording : Recording) (db : DurationDb), recording.store profile = .ok db →
      ∀ env key, IsEstimate (querySamples recording.ops env key) (db.estimateByKey env key)) ∧
    (∀ (recording other : Recording) (db otherDb : DurationDb),
      recording.store profile = .ok db → other.store profile = .ok otherDb →
      ∀ env key, (querySamples recording.ops env key).Perm (querySamples other.ops env key) →
        db.estimateByKey env key = otherDb.estimateByKey env key) ∧
    (∀ (samples : List DurationSample) (p50Ms p95Ms : UInt64),
      IsEstimate samples (.measured p50Ms p95Ms) →
      p50Ms ≤ p95Ms ∧ p50Ms ∈ samples.map DurationSample.durationMs ∧
        p95Ms ∈ samples.map DurationSample.durationMs) ∧
    ∀ recording : Recording, (∃ db, recording.store profile = .ok db) ↔
      (profile.overflowChecks = true → Recording.Countable recording.ops) := by
  refine ⟨fun recording db h env key => ?_, fun recording other db otherDb h hother env key hperm =>
    ?_, fun samples p50Ms p95Ms h => h.recorded,
    fun recording => (Recording.store_ok_iff profile recording).exists_ok⟩
  · rw [(Recording.remembers h).estimate_by_key]
    exact is_estimate_of _
  · rw [(Recording.remembers h).estimate_by_key, (Recording.remembers hother).estimate_by_key]
    exact estimate_of_perm hperm

end Quokka
