import Quokka.DurationDb.Files
import Quokka.Library.BoundedLoop

/-!
# Loops and indices of the store

What a load and a query do besides counting: the loop over a name log reads at least one byte in
every pass (`name_log_loop_run`), and a percentile indexes into its samples
(`estimate_checked_eq`). Neither depends on what the files hold.
-/

namespace Quokka

open Codec

/-! ## The name log -/

theorem shrinks_read_string : Reader.Shrinks readString := by
  refine (Reader.shrinks_exact 4).bind fun lenBuf => ?_
  show Reader.Shrinks (if 10000 < leValue lenBuf then Reader.fail else _)
  split
  · exact Reader.shrinks_fail
  · exact (Reader.shrinks_exact _).bind fun buf => Reader.shrinks_of_option _

theorem shrinks_read_test_identity : Reader.Shrinks readTestIdentity :=
  shrinks_read_string.bind fun _ => shrinks_read_string.bind fun _ =>
    shrinks_read_string.bind fun _ => Reader.shrinks_pure _

/-- The loop over a name log: the rest of the log and the names so far. A pass that goes round
again has read a key. -/
def nameLogLoop : BoundedLoop (List UInt8 × List (UInt64 × TestIdentity))
    (List (UInt64 × TestIdentity)) where
  body
    | (input, named) =>
        if input.isEmpty then .leave named
        else
          match Reader.exact 8 input with
          | (none, _) => .leave named
          | (some kBuf, rest) =>
              let (tid, rest) := readTestIdentity rest
              .again (rest, named ++ tid.toList.map fun tid => (u64OfBytes kBuf, tid))
  measure state := state.1.length
  decreases := by
    rintro ⟨input, named⟩ next h
    dsimp only at h
    split at h
    case isTrue => cases h
    case isFalse =>
      split at h
      case h_1 => cases h
      case h_2 kBuf rest hkey =>
        cases h
        have hread := shrinks_read_test_identity rest
        have hlength := Reader.length_of_exact hkey
        show (readTestIdentity rest).2.length < input.length
        omega

/-- `readNameLog` is the loop, which ends after as many passes as the log has bytes, or
earlier. -/
theorem name_log_loop_run (fuel : Nat) (input : List UInt8)
    (named : List (UInt64 × TestIdentity)) (hfuel : input.length ≤ fuel) :
    nameLogLoop.run (input, named) = named ++ readNameLog fuel input := by
  induction fuel generalizing input named with
  | zero =>
      obtain rfl := List.length_eq_zero_iff.mp (Nat.le_zero.mp hfuel)
      rw [@BoundedLoop.run_of_leave _ _ nameLogLoop _ named rfl]
      exact (List.append_nil named).symm
  | succ fuel ih =>
      cases input with
      | nil =>
          rw [@BoundedLoop.run_of_leave _ _ nameLogLoop _ named rfl]
          exact (List.append_nil named).symm
      | cons byte input =>
          have hbody : nameLogLoop.body (byte :: input, named) =
              match Reader.exact 8 (byte :: input) with
              | (none, _) => .leave named
              | (some kBuf, rest) => .again ((readTestIdentity rest).2, named ++
                  (readTestIdentity rest).1.toList.map fun tid => (u64OfBytes kBuf, tid)) :=
            rfl
          rw [readNameLog]
          · cases hkey : Reader.exact 8 (byte :: input) with
            | mk key rest =>
                rw [hkey] at hbody
                cases key with
                | none =>
                    rw [nameLogLoop.run_of_leave hbody]
                    exact (List.append_nil named).symm
                | some kBuf =>
                    have hread := shrinks_read_test_identity rest
                    have hlength := Reader.length_of_exact hkey
                    rw [nameLogLoop.run_of_again hbody, ih _ _ (by omega), List.append_assoc]
          · nofun

/-! ## Percentiles -/

/-- `percentile` with its multiplication, its subtraction and its index checked. -/
def percentileChecked (samples : List UInt64) (p : Nat) : MayPanic UInt64 :=
  if samples.isEmpty then .ok 0
  else
    let sorted := samples.insertionSort (· ≤ ·)
    if UInt64.size ≤ p * sorted.length then .error "attempt to multiply with overflow"
    else
      let position := min (max ((p * sorted.length + 99) / 100) 1) sorted.length
      if position = 0 then .error "attempt to subtract with overflow"
      else
        match sorted[position - 1]? with
        | some value => .ok value
        | none => .error "index out of bounds"

/-- A percentile of a few samples is one of them. -/
theorem percentile_checked_eq {samples : List UInt64} {p : Nat}
    (hlength : samples.length ≤ maxSamples) (hp : p ≤ 100) :
    percentileChecked samples p = .ok (percentile samples p) := by
  unfold percentileChecked percentile
  by_cases hempty : samples.isEmpty = true
  · rw [if_pos hempty, if_pos hempty]
  · have hsorted : (samples.insertionSort (· ≤ ·)).length = samples.length :=
      List.length_insertionSort _ _
    have hpos : 0 < samples.length :=
      List.length_pos_iff.mpr fun hnil => hempty (by rw [hnil]; rfl)
    have hproduct : p * samples.length ≤ 100 * 64 := Nat.mul_le_mul hp hlength
    rw [if_neg hempty, if_neg hempty]
    dsimp only
    rw [hsorted]
    generalize hposition : min (max ((p * samples.length + 99) / 100) 1) samples.length = position
    have hrange : 0 < position ∧ position ≤ samples.length := by omega
    have hindex : position - 1 < (samples.insertionSort (· ≤ ·)).length := by omega
    rw [if_neg (Nat.not_le.mpr (Nat.lt_of_le_of_lt hproduct (by decide))),
      if_neg (Nat.ne_of_gt hrange.1), List.getD_eq_getElem?_getD, List.getElem?_eq_getElem hindex]
    rfl

namespace DurationDb

/-- Combined samples are truncated. -/
theorem length_get_perf_samples_le (db : DurationDb) (env : Option Environment) (key : UInt64) :
    (db.getPerfSamples env key).length ≤ maxSamples := by
  have hfold : ∀ (envs : List Environment) (combined : PerfRecord),
      combined.samples.length ≤ maxSamples →
      (envs.foldl (fun (combined : PerfRecord) e =>
        ((db.perf e).lookup key).elim combined combined.combine) combined).samples.length ≤
          maxSamples := by
    intro envs
    induction envs with
    | nil => exact fun _ h => h
    | cons env envs ih =>
        intro combined h
        refine ih _ ?_
        show (((db.perf env).lookup key).elim combined combined.combine).samples.length ≤ _
        cases (db.perf env).lookup key with
        | none => exact h
        | some record => exact length_sort_and_truncate_le _
  rw [get_perf_samples_eq]
  exact hfold _ _ (Nat.zero_le _)

/-- `estimateByKey` with its operations checked. -/
def estimateChecked (db : DurationDb) (env : Option Environment) (key : UInt64) :
    MayPanic DurationEstimate :=
  let samples := db.getPerfSamples env key
  if samples.isEmpty then .ok .unseen
  else do
    let msSamples := samples.map DurationSample.durationMs
    let p50Ms ← percentileChecked msSamples 50
    let p95Ms ← percentileChecked msSamples 95
    pure (.measured p50Ms p95Ms)

/-- An estimate never panics. -/
theorem estimate_checked_eq (db : DurationDb) (env : Option Environment) (key : UInt64) :
    db.estimateChecked env key = .ok (db.estimateByKey env key) := by
  have hlength : ((db.getPerfSamples env key).map DurationSample.durationMs).length ≤
      maxSamples := by
    rw [List.length_map]
    exact db.length_get_perf_samples_le env key
  unfold estimateChecked estimateByKey
  dsimp only
  split
  · rfl
  · rw [percentile_checked_eq hlength (by decide), percentile_checked_eq hlength (by decide)]
    rfl

end DurationDb

end Quokka
