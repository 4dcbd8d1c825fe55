import Quokka.BatchPartition
import Quokka.DurationDb.Counters
import Mathlib.Algebra.BigOperators.Group.Finset.Piecewise
import Mathlib.Algebra.Order.BigOperators.Group.Finset
import Mathlib.Algebra.Group.Action.Defs

/-!
# When the sums of chunks overflow

The balanced packing adds the weights of a chunk as long as the chunk has room.
`ChunkSumsFit` packs with exact sums, without a heap: every item goes into the lightest chunk
with room, and no sum of a chunk that still has room reaches `2 ^ 64`. In a build with overflow
checks the packing returns exactly when this holds (`chunk_fixed_fits_iff`): it pops from a heap
that is never exhausted and writes to chunks that exist.
-/

namespace Quokka

open BuildProfile (checked)

/-! ## The least entry of a heap -/

theorem heap_le_iff {first second : UInt64 × Nat} :
    heapLe first second = true ↔
      first.1.toNat < second.1.toNat ∨
        (first.1.toNat = second.1.toNat ∧ first.2 ≤ second.2) := by
  unfold heapLe
  rw [Bool.or_eq_true, Bool.and_eq_true, decide_eq_true_iff, beq_iff_eq, decide_eq_true_iff,
    UInt64.lt_iff_toNat_lt, ← UInt64.toNat_inj]

theorem heap_le_trans {first second third : UInt64 × Nat} (h : heapLe first second = true)
    (hnext : heapLe second third = true) : heapLe first third = true := by
  rw [heap_le_iff] at *
  omega

theorem heap_le_of_not {first second : UInt64 × Nat} (h : ¬heapLe first second = true) :
    heapLe second first = true := by
  rw [heap_le_iff] at *
  omega

theorem heap_le_refl (entry : UInt64 × Nat) : heapLe entry entry = true :=
  heap_le_iff.mpr (.inr ⟨rfl, Nat.le_refl _⟩)

/-- The popped entry is the least one. -/
theorem pop_min_le {heap rest : List (UInt64 × Nat)} {least : UInt64 × Nat}
    (h : popMin heap = some (least, rest)) : ∀ entry ∈ heap, heapLe least entry = true := by
  induction heap generalizing least rest with
  | nil => cases h
  | cons first heap ih =>
      unfold popMin at h
      cases hpop : popMin heap with
      | none =>
          rw [hpop] at h
          cases h
          rw [pop_min_eq_none] at hpop
          subst hpop
          intro entry hentry
          rw [List.mem_singleton.mp hentry]
          exact heap_le_refl _
      | some popped =>
          obtain ⟨other, others⟩ := popped
          rw [hpop] at h
          dsimp only at h
          have hother := ih hpop
          split at h
          case isTrue hle =>
            cases h
            intro entry hentry
            rcases List.mem_cons.mp hentry with rfl | hrest
            · exact heap_le_refl _
            · exact heap_le_trans hle (hother entry hrest)
          case isFalse hnot =>
            cases h
            intro entry hentry
            rcases List.mem_cons.mp hentry with rfl | hrest
            · exact heap_le_of_not hnot
            · exact hother entry hrest

/-! ## Exact sums -/

/-- The lightest of the chunks with room, the first one among equally light ones. -/
def Lightest (numChunks size : Nat) (weight count : Nat → Nat) (i : Nat) : Prop :=
  i < numChunks ∧ count i < size ∧
    ∀ j < numChunks, count j < size → weight i < weight j ∨ (weight i = weight j ∧ i ≤ j)

theorem Lightest.unique {numChunks size : Nat} {weight count : Nat → Nat} {i j : Nat}
    (hi : Lightest numChunks size weight count i) (hj : Lightest numChunks size weight count j) :
    i = j := by
  have hle := hi.2.2 j hj.1 hj.2.1
  have hge := hj.2.2 i hi.1 hi.2.1
  omega

/-- Items can be packed without a sum that does not fit: `weight` and `count` are the exact
weights and the sizes of the chunks so far. The sum of a chunk that becomes full is not needed. -/
inductive ChunkSumsFit (numChunks size : Nat) : (weight count : Nat → Nat) → List Nat → Prop
  | nil {weight count : Nat → Nat} : ChunkSumsFit numChunks size weight count []
  | cons {weight count : Nat → Nat} {i item : Nat} {items : List Nat} :
      Lightest numChunks size weight count i →
      (count i + 1 < size → weight i + item < 2 ^ 64) →
      ChunkSumsFit numChunks size (Function.update weight i (weight i + item))
        (Function.update count i (count i + 1)) items →
      ChunkSumsFit numChunks size weight count (item :: items)

section Packing

variable {α : Type} {numChunks size : Nat} {weight count : Nat → Nat} {packing next : Packing α}
  {weightFn : α → UInt64} {item : α}

/-- A packing whose chunks have the given exact weights and sizes: the heap holds exactly the
chunks with room. -/
structure PackedAs (numChunks size : Nat) (weight count : Nat → Nat) (packing : Packing α) :
    Prop where
  length_eq : packing.chunks.length = numChunks
  count_eq : ∀ i < numChunks, (packing.chunks.getD i []).length = count i
  weight_lt : ∀ i < numChunks, count i < size → weight i < 2 ^ 64
  mem_heap : ∀ entry : UInt64 × Nat, entry ∈ packing.heap ↔
    entry.2 < numChunks ∧ count entry.2 < size ∧ entry.1.toNat = weight entry.2
  distinct : (packing.heap.map Prod.snd).Nodup

/-- The heap is exhausted only when no chunk has room. -/
theorem PackedAs.pop_none (h : PackedAs numChunks size weight count packing)
    (hpop : popMin packing.heap = none) : ∀ i < numChunks, size ≤ count i := by
  intro i hi
  by_contra hroom
  have hlt := h.weight_lt i hi (Nat.not_le.mp hroom)
  have hmem : (UInt64.ofNat (weight i), i) ∈ packing.heap :=
    (h.mem_heap _).mpr ⟨hi, Nat.not_le.mp hroom, UInt64.toNat_ofNat_of_lt' hlt⟩
  rw [pop_min_eq_none.mp hpop] at hmem
  cases hmem

/-- The popped chunk is the lightest one, and the others stay in the heap. -/
theorem PackedAs.pop_some (h : PackedAs numChunks size weight count packing)
    {least : UInt64 × Nat} {rest : List (UInt64 × Nat)}
    (hpop : popMin packing.heap = some (least, rest)) :
    Lightest numChunks size weight count least.2 ∧ least.1.toNat = weight least.2 ∧
      (∀ entry, entry ∈ rest ↔ entry ∈ packing.heap ∧ entry.2 ≠ least.2) ∧
      (rest.map Prod.snd).Nodup := by
  have hperm := pop_min_perm hpop
  have hnodup := ((hperm.map Prod.snd).nodup_iff.mp h.distinct)
  rw [List.map_cons, List.nodup_cons] at hnodup
  obtain ⟨hi, hroom, hweight⟩ := (h.mem_heap least).mp (hperm.mem_iff.mpr List.mem_cons_self)
  refine ⟨⟨hi, hroom, fun j hj hjroom => ?_⟩, hweight, fun entry => ⟨fun hentry => ?_, ?_⟩,
    hnodup.2⟩
  · have hlt := h.weight_lt j hj hjroom
    have hmem : (UInt64.ofNat (weight j), j) ∈ packing.heap :=
      (h.mem_heap _).mpr ⟨hj, hjroom, UInt64.toNat_ofNat_of_lt' hlt⟩
    have hle := heap_le_iff.mp (pop_min_le hpop _ hmem)
    rw [hweight, show (UInt64.ofNat (weight j)).toNat = weight j from
      UInt64.toNat_ofNat_of_lt' hlt] at hle
    exact hle
  · refine ⟨hperm.mem_iff.mpr (List.mem_cons_of_mem _ hentry), fun heq => hnodup.1 ?_⟩
    rw [← heq]
    exact List.mem_map_of_mem hentry
  · rintro ⟨hentry, hne⟩
    rcases List.mem_cons.mp (hperm.mem_iff.mp hentry) with rfl | hrest
    · exact absurd rfl hne
    · exact hrest

/-- The chunks after an item was put into one of them. -/
theorem PackedAs.modify (h : PackedAs numChunks size weight count packing) {i : Nat}
    (hi : i < numChunks) (item : α) :
    (packing.chunks.modify i (· ++ [item])).length = numChunks ∧
      ∀ j < numChunks, ((packing.chunks.modify i (· ++ [item])).getD j []).length =
        Function.update count i (count i + 1) j := by
  refine ⟨by rw [List.length_modify, h.length_eq], fun j hj => ?_⟩
  by_cases hji : j = i
  · subst hji
    rw [Function.update_self, ← h.count_eq j hj]
    have hlt : j < packing.chunks.length := by rw [h.length_eq]; exact hj
    simp [hlt]
  · rw [getD_modify_ne _ (Ne.symm hji), Function.update_of_ne hji]
    exact h.count_eq j hj

section Popped

variable {sum : UInt64} {i : Nat} {rest : List (UInt64 × Nat)}

/-- The other chunks stay in the heap with their weights. -/
theorem PackedAs.mem_rest_iff (h : PackedAs numChunks size weight count packing)
    (hpop : popMin packing.heap = some ((sum, i), rest)) (more : Nat) {entry : UInt64 × Nat}
    (hne : entry.2 ≠ i) :
    entry ∈ rest ↔ entry.2 < numChunks ∧
      Function.update count i (count i + 1) entry.2 < size ∧
      entry.1.toNat = Function.update weight i (weight i + more) entry.2 := by
  obtain ⟨-, -, hrest, -⟩ := h.pop_some hpop
  rw [hrest, h.mem_heap, Function.update_of_ne hne, Function.update_of_ne hne]
  exact ⟨And.left, fun hentry => ⟨hentry, hne⟩⟩

theorem PackedAs.not_mem_rest (h : PackedAs numChunks size weight count packing)
    (hpop : popMin packing.heap = some ((sum, i), rest)) {entry : UInt64 × Nat}
    (heq : entry.2 = i) : entry ∉ rest := by
  obtain ⟨-, -, hrest, -⟩ := h.pop_some hpop
  exact fun hmem => ((hrest entry).mp hmem).2 heq

/-- A chunk that still has room goes back to the heap. -/
theorem PackedAs.push (h : PackedAs numChunks size weight count packing)
    (hpop : popMin packing.heap = some ((sum, i), rest)) (item : α) (hspace : count i + 1 < size)
    {more : Nat} {newSum : UInt64} (hnew : newSum.toNat = weight i + more) :
    PackedAs numChunks size (Function.update weight i (weight i + more))
      (Function.update count i (count i + 1))
      ⟨packing.chunks.modify i (· ++ [item]), (newSum, i) :: rest⟩ := by
  obtain ⟨hlight, -, -, hnodup⟩ := h.pop_some hpop
  obtain ⟨hlength, hcount⟩ := h.modify hlight.1 item
  refine ⟨hlength, hcount, fun j hj hjroom => ?_, fun entry => ?_, ?_⟩
  · by_cases hji : j = i
    · subst hji
      rw [Function.update_self, ← hnew]
      exact newSum.toNat_lt
    · rw [Function.update_of_ne hji] at hjroom
      rw [Function.update_of_ne hji]
      exact h.weight_lt j hj hjroom
  · rw [List.mem_cons]
    by_cases hentry : entry.2 = i
    · rw [or_iff_left (h.not_mem_rest hpop hentry), hentry, Function.update_self,
        Function.update_self, ← hnew, UInt64.toNat_inj]
      refine ⟨fun heq => ?_, fun heq => Prod.ext heq.2.2 hentry⟩
      subst heq
      exact ⟨hlight.1, hspace, rfl⟩
    · rw [or_iff_right fun heq => hentry (congrArg Prod.snd heq)]
      exact h.mem_rest_iff hpop more hentry
  · rw [List.map_cons, List.nodup_cons]
    refine ⟨fun hmem => ?_, hnodup⟩
    obtain ⟨entry, hentry, heq⟩ := List.mem_map.mp hmem
    exact h.not_mem_rest hpop heq hentry

/-- A chunk that is full leaves the heap, whatever its weight is now. -/
theorem PackedAs.fill (h : PackedAs numChunks size weight count packing)
    (hpop : popMin packing.heap = some ((sum, i), rest)) (item : α)
    (hfull : ¬count i + 1 < size) (more : Nat) :
    PackedAs numChunks size (Function.update weight i (weight i + more))
      (Function.update count i (count i + 1))
      ⟨packing.chunks.modify i (· ++ [item]), rest⟩ := by
  obtain ⟨hlight, -, -, hnodup⟩ := h.pop_some hpop
  obtain ⟨hlength, hcount⟩ := h.modify hlight.1 item
  refine ⟨hlength, hcount, fun j hj hjroom => ?_, fun entry => ?_, hnodup⟩
  · by_cases hji : j = i
    · subst hji
      rw [Function.update_self] at hjroom
      exact absurd hjroom hfull
    · rw [Function.update_of_ne hji] at hjroom
      rw [Function.update_of_ne hji]
      exact h.weight_lt j hj hjroom
  · by_cases hentry : entry.2 = i
    · refine iff_of_false (h.not_mem_rest hpop hentry) fun hroom => hfull ?_
      rw [hentry, Function.update_self] at hroom
      exact hroom.2.1
    · exact h.mem_rest_iff hpop more hentry

end Popped

/-- Packing one item returns exactly when its chunk is full with it or its sum fits. -/
theorem PackedAs.pack (h : PackedAs numChunks size weight count packing)
    {least : UInt64 × Nat} {rest : List (UInt64 × Nat)}
    (hpop : popMin packing.heap = some (least, rest)) (item : α) :
    FitsIff (count least.2 + 1 < size →
        weight least.2 + (weightFn item).toNat < 2 ^ 64)
      (packItem checked size weightFn packing item) ∧
    ∀ next, packItem checked size weightFn packing item = .ok next →
      PackedAs numChunks size
        (Function.update weight least.2 (weight least.2 + (weightFn item).toNat))
        (Function.update count least.2 (count least.2 + 1)) next := by
  obtain ⟨sum, i⟩ := least
  obtain ⟨hlight, hsum, -, -⟩ := h.pop_some hpop
  dsimp only at hlight hsum ⊢
  have hself : ((packing.chunks.modify i (· ++ [item])).getD i []).length = count i + 1 := by
    rw [(h.modify hlight.1 item).2 i hlight.1, Function.update_self]
  have hadd := BuildProfile.add_u64_fits_iff sum (weightFn item)
  rw [hsum] at hadd
  unfold packItem
  rw [hpop]
  dsimp only
  rw [hself]
  by_cases hspace : count i + 1 < size
  · rw [if_pos hspace]
    refine ⟨(hadd.then_pure fun _ _ => ⟨_, rfl⟩).congr ⟨fun hfits _ => hfits,
      fun hfits => hfits hspace⟩, fun next hnext => ?_⟩
    obtain ⟨newSum, hnew, hpure⟩ := Except.bind_eq_ok.mp hnext
    cases hpure
    have hnewSum := BuildProfile.to_nat_add_u64 hnew
    rw [hsum] at hnewSum
    exact h.push hpop item hspace hnewSum
  · rw [if_neg hspace]
    refine ⟨fun hroom => absurd hroom hspace, fun next hnext => ?_⟩
    cases hnext
    exact h.fill hpop item hspace _

/-- As long as items remain, some chunk has room. -/
theorem sum_count_of_full (hfull : ∀ i < numChunks, size ≤ count i) :
    numChunks * size ≤ ∑ i ∈ Finset.range numChunks, count i := by
  have hsum := Finset.card_nsmul_le_sum (Finset.range numChunks) count size
    fun i hi => hfull i (Finset.mem_range.mp hi)
  rwa [Finset.card_range, smul_eq_mul] at hsum

/-- An amount added for one of the chunks. -/
theorem sum_update_add {amounts : Nat → Nat} {i : Nat} (hi : i < numChunks) (more : Nat) :
    ∑ j ∈ Finset.range numChunks, Function.update amounts i (amounts i + more) j =
      ∑ j ∈ Finset.range numChunks, amounts j + more := by
  have hmem : i ∈ Finset.range numChunks := Finset.mem_range.mpr hi
  rw [Finset.sum_update_of_mem hmem, ← Finset.add_sum_erase _ _ hmem,
    Finset.sdiff_singleton_eq_erase]
  omega

/-- Packing items returns exactly when the sums fit. -/
theorem PackedAs.pack_all (h : PackedAs numChunks size weight count packing) {items : List α}
    (hroom : ∑ i ∈ Finset.range numChunks, count i + items.length ≤ numChunks * size) :
    FitsIff (ChunkSumsFit numChunks size weight count
        (items.map fun item => (weightFn item).toNat))
      (items.foldlM (packItem checked size weightFn) packing) := by
  induction items generalizing weight count packing with
  | nil => exact .nil
  | cons item items ih =>
      rw [List.length_cons] at hroom
      cases hpop : popMin packing.heap with
      | none =>
          have hfull := sum_count_of_full (h.pop_none hpop)
          omega
      | some popped =>
          obtain ⟨least, rest⟩ := popped
          obtain ⟨hlight, -, -, -⟩ := h.pop_some hpop
          obtain ⟨hfits, hpacked⟩ := @PackedAs.pack _ _ _ _ _ _ weightFn h _ _ hpop item
          rw [List.foldlM_cons, List.map_cons]
          refine (hfits.bind fun next hnext => ih (hpacked next hnext) ?_).congr ?_
          · rw [sum_update_add hlight.1]
            omega
          · constructor
            · rintro ⟨hitem, hrest⟩
              obtain ⟨next, hnext⟩ := hfits.exists_ok.mpr hitem
              exact .cons hlight hitem (hrest next hnext)
            · intro hall
              cases hall with
              | cons hlight' hitem hrest =>
                  obtain rfl := hlight.unique hlight'
                  exact ⟨hitem, fun _ _ => hrest⟩

/-- The chunks before any item is packed. -/
theorem packed_as_start (hsize : 0 < size) :
    PackedAs numChunks size (fun _ => 0) (fun _ => 0)
      (⟨List.replicate numChunks [], (List.range numChunks).map fun i => (0, i)⟩ :
        Packing α) where
  length_eq := List.length_replicate
  count_eq i hi := by simp [hi]
  weight_lt _ _ _ := by decide
  mem_heap entry := by
    constructor
    · intro hentry
      obtain ⟨i, hi, rfl⟩ := List.mem_map.mp hentry
      exact ⟨List.mem_range.mp hi, hsize, rfl⟩
    · rintro ⟨hi, -, hzero⟩
      refine List.mem_map.mpr ⟨entry.2, List.mem_range.mpr hi, Prod.ext ?_ rfl⟩
      exact (UInt64.toNat_inj.mp hzero).symm
  distinct := by simp [Function.comp_def, List.nodup_range]

end Packing

/-- Weights can be packed into chunks without a sum that does not fit: in descending order, each
into the lightest chunk with room. -/
def ChunksFit (size : NonZeroUsize) (weights : List UInt64) : Prop :=
  ChunkSumsFit ((weights.length + size.val - 1) / size.val) size.val (fun _ => 0) (fun _ => 0)
    ((byWeight id weights).map UInt64.toNat)

section Chunks

variable {α : Type}

/-- The balanced packing returns exactly when the sums fit. -/
theorem chunk_fixed_fits_iff (items : List α) (size : NonZeroUsize) (weightFn : α → UInt64) :
    FitsIff (ChunksFit size (items.map weightFn))
      (chunkFixedGeneric checked items size weightFn) := by
  unfold ChunksFit chunkFixedGeneric
  rw [List.length_map]
  by_cases hempty : items.isEmpty = true
  · rw [if_pos hempty, List.isEmpty_iff.mp hempty]
    exact .nil
  · rw [if_neg hempty]
    have hpos : 0 < size.val := Nat.pos_of_ne_zero size.property
    have hsorted : (byWeight id (items.map weightFn)).map UInt64.toNat =
        (byWeight weightFn items).map fun item => (weightFn item).toNat := by
      unfold byWeight
      rw [← List.map_insertionSort (fun a b : α => weightFn b ≤ weightFn a)
        (fun a b : UInt64 => id b ≤ id a) weightFn items (fun _ _ _ _ => Iff.rfl), List.map_map]
      rfl
    have hroom : ∑ i ∈ Finset.range ((items.length + size.val - 1) / size.val),
        (fun _ => 0) i + (byWeight weightFn items).length ≤
          (items.length + size.val - 1) / size.val * size.val := by
      have hlength : (byWeight weightFn items).length = items.length :=
        List.length_insertionSort _ _
      have hdiv := Nat.div_add_mod' (items.length + size.val - 1) size.val
      have hmod := Nat.mod_lt (items.length + size.val - 1) hpos
      rw [Finset.sum_const_zero, hlength]
      omega
    rw [hsorted]
    exact ((packed_as_start hpos).pack_all hroom).map _

end Chunks

end Quokka
