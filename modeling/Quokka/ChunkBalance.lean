import Mathlib.Algebra.Order.Floor.Div
import Quokka.ChunkSums

/-!
# Balanced chunks

The balanced packing puts the items in descending order of weight, each into the lightest chunk
with room. A chunk that filled up early may stay far lighter or heavier in its number of items
than the others, so the invariant (`Balanced`) compares every two chunks at once in their
weights and in their numbers of items: it says that the weights differ by at most the largest
item if every item that one chunk is behind is counted with a weight that remains possible.

`Balanced.step` packs one item and `chunks_balanced` is the result for the whole packing.
-/

namespace Quokka

open BuildProfile (checked)

/-! ## The abstract packing -/

/-- Chunks with the given weights and numbers of items, of which any two differ by at most
`largest`, also after the chunk with fewer items was filled up with items of any weight up to
`bound`. -/
def Balanced (numChunks largest bound : Nat) (weight count : Nat → Nat) : Prop :=
  ∀ i < numChunks, ∀ j < numChunks, ∀ x ≤ bound,
    weight i + count j * x ≤ weight j + count i * x + largest

theorem balanced_start (numChunks largest bound : Nat) :
    Balanced numChunks largest bound (fun _ => 0) (fun _ => 0) := by
  intro i _ j _ x _
  show 0 + 0 * x ≤ 0 + 0 * x + largest
  omega

/-- One more item for a chunk that has fewer items than another one. -/
theorem behind_step {w w' c c' z x largest : Nat} (hx : x ≤ z) (hc : c + 1 ≤ c')
    (h : w + c' * z ≤ w' + c * z + largest) :
    w + z + c' * x ≤ w' + (c + 1) * x + largest := by
  obtain ⟨gap, rfl⟩ := Nat.exists_eq_add_of_le hx
  have hmore : (c + 1) * gap ≤ c' * gap := Nat.mul_le_mul_right gap hc
  rw [Nat.mul_add, Nat.mul_add] at h
  rw [Nat.add_mul, Nat.one_mul] at hmore ⊢
  omega

/-- Putting an item into the lightest chunk with room keeps the chunks balanced, for items that
are not heavier. -/
theorem Balanced.step {numChunks size largest bound z : Nat} {weight count : Nat → Nat} {i : Nat}
    (h : Balanced numChunks largest bound weight count)
    (hlight : Lightest numChunks size weight count i) (hz : z ≤ bound) (hlargest : z ≤ largest) :
    Balanced numChunks largest z (Function.update weight i (weight i + z))
      (Function.update count i (count i + 1)) := by
  obtain ⟨hi, hroom, hleast⟩ := hlight
  intro a ha b hb x hx
  have hbefore := h a ha b hb x (Nat.le_trans hx hz)
  by_cases hai : a = i
  · subst hai
    by_cases hba : b = a
    · subst hba
      omega
    rw [Function.update_self, Function.update_self, Function.update_of_ne hba,
      Function.update_of_ne hba]
    by_cases hcount : count a + 1 ≤ count b
    · exact behind_step hx hcount (h a ha b hb z hz)
    · -- The other chunk has no more items, so it has room as well and is not lighter.
      have hopen : count b < size := by omega
      have hle : weight a ≤ weight b := by
        have hleast' := hleast b hb hopen
        omega
      have hfew : count b * x ≤ (count a + 1) * x := Nat.mul_le_mul_right x (by omega)
      omega
  · rw [Function.update_of_ne hai, Function.update_of_ne hai]
    by_cases hbi : b = i
    · subst hbi
      rw [Function.update_self, Function.update_self, Nat.add_mul, Nat.one_mul]
      omega
    · rw [Function.update_of_ne hbi, Function.update_of_ne hbi]
      exact hbefore

/-! ## The packing of the source -/

section Packing

variable {α : Type} (weightFn : α → UInt64)

/-- The exact weight of a chunk. -/
def chunkWeight (chunk : List α) : Nat := (chunk.map fun item => (weightFn item).toNat).sum

/-- The largest weight of a single item. -/
def largestWeight (items : List α) : Nat :=
  items.foldr (fun item most => max (weightFn item).toNat most) 0

theorem le_largest_weight {items : List α} {item : α} (h : item ∈ items) :
    (weightFn item).toNat ≤ largestWeight weightFn items := by
  induction items with
  | nil => cases h
  | cons first rest ih =>
      cases h with
      | head => exact Nat.le_max_left _ _
      | tail _ hrest => exact Nat.le_trans (ih hrest) (Nat.le_max_right _ _)

theorem chunk_weight_append (first second : List α) :
    chunkWeight weightFn (first ++ second) =
      chunkWeight weightFn first + chunkWeight weightFn second := by
  simp [chunkWeight]

/-- An addition that fits has the same value in every build. -/
theorem BuildProfile.add_u64_of_checked {a b sum : UInt64} (h : checked.addU64 a b = .ok sum)
    (profile : BuildProfile) : profile.addU64 a b = .ok sum := by
  have hfits := (BuildProfile.add_u64_fits_iff a b).of_eq_ok h
  rw [add_u64_of_lt checked hfits] at h
  rw [add_u64_of_lt profile hfits, h]

variable {weightFn}

/-- Without an overflow the build makes no difference. -/
theorem pack_item_of_checked {size : Nat} {packing next : Packing α} {item : α}
    (h : packItem checked size weightFn packing item = .ok next) (profile : BuildProfile) :
    packItem profile size weightFn packing item = .ok next := by
  unfold packItem at h ⊢
  cases hpop : popMin packing.heap with
  | none => rw [hpop] at h; cases h
  | some popped =>
      rw [hpop] at h
      dsimp only at h ⊢
      split
      case isTrue hspace =>
        rw [if_pos hspace] at h
        obtain ⟨sum, hsum, hnext⟩ := Except.bind_eq_ok.mp h
        exact Except.bind_eq_ok.mpr ⟨sum, BuildProfile.add_u64_of_checked hsum profile, hnext⟩
      case isFalse hfull => rwa [if_neg hfull] at h

theorem pack_items_of_checked {size : Nat} {packing final : Packing α} {items : List α}
    (h : items.foldlM (packItem checked size weightFn) packing = .ok final)
    (profile : BuildProfile) :
    items.foldlM (packItem profile size weightFn) packing = .ok final := by
  induction items generalizing packing with
  | nil => exact h
  | cons item items ih =>
      rw [List.foldlM_cons] at h ⊢
      obtain ⟨next, hnext, hrest⟩ := Except.bind_eq_ok.mp h
      exact Except.bind_eq_ok.mpr ⟨next, pack_item_of_checked hnext profile, ih hrest⟩

variable {numChunks size : Nat} {weight count : Nat → Nat} {packing next : Packing α}

/-- The chunks after an item was put into the lightest one. -/
theorem pack_item_chunks {least : UInt64 × Nat} {rest : List (UInt64 × Nat)}
    (hpop : popMin packing.heap = some (least, rest)) {item : α}
    (h : packItem checked size weightFn packing item = .ok next) :
    next.chunks = packing.chunks.modify least.2 (· ++ [item]) := by
  obtain ⟨sum, i⟩ := least
  unfold packItem at h
  rw [hpop] at h
  dsimp only at h
  split at h
  case isTrue =>
    obtain ⟨newSum, -, hnext⟩ := Except.bind_eq_ok.mp h
    cases hnext
    rfl
  case isFalse =>
    cases h
    rfl

variable (weightFn) in
/-- A packing of chunks with the given weights. -/
structure WeighedAs (numChunks size : Nat) (weight count : Nat → Nat) (packing : Packing α) :
    Prop where
  packed : PackedAs numChunks size weight count packing
  weight_eq : ∀ i < numChunks, chunkWeight weightFn (packing.chunks.getD i []) = weight i

/-- Packing one item whose sum fits. -/
theorem WeighedAs.pack (h : WeighedAs weightFn numChunks size weight count packing)
    {least : UInt64 × Nat} {rest : List (UInt64 × Nat)}
    (hpop : popMin packing.heap = some (least, rest)) (item : α)
    (hfits : weight least.2 + (weightFn item).toNat < 2 ^ 64) :
    ∃ next, packItem checked size weightFn packing item = .ok next ∧
      WeighedAs weightFn numChunks size
        (Function.update weight least.2 (weight least.2 + (weightFn item).toNat))
        (Function.update count least.2 (count least.2 + 1)) next := by
  obtain ⟨hfitsIff, hpacked⟩ := @PackedAs.pack _ _ _ _ _ _ weightFn h.packed _ _ hpop item
  obtain ⟨next, hnext⟩ := hfitsIff.exists_ok.mpr fun _ => hfits
  refine ⟨next, hnext, hpacked next hnext, fun j hj => ?_⟩
  have hlight := (h.packed.pop_some hpop).1
  rw [pack_item_chunks hpop hnext]
  by_cases hji : j = least.2
  · have hlt : j < packing.chunks.length := by rw [h.packed.length_eq]; exact hj
    have hself : (packing.chunks.modify least.2 (· ++ [item])).getD j [] =
        packing.chunks.getD j [] ++ [item] := by
      subst hji
      simp [hlt]
    rw [hself, chunk_weight_append, h.weight_eq j hj, hji, Function.update_self]
    simp [chunkWeight]
  · rw [getD_modify_ne _ (Ne.symm hji), Function.update_of_ne hji]
    exact h.weight_eq j hj

/-- Packing items in descending order of weight returns if the total fits, and the chunks are
balanced. -/
theorem WeighedAs.pack_all {items : List α} {largest bound : Nat}
    (h : WeighedAs weightFn numChunks size weight count packing)
    (hbalanced : Balanced numChunks largest bound weight count)
    (hroom : ∑ i ∈ Finset.range numChunks, count i + items.length ≤ numChunks * size)
    (htotal : ∑ i ∈ Finset.range numChunks, weight i + chunkWeight weightFn items < 2 ^ 64)
    (hsorted : items.Pairwise fun a b => weightFn b ≤ weightFn a)
    (hbound : ∀ item ∈ items, (weightFn item).toNat ≤ bound)
    (hlargest : ∀ item ∈ items, (weightFn item).toNat ≤ largest) :
    ∃ final weight' count',
      items.foldlM (packItem checked size weightFn) packing = .ok final ∧
      WeighedAs weightFn numChunks size weight' count' final ∧
      Balanced numChunks largest 0 weight' count' := by
  induction items generalizing weight count packing bound with
  | nil =>
      exact ⟨packing, weight, count, rfl, h, fun i hi j hj x hx =>
        hbalanced i hi j hj x (by omega)⟩
  | cons item items ih =>
      rw [List.length_cons] at hroom
      obtain ⟨hfirst, hrest⟩ := List.pairwise_cons.mp hsorted
      have hitem := hbound item List.mem_cons_self
      cases hpop : popMin packing.heap with
      | none =>
          have hfull := sum_count_of_full (h.packed.pop_none hpop)
          omega
      | some popped =>
          obtain ⟨least, rest⟩ := popped
          obtain ⟨hlight, -, -, -⟩ := h.packed.pop_some hpop
          have hcons : chunkWeight weightFn (item :: items) =
              (weightFn item).toNat + chunkWeight weightFn items := by simp [chunkWeight]
          have hle : weight least.2 ≤ ∑ i ∈ Finset.range numChunks, weight i :=
            Finset.single_le_sum (fun _ _ => Nat.zero_le _) (Finset.mem_range.mpr hlight.1)
          obtain ⟨next, hnext, hweighed⟩ := h.pack hpop item (by omega)
          have hstep := hbalanced.step hlight hitem (hlargest item List.mem_cons_self)
          obtain ⟨final, weight', count', hfold, hfinal⟩ := ih hweighed hstep
            (by rw [sum_update_add hlight.1]; omega)
            (by rw [sum_update_add hlight.1]; omega) hrest
            (fun other hother => UInt64.le_iff_toNat_le.mp (hfirst other hother))
            (fun other hother => hlargest other (List.mem_cons_of_mem _ hother))
          refine ⟨final, weight', count', ?_, hfinal⟩
          rw [List.foldlM_cons]
          exact Except.bind_eq_ok.mpr ⟨next, hnext, hfold⟩

/-- If the total weight fits, the balanced packing returns as many chunks as are needed, none of
them empty or over size, that hold every item once; and no chunk is heavier than another one by
more than the largest item. -/
theorem chunks_balanced (profile : BuildProfile) (items : List α) (size : NonZeroUsize)
    (weightFn : α → UInt64) (htotal : chunkWeight weightFn items < 2 ^ 64) :
    ∃ chunks, chunkFixedGeneric profile items size weightFn = .ok chunks ∧
      chunks.length = items.length ⌈/⌉ size.val ∧ [] ∉ chunks ∧
      (∀ chunk ∈ chunks, chunk.length ≤ size.val) ∧ chunks.flatten.Perm items ∧
      ∀ first ∈ chunks, ∀ second ∈ chunks,
        chunkWeight weightFn first ≤
          chunkWeight weightFn second + largestWeight weightFn items := by
  have hpos : 0 < size.val := Nat.pos_of_ne_zero size.property
  by_cases hne : items = []
  · subst hne
    refine ⟨[], rfl, ?_, by simp, by simp, .refl _, by simp⟩
    simp
  let sorted := byWeight weightFn items
  let numChunks := (items.length + size.val - 1) / size.val
  have hperm : sorted.Perm items := List.perm_insertionSort _ items
  -- There are enough chunks for all items, so no chunk is ever popped without room.
  have hroom : ∑ i ∈ Finset.range numChunks, (fun _ => 0) i + sorted.length ≤
      numChunks * size.val := by
    have hdiv := Nat.div_add_mod' (items.length + size.val - 1) size.val
    have hmod := Nat.mod_lt (items.length + size.val - 1) hpos
    rw [Finset.sum_const_zero, hperm.length_eq]
    show 0 + items.length ≤ (items.length + size.val - 1) / size.val * size.val
    omega
  have hsum : chunkWeight weightFn sorted = chunkWeight weightFn items :=
    (hperm.map fun item => (weightFn item).toNat).sum_eq
  have hlargest : ∀ item ∈ sorted, (weightFn item).toNat ≤ largestWeight weightFn items :=
    fun item hitem => le_largest_weight weightFn (hperm.mem_iff.mp hitem)
  have hstart : WeighedAs weightFn numChunks size.val (fun _ => 0) (fun _ => 0)
      (⟨List.replicate numChunks [], (List.range numChunks).map fun i => (0, i)⟩ : Packing α) :=
    ⟨packed_as_start hpos, fun i hi => by simp [hi, chunkWeight]⟩
  -- No sum overflows, so the packing can be followed on natural numbers.
  obtain ⟨final, weight, count, hfold, hfinal, hbalanced⟩ :=
    hstart.pack_all (balanced_start numChunks _ (largestWeight weightFn items)) hroom
      (by rw [Finset.sum_const_zero, hsum]; omega) (List.pairwise_insertionSort _ _) hlargest
      hlargest
  have hchunks : chunkFixedGeneric profile items size weightFn = .ok final.chunks := by
    unfold chunkFixedGeneric
    rw [if_neg (by simpa using hne)]
    dsimp only
    rw [show (byWeight weightFn items).foldlM _ _ = _ from
      pack_items_of_checked hfold profile]
    rfl
  obtain ⟨hlength, hitems, hsizes⟩ := chunk_fixed_inv hne hchunks
  refine ⟨final.chunks, hchunks, hlength, chunk_fixed_ne_nil hchunks, hsizes, hitems, ?_⟩
  intro first hfirst second hsecond
  obtain ⟨i, hi, rfl⟩ := List.mem_iff_getElem.mp hfirst
  obtain ⟨j, hj, rfl⟩ := List.mem_iff_getElem.mp hsecond
  have hweight : ∀ (k : Nat) (hk : k < final.chunks.length),
      chunkWeight weightFn final.chunks[k] = weight k := by
    intro k hk
    rw [← hfinal.weight_eq k (hfinal.packed.length_eq ▸ hk), List.getD_eq_getElem?_getD,
      List.getElem?_eq_getElem hk]
    rfl
  have hpair := hbalanced i (hfinal.packed.length_eq ▸ hi) j (hfinal.packed.length_eq ▸ hj) 0
    (Nat.le_refl 0)
  rw [hweight i hi, hweight j hj]
  simpa using hpair

end Packing

/-- Three items in chunks of two. -/
theorem three_chunks_balanced :
    ∃ chunks, chunkFixedGeneric ⟨false⟩ [5, 3, 2] ⟨2, by decide⟩ id = .ok chunks ∧
      ∀ first ∈ chunks, ∀ second ∈ chunks, chunkWeight id first ≤ chunkWeight id second + 5 := by
  obtain ⟨chunks, hchunks, -, -, -, -, hbalanced⟩ :=
    chunks_balanced ⟨false⟩ [5, 3, 2] ⟨2, by decide⟩ id (by decide)
  exact ⟨chunks, hchunks, hbalanced⟩

end Quokka
