import Quokka.Batching

/-!
# Batches partition the tests

Whatever the batch mode, the batches of a list of tests hold every test exactly as often as the
list does. `chunk_fixed_perm` and `bucket_flatten` say it of the two algorithms and
`partition_perm` of the entry point. No batch is empty: `explicit_nil_not_mem_partition`.
-/

namespace Quokka

/-- The tests that a selection stands for, `All` being the whole list. -/
def TestSelection.membersOf {α : Type} (tests : List α) : TestSelection α → List α
  | .all => tests
  | .explicit group => group

section Partition

variable {α : Type}

/-! ## Balanced chunks -/

/-- Only an empty heap has no least entry. -/
theorem pop_min_eq_none {heap : List (UInt64 × Nat)} : popMin heap = none ↔ heap = [] := by
  cases heap with
  | nil => exact iff_of_true rfl rfl
  | cons entry heap =>
      refine iff_of_false ?_ nofun
      unfold popMin
      split
      · nofun
      · split <;> nofun

/-- Popping removes one entry. -/
theorem pop_min_perm {heap rest : List (UInt64 × Nat)} {least : UInt64 × Nat}
    (h : popMin heap = some (least, rest)) : heap.Perm (least :: rest) := by
  induction heap generalizing least rest with
  | nil => cases h
  | cons entry heap ih =>
      unfold popMin at h
      cases hpop : popMin heap with
      | none =>
          rw [hpop] at h
          cases h
          rw [pop_min_eq_none.mp hpop]
      | some popped =>
          obtain ⟨other, others⟩ := popped
          rw [hpop] at h
          dsimp only at h
          split at h
          · cases h
            exact List.Perm.refl _
          · cases h
            exact ((ih hpop).cons entry).trans (List.Perm.swap _ _ _)

/-- Appending an item to one of the chunks adds it to the items. -/
theorem flatten_modify_perm {chunks : List (List α)} {i : Nat} (h : i < chunks.length)
    (item : α) :
    (chunks.modify i (· ++ [item])).flatten.Perm (chunks.flatten ++ [item]) := by
  induction chunks generalizing i with
  | nil => exact absurd h (Nat.not_lt_zero i)
  | cons chunk chunks ih =>
      cases i with
      | zero =>
          simp only [List.modify_zero_cons, List.flatten_cons, List.append_assoc]
          exact (List.perm_append_comm).append_left chunk
      | succ i =>
          simp only [List.modify_succ_cons, List.flatten_cons, List.append_assoc]
          exact (ih (Nat.lt_of_succ_lt_succ h)).append_left chunk

/-- The chunks hold the items packed so far and none is over size, and the heap names distinct
chunks that have room. -/
structure PackingInv (numChunks size : Nat) (packed : List α) (packing : Packing α) : Prop where
  length_eq : packing.chunks.length = numChunks
  perm : packing.chunks.flatten.Perm packed
  sizes : ∀ chunk ∈ packing.chunks, chunk.length ≤ size
  indices : ∀ entry ∈ packing.heap, entry.2 < numChunks
  room : ∀ entry ∈ packing.heap, (packing.chunks.getD entry.2 []).length < size
  distinct : (packing.heap.map Prod.snd).Nodup

/-- Appending to one chunk leaves the other ones alone. -/
theorem getD_modify_ne (chunks : List (List α)) {i j : Nat} (h : i ≠ j) (item : α) :
    (chunks.modify i (· ++ [item])).getD j [] = chunks.getD j [] := by
  simp [h]

/-- Appending to a chunk with room keeps every chunk within size. -/
theorem length_le_of_mem_modify {chunks : List (List α)} {i size : Nat} {item : α}
    (hsizes : ∀ chunk ∈ chunks, chunk.length ≤ size) (hroom : (chunks.getD i []).length < size) :
    ∀ chunk ∈ chunks.modify i (· ++ [item]), chunk.length ≤ size := by
  intro chunk hchunk
  obtain ⟨j, hj, rfl⟩ := List.mem_iff_getElem.mp hchunk
  rw [List.length_modify] at hj
  rw [List.getElem_modify]
  split
  case isTrue heq =>
    subst heq
    have hroom' : chunks[i].length < size := by
      simpa [List.getElem?_eq_getElem hj] using hroom
    rw [List.length_append, List.length_singleton]
    omega
  case isFalse => exact hsizes _ (List.getElem_mem hj)

/-- Packing one item. -/
theorem pack_item_inv {profile : BuildProfile} {size numChunks : Nat} {weightFn : α → UInt64}
    {packed : List α} {packing next : Packing α} {item : α}
    (hinv : PackingInv numChunks size packed packing)
    (h : packItem profile size weightFn packing item = .ok next) :
    PackingInv numChunks size (packed ++ [item]) next := by
  unfold packItem at h
  cases hpop : popMin packing.heap with
  | none => rw [hpop] at h; cases h
  | some popped =>
      obtain ⟨⟨weight, i⟩, heap⟩ := popped
      have hheap := pop_min_perm hpop
      have hpopped : (weight, i) ∈ packing.heap := hheap.mem_iff.mpr List.mem_cons_self
      have hmem : ∀ entry ∈ heap, entry ∈ packing.heap :=
        fun entry hentry => hheap.mem_iff.mpr (List.mem_cons_of_mem _ hentry)
      have hdistinct : i ∉ heap.map Prod.snd ∧ (heap.map Prod.snd).Nodup :=
        List.nodup_cons.mp ((hheap.map Prod.snd).nodup_iff.mp hinv.distinct)
      have hi : i < numChunks := hinv.indices _ hpopped
      have hlength : (packing.chunks.modify i (· ++ [item])).length = numChunks := by
        rw [List.length_modify, hinv.length_eq]
      have hperm : (packing.chunks.modify i (· ++ [item])).flatten.Perm (packed ++ [item]) :=
        (flatten_modify_perm (by rw [hinv.length_eq]; exact hi) item).trans
          (hinv.perm.append_right [item])
      have hsizes : ∀ chunk ∈ packing.chunks.modify i (· ++ [item]), chunk.length ≤ size :=
        length_le_of_mem_modify hinv.sizes (hinv.room _ hpopped)
      -- The chunks that stay in the heap are not the one that grows.
      have hroom : ∀ entry ∈ heap,
          ((packing.chunks.modify i (· ++ [item])).getD entry.2 []).length < size := by
        intro entry hentry
        have hne : i ≠ entry.2 := by
          intro heq
          exact hdistinct.1 (heq ▸ List.mem_map_of_mem hentry)
        rw [getD_modify_ne _ hne]
        exact hinv.room _ (hmem entry hentry)
      rw [hpop] at h
      dsimp only at h
      -- A chunk that is full is not pushed back.
      split at h
      case isTrue hspace =>
        cases hweight : profile.addU64 weight (weightFn item) with
        | error message => rw [hweight] at h; cases h
        | ok newWeight =>
            rw [hweight] at h
            cases h
            refine ⟨hlength, hperm, hsizes, ?_, ?_, List.nodup_cons.mpr hdistinct⟩
            · intro entry hentry
              rcases List.mem_cons.mp hentry with rfl | hrest
              · exact hi
              · exact hinv.indices _ (hmem entry hrest)
            · intro entry hentry
              rcases List.mem_cons.mp hentry with rfl | hrest
              · exact hspace
              · exact hroom entry hrest
      case isFalse =>
        cases h
        exact ⟨hlength, hperm, hsizes, fun entry hentry => hinv.indices _ (hmem entry hentry),
          hroom, hdistinct.2⟩

/-- Packing a list of items. -/
theorem pack_items_inv {profile : BuildProfile} {size numChunks : Nat} {weightFn : α → UInt64}
    {packed items : List α} {packing final : Packing α}
    (hinv : PackingInv numChunks size packed packing)
    (h : items.foldlM (packItem profile size weightFn) packing = .ok final) :
    PackingInv numChunks size (packed ++ items) final := by
  induction items generalizing packed packing with
  | nil => cases h; rwa [List.append_nil]
  | cons item items ih =>
      rw [List.foldlM_cons] at h
      cases hnext : packItem profile size weightFn packing item with
      | error message => rw [hnext] at h; cases h
      | ok next =>
          rw [hnext] at h
          have hrest := ih (pack_item_inv hinv hnext) h
          rwa [List.append_assoc] at hrest

/-- With an empty list among them, lists within size do not fill the others' space. -/
theorem length_flatten_le_of_nil_mem {chunks : List (List α)} {size : Nat}
    (hsizes : ∀ chunk ∈ chunks, chunk.length ≤ size) (hnil : [] ∈ chunks) :
    chunks.flatten.length + size ≤ chunks.length * size := by
  have hall : ∀ {chunks : List (List α)}, (∀ chunk ∈ chunks, chunk.length ≤ size) →
      chunks.flatten.length ≤ chunks.length * size := by
    intro chunks hsizes
    induction chunks with
    | nil => simp
    | cons chunk chunks ih =>
        have hchunk := hsizes chunk List.mem_cons_self
        have hrest := ih fun other hother => hsizes other (List.mem_cons_of_mem _ hother)
        simp only [List.flatten_cons, List.length_append, List.length_cons, Nat.succ_mul]
        omega
  induction chunks with
  | nil => cases hnil
  | cons chunk chunks ih =>
      have hchunk := hsizes chunk List.mem_cons_self
      have hothers : ∀ other ∈ chunks, other.length ≤ size :=
        fun other hother => hsizes other (List.mem_cons_of_mem _ hother)
      simp only [List.flatten_cons, List.length_append, List.length_cons, Nat.succ_mul]
      rcases List.mem_cons.mp hnil with rfl | hrest
      · have := hall hothers
        rw [List.length_nil]
        omega
      · have := ih hothers hrest
        omega

/-- The chunks before any item is packed. -/
theorem packing_inv_start {numChunks size : Nat} (hsize : 0 < size) :
    PackingInv numChunks size ([] : List α)
      ⟨List.replicate numChunks [], (List.range numChunks).map fun i => (0, i)⟩ where
  length_eq := List.length_replicate
  perm := by simp
  sizes := by simp
  indices := by simp
  room := by
    intro entry _
    by_cases hlt : entry.2 < numChunks <;> simp [hlt, hsize]
  distinct := by simp [Function.comp_def, List.nodup_range]

/-- What the balanced packing returns for a non-empty list. -/
theorem chunk_fixed_inv {profile : BuildProfile} {items : List α} {size : NonZeroUsize}
    {weightFn : α → UInt64} {chunks : List (List α)} (hne : items ≠ [])
    (h : chunkFixedGeneric profile items size weightFn = .ok chunks) :
    chunks.length = (items.length + size.val - 1) / size.val ∧ chunks.flatten.Perm items ∧
      ∀ chunk ∈ chunks, chunk.length ≤ size.val := by
  unfold chunkFixedGeneric at h
  rw [if_neg (by simpa using hne)] at h
  dsimp only at h
  generalize (items.length + size.val - 1) / size.val = numChunks at h ⊢
  cases hpacked : (byWeight weightFn items).foldlM (packItem profile size.val weightFn)
      ⟨List.replicate numChunks [], (List.range numChunks).map fun i => (0, i)⟩ with
  | error message => rw [hpacked] at h; cases h
  | ok final =>
      rw [hpacked] at h
      cases h
      have hstart := @packing_inv_start α numChunks size.val (Nat.pos_of_ne_zero size.property)
      have hfinal := pack_items_inv hstart hpacked
      exact ⟨hfinal.length_eq, hfinal.perm.trans (List.perm_insertionSort _ items),
        hfinal.sizes⟩

/-- Balanced chunks hold every item once. -/
theorem chunk_fixed_perm {profile : BuildProfile} {items : List α} {size : NonZeroUsize}
    {weightFn : α → UInt64} {chunks : List (List α)}
    (h : chunkFixedGeneric profile items size weightFn = .ok chunks) :
    chunks.flatten.Perm items := by
  by_cases hne : items = []
  · subst hne
    cases h
    exact List.Perm.refl _
  · exact (chunk_fixed_inv hne h).2.1

/-- No balanced chunk is empty: the others could not hold all items. -/
theorem chunk_fixed_ne_nil {profile : BuildProfile} {items : List α} {size : NonZeroUsize}
    {weightFn : α → UInt64} {chunks : List (List α)}
    (h : chunkFixedGeneric profile items size weightFn = .ok chunks) : [] ∉ chunks := by
  by_cases hne : items = []
  · subst hne
    cases h
    exact List.not_mem_nil
  · obtain ⟨hlength, hperm, hsizes⟩ := chunk_fixed_inv hne h
    intro hnil
    have hfull := length_flatten_le_of_nil_mem hsizes hnil
    have hdiv := Nat.div_mul_le_self (items.length + size.val - 1) size.val
    have hpos : 0 < items.length := List.length_pos_of_ne_nil hne
    rw [hperm.length_eq, hlength] at hfull
    omega

/-- Every chunk with room is in the heap. -/
def HeapComplete (numChunks size : Nat) (packing : Packing α) : Prop :=
  ∀ i < numChunks, (packing.chunks.getD i []).length < size → i ∈ packing.heap.map Prod.snd

/-- Packing an item keeps every chunk with room in the heap. -/
theorem HeapComplete.pack {profile : BuildProfile} {size numChunks : Nat} {weightFn : α → UInt64}
    {packing next : Packing α} {item : α} (hcomplete : HeapComplete numChunks size packing)
    (h : packItem profile size weightFn packing item = .ok next) :
    HeapComplete numChunks size next := by
  unfold packItem at h
  cases hpop : popMin packing.heap with
  | none => rw [hpop] at h; cases h
  | some popped =>
      obtain ⟨⟨weight, i⟩, heap⟩ := popped
      have hrest : ∀ j < numChunks, j ≠ i →
          ((packing.chunks.modify i (· ++ [item])).getD j []).length < size →
            j ∈ heap.map Prod.snd := by
        intro j hj hne hroom
        rw [getD_modify_ne _ (Ne.symm hne)] at hroom
        have hmem := ((pop_min_perm hpop).map Prod.snd).mem_iff.mp (hcomplete j hj hroom)
        exact (List.mem_cons.mp hmem).resolve_left hne
      rw [hpop] at h
      dsimp only at h
      split at h
      case isTrue hspace =>
        cases hweight : profile.addU64 weight (weightFn item) with
        | error message => rw [hweight] at h; cases h
        | ok newWeight =>
            rw [hweight] at h
            cases h
            intro j hj hroom
            by_cases hji : j = i
            · exact hji ▸ List.mem_cons_self
            · exact List.mem_cons_of_mem _ (hrest j hj hji hroom)
      case isFalse hfull =>
        cases h
        intro j hj hroom
        by_cases hji : j = i
        · subst hji
          exact absurd hroom hfull
        · exact hrest j hj hji hroom

/-- Lists of at least a given length together. -/
theorem mul_le_length_flatten {chunks : List (List α)} {size : Nat}
    (hsizes : ∀ chunk ∈ chunks, size ≤ chunk.length) :
    chunks.length * size ≤ chunks.flatten.length := by
  induction chunks with
  | nil => simp
  | cons chunk chunks ih =>
      have hchunk := hsizes chunk List.mem_cons_self
      have hrest := ih fun other hother => hsizes other (List.mem_cons_of_mem _ hother)
      rw [List.flatten_cons, List.length_append, List.length_cons, Nat.succ_mul]
      omega

/-- As long as items fit, an item can be packed if its addition does not panic. -/
theorem pack_item_ok {profile : BuildProfile} {size numChunks : Nat} {weightFn : α → UInt64}
    {packed : List α} {packing : Packing α} (hchecks : profile.overflowChecks = false)
    (hinv : PackingInv numChunks size packed packing)
    (hcomplete : HeapComplete numChunks size packing)
    (hroom : packed.length < numChunks * size) (item : α) :
    ∃ next, packItem profile size weightFn packing item = .ok next := by
  unfold packItem
  cases hpop : popMin packing.heap with
  | none =>
      have hfull : ∀ chunk ∈ packing.chunks, size ≤ chunk.length := by
        intro chunk hchunk
        obtain ⟨j, hj, rfl⟩ := List.mem_iff_getElem.mp hchunk
        refine Nat.le_of_not_lt fun hlt => ?_
        have hmem := hcomplete j (hinv.length_eq ▸ hj) (by
          rw [List.getD_eq_getElem?_getD, List.getElem?_eq_getElem hj]
          exact hlt)
        rw [pop_min_eq_none.mp hpop] at hmem
        cases hmem
      have hlength := mul_le_length_flatten hfull
      rw [hinv.length_eq, hinv.perm.length_eq] at hlength
      omega
  | some popped =>
      obtain ⟨⟨weight, i⟩, heap⟩ := popped
      have hadd : profile.addU64 weight (weightFn item) = .ok (weight + weightFn item) := by
        simp [BuildProfile.addU64, hchecks]
      dsimp only
      rw [hadd]
      split
      · exact ⟨_, rfl⟩
      · exact ⟨_, rfl⟩

/-- Without overflow checks items are packed as long as they fit. -/
theorem pack_items_ok {profile : BuildProfile} {size numChunks : Nat} {weightFn : α → UInt64}
    {packed items : List α} {packing : Packing α} (hchecks : profile.overflowChecks = false)
    (hinv : PackingInv numChunks size packed packing)
    (hcomplete : HeapComplete numChunks size packing)
    (hroom : packed.length + items.length ≤ numChunks * size) :
    ∃ final, items.foldlM (packItem profile size weightFn) packing = .ok final := by
  induction items generalizing packed packing with
  | nil => exact ⟨packing, rfl⟩
  | cons item items ih =>
      rw [List.length_cons] at hroom
      obtain ⟨next, hnext⟩ := @pack_item_ok _ _ _ _ weightFn _ _ hchecks hinv hcomplete
        (by omega) item
      rw [List.foldlM_cons, hnext]
      refine ih (pack_item_inv hinv hnext) (hcomplete.pack hnext) ?_
      rw [List.length_append, List.length_singleton]
      omega

/-- Without overflow checks the balanced packing returns. -/
theorem chunk_fixed_ok {profile : BuildProfile} (hchecks : profile.overflowChecks = false)
    (items : List α) (size : NonZeroUsize) (weightFn : α → UInt64) :
    ∃ chunks, chunkFixedGeneric profile items size weightFn = .ok chunks := by
  unfold chunkFixedGeneric
  split
  · exact ⟨[], rfl⟩
  · have hpos : 0 < size.val := Nat.pos_of_ne_zero size.property
    let numChunks := (items.length + size.val - 1) / size.val
    have hroom : ([] : List α).length + (byWeight weightFn items).length ≤
        numChunks * size.val := by
      have hlength : (byWeight weightFn items).length = items.length :=
        List.length_insertionSort _ _
      have hdiv := Nat.div_add_mod' (items.length + size.val - 1) size.val
      have hmod := Nat.mod_lt (items.length + size.val - 1) hpos
      rw [hlength, List.length_nil]
      show 0 + items.length ≤ (items.length + size.val - 1) / size.val * size.val
      omega
    have hcomplete : HeapComplete numChunks size.val
        (⟨List.replicate numChunks ([] : List α),
          (List.range numChunks).map fun i => (0, i)⟩ : Packing α) := by
      intro i hi _
      rw [List.map_map]
      exact List.mem_map.mpr ⟨i, List.mem_range.mpr hi, rfl⟩
    obtain ⟨final, hfinal⟩ := @pack_items_ok _ _ _ _ weightFn _ _ _ hchecks
      (packing_inv_start hpos) hcomplete hroom
    exact ⟨final.chunks, congrArg (Except.map Packing.chunks) hfinal⟩

/-- `packItem` with the index of the popped chunk checked. -/
def packItemIndexed (profile : BuildProfile) (size : Nat) (weightFn : α → UInt64)
    (packing : Packing α) (input : α) : MayPanic (Packing α) :=
  match popMin packing.heap with
  | some ((_, idx), _) =>
      if idx < packing.chunks.length then packItem profile size weightFn packing input
      else .error "index out of bounds"
  | none => packItem profile size weightFn packing input

/-- The index is in range as long as the heap names chunks. -/
theorem pack_item_indexed_eq {profile : BuildProfile} {size numChunks : Nat}
    {weightFn : α → UInt64} {packed : List α} {packing : Packing α}
    (hinv : PackingInv numChunks size packed packing) (item : α) :
    packItemIndexed profile size weightFn packing item =
      packItem profile size weightFn packing item := by
  unfold packItemIndexed
  cases hpop : popMin packing.heap with
  | none => rfl
  | some popped =>
      obtain ⟨least, rest⟩ := popped
      have hmem : least ∈ packing.heap := (pop_min_perm hpop).mem_iff.mpr List.mem_cons_self
      have hlt : least.2 < packing.chunks.length := by
        rw [hinv.length_eq]
        exact hinv.indices least hmem
      exact if_pos hlt

/-- No index of a packing is out of range. -/
theorem pack_items_indexed_eq {profile : BuildProfile} {size numChunks : Nat}
    {weightFn : α → UInt64} {packed : List α} {packing : Packing α}
    (hinv : PackingInv numChunks size packed packing) (items : List α) :
    items.foldlM (packItemIndexed profile size weightFn) packing =
      items.foldlM (packItem profile size weightFn) packing := by
  induction items generalizing packed packing with
  | nil => rfl
  | cons item items ih =>
      rw [List.foldlM_cons, List.foldlM_cons, pack_item_indexed_eq hinv]
      cases hnext : packItem profile size weightFn packing item with
      | error message => rfl
      | ok next => exact ih (pack_item_inv hinv hnext)

/-- `chunkFixedGeneric` with its indices checked. -/
def chunkFixedIndexed (profile : BuildProfile) (items : List α) (size : NonZeroUsize)
    (weightFn : α → UInt64) : MayPanic (List (List α)) :=
  if items.isEmpty then .ok []
  else
    let numChunks := (items.length + size.val - 1) / size.val
    let start : Packing α :=
      ⟨List.replicate numChunks [], (List.range numChunks).map fun i => (0, i)⟩
    ((byWeight weightFn items).foldlM (packItemIndexed profile size.val weightFn) start).map
      Packing.chunks

/-- The balanced packing indexes chunks that exist. -/
theorem chunk_fixed_indexed_eq (profile : BuildProfile) (items : List α) (size : NonZeroUsize)
    (weightFn : α → UInt64) :
    chunkFixedIndexed profile items size weightFn =
      chunkFixedGeneric profile items size weightFn := by
  unfold chunkFixedIndexed chunkFixedGeneric
  split
  case isTrue => rfl
  case isFalse =>
    dsimp only
    rw [pack_items_indexed_eq (packing_inv_start (Nat.pos_of_ne_zero size.property))]

/-! ## Buckets -/

/-- Buckets keep all items in order. -/
theorem bucket_flatten (maxBatch : Nat) (isSmall : α → Bool) (current items : List α) :
    (bucketGeneric maxBatch isSmall current items).flatten = current ++ items := by
  induction items generalizing current with
  | nil => cases current <;> simp [bucketGeneric]
  | cons item items ih =>
      unfold bucketGeneric
      dsimp only
      split
      · split
        · simp [ih]
        · simp [ih]
      · split
        case isTrue hempty =>
          rw [List.isEmpty_iff] at hempty
          simp [ih, hempty]
        case isFalse => simp [ih]

/-- No bucket is empty. -/
theorem bucket_ne_nil (maxBatch : Nat) (isSmall : α → Bool) (current items : List α) :
    [] ∉ bucketGeneric maxBatch isSmall current items := by
  induction items generalizing current with
  | nil => cases current <;> simp [bucketGeneric]
  | cons item items ih =>
      unfold bucketGeneric
      dsimp only
      split
      · split
        · simp [ih]
        · exact ih _
      · split
        · simp [ih]
        case isFalse hcurrent =>
          rw [List.isEmpty_iff] at hcurrent
          simp [ih, Ne.symm hcurrent]

/-- Buckets have at most `maxBatch` items, and only small items share a bucket. -/
theorem bucket_members {maxBatch : Nat} {isSmall : α → Bool} {current items : List α}
    (hlength : current.length < maxBatch) (hsmall : ∀ item ∈ current, isSmall item = true) :
    ∀ bucket ∈ bucketGeneric maxBatch isSmall current items, bucket.length ≤ maxBatch ∧
      (1 < bucket.length → ∀ item ∈ bucket, isSmall item = true) := by
  have hpos : 0 < maxBatch := Nat.lt_of_le_of_lt (Nat.zero_le _) hlength
  induction items generalizing current with
  | nil =>
      intro bucket hbucket
      unfold bucketGeneric at hbucket
      split at hbucket
      · cases hbucket
      · rw [List.mem_singleton.mp hbucket]
        exact ⟨Nat.le_of_lt hlength, fun _ => hsmall⟩
  | cons item items ih =>
      -- After a bucket is closed the next one starts empty.
      have hempty := @ih [] hpos nofun
      intro bucket hbucket
      unfold bucketGeneric at hbucket
      dsimp only at hbucket
      split at hbucket
      case isTrue hitem =>
        have hmore : ∀ other ∈ current ++ [item], isSmall other = true := by
          intro other hother
          rcases List.mem_append.mp hother with hold | hnew
          · exact hsmall other hold
          · rw [List.mem_singleton.mp hnew]
            exact hitem
        have hlong : (current ++ [item]).length ≤ maxBatch := by
          rw [List.length_append, List.length_singleton]
          omega
        split at hbucket
        case isTrue =>
          rcases List.mem_cons.mp hbucket with rfl | hrest
          · exact ⟨hlong, fun _ => hmore⟩
          · exact hempty bucket hrest
        case isFalse hroom => exact ih (Nat.lt_of_not_le hroom) hmore bucket hbucket
      case isFalse =>
        have hsingle : ([item] : List α).length ≤ maxBatch ∧
            (1 < ([item] : List α).length → ∀ other ∈ [item], isSmall other = true) :=
          ⟨hpos, fun hmany => absurd hmany (Nat.lt_irrefl 1)⟩
        split at hbucket
        · rcases List.mem_cons.mp hbucket with rfl | hrest
          · exact hsingle
          · exact hempty bucket hrest
        · rcases List.mem_cons.mp hbucket with rfl | hmid
          · exact ⟨Nat.le_of_lt hlength, fun _ => hsmall⟩
          rcases List.mem_cons.mp hmid with rfl | hrest
          · exact hsingle
          · exact hempty bucket hrest

/-! ## All modes -/

/-- The members of explicit selections. -/
theorem flat_map_explicit (tests : List α) (groups : List (List α)) :
    (groups.map TestSelection.explicit).flatMap (TestSelection.membersOf tests) =
      groups.flatten := by
  rw [List.flatMap_map]
  exact (List.flatten_eq_flatMap).symm

/-- A partition into chunks of a fixed size. -/
theorem partition_chunks [Batchable α] {size : NonZeroUsize} {profile : BuildProfile}
    {tests : List α} {selections : List (TestSelection α)}
    (h : (BatchMode.fixedChunk size).partition profile tests = .ok selections) :
    ∃ chunks, chunkFixedGeneric profile tests size Batchable.weightMs = .ok chunks ∧
      selections = chunks.map .explicit := by
  simp only [BatchMode.partition] at h
  cases hchunks : chunkFixedGeneric profile tests size Batchable.weightMs with
  | error message => rw [hchunks] at h; cases h
  | ok chunks =>
      rw [hchunks] at h
      exact ⟨chunks, rfl, (Except.ok.inj h).symm⟩

/-- Every batch mode puts every test into exactly one batch. -/
theorem partition_perm [Batchable α] {mode : BatchMode} {profile : BuildProfile}
    {tests : List α} {selections : List (TestSelection α)}
    (h : mode.partition profile tests = .ok selections) :
    (selections.flatMap (TestSelection.membersOf tests)).Perm tests := by
  cases mode with
  | perTest =>
      cases h
      rw [List.flatMap_map]
      simp [TestSelection.membersOf]
  | target => cases h; simp [TestSelection.membersOf]
  | durationBucketed p50LtMs =>
      cases h
      rw [flat_map_explicit, bucket_flatten, List.nil_append]
  | fixedChunk size =>
      obtain ⟨chunks, hchunks, rfl⟩ := partition_chunks h
      rw [flat_map_explicit]
      exact chunk_fixed_perm hchunks

/-- No batch names nothing. -/
theorem explicit_nil_not_mem_partition [Batchable α] {mode : BatchMode} {profile : BuildProfile}
    {tests : List α} {selections : List (TestSelection α)}
    (h : mode.partition profile tests = .ok selections) : .explicit [] ∉ selections := by
  have hgroups : ∀ groups : List (List α), [] ∉ groups →
      .explicit [] ∉ groups.map TestSelection.explicit := by
    intro groups hne hmem
    obtain ⟨group, hgroup, heq⟩ := List.mem_map.mp hmem
    cases heq
    exact hne hgroup
  cases mode with
  | perTest => cases h; simp
  | target => cases h; simp
  | durationBucketed p50LtMs => cases h; exact hgroups _ (bucket_ne_nil _ _ _ _)
  | fixedChunk size =>
      obtain ⟨chunks, hchunks, rfl⟩ := partition_chunks h
      exact hgroups _ (chunk_fixed_ne_nil hchunks)

/-- Only target batching makes a selection of everything. -/
theorem target_of_all_mem_partition [Batchable α] {mode : BatchMode} {profile : BuildProfile}
    {tests : List α} {selections : List (TestSelection α)}
    (h : mode.partition profile tests = .ok selections) (hall : .all ∈ selections) :
    mode = .target := by
  cases mode with
  | target => rfl
  | perTest => cases h; simp at hall
  | durationBucketed p50LtMs => cases h; simp at hall
  | fixedChunk size =>
      obtain ⟨chunks, -, rfl⟩ := partition_chunks h
      simp at hall

end Partition

end Quokka
