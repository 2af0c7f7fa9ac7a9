import AndroidSdk.Androidfw.TypeChunk

/-! # Two readers of a type chunk

`TypeVariant` walks over the entries of a chunk with an iterator
(`libs/androidfw/TypeWrappers.cpp`), where `GetEntryOffset` looks one of them up.
`VerifyResTableType` makes room for two bytes for each entry if the offsets have 16 bits, also in a
sparse chunk, whose entries have four.

* **`TypeVariant`**, **`Iterator.next`**, **`Iterator.deref`** — the iterator.
* **`ReadersAgree`** — both readers find the same offset for every index, inside the chunk.
* **`readersAgree_iff`** — exactly when they do. -/

namespace AndroidSdk.Androidfw

open Lib

/-! ## The iterator -/

/-- `TypeVariant`. -/
structure TypeVariant where
  data : ResTableType
  mLength : ℕ
  mSparse : Bool

/-- The constructor of `TypeVariant`. -/
def TypeVariant.new (data : ResTableType) : Except ReadFault TypeVariant := do
  if data.isSparse then
    if data.size < data.headerSize + 4 * data.entryCount then return ⟨data, 0, true⟩
    return ⟨data, (← data.sparseIdx (data.entryCount - 1)) + 1, true⟩
  return ⟨data, data.entryCount, false⟩

/-- `TypeVariant::iterator`. -/
structure Iterator where
  mIndex : ℕ
  mSparseIndex : ℕ

namespace Iterator

variable (variant : TypeVariant)

/-- `operator++`. -/
def next (it : Iterator) : Except ReadFault Iterator := do
  let mIndex := if variant.mLength < it.mIndex + 1 then variant.mLength else it.mIndex + 1
  if !variant.mSparse then return { it with mIndex }
  if variant.data.entryCount ≤ it.mSparseIndex then return { it with mIndex }
  if (← variant.data.sparseIdx it.mSparseIndex) < mIndex then
    return ⟨mIndex, it.mSparseIndex + 1⟩
  return { it with mIndex }

/-- `operator*`, up to the offset in the index array. -/
def entryOffset (it : Iterator) : Except ReadFault (Option ℕ) := do
  if variant.mLength ≤ it.mIndex then return none
  let type := variant.data
  let indexSize := if type.isOffset16 then 2 else 4
  if type.size < type.headerSize + indexSize * type.entryCount then return none
  let entryOffset ←
    if variant.mSparse then
      if type.entryCount ≤ it.mSparseIndex then return none
      if (← type.sparseIdx it.mSparseIndex) ≠ it.mIndex then return none
      pure ((← type.sparseOffset it.mSparseIndex) * 4)
    else type.denseOffset it.mIndex
  if entryOffset = noEntry then return none
  return some entryOffset

/-- `operator*`: the address of the entry. -/
def deref (it : Iterator) : Except ReadFault (Option ℕ) := do
  match ← it.entryOffset variant with
  | none => return none
  | some entryOffset =>
      if entryOffset % 4 ≠ 0 then return none
      let entry := variant.data.entriesStart + entryOffset
      if variant.data.size - 8 < entry then return none
      let entrySize ← variant.data.entrySize entry
      if variant.data.size < entry + entrySize then return none
      if entrySize < 8 then return none
      return some entry

/-- `beginEntries`, and `operator++` the given number of times. -/
def stepTo : ℕ → Except ReadFault Iterator
  | 0 => .ok ⟨0, 0⟩
  | steps + 1 => do (← stepTo steps).next variant

end Iterator

/-- The offset in the index array for an index to which the iterator is stepped. -/
def steppedOffset (type : ResTableType) (entryIndex : UInt16) : Except ReadFault (Option ℕ) := do
  let variant ← TypeVariant.new type
  (← Iterator.stepTo variant entryIndex.toNat).entryOffset variant

/-- Both readers find the same offset, or none, for every index, and read only inside the chunk. -/
def ReadersAgree (type : ResTableType) : Prop :=
  ∀ entryIndex : UInt16, ∃ found,
    getEntryOffset type entryIndex = .ok found ∧ steppedOffset type entryIndex = .ok found

/-! ## Dense chunks -/

section Dense

variable {type : ResTableType}

/-- The iterator of a dense chunk counts up to the number of entries. -/
theorem stepTo_dense (steps : ℕ) : Iterator.stepTo ⟨type, type.entryCount, false⟩ steps
    = .ok ⟨min steps type.entryCount, 0⟩ := by
  induction steps with
  | zero => simp [Iterator.stepTo]
  | succ steps ih =>
      rw [Iterator.stepTo, ih, bind_ok, Iterator.next]
      simp only [Bool.not_false, if_true, pure, Except.pure]
      congr 2
      split <;> omega

/-- **The readers of a dense chunk agree.** -/
theorem readersAgree_of_dense (hverify : verifyResTableType type = true)
    (hdense : type.isSparse = false) : ReadersAgree type := by
  intro entryIndex
  have hroom := type.offsets_le hverify
  have hstepped : steppedOffset type entryIndex = Iterator.entryOffset
      ⟨type, type.entryCount, false⟩ ⟨min entryIndex.toNat type.entryCount, 0⟩ := by
    rw [steppedOffset, TypeVariant.new, hdense, if_neg Bool.false_ne_true]
    show (do (← Iterator.stepTo _ _).entryOffset _) = _
    rw [stepTo_dense, bind_ok]
  rw [hstepped, getEntryOffset, hdense, if_neg Bool.false_ne_true, Iterator.entryOffset]
  by_cases hindex : type.entryCount ≤ entryIndex.toNat
  · rw [if_pos hindex]
    refine ⟨none, rfl, ?_⟩
    rw [if_pos (by simp [hindex])]
    rfl
  · rw [if_neg hindex]
    have hmin : min entryIndex.toNat type.entryCount = entryIndex.toNat := by omega
    -- the offset is inside the chunk
    obtain ⟨offset, hoffset⟩ := type.exists_denseOffset hverify (Nat.not_le.mp hindex)
    simp only [hmin, if_neg hindex, if_neg (Nat.not_lt.mpr hroom), Bool.false_eq_true, if_false,
      hoffset, bind_ok]
    exact ⟨if offset = noEntry then none else some offset, by split <;> rfl, by split <;> rfl⟩

end Dense

/-! ## Sparse chunks -/

section Sparse

variable {type : ResTableType}

/-- The indices increase, if the index array is inside the chunk. -/
theorem idx_lt_idx (hfits : type.SparseFits) (hincreasing : type.Increasing) :
    ∀ i j, i < j → j < type.entryCount → type.idx i < type.idx j := by
  intro i j hij hj
  unfold ResTableType.SparseFits at hfits
  exact hincreasing i j hij hj (by omega)

/-- The offset under an index, for the first entry whose index is not before it. -/
def sparseFound (type : ResTableType) (entryIndex c : ℕ) : Option ℕ :=
  if c < type.entryCount ∧ type.idx c = entryIndex then
    some (fieldAt type.chunk (type.headerSize + 4 * c + 2) 2 * 4)
  else none

/-- **What `GetEntryOffset` finds in a sparse chunk**, if the index array is inside of it. -/
theorem getEntryOffset_sparse (hsparse : type.isSparse = true) (hfits : type.SparseFits)
    (hincreasing : type.Increasing) (entryIndex : UInt16) :
    ∃ c, FirstNotBefore (fun j => type.idx j < entryIndex.toNat) type.entryCount c ∧
      getEntryOffset type entryIndex = .ok (sparseFound type entryIndex.toNat c) := by
  have hread : ∀ i < type.entryCount, (do return (← type.sparseIdx i) < entryIndex.toNat :
      Except ReadFault Bool) = .ok (decide (type.idx i < entryIndex.toNat)) := by
    intro i hi
    rw [ResTableType.sparseIdx_eq_ok hfits hi]
    rfl
  have hmono : ∀ i j, i ≤ j → j < type.entryCount →
      decide (type.idx j < entryIndex.toNat) = true →
      decide (type.idx i < entryIndex.toNat) = true := by
    intro i j hij hj hlt
    rw [decide_eq_true_eq] at hlt ⊢
    rcases Nat.eq_or_lt_of_le hij with rfl | hij
    · exact hlt
    · exact lt_trans (idx_lt_idx hfits hincreasing i j hij hj) hlt
  obtain ⟨c, hc, hfound⟩ := exists_lowerBoundM hread hmono
  simp only [decide_eq_true_eq] at hfound
  refine ⟨c, hfound, ?_⟩
  rw [getEntryOffset, if_pos hsparse, hc, bind_ok, sparseFound]
  by_cases hlast : c = type.entryCount
  · rw [if_pos hlast, if_neg (by omega)]
    rfl
  · have hlt : c < type.entryCount := by
      have := hfound.le
      omega
    rw [if_neg hlast, ResTableType.sparseIdx_eq_ok hfits hlt,
      ResTableType.sparseOffset_eq_ok hfits hlt]
    by_cases hidx : type.idx c = entryIndex.toNat
    · simp [bind_ok, hidx, hlt, pure, Except.pure]
    · simp [bind_ok, hidx, pure, Except.pure]

/-- **The iterator of a sparse chunk** follows the indices, up to its end. -/
theorem stepTo_sparse (hfits : type.SparseFits) (hincreasing : type.Increasing) (length steps : ℕ) :
    ∃ it, Iterator.stepTo ⟨type, length, true⟩ steps = .ok it ∧ it.mIndex = min steps length ∧
      (steps ≤ length →
        FirstNotBefore (fun j => type.idx j < steps) type.entryCount it.mSparseIndex) := by
  induction steps with
  | zero =>
      refine ⟨⟨0, 0⟩, rfl, by simp, fun _ => ⟨Nat.zero_le _, ?_, fun j _ _ => Nat.not_lt_zero _⟩⟩
      exact fun j hj => absurd hj (Nat.not_lt_zero j)
  | succ steps ih =>
      obtain ⟨it, hit, hindex, hsparse⟩ := ih
      have hmin : (if length < it.mIndex + 1 then length else it.mIndex + 1)
          = min (steps + 1) length := by
        rw [hindex]
        split <;> omega
      have hnext : it.next ⟨type, length, true⟩ = .ok ⟨min (steps + 1) length,
          if it.mSparseIndex < type.entryCount ∧ type.idx it.mSparseIndex < min (steps + 1) length
          then it.mSparseIndex + 1 else it.mSparseIndex⟩ := by
        rw [Iterator.next]
        simp only [hmin, Bool.not_true, Bool.false_eq_true, if_false]
        by_cases hdone : type.entryCount ≤ it.mSparseIndex
        · rw [if_pos hdone, if_neg (by omega)]
          rfl
        · rw [if_neg hdone, ResTableType.sparseIdx_eq_ok hfits (by omega), bind_ok]
          by_cases hpass : type.idx it.mSparseIndex < min (steps + 1) length
          · rw [if_pos hpass, if_pos ⟨by omega, hpass⟩]
            rfl
          · rw [if_neg hpass, if_neg (fun h => hpass h.2)]
            rfl
      rw [Iterator.stepTo, hit, bind_ok, hnext]
      refine ⟨_, rfl, rfl, fun hle => ?_⟩
      rw [Nat.min_eq_left hle]
      exact (hsparse (by omega)).advance (idx_lt_idx hfits hincreasing)

/-- **The readers of a sparse chunk agree**, if its index array is inside. -/
theorem readersAgree_of_fits (hverify : verifyResTableType type = true)
    (hcount : 1 ≤ type.entryCount) (hsparse : type.isSparse = true) (hfits : type.SparseFits)
    (hincreasing : type.Increasing) : ReadersAgree type := by
  intro entryIndex
  obtain ⟨c, hc, hfound⟩ := getEntryOffset_sparse hsparse hfits hincreasing entryIndex
  refine ⟨_, hfound, ?_⟩
  have hroom := type.offsets_le hverify
  have hlast := ResTableType.sparseIdx_eq_ok hfits (i := type.entryCount - 1) (by omega)
  have hnew : TypeVariant.new type
      = .ok ⟨type, type.idx (type.entryCount - 1) + 1, true⟩ := by
    rw [TypeVariant.new, if_pos hsparse, if_neg (Nat.not_lt.mpr hfits), hlast]
    rfl
  obtain ⟨it, hit, hindex, hbefore⟩ := stepTo_sparse hfits hincreasing
    (type.idx (type.entryCount - 1) + 1) entryIndex.toNat
  rw [steppedOffset, hnew, bind_ok, hit, bind_ok, Iterator.entryOffset, hindex, sparseFound]
  by_cases hend : type.idx (type.entryCount - 1) + 1 ≤ entryIndex.toNat
  · -- the last index is before the one that is looked for
    have hnone : ¬ c < type.entryCount := by
      intro hlt
      refine hc.notBefore (type.entryCount - 1) (by omega) (by omega) ?_
      omega
    rw [if_pos (le_min hend le_rfl), if_neg (fun h => hnone h.1)]
    rfl
  · obtain rfl := hc.unique (hbefore (by omega))
    have hlt : it.mSparseIndex < type.entryCount := by
      by_contra hout
      have := hc.before (type.entryCount - 1) (by omega)
      omega
    have hmin : min entryIndex.toNat (type.idx (type.entryCount - 1) + 1) = entryIndex.toNat := by
      omega
    simp only [hmin, if_neg hend, if_neg (Nat.not_lt.mpr hroom), if_neg (Nat.not_le.mpr hlt),
      ResTableType.sparseIdx_eq_ok hfits hlt, ResTableType.sparseOffset_eq_ok hfits hlt, bind_ok,
      if_true]
    by_cases hidx : type.idx it.mSparseIndex = entryIndex.toNat
    · -- an offset of 16 bits times four is not `NO_ENTRY`
      have hoffset := fieldAt_lt type.chunk (type.headerSize + 4 * it.mSparseIndex + 2) 2
      have hentry : fieldAt type.chunk (type.headerSize + 4 * it.mSparseIndex + 2) 2 * 4
          ≠ noEntry := by
        unfold noEntry
        omega
      rw [if_neg (not_not.mpr hidx), if_pos ⟨hlt, hidx⟩]
      simp only [pure, Except.pure]
      show (if _ = noEntry then _ else _) = _
      rw [if_neg hentry]
    · rw [if_pos hidx, if_neg (fun h => hidx h.2)]
      rfl

/-- Without room for the index array the iterator finds nothing. -/
theorem eq_none_of_steppedOffset (hsparse : type.isSparse = true) (hfits : ¬ type.SparseFits)
    {entryIndex : UInt16} {found : Option ℕ} (h : steppedOffset type entryIndex = .ok found) :
    found = none := by
  have hnew : TypeVariant.new type = .ok ⟨type, 0, true⟩ := by
    rw [TypeVariant.new, if_pos hsparse, if_pos (Nat.not_le.mp hfits)]
    rfl
  rw [steppedOffset, hnew, bind_ok] at h
  obtain ⟨it, -, h⟩ := bind_eq_ok_iff.mp h
  rw [Iterator.entryOffset, if_pos (Nat.zero_le it.mIndex)] at h
  cases h
  rfl

/-- **The readers of a sparse chunk do not agree** if its index array is not inside: the first entry
is found by one of them only, or by none without a read outside the chunk. -/
theorem not_readersAgree (hverify : verifyResTableType type = true) (hcount : 1 ≤ type.entryCount)
    (hsparse : type.isSparse = true) (hfits : ¬ type.SparseFits)
    (hincreasing : type.Increasing) : ¬ ReadersAgree type := by
  intro hagree
  have htoNat : (UInt16.ofNat (type.idx 0)).toNat = type.idx 0 :=
    Nat.mod_eq_of_lt (type.idx_lt 0)
  obtain ⟨found, hfound, hstepped⟩ := hagree (UInt16.ofNat (type.idx 0))
  obtain rfl := eq_none_of_steppedOffset hsparse hfits hstepped
  -- there is room for the first entry
  have hfirst : type.headerSize + 4 * 1 ≤ type.size := by
    have hroom := type.offsets_le hverify
    have htwo : 2 ≤ (if type.isOffset16 then 2 else 4) * type.entryCount := by
      split <;> omega
    exact ResTableType.sparse_inside (by omega)
  -- no entry that can be read is before it
  have hbefore : ∀ i, (do return (← type.sparseIdx i) < (UInt16.ofNat (type.idx 0)).toNat :
      Except ReadFault Bool) ≠ .ok true := by
    intro i htrue
    obtain ⟨n, hn, hlt⟩ := bind_eq_ok_iff.mp htrue
    obtain ⟨hinside, rfl⟩ := ResTableType.read_eq_ok_iff.mp hn
    have hlt : type.idx i < type.idx 0 := by
      rw [← htoNat]
      simpa [pure, Except.pure, ResTableType.idx] using hlt
    have hi : 0 < i := by
      by_contra hzero
      obtain rfl : i = 0 := by omega
      exact lt_irrefl _ hlt
    have hwhole := ResTableType.sparse_inside hinside
    have hcount : i < type.entryCount := by
      unfold ResTableType.SparseFits at hfits
      omega
    exact lt_asymm hlt (hincreasing 0 i hi hcount hwhole)
  rw [getEntryOffset, if_pos hsparse] at hfound
  obtain ⟨c, hc, hfound⟩ := bind_eq_ok_iff.mp hfound
  obtain rfl := lowerBoundM_eq_zero hbefore hc
  have hzero : type.sparseIdx 0 = .ok (type.idx 0) := by
    rw [ResTableType.sparseIdx, ResTableType.read_eq_ok (by omega), ResTableType.idx]
  have hoffset : type.sparseOffset 0
      = .ok (fieldAt type.chunk (type.headerSize + 4 * 0 + 2) 2) := by
    rw [ResTableType.sparseOffset, ResTableType.read_eq_ok (by omega)]
  rw [if_neg (by omega), hzero, hoffset] at hfound
  simp [bind_ok, htoNat, pure, Except.pure] at hfound

end Sparse

/-! ## All chunks -/

/-- **The two readers of a type chunk.** For every chunk with an entry that is accepted, sparse with
increasing indices or dense, they find the same offset for every index and read only inside the
chunk, exactly if the chunk is dense or has room for a sparse index array. -/
theorem readersAgree_iff (type : ResTableType) (hverify : verifyResTableType type = true)
    (hcount : 1 ≤ type.entryCount) (hincreasing : type.isSparse = true → type.Increasing) :
    ReadersAgree type ↔ (type.isSparse = true → type.SparseFits) := by
  cases hsparse : type.isSparse with
  | false => exact iff_of_true (readersAgree_of_dense hverify hsparse) nofun
  | true =>
      constructor
      · intro hagree _
        by_contra hfits
        exact not_readersAgree hverify hcount hsparse hfits (hincreasing hsparse) hagree
      · intro hfits
        exact readersAgree_of_fits hverify hcount hsparse (hfits rfl) (hincreasing hsparse)

/-- A sparse chunk with offsets of 16 bits and two entries, of which one is inside. -/
def shortSparseType : ResTableType where
  chunk := [1, 2, 24, 0, 28, 0, 0, 0, 1, 3, 0, 0, 2, 0, 0, 0, 28, 0, 0, 0, 0, 0, 0, 0, 0, 0, 9, 0]
  size_eq := by decide
  minSize_le := by decide
  headerSize_le := by decide
  headerSize_aligned := by decide
  size_aligned := by decide

/-- A sparse chunk with two entries. -/
def sparseType : ResTableType where
  chunk := [1, 2, 24, 0, 32, 0, 0, 0, 1, 1, 0, 0, 2, 0, 0, 0, 32, 0, 0, 0, 0, 0, 0, 0,
    0, 0, 9, 0, 3, 0, 11, 0]
  size_eq := by decide
  minSize_le := by decide
  headerSize_le := by decide
  headerSize_aligned := by decide
  size_aligned := by decide

/-- The readers of the chunk agree on its two entries, and on those between them that are missing. -/
theorem readersAgree_iff_sparseType : ReadersAgree sparseType := by
  have hincreasing : sparseType.Increasing := by
    intro i j hij hj
    have hcount : sparseType.entryCount = 2 := by decide
    obtain rfl : i = 0 := by omega
    obtain rfl : j = 1 := by omega
    exact fun _ => by decide
  exact (readersAgree_iff sparseType (by decide) (by decide) fun _ => hincreasing).mpr
    fun _ => by unfold ResTableType.SparseFits; decide

/-- The chunk with one entry inside is accepted, but a lookup in it reads behind its end, where the
iterator finds nothing. -/
theorem not_readersAgree_shortSparseType :
    verifyResTableType shortSparseType = true ∧ shortSparseType.Increasing ∧
      getEntryOffset shortSparseType 0 = .error .outside ∧
      steppedOffset shortSparseType 0 = .ok none ∧ ¬ ReadersAgree shortSparseType := by
  have houtside : getEntryOffset shortSparseType 0 = .error .outside := rfl
  refine ⟨by decide, ?_, houtside, rfl, ?_⟩
  · intro i j hij hj hinside
    have hheader : shortSparseType.headerSize = 24 := by decide
    have hsize : shortSparseType.size = 28 := by decide
    omega
  · intro hagree
    obtain ⟨found, hfound, -⟩ := hagree 0
    rw [houtside] at hfound
    cases hfound

end AndroidSdk.Androidfw
