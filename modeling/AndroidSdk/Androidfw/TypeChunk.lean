import AndroidSdk.Androidfw.ResStringPool
import AndroidSdk.Lib.ProbedSearch
import AndroidSdk.Lib.Run

/-! # Type chunks in memory

`LoadedPackage` reads the entries of a `ResTable_type` chunk where it lies
(`libs/androidfw/LoadedArsc.cpp`). Addresses count from the beginning of the chunk, all of which is
in memory, and a read that is not inside of it is a fault.

* **`ResTableType`** — a chunk as `ChunkIterator` and `Chunk::header` pass it on.
* **`verifyResTableType`** — the checks before the chunk is accepted.
* **`getEntryOffset`** — the lookup in its index array.
* **`verifyResTableEntry`**, **`getEntry`** — the entry at an offset, after its checks.
* **`offsets_le`**, **`SparseFits`** — the room for the index array. -/

namespace AndroidSdk.Androidfw

open Lib

/-- What a read must not come to. -/
inductive ReadFault where
  /-- A read outside the chunk. -/
  | outside
  deriving DecidableEq

/-- A `ResTable_type` chunk: its bytes, with what `VerifyNextChunk` checks and with a header of at
least `kResTableTypeMinSize` bytes. -/
structure ResTableType where
  chunk : List UInt8
  size_eq : fieldAt chunk 4 4 = chunk.length
  minSize_le : 24 ≤ fieldAt chunk 2 2
  headerSize_le : fieldAt chunk 2 2 ≤ chunk.length
  headerSize_aligned : fieldAt chunk 2 2 % 4 = 0
  size_aligned : chunk.length % 4 = 0

namespace ResTableType

/-- `header.headerSize`. -/
def headerSize (type : ResTableType) : ℕ := fieldAt type.chunk 2 2

/-- `header.size`. -/
def size (type : ResTableType) : ℕ := fieldAt type.chunk 4 4

/-- `id`. -/
def id (type : ResTableType) : ℕ := fieldAt type.chunk 8 1

/-- `flags`. -/
def flags (type : ResTableType) : ℕ := fieldAt type.chunk 9 1

/-- `entryCount`. -/
def entryCount (type : ResTableType) : ℕ := fieldAt type.chunk 12 4

/-- `entriesStart`. -/
def entriesStart (type : ResTableType) : ℕ := fieldAt type.chunk 16 4

/-- `FLAG_SPARSE` is set. -/
def isSparse (type : ResTableType) : Bool := type.flags &&& 0x01 ≠ 0

/-- `FLAG_OFFSET16` is set. -/
def isOffset16 (type : ResTableType) : Bool := type.flags &&& 0x02 ≠ 0

/-- Read a number at an address of the chunk. -/
def read (type : ResTableType) (width address : ℕ) : Except ReadFault ℕ :=
  match load width type.chunk address with
  | some n => .ok n
  | none => .error .outside

/-- `idx` of a `ResTable_sparseTypeEntry`. -/
def sparseIdx (type : ResTableType) (i : ℕ) : Except ReadFault ℕ :=
  type.read 2 (type.headerSize + 4 * i)

/-- `offset` of a `ResTable_sparseTypeEntry`. -/
def sparseOffset (type : ResTableType) (i : ℕ) : Except ReadFault ℕ :=
  type.read 2 (type.headerSize + 4 * i + 2)

end ResTableType

/-- `NO_ENTRY`. -/
def noEntry : ℕ := 0xffffffff

/-- `offset_from16`. -/
def offsetFrom16 (off16 : ℕ) : ℕ := if off16 = 0xffff then noEntry else off16 * 4

/-! ## Acceptance -/

/-- `VerifyResTableType`. -/
def verifyResTableType (type : ResTableType) : Bool :=
  let offsetsLength := if type.isOffset16 then 2 * type.entryCount else 4 * type.entryCount
  type.id ≠ 0
    ∧ type.entryCount ≤ 0xffff
    ∧ type.headerSize ≤ type.entriesStart ∧ offsetsLength ≤ type.entriesStart - type.headerSize
    ∧ type.entriesStart ≤ type.size
    ∧ type.entriesStart % 4 = 0

/-! ## The index array -/

/-- An element of a dense index array. -/
def ResTableType.denseOffset (type : ResTableType) (i : ℕ) : Except ReadFault ℕ := do
  if type.isOffset16 then return offsetFrom16 (← type.read 2 (type.headerSize + 2 * i))
  type.read 4 (type.headerSize + 4 * i)

/-- `GetEntryOffset`. -/
def getEntryOffset (type : ResTableType) (entryIndex : UInt16) : Except ReadFault (Option ℕ) := do
  if type.isSparse then
    let result ← lowerBoundM
      (fun i => do return (← type.sparseIdx i) < entryIndex.toNat) type.entryCount
    if result = type.entryCount then return none
    if (← type.sparseIdx result) ≠ entryIndex.toNat then return none
    return some ((← type.sparseOffset result) * 4)
  if type.entryCount ≤ entryIndex.toNat then return none
  let result ← type.denseOffset entryIndex.toNat
  if result = noEntry then return none
  return some result

/-! ## Entries -/

namespace ResTableType

/-- `ResTable_entry::flags`, of the entry at an address. -/
def entryFlags (type : ResTableType) (entry : ℕ) : Except ReadFault ℕ := type.read 2 (entry + 2)

/-- `ResTable_entry::size`. -/
def entrySize (type : ResTableType) (entry : ℕ) : Except ReadFault ℕ := do
  if (← type.entryFlags entry) &&& 0x0008 ≠ 0 then return 8
  type.read 2 entry

end ResTableType

/-- The checks of `VerifyResTableEntry` on the `Res_value` behind an entry. -/
def verifyValue (type : ResTableType) (entry entrySize : ℕ) : Except ReadFault Bool := do
  if type.size - 8 < entry + entrySize then return false
  let valueSize ← type.read 2 (entry + entrySize)
  return 8 ≤ valueSize ∧ valueSize ≤ type.size ∧ entry + entrySize ≤ type.size - valueSize

/-- The checks of `VerifyResTableEntry` on the map items behind an entry. -/
def verifyMap (type : ResTableType) (entry entrySize : ℕ) : Except ReadFault Bool := do
  let mapEntryCount ← type.read 4 (entry + 12)
  return (entry + entrySize) % 4 = 0 ∧ mapEntryCount ≤ (type.size - (entry + entrySize)) / 12

/-- `VerifyResTableEntry`: the address of the entry. -/
def verifyResTableEntry (type : ResTableType) (entryOffset : ℕ) : Except ReadFault (Option ℕ) := do
  if entryOffset % 4 ≠ 0 then return none
  if 0xffffffff - type.entriesStart < entryOffset then return none
  let entry := entryOffset + type.entriesStart
  if type.size - 8 < entry then return none
  let entrySize ← type.entrySize entry
  if entrySize < 8 then return none
  if type.size < entrySize ∨ type.size - entrySize < entry then return none
  if (← type.entryFlags entry) &&& 0x0008 ≠ 0 then return some entry
  let fits ←
    if entrySize < 16 then verifyValue type entry entrySize else verifyMap type entry entrySize
  return if fits then some entry else none

/-- `GetEntry`. -/
def getEntry (type : ResTableType) (entryIndex : UInt16) : Except ReadFault (Option ℕ) := do
  match ← getEntryOffset type entryIndex with
  | none => return none
  | some entryOffset => verifyResTableEntry type entryOffset

/-! ## Reads inside the chunk -/

namespace ResTableType

variable {type : ResTableType}

/-- A read inside the chunk. -/
theorem read_eq_ok {width address : ℕ} (h : address + width ≤ type.size) :
    type.read width address = .ok (fieldAt type.chunk address width) := by
  rw [size, type.size_eq] at h
  rw [read, load, if_pos h]

/-- A read that is not a fault. -/
theorem read_eq_ok_iff {width address n : ℕ} : type.read width address = .ok n ↔
    address + width ≤ type.size ∧ n = fieldAt type.chunk address width := by
  rw [read, load, size, type.size_eq]
  split
  next found hfound =>
      split at hfound
      next h =>
          cases hfound
          simp [h, eq_comm]
      next => cases hfound
  next hnone =>
      split at hnone
      next => cases hnone
      next h => simp [h]

/-- The index of a sparse entry. -/
def idx (type : ResTableType) (i : ℕ) : ℕ := fieldAt type.chunk (type.headerSize + 4 * i) 2

/-- The indices of a sparse chunk increase, as far as they are inside of it. -/
def Increasing (type : ResTableType) : Prop :=
  ∀ i j, i < j → j < type.entryCount → type.headerSize + 4 * (j + 1) ≤ type.size →
    type.idx i < type.idx j

/-- There is room for a sparse index array. -/
def SparseFits (type : ResTableType) : Prop :=
  type.headerSize + 4 * type.entryCount ≤ type.size

/-- An index has 16 bits. -/
theorem idx_lt (type : ResTableType) (i : ℕ) : type.idx i < 65536 := fieldAt_lt _ _ 2

/-- Where the index of a sparse entry is inside the chunk, the whole entry is, as the header and the
chunk end at multiples of four. -/
theorem sparse_inside {i : ℕ} (h : type.headerSize + 4 * i + 2 ≤ type.size) :
    type.headerSize + 4 * (i + 1) ≤ type.size := by
  have hheader : type.headerSize % 4 = 0 := type.headerSize_aligned
  have hsize : type.size % 4 = 0 := by
    rw [size, type.size_eq]
    exact type.size_aligned
  omega

/-- What the verification leaves of the index array. -/
theorem offsets_le (h : verifyResTableType type = true) :
    type.headerSize + (if type.isOffset16 then 2 else 4) * type.entryCount ≤ type.size := by
  simp only [verifyResTableType, decide_eq_true_eq] at h
  obtain ⟨-, -, hle, hlen, hend, -⟩ := h
  split at hlen <;> split <;> simp_all <;> omega

/-- An element of a dense index array is inside the chunk. -/
theorem exists_denseOffset (type : ResTableType) (h : verifyResTableType type = true) {i : ℕ}
    (hi : i < type.entryCount) : ∃ offset, type.denseOffset i = .ok offset := by
  have hroom := offsets_le h
  rw [denseOffset]
  split at hroom
  next h16 =>
      rw [if_pos h16, read_eq_ok (by omega)]
      exact ⟨_, rfl⟩
  next h32 =>
      rw [if_neg h32, read_eq_ok (by omega)]
      exact ⟨_, rfl⟩

/-- The index of a sparse entry, if the index array is inside the chunk. -/
theorem sparseIdx_eq_ok (hfits : type.SparseFits) {i : ℕ} (hi : i < type.entryCount) :
    type.sparseIdx i = .ok (type.idx i) := by
  unfold SparseFits at hfits
  rw [sparseIdx, read_eq_ok (by omega), idx]

/-- The offset of a sparse entry, if the index array is inside the chunk. -/
theorem sparseOffset_eq_ok (hfits : type.SparseFits) {i : ℕ} (hi : i < type.entryCount) :
    type.sparseOffset i = .ok (fieldAt type.chunk (type.headerSize + 4 * i + 2) 2) := by
  unfold SparseFits at hfits
  rw [sparseOffset, read_eq_ok (by omega)]

end ResTableType

/-- **A lookup reads only inside the chunk**, if the index array is inside of it. -/
theorem exists_getEntryOffset {type : ResTableType} (hverify : verifyResTableType type = true)
    (hfits : type.isSparse = true → type.SparseFits) (entryIndex : UInt16) :
    ∃ found, getEntryOffset type entryIndex = .ok found := by
  rw [getEntryOffset]
  cases hsparse : type.isSparse with
  | true =>
      have hfits := hfits hsparse
      have hread : ∀ i < type.entryCount, ∃ b, (do
          return (← type.sparseIdx i) < entryIndex.toNat : Except ReadFault Bool) = .ok b := by
        intro i hi
        rw [ResTableType.sparseIdx_eq_ok hfits hi]
        exact ⟨_, rfl⟩
      obtain ⟨c, hc, hle⟩ := exists_lowerBoundM_le hread
      rw [if_pos rfl, hc, bind_ok]
      by_cases hend : c = type.entryCount
      · exact ⟨none, if_pos hend⟩
      have hlt : c < type.entryCount := by omega
      rw [if_neg hend, ResTableType.sparseIdx_eq_ok hfits hlt,
        ResTableType.sparseOffset_eq_ok hfits hlt, bind_ok, bind_ok]
      by_cases hidx : type.idx c ≠ entryIndex.toNat
      · exact ⟨none, if_pos hidx⟩
      · exact ⟨_, if_neg hidx⟩
  | false =>
      rw [if_neg Bool.false_ne_true]
      by_cases hend : type.entryCount ≤ entryIndex.toNat
      · exact ⟨none, if_pos hend⟩
      obtain ⟨offset, hoffset⟩ := type.exists_denseOffset hverify (Nat.not_le.mp hend)
      rw [if_neg hend, hoffset, bind_ok]
      by_cases hnone : offset = noEntry
      · exact ⟨none, if_pos hnone⟩
      · exact ⟨some offset, if_neg hnone⟩

end AndroidSdk.Androidfw
