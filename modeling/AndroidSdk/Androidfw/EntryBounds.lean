import AndroidSdk.Androidfw.TypeChunk

/-! # Bounds of verified entries

`VerifyResTableEntry` decides by the size of an entry whether a value or map items follow it, but
those who use the entry go by its flags.

* **`Verified`**, **`verifyResTableEntry_spec`** — what the verification leaves of an entry.
* **`EntrySafe`** — what the flags of an entry promise is inside the chunk.
* **`SizeAgrees`**, **`HasRoom`** — the size of an entry is that of its kind, or there is room.
* **`entrySafe_iff`** — exactly when a verified entry is safe. -/

namespace AndroidSdk.Androidfw

open Lib

namespace ResTableType

/-! ## The fields of an entry -/

/-- `FLAG_COMPACT` is set. -/
def isCompact (type : ResTableType) (entry : ℕ) : Bool :=
  fieldAt type.chunk (entry + 2) 2 &&& 0x0008 ≠ 0

/-- `FLAG_COMPLEX` is set. -/
def isComplex (type : ResTableType) (entry : ℕ) : Bool :=
  fieldAt type.chunk (entry + 2) 2 &&& 0x0001 ≠ 0

/-- `full.size`. -/
def fullSize (type : ResTableType) (entry : ℕ) : ℕ := fieldAt type.chunk entry 2

/-- `count` of a `ResTable_map_entry`. -/
def mapCount (type : ResTableType) (entry : ℕ) : ℕ := fieldAt type.chunk (entry + 12) 4

end ResTableType

/-! ## What is verified -/

variable {type : ResTableType} {entry : ℕ}

/-- What the verification leaves of an entry: what is behind it is judged by its size. -/
structure Verified (type : ResTableType) (entry : ℕ) : Prop where
  header_le : entry + 8 ≤ type.size
  size_ge : type.isCompact entry = false → 8 ≤ type.fullSize entry
  size_le : type.isCompact entry = false → entry + type.fullSize entry ≤ type.size
  value_le : type.isCompact entry = false → type.fullSize entry < 16 →
    entry + type.fullSize entry + 8 ≤ type.size
  map_le : type.isCompact entry = false → 16 ≤ type.fullSize entry →
    entry + type.fullSize entry + 12 * type.mapCount entry ≤ type.size

/-- The flags of an entry inside the chunk. -/
theorem entryFlags_eq_ok (h : entry + 8 ≤ type.size) :
    type.entryFlags entry = .ok (fieldAt type.chunk (entry + 2) 2) := by
  rw [ResTableType.entryFlags, ResTableType.read_eq_ok (by omega)]

/-- The size of an entry inside the chunk. -/
theorem entrySize_eq_ok (h : entry + 8 ≤ type.size) : type.entrySize entry
    = .ok (if type.isCompact entry then 8 else type.fullSize entry) := by
  rw [ResTableType.entrySize, entryFlags_eq_ok h, bind_ok, ResTableType.read_eq_ok (by omega)]
  by_cases hcompact : fieldAt type.chunk (entry + 2) 2 &&& 0x0008 ≠ 0
  · simp [ResTableType.isCompact, hcompact, pure, Except.pure]
  · simp [ResTableType.isCompact, hcompact, ResTableType.fullSize]

/-- A chunk is larger than the numbers that are taken from its size. -/
theorem le_size (type : ResTableType) : 24 ≤ type.size := by
  rw [ResTableType.size, type.size_eq]
  exact type.minSize_le.trans type.headerSize_le

/-- The checks on a value. -/
theorem verifyValue_spec (type : ResTableType) (entry entrySize : ℕ) :
    ∃ fits, verifyValue type entry entrySize = .ok fits ∧
      (fits = true → entry + entrySize + 8 ≤ type.size) := by
  have hsize := le_size type
  rw [verifyValue]
  by_cases hroom : type.size - 8 < entry + entrySize
  · exact ⟨false, if_pos hroom, nofun⟩
  · rw [if_neg hroom, ResTableType.read_eq_ok (by omega)]
    exact ⟨_, rfl, fun _ => by omega⟩

/-- The checks on map items. -/
theorem verifyMap_spec {entrySize : ℕ} (hsize : 16 ≤ entrySize)
    (hle : entry + entrySize ≤ type.size) :
    ∃ fits, verifyMap type entry entrySize = .ok fits ∧
      (fits = true → entry + entrySize + 12 * type.mapCount entry ≤ type.size) := by
  rw [verifyMap, ResTableType.read_eq_ok (by omega)]
  refine ⟨_, rfl, fun hfits => ?_⟩
  obtain ⟨-, hcount⟩ := of_decide_eq_true hfits
  have hitems := (Nat.le_div_iff_mul_le (by decide)).mp hcount
  rw [ResTableType.mapCount]
  omega

/-- **The verification reads only inside the chunk**, and what it leaves of an entry. -/
theorem verifyResTableEntry_spec (type : ResTableType) (entryOffset : ℕ) :
    ∃ found, verifyResTableEntry type entryOffset = .ok found ∧
      ∀ entry, found = some entry → Verified type entry := by
  have hsize := le_size type
  rw [verifyResTableEntry]
  by_cases haligned : entryOffset % 4 ≠ 0
  · exact ⟨none, if_pos haligned, nofun⟩
  rw [if_neg haligned]
  by_cases hoverflow : 0xffffffff - type.entriesStart < entryOffset
  · exact ⟨none, if_pos hoverflow, nofun⟩
  rw [if_neg hoverflow]
  dsimp only
  generalize entryOffset + type.entriesStart = entry
  by_cases hroom : type.size - 8 < entry
  · exact ⟨none, if_pos hroom, nofun⟩
  have hheader : entry + 8 ≤ type.size := by omega
  rw [if_neg hroom, entrySize_eq_ok hheader, entryFlags_eq_ok hheader, bind_ok, bind_ok]
  cases hcompact : type.isCompact entry with
  | true =>
      -- a compact entry is all in its header
      have hflag : fieldAt type.chunk (entry + 2) 2 &&& 0x0008 ≠ 0 := of_decide_eq_true hcompact
      refine ⟨some entry, ?_, ?_⟩
      · rw [if_pos rfl, if_neg (by omega), if_neg (by omega), if_pos hflag]
        rfl
      · rintro _ ⟨⟩
        exact ⟨hheader, by simp [hcompact], by simp [hcompact], by simp [hcompact],
          by simp [hcompact]⟩
  | false =>
      have hflag : ¬ fieldAt type.chunk (entry + 2) 2 &&& 0x0008 ≠ 0 := of_decide_eq_false hcompact
      rw [if_neg Bool.false_ne_true, if_neg hflag]
      generalize hfull : type.fullSize entry = entrySize
      by_cases hsmall : entrySize < 8
      · exact ⟨none, if_pos hsmall, nofun⟩
      rw [if_neg hsmall]
      by_cases hlarge : type.size < entrySize ∨ type.size - entrySize < entry
      · exact ⟨none, if_pos hlarge, nofun⟩
      have hend : entry + entrySize ≤ type.size := by omega
      rw [if_neg hlarge]
      by_cases hvalue : entrySize < 16
      · obtain ⟨fits, hfits, hle⟩ := verifyValue_spec type entry entrySize
        rw [if_pos hvalue, hfits, bind_ok]
        refine ⟨if fits then some entry else none, rfl, ?_⟩
        intro found hfound
        split at hfound
        next htrue =>
            cases hfound
            subst hfull
            exact ⟨hheader, fun _ => by omega, fun _ => hend, fun _ _ => hle htrue,
              fun _ hmap => absurd hmap (by omega)⟩
        next => cases hfound
      · obtain ⟨fits, hfits, hle⟩ := verifyMap_spec (Nat.not_lt.mp hvalue) hend
        rw [if_neg hvalue, hfits, bind_ok]
        refine ⟨if fits then some entry else none, rfl, ?_⟩
        intro found hfound
        split at hfound
        next htrue =>
            cases hfound
            subst hfull
            exact ⟨hheader, fun _ => by omega, fun _ => hend, fun _ hlt => absurd hlt hvalue,
              fun _ _ => hle htrue⟩
        next => cases hfound

/-! ## What is used -/

/-- What the flags of an entry promise is inside the chunk: nothing behind a compact entry, the map
header and all map items of a complex one, and else a `Res_value`. -/
def EntrySafe (type : ResTableType) (entry : ℕ) : Prop :=
  entry + 8 ≤ type.size ∧ (type.isCompact entry = false →
    if type.isComplex entry then
      entry + 16 ≤ type.size ∧ entry + type.fullSize entry + 12 * type.mapCount entry ≤ type.size
    else entry + type.fullSize entry + 8 ≤ type.size)

/-- The size of an entry is that of its kind, by its flags: a compact entry has none, a complex one
that of a map entry, and another one less. -/
def SizeAgrees (type : ResTableType) (entry : ℕ) : Prop :=
  type.isCompact entry = true ∨ (type.isComplex entry = true ↔ 16 ≤ type.fullSize entry)

/-- There is room behind an entry for what its flags promise. -/
def HasRoom (type : ResTableType) (entry : ℕ) : Prop :=
  (if type.isComplex entry then 12 * type.mapCount entry else 8)
    ≤ type.size - (entry + type.fullSize entry)

/-- The size of an entry agrees with its flags, or there is room for what they promise all the
same. -/
def SizeSuits (type : ResTableType) (entry : ℕ) : Prop :=
  SizeAgrees type entry ∨ HasRoom type entry

/-- A verified entry is safe exactly if its size suits its flags. -/
theorem Verified.entrySafe_iff (h : Verified type entry) :
    EntrySafe type entry ↔ SizeSuits type entry := by
  rw [EntrySafe, SizeSuits, SizeAgrees, HasRoom]
  cases hcompact : type.isCompact entry with
  | true => exact iff_of_true ⟨h.header_le, nofun⟩ (.inl (.inl rfl))
  | false =>
      have hge := h.size_ge hcompact
      have hle := h.size_le hcompact
      have hvalue := h.value_le hcompact
      have hmap := h.map_le hcompact
      have hheader := h.header_le
      cases type.isComplex entry with
      | true =>
          simp only [hheader, true_and, forall_const, Bool.false_eq_true, false_or, if_true, true_iff]
          -- where the size is that of a value, eight verified bytes behind it hold the map header
          by_cases hlarge : 16 ≤ type.fullSize entry
          · exact iff_of_true ⟨by omega, hmap hlarge⟩ (.inl hlarge)
          · have hroom := hvalue (by omega)
            omega
      | false =>
          simp only [hheader, true_and, forall_const, Bool.false_eq_true, false_or, if_false,
            false_iff, Nat.not_le]
          by_cases hsmall : type.fullSize entry < 16
          · exact iff_of_true (hvalue hsmall) (.inl hsmall)
          · omega

/-- **Verified entries.** For every accepted chunk whose index array is inside of it and every
index, `GetEntry` reads only inside the chunk, and the entry that it returns is safe to use exactly
if its size suits its flags. -/
theorem getEntry_safe_iff (type : ResTableType) (hverify : verifyResTableType type = true)
    (hfits : type.isSparse = true → type.SparseFits) (entryIndex : UInt16) :
    ∃ found, getEntry type entryIndex = .ok found ∧
      ∀ entry, found = some entry → (EntrySafe type entry ↔ SizeSuits type entry) := by
  obtain ⟨found, hfound⟩ := exists_getEntryOffset hverify hfits entryIndex
  rw [getEntry, hfound, bind_ok]
  cases found with
  | none => exact ⟨none, rfl, nofun⟩
  | some entryOffset =>
      obtain ⟨found, hentry, hverified⟩ := verifyResTableEntry_spec type entryOffset
      exact ⟨found, hentry, fun entry h => (hverified entry h).entrySafe_iff⟩

/-- A chunk with a value and a map of one item. -/
def valueAndMapType : ResTableType where
  chunk := [1, 2, 24, 0, 76, 0, 0, 0, 1, 0, 0, 0, 2, 0, 0, 0, 32, 0, 0, 0, 0, 0, 0, 0,
    0, 0, 0, 0, 16, 0, 0, 0,
    8, 0, 0, 0, 0, 0, 0, 0, 8, 0, 0, 16, 64, 66, 15, 0,
    16, 0, 1, 0, 1, 0, 0, 0, 0, 0, 0, 0, 1, 0, 0, 0, 0, 0, 0, 0, 8, 0, 0, 16, 7, 0, 0, 0]
  size_eq := by decide
  minSize_le := by decide
  headerSize_le := by decide
  headerSize_aligned := by decide
  size_aligned := by decide

/-- Both entries are returned, and they are safe because their sizes agree with their flags. -/
theorem getEntry_safe_iff_valueAndMapType :
    (SizeSuits valueAndMapType 32 ∧ EntrySafe valueAndMapType 32)
      ∧ SizeSuits valueAndMapType 48 ∧ EntrySafe valueAndMapType 48 := by
  have hdense : valueAndMapType.isSparse = true → valueAndMapType.SparseFits := by
    rw [show valueAndMapType.isSparse = false by decide]
    exact nofun
  have hsuits : SizeSuits valueAndMapType 32 ∧ SizeSuits valueAndMapType 48 :=
    ⟨.inl (.inr (by decide)), .inl (.inr (by decide))⟩
  obtain ⟨found, hfound, hsafe⟩ := getEntry_safe_iff valueAndMapType (by decide) hdense 0
  obtain ⟨found', hfound', hsafe'⟩ := getEntry_safe_iff valueAndMapType (by decide) hdense 1
  have hentry : getEntry valueAndMapType 0 = .ok (some 32) := rfl
  have hentry' : getEntry valueAndMapType 1 = .ok (some 48) := rfl
  rw [hentry] at hfound
  rw [hentry'] at hfound'
  cases hfound
  cases hfound'
  exact ⟨⟨hsuits.1, (hsafe 32 rfl).mpr hsuits.1⟩, hsuits.2, (hsafe' 48 rfl).mpr hsuits.2⟩

/-- A chunk with one entry that has the size of a map entry but not the flag. -/
def largeValueType : ResTableType where
  chunk := [1, 2, 24, 0, 44, 0, 0, 0, 1, 0, 0, 0, 1, 0, 0, 0, 28, 0, 0, 0, 0, 0, 0, 0, 0, 0, 0, 0,
    16, 0, 0, 0, 0, 0, 0, 0, 0, 0, 0, 0, 0, 0, 0, 0]
  size_eq := by decide
  minSize_le := by decide
  headerSize_le := by decide
  headerSize_aligned := by decide
  size_aligned := by decide

/-- A chunk with one entry that has the flag of a map entry, the size of a plain one, and a value
that is read as one million map items. -/
def smallMapType : ResTableType where
  chunk := [1, 2, 24, 0, 44, 0, 0, 0, 1, 0, 0, 0, 1, 0, 0, 0, 28, 0, 0, 0, 0, 0, 0, 0, 0, 0, 0, 0,
    8, 0, 1, 0, 0, 0, 0, 0, 8, 0, 0, 16, 64, 66, 15, 0]
  size_eq := by decide
  minSize_le := by decide
  headerSize_le := by decide
  headerSize_aligned := by decide
  size_aligned := by decide

/-- Both entries are returned, and neither is safe. -/
theorem not_entrySafe_largeValueType :
    getEntry largeValueType 0 = .ok (some 28) ∧ ¬ EntrySafe largeValueType 28 ∧
      getEntry smallMapType 0 = .ok (some 28) ∧ ¬ EntrySafe smallMapType 28 := by
  refine ⟨rfl, ?_, rfl, ?_⟩ <;> unfold EntrySafe <;> decide

end AndroidSdk.Androidfw
