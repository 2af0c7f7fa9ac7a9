import AndroidSdk.Androidfw.ResStringPool

/-! # Reads of a string pool

The checks of `setTo` are made once, and every accessor of `ResStringPool` trusts them. A read that
is not inside the buffer gives nothing.

* **`Checked`** — what `setTo` has checked.
* **`stringAt16_ne_none`**, **`readSpans_ne_none`** — what is always read inside the buffer: strings
  in UTF-16 and the spans of a style.
* **`styleAt_ne_none_iff`**, **`decodeLengths_ne_none_iff`**, **`stringDecodeAt_ne_none_iff`**,
  **`utf8ToUtf16Length_ne_none_iff`** — when the other reads are.
* **`staysInside_iff`** — when all of them are. -/

namespace AndroidSdk.Androidfw

open Lib

/-! ## Numbers in memory -/

section Load

variable {memory : List UInt8} {address width : ℕ}

/-- A read inside the memory. -/
theorem load_eq_some (h : address + width ≤ memory.length) :
    load width memory address = some (fieldAt memory address width) := if_pos h

/-- A read outside of it. -/
theorem load_eq_none (h : ¬ address + width ≤ memory.length) : load width memory address = none :=
  if_neg h

/-- What a read that succeeds has read. -/
theorem load_eq_some_iff {n : ℕ} : load width memory address = some n
    ↔ address + width ≤ memory.length ∧ n = fieldAt memory address width := by
  by_cases h : address + width ≤ memory.length
  · rw [load_eq_some h, Option.some.injEq, and_iff_right h, eq_comm]
  · rw [load_eq_none h]
    exact iff_of_false (by simp) fun h' => h h'.1

end Load

/-! ## What is checked -/

namespace ResStringPool

/-- **What `setTo` has checked** of a pool. -/
structure Checked (pool : ResStringPool) : Prop where
  size_lt : pool.header.size < 2 ^ 32
  size_le : pool.header.size ≤ pool.memory.length
  entries : pool.header.stringCount ≠ 0 →
    pool.header.headerSize + 4 * pool.header.stringCount ≤ pool.memory.length
  strings_pos : pool.header.stringCount ≠ 0 → 0 < pool.stringPoolSize
  strings_le : pool.header.stringCount ≠ 0 →
    pool.header.stringsStart + pool.header.charSize * pool.stringPoolSize ≤ pool.header.size
  strings_end : pool.header.stringCount ≠ 0 →
    fieldAt pool.memory (pool.header.stringsStart + pool.header.charSize * (pool.stringPoolSize - 1))
      pool.header.charSize = 0
  styles_le : pool.header.styleCount ≠ 0 →
    pool.header.stylesStart + 4 * pool.stylePoolSize ≤ pool.header.size
  styles_end : pool.header.styleCount ≠ 0 → 12 ≤ pool.header.stylesStart + 4 * pool.stylePoolSize
    ∧ ∀ j < 3, fieldAt pool.memory (pool.header.stylesStart + 4 * pool.stylePoolSize - 12 + 4 * j) 4
      = 0xffffffff

variable {memory : List UInt8} {header : PoolHeader} {size stringPoolSize stylePoolSize : ℕ}

/-- The size of the units of the strings is one or two. -/
theorem charSize_cases (header : PoolHeader) : header.charSize = 1 ∨ header.charSize = 2 := by
  rw [PoolHeader.charSize]
  split
  · exact .inl rfl
  · exact .inr rfl

/-- What is checked of the strings. -/
theorem checkStrings_spec (h : checkStrings memory header size = some (some stringPoolSize))
    (hcount : header.stringCount ≠ 0) :
    header.headerSize + 4 * header.stringCount ≤ size ∧ 0 < stringPoolSize
      ∧ header.stringsStart + header.charSize * stringPoolSize ≤ header.size
      ∧ fieldAt memory (header.stringsStart + header.charSize * (stringPoolSize - 1)) header.charSize
        = 0 := by
  rw [checkStrings, if_neg hcount] at h
  split at h
  next => cases h
  next hentries =>
  split at h
  next => cases h
  next hstart =>
  split at h
  next => cases h
  next hstyles =>
  split at h
  next => cases h
  next hbehind =>
  -- the strings end at the styles, if there are any
  have hend : (if header.styleCount = 0 then header.size else header.stylesStart) ≤ header.size
      ∧ header.stringsStart ≤ (if header.styleCount = 0 then header.size else header.stylesStart) := by
    split
    next => omega
    next hcount' =>
      have hstyles' : ¬ header.size - 2 ≤ header.stylesStart := fun h => hstyles ⟨hcount', h⟩
      have hbehind' : ¬ header.stylesStart ≤ header.stringsStart := fun h => hbehind ⟨hcount', h⟩
      omega
  dsimp only at h
  generalize (if header.styleCount = 0 then header.size else header.stylesStart) = stop at h hend
  split at h
  next => cases h
  next hpos =>
  -- the last unit is read, and has to be zero
  obtain ⟨last, hlast, h⟩ := Option.bind_eq_some_iff.mp h
  obtain ⟨-, rfl⟩ := load_eq_some_iff.mp hlast
  split at h
  next hzero =>
    cases h
    refine ⟨by omega, Nat.pos_of_ne_zero hpos, ?_, hzero⟩
    have hmul := Nat.mul_div_le (stop - header.stringsStart) header.charSize
    omega
  next => cases h

/-- What is checked of the styles. -/
theorem checkStyles_spec (h : checkStyles memory header size = some (some stylePoolSize))
    (hcount : header.styleCount ≠ 0) (hsize : 28 ≤ header.size) :
    header.stylesStart + 4 * stylePoolSize ≤ header.size
      ∧ 12 ≤ header.stylesStart + 4 * stylePoolSize
      ∧ ∀ j < 3, fieldAt memory (header.stylesStart + 4 * stylePoolSize - 12 + 4 * j) 4
        = 0xffffffff := by
  rw [checkStyles, if_neg hcount] at h
  split at h
  next => cases h
  next =>
  split at h
  next => cases h
  next hstart =>
  obtain ⟨first, hfirst, h⟩ := Option.bind_eq_some_iff.mp h
  obtain ⟨second, hsecond, h⟩ := Option.bind_eq_some_iff.mp h
  obtain ⟨third, hthird, h⟩ := Option.bind_eq_some_iff.mp h
  obtain ⟨-, rfl⟩ := load_eq_some_iff.mp hfirst
  obtain ⟨-, rfl⟩ := load_eq_some_iff.mp hsecond
  obtain ⟨-, rfl⟩ := load_eq_some_iff.mp hthird
  split at h
  next hall =>
    cases h
    refine ⟨by omega, by omega, fun j hj => ?_⟩
    obtain ⟨h0, h1, h2⟩ := hall
    interval_cases j
    · exact h0
    · exact h1
    · exact h2
  next => cases h

/-- The size of a pool is a number of four bytes. -/
theorem size_readHeader_lt (h : readHeader memory = some header) : header.size < 2 ^ 32 := by
  obtain ⟨headerSize, -, h⟩ := Option.bind_eq_some_iff.mp h
  obtain ⟨size, hload, h⟩ := Option.bind_eq_some_iff.mp h
  obtain ⟨_, -, h⟩ := Option.bind_eq_some_iff.mp h
  obtain ⟨_, -, h⟩ := Option.bind_eq_some_iff.mp h
  obtain ⟨_, -, h⟩ := Option.bind_eq_some_iff.mp h
  obtain ⟨_, -, h⟩ := Option.bind_eq_some_iff.mp h
  obtain ⟨_, -, h⟩ := Option.bind_eq_some_iff.mp h
  cases h
  obtain ⟨-, rfl⟩ := load_eq_some_iff.mp hload
  exact fieldAt_lt memory 4 4

/-- **An accepted pool is checked.** The memory may go on behind the buffer of the pool. -/
theorem checked_of_setTo {pool : ResStringPool} (hmemory : size ≤ memory.length)
    (h : setTo memory size = some (some pool)) : pool.Checked ∧ pool.memory = memory := by
  rw [setTo] at h
  split at h
  next => cases h
  next =>
  obtain ⟨header, hheader, h⟩ := Option.bind_eq_some_iff.mp h
  have hlt := size_readHeader_lt hheader
  split at h
  next => cases h
  next hvalid =>
  rw [Bool.not_eq_true', Bool.not_eq_false, validateHeader, decide_eq_true_iff] at hvalid
  obtain ⟨found, hstrings, h⟩ := Option.bind_eq_some_iff.mp h
  cases found with
  | none => cases h
  | some stringPoolSize =>
  obtain ⟨found, hstyles, h⟩ := Option.bind_eq_some_iff.mp h
  cases found with
  | none => cases h
  | some stylePoolSize =>
  cases h
  refine ⟨?_, rfl⟩
  exact {
    size_lt := hlt
    size_le := Nat.le_trans hvalid.2.2.2.2 hmemory
    entries := fun hcount => Nat.le_trans (checkStrings_spec hstrings hcount).1 hmemory
    strings_pos := fun hcount => (checkStrings_spec hstrings hcount).2.1
    strings_le := fun hcount => (checkStrings_spec hstrings hcount).2.2.1
    strings_end := fun hcount => (checkStrings_spec hstrings hcount).2.2.2
    styles_le := fun hcount => (checkStyles_spec hstyles hcount (by omega)).1
    styles_end := fun hcount => (checkStyles_spec hstyles hcount (by omega)).2 }

/-! ## Lengths -/

section DecodeLength

variable {charSize strings str : ℕ}

/-- **What `decodeLength` does** where its first unit is inside: the length is in one unit, or in two
of which the second is outside or inside. -/
theorem decodeLengthOf_cases (hsize : 0 < charSize)
    (hfirst : strings + charSize * str + charSize ≤ memory.length) :
    (fieldAt memory (strings + charSize * str) charSize < 2 ^ (8 * charSize - 1)
        ∧ decodeLengthOf charSize memory strings str
          = some (fieldAt memory (strings + charSize * str) charSize, str + 1))
      ∨ 2 ^ (8 * charSize - 1) ≤ fieldAt memory (strings + charSize * str) charSize
        ∧ ((memory.length < strings + charSize * (str + 1) + charSize
            ∧ decodeLengthOf charSize memory strings str = none)
          ∨ strings + charSize * (str + 1) + charSize ≤ memory.length
            ∧ ∃ len < 2 ^ (16 * charSize - 1),
              decodeLengthOf charSize memory strings str = some (len, str + 2)) := by
  have hload := load_eq_some hfirst
  have hlt := fieldAt_lt memory (strings + charSize * str) charSize
  generalize fieldAt memory (strings + charSize * str) charSize = len at hload hlt ⊢
  have hpow : 256 ^ charSize = 2 ^ (8 * charSize - 1) + 2 ^ (8 * charSize - 1) := by
    rw [show 256 = 2 ^ 8 from rfl, ← pow_mul, ← mul_two, ← pow_succ]
    congr 1
    omega
  -- one unit, or the second one has to be there as well
  by_cases hone : len < 2 ^ (8 * charSize - 1)
  · exact .inl ⟨hone, decodeLengthOf_one hload hone⟩
  · refine .inr ⟨Nat.le_of_not_lt hone, ?_⟩
    -- the highest bit is not part of the length
    obtain ⟨high, rfl⟩ := Nat.exists_eq_add_of_le (Nat.le_of_not_lt hone)
    have hhigh : high < 2 ^ (8 * charSize - 1) := by omega
    by_cases hsecond : strings + charSize * (str + 1) + charSize ≤ memory.length
    · have hlow := fieldAt_lt memory (strings + charSize * (str + 1)) charSize
      rw [show 256 = 2 ^ 8 from rfl, ← pow_mul] at hlow
      refine .inr ⟨hsecond, _, ?_, decodeLengthOf_two hload hhigh (load_eq_some hsecond) hlow⟩
      have hsucc : (high + 1) * 2 ^ (8 * charSize) = high * 2 ^ (8 * charSize) + 2 ^ (8 * charSize) :=
        Nat.succ_mul _ _
      calc
        high * 2 ^ (8 * charSize) + _ < (high + 1) * 2 ^ (8 * charSize) := by
          rw [hsucc]
          exact Nat.add_lt_add_left hlow _
        _ ≤ 2 ^ (8 * charSize - 1) * 2 ^ (8 * charSize) := Nat.mul_le_mul_right _ hhigh
        _ = 2 ^ (16 * charSize - 1) := by
          rw [← pow_add]
          congr 1
          omega
    · refine .inl ⟨Nat.lt_of_not_le hsecond, ?_⟩
      have hmask : (2 ^ (8 * charSize - 1) + high) &&& 2 ^ (8 * charSize - 1) ≠ 0 := by
        rw [ne_eq, and_two_pow_eq_zero_iff, Nat.testBit_two_pow_add_eq, Nat.testBit_lt_two_pow hhigh]
        decide
      rw [decodeLengthOf, hload]
      simp only [Option.bind_eq_bind, Option.bind_some, if_pos hmask, load_eq_none hsecond]
      rfl

end DecodeLength

variable {pool : ResStringPool} {idx off str encLen i k : ℕ}

/-- **The entry of a string** is read inside the buffer, and its string begins before the last
unit. -/
theorem Checked.entryOffset (h : pool.Checked) (hidx : idx < pool.header.stringCount) :
    pool.entryOffset idx = some none
      ∨ ∃ off, pool.entryOffset idx = some (some off) ∧ off + 1 < pool.stringPoolSize := by
  have hentries := h.entries (Nat.ne_zero_of_lt hidx)
  have hload : load 4 pool.memory (pool.header.headerSize + 4 * idx)
      = some (fieldAt pool.memory (pool.header.headerSize + 4 * idx) 4) :=
    load_eq_some (by omega)
  rw [ResStringPool.entryOffset, hload]
  simp only [Option.bind_eq_bind, Option.bind_some]
  split
  next hlt => exact .inr ⟨_, rfl, Nat.add_lt_of_lt_sub hlt⟩
  next => exact .inl rfl

/-- **A string in UTF-16 is read inside the buffer.** -/
theorem stringAt16_ne_none (h : pool.Checked) (hidx : idx < pool.header.stringCount)
    (hutf16 : pool.header.isUtf8 = false) : pool.stringAt16 idx ≠ none := by
  have hsize : pool.header.charSize = 2 := by rw [PoolHeader.charSize, hutf16]; rfl
  have hstrings := h.strings_le (Nat.ne_zero_of_lt hidx)
  have hle := h.size_le
  have hlt := h.size_lt
  rw [hsize] at hstrings
  rcases h.entryOffset hidx with hnone | ⟨off, hoff, hoff'⟩
  · simp [stringAt16, hnone]
  · -- the second unit of the length is the last unit of the pool at most
    have hlength : ∃ u16len str, decodeLength16 pool.memory pool.header.stringsStart off
        = some (u16len, str) ∧ u16len < 2 ^ 31 ∧ str ≤ off + 2 := by
      have hfirst : pool.header.stringsStart + 2 * off + 2 ≤ pool.memory.length := by omega
      rcases decodeLengthOf_cases Nat.two_pos hfirst with
        ⟨hone, heq⟩ | ⟨-, ⟨hout, -⟩ | ⟨-, len, hlen, heq⟩⟩
      · exact ⟨_, _, heq, Nat.lt_trans hone (by decide), by omega⟩
      · omega
      · exact ⟨_, _, heq, hlen, Nat.le_refl _⟩
    obtain ⟨u16len, str, hlength, hu16len, hstr⟩ := hlength
    rw [stringAt16, hoff]
    simp only [Option.bind_eq_bind, Option.bind_some, hlength]
    split
    next hfits =>
      rw [Nat.mod_eq_of_lt (by omega)] at hfits
      rw [load_eq_some (by omega)]
      simp
    next => simp

/-! ## The search for the end of a string -/

/-- A byte of the strings. -/
def byteAt (pool : ResStringPool) (i : ℕ) : ℕ := fieldAt pool.memory (pool.header.stringsStart + i) 1

/-- Where the search looks for a zero in its turn `i`. -/
def triedEnd (str encLen i : ℕ) : ℕ := str + (i <<< 15 ||| encLen)

/-- The search goes on in its turns from `i` to `k`. -/
def SearchGoesOn (pool : ResStringPool) (str encLen i k : ℕ) : Prop :=
  ∀ j, i ≤ j → j < k → triedEnd str encLen j % 2 ^ 32 < pool.stringPoolSize
    ∧ pool.byteAt (triedEnd str encLen j) ≠ 0

/-- There is no byte behind the memory. -/
theorem lt_length_of_byteAt_ne_zero (h : pool.byteAt i ≠ 0) :
    pool.header.stringsStart + i < pool.memory.length := by
  by_contra hout
  rw [byteAt, fieldAt, List.drop_eq_nil_of_le (Nat.le_of_not_lt hout)] at h
  exact h rfl

/-- **How the search ends**: past the end of the strings, outside of the memory, or at a zero. -/
theorem stringDecodeLoop_cases (pool : ResStringPool) (str encLen i : ℕ) :
    ∃ k, i ≤ k ∧ pool.SearchGoesOn str encLen i k
      ∧ ((pool.stringPoolSize ≤ triedEnd str encLen k % 2 ^ 32
          ∧ pool.stringDecodeLoop str encLen i = some none)
        ∨ triedEnd str encLen k % 2 ^ 32 < pool.stringPoolSize
          ∧ ((pool.memory.length ≤ pool.header.stringsStart + triedEnd str encLen k
              ∧ pool.stringDecodeLoop str encLen i = none)
            ∨ pool.header.stringsStart + triedEnd str encLen k < pool.memory.length
              ∧ pool.byteAt (triedEnd str encLen k) = 0
              ∧ pool.stringDecodeLoop str encLen i = some (some (pieceAt pool.memory
                (pool.header.stringsStart + str) (k <<< 15 ||| encLen))))) := by
  have hhere : pool.SearchGoesOn str encLen i i := fun j hle hlt => by omega
  induction i using stringDecodeLoop.induct pool str encLen with
  | case1 i nullAddress hfits hinside hzero =>
      exact ⟨i, Nat.le_refl i, hhere, .inr ⟨hfits, .inr ⟨hinside, hzero,
        stringDecodeLoop_end hfits hinside hzero⟩⟩⟩
  | case2 i nullAddress hfits hinside hnonzero ih =>
      obtain ⟨k, hk, hgoes, hend⟩ := ih fun j hle hlt => by omega
      rw [stringDecodeLoop_next hfits hinside hnonzero]
      refine ⟨k, by omega, fun j hle hlt => ?_, hend⟩
      rcases Nat.eq_or_lt_of_le hle with rfl | hlt'
      · exact ⟨hfits, hnonzero⟩
      · exact hgoes j hlt' hlt
  | case3 i nullAddress hfits hinside =>
      refine ⟨i, Nat.le_refl i, hhere, .inr ⟨hfits, .inl ⟨Nat.le_of_not_lt hinside, ?_⟩⟩⟩
      rw [stringDecodeLoop, if_pos hfits, dif_neg hinside]
  | case4 i nullAddress hfits =>
      refine ⟨i, Nat.le_refl i, hhere, .inl ⟨Nat.le_of_not_lt hfits, ?_⟩⟩
      rw [stringDecodeLoop, if_neg hfits]

/-- The search looks for a zero only inside the memory, also where its 32 bits do not hold the
position. -/
def SearchInside (pool : ResStringPool) (str encLen : ℕ) : Prop :=
  ∀ k, pool.SearchGoesOn str encLen 0 k →
    triedEnd str encLen k % 2 ^ 32 < pool.stringPoolSize → 2 ^ 32 ≤ triedEnd str encLen k →
      pool.header.stringsStart + triedEnd str encLen k < pool.memory.length

/-- **The search stays inside** if and only if it does where its position wraps. -/
theorem stringDecodeAt_ne_none_iff (h : pool.Checked) (hcount : pool.header.stringCount ≠ 0) :
    pool.stringDecodeAt str encLen ≠ none ↔ pool.SearchInside str encLen := by
  have hle := h.size_le
  have hstrings := h.strings_le hcount
  have hsize : 1 * pool.stringPoolSize ≤ pool.header.charSize * pool.stringPoolSize :=
    Nat.mul_le_mul_right _ (by rcases charSize_cases pool.header with h | h <;> omega)
  obtain ⟨k, -, hgoes, hend⟩ := stringDecodeLoop_cases pool str encLen 0
  constructor
  · intro hread k' hgoes' hfits' hwraps
    rcases Nat.lt_trichotomy k' k with hlt | rfl | hlt
    · exact lt_length_of_byteAt_ne_zero (hgoes k' (Nat.zero_le k') hlt).2
    · rcases hend with ⟨hout, -⟩ | ⟨-, ⟨-, hnone⟩ | ⟨hinside, -⟩⟩
      · exact absurd hfits' (Nat.not_lt.mpr hout)
      · exact absurd hnone hread
      · exact hinside
    · obtain ⟨hfits, hbyte⟩ := hgoes' k (Nat.zero_le k) hlt
      rcases hend with ⟨hout, -⟩ | ⟨-, ⟨-, hnone⟩ | ⟨-, hzero, -⟩⟩
      · exact absurd hfits (Nat.not_lt.mpr hout)
      · exact absurd hnone hread
      · exact absurd hzero hbyte
  · intro hinside hnone
    rcases hend with ⟨-, hsome⟩ | ⟨hfits, ⟨hout, -⟩ | ⟨-, -, hsome⟩⟩
    · exact absurd (hnone.symm.trans hsome) (by simp)
    · by_cases hwraps : 2 ^ 32 ≤ triedEnd str encLen k
      · exact absurd (hinside k hgoes hfits hwraps) (Nat.not_lt.mpr hout)
      · rw [Nat.mod_eq_of_lt (Nat.lt_of_not_le hwraps)] at hfits
        omega
    · exact absurd (hnone.symm.trans hsome) (by simp)

/-- **What the search has found** is the text in front of the first zero that it looks at. -/
theorem stringDecodeAt_eq_some_iff {piece : StringPiece} :
    pool.stringDecodeAt str encLen = some (some piece)
      ↔ ∃ k, pool.SearchGoesOn str encLen 0 k
        ∧ triedEnd str encLen k % 2 ^ 32 < pool.stringPoolSize
        ∧ pool.header.stringsStart + triedEnd str encLen k < pool.memory.length
        ∧ pool.byteAt (triedEnd str encLen k) = 0
        ∧ piece = pieceAt pool.memory (pool.header.stringsStart + str) (k <<< 15 ||| encLen) := by
  obtain ⟨k, -, hgoes, hend⟩ := stringDecodeLoop_cases pool str encLen 0
  constructor
  · intro hread
    rcases hend with ⟨-, hsome⟩ | ⟨hfits, ⟨-, hnone⟩ | ⟨hinside, hzero, hsome⟩⟩
    · exact absurd (hread.symm.trans hsome) (by simp)
    · exact absurd (hread.symm.trans hnone) (by simp)
    · exact ⟨k, hgoes, hfits, hinside, hzero,
        Option.some.inj (Option.some.inj (hread.symm.trans hsome))⟩
  · rintro ⟨k', hgoes', hfits', hinside', hzero', rfl⟩
    rcases Nat.lt_trichotomy k' k with hlt | rfl | hlt
    · exact absurd hzero' (hgoes k' (Nat.zero_le k') hlt).2
    · rcases hend with ⟨hout, -⟩ | ⟨-, ⟨hout, -⟩ | ⟨-, -, hsome⟩⟩
      · omega
      · omega
      · exact hsome
    · obtain ⟨hfits, hbyte⟩ := hgoes' k (Nat.zero_le k) hlt
      have hin := lt_length_of_byteAt_ne_zero hbyte
      rcases hend with ⟨hout, -⟩ | ⟨-, ⟨hout, -⟩ | ⟨-, hzero, -⟩⟩
      · omega
      · omega
      · exact absurd hzero hbyte

/-- The lengths of a string in front of the end are inside the memory. -/
def LengthsInside (pool : ResStringPool) (off : ℕ) : Prop :=
  off + 2 = pool.stringPoolSize → 128 ≤ pool.byteAt off →
    pool.header.stringsStart + pool.stringPoolSize < pool.memory.length
      ∧ (128 ≤ pool.byteAt pool.stringPoolSize →
        pool.header.stringsStart + pool.stringPoolSize + 1 < pool.memory.length)

/-- The cases of `decodeLength` for UTF-8. -/
theorem decodeLength8_cases (hfirst : pool.header.stringsStart + str < pool.memory.length) :
    (pool.byteAt str < 128 ∧ ∃ len < 2 ^ 15,
        decodeLength8 pool.memory pool.header.stringsStart str = some (len, str + 1))
      ∨ 128 ≤ pool.byteAt str
        ∧ ((pool.memory.length ≤ pool.header.stringsStart + str + 1
            ∧ decodeLength8 pool.memory pool.header.stringsStart str = none)
          ∨ pool.header.stringsStart + str + 1 < pool.memory.length
            ∧ ∃ len < 2 ^ 15,
              decodeLength8 pool.memory pool.header.stringsStart str = some (len, str + 2)) := by
  have hunit : pool.header.stringsStart + 1 * str + 1 ≤ pool.memory.length := by omega
  have hcases := decodeLengthOf_cases Nat.one_pos hunit
  rw [one_mul, one_mul] at hcases
  rcases hcases with ⟨hone, heq⟩ | ⟨htwo, ⟨hout, heq⟩ | ⟨hin, len, hlen, heq⟩⟩
  · exact .inl ⟨hone, _, Nat.lt_trans hone (by decide), heq⟩
  · exact .inr ⟨htwo, .inl ⟨by omega, heq⟩⟩
  · exact .inr ⟨htwo, .inr ⟨by omega, len, hlen, heq⟩⟩

/-- A length is read inside the memory. -/
theorem decodeLength8_ne_none_iff :
    decodeLength8 pool.memory pool.header.stringsStart str ≠ none
      ↔ pool.header.stringsStart + str < pool.memory.length
        ∧ (128 ≤ pool.byteAt str → pool.header.stringsStart + str + 1 < pool.memory.length) := by
  by_cases hfirst : pool.header.stringsStart + str < pool.memory.length
  · rcases decodeLength8_cases hfirst with
      ⟨hone, len, -, heq⟩ | ⟨htwo, ⟨hout, heq⟩ | ⟨hin, len, -, heq⟩⟩
    · exact iff_of_true (by simp [heq]) ⟨hfirst, fun h => by omega⟩
    · exact iff_of_false (by simp [heq]) fun h => absurd (h.2 htwo) (Nat.not_lt.mpr hout)
    · exact iff_of_true (by simp [heq]) ⟨hfirst, fun _ => hin⟩
  · refine iff_of_false (fun h => h ?_) fun h => hfirst h.1
    rw [decodeLength8, decodeLengthOf, load_eq_none (by omega)]
    rfl

/-- **Both lengths are read inside the memory** if and only if those of the last string are. -/
theorem decodeLengths_ne_none_iff (h : pool.Checked) (hcount : pool.header.stringCount ≠ 0)
    (hutf8 : pool.header.isUtf8 = true) (hoff : off + 1 < pool.stringPoolSize) :
    pool.decodeLengths off ≠ none ↔ pool.LengthsInside off := by
  have hsize : pool.header.charSize = 1 := by rw [PoolHeader.charSize, hutf8]; rfl
  have hle := h.size_le
  have hstrings := h.strings_le hcount
  have hend := h.strings_end hcount
  rw [hsize, one_mul] at hstrings hend
  -- a length that begins at the last byte is the zero there
  have hsecond : ∀ str, str < pool.stringPoolSize →
      decodeLength8 pool.memory pool.header.stringsStart str ≠ none := fun str hstr => by
    refine decodeLength8_ne_none_iff.mpr ⟨by omega, fun hbyte => ?_⟩
    have hlast : str ≠ pool.stringPoolSize - 1 := by
      rintro rfl
      rw [byteAt, hend] at hbyte
      omega
    omega
  have hboth : ∀ {len str}, decodeLength8 pool.memory pool.header.stringsStart off = some (len, str) →
      (pool.decodeLengths off ≠ none
        ↔ decodeLength8 pool.memory pool.header.stringsStart str ≠ none) := fun {len str} hlen => by
    rw [decodeLengths, hlen]
    cases hlen' : decodeLength8 pool.memory pool.header.stringsStart str <;> simp [hlen']
  have hfirst : pool.header.stringsStart + off < pool.memory.length := by omega
  rcases decodeLength8_cases hfirst with
    ⟨hone, len, -, heq⟩ | ⟨htwo, ⟨hout, -⟩ | ⟨-, len, -, heq⟩⟩
  · exact iff_of_true ((hboth heq).mpr (hsecond (off + 1) hoff)) fun _ hbyte => by omega
  · omega
  · rw [hboth heq, LengthsInside]
    by_cases hlast : off + 2 = pool.stringPoolSize
    · rw [hlast, decodeLength8_ne_none_iff]
      exact ⟨fun h _ _ => h, fun h => h rfl htwo⟩
    · exact iff_of_true (hsecond (off + 2) (by omega)) fun h => absurd h hlast

/-! ## Code points -/

/-- How many bytes the code point with this first byte has. -/
def codePointLength (c : UInt8) : ℕ :=
  if c < 0xc0 then 1 else if c < 0xe0 then 2 else if c < 0xf0 then 3 else 4

/-- Where the code points of a text begin, behind `skip` bytes of the one before. -/
def codePointStarts : ℕ → List UInt8 → List ℕ
  | _, [] => []
  | skip + 1, _ :: rest => (codePointStarts skip rest).map (· + 1)
  | 0, c :: rest => 0 :: (codePointStarts (codePointLength c - 1) rest).map (· + 1)

/-- A code point of four bytes that begins in a text ends inside the memory. -/
def CodePointsInside (skip : ℕ) (text beyond : List UInt8) : Prop :=
  ∀ t ∈ codePointStarts skip text, ∀ c, text[t]? = some c → 0xf0 ≤ c →
    t + 3 < text.length + beyond.length

/-- The code points behind a byte. -/
theorem forall_mem_map_succ_iff {l : List ℕ} {c : UInt8} {text beyond : List UInt8} :
    (∀ t ∈ l.map (· + 1), ∀ d, (c :: text)[t]? = some d → 0xf0 ≤ d →
        t + 3 < (c :: text).length + beyond.length)
      ↔ ∀ t ∈ l, ∀ d, text[t]? = some d → 0xf0 ≤ d → t + 3 < text.length + beyond.length := by
  rw [List.forall_mem_map]
  refine forall₂_congr fun t _ => forall₃_congr fun d _ _ => ?_
  rw [List.length_cons]
  omega

/-- **The length in UTF-16 is calculated inside the memory** if and only if the code points end
there. -/
theorem utf16LengthLoop_ne_none_iff (text beyond : List UInt8) (skip n : ℕ) :
    utf16LengthLoop beyond skip n text ≠ none ↔ CodePointsInside skip text beyond := by
  induction text generalizing skip n with
  | nil =>
      refine iff_of_true ?_ fun t ht => absurd ht List.not_mem_nil
      cases skip <;> simp [utf16LengthLoop]
  | cons c rest ih =>
      cases skip with
      | succ skip =>
          rw [utf16LengthLoop, ih, CodePointsInside, CodePointsInside, codePointStarts,
            forall_mem_map_succ_iff]
      | zero =>
          -- a code point of up to three bytes is inside whatever follows
          have hlonger : ∀ {m}, codePointLength c = m + 1 → ¬ 0xf0 ≤ c →
              (CodePointsInside m rest beyond ↔ CodePointsInside 0 (c :: rest) beyond) :=
            fun {m} hm hlead => by
              rw [CodePointsInside, CodePointsInside, codePointStarts, List.forall_mem_cons,
                forall_mem_map_succ_iff, hm, Nat.add_sub_cancel, and_iff_right]
              intro d hd hd'
              rw [List.getElem?_cons_zero, Option.some.injEq] at hd
              exact absurd (hd ▸ hd') hlead
          have hlead : ∀ {m : UInt8}, c < m → m.toNat ≤ 0xf0 → ¬ 0xf0 ≤ c := fun hlt hm hle =>
            Nat.not_lt.mpr (Nat.le_trans hm (UInt8.le_iff_toNat_le.mp hle))
              (UInt8.lt_iff_toNat_lt.mp hlt)
          rw [utf16LengthLoop]
          split_ifs with hascii hone htwo hthree
          · have hlt : c < 0xc0 := UInt8.lt_iff_toNat_lt.mpr
              (Nat.lt_trans ((and_highBit_eq_zero_iff c).mp hascii) (by decide))
            rw [ih, hlonger (if_pos hlt) (hlead hlt (by decide))]
          · rw [ih, hlonger (if_pos hone) (hlead hone (by decide))]
          · rw [ih, hlonger ((if_neg hone).trans (if_pos htwo)) (hlead htwo (by decide))]
          · rw [ih, hlonger ((if_neg hone).trans ((if_neg htwo).trans (if_pos hthree)))
              (hlead hthree (by decide))]
          -- four bytes need three more of them
          · have hfour : codePointLength c = 3 + 1 :=
              (if_neg hone).trans ((if_neg htwo).trans (if_neg hthree))
            have hle : 0xf0 ≤ c := UInt8.not_lt.mp hthree
            rw [CodePointsInside, codePointStarts, List.forall_mem_cons, forall_mem_map_succ_iff, hfour,
              Nat.add_sub_cancel, ← CodePointsInside]
            have hroom : (∀ d, (c :: rest)[0]? = some d → 0xf0 ≤ d →
                0 + 3 < (c :: rest).length + beyond.length) ↔ 3 ≤ (rest ++ beyond).length := by
              rw [List.length_append, List.length_cons]
              constructor
              · intro h
                have hlast := h c List.getElem?_cons_zero hle
                omega
              · intro h d _ _
                omega
            rw [hroom]
            rcases hbytes : rest ++ beyond with _ | ⟨c2, _ | ⟨c3, _ | ⟨c4, more⟩⟩⟩
            · exact iff_of_false (by simp) fun h => absurd h.1 (by simp)
            · exact iff_of_false (by simp) fun h => absurd h.1 (by simp)
            · exact iff_of_false (by simp) fun h => absurd h.1 (by simp)
            · dsimp only
              rw [ih, and_iff_right]
              simp

/-! ## Strings in UTF-8 -/

/-- **A string in UTF-8 that is inside the memory**, with the entry `off`: its lengths, the search
for its end, and the code points of what is found. -/
structure StringInside (pool : ResStringPool) (off : ℕ) : Prop where
  lengths : pool.LengthsInside off
  search : ∀ u16len u8len str, pool.decodeLengths off = some (u16len, u8len, str) →
    (str + u8len) % 2 ^ 32 < pool.stringPoolSize → pool.SearchInside str u8len
  codePoints : ∀ u16len u8len str, pool.decodeLengths off = some (u16len, u8len, str) →
    (str + u8len) % 2 ^ 32 < pool.stringPoolSize → ∀ k, pool.SearchGoesOn str u8len 0 k →
      triedEnd str u8len k % 2 ^ 32 < pool.stringPoolSize →
      pool.header.stringsStart + triedEnd str u8len k < pool.memory.length →
      pool.byteAt (triedEnd str u8len k) = 0 →
      let piece := pieceAt pool.memory (pool.header.stringsStart + str) (k <<< 15 ||| u8len)
      CodePointsInside 0 piece.text piece.beyond

/-- `string8At` reads only what a string that is inside has. -/
theorem string8At_ne_none (h : pool.Checked)
    (hstring : ∀ off, pool.entryOffset idx = some (some off) → pool.StringInside off) :
    pool.string8At idx ≠ none := by
  rw [string8At]
  split
  next => simp
  next hin =>
    rw [not_or, Nat.not_le, Bool.not_eq_true', Bool.not_eq_false] at hin
    obtain ⟨hidx, hutf8⟩ := hin
    have hcount := Nat.ne_zero_of_lt hidx
    rcases h.entryOffset hidx with hnone | ⟨off, hoff, hlt⟩
    · simp [hnone]
    · have hinside := hstring off hoff
      obtain ⟨⟨u16len, u8len, str⟩, hlengths⟩ := Option.ne_none_iff_exists'.mp
        ((decodeLengths_ne_none_iff h hcount hutf8 hlt).mpr hinside.lengths)
      simp only [hoff, hlengths, Option.bind_eq_bind, Option.bind_some]
      split
      next hfits =>
        exact (stringDecodeAt_ne_none_iff h hcount).mpr (hinside.search _ _ _ hlengths hfits)
      next => simp

/-- `stringAt` reads only what a string that is inside has. -/
theorem stringAt8_ne_none (h : pool.Checked) (hidx : idx < pool.header.stringCount)
    (hutf8 : pool.header.isUtf8 = true)
    (hstring : ∀ off, pool.entryOffset idx = some (some off) → pool.StringInside off)
    (cache : Cache) : pool.stringAt8 cache idx ≠ none := by
  have hcount := Nat.ne_zero_of_lt hidx
  rcases h.entryOffset hidx with hnone | ⟨off, hoff, hlt⟩
  · simp [stringAt8, hnone]
  · have hinside := hstring off hoff
    obtain ⟨⟨u16len, u8len, str⟩, hlengths⟩ := Option.ne_none_iff_exists'.mp
      ((decodeLengths_ne_none_iff h hcount hutf8 hlt).mpr hinside.lengths)
    rw [stringAt8]
    simp only [hoff, hlengths, Option.bind_eq_bind, Option.bind_some]
    split
    next hfits =>
      split
      next => simp
      next =>
        obtain ⟨found, hfound⟩ := Option.ne_none_iff_exists'.mp
          ((stringDecodeAt_ne_none_iff h hcount).mpr (hinside.search _ _ _ hlengths hfits))
        cases found with
        | none => simp [hfound]
        | some piece =>
            obtain ⟨k, hgoes, hfits', hin, hzero, rfl⟩ := stringDecodeAt_eq_some_iff.mp hfound
            obtain ⟨len, hlen⟩ := Option.ne_none_iff_exists'.mp
              ((utf16LengthLoop_ne_none_iff _ _ 0 0).mpr
                (hinside.codePoints _ _ _ hlengths hfits k hgoes hfits' hin hzero))
            simp only [hfound, utf8ToUtf16Length, hlen, Option.bind_some]
            cases len with
            | none => simp
            | some actualLen =>
                dsimp only
                split <;> simp
    next => simp

/-- **A string that the first read finds inside the memory is inside.** -/
theorem stringInside_of_stringAt8 (h : pool.Checked) (hidx : idx < pool.header.stringCount)
    (hutf8 : pool.header.isUtf8 = true) {cache : Cache} (hcache : cache idx = none)
    (hread : pool.stringAt8 cache idx ≠ none) (hoff : pool.entryOffset idx = some (some off)) :
    pool.StringInside off := by
  have hcount := Nat.ne_zero_of_lt hidx
  have hlt : off + 1 < pool.stringPoolSize := by
    rcases h.entryOffset hidx with hnone | ⟨off', hoff', hlt⟩
    · rw [hnone] at hoff
      cases hoff
    · rw [hoff', Option.some.injEq, Option.some.injEq] at hoff
      exact hoff ▸ hlt
  rw [stringAt8, hoff] at hread
  simp only [Option.bind_eq_bind, Option.bind_some] at hread
  -- a read that fails stops the whole string
  have hlengths : pool.decodeLengths off ≠ none := fun hnone => hread (by rw [hnone]; rfl)
  have hfound : ∀ {u16len u8len str}, pool.decodeLengths off = some (u16len, u8len, str) →
      (str + u8len) % 2 ^ 32 < pool.stringPoolSize →
      pool.stringDecodeAt str u8len ≠ none ∧ ∀ piece,
        pool.stringDecodeAt str u8len = some (some piece) →
        utf8ToUtf16Length piece.text piece.beyond ≠ none := by
    intro u16len u8len str hlengths hfits
    simp only [hlengths, Option.bind_some, if_pos hfits, hcache] at hread
    refine ⟨fun hnone => hread (by rw [hnone]; rfl), fun piece hpiece hnone => hread ?_⟩
    simp only [hpiece, Option.bind_some, hnone]
    rfl
  exact {
    lengths := (decodeLengths_ne_none_iff h hcount hutf8 hlt).mp hlengths
    search := fun u16len u8len str hlengths hfits =>
      (stringDecodeAt_ne_none_iff h hcount).mp (hfound hlengths hfits).1
    codePoints := fun u16len u8len str hlengths hfits k hgoes hfits' hin hzero =>
      (utf16LengthLoop_ne_none_iff _ _ 0 0).mp ((hfound hlengths hfits).2 _
        (stringDecodeAt_eq_some_iff.mpr ⟨k, hgoes, hfits', hin, hzero, rfl⟩)) }

/-! ## Styles -/

/-- The entries of the styles are inside the memory. -/
def StyleEntriesInside (pool : ResStringPool) : Prop :=
  pool.header.styleCount ≠ 0 → pool.header.headerSize
    + 4 * (pool.header.stringCount + pool.header.styleCount) ≤ pool.memory.length

/-- **The entries of the styles are read inside the memory** if and only if they are there. -/
theorem styleAt_ne_none_iff :
    (∀ idx, pool.styleAt idx ≠ none) ↔ pool.StyleEntriesInside := by
  constructor
  · intro hread hcount
    by_contra hout
    refine hread (pool.header.styleCount - 1) ?_
    rw [styleAt, if_neg (by omega), load_eq_none (by omega)]
    rfl
  · intro hin idx
    rw [styleAt]
    split
    next => simp
    next hlt =>
      rw [Nat.not_le] at hlt
      have hentries := hin (Nat.ne_zero_of_lt hlt)
      rw [load_eq_some (by omega)]
      simp

/-- A style that is found begins in front of the end of the styles. -/
theorem lt_stylePoolSize_of_styleAt {span : ℕ} (h : pool.styleAt idx = some (some span)) :
    pool.header.styleCount ≠ 0 ∧ span < pool.stylePoolSize := by
  rw [styleAt] at h
  split at h
  next => cases h
  next hlt =>
    obtain ⟨entry, -, h⟩ := Option.bind_eq_some_iff.mp h
    simp only [Option.pure_def, Option.some.injEq] at h
    split at h
    next hfits =>
      cases h
      exact ⟨by omega, hfits⟩
    next => cases h

/-- **The walk over the spans** stays inside and comes to an end: it cannot step over the three
words that end the styles. -/
theorem readSpans_ne_none (h : pool.Checked) (hcount : pool.header.styleCount ≠ 0) {span : ℕ}
    (hspan : span < pool.stylePoolSize) : pool.readSpans span ≠ none := by
  have hle := h.size_le
  have hstyles := h.styles_le hcount
  obtain ⟨hpos, hend⟩ := h.styles_end hcount
  induction hn : pool.stylePoolSize - span using Nat.strong_induction_on generalizing span with
  | _ n ih =>
      have hinside : pool.header.stylesStart + 4 * span + 4 ≤ pool.memory.length := by omega
      rw [readSpans]
      simp only [dif_pos hinside]
      split
      next => simp
      next hname =>
        have hbefore : span + 3 < pool.stylePoolSize := by
          by_contra hlast
          have hword := hend (span + 3 - pool.stylePoolSize) (by omega)
          rw [show pool.header.stylesStart + 4 * pool.stylePoolSize - 12
            + 4 * (span + 3 - pool.stylePoolSize) = pool.header.stylesStart + 4 * span by omega] at hword
          exact hname hword
        obtain ⟨spans, hspans⟩ := Option.ne_none_iff_exists'.mp
          (ih (pool.stylePoolSize - (span + 3)) (by omega) hbefore rfl)
        rw [load_eq_some (by omega), load_eq_some (by omega), hspans]
        simp

/-! ## All reads -/

/-- **All accessors of a pool read inside the memory**, and they come to an end: the strings, also
if some of them are cached, the styles, and the walk over the spans of a style. -/
def StaysInside (pool : ResStringPool) : Prop :=
  ∀ idx, (∀ cache, pool.stringAt cache idx ≠ none) ∧ pool.string8At idx ≠ none
    ∧ pool.styleAt idx ≠ none
    ∧ ∀ span, pool.styleAt idx = some (some span) → pool.readSpans span ≠ none

/-- **An accepted pool is read inside its buffer** if and only if the entries of its styles and, in
UTF-8, its strings are there. -/
theorem staysInside_iff {memory : List UInt8} {pool : ResStringPool}
    (haccept : setTo memory memory.length = some (some pool)) :
    pool.StaysInside ↔ pool.StyleEntriesInside
      ∧ (pool.header.isUtf8 = true → ∀ idx < pool.header.stringCount, ∀ off,
        pool.entryOffset idx = some (some off) → pool.StringInside off) := by
  obtain ⟨h, -⟩ := checked_of_setTo (Nat.le_refl _) haccept
  constructor
  · intro hread
    refine ⟨styleAt_ne_none_iff.mp fun idx => (hread idx).2.2.1,
      fun hutf8 idx hidx off hoff => stringInside_of_stringAt8 h hidx hutf8
        (rfl : emptyCache idx = none) ?_ hoff⟩
    have hstring := (hread idx).1 emptyCache
    rwa [stringAt, if_neg (Nat.not_le.mpr hidx), if_pos hutf8] at hstring
  · rintro ⟨hstyles, hstrings⟩ idx
    refine ⟨fun cache => ?_, ?_, styleAt_ne_none_iff.mpr hstyles idx, fun span hspan =>
      readSpans_ne_none h (lt_stylePoolSize_of_styleAt hspan).1 (lt_stylePoolSize_of_styleAt hspan).2⟩
    · rw [stringAt]
      split
      next => simp
      next hidx =>
        rw [Nat.not_le] at hidx
        cases hutf8 : pool.header.isUtf8 with
        | true =>
            rw [if_pos rfl]
            exact stringAt8_ne_none h hidx hutf8 (hstrings hutf8 idx hidx) cache
        | false =>
            rw [if_neg Bool.false_ne_true, ne_eq, Option.map_eq_none_iff]
            exact stringAt16_ne_none h hidx hutf8
    · by_cases hin : idx < pool.header.stringCount ∧ pool.header.isUtf8 = true
      · exact string8At_ne_none h (hstrings hin.2 idx hin.1)
      · rw [string8At, if_pos]
        · simp
        · rw [not_and_or, Nat.not_lt, Bool.not_eq_true] at hin
          simpa using hin

end ResStringPool

/-! ## A length at the end of the buffer -/

/-- A pool in UTF-8 with one string of four bytes. -/
def poolOfBytes (entry : ℕ) (strings : List UInt8) : List UInt8 :=
  [0x01, 0x00, 0x1c, 0x00] ++ leBytes 4 36 ++ leBytes 4 1 ++ leBytes 4 0 ++ leBytes 4 0x100
    ++ leBytes 4 32 ++ leBytes 4 0 ++ leBytes 4 entry ++ strings

/-- What `setTo` makes of it. -/
def poolOfBytesResult (entry : ℕ) (strings : List UInt8) : ResStringPool :=
  ⟨poolOfBytes entry strings, ⟨28, 36, 1, 0, 0x100, 32, 0⟩, 4, 0⟩

/-- A pool in UTF-8 with two strings, and one span that the second one names. -/
def styledPool : List UInt8 :=
  [0x01, 0x00, 0x1c, 0x00] ++ leBytes 4 72 ++ leBytes 4 2 ++ leBytes 4 1 ++ leBytes 4 0x100
    ++ leBytes 4 40 ++ leBytes 4 48 ++ leBytes 4 0 ++ leBytes 4 4 ++ leBytes 4 0
    ++ [1, 1, 97, 0, 1, 1, 98, 0] ++ leBytes 4 1 ++ leBytes 4 0 ++ leBytes 4 0
    ++ leBytes 4 0xffffffff ++ leBytes 4 0xffffffff ++ leBytes 4 0xffffffff

/-- What `setTo` makes of it. -/
def styledPoolResult : ResStringPool :=
  ⟨styledPool, ⟨28, 72, 2, 1, 0x100, 40, 48⟩, 8, 6⟩

/-- Its strings are inside the buffer. -/
theorem stringInside_styledPool {off : ℕ} (hoff : off = 0 ∨ off = 4) :
    styledPoolResult.StringInside off := by
  have hlengths : styledPoolResult.decodeLengths off = some (1, 1, off + 2) := by
    rcases hoff with rfl | rfl <;> rfl
  -- the search ends in its first turn
  have hend : ∀ k, styledPoolResult.SearchGoesOn (off + 2) 1 0 k → k = 0 := by
    intro k hgoes
    by_contra hk
    refine (hgoes 0 (Nat.le_refl 0) (Nat.pos_of_ne_zero hk)).2 ?_
    rcases hoff with rfl | rfl <;> rfl
  refine ⟨fun hlast => ?_, ?_, ?_⟩
  · have hsize : styledPoolResult.stringPoolSize = 8 := rfl
    omega
  · rintro u16len u8len str heq - k hgoes - hle
    rw [hlengths] at heq
    cases heq
    obtain rfl := hend k hgoes
    rcases hoff with rfl | rfl <;> exact absurd hle (by decide)
  · rintro u16len u8len str heq - k hgoes - - - piece t ht c hc hbig
    rw [hlengths] at heq
    cases heq
    obtain rfl := hend k hgoes
    rcases hoff with rfl | rfl
    · obtain rfl : t = 0 := List.mem_singleton.mp ht
      obtain rfl : 97 = c := Option.some.inj hc
      exact absurd hbig (by decide)
    · obtain rfl : t = 0 := List.mem_singleton.mp ht
      obtain rfl : 98 = c := Option.some.inj hc
      exact absurd hbig (by decide)

/-- Its strings and its span are read inside the buffer. -/
theorem staysInside_styledPool : styledPoolResult.StaysInside := by
  have haccept : setTo styledPool styledPool.length = some (some styledPoolResult) :=
    setTo_of_checks (by decide) (by decide) (by decide) (by decide)
  refine (ResStringPool.staysInside_iff haccept).mpr
    ⟨fun _ => by decide, fun _ idx hidx off hoff => stringInside_styledPool ?_⟩
  have hcount : styledPoolResult.header.stringCount = 2 := rfl
  obtain rfl | rfl : idx = 0 ∨ idx = 1 := by omega
  · exact .inl (Option.some.inj (Option.some.inj hoff)).symm
  · exact .inr (Option.some.inj (Option.some.inj hoff)).symm

/-- **A length that begins in front of the last byte** is read past the end of the buffer. -/
theorem not_staysInside_lastLength :
    setTo (poolOfBytes 2 [0, 0, 0x80, 0]) (poolOfBytes 2 [0, 0, 0x80, 0]).length
        = some (some (poolOfBytesResult 2 [0, 0, 0x80, 0]))
      ∧ ¬ (poolOfBytesResult 2 [0, 0, 0x80, 0]).StaysInside := by
  refine ⟨setTo_of_checks (by decide) (by decide) (by decide) (by decide), fun h => ?_⟩
  exact (h 0).2.1 (by decide)

end AndroidSdk.Androidfw
