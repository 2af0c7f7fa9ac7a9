import AndroidSdk.Androidfw.Utf16
import AndroidSdk.Lib.LittleEndian

/-! # String pools in memory

`ResStringPool` reads strings and styles of a pool where it lies
(`libs/androidfw/ResourceTypes.cpp`). The memory is a list of bytes from the address of the pool on,
and a read that is not inside of it gives nothing.

* **`setTo`** — the checks before a pool is accepted.
* **`stringAt`**, **`string8At`** — the strings of a pool; the first decodes them into a cache.
* **`stringDecodeAt`** — the search for the end of a string.
* **`styleAt`**, **`readSpans`** — the styles.
* **`setTo_eq_some`** — what the checks leave. -/

namespace AndroidSdk.Androidfw

open Lib

/-! ## Reads -/

/-- Read a number at an address. -/
def load (width : ℕ) (memory : List UInt8) (address : ℕ) : Option ℕ :=
  if address + width ≤ memory.length then some (fieldAt memory address width) else none

/-- A number within the first part of the memory. -/
theorem load_append {first : List UInt8} {address width : ℕ} (h : address + width ≤ first.length)
    (rest : List UInt8) : load width (first ++ rest) address = load width first address := by
  rw [load, load, if_pos h, if_pos (by rw [List.length_append]; omega),
    fieldAt_append_of_add_le h]

/-- A text where it lies, with the memory behind it. -/
structure StringPiece where
  text : List UInt8
  beyond : List UInt8
  deriving DecidableEq

/-- The text at an address. -/
def pieceAt (memory : List UInt8) (address size : ℕ) : StringPiece :=
  ⟨(memory.drop address).take size, memory.drop (address + size)⟩

/-- The units at an address. -/
def unitsFrom (memory : List UInt8) (address size : ℕ) : List UInt16 :=
  (List.range size).map fun i => .ofNat (fieldAt memory (address + 2 * i) 2)

/-! ## Acceptance -/

/-- `ResStringPool_header`. -/
structure PoolHeader where
  headerSize : ℕ
  size : ℕ
  stringCount : ℕ
  styleCount : ℕ
  flags : ℕ
  stringsStart : ℕ
  stylesStart : ℕ
  deriving DecidableEq

/-- The header at the beginning of the memory. -/
def readHeader (memory : List UInt8) : Option PoolHeader := do
  let headerSize ← load 2 memory 2
  let size ← load 4 memory 4
  let stringCount ← load 4 memory 8
  let styleCount ← load 4 memory 12
  let flags ← load 4 memory 16
  let stringsStart ← load 4 memory 20
  let stylesStart ← load 4 memory 24
  return ⟨headerSize, size, stringCount, styleCount, flags, stringsStart, stylesStart⟩

/-- The flag `UTF8_FLAG`. -/
def PoolHeader.isUtf8 (header : PoolHeader) : Bool := header.flags &&& 0x100 ≠ 0

/-- The size of the units of the strings. -/
def PoolHeader.charSize (header : PoolHeader) : ℕ := if header.isUtf8 then 1 else 2

/-- A pool that was accepted: its sizes are in units of the strings, and in words. -/
structure ResStringPool where
  memory : List UInt8
  header : PoolHeader
  stringPoolSize : ℕ
  stylePoolSize : ℕ

/-- `validate_chunk`, for the header of a pool in a buffer of `size` bytes. -/
def validateHeader (header : PoolHeader) (size : ℕ) : Bool :=
  28 ≤ header.headerSize ∧ header.headerSize ≤ header.size
    ∧ header.headerSize % 4 = 0 ∧ header.size % 4 = 0 ∧ header.size ≤ size

/-- The checks of the strings, which give the size of their part of the pool. -/
def checkStrings (memory : List UInt8) (header : PoolHeader) (size : ℕ) : Option (Option ℕ) :=
  if header.stringCount = 0 then some (some 0)
  else if size < header.headerSize + header.stringCount * 4 then some none
  else if header.size - 2 ≤ header.stringsStart then some none
  else if header.styleCount ≠ 0 ∧ header.size - 2 ≤ header.stylesStart then some none
  else if header.styleCount ≠ 0 ∧ header.stylesStart ≤ header.stringsStart then some none
  else
    let stringsEnd := if header.styleCount = 0 then header.size else header.stylesStart
    let stringPoolSize := (stringsEnd - header.stringsStart) / header.charSize
    if stringPoolSize = 0 then some none
    else do
      let last ← load header.charSize memory
        (header.stringsStart + header.charSize * (stringPoolSize - 1))
      return if last = 0 then some stringPoolSize else none

/-- The checks of the styles, which give the size of their part of the pool. -/
def checkStyles (memory : List UInt8) (header : PoolHeader) (size : ℕ) : Option (Option ℕ) :=
  if header.styleCount = 0 then some (some 0)
  else if (BitVec.ofNat 32 size).toInt < (header.headerSize + header.stringCount * 4 : ℕ) then
    some none
  else if header.size ≤ header.stylesStart then some none
  else do
    let stylePoolSize := (header.size - header.stylesStart) / 4
    let stylesEnd := header.stylesStart + 4 * stylePoolSize - 12
    let first ← load 4 memory stylesEnd
    let second ← load 4 memory (stylesEnd + 4)
    let third ← load 4 memory (stylesEnd + 8)
    return if first = 0xffffffff ∧ second = 0xffffffff ∧ third = 0xffffffff then some stylePoolSize
      else none

/-- `ResStringPool::setTo` for a buffer of `size` bytes. -/
def setTo (memory : List UInt8) (size : ℕ) : Option (Option ResStringPool) :=
  if size < 28 then some none
  else do
    let header ← readHeader memory
    if !validateHeader header size then return none
    let some stringPoolSize ← checkStrings memory header size | return none
    let some stylePoolSize ← checkStyles memory header size | return none
    return some ⟨memory, header, stringPoolSize, stylePoolSize⟩

/-- A pool that passes the checks is accepted. -/
theorem setTo_of_checks {memory : List UInt8} {size : ℕ} {header : PoolHeader}
    {stringPoolSize stylePoolSize : ℕ} (hheader : readHeader memory = some header)
    (hvalid : validateHeader header size = true)
    (hstrings : checkStrings memory header size = some (some stringPoolSize))
    (hstyles : checkStyles memory header size = some (some stylePoolSize)) :
    setTo memory size = some (some ⟨memory, header, stringPoolSize, stylePoolSize⟩) := by
  have hsize : 28 ≤ size := by
    rw [validateHeader, decide_eq_true_iff] at hvalid
    omega
  rw [setTo, if_neg (Nat.not_lt.mpr hsize), hheader, Option.bind_eq_bind, Option.bind_some, hvalid]
  simp only [Bool.not_true, hstrings, hstyles]
  rfl

/-- The strings of a pool without styles. -/
theorem checkStrings_of_load {memory : List UInt8} {size : ℕ} {header : PoolHeader}
    (hentries : header.headerSize + header.stringCount * 4 ≤ size)
    (hstart : header.stringsStart < header.size - 2) (hstyles : header.styleCount = 0)
    {stringPoolSize : ℕ}
    (hpool : (header.size - header.stringsStart) / header.charSize = stringPoolSize + 1)
    (hlast : load header.charSize memory (header.stringsStart + header.charSize * stringPoolSize)
      = some 0) (hcount : header.stringCount ≠ 0) :
    checkStrings memory header size = some (some (stringPoolSize + 1)) := by
  rw [checkStrings, if_neg hcount, if_neg (Nat.not_lt.mpr hentries), if_neg (Nat.not_le.mpr hstart),
    if_neg fun h => h.1 hstyles, if_neg fun h => h.1 hstyles, if_pos hstyles]
  simp only [hpool, Nat.add_sub_cancel, hlast]
  rfl

/-! ## Strings -/

/-- Both forms of `decodeLength`, for units of `charSize` bytes from the address `strings` on. The
position is counted in units. -/
def decodeLengthOf (charSize : ℕ) (memory : List UInt8) (strings str : ℕ) : Option (ℕ × ℕ) := do
  let mask := 2 ^ (8 * charSize - 1)
  let len ← load charSize memory (strings + charSize * str)
  if len &&& mask ≠ 0 then do
    let low ← load charSize memory (strings + charSize * (str + 1))
    return ((len &&& (mask - 1)) <<< (8 * charSize) ||| low, str + 2)
  else return (len, str + 1)

/-- `decodeLength` for UTF-16. -/
def decodeLength16 : List UInt8 → ℕ → ℕ → Option (ℕ × ℕ) := decodeLengthOf 2

/-- `decodeLength` for UTF-8. -/
def decodeLength8 : List UInt8 → ℕ → ℕ → Option (ℕ × ℕ) := decodeLengthOf 1

/-- A bit, as a mask. -/
theorem and_two_pow_eq_zero_iff (n i : ℕ) : n &&& 2 ^ i = 0 ↔ n.testBit i = false := by
  constructor
  · intro h
    have hbit := congrArg (fun m => Nat.testBit m i) h
    simpa using hbit
  · intro h
    apply Nat.eq_of_testBit_eq
    intro j
    rw [Nat.testBit_and, Nat.testBit_two_pow, Nat.zero_testBit]
    by_cases hj : i = j
    · rw [← hj, h, Bool.false_and]
    · rw [decide_eq_false hj, Bool.and_false]

section DecodeLength

variable {charSize : ℕ} {memory : List UInt8} {strings str : ℕ}

/-- A length in one unit. -/
theorem decodeLengthOf_one {len : ℕ}
    (hload : load charSize memory (strings + charSize * str) = some len)
    (hlt : len < 2 ^ (8 * charSize - 1)) :
    decodeLengthOf charSize memory strings str = some (len, str + 1) := by
  have hmask : len &&& 2 ^ (8 * charSize - 1) = 0 :=
    (and_two_pow_eq_zero_iff _ _).mpr (Nat.testBit_lt_two_pow hlt)
  rw [decodeLengthOf, hload]
  simp only [Option.bind_eq_bind, Option.bind_some, hmask]
  rfl

/-- A length in two units. -/
theorem decodeLengthOf_two {high low : ℕ}
    (hload : load charSize memory (strings + charSize * str) = some (2 ^ (8 * charSize - 1) + high))
    (hhigh : high < 2 ^ (8 * charSize - 1))
    (hload' : load charSize memory (strings + charSize * (str + 1)) = some low)
    (hlow : low < 2 ^ (8 * charSize)) :
    decodeLengthOf charSize memory strings str
      = some (high * 2 ^ (8 * charSize) + low, str + 2) := by
  have hmask : 2 ^ (8 * charSize - 1) + high &&& 2 ^ (8 * charSize - 1) ≠ 0 := by
    rw [ne_eq, and_two_pow_eq_zero_iff, Nat.testBit_two_pow_add_eq, Nat.testBit_lt_two_pow hhigh]
    decide
  have hrest : (2 ^ (8 * charSize - 1) + high) &&& (2 ^ (8 * charSize - 1) - 1) = high := by
    rw [Nat.and_two_pow_sub_one_eq_mod, Nat.add_mod_left, Nat.mod_eq_of_lt hhigh]
  rw [decodeLengthOf, hload]
  simp only [Option.bind_eq_bind, Option.bind_some, if_pos hmask, hload', hrest]
  rw [← Nat.shiftLeft_add_eq_or_of_lt hlow, Nat.shiftLeft_eq]
  rfl

end DecodeLength

namespace ResStringPool

variable (pool : ResStringPool)

/-- The position of a string in the pool, in units: `none` if the entry is past the end. -/
def entryOffset (idx : ℕ) : Option (Option ℕ) := do
  let entry ← load 4 pool.memory (pool.header.headerSize + 4 * idx)
  let off := entry / pool.header.charSize
  return if off < pool.stringPoolSize - 1 then some off else none

/-- The search of `stringDecodeAt`, from its turn `i` on. -/
def stringDecodeLoop (str encLen i : ℕ) : Option (Option StringPiece) :=
  let nullAddress := str + (i <<< 15 ||| encLen)
  if nullAddress % 2 ^ 32 < pool.stringPoolSize then
    if _hinside : pool.header.stringsStart + nullAddress < pool.memory.length then
      if fieldAt pool.memory (pool.header.stringsStart + nullAddress) 1 = 0 then
        some (some (pieceAt pool.memory (pool.header.stringsStart + str) (i <<< 15 ||| encLen)))
      else stringDecodeLoop str encLen (i + 1)
    else none
  else some none
termination_by pool.memory.length - i
decreasing_by
  have hle : i ≤ i <<< 15 ||| encLen := calc
    i ≤ i <<< 15 := by
      rw [Nat.shiftLeft_eq]
      exact Nat.le_mul_of_pos_right i (by decide)
    _ ≤ i <<< 15 ||| encLen := Nat.left_le_or
  omega

/-- `stringDecodeAt`. -/
def stringDecodeAt (str encLen : ℕ) : Option (Option StringPiece) :=
  pool.stringDecodeLoop str encLen 0

/-- Both lengths of a string in UTF-8 and the position behind them. -/
def decodeLengths (off : ℕ) : Option (ℕ × ℕ × ℕ) := do
  let (u16len, u8str) ← decodeLength8 pool.memory pool.header.stringsStart off
  let (u8len, u8str) ← decodeLength8 pool.memory pool.header.stringsStart u8str
  return (u16len, u8len, u8str)

/-- `string8At`. -/
def string8At (idx : ℕ) : Option (Option StringPiece) :=
  if pool.header.stringCount ≤ idx ∨ !pool.header.isUtf8 then some none
  else do
    let some off ← pool.entryOffset idx | return none
    let (_, u8len, str) ← pool.decodeLengths off
    if (str + u8len) % 2 ^ 32 < pool.stringPoolSize then pool.stringDecodeAt str u8len
    else return none

/-- `mCache`: the strings that were decoded, in buffers that end with a zero. -/
abbrev Cache := ℕ → Option (List UInt16)

/-- The cache of a new pool. -/
def emptyCache : Cache := fun _ => none

/-- `stringAt` for a pool in UTF-16. -/
def stringAt16 (idx : ℕ) : Option (Option (List UInt16)) := do
  let some off ← pool.entryOffset idx | return none
  let (u16len, str) ← decodeLength16 pool.memory pool.header.stringsStart off
  if (str + u16len) % 2 ^ 32 < pool.stringPoolSize then do
    let null ← load 2 pool.memory (pool.header.stringsStart + 2 * (str + u16len))
    return if null ≠ 0 then none
      else some (unitsFrom pool.memory (pool.header.stringsStart + 2 * str) u16len)
  else return none

/-- `stringAt` for a pool in UTF-8. -/
def stringAt8 (cache : Cache) (idx : ℕ) : Option (Option (List UInt16) × Cache) := do
  let some off ← pool.entryOffset idx | return (none, cache)
  let (u16len, u8len, u8str) ← pool.decodeLengths off
  if (u8str + u8len) % 2 ^ 32 < pool.stringPoolSize then
    match cache idx with
    | some buffer => return (some (buffer.take u16len), cache)
    | none => do
        let some decodedString ← pool.stringDecodeAt u8str u8len | return (none, cache)
        let some actualLen ← utf8ToUtf16Length decodedString.text decodedString.beyond
          | return (none, cache)
        if actualLen &&& 0x7fff ≠ u16len then return (none, cache)
        let u16str := utf16Buffer decodedString.text actualLen
        return (some (u16str.take actualLen), Function.update cache idx (some u16str))
  else return (none, cache)

/-- `stringAt`, with the cache before and after. -/
def stringAt (cache : Cache) (idx : ℕ) : Option (Option (List UInt16) × Cache) :=
  if pool.header.stringCount ≤ idx then some (none, cache)
  else if pool.header.isUtf8 then pool.stringAt8 cache idx
  else (pool.stringAt16 idx).map fun s => (s, cache)

/-! ## Styles -/

/-- `styleAt`: the position of the first span, in words. -/
def styleAt (idx : ℕ) : Option (Option ℕ) :=
  if pool.header.styleCount ≤ idx then some none
  else do
    let entry ← load 4 pool.memory
      (pool.header.headerSize + 4 * pool.header.stringCount + 4 * idx)
    let off := entry / 4
    return if off < pool.stylePoolSize then some off else none

/-- The walk over the spans in `ParseBinaryResValue`: their names and ranges. -/
def readSpans (span : ℕ) : Option (List (ℕ × ℕ × ℕ)) :=
  let address := pool.header.stylesStart + 4 * span
  if _hinside : address + 4 ≤ pool.memory.length then
    if fieldAt pool.memory address 4 = 0xffffffff then some []
    else do
      let firstChar ← load 4 pool.memory (address + 4)
      let lastChar ← load 4 pool.memory (address + 8)
      let spans ← readSpans (span + 3)
      return (fieldAt pool.memory address 4, firstChar, lastChar) :: spans
  else none
termination_by pool.memory.length - span

/-! ## The search -/

variable {pool} {str encLen i : ℕ}

/-- The search ends at a zero. -/
theorem stringDecodeLoop_end
    (hfits : (str + (i <<< 15 ||| encLen)) % 2 ^ 32 < pool.stringPoolSize)
    (hinside : pool.header.stringsStart + (str + (i <<< 15 ||| encLen)) < pool.memory.length)
    (hnull : fieldAt pool.memory (pool.header.stringsStart + (str + (i <<< 15 ||| encLen))) 1 = 0) :
    pool.stringDecodeLoop str encLen i
      = some (some (pieceAt pool.memory (pool.header.stringsStart + str) (i <<< 15 ||| encLen))) := by
  rw [stringDecodeLoop, if_pos hfits, dif_pos hinside, if_pos hnull]

/-- It goes on from another byte. -/
theorem stringDecodeLoop_next
    (hfits : (str + (i <<< 15 ||| encLen)) % 2 ^ 32 < pool.stringPoolSize)
    (hinside : pool.header.stringsStart + (str + (i <<< 15 ||| encLen)) < pool.memory.length)
    (hnull : fieldAt pool.memory (pool.header.stringsStart + (str + (i <<< 15 ||| encLen))) 1 ≠ 0) :
    pool.stringDecodeLoop str encLen i = pool.stringDecodeLoop str encLen (i + 1) := by
  rw [stringDecodeLoop, if_pos hfits, dif_pos hinside, if_neg hnull]

end ResStringPool

end AndroidSdk.Androidfw
