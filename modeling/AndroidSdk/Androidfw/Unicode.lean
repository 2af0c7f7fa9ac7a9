import AndroidSdk.Lib.Utf8
import Mathlib.Tactic.IntervalCases

/-! # Code points in UTF-8

The functions of `libutils` that read and write single code points (`binder/Unicode.cpp`), on the
bytes from a position to the end of a string. They do not check the bytes, and read past the end of
the string if its last code point is not complete.

* **`utf32At`** — `utf32_at_internal`; `utf32At_char` reads a character, `utf32At_three` what has the
  shape of one, surrogates included.
* **`utf32ToUtf8`** — `utf32_to_utf8` for one code point; `utf32ToUtf8_char` writes a character. -/

namespace AndroidSdk.Androidfw

open Lib

/-! ## Reading -/

/-- The code point when the loop ends, and the number of bytes that were read. -/
def maskedCodepoint (toIgnoreMask utf32 : BitVec 32) (numToRead : ℕ) : BitVec 32 × ℕ :=
  (utf32 &&& ~~~(toIgnoreMask <<< (6 * (numToRead - 1))), numToRead)

/-- The loop of `utf32_at_internal`, with as many turns left as the mask has bits below it. -/
def utf32AtLoop (firstChar : BitVec 32) :
    ℕ → BitVec 32 → BitVec 32 → ℕ → List UInt8 → Option (BitVec 32 × ℕ)
  | 0, toIgnoreMask, utf32, numToRead, _ => some (maskedCodepoint toIgnoreMask utf32 numToRead)
  | bits + 1, toIgnoreMask, utf32, numToRead, cur =>
      let mask := 1#32 <<< bits
      if firstChar &&& mask = 0 then
        some (maskedCodepoint (toIgnoreMask ||| mask) utf32 numToRead)
      else
        match cur with
        | [] => none
        | c :: cur =>
            utf32AtLoop firstChar bits (toIgnoreMask ||| mask)
              ((utf32 <<< 6) + (c.toBitVec.setWidth 32 &&& 0x3f)) (numToRead + 1) cur

/-- `utf32_at_internal`: nothing if it reads past the end of the string. -/
def utf32At : List UInt8 → Option (BitVec 32 × ℕ)
  | [] => none
  | c :: cur =>
      let firstChar := c.toBitVec.signExtend 32
      if firstChar &&& 0x80 = 0 then some (firstChar, 1)
      else utf32AtLoop firstChar 7 0xffffff80 firstChar 1 cur

/-- `utf32_from_utf8_at`: at the end of the string it returns -1. -/
def utf32FromUtf8At : List UInt8 → Option (BitVec 32 × ℕ)
  | [] => some (-1, 0)
  | c :: cur => utf32At (c :: cur)

/-! ## Writing -/

/-- `utf32_codepoint_utf8_length`. -/
def utf32CodepointUtf8Length (srcChar : BitVec 32) : ℕ :=
  if srcChar.toNat < 0x80 then 1
  else if srcChar.toNat < 0x800 then 2
  else if srcChar.toNat < 0x10000 then
    if srcChar.toNat < 0xd800 ∨ 0xdfff < srcChar.toNat then 3 else 0
  else if srcChar.toNat ≤ 0x10ffff then 4
  else 0

/-- `kFirstByteMark`. -/
def kFirstByteMark : ℕ → BitVec 32
  | 2 => 0xc0
  | 3 => 0xe0
  | 4 => 0xf0
  | _ => 0

/-- `utf32_codepoint_to_utf8`, which writes from the last byte to the first. -/
def utf32CodepointToUtf8 (firstByteMark : BitVec 32) :
    ℕ → BitVec 32 → List UInt8 → List UInt8
  | 0, _, dst => dst
  | 1, srcChar, dst => ⟨(srcChar ||| firstByteMark).setWidth 8⟩ :: dst
  | bytes + 2, srcChar, dst =>
      utf32CodepointToUtf8 firstByteMark (bytes + 1) (srcChar >>> 6)
        (⟨((srcChar ||| 0x80) &&& 0xbf).setWidth 8⟩ :: dst)

/-- `utf32_to_utf8`, for one code point. -/
def utf32ToUtf8 (srcChar : BitVec 32) : List UInt8 :=
  let bytes := utf32CodepointUtf8Length srcChar
  utf32CodepointToUtf8 (kFirstByteMark bytes) bytes srcChar []

/-! ## What is read -/

section Loop

variable {firstChar : BitVec 32} {bits : ℕ} (toIgnoreMask utf32 : BitVec 32) (numToRead : ℕ)

/-- The loop ends at a bit that is not set. -/
theorem utf32AtLoop_end (h : firstChar &&& (1#32 <<< bits) = 0) (cur : List UInt8) :
    utf32AtLoop firstChar (bits + 1) toIgnoreMask utf32 numToRead cur
      = some (maskedCodepoint (toIgnoreMask ||| 1#32 <<< bits) utf32 numToRead) := by
  cases cur with
  | nil => exact if_pos h
  | cons c cur => exact if_pos h

/-- At a bit that is set, it reads a byte. -/
theorem utf32AtLoop_next (h : firstChar &&& (1#32 <<< bits) ≠ 0) (c : UInt8) (cur : List UInt8) :
    utf32AtLoop firstChar (bits + 1) toIgnoreMask utf32 numToRead (c :: cur)
      = utf32AtLoop firstChar bits (toIgnoreMask ||| 1#32 <<< bits)
          ((utf32 <<< 6) + (c.toBitVec.setWidth 32 &&& 0x3f)) (numToRead + 1) cur :=
  if_neg h

end Loop

/-- The low bits of a number, as a mask. -/
theorem toNat_and_mask {w : ℕ} (x : BitVec w) {mask : BitVec w} {n : ℕ} (h : mask.toNat = 2 ^ n - 1) :
    (x &&& mask).toNat = x.toNat % 2 ^ n := by
  rw [BitVec.toNat_and, h, Nat.and_two_pow_sub_one_eq_mod]

/-- The low bits of a byte, as a number of 32 bits. -/
theorem toNat_low_bits (c : UInt8) :
    (c.toBitVec.setWidth 32 &&& 0x3f).toNat = c.toNat % 64 := by
  have hlt := c.toNat_lt
  have hmask : (0x3f : BitVec 32).toNat = 2 ^ 6 - 1 := rfl
  rw [toNat_and_mask _ hmask, BitVec.toNat_setWidth, UInt8.toNat_toBitVec]
  omega

/-- One turn of the loop. -/
theorem toNat_shift_add (utf32 : BitVec 32) (c : UInt8) :
    ((utf32 <<< 6) + (c.toBitVec.setWidth 32 &&& 0x3f)).toNat
      = (utf32.toNat * 64 + c.toNat % 64) % 2 ^ 32 := by
  rw [BitVec.toNat_add, BitVec.toNat_shiftLeft, toNat_low_bits, Nat.shiftLeft_eq]
  omega

/-- A bit of a byte, in the number of 32 bits that it is as a `char`. -/
theorem signExtend_and_bit_eq_zero_iff (c : UInt8) {bit : ℕ} (hbit : bit < 8) :
    c.toBitVec.signExtend 32 &&& (1#32 <<< bit) = 0 ↔ c.toNat / 2 ^ bit % 2 = 0 := by
  have hsame : (c.toBitVec.signExtend 32).getLsbD bit = decide (c.toNat / 2 ^ bit % 2 = 1) := by
    rw [BitVec.getLsbD_signExtend, if_pos hbit, decide_eq_true (by omega), Bool.true_and,
      ← BitVec.testBit_toNat, UInt8.toNat_toBitVec, Nat.testBit_eq_decide_div_mod_eq]
  have hpos : BitVec.twoPow 32 bit ≠ 0 := by
    intro hzero
    have hnat := congrArg BitVec.toNat hzero
    rw [BitVec.toNat_twoPow_of_lt (by omega)] at hnat
    exact absurd hnat (Nat.two_pow_pos bit).ne'
  rw [← BitVec.twoPow_eq, BitVec.and_twoPow, hsame]
  split_ifs with hset
  · rw [decide_eq_true_iff] at hset
    exact iff_of_false hpos (by omega)
  · rw [decide_eq_true_iff] at hset
    exact iff_of_true rfl (by omega)

/-- A byte that is a negative `char`. -/
theorem toNat_signExtend {c : UInt8} (h : 0x80 ≤ c.toNat) :
    (c.toBitVec.signExtend 32).toNat = c.toNat + 0xffffff00 := by
  have hlt := c.toNat_lt
  have hmsb : c.toBitVec.msb = true := by
    rw [BitVec.msb_eq_true_iff_two_mul_ge, UInt8.toNat_toBitVec]
    omega
  rw [BitVec.toNat_signExtend, hmsb, if_pos rfl, BitVec.toNat_setWidth, UInt8.toNat_toBitVec,
    Nat.mod_eq_of_lt (by omega)]

/-- An ASCII character is read. -/
theorem utf32At_one {c : UInt8} (h : c.toNat < 0x80) (rest : List UInt8) :
    utf32At (c :: rest) = some (BitVec.ofNat 32 c.toNat, 1) := by
  have hbit : c.toBitVec.signExtend 32 &&& 0x80 = 0 := by
    have hmask : (0x80 : BitVec 32) = 1#32 <<< 7 := by decide
    rw [hmask, signExtend_and_bit_eq_zero_iff c (by decide)]
    omega
  have hmsb : c.toBitVec.msb = false := by
    rw [BitVec.msb_eq_false_iff_two_mul_lt, UInt8.toNat_toBitVec]
    omega
  have hsame : c.toBitVec.signExtend 32 = BitVec.ofNat 32 c.toNat := by
    apply BitVec.eq_of_toNat_eq
    rw [BitVec.toNat_signExtend, hmsb, BitVec.toNat_setWidth, BitVec.toNat_ofNat,
      UInt8.toNat_toBitVec]
    rfl
  rw [utf32At, if_pos hbit, hsame]

/-- Another byte starts the loop. -/
theorem utf32At_of_ge {c : UInt8} (h : 0x80 ≤ c.toNat) (cur : List UInt8) :
    utf32At (c :: cur)
      = utf32AtLoop (c.toBitVec.signExtend 32) 7 0xffffff80 (c.toBitVec.signExtend 32) 1 cur := by
  have hlt := c.toNat_lt
  have hmask : (0x80 : BitVec 32) = 1#32 <<< 7 := by decide
  refine if_neg ?_
  rw [hmask, signExtend_and_bit_eq_zero_iff c (by decide)]
  omega

/-- Two bytes are read. -/
theorem utf32At_two {c c2 : UInt8} (h : 0xc0 ≤ c.toNat) (h' : c.toNat < 0xe0) (rest : List UInt8) :
    utf32At (c :: c2 :: rest)
      = some (BitVec.ofNat 32 (c.toNat % 32 * 64 + c2.toNat % 64), 2) := by
  have hbits := fun bit hbit => @signExtend_and_bit_eq_zero_iff c bit hbit
  have h6 := mt (hbits 6 (by decide)).mp (by omega)
  have h5 := (hbits 5 (by decide)).mpr (by omega)
  have hsign := toNat_signExtend (c := c) (by omega)
  rw [utf32At_of_ge (by omega), utf32AtLoop_next _ _ _ h6, utf32AtLoop_end _ _ _ h5, maskedCodepoint]
  congr 2
  apply BitVec.eq_of_toNat_eq
  have hmask : (~~~(((0xffffff80 : BitVec 32) ||| 1#32 <<< 6 ||| 1#32 <<< 5) <<< (6 * (1 + 1 - 1)))).toNat
      = 2 ^ 11 - 1 := by decide
  rw [toNat_and_mask _ hmask, toNat_shift_add, hsign, BitVec.toNat_ofNat]
  omega

/-- Three bytes are read. -/
theorem utf32At_three {c c2 c3 : UInt8} (h : 0xe0 ≤ c.toNat) (h' : c.toNat < 0xf0)
    (rest : List UInt8) : utf32At (c :: c2 :: c3 :: rest)
      = some (BitVec.ofNat 32 (c.toNat % 16 * 4096 + c2.toNat % 64 * 64 + c3.toNat % 64), 3) := by
  have hbits := fun bit hbit => @signExtend_and_bit_eq_zero_iff c bit hbit
  have h6 := mt (hbits 6 (by decide)).mp (by omega)
  have h5 := mt (hbits 5 (by decide)).mp (by omega)
  have h4 := (hbits 4 (by decide)).mpr (by omega)
  have hsign := toNat_signExtend (c := c) (by omega)
  rw [utf32At_of_ge (by omega), utf32AtLoop_next _ _ _ h6, utf32AtLoop_next _ _ _ h5,
    utf32AtLoop_end _ _ _ h4, maskedCodepoint]
  congr 2
  apply BitVec.eq_of_toNat_eq
  have hmask : (~~~(((0xffffff80 : BitVec 32) ||| 1#32 <<< 6 ||| 1#32 <<< 5 ||| 1#32 <<< 4)
      <<< (6 * (1 + 1 + 1 - 1)))).toNat = 2 ^ 16 - 1 := by decide
  rw [toNat_and_mask _ hmask, toNat_shift_add, toNat_shift_add, hsign, BitVec.toNat_ofNat]
  omega

/-- Four bytes are read. -/
theorem utf32At_four {c c2 c3 c4 : UInt8} (h : 0xf0 ≤ c.toNat) (h' : c.toNat < 0xf8)
    (rest : List UInt8) : utf32At (c :: c2 :: c3 :: c4 :: rest)
      = some (BitVec.ofNat 32 (c.toNat % 8 * 262144 + c2.toNat % 64 * 4096 + c3.toNat % 64 * 64
          + c4.toNat % 64), 4) := by
  have hbits := fun bit hbit => @signExtend_and_bit_eq_zero_iff c bit hbit
  have h6 := mt (hbits 6 (by decide)).mp (by omega)
  have h5 := mt (hbits 5 (by decide)).mp (by omega)
  have h4 := mt (hbits 4 (by decide)).mp (by omega)
  have h3 := (hbits 3 (by decide)).mpr (by omega)
  have hsign := toNat_signExtend (c := c) (by omega)
  rw [utf32At_of_ge (by omega), utf32AtLoop_next _ _ _ h6, utf32AtLoop_next _ _ _ h5,
    utf32AtLoop_next _ _ _ h4, utf32AtLoop_end _ _ _ h3, maskedCodepoint]
  congr 2
  apply BitVec.eq_of_toNat_eq
  have hmask : (~~~(((0xffffff80 : BitVec 32) ||| 1#32 <<< 6 ||| 1#32 <<< 5 ||| 1#32 <<< 4 ||| 1#32 <<< 3)
      <<< (6 * (1 + 1 + 1 + 1 - 1)))).toNat = 2 ^ 21 - 1 := by decide
  rw [toNat_and_mask _ hmask, toNat_shift_add, toNat_shift_add, toNat_shift_add, hsign,
    BitVec.toNat_ofNat]
  omega

/-- **A character is read.** -/
theorem utf32At_char (c : Char) (rest : List UInt8) :
    utf32At (String.utf8EncodeChar c ++ rest)
      = some (BitVec.ofNat 32 c.toNat, (String.utf8EncodeChar c).length) := by
  rcases utf8EncodeChar_cases c with ⟨b, heq, hlt, h1⟩ | ⟨b, b2, heq, hge, hlt, h1, h2⟩
    | ⟨b, b2, b3, heq, hge, hlt, h1, h2, h3⟩ | ⟨b, b2, b3, b4, heq, hge, hle, h1, h2, h3, h4⟩
  · rw [heq, List.singleton_append, utf32At_one (by omega), h1]
    rfl
  · have hcode : b.toNat % 32 * 64 + b2.toNat % 64 = c.toNat := by omega
    rw [heq, List.cons_append, List.singleton_append, utf32At_two (by omega) (by omega), hcode]
    rfl
  · have hcode : b.toNat % 16 * 4096 + b2.toNat % 64 * 64 + b3.toNat % 64 = c.toNat := by omega
    rw [heq, List.cons_append, List.cons_append, List.singleton_append,
      utf32At_three (by omega) (by omega), hcode]
    rfl
  · have hcode : b.toNat % 8 * 262144 + b2.toNat % 64 * 4096 + b3.toNat % 64 * 64 + b4.toNat % 64
        = c.toNat := by omega
    rw [heq, List.cons_append, List.cons_append, List.cons_append, List.singleton_append,
      utf32At_four (by omega) (by omega), hcode]
    rfl

/-! ## What is written -/

/-- A byte of a longer code point: bits of the code point behind a mark. -/
theorem or_mark (x : BitVec 8) {bits : ℕ} {mark mask : BitVec 8} (hmask : mask.toNat = 2 ^ bits - 1)
    (hmark : mark &&& mask = 0) :
    mark ||| (x &&& mask) = BitVec.ofNat 8 (x.toNat % 2 ^ bits + mark.toNat) := by
  have hpos := Nat.two_pow_pos bits
  have hlow := toNat_and_mask x hmask
  have hapart : mark &&& (x &&& mask) = 0#8 := by
    rw [BitVec.and_comm x, ← BitVec.and_assoc, hmark]
    exact BitVec.zero_and
  have hmod := Nat.mod_lt x.toNat hpos
  rw [← BitVec.add_eq_or_of_and_eq_zero _ _ hapart]
  apply BitVec.eq_of_toNat_eq
  rw [BitVec.toNat_add, hlow, BitVec.toNat_ofNat, Nat.add_comm]

/-- A byte that is not the first. -/
theorem markedByte (x : BitVec 32) :
    (⟨((x ||| 0x80) &&& 0xbf).setWidth 8⟩ : UInt8) = UInt8.ofNat (x.toNat % 64 + 0x80) := by
  have hmark : ((x ||| 0x80) &&& 0xbf).setWidth 8 = 0x80 ||| (x.setWidth 8 &&& 0x3f) := by
    rw [BitVec.setWidth_and, BitVec.setWidth_or]
    show (x.setWidth 8 ||| 0x80#8) &&& 0xbf#8 = 0x80#8 ||| (x.setWidth 8 &&& 0x3f#8)
    have hsame : ∀ y : BitVec 8, (y ||| 0x80#8) &&& 0xbf#8 = 0x80#8 ||| (y &&& 0x3f#8) := by
      intro y
      ext i hi
      interval_cases i
      all_goals simp
    exact hsame _
  apply UInt8.eq_of_toBitVec_eq
  rw [hmark, or_mark (x.setWidth 8) (by decide : (0x3f : BitVec 8).toNat = 2 ^ 6 - 1) (by decide),
    BitVec.toNat_setWidth]
  have hmod : x.toNat % 2 ^ 8 % 2 ^ 6 = x.toNat % 64 := by omega
  rw [hmod]
  rfl

/-- **A character beyond the first plane is written.** -/
theorem utf32ToUtf8_char {c : Char} (h : 0x10000 ≤ c.toNat) :
    utf32ToUtf8 (BitVec.ofNat 32 c.toNat) = String.utf8EncodeChar c := by
  rcases utf8EncodeChar_cases c with ⟨b, heq, hlt, -⟩ | ⟨b, b2, heq, -, hlt, -⟩
    | ⟨b, b2, b3, heq, -, hlt, -⟩ | ⟨b, b2, b3, b4, heq, -, hle, h1, h2, h3, h4⟩
  · omega
  · omega
  · omega
  · have hcode : (BitVec.ofNat 32 c.toNat).toNat = c.toNat := by
      rw [BitVec.toNat_ofNat]
      omega
    have hlength : utf32CodepointUtf8Length (BitVec.ofNat 32 c.toNat) = 4 := by
      rw [utf32CodepointUtf8Length, hcode, if_neg (by omega), if_neg (by omega), if_neg (by omega),
        if_pos hle]
    have hbyte : ∀ {x : UInt8} {n : ℕ}, x.toNat = n → UInt8.ofNat n = x := fun hx => by
      rw [← hx, UInt8.ofNat_toNat]
    rw [heq, utf32ToUtf8, hlength, kFirstByteMark, utf32CodepointToUtf8, utf32CodepointToUtf8,
      utf32CodepointToUtf8, utf32CodepointToUtf8, markedByte, markedByte, markedByte]
    simp only [BitVec.toNat_ushiftRight, hcode, Nat.shiftRight_eq_div_pow, Nat.div_div_eq_div_mul,
      List.cons.injEq, and_true]
    refine ⟨?_, hbyte h2, hbyte h3, hbyte h4⟩
    have hshift : (BitVec.ofNat 32 c.toNat >>> 6 >>> 6 >>> 6).toNat = c.toNat / 262144 := by
      simp only [BitVec.toNat_ushiftRight, hcode, Nat.shiftRight_eq_div_pow, Nat.div_div_eq_div_mul]
    have hwidth : ((BitVec.ofNat 32 c.toNat >>> 6 >>> 6 >>> 6).setWidth 8).toNat
        = c.toNat / 262144 := by
      rw [BitVec.toNat_setWidth, hshift]
      omega
    have hlow : (BitVec.ofNat 32 c.toNat >>> 6 >>> 6 >>> 6).setWidth 8 &&& (0x7 : BitVec 8)
        = (BitVec.ofNat 32 c.toNat >>> 6 >>> 6 >>> 6).setWidth 8 := by
      apply BitVec.eq_of_toNat_eq
      rw [toNat_and_mask _ (by decide : (0x7 : BitVec 8).toNat = 2 ^ 3 - 1), hwidth]
      omega
    have hmark := or_mark ((BitVec.ofNat 32 c.toNat >>> 6 >>> 6 >>> 6).setWidth 8)
      (by decide : (0x7 : BitVec 8).toNat = 2 ^ 3 - 1) (by decide : (0xf0 : BitVec 8) &&& 0x7 = 0)
    rw [hlow, hwidth] at hmark
    apply UInt8.eq_of_toBitVec_eq
    rw [BitVec.setWidth_or, BitVec.or_comm]
    refine hmark.trans (BitVec.eq_of_toNat_eq ?_)
    rw [BitVec.toNat_ofNat]
    show (c.toNat / 262144 % 2 ^ 3 + 240) % 2 ^ 8 = b.toNat
    omega

end AndroidSdk.Androidfw
