import AndroidSdk.Androidfw.ModifiedUtf8

/-! # UTF-8 and UTF-16

The conversions of `libutils` between the two forms (`binder/Unicode.cpp`), and what `util` makes of
them (`libs/androidfw/Util.cpp`). A text in memory is its bytes and the memory behind it.

* **`utf8ToUtf16Length`**, **`utf8ToUtf16NoNullTerminator`** — they accept what is not UTF-8.
* **`utf16ToUtf8Length`**, **`utf16ToUtf8Units`** — surrogates that are no pair are left out.
* **`utf8ToUtf16_encoded`**, **`utf16ToUtf8_units`** — the two forms of a text.
* **`utf8ToUtf16Length_modified`** — modified UTF-8 counts as many units. -/

namespace AndroidSdk.Androidfw

open Lib

/-! ## From UTF-8 -/

/-- `utf8_4b_to_utf32`. -/
def utf84bToUtf32 (c1 c2 c3 c4 : UInt8) : BitVec 32 :=
  (c1.toBitVec.setWidth 32 &&& 0x07) <<< 18 ||| (c2.toBitVec.setWidth 32 &&& 0x3f) <<< 12
    ||| (c3.toBitVec.setWidth 32 &&& 0x3f) <<< 6 ||| (c4.toBitVec.setWidth 32 &&& 0x3f)

/-- The loop of `utf8_to_utf16_length`; `skip` bytes belong to the last code point. -/
def utf16LengthLoop (beyond : List UInt8) : ℕ → ℕ → List UInt8 → Option (Option ℕ)
  | 0, utf16Len, [] => some (some utf16Len)
  | _ + 1, _, [] => some none
  | skip + 1, utf16Len, _ :: rest => utf16LengthLoop beyond skip utf16Len rest
  | 0, utf16Len, c :: rest =>
      if c &&& 0x80 = 0 then utf16LengthLoop beyond 0 (utf16Len + 1) rest
      else if c < 0xc0 then utf16LengthLoop beyond 0 (utf16Len + 1) rest
      else if c < 0xe0 then utf16LengthLoop beyond 1 (utf16Len + 1) rest
      else if c < 0xf0 then utf16LengthLoop beyond 2 (utf16Len + 1) rest
      else
        match rest ++ beyond with
        | c2 :: c3 :: c4 :: _ =>
            let w := utf84bToUtf32 c c2 c3 c4
            utf16LengthLoop beyond 3 (if 0x10000 ≤ w.toNat then utf16Len + 2 else utf16Len + 1) rest
        | _ => none

/-- `utf8_to_utf16_length`: -1 if a code point is not complete, and nothing at all if it reads
outside of the memory. -/
def utf8ToUtf16Length (utf8 beyond : List UInt8) : Option (Option ℕ) :=
  utf16LengthLoop beyond 0 0 utf8

/-- A unit of UTF-16 with the value of a code point. -/
def utf16Unit (w : BitVec 32) : UInt16 := ⟨w.setWidth 16⟩

/-- `utf8_to_utf16_no_null_terminator`, with room for `dstLen` units. -/
def utf8ToUtf16NoNullTerminator : ℕ → List UInt8 → List UInt16
  | 0, _ => []
  | _ + 1, [] => []
  | room + 1, c :: rest =>
      if c &&& 0x80 = 0 then utf16Unit (c.toBitVec.setWidth 32) :: utf8ToUtf16NoNullTerminator room rest
      else if c < 0xc0 then
        utf16Unit (c.toBitVec.setWidth 32) :: utf8ToUtf16NoNullTerminator room rest
      else if c < 0xe0 then
        match rest with
        | [] => []
        | c2 :: rest =>
            utf16Unit ((c.toBitVec.setWidth 32 &&& 0x1f) <<< 6 ||| (c2.toBitVec.setWidth 32 &&& 0x3f))
              :: utf8ToUtf16NoNullTerminator room rest
      else if c < 0xf0 then
        match rest with
        | c2 :: c3 :: rest =>
            utf16Unit ((c.toBitVec.setWidth 32 &&& 0x0f) <<< 12
                ||| (c2.toBitVec.setWidth 32 &&& 0x3f) <<< 6 ||| (c3.toBitVec.setWidth 32 &&& 0x3f))
              :: utf8ToUtf16NoNullTerminator room rest
        | _ => []
      else
        match rest with
        | c2 :: c3 :: c4 :: rest =>
            let w := utf84bToUtf32 c c2 c3 c4
            if w.toNat < 0x10000 then utf16Unit w :: utf8ToUtf16NoNullTerminator room rest
            else
              match room with
              | 0 => []
              | room + 1 =>
                  utf16Unit ((w - 0x10000) >>> 10 + 0xd800)
                    :: utf16Unit (((w - 0x10000) &&& 0x3ff) + 0xdc00)
                    :: utf8ToUtf16NoNullTerminator room rest
        | _ => []

/-- `utf8_to_utf16` into a buffer of zeros with room for `n` units and the terminator. -/
def utf16Buffer (utf8 : List UInt8) (n : ℕ) : List UInt16 :=
  let units := utf8ToUtf16NoNullTerminator n utf8
  units ++ List.replicate (n + 1 - units.length) 0

/-- `Utf8ToUtf16`. -/
def utf8ToUtf16 (utf8 beyond : List UInt8) : Option (List UInt16) := do
  match ← utf8ToUtf16Length utf8 beyond with
  | none => return []
  | some n => return (utf16Buffer utf8 n).take n

/-! ## From UTF-16 -/

/-- `is_any_surrogate`. -/
def isAnySurrogate (w : UInt16) : Bool := w &&& 0xf800 = 0xd800

/-- `is_surrogate_pair`. -/
def isSurrogatePair (w1 w2 : UInt16) : Bool := w1 &&& 0xfc00 = 0xd800 ∧ w2 &&& 0xfc00 = 0xdc00

/-- The loop of `utf16_to_utf8_length`. -/
def utf8LengthLoop : ℕ → List UInt16 → ℕ
  | utf8Len, [] => utf8Len
  | utf8Len, w :: rest =>
      if w < 0x0080 then utf8LengthLoop (utf8Len + 1) rest
      else if w < 0x0800 then utf8LengthLoop (utf8Len + 2) rest
      else if !isAnySurrogate w then utf8LengthLoop (utf8Len + 3) rest
      else
        match rest with
        | [] => utf8Len
        | w2 :: rest =>
            if isSurrogatePair w w2 then utf8LengthLoop (utf8Len + 4) rest
            else utf8LengthLoop utf8Len (w2 :: rest)

/-- `utf16_to_utf8_length`: -1 for the empty text. -/
def utf16ToUtf8Length (utf16 : List UInt16) : Option ℕ :=
  if utf16 = [] then none else some (utf8LengthLoop 0 utf16)

/-- A byte behind the mark of its position. -/
def markByte (mark : BitVec 32) (bits : BitVec 32) : UInt8 := ⟨(mark ||| bits).setWidth 8⟩

/-- The code point of a surrogate pair. -/
def pairToUtf32 (w w2 : UInt16) : BitVec 32 :=
  0x10000 + (w.toBitVec.setWidth 32 - 0xd800) <<< 10 + (w2.toBitVec.setWidth 32 - 0xdc00)

/-- The loop of `utf16_to_utf8`, with room for `room` bytes. -/
def utf16ToUtf8Units : ℕ → List UInt16 → List UInt8
  | _, [] => []
  | room, w :: rest =>
      let x := w.toBitVec.setWidth 32
      if w < 0x0080 then
        if room < 1 then [] else ⟨x.setWidth 8⟩ :: utf16ToUtf8Units (room - 1) rest
      else if w < 0x0800 then
        if room < 2 then []
        else markByte 0xc0 (x >>> 6 &&& 0x1f) :: markByte 0x80 (x &&& 0x3f)
          :: utf16ToUtf8Units (room - 2) rest
      else if !isAnySurrogate w then
        if room < 3 then []
        else markByte 0xe0 (x >>> 12 &&& 0xf) :: markByte 0x80 (x >>> 6 &&& 0x3f)
          :: markByte 0x80 (x &&& 0x3f) :: utf16ToUtf8Units (room - 3) rest
      else
        match rest with
        | [] => []
        | w2 :: rest =>
            if isSurrogatePair w w2 then
              if room < 4 then []
              else
                let dw := pairToUtf32 w w2
                markByte 0xf0 (dw >>> 18 &&& 0x07) :: markByte 0x80 (dw >>> 12 &&& 0x3f)
                  :: markByte 0x80 (dw >>> 6 &&& 0x3f) :: markByte 0x80 (dw &&& 0x3f)
                  :: utf16ToUtf8Units (room - 4) rest
            else utf16ToUtf8Units room (w2 :: rest)

/-- `Utf16ToUtf8`: a string of the calculated length. -/
def utf16ToUtf8 (utf16 : List UInt16) : List UInt8 :=
  match utf16ToUtf8Length utf16 with
  | none => []
  | some n =>
      let bytes := utf16ToUtf8Units (n + 1) utf16
      bytes ++ List.replicate (n - bytes.length) 0

/-! ## Bits -/

/-- Two numbers without a common bit. -/
theorem toNat_or_of_low {w : ℕ} {x y : BitVec w} (k : ℕ) (hx : x.toNat % 2 ^ k = 0)
    (hy : y.toNat < 2 ^ k) : (x ||| y).toNat = x.toNat + y.toNat := by
  have hshift : x.toNat = (x.toNat / 2 ^ k) <<< k := by
    rw [Nat.shiftLeft_eq, Nat.div_mul_cancel (Nat.dvd_of_mod_eq_zero hx)]
  rw [BitVec.toNat_or, hshift, Nat.shiftLeft_add_eq_or_of_lt hy]

/-- The high bits of a number, as a mask. -/
theorem and_high_mask {x : ℕ} (k m : ℕ) (hx : x < 2 ^ (k + m)) :
    x &&& (2 ^ m - 1) * 2 ^ k = x / 2 ^ k * 2 ^ k := by
  apply Nat.eq_of_testBit_eq
  intro i
  rw [Nat.testBit_and, Nat.testBit_mul_two_pow, Nat.testBit_mul_two_pow, Nat.testBit_two_pow_sub_one,
    Nat.testBit_div_two_pow]
  by_cases hi : k ≤ i
  · rw [decide_eq_true hi, Bool.true_and, Bool.true_and, Nat.sub_add_cancel hi]
    by_cases hm : i - k < m
    · rw [decide_eq_true hm, Bool.and_true]
    · rw [decide_eq_false hm, Bool.and_false, Nat.testBit_lt_two_pow]
      exact Nat.lt_of_lt_of_le hx (Nat.pow_le_pow_right (by decide) (by omega))
  · rw [decide_eq_false hi, Bool.false_and, Bool.false_and, Bool.and_false]

/-- The highest bit of a byte. -/
theorem and_highBit_eq_zero_iff (c : UInt8) : c &&& 0x80 = 0 ↔ c.toNat < 0x80 := by
  have hlt := c.toNat_lt
  have hmask := and_high_mask (x := c.toNat) 7 1 hlt
  rw [← UInt8.toNat_inj, UInt8.toNat_and]
  show c.toNat &&& (2 ^ 1 - 1) * 2 ^ 7 = 0 ↔ c.toNat < 0x80
  rw [hmask]
  omega

/-- The surrogates. -/
theorem isAnySurrogate_iff (w : UInt16) :
    isAnySurrogate w = true ↔ 0xd800 ≤ w.toNat ∧ w.toNat ≤ 0xdfff := by
  have hlt := w.toNat_lt
  have hmask := and_high_mask (x := w.toNat) 11 5 hlt
  rw [isAnySurrogate, decide_eq_true_iff, ← UInt16.toNat_inj, UInt16.toNat_and]
  show w.toNat &&& (2 ^ 5 - 1) * 2 ^ 11 = 0xd800 ↔ _
  rw [hmask]
  omega

/-- A high surrogate and a low one. -/
theorem isSurrogatePair_iff (w w2 : UInt16) : isSurrogatePair w w2 = true
    ↔ (0xd800 ≤ w.toNat ∧ w.toNat ≤ 0xdbff) ∧ 0xdc00 ≤ w2.toNat ∧ w2.toNat ≤ 0xdfff := by
  have hlt := w.toNat_lt
  have hlt' := w2.toNat_lt
  have hmask := and_high_mask (x := w.toNat) 10 6 hlt
  have hmask' := and_high_mask (x := w2.toNat) 10 6 hlt'
  rw [isSurrogatePair, decide_eq_true_iff, ← UInt16.toNat_inj, ← UInt16.toNat_inj, UInt16.toNat_and,
    UInt16.toNat_and]
  show w.toNat &&& (2 ^ 6 - 1) * 2 ^ 10 = 0xd800 ∧ w2.toNat &&& (2 ^ 6 - 1) * 2 ^ 10 = 0xdc00 ↔ _
  rw [hmask, hmask']
  omega

/-- The low bits of a byte. -/
theorem toNat_setWidth_and (c : UInt8) {mask : BitVec 32} {n : ℕ} (hmask : mask.toNat = 2 ^ n - 1) :
    (c.toBitVec.setWidth 32 &&& mask).toNat = c.toNat % 2 ^ n := by
  have hlt := c.toNat_lt
  rw [toNat_and_mask _ hmask, BitVec.toNat_setWidth, UInt8.toNat_toBitVec,
    Nat.mod_eq_of_lt (b := 2 ^ 32) (by omega)]

/-- Low bits of a byte, at a higher position. -/
theorem toNat_and_shift (c : UInt8) {mask : BitVec 32} {n : ℕ} (hmask : mask.toNat = 2 ^ n - 1)
    {k : ℕ} (hle : n + k ≤ 32) :
    ((c.toBitVec.setWidth 32 &&& mask) <<< k).toNat = c.toNat % 2 ^ n * 2 ^ k := by
  have hlt : c.toNat % 2 ^ n * 2 ^ k < 2 ^ 32 := calc
    c.toNat % 2 ^ n * 2 ^ k < 2 ^ n * 2 ^ k :=
      Nat.mul_lt_mul_of_pos_right (Nat.mod_lt _ (Nat.two_pow_pos n)) (Nat.two_pow_pos k)
    _ = 2 ^ (n + k) := (Nat.pow_add 2 n k).symm
    _ ≤ 2 ^ 32 := Nat.pow_le_pow_right (by decide) hle
  rw [BitVec.toNat_shiftLeft, toNat_setWidth_and c hmask, Nat.shiftLeft_eq, Nat.mod_eq_of_lt hlt]

/-- The code point in two bytes. -/
theorem toNat_twoBytes (c c2 : UInt8) :
    ((c.toBitVec.setWidth 32 &&& 0x1f) <<< 6 ||| (c2.toBitVec.setWidth 32 &&& 0x3f)).toNat
      = c.toNat % 32 * 64 + c2.toNat % 64 := by
  have h1 := toNat_and_shift c (by decide : (0x1f : BitVec 32).toNat = 2 ^ 5 - 1) (k := 6) (by decide)
  have h2 := toNat_setWidth_and c2 (by decide : (0x3f : BitVec 32).toNat = 2 ^ 6 - 1)
  rw [toNat_or_of_low 6 (by omega) (by omega), h1, h2]
  rfl

/-- The code point in three bytes. -/
theorem toNat_threeBytes (c c2 c3 : UInt8) :
    ((c.toBitVec.setWidth 32 &&& 0x0f) <<< 12 ||| (c2.toBitVec.setWidth 32 &&& 0x3f) <<< 6
        ||| (c3.toBitVec.setWidth 32 &&& 0x3f)).toNat
      = c.toNat % 16 * 4096 + c2.toNat % 64 * 64 + c3.toNat % 64 := by
  have hmask : (0x3f : BitVec 32).toNat = 2 ^ 6 - 1 := by decide
  have h1 := toNat_and_shift c (by decide : (0x0f : BitVec 32).toNat = 2 ^ 4 - 1) (k := 12) (by decide)
  have h2 := toNat_and_shift c2 hmask (k := 6) (by decide)
  have h3 := toNat_setWidth_and c3 hmask
  have hfirst := toNat_or_of_low (x := (c.toBitVec.setWidth 32 &&& 0x0f) <<< 12)
    (y := (c2.toBitVec.setWidth 32 &&& 0x3f) <<< 6) 12 (by omega) (by omega)
  rw [toNat_or_of_low 6 (by omega) (by omega), hfirst, h1, h2, h3]
  rfl

/-- The code point in four bytes. -/
theorem toNat_utf84bToUtf32 (c1 c2 c3 c4 : UInt8) :
    (utf84bToUtf32 c1 c2 c3 c4).toNat
      = c1.toNat % 8 * 262144 + c2.toNat % 64 * 4096 + c3.toNat % 64 * 64 + c4.toNat % 64 := by
  have hmask : (0x3f : BitVec 32).toNat = 2 ^ 6 - 1 := by decide
  have h1 := toNat_and_shift c1 (by decide : (0x07 : BitVec 32).toNat = 2 ^ 3 - 1) (k := 18) (by decide)
  have h2 := toNat_and_shift c2 hmask (k := 12) (by decide)
  have h3 := toNat_and_shift c3 hmask (k := 6) (by decide)
  have h4 := toNat_setWidth_and c4 hmask
  have hfirst := toNat_or_of_low (x := (c1.toBitVec.setWidth 32 &&& 0x07) <<< 18)
    (y := (c2.toBitVec.setWidth 32 &&& 0x3f) <<< 12) 18 (by omega) (by omega)
  have hsecond := toNat_or_of_low (x := (c1.toBitVec.setWidth 32 &&& 0x07) <<< 18
      ||| (c2.toBitVec.setWidth 32 &&& 0x3f) <<< 12)
    (y := (c3.toBitVec.setWidth 32 &&& 0x3f) <<< 6) 12 (by omega) (by omega)
  rw [utf84bToUtf32, toNat_or_of_low 6 (by omega) (by omega), hsecond, hfirst, h1, h2, h3, h4]
  rfl

/-! ## Characters in UTF-16 -/

/-- The units of a character. -/
def utf16Char (c : Char) : List UInt16 :=
  if c.toNat < 0x10000 then [.ofNat c.toNat]
  else [.ofNat (highSurrogate c), .ofNat (lowSurrogate c)]

/-- The units of a text. -/
def utf16Units (chars : List Char) : List UInt16 := chars.flatMap utf16Char

@[simp] theorem utf16Units_nil : utf16Units [] = [] := rfl

@[simp] theorem utf16Units_cons (c : Char) (chars : List Char) :
    utf16Units (c :: chars) = utf16Char c ++ utf16Units chars := List.flatMap_cons

/-- A character of the first plane is one unit. -/
theorem utf16Char_of_lt {c : Char} (h : c.toNat < 0x10000) : utf16Char c = [.ofNat c.toNat] :=
  if_pos h

/-- Another one is two. -/
theorem utf16Char_of_ge {c : Char} (h : 0x10000 ≤ c.toNat) :
    utf16Char c = [.ofNat (highSurrogate c), .ofNat (lowSurrogate c)] :=
  if_neg (Nat.not_lt.mpr h)

/-- The value of a unit. -/
theorem utf16Unit_eq {w : BitVec 32} {n : ℕ} (h : w.toNat = n) : utf16Unit w = .ofNat n := by
  apply UInt16.toNat_inj.mp
  show (w.setWidth 16).toNat = _
  rw [BitVec.toNat_setWidth, h]
  rfl

/-! ## How many units -/

/-- The comparisons of bytes are those of their values. -/
theorem not_lt_of_toNat_le {c d : UInt8} (h : d.toNat ≤ c.toNat) : ¬ c < d := fun hlt =>
  absurd (UInt8.lt_iff_toNat_lt.mp hlt) (Nat.not_lt.mpr h)

section Length

variable (beyond : List UInt8) {c : UInt8} (n : ℕ) (rest : List UInt8)

/-- A byte that is a unit of its own. -/
theorem utf16LengthLoop_one (h : c.toNat < 0xc0) :
    utf16LengthLoop beyond 0 n (c :: rest) = utf16LengthLoop beyond 0 (n + 1) rest := by
  rw [utf16LengthLoop]
  split_ifs with hascii hlead
  · rfl
  · rfl
  all_goals exact absurd (UInt8.lt_iff_toNat_lt.mpr h) hlead

/-- Two bytes for a unit. -/
theorem utf16LengthLoop_two (h : 0xc0 ≤ c.toNat) (h' : c.toNat < 0xe0) (c2 : UInt8) :
    utf16LengthLoop beyond 0 n (c :: c2 :: rest) = utf16LengthLoop beyond 0 (n + 1) rest := by
  have hlead : ¬ c < 0xc0 := not_lt_of_toNat_le h
  rw [utf16LengthLoop, if_neg ((and_highBit_eq_zero_iff c).not.mpr (by omega)), if_neg hlead,
    if_pos (UInt8.lt_iff_toNat_lt.mpr h'), utf16LengthLoop]

/-- Three bytes for a unit. -/
theorem utf16LengthLoop_three (h : 0xe0 ≤ c.toNat) (h' : c.toNat < 0xf0) (c2 c3 : UInt8) :
    utf16LengthLoop beyond 0 n (c :: c2 :: c3 :: rest) = utf16LengthLoop beyond 0 (n + 1) rest := by
  have hlead : ¬ c < 0xc0 := not_lt_of_toNat_le (Nat.le_trans (by decide) h)
  have hlead' : ¬ c < 0xe0 := not_lt_of_toNat_le h
  rw [utf16LengthLoop, if_neg ((and_highBit_eq_zero_iff c).not.mpr (by omega)), if_neg hlead,
    if_neg hlead', if_pos (UInt8.lt_iff_toNat_lt.mpr h'), utf16LengthLoop, utf16LengthLoop]

/-- Four bytes, for one unit or two. -/
theorem utf16LengthLoop_four (h : 0xf0 ≤ c.toNat) (c2 c3 c4 : UInt8) :
    utf16LengthLoop beyond 0 n (c :: c2 :: c3 :: c4 :: rest) = utf16LengthLoop beyond 0
      (if 0x10000 ≤ (utf84bToUtf32 c c2 c3 c4).toNat then n + 2 else n + 1) rest := by
  have hlead : ∀ {m : UInt8}, m.toNat ≤ 0xf0 → ¬ c < m := fun hm =>
    not_lt_of_toNat_le (Nat.le_trans hm h)
  rw [utf16LengthLoop, if_neg ((and_highBit_eq_zero_iff c).not.mpr (by omega)),
    if_neg (hlead (by decide)), if_neg (hlead (by decide)), if_neg (hlead (by decide))]
  simp only [List.cons_append]
  rw [utf16LengthLoop, utf16LengthLoop, utf16LengthLoop]

end Length

/-- The units of a character are counted. -/
theorem utf16LengthLoop_char (beyond : List UInt8) (c : Char) (n : ℕ) (rest : List UInt8) :
    utf16LengthLoop beyond 0 n (String.utf8EncodeChar c ++ rest)
      = utf16LengthLoop beyond 0 (n + (utf16Char c).length) rest := by
  rcases utf8EncodeChar_cases c with ⟨b, heq, hlt, h1⟩ | ⟨b, b2, heq, hge, hlt, h1, h2⟩
    | ⟨b, b2, b3, heq, hge, hlt, h1, h2, h3⟩ | ⟨b, b2, b3, b4, heq, hge, hle, h1, h2, h3, h4⟩
  · rw [heq, List.singleton_append, utf16LengthLoop_one _ _ _ (by omega),
      utf16Char_of_lt (by omega), List.length_singleton]
  · rw [heq, List.cons_append, List.singleton_append,
      utf16LengthLoop_two _ _ _ (by omega) (by omega), utf16Char_of_lt (by omega),
      List.length_singleton]
  · rw [heq, List.cons_append, List.cons_append, List.singleton_append,
      utf16LengthLoop_three _ _ _ (by omega) (by omega), utf16Char_of_lt (by omega),
      List.length_singleton]
  · have hcode : (utf84bToUtf32 b b2 b3 b4).toNat = c.toNat := by
      rw [toNat_utf84bToUtf32]
      omega
    rw [heq, List.cons_append, List.cons_append, List.cons_append, List.singleton_append,
      utf16LengthLoop_four _ _ _ (by omega), hcode, if_pos hge, utf16Char_of_ge hge]
    rfl

/-- The same in modified UTF-8. -/
theorem utf16LengthLoop_modifiedChar (beyond : List UInt8) (c : Char) (n : ℕ) (rest : List UInt8) :
    utf16LengthLoop beyond 0 n (modifiedChar c ++ rest)
      = utf16LengthLoop beyond 0 (n + (utf16Char c).length) rest := by
  by_cases hlt : c.toNat < 0x10000
  · rw [modifiedChar, if_pos hlt, utf16LengthLoop_char]
  · have hmax := toNat_le_max c
    have hhigh : 0xd800 ≤ highSurrogate c ∧ highSurrogate c ≤ 0xdfff := by
      rw [highSurrogate]
      omega
    have hlow : 0xd800 ≤ lowSurrogate c ∧ lowSurrogate c ≤ 0xdfff := by
      rw [lowSurrogate]
      omega
    rw [modifiedChar, if_neg hlt, surrogateBytes_eq hhigh.1 hhigh.2, surrogateBytes_eq hlow.1 hlow.2]
    simp only [List.cons_append, List.nil_append]
    rw [utf16LengthLoop_three _ _ _ (by decide) (by decide),
      utf16LengthLoop_three _ _ _ (by decide) (by decide), utf16Char_of_ge (Nat.not_lt.mp hlt)]
    rfl

/-- Both forms of UTF-8, character by character. -/
theorem utf16LengthLoop_flatMap (beyond : List UInt8) {form : Char → List UInt8}
    (hform : ∀ c n rest, utf16LengthLoop beyond 0 n (form c ++ rest)
      = utf16LengthLoop beyond 0 (n + (utf16Char c).length) rest) (chars : List Char) (n : ℕ) :
    utf16LengthLoop beyond 0 n (chars.flatMap form) = some (some (n + (utf16Units chars).length)) := by
  induction chars generalizing n with
  | nil => rfl
  | cons c chars ih =>
      rw [List.flatMap_cons, hform, ih, utf16Units_cons, List.length_append, Nat.add_assoc]

/-- **The length of a text in UTF-16** is calculated from UTF-8. -/
theorem utf8ToUtf16Length_encoded (chars : List Char) (beyond : List UInt8) :
    utf8ToUtf16Length (encoded chars) beyond = some (some (utf16Units chars).length) := by
  rw [utf8ToUtf16Length, encoded, utf16LengthLoop_flatMap beyond (utf16LengthLoop_char beyond),
    Nat.zero_add]

/-- **The length of a text in UTF-16** is calculated from modified UTF-8. -/
theorem utf8ToUtf16Length_modified (chars : List Char) (beyond : List UInt8) :
    utf8ToUtf16Length (chars.flatMap modifiedChar) beyond
      = some (some (utf16Units chars).length) := by
  rw [utf8ToUtf16Length, utf16LengthLoop_flatMap beyond (utf16LengthLoop_modifiedChar beyond),
    Nat.zero_add]

/-! ## The units -/

/-- **The units of a character** are written. -/
theorem utf8ToUtf16NoNullTerminator_char (c : Char) (room : ℕ) (rest : List UInt8) :
    utf8ToUtf16NoNullTerminator ((utf16Char c).length + room) (String.utf8EncodeChar c ++ rest)
      = utf16Char c ++ utf8ToUtf16NoNullTerminator room rest := by
  rcases utf8EncodeChar_cases c with ⟨b, heq, hlt, h1⟩ | ⟨b, b2, heq, hge, hlt, h1, h2⟩
    | ⟨b, b2, b3, heq, hge, hlt, h1, h2, h3⟩ | ⟨b, b2, b3, b4, heq, hge, hle, h1, h2, h3, h4⟩
  -- one byte
  · have hunit : utf16Unit (b.toBitVec.setWidth 32) = .ofNat c.toNat := by
      apply utf16Unit_eq
      rw [BitVec.toNat_setWidth, UInt8.toNat_toBitVec]
      omega
    rw [heq, List.singleton_append, utf16Char_of_lt (by omega), List.length_singleton, Nat.add_comm,
      List.singleton_append, ← hunit, utf8ToUtf16NoNullTerminator.eq_def]
    exact if_pos ((and_highBit_eq_zero_iff b).mpr (by omega))
  -- two bytes: the first one is neither ASCII nor a continuation
  · have hlead : ¬ b < 0xc0 := not_lt_of_toNat_le (by show 192 ≤ b.toNat; omega)
    have hlead' : b < 0xe0 := UInt8.lt_iff_toNat_lt.mpr (by show b.toNat < 224; omega)
    have hunit := utf16Unit_eq ((toNat_twoBytes b b2).trans (by omega : _ = c.toNat))
    rw [heq, List.cons_append, List.singleton_append, utf16Char_of_lt (by omega),
      List.length_singleton, Nat.add_comm, utf8ToUtf16NoNullTerminator,
      if_neg ((and_highBit_eq_zero_iff b).not.mpr (by omega)), if_neg hlead, if_pos hlead']
    simp only [hunit]
    rfl
  -- three bytes
  · have hlead : ¬ b < 0xc0 := not_lt_of_toNat_le (by show 192 ≤ b.toNat; omega)
    have hlead' : ¬ b < 0xe0 := not_lt_of_toNat_le (by show 224 ≤ b.toNat; omega)
    have hlead'' : b < 0xf0 := UInt8.lt_iff_toNat_lt.mpr (by show b.toNat < 240; omega)
    have hunit := utf16Unit_eq ((toNat_threeBytes b b2 b3).trans (by omega : _ = c.toNat))
    rw [heq, List.cons_append, List.cons_append, List.singleton_append, utf16Char_of_lt (by omega),
      List.length_singleton, Nat.add_comm, utf8ToUtf16NoNullTerminator,
      if_neg ((and_highBit_eq_zero_iff b).not.mpr (by omega)), if_neg hlead, if_neg hlead',
      if_pos hlead'']
    simp only [hunit]
    rfl
  -- four bytes give a pair of surrogates
  · have hlead : ∀ {m : UInt8}, m.toNat ≤ 0xf0 → ¬ b < m := fun hm =>
      not_lt_of_toNat_le (by omega)
    have hcode : (utf84bToUtf32 b b2 b3 b4).toNat = c.toNat := by
      rw [toNat_utf84bToUtf32]
      omega
    have hsub : (utf84bToUtf32 b b2 b3 b4 - 0x10000).toNat = c.toNat - 0x10000 := by
      rw [BitVec.toNat_sub_of_le (BitVec.le_def.mpr (by rw [hcode]; exact hge)), hcode]
      rfl
    -- the upper ten bits of the offset, and then the lower ones
    have hhigh : utf16Unit ((utf84bToUtf32 b b2 b3 b4 - 0x10000) >>> 10 + 0xd800)
        = .ofNat (highSurrogate c) := by
      apply utf16Unit_eq
      rw [BitVec.toNat_add, BitVec.toNat_ushiftRight, hsub, Nat.shiftRight_eq_div_pow, highSurrogate]
      show ((c.toNat - 0x10000) / 1024 + 0xd800) % 4294967296 = _
      omega
    have hlow : utf16Unit (((utf84bToUtf32 b b2 b3 b4 - 0x10000) &&& 0x3ff) + 0xdc00)
        = .ofNat (lowSurrogate c) := by
      apply utf16Unit_eq
      rw [BitVec.toNat_add, toNat_and_mask _ (by decide : (0x3ff : BitVec 32).toNat = 2 ^ 10 - 1),
        hsub, lowSurrogate]
      show ((c.toNat - 0x10000) % 1024 + 0xdc00) % 4294967296 = _
      omega
    rw [heq, List.cons_append, List.cons_append, List.cons_append, List.singleton_append,
      utf16Char_of_ge hge]
    show utf8ToUtf16NoNullTerminator (2 + room) _ = _
    rw [Nat.add_comm, utf8ToUtf16NoNullTerminator,
      if_neg ((and_highBit_eq_zero_iff b).not.mpr (by omega)), if_neg (hlead (by decide)),
      if_neg (hlead (by decide)), if_neg (hlead (by decide))]
    simp only [hcode, hhigh, hlow, if_neg (Nat.not_lt.mpr hge)]
    rfl

/-- **The units of a text** are written. -/
theorem utf8ToUtf16NoNullTerminator_encoded (chars : List Char) :
    utf8ToUtf16NoNullTerminator (utf16Units chars).length (encoded chars) = utf16Units chars := by
  induction chars with
  | nil => rfl
  | cons c chars ih =>
      rw [utf16Units_cons, List.length_append, encoded_cons, utf8ToUtf16NoNullTerminator_char, ih]

/-- **A text in UTF-16.** -/
theorem utf8ToUtf16_encoded (chars : List Char) (beyond : List UInt8) :
    utf8ToUtf16 (encoded chars) beyond = some (utf16Units chars) := by
  rw [utf8ToUtf16, utf8ToUtf16Length_encoded, Option.bind_eq_bind, Option.bind_some]
  show some ((utf16Buffer (encoded chars) _).take _) = _
  rw [utf16Buffer, utf8ToUtf16NoNullTerminator_encoded, List.take_left]

/-! ## Back to UTF-8 -/

/-- A byte of a longer code point. -/
theorem markByte_eq {mark bits : BitVec 32} (k : ℕ) (hmark : mark.toNat % 2 ^ k = 0)
    (hbits : bits.toNat < 2 ^ k) : markByte mark bits = .ofNat (mark.toNat + bits.toNat) := by
  apply UInt8.toNat_inj.mp
  show ((mark ||| bits).setWidth 8).toNat = _
  rw [BitVec.toNat_setWidth, toNat_or_of_low k hmark hbits]
  rfl

/-- A byte of a longer code point, with the bits of a number. -/
theorem markByte_shift (mark x : BitVec 32) {mask : BitVec 32} {n : ℕ} (k : ℕ)
    (hmask : mask.toNat = 2 ^ n - 1) (hmark : mark.toNat % 2 ^ n = 0) :
    markByte mark (x >>> k &&& mask) = .ofNat (mark.toNat + x.toNat / 2 ^ k % 2 ^ n) := by
  have hbits : (x >>> k &&& mask).toNat = x.toNat / 2 ^ k % 2 ^ n := by
    rw [toNat_and_mask _ hmask, BitVec.toNat_ushiftRight, Nat.shiftRight_eq_div_pow]
  rw [markByte_eq n hmark (by rw [hbits]; exact Nat.mod_lt _ (Nat.two_pow_pos n)), hbits]

/-- A character is not a surrogate. -/
theorem not_surrogate (c : Char) : ¬ (0xd800 ≤ c.toNat ∧ c.toNat ≤ 0xdfff) := by
  have hvalid := c.valid
  change ¬ (0xd800 ≤ c.val.toNat ∧ c.val.toNat ≤ 0xdfff)
  rcases hvalid with h | h
  all_goals omega

/-- The value of a unit is its number. -/
theorem toNat_unit {n : ℕ} (h : n < 0x10000) : (UInt16.ofNat n).toNat = n := by
  rw [UInt16.toNat_ofNat', Nat.mod_eq_of_lt h]

/-- A byte is known by its value. -/
theorem ofNat_eq_byte {b : UInt8} {n : ℕ} (h : b.toNat = n) : UInt8.ofNat n = b := by
  rw [← h, UInt8.ofNat_toNat]

/-- A unit below a bound. -/
theorem unit_lt_iff {n : ℕ} (h : n < 0x10000) (w : UInt16) : UInt16.ofNat n < w ↔ n < w.toNat := by
  rw [UInt16.lt_iff_toNat_lt, toNat_unit h]

/-- The units of a supplementary character are a surrogate pair. -/
theorem isSurrogatePair_char {c : Char} (h : 0x10000 ≤ c.toNat) :
    isSurrogatePair (.ofNat (highSurrogate c)) (.ofNat (lowSurrogate c)) = true := by
  have hmax := toNat_le_max c
  have hhigh : 0xd800 ≤ highSurrogate c ∧ highSurrogate c ≤ 0xdbff := by
    rw [highSurrogate]
    omega
  have hlow : 0xdc00 ≤ lowSurrogate c ∧ lowSurrogate c ≤ 0xdfff := by
    rw [lowSurrogate]
    omega
  rw [isSurrogatePair_iff, toNat_unit (by omega), toNat_unit (by omega)]
  exact ⟨hhigh, hlow⟩

/-- The code point of the surrogate pair. -/
theorem toNat_pairToUtf32_char {c : Char} (h : 0x10000 ≤ c.toNat) :
    (pairToUtf32 (.ofNat (highSurrogate c)) (.ofNat (lowSurrogate c))).toNat = c.toNat := by
  have hmax := toNat_le_max c
  have hhigh : ((UInt16.ofNat (highSurrogate c)).toBitVec.setWidth 32 - 0xd800).toNat
      = (c.toNat - 0x10000) / 0x400 := by
    have hunit : ((UInt16.ofNat (highSurrogate c)).toBitVec.setWidth 32).toNat
        = (c.toNat - 0x10000) / 0x400 + 0xd800 := by
      rw [BitVec.toNat_setWidth, UInt16.toNat_toBitVec, toNat_unit (by rw [highSurrogate]; omega),
        highSurrogate]
      omega
    rw [BitVec.toNat_sub_of_le (BitVec.le_def.mpr (by rw [hunit]; exact Nat.le_add_left _ _)), hunit]
    exact Nat.add_sub_cancel _ _
  have hlow : ((UInt16.ofNat (lowSurrogate c)).toBitVec.setWidth 32 - 0xdc00).toNat
      = (c.toNat - 0x10000) % 0x400 := by
    have hunit : ((UInt16.ofNat (lowSurrogate c)).toBitVec.setWidth 32).toNat
        = (c.toNat - 0x10000) % 0x400 + 0xdc00 := by
      rw [BitVec.toNat_setWidth, UInt16.toNat_toBitVec, toNat_unit (by rw [lowSurrogate]; omega),
        lowSurrogate]
      omega
    rw [BitVec.toNat_sub_of_le (BitVec.le_def.mpr (by rw [hunit]; exact Nat.le_add_left _ _)), hunit]
    exact Nat.add_sub_cancel _ _
  rw [pairToUtf32, BitVec.toNat_add, BitVec.toNat_add, BitVec.toNat_shiftLeft, hhigh, hlow,
    Nat.shiftLeft_eq]
  show ((0x10000 + _) % _ + _) % _ = _
  omega

/-- A unit of more than two bytes. -/
theorem not_unit_lt {n : ℕ} (h : 0x800 ≤ n) (h' : n < 0x10000) :
    ¬ UInt16.ofNat n < 0x0080 ∧ ¬ UInt16.ofNat n < 0x0800 := by
  rw [unit_lt_iff h', unit_lt_iff h']
  exact ⟨Nat.not_lt.mpr (Nat.le_trans (by decide) h), Nat.not_lt.mpr h⟩

/-- The unit of a character is not a surrogate. -/
theorem isAnySurrogate_char {c : Char} (h : c.toNat < 0x10000) :
    (!isAnySurrogate (.ofNat c.toNat)) = true := by
  rw [Bool.not_eq_true', ← Bool.not_eq_true, isAnySurrogate_iff, toNat_unit h]
  exact not_surrogate c

/-- The first unit of a supplementary character is one. -/
theorem isAnySurrogate_highSurrogate {c : Char} (h : 0x10000 ≤ c.toNat) :
    ¬ (!isAnySurrogate (.ofNat (highSurrogate c))) = true := by
  have hmax := toNat_le_max c
  rw [Bool.not_eq_true', Bool.not_eq_false, isAnySurrogate_iff, toNat_unit (by rw [highSurrogate]; omega),
    highSurrogate]
  omega

/-- It has more than two bytes. -/
theorem highSurrogate_not_lt {c : Char} :
    ¬ UInt16.ofNat (highSurrogate c) < 0x0080 ∧ ¬ UInt16.ofNat (highSurrogate c) < 0x0800 := by
  have hmax := toNat_le_max c
  refine not_unit_lt ?_ ?_
  all_goals
    rw [highSurrogate]
    omega

/-- The bytes of a character are counted. -/
theorem utf8LengthLoop_char (c : Char) (n : ℕ) (rest : List UInt16) :
    utf8LengthLoop n (utf16Char c ++ rest)
      = utf8LengthLoop (n + (String.utf8EncodeChar c).length) rest := by
  rcases utf8EncodeChar_cases c with ⟨b, heq, hlt, -⟩ | ⟨b, b2, heq, hge, hlt, -⟩
    | ⟨b, b2, b3, heq, hge, hlt, -⟩ | ⟨b, b2, b3, b4, heq, hge, hle, -⟩
  · have hone : UInt16.ofNat c.toNat < 0x0080 := (unit_lt_iff (by omega) _).mpr hlt
    rw [heq, utf16Char_of_lt (by omega), List.singleton_append, utf8LengthLoop.eq_def]
    exact if_pos hone
  · have hone : ¬ UInt16.ofNat c.toNat < 0x0080 :=
      (unit_lt_iff (by omega) _).not.mpr (Nat.not_lt.mpr hge)
    have htwo : UInt16.ofNat c.toNat < 0x0800 := (unit_lt_iff (by omega) _).mpr hlt
    rw [heq, utf16Char_of_lt (by omega), List.singleton_append, utf8LengthLoop.eq_def]
    exact (if_neg hone).trans (if_pos htwo)
  · obtain ⟨hone, htwo⟩ := not_unit_lt hge hlt
    rw [heq, utf16Char_of_lt hlt, List.singleton_append, utf8LengthLoop.eq_def]
    exact (if_neg hone).trans ((if_neg htwo).trans (if_pos (isAnySurrogate_char hlt)))
  · obtain ⟨hone, htwo⟩ := highSurrogate_not_lt (c := c)
    rw [heq, utf16Char_of_ge hge, List.cons_append, List.singleton_append, utf8LengthLoop.eq_def]
    refine (if_neg hone).trans ((if_neg htwo).trans ?_)
    exact (if_neg (isAnySurrogate_highSurrogate hge)).trans (if_pos (isSurrogatePair_char hge))

/-- **The bytes of a character** are written. -/
theorem utf16ToUtf8Units_char (c : Char) (room : ℕ) (rest : List UInt16) :
    utf16ToUtf8Units ((String.utf8EncodeChar c).length + room) (utf16Char c ++ rest)
      = String.utf8EncodeChar c ++ utf16ToUtf8Units room rest := by
  have hmask : (0x3f : BitVec 32).toNat = 2 ^ 6 - 1 := by decide
  have hunit : c.toNat < 0x10000 →
      ((UInt16.ofNat c.toNat).toBitVec.setWidth 32).toNat = c.toNat := fun hlt => by
    rw [BitVec.toNat_setWidth, UInt16.toNat_toBitVec, toNat_unit hlt]
    omega
  -- there is room for the bytes of the character
  have hroom : ∀ l : List UInt8, ¬ l.length + room < l.length := fun l => by omega
  -- the last byte is written without a shift
  have hlast : ∀ x : BitVec 32, markByte 0x80 (x &&& 0x3f) = .ofNat (0x80 + x.toNat % 64) := by
    intro x
    have hbits := toNat_and_mask x hmask
    rw [markByte_eq 6 (by decide) (by omega), hbits]
    rfl
  rcases utf8EncodeChar_cases c with ⟨b, heq, hlt, h1⟩ | ⟨b, b2, heq, hge, hlt, h1, h2⟩
    | ⟨b, b2, b3, heq, hge, hlt, h1, h2, h3⟩ | ⟨b, b2, b3, b4, heq, hge, hle, h1, h2, h3, h4⟩
  · have hone : UInt16.ofNat c.toNat < 0x0080 := (unit_lt_iff (by omega) _).mpr hlt
    have hbyte : (⟨((UInt16.ofNat c.toNat).toBitVec.setWidth 32).setWidth 8⟩ : UInt8) = b := by
      apply UInt8.toNat_inj.mp
      show (((UInt16.ofNat c.toNat).toBitVec.setWidth 32).setWidth 8).toNat = _
      rw [BitVec.toNat_setWidth, hunit (by omega), h1]
      omega
    rw [heq, utf16Char_of_lt (by omega), List.singleton_append, List.length_singleton,
      List.singleton_append, utf16ToUtf8Units.eq_def]
    refine (if_pos hone).trans ((if_neg (by omega)).trans ?_)
    rw [hbyte, Nat.add_sub_cancel_left]
  · have hone : ¬ UInt16.ofNat c.toNat < 0x0080 :=
      (unit_lt_iff (by omega) _).not.mpr (Nat.not_lt.mpr hge)
    have htwo : UInt16.ofNat c.toNat < 0x0800 := (unit_lt_iff (by omega) _).mpr hlt
    have hbyte := markByte_shift 0xc0 ((UInt16.ofNat c.toNat).toBitVec.setWidth 32) 6
      (by decide : (0x1f : BitVec 32).toNat = 2 ^ 5 - 1) (by decide)
    rw [hunit (by omega), ofNat_eq_byte (b := b) (by show b.toNat = 0xc0 + _; omega)] at hbyte
    have hbyte2 := hlast ((UInt16.ofNat c.toNat).toBitVec.setWidth 32)
    rw [hunit (by omega), ofNat_eq_byte (b := b2) (by omega)] at hbyte2
    rw [heq, utf16Char_of_lt (by omega), List.singleton_append, List.cons_append,
      List.singleton_append, utf16ToUtf8Units.eq_def]
    refine (if_neg hone).trans ((if_pos htwo).trans ((if_neg (hroom [b, b2])).trans ?_))
    rw [hbyte, hbyte2]
    exact congrArg (fun n => b :: b2 :: utf16ToUtf8Units n rest) (Nat.add_sub_cancel_left 2 room)
  · obtain ⟨hone, htwo⟩ := not_unit_lt hge hlt
    have hbyte := markByte_shift 0xe0 ((UInt16.ofNat c.toNat).toBitVec.setWidth 32) 12
      (by decide : (0xf : BitVec 32).toNat = 2 ^ 4 - 1) (by decide)
    rw [hunit (by omega), ofNat_eq_byte (b := b) (by show b.toNat = 0xe0 + _; omega)] at hbyte
    have hbyte2 := markByte_shift 0x80 ((UInt16.ofNat c.toNat).toBitVec.setWidth 32) 6 hmask
      (by decide)
    rw [hunit (by omega), ofNat_eq_byte (b := b2) (by show b2.toNat = 0x80 + _; omega)] at hbyte2
    have hbyte3 := hlast ((UInt16.ofNat c.toNat).toBitVec.setWidth 32)
    rw [hunit (by omega), ofNat_eq_byte (b := b3) (by omega)] at hbyte3
    rw [heq, utf16Char_of_lt hlt, List.singleton_append, List.cons_append, List.cons_append,
      List.singleton_append, utf16ToUtf8Units.eq_def]
    refine (if_neg hone).trans ((if_neg htwo).trans ((if_pos (isAnySurrogate_char hlt)).trans
      ((if_neg (hroom [b, b2, b3])).trans ?_)))
    rw [hbyte, hbyte2, hbyte3]
    exact congrArg (fun n => b :: b2 :: b3 :: utf16ToUtf8Units n rest)
      (Nat.add_sub_cancel_left 3 room)
  · obtain ⟨hone, htwo⟩ := highSurrogate_not_lt (c := c)
    have hpair := toNat_pairToUtf32_char hge
    have hbyte := markByte_shift 0xf0 (pairToUtf32 (.ofNat (highSurrogate c)) (.ofNat (lowSurrogate c)))
      18 (by decide : (0x07 : BitVec 32).toNat = 2 ^ 3 - 1) (by decide)
    rw [hpair, ofNat_eq_byte (b := b) (by show b.toNat = 0xf0 + _; omega)] at hbyte
    have hbyte2 := markByte_shift 0x80
      (pairToUtf32 (.ofNat (highSurrogate c)) (.ofNat (lowSurrogate c))) 12 hmask (by decide)
    rw [hpair, ofNat_eq_byte (b := b2) (by show b2.toNat = 0x80 + _; omega)] at hbyte2
    have hbyte3 := markByte_shift 0x80
      (pairToUtf32 (.ofNat (highSurrogate c)) (.ofNat (lowSurrogate c))) 6 hmask (by decide)
    rw [hpair, ofNat_eq_byte (b := b3) (by show b3.toNat = 0x80 + _; omega)] at hbyte3
    have hbyte4 := hlast (pairToUtf32 (.ofNat (highSurrogate c)) (.ofNat (lowSurrogate c)))
    rw [hpair, ofNat_eq_byte (b := b4) (by omega)] at hbyte4
    rw [heq, utf16Char_of_ge hge, List.cons_append, List.singleton_append, List.cons_append,
      List.cons_append, List.cons_append, List.singleton_append, utf16ToUtf8Units.eq_def]
    refine (if_neg hone).trans ((if_neg htwo).trans ((if_neg (isAnySurrogate_highSurrogate hge)).trans
      ((if_pos (isSurrogatePair_char hge)).trans ((if_neg (hroom [b, b2, b3, b4])).trans ?_))))
    simp only [hbyte, hbyte2, hbyte3, hbyte4]
    exact congrArg (fun n => b :: b2 :: b3 :: b4 :: utf16ToUtf8Units n rest)
      (Nat.add_sub_cancel_left 4 room)

/-- The bytes of a text are counted. -/
theorem utf8LengthLoop_units (chars : List Char) (n : ℕ) :
    utf8LengthLoop n (utf16Units chars) = n + (encoded chars).length := by
  induction chars generalizing n with
  | nil => rfl
  | cons c chars ih =>
      rw [utf16Units_cons, utf8LengthLoop_char, ih, encoded_cons, List.length_append, Nat.add_assoc]

/-- The bytes of a text are written. -/
theorem utf16ToUtf8Units_units (chars : List Char) (room : ℕ) :
    utf16ToUtf8Units ((encoded chars).length + room) (utf16Units chars) = encoded chars := by
  induction chars with
  | nil => rw [utf16Units_nil, utf16ToUtf8Units, encoded_nil]
  | cons c chars ih =>
      rw [encoded_cons, List.length_append, utf16Units_cons, Nat.add_assoc, utf16ToUtf8Units_char, ih]

/-- **A text back in UTF-8.** -/
theorem utf16ToUtf8_units (chars : List Char) : utf16ToUtf8 (utf16Units chars) = encoded chars := by
  cases chars with
  | nil => rfl
  | cons c chars =>
      have hne : utf16Units (c :: chars) ≠ [] := by
        rw [utf16Units_cons, utf16Char]
        split_ifs
        · exact List.cons_ne_nil _ _
        · exact List.cons_ne_nil _ _
      rw [utf16ToUtf8, utf16ToUtf8Length, if_neg hne, utf8LengthLoop_units, Nat.zero_add]
      show _ ++ List.replicate _ _ = _
      rw [utf16ToUtf8Units_units, Nat.sub_self, List.replicate_zero, List.append_nil]

end AndroidSdk.Androidfw
