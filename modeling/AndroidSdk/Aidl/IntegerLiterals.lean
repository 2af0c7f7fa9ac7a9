import AndroidSdk.Aidl.ExactEvaluation
import Mathlib.Data.Int.ModEq
import Mathlib.Data.List.TakeWhile
import Mathlib.Data.Nat.Digits.Defs

/-! # Integer literals of interface definitions

`AidlConstantValue::ParseIntegral` (`aidl_const_expressions.cpp`) reads the text of an integer
literal, with the functions of `libbase` and of the C library that it calls.

* **`strtol`**, **`parseUint`**, **`parseInt64`** — numbers in texts.
* **`parseIntegral`** — the type and the value of a literal.
* **`SpellingsAgree`** — the decimal and the hexadecimal literal of a number are alike.
* **`spellingsAgree_iff`** — they are not for small `u64` and for some too large `u32` literals. -/

namespace AndroidSdk.Aidl

open Lib

/-! ## Numbers in texts -/

/-- `isspace`. -/
def isspace (c : Char) : Bool := c ∈ [' ', '\t', '\n', '\x0b', '\x0c', '\r']

/-- The value of a digit of base 10 or 16. -/
def digitOf (c : Char) : Option ℕ :=
  if 48 ≤ c.toNat ∧ c.toNat ≤ 57 then some (c.toNat - 48)
  else if 97 ≤ c.toNat ∧ c.toNat ≤ 102 then some (c.toNat - 97 + 10)
  else if 65 ≤ c.toNat ∧ c.toNat ≤ 70 then some (c.toNat - 65 + 10)
  else none

/-- Whether a character is a digit of a base. -/
def isDigitOf (base : ℕ) (c : Char) : Bool := (digitOf c).any (· < base)

/-- The number that digits stand for. -/
def digitsValue (base : ℕ) (digits : List Char) : ℕ :=
  Nat.ofDigits base (digits.reverse.map fun c => (digitOf c).getD 0)

/-- Whether a text starts with `0x` or `0X`. -/
def hasHexPrefix : List Char → Bool
  | '0' :: x :: _ => x = 'x' ∨ x = 'X'
  | _ => false

/-- `strtoll` and `strtoull` without their limits: whether there is a minus sign, the number, and
what follows on it; none if there are no digits. -/
def strtol (base : ℕ) (s : List Char) : Option (Bool × ℕ × List Char) :=
  let s := s.dropWhile isspace
  let neg : Bool := s.head? = some '-'
  let s := if s.head? = some '-' ∨ s.head? = some '+' then s.tail else s
  let s := if base = 16 ∧ hasHexPrefix s ∧ (s.drop 2).head?.any (isDigitOf 16) then s.drop 2 else s
  let digits := s.takeWhile (isDigitOf base)
  if digits = [] then none
  else some (neg, digitsValue base digits, s.dropWhile (isDigitOf base))

/-- `c_str`, as it is read up to the first null character. -/
def cStr (s : List Char) : List Char := s.takeWhile (· ≠ '\x00')

/-- `ParseUint` for a type with the given greatest value. -/
def parseUint (max : ℕ) (s : List Char) : Option ℕ :=
  let s := (cStr s).dropWhile isspace
  if s.head? = some '-' then none
  else
    match strtol (if hasHexPrefix s then 16 else 10) s with
    | none => none
    | some (_, result, rest) =>
        if 2 ^ 64 ≤ result then none
        else if rest ≠ [] then none
        else if max < result then none
        else some result

/-- `ParseInt<int64_t>`. -/
def parseInt64 (s : List Char) : Option ℤ :=
  let s := (cStr s).dropWhile isspace
  match strtol (if hasHexPrefix s then 16 else 10) s with
  | none => none
  | some (neg, number, rest) =>
      let result : ℤ := if neg then -number else number
      if ¬ FitsSigned 64 result then none
      else if rest ≠ [] then none
      else some result

/-! ## Literals -/

/-- `ConsumeSuffix`. -/
def consumeSuffix (s suffix : List Char) : Bool × List Char :=
  if suffix <:+ s then (true, s.take (s.length - suffix.length)) else (false, s)

/-- `AidlConstantValue::IsHex`. -/
def isHex (value : List Char) : Bool := ['0', 'x'] <+: value ∨ ['0', 'X'] <+: value

/-- The part of `ParseIntegral` for a hexadecimal literal. -/
def parseHexIntegral (isByte isUnsignedInt isLong : Bool) (valueSubstr : List Char) :
    Option (ConstType × ℤ) :=
  if isByte then
    match parseUint (2 ^ 8 - 1) valueSubstr with
    | some rawValue8 => some (.int8, MachineType.int8.cast rawValue8)
    | none => none
  else
    -- the value is read as an unsigned one if possible
    match if !isLong || isUnsignedInt then parseUint (2 ^ 32 - 1) valueSubstr else none with
    | some rawValue32 => some (.int32, MachineType.int32.cast rawValue32)
    | none =>
        match parseUint (2 ^ 64 - 1) valueSubstr with
        | some rawValue64 => some (.int64, MachineType.int64.cast rawValue64)
        | none => none

/-- The part of `ParseIntegral` for a decimal literal. -/
def parseDecIntegral (isByte isUnsignedInt isLong isUnsignedLong : Bool)
    (valueSubstr : List Char) : Option (ConstType × ℤ) :=
  if isUnsignedLong then
    match parseUint (2 ^ 64 - 1) valueSubstr with
    | some rawValue64 => some (.int64, MachineType.int64.cast rawValue64)
    | none => none
  else
    match parseInt64 valueSubstr with
    | none => none
    | some parsedValue =>
        if isByte then
          if parsedValue > 2 ^ 8 - 1 ∨ parsedValue < 0 then none
          else some (.int8, MachineType.int8.cast parsedValue)
        else if isUnsignedInt then
          if parsedValue > 2 ^ 32 - 1 ∨ parsedValue < 0 then none
          else some (.int32, MachineType.int32.cast parsedValue)
        else if isLong then some (.int64, parsedValue)
        -- the type is guessed
        else if parsedValue ≤ 2 ^ 7 - 1 ∧ parsedValue ≥ -2 ^ 7 then some (.int8, parsedValue)
        else if parsedValue ≤ 2 ^ 31 - 1 ∧ parsedValue ≥ -2 ^ 31 then some (.int32, parsedValue)
        else some (.int64, parsedValue)

/-- `AidlConstantValue::ParseIntegral`. -/
def parseIntegral (value : List Char) : Option (ConstType × ℤ) :=
  let (isByte, view) := consumeSuffix value ['u', '8']
  let (isUnsignedInt, view) := consumeSuffix view ['u', '3', '2']
  let (isLower, view) := consumeSuffix view ['l']
  let (isLong, view) := if isLower then (true, view) else consumeSuffix view ['L']
  let (isUnsignedLong, view) := consumeSuffix view ['u', '6', '4']
  if isByte.toNat + isLong.toNat + isUnsignedInt.toNat + isUnsignedLong.toNat > 1 then none
  else
    -- remove "_"
    let valuePieces := view.splitOn '_'
    if valuePieces.any List.isEmpty then none
    else
      let valueSubstr := valuePieces.flatten
      if isHex value then parseHexIntegral isByte isUnsignedInt isLong valueSubstr
      else parseDecIntegral isByte isUnsignedInt isLong isUnsignedLong valueSubstr

/-! ## Spellings of a number -/

/-- A suffix that names a type without sign. -/
inductive UnsignedSuffix where
  | u8 | u32 | u64
  deriving DecidableEq

namespace UnsignedSuffix

/-- The text of a suffix. -/
def text : UnsignedSuffix → List Char
  | .u8 => ['u', '8']
  | .u32 => ['u', '3', '2']
  | .u64 => ['u', '6', '4']

/-- The width that a suffix names. -/
def width : UnsignedSuffix → ℕ
  | .u8 => 8
  | .u32 => 32
  | .u64 => 64

end UnsignedSuffix

/-- Decimal digits of a number. -/
def DecSpelling (n : ℕ) (digits : List Char) : Prop :=
  digits ≠ [] ∧ (∀ c ∈ digits, isDigitOf 10 c = true) ∧ digitsValue 10 digits = n

/-- Hexadecimal digits of a number behind a prefix. -/
def HexSpelling (n : ℕ) (text : List Char) : Prop :=
  ∃ x digits, text = '0' :: x :: digits ∧ (x = 'x' ∨ x = 'X') ∧ digits ≠ []
    ∧ (∀ c ∈ digits, isDigitOf 16 c = true) ∧ digitsValue 16 digits = n

/-- Two literals are both rejected, or both accepted with the same type and with values that are
the same modulo a width; they are accepted under a condition. -/
def ResultsAgree (accepted : Prop) (width : ℕ) (r r' : Option (ConstType × ℤ)) : Prop :=
  (r = none ∧ r' = none
    ∨ ∃ type v v', r = some (type, v) ∧ r' = some (type, v') ∧ v ≡ v' [ZMOD 2 ^ width])
  ∧ (r.isSome ↔ accepted) ∧ (r'.isSome ↔ accepted)

/-- Two literals of a number with a suffix agree, and they are accepted just when the number is
below the bound of the suffix. -/
def SpellingsAgree (n : ℕ) (suffix : UnsignedSuffix) (dec hex : List Char) : Prop :=
  ResultsAgree (n < 2 ^ suffix.width) suffix.width (parseIntegral (dec ++ suffix.text))
    (parseIntegral (hex ++ suffix.text))

/-- A result has a value of its type. -/
def WellTyped (r : Option (ConstType × ℤ)) : Prop :=
  ∀ p ∈ r, ∃ T : MachineType, T.IsWord ∧ T.constType = p.1 ∧ T.Fits p.2

/-! ## Digits -/

/-- A digit is no character that is none. -/
theorem ne_of_isDigitOf {base : ℕ} {c x : Char} (h : isDigitOf base c = true)
    (hx : digitOf x = none) : c ≠ x := by
  rintro rfl
  rw [isDigitOf, hx] at h
  exact Bool.false_ne_true h

/-- Characters that are no digits. -/
theorem digitOf_eq_none {l : List Char} (hl : l.all (fun x => digitOf x = none) = true) :
    ∀ x ∈ l, digitOf x = none := fun x hx => of_decide_eq_true (List.all_eq_true.mp hl x hx)

/-- A digit is no white space. -/
theorem isspace_of_isDigitOf {base : ℕ} {c : Char} (h : isDigitOf base c = true) :
    isspace c = false := by
  refine decide_eq_false fun hmem => ?_
  exact ne_of_isDigitOf h (digitOf_eq_none (by decide) c hmem) rfl

section Digits

variable {base : ℕ} {digits : List Char} (hne : digits ≠ [])
  (hdigits : ∀ c ∈ digits, isDigitOf base c = true)
include hdigits

/-- There is no null character among digits. -/
theorem cStr_digits : cStr digits = digits :=
  List.takeWhile_eq_self_iff.mpr fun c hc =>
    decide_eq_true (ne_of_isDigitOf (hdigits c hc) (by decide))

/-- Digits do not start with `0x`. -/
theorem hasHexPrefix_digits : hasHexPrefix digits = false := by
  unfold hasHexPrefix
  split
  case h_1 x rest =>
    have hx := hdigits x (List.mem_cons_of_mem _ List.mem_cons_self)
    refine decide_eq_false ?_
    rintro (rfl | rfl)
    · exact ne_of_isDigitOf hx (by decide) rfl
    · exact ne_of_isDigitOf hx (by decide) rfl
  case h_2 => rfl

/-- Digits have no white space in front. -/
theorem dropWhile_isspace_digits : digits.dropWhile isspace = digits := by
  cases digits with
  | nil => rfl
  | cons c rest =>
      exact List.dropWhile_cons_of_neg
        (by rw [isspace_of_isDigitOf (hdigits c List.mem_cons_self)]; exact Bool.false_ne_true)

/-- Digits have no sign. -/
theorem head?_digits_ne {x : Char} (hx : digitOf x = none) : digits.head? ≠ some x := by
  intro h
  exact ne_of_isDigitOf (hdigits x (List.mem_of_mem_head? h)) hx rfl

include hne

/-- The number of some digits. -/
theorem strtol_digits : strtol base digits = some (false, digitsValue base digits, []) := by
  have hminus := head?_digits_ne hdigits (show digitOf '-' = none by decide)
  have hplus := head?_digits_ne hdigits (show digitOf '+' = none by decide)
  have hall : ∀ c ∈ digits, isDigitOf base c = true := hdigits
  rw [strtol, dropWhile_isspace_digits hdigits]
  simp only [hminus, hplus, hasHexPrefix_digits hdigits, or_self, if_false, decide_false,
    Bool.false_eq_true, false_and, and_false, List.takeWhile_eq_self_iff.mpr hall, hne,
    List.dropWhile_eq_nil_iff.mpr hall]

end Digits

section Spellings

variable {n : ℕ} {text : List Char}

/-- The two limits of `ParseUint`. -/
theorem limits_eq (result max : ℕ) :
    (if 2 ^ 64 ≤ result then none else if max < result then none else some result)
      = if result < 2 ^ 64 ∧ result ≤ max then some result else none := by
  by_cases hlong : 2 ^ 64 ≤ result
  · rw [if_pos hlong, if_neg (by omega)]
  · by_cases hmax : max < result
    · rw [if_neg hlong, if_pos hmax, if_neg (by omega)]
    · rw [if_neg hlong, if_neg hmax, if_pos (by omega)]

/-- `ParseUint` reads a decimal spelling. -/
theorem parseUint_dec (h : DecSpelling n text) (max : ℕ) :
    parseUint max text = if n < 2 ^ 64 ∧ n ≤ max then some n else none := by
  obtain ⟨hne, hdigits, rfl⟩ := h
  have hminus := head?_digits_ne hdigits (show digitOf '-' = none by decide)
  rw [← limits_eq, parseUint, cStr_digits hdigits, dropWhile_isspace_digits hdigits,
    hasHexPrefix_digits hdigits]
  simp only [hminus, if_false, Bool.false_eq_true, strtol_digits hne hdigits, ne_eq,
    not_true_eq_false]

/-- `ParseInt` reads a decimal spelling. -/
theorem parseInt64_dec (h : DecSpelling n text) :
    parseInt64 text = if n < 2 ^ 63 then some (n : ℤ) else none := by
  obtain ⟨hne, hdigits, rfl⟩ := h
  have hfits : FitsSigned 64 (digitsValue 10 text) ↔ digitsValue 10 text < 2 ^ 63 := by
    unfold FitsSigned
    omega
  rw [parseInt64, cStr_digits hdigits, dropWhile_isspace_digits hdigits,
    hasHexPrefix_digits hdigits]
  simp only [if_false, Bool.false_eq_true, strtol_digits hne hdigits, ne_eq, not_true_eq_false,
    ite_not, hfits]

/-- `strtoull` skips the prefix of a hexadecimal spelling. -/
theorem strtol_hex (h : HexSpelling n text) : strtol 16 text = some (false, n, []) := by
  obtain ⟨x, digits, rfl, hx, hne, hdigits, rfl⟩ := h
  have hhex : hasHexPrefix ('0' :: x :: digits) = true := decide_eq_true hx
  have hnext : digits.head?.any (isDigitOf 16) = true := by
    obtain ⟨c, rest, rfl⟩ := List.exists_cons_of_ne_nil hne
    exact hdigits c List.mem_cons_self
  have hspace : ('0' :: x :: digits).dropWhile isspace = '0' :: x :: digits := rfl
  have hminus : ('0' :: x :: digits).head? ≠ some '-' :=
    fun h => absurd (Option.some.inj h) (by decide)
  have hplus : ('0' :: x :: digits).head? ≠ some '+' :=
    fun h => absurd (Option.some.inj h) (by decide)
  have hdrop : ('0' :: x :: digits).drop 2 = digits := rfl
  rw [strtol, hspace]
  simp only [hminus, hplus, hhex, hdrop, hnext, or_self, if_false, if_true, and_self,
    decide_false, List.takeWhile_eq_self_iff.mpr hdigits, hne,
    List.dropWhile_eq_nil_iff.mpr hdigits]

/-- `ParseUint` reads a hexadecimal spelling. -/
theorem parseUint_hex (h : HexSpelling n text) (max : ℕ) :
    parseUint max text = if n < 2 ^ 64 ∧ n ≤ max then some n else none := by
  have hstrtol := strtol_hex h
  obtain ⟨x, digits, rfl, hx, hne, hdigits, rfl⟩ := h
  have hhex : hasHexPrefix ('0' :: x :: digits) = true := decide_eq_true hx
  have hx0 : x ≠ '\x00' := by
    rcases hx with rfl | rfl
    · decide
    · decide
  have hnull : cStr ('0' :: x :: digits) = '0' :: x :: digits := by
    rw [cStr, List.takeWhile_cons_of_pos (by decide),
      List.takeWhile_cons_of_pos (by simpa using hx0)]
    exact congrArg ('0' :: x :: ·) (cStr_digits hdigits)
  have hspace : ('0' :: x :: digits).dropWhile isspace = '0' :: x :: digits := rfl
  have hminus : ('0' :: x :: digits).head? ≠ some '-' :=
    fun h => absurd (Option.some.inj h) (by decide)
  rw [← limits_eq, parseUint, hnull, hspace, hhex]
  simp only [hminus, if_false, if_true, hstrtol, ne_eq, not_true_eq_false]

end Spellings

/-! ## Suffixes -/

/-- A suffix with another character is none of a text. -/
theorem consumeSuffix_of_notMem {text suffix : List Char} {x : Char} (hx : x ∈ suffix)
    (hnot : x ∉ text) : consumeSuffix text suffix = (false, text) :=
  if_neg fun hsuffix => hnot (hsuffix.mem hx)

/-- A suffix with another last character is none of a text. -/
theorem consumeSuffix_of_getLast? {text suffix : List Char} (hne : suffix ≠ [])
    (hlast : text.getLast? ≠ suffix.getLast?) : consumeSuffix text suffix = (false, text) := by
  refine if_neg fun hsuffix => hlast ?_
  obtain ⟨front, rfl⟩ := hsuffix
  exact List.getLast?_append_of_ne_nil front hne

/-- A suffix is consumed. -/
theorem consumeSuffix_append (text suffix : List Char) :
    consumeSuffix (text ++ suffix) suffix = (true, text) := by
  rw [consumeSuffix, if_pos (List.suffix_append text suffix), List.length_append,
    Nat.add_sub_cancel, List.take_left]

/-- **A literal with a suffix** is parsed as what stands before the suffix. -/
theorem parseIntegral_append {text : List Char} (hne : text ≠ [])
    (hletters : ∀ x ∈ ['u', 'l', 'L', '_'], x ∉ text) (suffix : UnsignedSuffix) :
    parseIntegral (text ++ suffix.text) =
      if isHex (text ++ suffix.text) then parseHexIntegral (suffix = .u8) (suffix = .u32) false text
      else parseDecIntegral (suffix = .u8) (suffix = .u32) false (suffix = .u64) text := by
  have hu32 : consumeSuffix text ['u', '3', '2'] = (false, text) :=
    consumeSuffix_of_notMem List.mem_cons_self (hletters 'u' (by decide))
  have hu64 : consumeSuffix text ['u', '6', '4'] = (false, text) :=
    consumeSuffix_of_notMem List.mem_cons_self (hletters 'u' (by decide))
  have hlower (t : List Char) (h : 'l' ∉ t) : consumeSuffix t ['l'] = (false, t) :=
    consumeSuffix_of_notMem List.mem_cons_self h
  have hupper (t : List Char) (h : 'L' ∉ t) : consumeSuffix t ['L'] = (false, t) :=
    consumeSuffix_of_notMem List.mem_cons_self h
  have hsplit : text.splitOn '_' = [text] :=
    List.splitOnP_eq_singleton fun c hc =>
      beq_false_of_ne fun h => hletters '_' (by decide) (h ▸ hc)
  have hpiece : [text].any List.isEmpty = false := by
    rw [List.any_cons, List.any_nil, Bool.or_false, List.isEmpty_eq_false_iff]
    exact hne
  have hlast (a b c x : Char) (suffix : List Char) (h : suffix.getLast? = some x) (hx : x ≠ c) :
      consumeSuffix (text ++ [a, b, c]) suffix = (false, text ++ [a, b, c]) := by
    refine consumeSuffix_of_getLast? (by rintro rfl; simp at h) ?_
    rw [h, List.getLast?_append_of_ne_nil _ (by simp)]
    exact fun h => hx (Option.some.inj h).symm
  cases suffix with
  | u8 =>
      simp only [parseIntegral, UnsignedSuffix.text, consumeSuffix_append, hu32, hu64,
        hlower text (hletters 'l' (by decide)), hupper text (hletters 'L' (by decide)), hsplit,
        hpiece, Bool.false_eq_true, if_false]
      simp
  | u32 =>
      simp only [parseIntegral, UnsignedSuffix.text, consumeSuffix_append, hu64,
        hlast 'u' '3' '2' '8' ['u', '8'] rfl (by decide), hlower text (hletters 'l' (by decide)),
        hupper text (hletters 'L' (by decide)), hsplit, hpiece, Bool.false_eq_true, if_false]
      simp
  | u64 =>
      have hl : 'l' ∉ text ++ ['u', '6', '4'] := by simp [hletters]
      have hL : 'L' ∉ text ++ ['u', '6', '4'] := by simp [hletters]
      simp only [parseIntegral, UnsignedSuffix.text, consumeSuffix_append, hlower _ hl,
        hupper _ hL, hlast 'u' '6' '4' '8' ['u', '8'] rfl (by decide),
        hlast 'u' '6' '4' '2' ['u', '3', '2'] rfl (by decide), hsplit, hpiece,
        Bool.false_eq_true, if_false]
      simp

/-- The characters that `ParseIntegral` looks for are not in a decimal spelling. -/
theorem DecSpelling.notMem {n : ℕ} {text : List Char} (h : DecSpelling n text) :
    ∀ x ∈ ['u', 'l', 'L', '_'], x ∉ text := by
  intro x hx hmem
  exact ne_of_isDigitOf (h.2.1 x hmem) (digitOf_eq_none (by decide) x hx) rfl

/-- The characters that `ParseIntegral` looks for are not in a hexadecimal spelling. -/
theorem HexSpelling.notMem {n : ℕ} {text : List Char} (h : HexSpelling n text) :
    ∀ x ∈ ['u', 'l', 'L', '_'], x ∉ text := by
  obtain ⟨y, digits, rfl, hy, _, hdigits, _⟩ := h
  intro x hx hmem
  rcases List.mem_cons.mp hmem with rfl | hmem
  · exact absurd hx (by decide)
  rcases List.mem_cons.mp hmem with rfl | hmem
  · rcases hy with rfl | rfl
    · exact absurd hx (by decide)
    · exact absurd hx (by decide)
  · exact ne_of_isDigitOf (hdigits x hmem) (digitOf_eq_none (by decide) x hx) rfl

/-- The type that a suffix asks for. -/
def UnsignedSuffix.machineType : UnsignedSuffix → MachineType
  | .u8 => .int8
  | .u32 => .int32
  | .u64 => .int64

/-- A decimal literal is not taken for a hexadecimal one. -/
theorem DecSpelling.isHex_append {n : ℕ} {text : List Char} (h : DecSpelling n text)
    (suffix : UnsignedSuffix) : isHex (text ++ suffix.text) = false := by
  have hnone : ∀ x ∈ ['x', 'X'], x ∉ text ++ suffix.text := by
    intro x hx hmem
    rcases List.mem_append.mp hmem with hmem | hmem
    · exact ne_of_isDigitOf (h.2.1 x hmem) (digitOf_eq_none (by decide) x hx) rfl
    · have hsuffix : ['x', 'X'].all (fun x => x ∉ suffix.text) = true := by cases suffix <;> decide
      exact of_decide_eq_true (List.all_eq_true.mp hsuffix x hx) hmem
  refine decide_eq_false ?_
  rintro (hhex | hhex)
  · exact hnone 'x' (by decide) (hhex.mem (by decide))
  · exact hnone 'X' (by decide) (hhex.mem (by decide))

/-- A hexadecimal literal is recognised. -/
theorem HexSpelling.isHex_append {n : ℕ} {text : List Char} (h : HexSpelling n text)
    (suffix : List Char) : isHex (text ++ suffix) = true := by
  obtain ⟨x, digits, rfl, hx, -⟩ := h
  refine decide_eq_true (hx.imp ?_ ?_)
  · rintro rfl
    exact ⟨digits ++ suffix, rfl⟩
  · rintro rfl
    exact ⟨digits ++ suffix, rfl⟩

/-- The range of a decimal literal for a type without sign. -/
theorem unsignedRange_eq {β : Type} {w : ℕ} (hw : w < 63) (n : ℕ) (result : ℤ → β) :
    (match if n < 2 ^ 63 then some (n : ℤ) else none with
      | none => none
      | some parsedValue =>
          if parsedValue > 2 ^ w - 1 ∨ parsedValue < 0 then none else some (result parsedValue))
      = if n < 2 ^ w then some (result n) else none := by
  have hcast : ((2 ^ w : ℕ) : ℤ) = 2 ^ w := by push_cast; rfl
  have hpow : 2 ^ w < 2 ^ 63 := Nat.pow_lt_pow_right (by decide) hw
  by_cases hn : n < 2 ^ w
  · have hrange : ¬ ((n : ℤ) > 2 ^ w - 1 ∨ (n : ℤ) < 0) := by omega
    rw [if_pos (hn.trans hpow), if_pos hn]
    exact if_neg hrange
  · have hrange : (n : ℤ) > 2 ^ w - 1 ∨ (n : ℤ) < 0 := by omega
    by_cases hlong : n < 2 ^ 63
    · rw [if_pos hlong, if_neg hn]
      exact if_pos hrange
    · rw [if_neg hlong, if_neg hn]

/-- **The decimal literal** of a number with a suffix. -/
theorem parseIntegral_dec {n : ℕ} {text : List Char} (h : DecSpelling n text)
    (suffix : UnsignedSuffix) :
    parseIntegral (text ++ suffix.text) =
      if n < 2 ^ suffix.width then
        some (suffix.machineType.constType, suffix.machineType.cast n)
      else none := by
  rw [parseIntegral_append h.1 h.notMem, h.isHex_append, if_neg Bool.false_ne_true,
    parseDecIntegral, parseUint_dec h, parseInt64_dec h]
  cases suffix with
  | u8 => exact unsignedRange_eq (by decide) n _
  | u32 => exact unsignedRange_eq (by decide) n _
  | u64 =>
      have hmax : n < 2 ^ 64 ∧ n ≤ 2 ^ 64 - 1 ↔ n < 2 ^ 64 := by omega
      rw [if_pos (show decide (UnsignedSuffix.u64 = .u64) = true from rfl)]
      by_cases hn : n < 2 ^ 64
      · rw [if_pos (hmax.mpr hn)]
        exact (if_pos hn).symm
      · rw [if_neg (mt hmax.mp hn)]
        exact (if_neg hn).symm

/-- **The hexadecimal literal** of a number with a suffix. -/
theorem parseIntegral_hex {n : ℕ} {text : List Char} (h : HexSpelling n text)
    (suffix : UnsignedSuffix) :
    parseIntegral (text ++ suffix.text) =
      if suffix = .u8 then
        if n < 2 ^ 8 then some (.int8, MachineType.int8.cast n) else none
      else if n < 2 ^ 32 then some (.int32, MachineType.int32.cast n)
      else if n < 2 ^ 64 then some (.int64, MachineType.int64.cast n)
      else none := by
  have hne : text ≠ [] := by
    obtain ⟨x, digits, rfl, -⟩ := h
    exact List.cons_ne_nil _ _
  rw [parseIntegral_append hne h.notMem, h.isHex_append, if_pos rfl, parseHexIntegral,
    parseUint_hex h, parseUint_hex h, parseUint_hex h]
  have h8 : n < 2 ^ 64 ∧ n ≤ 2 ^ 8 - 1 ↔ n < 2 ^ 8 := by omega
  have h32 : n < 2 ^ 64 ∧ n ≤ 2 ^ 32 - 1 ↔ n < 2 ^ 32 := by omega
  have h64 : n < 2 ^ 64 ∧ n ≤ 2 ^ 64 - 1 ↔ n < 2 ^ 64 := by omega
  by_cases hbyte : suffix = .u8
  · by_cases hn : n < 2 ^ 8
    · simp only [hbyte, h8, hn, decide_true, if_true]
    · simp only [hbyte, h8, hn, decide_true, if_true, if_false]
  · simp only [hbyte, h32, h64, decide_false, Bool.false_eq_true, if_false, Bool.not_false,
      Bool.true_or, if_true]
    by_cases hint : n < 2 ^ 32
    · simp only [hint, if_true]
    · by_cases hn : n < 2 ^ 64
      · simp only [hint, hn, if_true, if_false]
      · simp only [hint, hn, if_false]

/-! ## When the spellings agree -/

/-- `ParseInt` reads a value of its type. -/
theorem fits_of_parseInt64 {text : List Char} {v : ℤ} (h : parseInt64 text = some v) :
    MachineType.int64.Fits v := by
  simp only [parseInt64] at h
  split at h
  case h_1 => exact absurd h (Option.some_ne_none v).symm
  case h_2 =>
    split_ifs at h
    all_goals
      obtain rfl := Option.some.inj h
      assumption

/-- A result without a value. -/
theorem WellTyped.none : WellTyped none := fun _ hp => absurd hp (Option.not_mem_none _)

/-- A result with a value of its type. -/
theorem WellTyped.some {T : MachineType} (hT : T.IsWord) {v : ℤ} (hv : T.Fits v) :
    WellTyped (some (T.constType, v)) := by
  intro p hp
  obtain rfl := Option.some.inj hp
  exact ⟨T, hT, rfl, hv⟩

/-- Two results with values of their types. -/
theorem WellTyped.ite {p : Prop} [Decidable p] {r r' : Option (ConstType × ℤ)} (h : WellTyped r)
    (h' : WellTyped r') : WellTyped (if p then r else r') := by
  split
  · exact h
  · exact h'

/-- The types of integer literals are words. -/
theorem isWord_int :
    MachineType.int8.IsWord ∧ MachineType.int32.IsWord ∧ MachineType.int64.IsWord := by
  unfold MachineType.IsWord
  decide

/-- A hexadecimal literal has a value of its type. -/
theorem wellTyped_parseHexIntegral (isByte isUnsignedInt isLong : Bool) (text : List Char) :
    WellTyped (parseHexIntegral isByte isUnsignedInt isLong text) := by
  obtain ⟨h8, h32, h64⟩ := isWord_int
  unfold parseHexIntegral
  split
  · split
    · exact .some h8 (MachineType.fits_cast _ _)
    · exact .none
  · split
    · exact .some h32 (MachineType.fits_cast _ _)
    · split
      · exact .some h64 (MachineType.fits_cast _ _)
      · exact .none

/-- A decimal literal has a value of its type. -/
theorem wellTyped_parseDecIntegral (isByte isUnsignedInt isLong isUnsignedLong : Bool)
    (text : List Char) :
    WellTyped (parseDecIntegral isByte isUnsignedInt isLong isUnsignedLong text) := by
  obtain ⟨h8, h32, h64⟩ := isWord_int
  unfold parseDecIntegral
  split
  · split
    · exact .some h64 (MachineType.fits_cast _ _)
    · exact .none
  split
  · exact .none
  next v hv =>
  have hlong := fits_of_parseInt64 hv
  split_ifs with hbyte hrange hunsigned hrange h h hint
  · exact .none
  · exact .some h8 (MachineType.fits_cast _ _)
  · exact .none
  · exact .some h32 (MachineType.fits_cast _ _)
  · exact .some h64 hlong
  · exact .some h8 ⟨h.2, Int.lt_of_le_sub_one h.1⟩
  · exact .some h32 ⟨hint.2, Int.lt_of_le_sub_one hint.1⟩
  · exact .some h64 hlong

/-- **No literal has a value outside its type.** -/
theorem wellTyped_parseIntegral (text : List Char) : WellTyped (parseIntegral text) := by
  simp only [parseIntegral]
  exact .ite .none (.ite .none
    (.ite (wellTyped_parseHexIntegral _ _ _ _) (wellTyped_parseDecIntegral _ _ _ _ _)))

section Results

variable {accepted : Prop} {width : ℕ}

/-- Two literals with the same result. -/
theorem ResultsAgree.same (h : accepted) {r : ConstType × ℤ} :
    ResultsAgree accepted width (some r) (some r) :=
  ⟨.inr ⟨r.1, r.2, r.2, rfl, rfl, .refl _⟩, iff_of_true rfl h, iff_of_true rfl h⟩

/-- Two literals that are rejected. -/
theorem ResultsAgree.rejected (h : ¬ accepted) : ResultsAgree accepted width none none :=
  ⟨.inl ⟨rfl, rfl⟩, iff_of_false Bool.false_ne_true h, iff_of_false Bool.false_ne_true h⟩

/-- Two literals that are accepted have the same type. -/
theorem ResultsAgree.type_eq {r r' : ConstType × ℤ}
    (h : ResultsAgree accepted width (some r) (some r')) : r.1 = r'.1 := by
  obtain ⟨⟨hr, -⟩ | ⟨type, v, v', hr, hr', -⟩, -⟩ := h
  · exact absurd hr (Option.some_ne_none r)
  · rw [Option.some.inj hr, Option.some.inj hr']

end Results

/-- The numbers whose spellings agree. -/
def UnsignedSuffix.Agreeing (n : ℕ) : UnsignedSuffix → Prop
  | .u8 => True
  | .u32 => n < 2 ^ 32 ∨ 2 ^ 64 ≤ n
  | .u64 => 2 ^ 32 ≤ n

/-- **When the spellings agree**: for `u8` always, for `u32` unless the number has between 33 and 64
digits of base 2, for `u64` unless it has at most 32. Every accepted literal, with any suffix or
none, has a value of its type. -/
theorem spellingsAgree_iff {n : ℕ} {dec hex : List Char} (hdec : DecSpelling n dec)
    (hhex : HexSpelling n hex) (suffix : UnsignedSuffix) :
    (SpellingsAgree n suffix dec hex ↔ suffix.Agreeing n)
      ∧ ∀ text, WellTyped (parseIntegral text) := by
  refine ⟨?_, wellTyped_parseIntegral⟩
  rw [SpellingsAgree]
  cases suffix with
  | u8 =>
      have hd : parseIntegral (dec ++ UnsignedSuffix.u8.text)
          = if n < 2 ^ 8 then some (.int8, MachineType.int8.cast n) else none :=
        parseIntegral_dec hdec .u8
      have hh : parseIntegral (hex ++ UnsignedSuffix.u8.text)
          = if n < 2 ^ 8 then some (.int8, MachineType.int8.cast n) else none :=
        parseIntegral_hex hhex .u8
      refine iff_of_true ?_ trivial
      by_cases hn : n < 2 ^ 8
      · rw [hd, hh, if_pos hn]
        exact .same hn
      · rw [hd, hh, if_neg hn]
        exact .rejected hn
  | u32 =>
      have hd : parseIntegral (dec ++ UnsignedSuffix.u32.text)
          = if n < 2 ^ 32 then some (.int32, MachineType.int32.cast n) else none :=
        parseIntegral_dec hdec .u32
      have hh : parseIntegral (hex ++ UnsignedSuffix.u32.text)
          = if n < 2 ^ 32 then some (.int32, MachineType.int32.cast n)
            else if n < 2 ^ 64 then some (.int64, MachineType.int64.cast n) else none :=
        parseIntegral_hex hhex .u32
      by_cases hint : n < 2 ^ 32
      · rw [hd, hh, if_pos hint, if_pos hint]
        exact iff_of_true (.same hint) (.inl hint)
      rw [hd, hh, if_neg hint, if_neg hint]
      by_cases hlong : n < 2 ^ 64
      · -- the hexadecimal literal is taken for an `int64`
        rw [if_pos hlong]
        exact iff_of_false (fun h => hint (h.2.2.mp rfl))
          (fun h => h.elim hint fun h => Nat.not_lt.mpr h hlong)
      · rw [if_neg hlong]
        exact iff_of_true (.rejected hint) (.inr (Nat.not_lt.mp hlong))
  | u64 =>
      have hd : parseIntegral (dec ++ UnsignedSuffix.u64.text)
          = if n < 2 ^ 64 then some (.int64, MachineType.int64.cast n) else none :=
        parseIntegral_dec hdec .u64
      have hh : parseIntegral (hex ++ UnsignedSuffix.u64.text)
          = if n < 2 ^ 32 then some (.int32, MachineType.int32.cast n)
            else if n < 2 ^ 64 then some (.int64, MachineType.int64.cast n) else none :=
        parseIntegral_hex hhex .u64
      by_cases hint : n < 2 ^ 32
      · -- the hexadecimal literal is taken for an `int32`
        rw [hd, hh, if_pos hint, if_pos (hint.trans (by decide))]
        exact iff_of_false (fun h => absurd h.type_eq ConstType.noConfusion) (Nat.not_le.mpr hint)
      rw [hd, hh, if_neg hint]
      refine iff_of_true ?_ (Nat.not_lt.mp hint)
      by_cases hlong : n < 2 ^ 64
      · rw [if_pos hlong]
        exact .same hlong
      · rw [if_neg hlong]
        exact .rejected hlong

/-- The greatest byte. -/
theorem spellingsAgree_iff_byte :
    DecSpelling 255 ['2', '5', '5'] ∧ HexSpelling 255 ['0', 'x', 'F', 'f']
      ∧ (SpellingsAgree 255 .u8 ['2', '5', '5'] ['0', 'x', 'F', 'f']
        ↔ UnsignedSuffix.Agreeing 255 .u8)
      ∧ ∀ text, WellTyped (parseIntegral text) :=
  have hdec : DecSpelling 255 ['2', '5', '5'] := ⟨by decide, List.all_eq_true.mp rfl, by decide⟩
  have hhex : HexSpelling 255 ['0', 'x', 'F', 'f'] :=
    ⟨'x', ['F', 'f'], rfl, .inl rfl, by decide, List.all_eq_true.mp rfl, by decide⟩
  ⟨hdec, hhex, spellingsAgree_iff hdec hhex .u8⟩

/-- The greatest number of 32 bits as a `u64` literal is -1 if it is hexadecimal. -/
theorem not_spellingsAgree_long :
    DecSpelling 4294967295 ['4', '2', '9', '4', '9', '6', '7', '2', '9', '5']
      ∧ HexSpelling 4294967295 ['0', 'x', 'f', 'f', 'f', 'f', 'f', 'f', 'f', 'f']
      ∧ parseIntegral ['4', '2', '9', '4', '9', '6', '7', '2', '9', '5', 'u', '6', '4']
        = some (.int64, 4294967295)
      ∧ parseIntegral ['0', 'x', 'f', 'f', 'f', 'f', 'f', 'f', 'f', 'f', 'u', '6', '4']
        = some (.int32, -1)
      ∧ ¬ SpellingsAgree 4294967295 .u64 ['4', '2', '9', '4', '9', '6', '7', '2', '9', '5']
        ['0', 'x', 'f', 'f', 'f', 'f', 'f', 'f', 'f', 'f'] := by
  have hd : parseIntegral ['4', '2', '9', '4', '9', '6', '7', '2', '9', '5', 'u', '6', '4']
      = some (.int64, 4294967295) := by decide
  have hh : parseIntegral ['0', 'x', 'f', 'f', 'f', 'f', 'f', 'f', 'f', 'f', 'u', '6', '4']
      = some (.int32, -1) := by decide
  refine ⟨⟨by decide, List.all_eq_true.mp rfl, by decide⟩,
    ⟨'x', _, rfl, .inl rfl, by decide, List.all_eq_true.mp rfl, by decide⟩, hd, hh, fun h => ?_⟩
  have hagree : ResultsAgree _ _
      (parseIntegral ['4', '2', '9', '4', '9', '6', '7', '2', '9', '5', 'u', '6', '4'])
      (parseIntegral ['0', 'x', 'f', 'f', 'f', 'f', 'f', 'f', 'f', 'f', 'u', '6', '4']) := h
  rw [hd, hh] at hagree
  exact absurd hagree.type_eq ConstType.noConfusion

end AndroidSdk.Aidl
