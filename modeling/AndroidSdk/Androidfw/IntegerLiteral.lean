import AndroidSdk.Lib.Run
import Mathlib.Data.List.Basic
import Mathlib.Tactic.Linarith
import Mathlib.Tactic.SplitIfs

/-! # Integer literals

`U16StringToInt` reads an integer from the units of a UTF-16 string
(`libs/androidfw/ResourceTypes.cpp`). It is given a pointer and a length, so that what follows on
the string in memory can be read too.

* **`u16StringToInt`** — the function; arithmetic of 64 bits that overflows is a fault.
* **`integerLiteral`** — the value that a list of units stands for.
* **`parsesExactly_iff`** — when the function finds that value, whatever follows in memory. -/

namespace AndroidSdk.Androidfw

/-! ## The function -/

/-- The units from an address on. -/
abbrev Memory16 := ℕ → UInt16

/-- `isspace16`. -/
def isspace16 (c : UInt16) : Bool := c.toNat ∈ [0x09, 0x0a, 0x0b, 0x0c, 0x0d, 0x20]

/-- A value of `int64_t` that does not fit. -/
structure Overflow where
  deriving DecidableEq

/-- The result of arithmetic on `int64_t`. -/
def int64 (z : ℤ) : Except Overflow ℤ := if -2 ^ 63 ≤ z ∧ z < 2 ^ 63 then .ok z else .error ⟨⟩

/-- `get_hex`, for a `char`; nothing if it reports an error. -/
def getHex (c : UInt8) : Option ℕ :=
  if 0x30 ≤ c.toNat ∧ c.toNat ≤ 0x39 then some (c.toNat - 0x30)
  else if 0x61 ≤ c.toNat ∧ c.toNat ≤ 0x66 then some (c.toNat - 0x61 + 0xa)
  else if 0x41 ≤ c.toNat ∧ c.toNat ≤ 0x46 then some (c.toNat - 0x41 + 0xa)
  else none

/-- The loop over white space: the next index, and the number of units that are left. -/
def skipSpaces (s : Memory16) : ℕ → ℕ → ℕ × ℕ
  | i, 0 => (i, 0)
  | i, n + 1 => if isspace16 (s i) then skipSpaces s (i + 1) n else (i, n + 1)

/-- The loop over hexadecimal digits, for the number of units that are left. The units become
`char`s. -/
def hexLoop (s : Memory16) : ℕ → ℕ → ℤ → Except Overflow (Option ℤ)
  | _, 0, val => return some val
  | i, n + 1, val => do
      let digit := getHex (s i).toUInt8
      let val ← int64 ((← int64 (val * 16)) + digit.getD 0)
      if 0xffffffff < val then return none
      else if digit.isNone then return none
      else hexLoop s (i + 1) n val

/-- A decimal digit. -/
def isDigit16 (c : UInt16) : Bool := 0x30 ≤ c.toNat ∧ c.toNat ≤ 0x39

/-- The loop over decimal digits. -/
def decLoop (s : Memory16) (neg : Bool) : ℕ → ℕ → ℤ → Except Overflow (Option ℤ)
  | _, 0, val => return some val
  | i, n + 1, val => do
      if !isDigit16 (s i) then return none
      else
        let val ← int64 ((← int64 ((← int64 (val * 10)) + (s i).toNat)) - 0x30)
        if (neg ∧ -val < -2 ^ 31) ∨ (¬ neg ∧ 2 ^ 31 - 1 < val) then return none
        else decLoop s neg (i + 1) n val

/-- The type and the data of a `Res_value`. -/
structure ResValue where
  dataType : BitVec 8
  data : BitVec 32
  deriving DecidableEq

/-- `TYPE_INT_DEC`. -/
def typeIntDec : BitVec 8 := 0x10

/-- `TYPE_INT_HEX`. -/
def typeIntHex : BitVec 8 := 0x11

/-- What follows on the loops, which end where the units do: the sign, and the white space at the
end. -/
def finish (s : Memory16) (i n : ℕ) (neg isHex : Bool) (val : ℤ) :
    Except Overflow (Option ResValue) := do
  let val ← if neg then int64 (-val) else pure val
  if (skipSpaces s i n).2 ≠ 0 then return none
  else return some ⟨if isHex then typeIntHex else typeIntDec, .ofInt 32 val⟩

/-- The part behind the leading white space, which starts at `s`. -/
def scanInteger (s : Memory16) (len : ℕ) : Except Overflow (Option ResValue) := do
  if len = 0 then return none
  else
    let neg : Bool := s 0 = 0x2d
    let i := if neg then 1 else 0
    if !isDigit16 (s i) then return none
    else if 1 < len ∧ s i = 0x30 ∧ s (i + 1) = 0x78 then
      if neg then return none
      else if i + 2 = len then return none
      else
        match ← hexLoop s (i + 2) (len - (i + 2)) 0 with
        | none => return none
        | some val => finish s len 0 neg true val
    else
      match ← decLoop s neg i (len - i) 0 with
      | none => return none
      | some val => finish s len 0 neg false val

/-- `U16StringToInt`. -/
def u16StringToInt (s : Memory16) (len : ℕ) : Except Overflow (Option ResValue) :=
  let (i, len) := skipSpaces s 0 len
  scanInteger (fun k => s (i + k)) len

/-! ## Literals -/

/-- The units of a string. -/
def unitsAt (s : Memory16) : ℕ → ℕ → List UInt16
  | _, 0 => []
  | i, n + 1 => s i :: unitsAt s (i + 1) n

/-- The number that digits stand for. -/
def valueOf (radix : ℕ) (digits : List ℕ) : ℕ := digits.foldl (fun val digit => val * radix + digit) 0

/-- The value of a hexadecimal digit. -/
def hexDigit16 (c : UInt16) : Option ℕ := if c.toNat < 0x100 then getHex c.toUInt8 else none

/-- The value of a decimal digit. -/
def digit16 (c : UInt16) : Option ℕ := if isDigit16 c then some (c.toNat - 0x30) else none

/-- `[0-9a-fA-F]+`, with a value of 32 bits without sign. -/
def hexLiteral (digit : UInt16 → Option ℕ) (units : List UInt16) : Option ResValue := do
  let digits ← units.mapM digit
  if units ≠ [] ∧ valueOf 16 digits < 2 ^ 32 then
    return ⟨typeIntHex, .ofNat 32 (valueOf 16 digits)⟩
  else none

/-- `[0-9]+` behind a sign or none, with a value of 32 bits with sign. -/
def decLiteral (neg : Bool) (units : List UInt16) : Option ResValue := do
  let digits ← units.mapM digit16
  let val : ℤ := if neg then -valueOf 10 digits else valueOf 10 digits
  if units ≠ [] ∧ -2 ^ 31 ≤ val ∧ val < 2 ^ 31 then return ⟨typeIntDec, .ofInt 32 val⟩ else none

/-- `-?[0-9]+` or `0x[0-9a-fA-F]+`, for what counts as a hexadecimal digit. -/
def literalWith (hexDigit : UInt16 → Option ℕ) : List UInt16 → Option ResValue
  | 0x30 :: 0x78 :: rest => hexLiteral hexDigit rest
  | 0x2d :: rest => decLiteral true rest
  | rest => decLiteral false rest

/-- **The value that units stand for**: white space, and then a literal. -/
def integerLiteral (units : List UInt16) : Option ResValue :=
  literalWith hexDigit16 (units.dropWhile isspace16)

/-- **The function finds the value** of the first units, whatever follows on them. -/
def ParsesExactly (s : Memory16) (len : ℕ) : Prop :=
  ∀ t : Memory16, unitsAt t 0 len = unitsAt s 0 len →
    u16StringToInt t len = .ok (integerLiteral (unitsAt s 0 len))

/-! ## Digits -/

/-- Digits that are read one by one, as long as the number is within the limit. -/
def readDigits (digit : UInt16 → Option ℕ) (radix limit : ℕ) (units : List UInt16) (val : ℕ) :
    Option ℕ := do
  let digits ← units.mapM digit
  let val := digits.foldl (fun val digit => val * radix + digit) val
  if val ≤ limit then return val else none

/-- More digits do not make a number smaller. -/
theorem le_foldl {radix : ℕ} (hradix : 0 < radix) (digits : List ℕ) (val : ℕ) :
    val ≤ digits.foldl (fun val digit => val * radix + digit) val := by
  induction digits generalizing val with
  | nil => exact Nat.le_refl val
  | cons digit digits ih =>
      have hle : val ≤ val * radix := Nat.le_mul_of_pos_right val hradix
      exact Nat.le_trans (by omega) (ih (val * radix + digit))

/-- One digit is read. -/
theorem readDigits_cons {radix : ℕ} (hradix : 0 < radix) (digit : UInt16 → Option ℕ) (limit : ℕ)
    (c : UInt16) (units : List UInt16) (val : ℕ) :
    readDigits digit radix limit (c :: units) val
      = (digit c).bind fun d =>
        if val * radix + d ≤ limit then readDigits digit radix limit units (val * radix + d)
        else none := by
  rw [readDigits, List.mapM_cons]
  cases digit c with
  | none => rfl
  | some d =>
      rw [Option.bind_some]
      cases hdigits : units.mapM digit with
      | none =>
          rw [readDigits, hdigits]
          split_ifs
          all_goals rfl
      | some digits =>
          have hle := le_foldl hradix digits (val * radix + d)
          rw [readDigits, hdigits]
          show (if (d :: digits).foldl _ val ≤ limit then _ else _) = _
          rw [List.foldl_cons]
          split_ifs with h1 h2 h2
          · exact (if_pos h1).symm
          · omega
          · exact (if_neg h1).symm
          · rfl

/-- What is read is within the limit. -/
theorem readDigits_le {digit : UInt16 → Option ℕ} {radix limit : ℕ} {units : List UInt16}
    {first val : ℕ} (h : readDigits digit radix limit units first = some val) : val ≤ limit := by
  rw [readDigits, Option.bind_eq_bind, Option.bind_eq_some_iff] at h
  obtain ⟨digits, -, h⟩ := h
  dsimp only at h
  split_ifs at h with hle
  cases h
  exact hle

/-- A literal without sign is read. -/
theorem hexLiteral_eq (digit : UInt16 → Option ℕ) {units : List UInt16} (hne : units ≠ []) :
    hexLiteral digit units = (readDigits digit 16 0xffffffff units 0).map fun val =>
      ⟨typeIntHex, .ofNat 32 val⟩ := by
  rw [hexLiteral, readDigits]
  cases units.mapM digit with
  | none => rfl
  | some digits =>
      show (if units ≠ [] ∧ valueOf 16 digits < 2 ^ 32 then _ else _)
        = Option.map _ (if valueOf 16 digits ≤ 0xffffffff then _ else _)
      by_cases h : valueOf 16 digits ≤ 0xffffffff
      · rw [if_pos h, if_pos ⟨hne, by omega⟩]
        rfl
      · rw [if_neg h, if_neg (fun h' => h (by omega))]
        rfl

/-- The largest number behind a sign or none. -/
def decLimit (neg : Bool) : ℕ := if neg then 2 ^ 31 else 2 ^ 31 - 1

/-- A decimal literal is read. -/
theorem decLiteral_eq (neg : Bool) {units : List UInt16} (hne : units ≠ []) :
    decLiteral neg units = (readDigits digit16 10 (decLimit neg) units 0).map fun val =>
      ⟨typeIntDec, .ofInt 32 (if neg then -val else val)⟩ := by
  rw [decLiteral, readDigits]
  cases units.mapM digit16 with
  | none => rfl
  | some digits =>
      show (if units ≠ [] ∧ -2 ^ 31 ≤ (if neg then -(valueOf 10 digits : ℤ) else valueOf 10 digits)
          ∧ (if neg then -(valueOf 10 digits : ℤ) else valueOf 10 digits) < 2 ^ 31 then _ else _)
        = Option.map _ (if valueOf 10 digits ≤ decLimit neg then _ else _)
      have hiff : (-2 ^ 31 ≤ (if neg then -(valueOf 10 digits : ℤ) else valueOf 10 digits)
          ∧ (if neg then -(valueOf 10 digits : ℤ) else valueOf 10 digits) < 2 ^ 31)
          ↔ valueOf 10 digits ≤ decLimit neg := by
        cases neg with
        | true =>
            rw [if_pos rfl, decLimit, if_pos rfl]
            omega
        | false =>
            rw [if_neg Bool.false_ne_true, decLimit, if_neg Bool.false_ne_true]
            omega
      by_cases h : valueOf 10 digits ≤ decLimit neg
      · rw [if_pos h, if_pos ⟨hne, hiff.mpr h⟩]
        rfl
      · rw [if_neg h, if_neg (fun h' => h (hiff.mp h'.2))]
        rfl

/-! ## Loops -/

/-- Small numbers fit. -/
theorem int64_of_lt {z : ℤ} (h : -2 ^ 40 ≤ z) (h' : z ≤ 2 ^ 40) : int64 z = .ok z :=
  if_pos ⟨by omega, by omega⟩

/-- A hexadecimal digit is small. -/
theorem getHex_lt {c : UInt8} {d : ℕ} (h : getHex c = some d) : d < 16 := by
  rw [getHex] at h
  split_ifs at h
  all_goals
    cases h
    omega

/-- The digit that the code makes of a unit. -/
def narrowDigit (c : UInt16) : Option ℕ := getHex c.toUInt8

/-- **The loop over hexadecimal digits** reads them, and does not overflow. -/
theorem hexLoop_eq (s : Memory16) (i n : ℕ) {val : ℕ} (hval : val ≤ 0xffffffff) :
    hexLoop s i n val = .ok ((readDigits narrowDigit 16 0xffffffff (unitsAt s i n) val).map
      Nat.cast) := by
  induction n generalizing i val with
  | zero =>
      have hread : readDigits narrowDigit 16 0xffffffff [] val = some val := if_pos hval
      rw [hexLoop, unitsAt, hread]
      rfl
  | succ n ih =>
      rw [hexLoop, unitsAt, readDigits_cons (by decide), int64_of_lt (by omega) (by omega)]
      cases hdigit : narrowDigit (s i) with
      | none =>
          change getHex (s i).toUInt8 = none at hdigit
          rw [hdigit, Lib.bind_ok, Option.getD_none, int64_of_lt (by omega) (by omega), Lib.bind_ok]
          split_ifs with hlarge herror
          · rfl
          · rfl
          · exact absurd rfl herror
      | some d =>
          have hlt : d < 16 := getHex_lt hdigit
          change getHex (s i).toUInt8 = some d at hdigit
          rw [hdigit, Option.bind_some, Lib.bind_ok, Option.getD_some, int64_of_lt (by omega) (by omega),
            Lib.bind_ok]
          by_cases hle : val * 16 + d ≤ 0xffffffff
          · have hnext := ih (i + 1) hle
            rw [Nat.cast_add, Nat.cast_mul] at hnext
            rw [if_neg (by omega), if_pos hle, Option.isNone_some, if_neg Bool.false_ne_true]
            exact hnext
          · rw [if_pos (by omega), if_neg hle]
            rfl

/-- **The loop over decimal digits** reads them, and does not overflow. -/
theorem decLoop_eq (s : Memory16) (neg : Bool) (i n : ℕ) {val : ℕ} (hval : val ≤ decLimit neg) :
    decLoop s neg i n val = .ok ((readDigits digit16 10 (decLimit neg) (unitsAt s i n) val).map
      Nat.cast) := by
  have hlimit : decLimit neg ≤ 2 ^ 31 := by
    rw [decLimit]
    split_ifs
    all_goals omega
  induction n generalizing i val with
  | zero =>
      have hread : readDigits digit16 10 (decLimit neg) [] val = some val := if_pos hval
      rw [decLoop, unitsAt, hread]
      rfl
  | succ n ih =>
      rw [decLoop, unitsAt, readDigits_cons (by decide)]
      by_cases hdigit : isDigit16 (s i)
      · have hsome : digit16 (s i) = some ((s i).toNat - 0x30) := if_pos hdigit
        rw [isDigit16, decide_eq_true_iff] at hdigit
        have hnot : ¬ (!isDigit16 (s i)) = true := by
          rw [isDigit16, decide_eq_true hdigit]
          exact Bool.false_ne_true
        -- none of the three steps overflows, since the value so far is small
        rw [if_neg hnot, int64_of_lt (by omega) (by omega), hsome, Option.bind_some, Lib.bind_ok,
          int64_of_lt (by omega) (by omega), Lib.bind_ok, int64_of_lt (by omega) (by omega), Lib.bind_ok]
        have hcast : (val : ℤ) * 10 + (s i).toNat - 0x30
            = ((val * 10 + ((s i).toNat - 0x30) : ℕ) : ℤ) := by omega
        rw [hcast]
        generalize val * 10 + ((s i).toNat - 0x30) = next
        -- the two tests on the sign are one bound
        have hiff : (neg = true ∧ -(next : ℤ) < -2 ^ 31) ∨ (¬ neg = true ∧ 2 ^ 31 - 1 < (next : ℤ))
            ↔ ¬ next ≤ decLimit neg := by
          cases neg with
          | true =>
              rw [decLimit, if_pos rfl]
              simp only [true_and, not_true_eq_false, false_and, or_false]
              omega
          | false =>
              rw [decLimit, if_neg Bool.false_ne_true]
              simp only [Bool.false_eq_true, false_and, not_false_eq_true, true_and, false_or]
              omega
        by_cases hle : next ≤ decLimit neg
        · rw [if_neg (fun h => hiff.mp h hle), if_pos hle, ih (i + 1) hle]
        · rw [if_pos (hiff.mpr hle), if_neg hle]
          rfl
      · have hnone : digit16 (s i) = none := if_neg hdigit
        rw [if_pos (by rwa [Bool.not_eq_true', ← Bool.not_eq_true]), hnone]
        rfl

/-! ## The function and the literal -/

/-- The units behind an index. -/
theorem unitsAt_add (s : Memory16) (i k n : ℕ) :
    unitsAt (fun j => s (i + j)) k n = unitsAt s (i + k) n := by
  induction n generalizing k with
  | zero => rfl
  | succ n ih =>
      rw [unitsAt, unitsAt, ih]
      rfl

/-- **The loop over white space** drops it. -/
theorem skipSpaces_eq (s : Memory16) (i n : ℕ) :
    unitsAt s (skipSpaces s i n).1 (skipSpaces s i n).2 = (unitsAt s i n).dropWhile isspace16
      ∧ (skipSpaces s i n).1 + (skipSpaces s i n).2 = i + n := by
  induction n generalizing i with
  | zero => exact ⟨rfl, rfl⟩
  | succ n ih =>
      rw [skipSpaces, unitsAt, List.dropWhile_cons]
      split_ifs
      · obtain ⟨hunits, hsum⟩ := ih (i + 1)
        exact ⟨hunits, by omega⟩
      · exact ⟨rfl, rfl⟩

/-- What follows on the loops keeps the value. -/
theorem finish_eq (s : Memory16) (i : ℕ) (neg isHex : Bool) {val : ℕ} (hval : val ≤ 2 ^ 32) :
    finish s i 0 neg isHex val
      = .ok (some ⟨if isHex then typeIntHex else typeIntDec,
          .ofInt 32 (if neg then -val else val)⟩) := by
  cases neg with
  | true =>
      rw [finish, if_pos rfl, int64_of_lt (by omega) (by omega), if_pos rfl]
      rfl
  | false =>
      rw [finish, if_neg Bool.false_ne_true, if_neg Bool.false_ne_true]
      rfl

/-- The part behind the prefix of a hexadecimal literal. -/
theorem scanInteger_hex {s : Memory16} {n : ℕ} (h0 : s 0 = 0x30) (h1 : s 1 = 0x78) :
    scanInteger s (n + 2) = .ok (hexLiteral narrowDigit (unitsAt s 2 n)) := by
  have hneg : decide (s 0 = 0x2d) = false := by
    rw [h0]
    decide
  have hdigit : (!isDigit16 (s 0)) = false := by
    rw [h0]
    decide
  rw [scanInteger, if_neg (by omega), hneg]
  dsimp only
  rw [if_neg Bool.false_ne_true, hdigit, if_neg Bool.false_ne_true, if_pos ⟨by omega, h0, h1⟩,
    if_neg Bool.false_ne_true]
  cases n with
  | zero => rfl
  | succ n =>
      have hloop := hexLoop_eq s 2 (n + 1) (Nat.zero_le 0xffffffff)
      have hlen : n + 1 + 2 - (0 + 2) = n + 1 := by omega
      have hne : unitsAt s 2 (n + 1) ≠ [] := List.cons_ne_nil _ _
      rw [if_neg (by omega), hlen, hexLiteral_eq narrowDigit hne]
      change hexLoop s (0 + 2) (n + 1) 0 = _ at hloop
      rw [hloop]
      cases hread : readDigits narrowDigit 16 0xffffffff (unitsAt s 2 (n + 1)) 0 with
      | none => rfl
      | some val =>
          have hle := readDigits_le hread
          show finish s (n + 1 + 2) 0 false true val = _
          rw [finish_eq s _ false true (by omega), if_pos rfl, if_neg Bool.false_ne_true]
          rfl

/-- The part behind the sign of a decimal literal, which ends with the units or does not look like
the prefix of a hexadecimal one. -/
theorem scanInteger_dec {s : Memory16} {neg : Bool} (hneg : decide (s 0 = 0x2d) = neg) {i n : ℕ}
    (hi : (if neg then 1 else 0) = i)
    (hnot : ¬ (1 < i + (n + 1) ∧ s i = 0x30 ∧ s (i + 1) = 0x78)) :
    scanInteger s (i + (n + 1)) = .ok (decLiteral neg (unitsAt s i (n + 1))) := by
  have hne : unitsAt s i (n + 1) ≠ [] := List.cons_ne_nil _ _
  have hlen : i + (n + 1) - i = n + 1 := by omega
  rw [scanInteger, if_neg (by omega), hneg]
  dsimp only
  rw [hi, if_neg hnot, decLiteral_eq neg hne, hlen]
  by_cases hdigit : isDigit16 (s i)
  · have hloop := decLoop_eq s neg i (n + 1) (Nat.zero_le (decLimit neg))
    rw [hdigit, Bool.not_true, if_neg Bool.false_ne_true]
    change decLoop s neg i (n + 1) 0 = _ at hloop
    rw [hloop]
    cases hread : readDigits digit16 10 (decLimit neg) (unitsAt s i (n + 1)) 0 with
    | none => rfl
    | some val =>
        have hlimit : decLimit neg ≤ 2 ^ 31 := by
          rw [decLimit]
          split_ifs
          all_goals omega
        have hle := readDigits_le hread
        show finish s (i + (n + 1)) 0 neg false val = _
        rw [finish_eq s _ neg false (by omega), if_neg Bool.false_ne_true]
        rfl
  · have hnone : digit16 (s i) = none := if_neg hdigit
    rw [Bool.not_eq_true] at hdigit
    rw [hdigit, Bool.not_false, if_pos rfl, unitsAt, readDigits_cons (by decide), hnone]
    rfl

/-- A literal that does not start like a hexadecimal one. -/
theorem literalWith_dec (hexDigit : UInt16 → Option ℕ) {c : UInt16} {rest : List UInt16}
    (hsign : c ≠ 0x2d) (hnot : ¬ (c = 0x30 ∧ rest.head? = some 0x78)) :
    literalWith hexDigit (c :: rest) = decLiteral false (c :: rest) := by
  rw [literalWith.eq_def]
  split
  next heq =>
      cases heq
      exact absurd ⟨rfl, rfl⟩ hnot
  next heq =>
      cases heq
      exact absurd rfl hsign
  next => rfl

/-- A sign before what looks like a hexadecimal literal. -/
theorem decLiteral_prefixed (rest : List UInt16) :
    decLiteral true (0x30 :: 0x78 :: rest) = none := by
  rw [decLiteral_eq true (List.cons_ne_nil _ _), readDigits_cons (by decide)]
  show Option.map _ (if 0 * 10 + 0 ≤ decLimit true
    then readDigits digit16 10 (decLimit true) (0x78 :: rest) (0 * 10 + 0) else none) = none
  rw [if_pos (Nat.zero_le _), readDigits_cons (by decide)]
  rfl

/-- **What the function finds** behind white space, if it does not look at what follows on the
units. -/
theorem scanInteger_eq {s : Memory16} {n : ℕ}
    (hsign : unitsAt s 0 n ≠ [0x2d]) (hzero : unitsAt s 0 n ≠ [0x2d, 0x30]) :
    scanInteger s n = .ok (literalWith narrowDigit (unitsAt s 0 n)) := by
  cases n with
  | zero => rfl
  | succ n =>
      by_cases hneg : s 0 = 0x2d
      · -- a sign
        have hspec : literalWith narrowDigit (unitsAt s 0 (n + 1))
            = decLiteral true (unitsAt s 1 n) := by
          rw [unitsAt, hneg]
          rfl
        rw [unitsAt, hneg] at hsign hzero
        cases n with
        | zero => exact absurd rfl hsign
        | succ n =>
            by_cases hprefixed : s 1 = 0x30 ∧ s 2 = 0x78
            · rw [unitsAt, hprefixed.1] at hzero
              cases n with
              | zero => exact absurd rfl hzero
              | succ n =>
                  have hdigit : isDigit16 (s 1) = true := by
                    rw [hprefixed.1]
                    decide
                  rw [hspec, unitsAt, unitsAt, hprefixed.1, hprefixed.2, decLiteral_prefixed,
                    scanInteger, if_neg (by omega), decide_eq_true hneg]
                  dsimp only
                  rw [if_pos rfl, hdigit, Bool.not_true, if_neg Bool.false_ne_true,
                    if_pos ⟨by omega, hprefixed⟩]
                  rfl
            · have hscan := scanInteger_dec (decide_eq_true hneg) (if_pos rfl)
                (fun h => hprefixed h.2 : ¬ (1 < 1 + (n + 1) ∧ s 1 = 0x30 ∧ s (1 + 1) = 0x78))
              rw [hspec, ← hscan]
              congr 1
              omega
      · by_cases hprefixed : s 0 = 0x30 ∧ 0 < n ∧ s 1 = 0x78
        · obtain ⟨h0, hpos, h1⟩ := hprefixed
          obtain ⟨m, rfl⟩ : ∃ m, n = m + 1 := ⟨n - 1, by omega⟩
          rw [scanInteger_hex h0 h1, unitsAt, unitsAt, h0, h1]
          rfl
        · have hscan := scanInteger_dec (n := n) (decide_eq_false hneg) (if_neg Bool.false_ne_true)
            (fun h => hprefixed ⟨h.2.1, by omega, h.2.2⟩)
          have hunits : unitsAt s 0 (n + 1) = s 0 :: unitsAt s 1 n := rfl
          rw [Nat.zero_add] at hscan
          rw [hscan, hunits, literalWith_dec narrowDigit hneg]
          rintro ⟨h0, hhead⟩
          cases n with
          | zero => cases hhead
          | succ n => exact hprefixed ⟨h0, by omega, Option.some_inj.mp hhead⟩

/-! ## Literals that are found -/

/-- The units behind white space. -/
def behindSpaces (s : Memory16) (len : ℕ) : List UInt16 := (unitsAt s 0 len).dropWhile isspace16

/-- A sign, or a sign and a zero: the function looks at the unit that follows on them. -/
def LooksBeyond (units : List UInt16) : Prop := units = [0x2d] ∨ units = [0x2d, 0x30]

/-- Units behind `0x` that are no hexadecimal digits, but are a literal of 32 bits when only their
low bytes are looked at. -/
def WideHex (units : List UInt16) : Prop :=
  ∃ rest, units = 0x30 :: 0x78 :: rest ∧ (∃ c ∈ rest, 0x100 ≤ c.toNat)
    ∧ (hexLiteral narrowDigit rest).isSome = true

/-- Literals without wide units do not depend on what is made of those. -/
theorem hexLiteral_narrow (rest : List UInt16) :
    hexLiteral narrowDigit rest = hexLiteral hexDigit16 rest
      ↔ ¬ ((∃ c ∈ rest, 0x100 ≤ c.toNat) ∧ (hexLiteral narrowDigit rest).isSome = true) := by
  by_cases hwide : ∃ c ∈ rest, 0x100 ≤ c.toNat
  · have hnone : hexLiteral hexDigit16 rest = none := by
      obtain ⟨c, hc, hlarge⟩ := hwide
      have hdigits : rest.mapM hexDigit16 = none := by
        rw [← Option.not_isSome_iff_eq_none, Lib.isSome_mapM_iff]
        intro hall
        have hdigit := hall c hc
        rw [hexDigit16, if_neg (by omega)] at hdigit
        cases hdigit
      rw [hexLiteral, hdigits]
      rfl
    rw [hnone]
    simp only [hwide, true_and, Option.not_isSome_iff_eq_none]
  · have hsame : ∀ c ∈ rest, narrowDigit c = hexDigit16 c := fun c hc =>
      (if_pos (by
        by_contra hlarge
        exact hwide ⟨c, hc, by omega⟩)).symm
    have hdigits : rest.mapM narrowDigit = rest.mapM hexDigit16 := by
      clear hwide
      induction rest with
      | nil => rfl
      | cons c rest ih =>
          obtain ⟨hc, hrest⟩ := List.forall_mem_cons.mp hsame
          rw [List.mapM_cons, List.mapM_cons, hc, ih hrest]
    rw [hexLiteral, hexLiteral, hdigits]
    exact iff_of_true rfl fun h => hwide h.1

/-- When the code's digits make no difference. -/
theorem literalWith_narrow (units : List UInt16) :
    literalWith narrowDigit units = literalWith hexDigit16 units ↔ ¬ WideHex units := by
  by_cases hprefixed : ∃ rest, units = 0x30 :: 0x78 :: rest
  · obtain ⟨rest, rfl⟩ := hprefixed
    show hexLiteral narrowDigit rest = hexLiteral hexDigit16 rest ↔ _
    rw [hexLiteral_narrow, not_iff_not]
    constructor
    · exact fun h => ⟨rest, rfl, h⟩
    · rintro ⟨rest', heq, h⟩
      cases heq
      exact h
  · refine iff_of_true ?_ fun ⟨rest, h, _⟩ => hprefixed ⟨rest, h⟩
    rw [literalWith.eq_def, literalWith.eq_def]
    split
    next rest => exact absurd ⟨rest, rfl⟩ hprefixed
    next => rfl
    next => rfl

/-- Units that are the same one by one. -/
theorem unitsAt_congr {s t : Memory16} {i n : ℕ} (h : ∀ k, i ≤ k → k < i + n → t k = s k) :
    unitsAt t i n = unitsAt s i n := by
  induction n generalizing i with
  | zero => rfl
  | succ n ih =>
      rw [unitsAt, unitsAt, h i (Nat.le_refl i) (by omega),
        ih fun k hk hlt => h k (by omega) (by omega)]

/-- The units behind white space, in memory. -/
theorem unitsAt_skipSpaces (s : Memory16) (len : ℕ) :
    unitsAt (fun k => s ((skipSpaces s 0 len).1 + k)) 0 (skipSpaces s 0 len).2
      = behindSpaces s len := by
  rw [unitsAt_add, Nat.add_zero, (skipSpaces_eq s 0 len).1, behindSpaces]

/-- Where the units behind white space are. -/
theorem exists_skipSpaces_eq {s : Memory16} {len : ℕ} {units : List UInt16}
    (h : behindSpaces s len = units) : ∃ i, i + units.length = len
      ∧ skipSpaces s 0 len = (i, units.length) ∧ unitsAt s i units.length = units := by
  have hlength : ∀ i n, (unitsAt s i n).length = n := by
    intro i n
    induction n generalizing i with
    | zero => rfl
    | succ n ih => rw [unitsAt, List.length_cons, ih]
  obtain ⟨hat, hsum⟩ := skipSpaces_eq s 0 len
  rw [← behindSpaces, h] at hat
  have hn : (skipSpaces s 0 len).2 = units.length := by
    have h := congrArg List.length hat
    rwa [hlength] at h
  rw [hn] at hat hsum
  exact ⟨(skipSpaces s 0 len).1, by omega, Prod.ext rfl hn, hat⟩

/-- What the function finds depends on what follows on a sign, or on a sign and a zero. -/
theorem not_parsesExactly_of_looksBeyond {s : Memory16} {len : ℕ}
    (h : LooksBeyond (behindSpaces s len)) : ¬ ParsesExactly s len := by
  intro hexact
  -- a digit behind a sign, and an `x` behind a zero
  have hmemory : ∀ beyond : UInt16, ∃ t : Memory16, unitsAt t 0 len = unitsAt s 0 len
      ∧ t len = beyond := fun beyond =>
    ⟨fun k => if k < len then s k else beyond,
      unitsAt_congr fun k _ hlt => if_pos (by omega), if_neg (Nat.lt_irrefl len)⟩
  have hspec : integerLiteral (unitsAt s 0 len) = literalWith hexDigit16 (behindSpaces s len) := rfl
  rcases h with h | h
  · obtain ⟨t, hunits, hbeyond⟩ := hmemory 0x31
    have hfound := hexact t hunits
    have hbody : behindSpaces t len = [0x2d] := by rw [behindSpaces, hunits, ← behindSpaces, h]
    obtain ⟨i, rfl, hskip, hat⟩ := exists_skipSpaces_eq hbody
    have h0 : t (i + 0) = 0x2d := (List.cons.inj hat).1
    have h1 : t (i + 1) = 0x31 := hbeyond
    rw [hspec, h, u16StringToInt, hskip] at hfound
    have hscan : scanInteger (fun k => t (i + k)) 1 = .ok (some ⟨typeIntDec, 0⟩) := by
      have hdigit : isDigit16 0x31 = true := by decide
      simp only [scanInteger, h0, h1, hdigit, decide_true, if_true, Bool.not_true,
        Bool.false_eq_true, if_false, Nat.lt_irrefl, false_and, one_ne_zero, Nat.sub_self]
      rfl
    exact absurd (hscan.symm.trans hfound) (by decide)
  · obtain ⟨t, hunits, hbeyond⟩ := hmemory 0x78
    have hfound := hexact t hunits
    have hbody : behindSpaces t len = [0x2d, 0x30] := by rw [behindSpaces, hunits, ← behindSpaces, h]
    obtain ⟨i, rfl, hskip, hat⟩ := exists_skipSpaces_eq hbody
    have h0 : t (i + 0) = 0x2d := (List.cons.inj hat).1
    have h1 : t (i + 1) = 0x30 := (List.cons.inj (List.cons.inj hat).2).1
    have h2 : t (i + (1 + 1)) = 0x78 := hbeyond
    rw [hspec, h, u16StringToInt, hskip] at hfound
    have hscan : scanInteger (fun k => t (i + k)) 2 = .ok none := by
      have hdigit : isDigit16 0x30 = true := by decide
      simp only [scanInteger, h0, h1, h2, hdigit, decide_true, if_true, Bool.not_true,
        Bool.false_eq_true, if_false, OfNat.ofNat_ne_zero, Nat.one_lt_two, true_and]
      rfl
    exact absurd (hscan.symm.trans hfound) (by decide)

/-- **When the function finds the value of the units**, whatever follows on them: behind white
space they are neither a sign, nor a sign and a zero, and no unit behind `0x` is taken for the digit
that its low byte is. -/
theorem parsesExactly_iff (s : Memory16) (len : ℕ) :
    ParsesExactly s len ↔ ¬ LooksBeyond (behindSpaces s len) ∧ ¬ WideHex (behindSpaces s len) := by
  have hfound : ∀ t : Memory16, unitsAt t 0 len = unitsAt s 0 len →
      ¬ LooksBeyond (behindSpaces s len) →
      u16StringToInt t len = .ok (literalWith narrowDigit (behindSpaces s len)) := by
    intro t hunits hbeyond
    have hbody := unitsAt_skipSpaces t len
    have hsame : behindSpaces t len = behindSpaces s len := by
      rw [behindSpaces, hunits, ← behindSpaces]
    rw [hsame] at hbody
    rw [LooksBeyond, not_or, ← hbody] at hbeyond
    rw [u16StringToInt, ← hbody]
    exact scanInteger_eq hbeyond.1 hbeyond.2
  constructor
  · intro hexact
    have hbeyond : ¬ LooksBeyond (behindSpaces s len) := fun h =>
      not_parsesExactly_of_looksBeyond h hexact
    have hsame := hexact s rfl
    rw [hfound s rfl hbeyond] at hsame
    exact ⟨hbeyond, (literalWith_narrow _).mp (Except.ok.inj hsame)⟩
  · rintro ⟨hbeyond, hwide⟩ t hunits
    rw [hfound t hunits hbeyond, (literalWith_narrow _).mpr hwide]
    rfl

/-- The unit `0x130` behind `0x` is taken for a zero. -/
theorem not_parsesExactly_wideZero :
    ¬ ParsesExactly (fun i => ([0x30, 0x78, 0x130] : List UInt16).getD i 0) 3 := by
  intro hexact
  have hfound := hexact _ rfl
  revert hfound
  decide

end AndroidSdk.Androidfw
