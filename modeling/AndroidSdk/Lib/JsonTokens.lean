import Mathlib.Data.List.Basic
import Mathlib.Data.List.Induction
import Mathlib.Data.List.Nodup
import Mathlib.Data.List.Perm.Subperm
import Mathlib.Algebra.Order.BigOperators.Group.List
import Mathlib.Tactic.Linarith

/-! # The tokens of JSON texts

Blanks, strings and numbers in a text as a list of characters.

* **`inked`** — the number of characters that are not blanks.
* **`string`** — a string with its escapes; it takes at least its characters
  (`inked_of_stringBody`).
* **`number`** — a number as it is written; integers are read as they are printed
  (`number_toString`), with the fewest characters (`inked_toString_le`). -/

namespace AndroidSdk.Lib

namespace Json

/-! ## Characters -/

/-- Blanks between tokens. -/
def isBlank (c : Char) : Bool := c = ' ' || c = '\n' || c = '\r' || c = '\t'

/-- Skip blanks. -/
def skipBlanks : List Char → List Char
  | [] => []
  | c :: t => if isBlank c then skipBlanks t else c :: t

/-- The number of characters that are not blanks. -/
def inked (t : List Char) : ℕ := t.countP fun c => !isBlank c

section Characters

variable {c : Char} {t u w : List Char}

@[simp] theorem inked_nil : inked [] = 0 := rfl

@[simp] theorem inked_append (t u : List Char) : inked (t ++ u) = inked t + inked u :=
  List.countP_append

/-- A character adds at most one. -/
theorem inked_cons (c : Char) (t : List Char) : inked (c :: t) = (if isBlank c then 0 else 1) + inked t := by
  by_cases hc : isBlank c = true
  · simp [inked, hc]
  · simp [inked, hc, Nat.add_comm]

theorem inked_cons_of_inked (h : isBlank c = false) : inked (c :: t) = inked t + 1 := by
  rw [inked_cons, h, if_neg Bool.false_ne_true, Nat.add_comm]

theorem inked_le_length (t : List Char) : inked t ≤ t.length := List.countP_le_length

@[simp] theorem inked_skipBlanks (t : List Char) : inked (skipBlanks t) = inked t := by
  induction t with
  | nil => rfl
  | cons c t ih =>
      rw [skipBlanks]
      split
      next hc => rw [ih, inked_cons, if_pos hc, Nat.zero_add]
      next hc => rfl

/-- Blanks are skipped. -/
theorem skipBlanks_append (h : ∀ c ∈ w, isBlank c = true) : skipBlanks (w ++ t) = skipBlanks t := by
  induction w with
  | nil => rfl
  | cons c w ih =>
      rw [List.cons_append, skipBlanks, if_pos (h c List.mem_cons_self),
        ih fun c' hc' => h c' (List.mem_cons_of_mem c hc')]

theorem skipBlanks_cons (h : isBlank c = false) : skipBlanks (c :: t) = c :: t := by
  rw [skipBlanks, h, if_neg Bool.false_ne_true]

end Characters

/-! ## Strings -/

/-- The value of a hexadecimal digit. -/
def hexDigit (c : Char) : Option ℕ :=
  if '0' ≤ c ∧ c ≤ '9' then some (c.toNat - 48)
  else if 'a' ≤ c ∧ c ≤ 'f' then some (c.toNat - 87)
  else if 'A' ≤ c ∧ c ≤ 'F' then some (c.toNat - 55)
  else none

/-- Four hexadecimal digits. -/
def hex4 : List Char → Option (ℕ × List Char)
  | a :: b :: c :: d :: t => do
      let a ← hexDigit a
      let b ← hexDigit b
      let c ← hexDigit c
      let d ← hexDigit d
      return (4096 * a + 256 * b + 16 * c + d, t)
  | _ => none

/-- The character that stands for half of a surrogate pair. -/
def replacement : Char := Char.ofNat 0xfffd

/-- The second half of a surrogate pair. -/
def lowSurrogate : List Char → Option (ℕ × List Char)
  | s :: u :: t =>
      if s = '\\' ∧ u = 'u' then (hex4 t).filter fun p => 0xdc00 ≤ p.1 ∧ p.1 < 0xe000 else none
  | _ => none

/-- The character after `\u`: a surrogate pair is one character. -/
def unicodeEscape (t : List Char) : Option (Char × List Char) := do
  let (unit, t) ← hex4 t
  if 0xd800 ≤ unit ∧ unit < 0xdc00 then
    match lowSurrogate t with
    | none => return (replacement, t)
    | some (low, t) => return (Char.ofNat (0x10000 + 1024 * (unit - 0xd800) + (low - 0xdc00)), t)
  else if 0xdc00 ≤ unit ∧ unit < 0xe000 then return (replacement, t)
  else return (Char.ofNat unit, t)

/-- The character after a backslash. -/
def simpleEscape (c : Char) : Option Char :=
  if c = '"' ∨ c = '\\' ∨ c = '/' then some c
  else if c = 'b' then some (Char.ofNat 8)
  else if c = 'f' then some (Char.ofNat 12)
  else if c = 'n' then some '\n'
  else if c = 'r' then some '\r'
  else if c = 't' then some '\t'
  else none

/-- What follows a backslash. -/
def escape : List Char → Option (Char × List Char)
  | [] => none
  | c :: t => if c = 'u' then unicodeEscape t else (simpleEscape c).map fun c => (c, t)

/-- One character of a string. Control characters are not allowed. -/
def stringChar : List Char → Option (Char × List Char)
  | [] => none
  | c :: t =>
      if c = '\\' then escape t
      else if c.toNat < 32 then none
      else some (c, t)

/-- The rest of a string, up to the closing quote. -/
def stringBody : ℕ → List Char → Option (List Char × List Char)
  | 0, _ => none
  | fuel + 1, t =>
      if t.head? = some '"' then some ([], t.tail)
      else do
        let (c, t) ← stringChar t
        let (text, t) ← stringBody fuel t
        return (c :: text, t)

/-- A string after its opening quote. -/
def string (t : List Char) : Option (List Char × List Char) := stringBody t.length t

section Strings

variable {c : Char} {t rest text : List Char}

/-- A hexadecimal digit is not blank. -/
theorem isBlank_of_hexDigit {n : ℕ} (h : hexDigit c = some n) : isBlank c = false := by
  by_contra hblank
  simp only [isBlank, Bool.not_eq_false, Bool.or_eq_true, decide_eq_true_eq] at hblank
  obtain ((rfl | rfl) | rfl) | rfl := hblank <;> simp [hexDigit] at h

/-- Four hexadecimal digits are four characters. -/
theorem inked_of_hex4 {n : ℕ} (h : hex4 t = some (n, rest)) : inked rest + 4 = inked t := by
  match t with
  | a :: b :: c :: d :: t =>
      simp only [hex4, Option.bind_eq_bind, Option.bind_eq_some_iff, Option.pure_def,
        Option.some.injEq, Prod.mk.injEq] at h
      obtain ⟨_, ha, _, hb, _, hc, _, hd, -, rfl⟩ := h
      rw [inked_cons_of_inked (isBlank_of_hexDigit ha), inked_cons_of_inked (isBlank_of_hexDigit hb),
        inked_cons_of_inked (isBlank_of_hexDigit hc), inked_cons_of_inked (isBlank_of_hexDigit hd)]
  | [] | [_] | [_, _] | [_, _, _] => cases h

/-- The second half of a surrogate pair only takes characters away. -/
theorem inked_of_lowSurrogate {n : ℕ} (h : lowSurrogate t = some (n, rest)) :
    inked rest ≤ inked t := by
  match t with
  | s :: u :: t =>
      simp only [lowSurrogate] at h
      split at h
      · have hhex := inked_of_hex4 (Option.filter_eq_some_iff.mp h).1
        rw [inked_cons, inked_cons]
        omega
      · cases h
  | [] | [_] => cases h

/-- An escape is longer than its character. -/
theorem inked_of_unicodeEscape (h : unicodeEscape t = some (c, rest)) :
    inked rest + 1 ≤ inked t := by
  rw [unicodeEscape] at h
  obtain ⟨⟨unit, u⟩, hunit, h⟩ := Option.bind_eq_some_iff.mp h
  have hlen := inked_of_hex4 hunit
  dsimp only at h
  split at h
  · split at h
    · obtain rfl : u = rest := congrArg Prod.snd (Option.some.inj h)
      omega
    next low v hlow =>
      have hlow := inked_of_lowSurrogate hlow
      obtain rfl : v = rest := congrArg Prod.snd (Option.some.inj h)
      omega
  · obtain rfl : u = rest := by
      split at h
      · exact congrArg Prod.snd (Option.some.inj h)
      · exact congrArg Prod.snd (Option.some.inj h)
    omega

/-- An escape takes at least as many characters of the text. -/
theorem inked_of_escape (h : escape t = some (c, rest)) : inked rest ≤ inked t := by
  match t with
  | e :: t =>
      rw [escape] at h
      rw [inked_cons]
      split at h
      · have hescape := inked_of_unicodeEscape h
        omega
      · obtain ⟨c', -, hc⟩ := Option.map_eq_some_iff.mp h
        cases hc
        omega
  | [] => cases h

/-- A character of a string takes at least as many characters of the text. -/
theorem inked_of_stringChar (h : stringChar t = some (c, rest)) :
    inked [c] + inked rest ≤ inked t := by
  match t with
  | a :: t =>
      rw [stringChar] at h
      split at h
      next hslash =>
        have hescape := inked_of_escape h
        have hone : inked [c] ≤ 1 := inked_le_length [c]
        rw [hslash, inked_cons_of_inked (c := '\\') (by decide)]
        omega
      · split at h
        · cases h
        · cases h
          rw [← inked_append, List.singleton_append]
  | [] => cases h

/-- **A string takes at least its characters and the closing quote.** -/
theorem inked_of_stringBody {fuel : ℕ} (h : stringBody fuel t = some (text, rest)) :
    inked text + 1 + inked rest ≤ inked t := by
  induction fuel generalizing t text with
  | zero => cases h
  | succ fuel ih =>
      rw [stringBody] at h
      split at h
      next hquote =>
        cases h
        obtain ⟨t, rfl⟩ := List.head?_eq_some_iff.mp hquote
        rw [inked_cons_of_inked (by decide), inked_nil, List.tail_cons]
        omega
      · obtain ⟨⟨c, u⟩, hc, h⟩ := Option.bind_eq_some_iff.mp h
        obtain ⟨⟨text', v⟩, hbody, h⟩ := Option.bind_eq_some_iff.mp h
        cases h
        have hchar := inked_of_stringChar hc
        have hrest := ih hbody
        rw [← List.singleton_append, inked_append]
        omega

/-- Characters that a string may have as they are. -/
def isPlain (c : Char) : Bool := c ≠ '"' ∧ c ≠ '\\' ∧ 32 ≤ c.toNat

/-- A string of plain characters is read as it is. -/
theorem stringBody_plain {fuel : ℕ} (hplain : ∀ c ∈ text, isPlain c = true)
    (hfuel : text.length < fuel) :
    stringBody fuel (text ++ '"' :: rest) = some (text, rest) := by
  induction text generalizing fuel with
  | nil =>
      obtain ⟨fuel, rfl⟩ : ∃ n, fuel = n + 1 := ⟨fuel - 1, by simp at hfuel; omega⟩
      rfl
  | cons c text ih =>
      obtain ⟨fuel, rfl⟩ : ∃ n, fuel = n + 1 := ⟨fuel - 1, by simp at hfuel; omega⟩
      have hc : c ≠ '"' ∧ c ≠ '\\' ∧ 32 ≤ c.toNat :=
        of_decide_eq_true (hplain c List.mem_cons_self)
      have hchar : stringChar (c :: (text ++ '"' :: rest)) = some (c, text ++ '"' :: rest) := by
        rw [stringChar, if_neg hc.2.1, if_neg (Nat.not_lt.mpr hc.2.2)]
      have hquote : (c :: (text ++ '"' :: rest)).head? ≠ some '"' := fun h => hc.1 (Option.some.inj h)
      rw [List.cons_append, stringBody, if_neg hquote, hchar, Option.bind_eq_bind, Option.bind_some]
      dsimp only
      rw [ih (fun c' hc' => hplain c' (List.mem_cons_of_mem c hc')) (by simpa using hfuel)]
      rfl

end Strings

/-! ## Numbers -/

/-- The sign of a number. -/
def signPart (t : List Char) : List Char × List Char :=
  if t.head? = some '-' then (['-'], t.tail) else ([], t)

/-- One or more digits. -/
def digits (t : List Char) : Option (List Char × List Char) :=
  if t.takeWhile Char.isDigit = [] then none
  else some (t.takeWhile Char.isDigit, t.dropWhile Char.isDigit)

/-- The integer part of a number, which has no leading zeros. -/
def intPart (t : List Char) : Option (List Char × List Char) :=
  if t.head? = some '0' then some (['0'], t.tail) else digits t

/-- The fraction of a number, if there is one. -/
def fractionPart (t : List Char) : Option (List Char × List Char) :=
  if t.head? = some '.' then (digits t.tail).map fun p => ('.' :: p.1, p.2) else some ([], t)

/-- The exponent of a number, if there is one. -/
def exponentPart : List Char → Option (List Char × List Char)
  | [] => some ([], [])
  | e :: t =>
      if e = 'e' ∨ e = 'E' then
        if t.head? = some '+' then (digits t.tail).map fun p => (e :: '+' :: p.1, p.2)
        else (digits (signPart t).2).map fun p => (e :: ((signPart t).1 ++ p.1), p.2)
      else some ([], e :: t)

/-- A number, as it is written. -/
def number (t : List Char) : Option (List Char × List Char) := do
  let (int, u) ← intPart (signPart t).2
  let (fraction, u) ← fractionPart u
  let (exponent, u) ← exponentPart u
  return ((signPart t).1 ++ (int ++ (fraction ++ exponent)), u)

theorem isDigit_of_mem_toDigits {c : Char} {n : ℕ} (h : c ∈ Nat.toDigits 10 n) :
    c.isDigit = true :=
  Nat.isDigit_of_mem_toDigits (by decide) (by decide) h

section Numbers

variable {t literal rest : List Char}

theorem signPart_append (t : List Char) : (signPart t).1 ++ (signPart t).2 = t := by
  rw [signPart]
  split
  next h =>
    obtain ⟨t, rfl⟩ := List.head?_eq_some_iff.mp h
    rfl
  · rfl

theorem digits_append (h : digits t = some (literal, rest)) : literal ++ rest = t := by
  rw [digits] at h
  split at h
  · cases h
  · cases h
    exact List.takeWhile_append_dropWhile

theorem intPart_append (h : intPart t = some (literal, rest)) : literal ++ rest = t := by
  rw [intPart] at h
  split at h
  next hzero =>
    obtain ⟨t, rfl⟩ := List.head?_eq_some_iff.mp hzero
    cases h
    rfl
  · exact digits_append h

theorem fractionPart_append (h : fractionPart t = some (literal, rest)) : literal ++ rest = t := by
  rw [fractionPart] at h
  split at h
  next hpoint =>
    obtain ⟨t, rfl⟩ := List.head?_eq_some_iff.mp hpoint
    obtain ⟨⟨ds, u⟩, hdigits, h⟩ := Option.map_eq_some_iff.mp h
    cases h
    rw [List.cons_append, digits_append hdigits, List.tail_cons]
  · cases h
    rfl

theorem exponentPart_append (h : exponentPart t = some (literal, rest)) : literal ++ rest = t := by
  match t with
  | [] =>
      cases h
      rfl
  | e :: t =>
      rw [exponentPart] at h
      split at h
      · split at h
        next hplus =>
          obtain ⟨t, rfl⟩ := List.head?_eq_some_iff.mp hplus
          obtain ⟨⟨ds, u⟩, hdigits, h⟩ := Option.map_eq_some_iff.mp h
          cases h
          rw [List.cons_append, List.cons_append, digits_append hdigits, List.tail_cons]
        · obtain ⟨⟨ds, u⟩, hdigits, h⟩ := Option.map_eq_some_iff.mp h
          cases h
          rw [List.cons_append, List.append_assoc, digits_append hdigits, signPart_append]
      · cases h
        rfl

/-- A number is the start of its text. -/
theorem number_append (h : number t = some (literal, rest)) : literal ++ rest = t := by
  rw [number] at h
  obtain ⟨⟨int, t₁⟩, hint, h⟩ := Option.bind_eq_some_iff.mp h
  obtain ⟨⟨fraction, t₂⟩, hfraction, h⟩ := Option.bind_eq_some_iff.mp h
  obtain ⟨⟨exponent, t₃⟩, hexponent, h⟩ := Option.bind_eq_some_iff.mp h
  cases h
  rw [List.append_assoc, List.append_assoc, List.append_assoc, exponentPart_append hexponent,
    fractionPart_append hfraction, intPart_append hint, signPart_append]

/-- What may follow a number. -/
def Stops (rest : List Char) : Prop :=
  ∀ c, rest.head? = some c → c.isDigit = false ∧ c ≠ '.' ∧ c ≠ 'e' ∧ c ≠ 'E'

/-- Digits up to a character that stops a number. -/
theorem digits_of_stops {ds : List Char} (hne : ds ≠ []) (hds : ∀ c ∈ ds, c.isDigit = true)
    (hstops : Stops rest) : digits (ds ++ rest) = some (ds, rest) := by
  have htake : (ds ++ rest).takeWhile Char.isDigit = ds := by
    rw [List.takeWhile_append_of_pos hds]
    match rest with
    | [] => rw [List.takeWhile_nil, List.append_nil]
    | c :: rest => rw [List.takeWhile_cons, (hstops c rfl).1, if_neg Bool.false_ne_true, List.append_nil]
  have hdrop : (ds ++ rest).dropWhile Char.isDigit = rest := by
    rw [List.dropWhile_append_of_pos hds]
    match rest with
    | [] => rfl
    | c :: rest => rw [List.dropWhile_cons, (hstops c rfl).1, if_neg Bool.false_ne_true]
  rw [digits, htake, hdrop, if_neg hne]

/-- Nothing follows the integer part. -/
theorem exponentPart_of_stops (hstops : Stops rest) : exponentPart rest = some ([], rest) := by
  match rest with
  | [] => rfl
  | c :: rest => rw [exponentPart, if_neg fun h => h.elim (hstops c rfl).2.2.1 (hstops c rfl).2.2.2]

theorem fractionPart_of_stops (hstops : Stops rest) : fractionPart rest = some ([], rest) := by
  rw [fractionPart, if_neg fun h => (hstops '.' h).2.1 rfl]

/-- The only number that starts with a zero is zero. -/
theorem eq_zero_of_head?_toDigits {n : ℕ} (h : (Nat.toDigits 10 n).head? = some '0') : n = 0 := by
  induction n using Nat.strongRecOn with
  | ind n ih =>
      rw [Nat.toDigits_eq_if (by decide)] at h
      split at h
      next hlt =>
        have hchar : n.digitChar = '0' := by simpa using h
        have hnat := Nat.toNat_digitChar_sub_48_of_lt_ten hlt
        rw [hchar] at hnat
        exact hnat.symm
      next hge =>
        rw [List.head?_append_of_ne_nil _ Nat.toDigits_ne_nil] at h
        have hdiv := ih (n / 10) (by omega) h
        omega

/-- A natural number is read as it is printed. -/
theorem intPart_toDigits (n : ℕ) (hstops : Stops rest) :
    intPart (Nat.toDigits 10 n ++ rest) = some (Nat.toDigits 10 n, rest) := by
  rw [intPart]
  split
  next hzero =>
    rw [List.head?_append_of_ne_nil _ Nat.toDigits_ne_nil] at hzero
    obtain rfl := eq_zero_of_head?_toDigits hzero
    rfl
  · exact digits_of_stops Nat.toDigits_ne_nil (fun c hc => isDigit_of_mem_toDigits hc) hstops

theorem toList_toString_ofNat (m : ℕ) : (toString (Int.ofNat m)).toList = Nat.toDigits 10 m := by
  simp [Int.toString_eq_repr, Int.repr]

theorem toList_toString_negSucc (m : ℕ) :
    (toString (Int.negSucc m)).toList = '-' :: Nat.toDigits 10 (m + 1) := by
  simp [Int.toString_eq_repr, Int.repr]

/-- A number without fraction and exponent. -/
theorem number_of_intPart {sign int u : List Char} (hsign : signPart t = (sign, u))
    (hint : intPart u = some (int, rest)) (hstops : Stops rest) :
    number t = some (sign ++ int, rest) := by
  simp [number, hsign, hint, fractionPart_of_stops hstops, exponentPart_of_stops hstops]

/-- **An integer is read as it is printed.** -/
theorem number_toString (n : ℤ) (hstops : Stops rest) :
    number ((toString n).toList ++ rest) = some ((toString n).toList, rest) := by
  cases n with
  | ofNat m =>
      have hdigit : (Nat.toDigits 10 m ++ rest).head? ≠ some '-' := by
        rw [List.head?_append_of_ne_nil _ Nat.toDigits_ne_nil]
        intro h
        exact absurd (isDigit_of_mem_toDigits (List.mem_of_mem_head? h)) (by decide)
      rw [toList_toString_ofNat]
      exact number_of_intPart (if_neg hdigit) (intPart_toDigits m hstops) hstops
  | negSucc m =>
      rw [toList_toString_negSucc, List.cons_append]
      exact number_of_intPart rfl (intPart_toDigits (m + 1) hstops) hstops

/-- The integer that a number is written for, if it has neither fraction nor exponent. -/
def toInt (literal : List Char) : Option ℤ :=
  if (signPart literal).2 ≠ [] ∧ (signPart literal).2.all Char.isDigit then
    if (signPart literal).1 = [] then some (Nat.ofDigitChars 10 (signPart literal).2 0)
    else some (-Nat.ofDigitChars 10 (signPart literal).2 0)
  else none

/-- What an integer is printed as is read back. -/
theorem toInt_toString (n : ℤ) : toInt (toString n).toList = some n := by
  have hall (m : ℕ) : Nat.toDigits 10 m ≠ [] ∧ (Nat.toDigits 10 m).all Char.isDigit = true :=
    ⟨Nat.toDigits_ne_nil, List.all_eq_true.mpr fun c hc => isDigit_of_mem_toDigits hc⟩
  cases n with
  | ofNat m =>
      have hdigit : (Nat.toDigits 10 m).head? ≠ some '-' := fun h =>
        absurd (isDigit_of_mem_toDigits (List.mem_of_mem_head? h)) (by decide)
      have hsign : signPart (Nat.toDigits 10 m) = ([], Nat.toDigits 10 m) := if_neg hdigit
      rw [toList_toString_ofNat, toInt, hsign, if_pos (hall m), if_pos rfl,
        Nat.ofDigitChars_ten_toDigits]
      rfl
  | negSucc m =>
      have hsign : signPart ('-' :: Nat.toDigits 10 (m + 1)) = (['-'], Nat.toDigits 10 (m + 1)) := rfl
      rw [toList_toString_negSucc, toInt, hsign, if_pos (hall (m + 1)),
        if_neg (List.cons_ne_nil _ _), Nat.ofDigitChars_ten_toDigits]
      rfl

/-- Digits are not blank. -/
theorem inked_of_digits {ds : List Char} (h : ∀ c ∈ ds, c.isDigit = true) :
    inked ds = ds.length := by
  refine List.countP_eq_length.mpr fun c hc => ?_
  by_contra hblank
  simp only [isBlank, Bool.not_eq_true', Bool.not_eq_false, Bool.or_eq_true, decide_eq_true_eq]
    at hblank
  have hdigit := h c hc
  obtain ((rfl | rfl) | rfl) | rfl := hblank <;> exact absurd hdigit (by decide)

/-- A number has no more digits than it is written with. -/
theorem ofDigitChars_lt {ds : List Char} (h : ∀ c ∈ ds, c.isDigit = true) :
    Nat.ofDigitChars 10 ds 0 < 10 ^ ds.length := by
  induction ds using List.reverseRecOn with
  | nil => simp
  | append_singleton ds c ih =>
      have hlt := ih fun c' hc' => h c' (List.mem_append_left _ hc')
      have hc : c.toNat ≤ 57 := by
        have := h c (by simp)
        simp only [Char.isDigit, Bool.and_eq_true, decide_eq_true_eq] at this
        exact this.2
      have hzero : '0'.toNat = 48 := rfl
      rw [Nat.ofDigitChars_append, Nat.ofDigitChars_cons, Nat.ofDigitChars_nil, List.length_append,
        List.length_singleton, Nat.pow_succ, hzero]
      omega

/-- **An integer is printed with the fewest characters.** -/
theorem inked_toString_le {n : ℤ} (h : toInt literal = some n) :
    inked (toString n).toList ≤ inked literal := by
  rw [toInt] at h
  split at h
  next hdigits =>
    obtain ⟨hne, hall⟩ := hdigits
    rw [List.all_eq_true] at hall
    have hliteral : inked literal = inked (signPart literal).1 + (signPart literal).2.length := by
      rw [← inked_of_digits hall, ← inked_append, signPart_append]
    have hprinted : inked (Nat.toDigits 10 (Nat.ofDigitChars 10 (signPart literal).2 0))
        ≤ (signPart literal).2.length := by
      rw [inked_of_digits fun c hc => isDigit_of_mem_toDigits hc]
      exact (Nat.length_toDigits_le_iff (by decide) (List.length_pos_of_ne_nil hne)).mpr
        (ofDigitChars_lt hall)
    generalize Nat.ofDigitChars 10 (signPart literal).2 0 = m at h hprinted
    split at h
    · cases h
      have hof : (toString (m : ℤ)).toList = Nat.toDigits 10 m := toList_toString_ofNat m
      rw [hof]
      omega
    next hsign =>
      cases h
      have hone : inked (signPart literal).1 = 1 := by
        rw [signPart] at hsign ⊢
        split at hsign
        next hminus => rw [if_pos hminus]; rfl
        · exact absurd rfl hsign
      cases m with
      | zero =>
          have hzero : inked (toString (-((0 : ℕ) : ℤ))).toList = 1 := by decide
          rw [hzero]
          omega
      | succ m =>
          have hneg : (toString (-((m + 1 : ℕ) : ℤ))).toList = '-' :: Nat.toDigits 10 (m + 1) :=
            toList_toString_negSucc m
          rw [hneg, inked_cons_of_inked (by decide)]
          omega
  · cases h

end Numbers

end Json

end AndroidSdk.Lib
