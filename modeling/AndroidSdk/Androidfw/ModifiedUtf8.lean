import AndroidSdk.Androidfw.Unicode

/-! # Modified UTF-8

Java's form of UTF-8 has no sequences of four bytes, and string pools hold it: a supplementary
character is a pair of surrogates there, each in three bytes (`libs/androidfw/Util.cpp`).

* **`utf8ToModifiedUtf8`**, **`modifiedUtf8ToUtf8`** — the two conversions.
* **`utf8ToModifiedUtf8_encoded`**, **`modifiedUtf8ToUtf8_modified`** — what they do to the
  characters of a text.
* **`roundTrips_iff`** — which texts come back. -/

namespace AndroidSdk.Androidfw

open Lib

/-! ## Conversions -/

/-- The loop that calculates the size; `skip` bytes belong to the last code point. -/
def modifiedSize : ℕ → List UInt8 → ℕ
  | _, [] => 0
  | skip + 1, _ :: rest => modifiedSize skip rest
  | 0, b :: rest => if b >>> 4 = 0xf then 6 + modifiedSize 3 rest else 1 + modifiedSize 0 rest

/-- A surrogate in three bytes. -/
def surrogateBytes (surrogate : BitVec 32) : List UInt8 :=
  [⟨(0xe4 ||| (surrogate.sshiftRight 12 &&& 0xf)).setWidth 8⟩,
    ⟨(0x80 ||| (surrogate.sshiftRight 6 &&& 0x3f)).setWidth 8⟩,
    ⟨(0x80 ||| (surrogate &&& 0x3f)).setWidth 8⟩]

/-- Both surrogates of a code point, as UTF-16 has them. -/
def surrogatePairBytes (codepoint : BitVec 32) : List UInt8 :=
  let high := (codepoint - 0x10000).sdiv 0x400 + 0xd800
  let low := (codepoint - 0x10000).srem 0x400 + 0xdc00
  surrogateBytes high ++ surrogateBytes low

/-- The loop that writes the output. -/
def modifiedBytes : ℕ → List UInt8 → Option (List UInt8)
  | _, [] => some []
  | skip + 1, _ :: rest => modifiedBytes skip rest
  | 0, b :: rest =>
      if b >>> 4 = 0xf then do
        let (codepoint, _) ← utf32FromUtf8At (b :: rest)
        let output ← modifiedBytes 3 rest
        return surrogatePairBytes codepoint ++ output
      else (modifiedBytes 0 rest).map (b :: ·)

/-- `Utf8ToModifiedUtf8`: nothing if it reads past the end of the string. -/
def utf8ToModifiedUtf8 (utf8 : List UInt8) : Option (List UInt8) :=
  if utf8.length = modifiedSize 0 utf8 then some utf8 else modifiedBytes 0 utf8

/-- The code point of two surrogates. -/
def surrogatesCodepoint (highSurrogate lowSurrogate : BitVec 32) : BitVec 32 :=
  (highSurrogate - 0xd800) * 0x400 + (lowSurrogate - 0xdc00) + 0x10000

/-- The loop of `ModifiedUtf8ToUtf8`; `skip` bytes belong to the last code point. -/
def modifiedUtf8Loop : ℕ → List UInt8 → List UInt8 → Option (List UInt8)
  | _, output, [] => some output
  | skip + 1, output, _ :: rest => modifiedUtf8Loop skip output rest
  | 0, output, b :: rest => do
      let (highSurrogate, n) ← utf32FromUtf8At (b :: rest)
      if highSurrogate.slt 0 then return []
      else if 0xd800 ≤ highSurrogate.toNat ∧ highSurrogate.toNat ≤ 0xdb7f then
        let (lowSurrogate, n') ← utf32FromUtf8At ((b :: rest).drop n)
        if lowSurrogate.slt 0 then return []
        else if 0xdc00 ≤ lowSurrogate.toNat ∧ lowSurrogate.toNat ≤ 0xdfff then
          let codepoint := surrogatesCodepoint highSurrogate lowSurrogate
          if utf32CodepointUtf8Length codepoint ≠ 4 then return []
          else modifiedUtf8Loop (n + n' - 1) (output ++ utf32ToUtf8 codepoint) rest
        else modifiedUtf8Loop (n + n' - 1) (output ++ (b :: rest).take (n + n')) rest
      else modifiedUtf8Loop (n - 1) (output ++ (b :: rest).take n) rest

/-- `ModifiedUtf8ToUtf8`: nothing if it reads past the end of the string. -/
def modifiedUtf8ToUtf8 (modifiedUtf8 : List UInt8) : Option (List UInt8) :=
  modifiedUtf8Loop 0 [] modifiedUtf8

/-! ## Surrogates in bytes -/

/-- The bytes of a surrogate. -/
theorem surrogateBytes_eq {n : ℕ} (h : 0xd800 ≤ n) (h' : n ≤ 0xdfff) :
    surrogateBytes (.ofNat 32 n)
      = [0xed, .ofNat (n / 64 % 64 + 0x80), .ofNat (n % 64 + 0x80)] := by
  have hcode : (BitVec.ofNat 32 n).toNat = n := by
    rw [BitVec.toNat_ofNat]
    omega
  have hmsb : (BitVec.ofNat 32 n).msb = false := by
    rw [BitVec.msb_eq_false_iff_two_mul_lt, hcode]
    omega
  have hfirst : BitVec.ofNat 32 n >>> 12 = 0xd := by
    apply BitVec.eq_of_toNat_eq
    rw [BitVec.toNat_ushiftRight, hcode, Nat.shiftRight_eq_div_pow]
    show n / 2 ^ 12 = 0xd
    omega
  have hmiddle : (BitVec.ofNat 32 n >>> 6).toNat = n / 64 := by
    rw [BitVec.toNat_ushiftRight, hcode, Nat.shiftRight_eq_div_pow]
  have hlow : ∀ x : BitVec 32, (⟨(0x80 ||| (x &&& 0x3f)).setWidth 8⟩ : UInt8)
      = .ofNat (x.toNat % 64 + 0x80) := by
    intro x
    have hmark := or_mark (x.setWidth 8) (by decide : (0x3f : BitVec 8).toNat = 2 ^ 6 - 1)
      (by decide : (0x80 : BitVec 8) &&& 0x3f = 0)
    have hmod : x.toNat % 2 ^ 8 % 2 ^ 6 = x.toNat % 64 := by omega
    rw [BitVec.toNat_setWidth, hmod] at hmark
    apply UInt8.eq_of_toBitVec_eq
    rw [BitVec.setWidth_or, BitVec.setWidth_and]
    exact hmark
  rw [surrogateBytes, BitVec.sshiftRight_eq_of_msb_false hmsb,
    BitVec.sshiftRight_eq_of_msb_false hmsb, hfirst, hlow, hlow, hmiddle, hcode]
  rfl

/-- **A surrogate is read** from its bytes. -/
theorem utf32At_surrogateBytes {n : ℕ} (h : 0xd800 ≤ n) (h' : n ≤ 0xdfff) (rest : List UInt8) :
    utf32At (surrogateBytes (.ofNat 32 n) ++ rest) = some (.ofNat 32 n, 3) := by
  have hbyte : ∀ m : ℕ, m < 256 → (UInt8.ofNat m).toNat = m := fun m hm => by
    rw [UInt8.toNat_ofNat', Nat.mod_eq_of_lt hm]
  rw [surrogateBytes_eq h h', List.cons_append, List.cons_append, List.singleton_append,
    utf32At_three (by decide) (by decide), hbyte _ (by omega), hbyte _ (by omega)]
  have hcode : (0xed : UInt8).toNat % 16 * 4096 + (n / 64 % 64 + 0x80) % 64 * 64
      + (n % 64 + 0x80) % 64 = n := by
    show 237 % 16 * 4096 + (n / 64 % 64 + 0x80) % 64 * 64 + (n % 64 + 0x80) % 64 = n
    omega
  rw [hcode]

/-- A surrogate has bytes. -/
theorem surrogateBytes_ne_nil (surrogate : BitVec 32) : surrogateBytes surrogate ≠ [] :=
  List.cons_ne_nil _ _

/-- The high surrogate of a character, and the low one. -/
def highSurrogate (c : Char) : ℕ := (c.toNat - 0x10000) / 0x400 + 0xd800

@[inherit_doc highSurrogate]
def lowSurrogate (c : Char) : ℕ := (c.toNat - 0x10000) % 0x400 + 0xdc00

/-- What a character is in modified UTF-8. -/
def modifiedChar (c : Char) : List UInt8 :=
  if c.toNat < 0x10000 then String.utf8EncodeChar c
  else surrogateBytes (.ofNat 32 (highSurrogate c)) ++ surrogateBytes (.ofNat 32 (lowSurrogate c))

/-- The largest code point. -/
theorem toNat_le_max (c : Char) : c.toNat ≤ 0x10ffff := by
  rcases utf8EncodeChar_cases c with ⟨b, -, h, -⟩ | ⟨b, b2, -, -, h, -⟩ | ⟨b, b2, b3, -, -, h, -⟩
    | ⟨b, b2, b3, b4, -, -, h, -⟩
  all_goals omega

/-- The surrogates of a supplementary character. -/
theorem surrogatePairBytes_char {c : Char} (h : 0x10000 ≤ c.toNat) :
    surrogatePairBytes (.ofNat 32 c.toNat) = modifiedChar c := by
  have hmax := toNat_le_max c
  obtain ⟨d, hd⟩ : ∃ d, c.toNat = d + 0x10000 := ⟨c.toNat - 0x10000, by omega⟩
  have hsub : (BitVec.ofNat 32 c.toNat) - 0x10000 = BitVec.ofNat 32 d := by
    rw [hd]
    apply BitVec.eq_of_toNat_eq
    rw [BitVec.toNat_sub, BitVec.toNat_ofNat, BitVec.toNat_ofNat]
    show (2 ^ 32 - 0x10000 + (d + 0x10000) % 2 ^ 32) % 2 ^ 32 = d % 2 ^ 32
    omega
  have hmsb : (BitVec.ofNat 32 d).msb = false := by
    rw [BitVec.msb_eq_false_iff_two_mul_lt, BitVec.toNat_ofNat]
    omega
  have hdiv : (BitVec.ofNat 32 d).sdiv 0x400 + 0xd800 = .ofNat 32 (highSurrogate c) := by
    rw [BitVec.sdiv_eq, hmsb]
    apply BitVec.eq_of_toNat_eq
    rw [BitVec.toNat_add]
    show ((BitVec.ofNat 32 d / 0x400).toNat + 0xd800) % 2 ^ 32 = _
    rw [BitVec.toNat_udiv, BitVec.toNat_ofNat, BitVec.toNat_ofNat, highSurrogate, hd]
    show (d % 2 ^ 32 / 0x400 + 0xd800) % 2 ^ 32 = _
    omega
  have hrem : (BitVec.ofNat 32 d).srem 0x400 + 0xdc00 = .ofNat 32 (lowSurrogate c) := by
    rw [BitVec.srem_eq, hmsb]
    apply BitVec.eq_of_toNat_eq
    rw [BitVec.toNat_add]
    show ((BitVec.ofNat 32 d % 0x400).toNat + 0xdc00) % 2 ^ 32 = _
    rw [BitVec.toNat_umod, BitVec.toNat_ofNat, BitVec.toNat_ofNat, lowSurrogate, hd]
    show (d % 2 ^ 32 % 0x400 + 0xdc00) % 2 ^ 32 = _
    omega
  rw [surrogatePairBytes, hsub, hdiv, hrem, modifiedChar, if_neg (by omega)]

/-! ## Encoding a text -/

/-- The test for the first of four bytes. -/
theorem shiftRight_eq_iff (b : UInt8) : b >>> 4 = 0xf ↔ 0xf0 ≤ b.toNat := by
  have hlt := b.toNat_lt
  rw [← UInt8.toNat_inj, UInt8.toNat_shiftRight]
  show b.toNat >>> 4 = 15 ↔ _
  rw [Nat.shiftRight_eq_div_pow]
  omega

/-- The bytes that are skipped. -/
theorem modifiedSize_append {l : List UInt8} {skip : ℕ} (h : l.length = skip) (rest : List UInt8) :
    modifiedSize skip (l ++ rest) = modifiedSize 0 rest := by
  induction l generalizing skip with
  | nil =>
      subst h
      rfl
  | cons b l ih =>
      subst h
      exact ih rfl

@[inherit_doc modifiedSize_append]
theorem modifiedBytes_append {l : List UInt8} {skip : ℕ} (h : l.length = skip)
    (rest : List UInt8) : modifiedBytes skip (l ++ rest) = modifiedBytes 0 rest := by
  induction l generalizing skip with
  | nil =>
      subst h
      rfl
  | cons b l ih =>
      subst h
      exact ih rfl

/-- Bytes of shorter code points are counted and copied. -/
theorem modified_append_of_lt {l : List UInt8} (h : ∀ b ∈ l, b.toNat < 0xf0) (rest : List UInt8) :
    modifiedSize 0 (l ++ rest) = l.length + modifiedSize 0 rest
      ∧ modifiedBytes 0 (l ++ rest) = (modifiedBytes 0 rest).map (l ++ ·) := by
  induction l with
  | nil => exact ⟨(Nat.zero_add _).symm, by cases h : modifiedBytes 0 rest <;> simp [h]⟩
  | cons b l ih =>
      obtain ⟨hb, hl⟩ := List.forall_mem_cons.mp h
      obtain ⟨hsize, hbytes⟩ := ih hl
      have hshort : ¬ b >>> 4 = 0xf := by
        rw [shiftRight_eq_iff]
        omega
      rw [List.cons_append, modifiedSize, if_neg hshort, modifiedBytes, if_neg hshort, hsize,
        hbytes, Option.map_map, List.length_cons]
      exact ⟨by omega, rfl⟩

/-- The bytes of a character of the first plane start no sequence of four. -/
theorem lt_of_mem_utf8EncodeChar {c : Char} (hc : c.toNat < 0x10000) {b : UInt8}
    (hb : b ∈ String.utf8EncodeChar c) : b.toNat < 0xf0 := by
  rcases utf8EncodeChar_cases c with ⟨b1, heq, hlt, h1⟩ | ⟨b1, b2, heq, -, hlt, h1, h2⟩
    | ⟨b1, b2, b3, heq, -, hlt, h1, h2, h3⟩ | ⟨b1, b2, b3, b4, heq, hge, -⟩
  · rw [heq, List.mem_singleton] at hb
    rw [hb]
    omega
  · rw [heq, List.mem_cons, List.mem_singleton] at hb
    rcases hb with rfl | rfl
    all_goals omega
  · rw [heq, List.mem_cons, List.mem_cons, List.mem_singleton] at hb
    rcases hb with rfl | rfl | rfl
    all_goals omega
  · omega

/-- **One character is encoded.** -/
theorem modified_char_append (c : Char) (rest : List UInt8) :
    modifiedSize 0 (String.utf8EncodeChar c ++ rest)
        = (modifiedChar c).length + modifiedSize 0 rest
      ∧ modifiedBytes 0 (String.utf8EncodeChar c ++ rest)
        = (modifiedBytes 0 rest).map (modifiedChar c ++ ·) := by
  by_cases hc : c.toNat < 0x10000
  · rw [modifiedChar, if_pos hc]
    exact modified_append_of_lt (fun b hb => lt_of_mem_utf8EncodeChar hc hb) rest
  · have hread := utf32At_char c rest
    have hpair := surrogatePairBytes_char (Nat.le_of_not_lt hc)
    rcases utf8EncodeChar_cases c with ⟨b1, -, hlt, -⟩ | ⟨b1, b2, -, -, hlt, -⟩
      | ⟨b1, b2, b3, -, -, hlt, -⟩ | ⟨b1, b2, b3, b4, heq, -, -, h1, -⟩
    · omega
    · omega
    · omega
    · have hlong : b1 >>> 4 = 0xf := by
        rw [shiftRight_eq_iff]
        omega
      rw [heq, List.cons_append] at hread ⊢
      have hskip : ([b2, b3, b4] : List UInt8).length = 3 := rfl
      rw [modifiedSize, if_pos hlong, modifiedSize_append hskip, modifiedBytes, if_pos hlong,
        modifiedBytes_append hskip, utf32FromUtf8At, hread, ← hpair]
      refine ⟨rfl, ?_⟩
      cases modifiedBytes 0 rest with
      | none => rfl
      | some output => rfl

/-- The form of a text in modified UTF-8 is not shorter, and is as long only if it is the same. -/
theorem length_modified (chars : List Char) :
    (encoded chars).length ≤ (chars.flatMap modifiedChar).length
      ∧ ((encoded chars).length = (chars.flatMap modifiedChar).length →
        chars.flatMap modifiedChar = encoded chars) := by
  induction chars with
  | nil => exact ⟨Nat.le_refl 0, fun _ => rfl⟩
  | cons c chars ih =>
      obtain ⟨hle, heq⟩ := ih
      rw [encoded_cons, List.flatMap_cons, List.length_append, List.length_append]
      by_cases hc : c.toNat < 0x10000
      · have hsame : modifiedChar c = String.utf8EncodeChar c := if_pos hc
        rw [hsame]
        refine ⟨by omega, fun h => ?_⟩
        rw [heq (by omega)]
      · have hlong : (modifiedChar c).length = 6 := by
          rw [modifiedChar, if_neg hc]
          rfl
        have hshort : (String.utf8EncodeChar c).length ≤ 4 := by
          rw [String.length_utf8EncodeChar]
          exact c.utf8Size_le_four
        exact ⟨by omega, fun h => by omega⟩

/-- **What a text is in modified UTF-8.** -/
theorem utf8ToModifiedUtf8_encoded (chars : List Char) :
    utf8ToModifiedUtf8 (encoded chars) = some (chars.flatMap modifiedChar) := by
  have hloops : modifiedSize 0 (encoded chars) = (chars.flatMap modifiedChar).length
      ∧ modifiedBytes 0 (encoded chars) = some (chars.flatMap modifiedChar) := by
    induction chars with
    | nil => exact ⟨rfl, rfl⟩
    | cons c chars ih =>
        obtain ⟨hsize, hbytes⟩ := modified_char_append c (encoded chars)
        rw [encoded_cons, hsize, hbytes, ih.1, ih.2, List.flatMap_cons, List.length_append]
        exact ⟨rfl, rfl⟩
  rw [utf8ToModifiedUtf8, hloops.1, hloops.2]
  split_ifs with hlength
  · rw [(length_modified chars).2 hlength]
  · rfl

/-! ## Decoding a text -/

/-- The bytes that are skipped. -/
theorem modifiedUtf8Loop_skip {l : List UInt8} {skip : ℕ} (h : l.length = skip)
    (output rest : List UInt8) :
    modifiedUtf8Loop skip output (l ++ rest) = modifiedUtf8Loop 0 output rest := by
  induction l generalizing skip with
  | nil =>
      subst h
      rfl
  | cons b l ih =>
      subst h
      exact ih rfl

/-- A code point that is no high surrogate in the range is copied. -/
theorem modifiedUtf8Loop_copy {first rest : List UInt8} {code : BitVec 32} (hne : first ≠ [])
    (hread : utf32At (first ++ rest) = some (code, first.length)) (hpos : code.toNat < 0x80000000)
    (hrange : ¬ (0xd800 ≤ code.toNat ∧ code.toNat ≤ 0xdb7f)) (output : List UInt8) :
    modifiedUtf8Loop 0 output (first ++ rest) = modifiedUtf8Loop 0 (output ++ first) rest := by
  have hslt : code.slt 0 = false := by
    change code.slt 0#32 = false
    rw [BitVec.slt_zero_eq_msb, BitVec.msb_eq_false_iff_two_mul_lt]
    omega
  obtain ⟨b, l, rfl⟩ := List.exists_cons_of_ne_nil hne
  rw [List.cons_append] at hread ⊢
  rw [modifiedUtf8Loop, utf32FromUtf8At, hread]
  show (if code.slt 0 then _ else _) = _
  rw [hslt, if_neg Bool.false_ne_true, if_neg hrange, ← List.cons_append, List.take_left]
  exact modifiedUtf8Loop_skip rfl (output ++ b :: l) rest

/-- A high surrogate in the range is put together with a low one. -/
theorem modifiedUtf8Loop_pair {first second rest : List UInt8} {high low : BitVec 32}
    (hne : first ≠ []) (hne' : second ≠ [])
    (hhigh : utf32At (first ++ (second ++ rest)) = some (high, first.length))
    (hlow : utf32At (second ++ rest) = some (low, second.length))
    (hrange : 0xd800 ≤ high.toNat ∧ high.toNat ≤ 0xdb7f)
    (hrange' : 0xdc00 ≤ low.toNat ∧ low.toNat ≤ 0xdfff)
    (hlength : utf32CodepointUtf8Length (surrogatesCodepoint high low) = 4) (output : List UInt8) :
    modifiedUtf8Loop 0 output (first ++ (second ++ rest))
      = modifiedUtf8Loop 0 (output ++ utf32ToUtf8 (surrogatesCodepoint high low)) rest := by
  have hslt : high.slt 0 = false ∧ low.slt 0 = false := by
    change high.slt 0#32 = false ∧ low.slt 0#32 = false
    rw [BitVec.slt_zero_eq_msb, BitVec.slt_zero_eq_msb, BitVec.msb_eq_false_iff_two_mul_lt,
      BitVec.msb_eq_false_iff_two_mul_lt]
    omega
  obtain ⟨b, l, rfl⟩ := List.exists_cons_of_ne_nil hne
  obtain ⟨b', l', rfl⟩ := List.exists_cons_of_ne_nil hne'
  rw [List.cons_append] at hhigh ⊢
  rw [modifiedUtf8Loop, utf32FromUtf8At, hhigh]
  show (if high.slt 0 then _ else _) = _
  rw [hslt.1, if_neg Bool.false_ne_true, if_pos hrange, ← List.cons_append, List.drop_left]
  rw [List.cons_append] at hlow ⊢
  rw [utf32FromUtf8At, hlow]
  show (if low.slt 0 then _ else _) = _
  rw [hslt.2, if_neg Bool.false_ne_true, if_pos hrange', if_neg (not_not.mpr hlength),
    ← List.cons_append, ← List.append_assoc]
  refine modifiedUtf8Loop_skip ?_ _ rest
  rw [List.length_append, List.length_cons, List.length_cons]
  omega

/-- What comes back for a character: the high surrogates of the last two planes are not in the
range. -/
def restoredChar (c : Char) : List UInt8 :=
  if c.toNat < 0xf0000 then String.utf8EncodeChar c else modifiedChar c

/-- **One character is decoded.** -/
theorem modifiedUtf8Loop_modifiedChar (c : Char) (output rest : List UInt8) :
    modifiedUtf8Loop 0 output (modifiedChar c ++ rest)
      = modifiedUtf8Loop 0 (output ++ restoredChar c) rest := by
  have hmax := toNat_le_max c
  have hcode : ∀ n : ℕ, n < 2 ^ 32 → (BitVec.ofNat 32 n).toNat = n := fun n hn => by
    rw [BitVec.toNat_ofNat, Nat.mod_eq_of_lt hn]
  by_cases hc : c.toNat < 0x10000
  · have hvalid : ¬ (0xd800 ≤ c.toNat ∧ c.toNat ≤ 0xdb7f) := by
      have h := c.valid
      change ¬ (0xd800 ≤ c.val.toNat ∧ c.val.toNat ≤ 0xdb7f)
      rcases h with h | h
      all_goals omega
    rw [restoredChar, if_pos (by omega), modifiedChar, if_pos hc]
    refine modifiedUtf8Loop_copy ?_ (utf32At_char c rest) ?_ ?_ output
    · rw [← List.length_pos_iff, String.length_utf8EncodeChar]
      exact c.utf8Size_pos
    · rw [hcode _ (by omega)]
      omega
    · rw [hcode _ (by omega)]
      exact hvalid
  · have hhigh : 0xd800 ≤ highSurrogate c ∧ highSurrogate c ≤ 0xdfff := by
      rw [highSurrogate]
      omega
    have hlow : 0xdc00 ≤ lowSurrogate c ∧ lowSurrogate c ≤ 0xdfff := by
      rw [lowSurrogate]
      omega
    have hreadHigh := utf32At_surrogateBytes hhigh.1 hhigh.2
      (surrogateBytes (.ofNat 32 (lowSurrogate c)) ++ rest)
    have hreadLow := utf32At_surrogateBytes (by omega) hlow.2 rest
    rw [modifiedChar, if_neg hc, List.append_assoc]
    by_cases hplane : c.toNat < 0xf0000
    · have hpair : surrogatesCodepoint (.ofNat 32 (highSurrogate c)) (.ofNat 32 (lowSurrogate c))
          = .ofNat 32 c.toNat := by
        apply BitVec.eq_of_toNat_eq
        have hle := hhigh.1
        have hle' := hlow.1
        rw [hcode _ (by omega), surrogatesCodepoint, BitVec.toNat_add, BitVec.toNat_add,
          BitVec.toNat_mul, BitVec.toNat_sub, BitVec.toNat_sub, hcode _ (by omega),
          hcode _ (by omega)]
        show ((((2 ^ 32 - 0xd800 + highSurrogate c) % 2 ^ 32 * 0x400) % 2 ^ 32
          + (2 ^ 32 - 0xdc00 + lowSurrogate c) % 2 ^ 32) % 2 ^ 32 + 0x10000) % 2 ^ 32 = c.toNat
        rw [highSurrogate, lowSurrogate]
        omega
      have hlength : utf32CodepointUtf8Length (BitVec.ofNat 32 c.toNat) = 4 := by
        rw [utf32CodepointUtf8Length, hcode _ (by omega), if_neg (by omega), if_neg (by omega),
          if_neg hc, if_pos hmax]
      have hstep := modifiedUtf8Loop_pair (surrogateBytes_ne_nil _) (surrogateBytes_ne_nil _) hreadHigh
        hreadLow (by
          rw [hcode _ (by omega)]
          refine ⟨hhigh.1, ?_⟩
          rw [highSurrogate]
          omega) (by rwa [hcode _ (by omega)]) (by rw [hpair, hlength]) output
      rw [restoredChar, if_pos hplane, hstep, hpair, utf32ToUtf8_char (Nat.le_of_not_lt hc)]
    · -- both surrogates are copied
      have hcopyHigh := modifiedUtf8Loop_copy (surrogateBytes_ne_nil _) hreadHigh (by
        rw [hcode _ (by omega)]
        omega) (by
        rw [hcode _ (by omega), highSurrogate]
        omega) output
      have hcopyLow := modifiedUtf8Loop_copy (surrogateBytes_ne_nil _) hreadLow (by
        rw [hcode _ (by omega)]
        omega) (by
        rw [hcode _ (by omega)]
        omega) (output ++ surrogateBytes (.ofNat 32 (highSurrogate c)))
      rw [restoredChar, if_neg hplane, modifiedChar, if_neg hc, hcopyHigh, hcopyLow,
        List.append_assoc]

/-- **What comes back for a text** in modified UTF-8. -/
theorem modifiedUtf8ToUtf8_modified (chars : List Char) :
    modifiedUtf8ToUtf8 (chars.flatMap modifiedChar) = some (chars.flatMap restoredChar) := by
  have hloop : ∀ (chars : List Char) (output : List UInt8),
      modifiedUtf8Loop 0 output (chars.flatMap modifiedChar)
        = some (output ++ chars.flatMap restoredChar) := by
    intro chars
    induction chars with
    | nil =>
        intro output
        rw [List.flatMap_nil, List.flatMap_nil, List.append_nil, modifiedUtf8Loop]
    | cons c chars ih =>
        intro output
        rw [List.flatMap_cons, modifiedUtf8Loop_modifiedChar, ih, List.flatMap_cons,
          List.append_assoc]
  rw [modifiedUtf8ToUtf8, hloop, List.nil_append]

/-! ## Texts that come back -/

/-- A character comes back if it is not in the last two planes. -/
theorem restoredChar_length (c : Char) :
    (String.utf8EncodeChar c).length ≤ (restoredChar c).length
      ∧ (c.toNat < 0xf0000 ∨ (String.utf8EncodeChar c).length < (restoredChar c).length) := by
  by_cases hc : c.toNat < 0xf0000
  · rw [restoredChar, if_pos hc]
    exact ⟨Nat.le_refl _, .inl hc⟩
  · have hlong : (restoredChar c).length = 6 := by
      rw [restoredChar, if_neg hc, modifiedChar, if_neg (by omega)]
      rfl
    have hshort : (String.utf8EncodeChar c).length ≤ 4 := by
      rw [String.length_utf8EncodeChar]
      exact c.utf8Size_le_four
    exact ⟨by omega, .inr (by omega)⟩

/-- What comes back is not shorter. -/
theorem length_encoded_le_restored (chars : List Char) :
    (encoded chars).length ≤ (chars.flatMap restoredChar).length := by
  induction chars with
  | nil => exact Nat.le_refl 0
  | cons c chars ih =>
      have hc := (restoredChar_length c).1
      rw [encoded_cons, List.flatMap_cons, List.length_append, List.length_append]
      omega

/-- A text comes back if it has no characters of the last two planes. -/
theorem flatMap_restoredChar_eq_iff (chars : List Char) :
    chars.flatMap restoredChar = encoded chars ↔ ∀ c ∈ chars, c.toNat < 0xf0000 := by
  induction chars with
  | nil => exact iff_of_true rfl fun c hc => absurd hc List.not_mem_nil
  | cons c chars ih =>
      rw [List.forall_mem_cons, List.flatMap_cons, encoded_cons]
      constructor
      · intro h
        have hsame : c.toNat < 0xf0000 := by
          refine (restoredChar_length c).2.resolve_right fun hlt => ?_
          have hle := length_encoded_le_restored chars
          have heq := congrArg List.length h
          rw [List.length_append, List.length_append] at heq
          omega
        rw [restoredChar, if_pos hsame] at h
        exact ⟨hsame, ih.mp (List.append_cancel_left h)⟩
      · rintro ⟨hc, h⟩
        rw [restoredChar, if_pos hc, ih.mpr h]

/-- The bytes of modified UTF-8 start no sequence of four. -/
theorem lt_of_mem_modified {chars : List Char} {b : UInt8} (h : b ∈ chars.flatMap modifiedChar) :
    b.toNat < 0xf0 := by
  obtain ⟨c, -, hb⟩ := List.mem_flatMap.mp h
  rw [modifiedChar] at hb
  split_ifs at hb with hc
  · exact lt_of_mem_utf8EncodeChar hc hb
  · have hsurrogate : ∀ n, 0xd800 ≤ n → n ≤ 0xdfff →
        b ∈ surrogateBytes (.ofNat 32 n) → b.toNat < 0xf0 := by
      intro n hle hle' hb
      have hbyte : ∀ m : ℕ, m < 256 → (UInt8.ofNat m).toNat = m := fun m hm => by
        rw [UInt8.toNat_ofNat', Nat.mod_eq_of_lt hm]
      rw [surrogateBytes_eq hle hle', List.mem_cons, List.mem_cons, List.mem_singleton] at hb
      rcases hb with rfl | rfl | rfl
      · decide
      · rw [hbyte _ (by omega)]
        omega
      · rw [hbyte _ (by omega)]
        omega
    have hmax := toNat_le_max c
    rcases List.mem_append.mp hb with hb | hb
    · refine hsurrogate _ ?_ ?_ hb
      all_goals
        rw [highSurrogate]
        omega
    · refine hsurrogate _ ?_ ?_ hb
      all_goals
        rw [lowSurrogate]
        omega

/-- **Which texts come back**: the form of a text in modified UTF-8 has no byte `0xf0` or above, and
turns into the text again, exactly if no character is in one of the last two planes. -/
theorem roundTrips_iff (chars : List Char) :
    (∃ modified, utf8ToModifiedUtf8 (encoded chars) = some modified
        ∧ modifiedUtf8ToUtf8 modified = some (encoded chars) ∧ ∀ b ∈ modified, b.toNat < 0xf0)
      ↔ ∀ c ∈ chars, c.toNat < 0xf0000 := by
  rw [← flatMap_restoredChar_eq_iff]
  constructor
  · rintro ⟨modified, hmodified, hback, -⟩
    rw [utf8ToModifiedUtf8_encoded, Option.some_inj] at hmodified
    rwa [← hmodified, modifiedUtf8ToUtf8_modified, Option.some_inj] at hback
  · intro h
    refine ⟨_, utf8ToModifiedUtf8_encoded chars, ?_, fun b hb => lt_of_mem_modified hb⟩
    rw [modifiedUtf8ToUtf8_modified, h]

/-- U+F0000 does not come back. -/
theorem roundTrips_planeFifteen :
    ¬ ∃ modified, utf8ToModifiedUtf8 (encoded [Char.ofNat 0xf0000]) = some modified
      ∧ modifiedUtf8ToUtf8 modified = some (encoded [Char.ofNat 0xf0000])
      ∧ ∀ b ∈ modified, b.toNat < 0xf0 := by
  rintro ⟨modified, hmodified, hback, -⟩
  rw [utf8ToModifiedUtf8_encoded, Option.some_inj] at hmodified
  rw [← hmodified, modifiedUtf8ToUtf8_modified, Option.some_inj, flatMap_restoredChar_eq_iff]
    at hback
  exact absurd (hback _ List.mem_cons_self) (by decide)

end AndroidSdk.Androidfw
