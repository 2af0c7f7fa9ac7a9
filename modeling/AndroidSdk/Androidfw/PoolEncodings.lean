import AndroidSdk.Androidfw.PoolFormat

/-! # Both encodings of a string pool

A pool can be written in modified UTF-8 and in UTF-16 (`libs/androidfw/StringPool.cpp`), and
`GetString` reads both (`libs/androidfw/Util.cpp`).

* **`encodeString`** — `EncodeString`; the form in UTF-8 is copied as a C string.
* **`flatten`** — `Flatten`, from the strings on.
* **`getString`** — `GetString`.
* **`string8At_poolOf`**, **`stringAt_poolOf`** — what is read back.
* **`copiedChars_eq_iff`** — which texts the copy and the conversion leave.
* **`poolsAgree_iff`** — when both pools give the strings back. -/

namespace AndroidSdk.Androidfw

open Lib

/-! ## Writing and reading -/

/-- `EncodeLengthMax`, where `1 << 31` is a negative number. -/
def encodeLengthMax (charSize : ℕ) : ℕ := ((1#32 <<< (16 * charSize - 1)).signExtend 64 - 1).toNat

/-- `strncpy`: it stops at a zero and fills up with zeros. -/
def strncpy (src : List UInt8) (n : ℕ) : List UInt8 :=
  let copied := (src.takeWhile (· ≠ 0)).take n
  copied ++ List.replicate (n - copied.length) 0

/-- The form of a string: `none` if it is too large, and nothing at all if a check fails. -/
def encodeFitting (utf8 : Bool) (str : List UInt8) : Option (Option (List UInt8)) :=
  if utf8 then do
    let encoded ← utf8ToModifiedUtf8 str
    let some utf16Length ← utf8ToUtf16Length encoded [0] | none
    if encodeLengthMax 1 < encoded.length ∨ encodeLengthMax 1 < utf16Length then return none
    return some (encodeLength 1 utf16Length ++ (encodeLength 1 encoded.length
      ++ (strncpy encoded encoded.length ++ leBytes 1 0)))
  else do
    let encoded ← utf8ToUtf16 str [0]
    if encodeLengthMax 2 < encoded.length then return none
    return some (encodeLength 2 encoded.length
      ++ (encoded.flatMap (fun w => leBytes 2 w.toNat) ++ leBytes 2 0))

/-- `kStringTooLarge`. -/
def kStringTooLarge : List UInt8 := encoded "STRING_TOO_LARGE".toList

/-- `EncodeString`, with what it returns. -/
def encodeString (utf8 : Bool) (str : List UInt8) : Option (List UInt8 × Bool) := do
  match ← encodeFitting utf8 str with
  | some data => return (data, true)
  | none =>
      let some data ← encodeFitting utf8 kStringTooLarge | none
      return (data, false)

/-- `FlattenUtf8` and `FlattenUtf16`. -/
def flatten (utf8 : Bool) (strings : List (List UInt8)) : Option (List UInt8 × Bool) := do
  let encoded ← strings.mapM (encodeString utf8)
  return (flattenPool utf8 (encoded.map Prod.fst), encoded.all Prod.snd)

/-- `GetString16`. -/
def getString16 (pool : ResStringPool) (cache : ResStringPool.Cache) (idx : ℕ) :
    Option (List UInt16) :=
  (pool.stringAt cache idx).map fun r => r.1.getD []

/-- `GetString`. -/
def getString (pool : ResStringPool) (cache : ResStringPool.Cache) (idx : ℕ) :
    Option (List UInt8) := do
  match ← pool.string8At idx with
  | some str => modifiedUtf8ToUtf8 str.text
  | none => return utf16ToUtf8 (← getString16 pool cache idx)

/-! ## Strings that are read back -/

section Reading

variable {encoded : List (List UInt8)} {i : ℕ}

/-- **A string in UTF-8 is found**: its bytes, without the lengths and the terminator. -/
theorem string8At_poolOf (hsize : (flattenPool true encoded).length < 2 ^ 32)
    (hterm : Terminated true encoded) {u16len : ℕ} {payload : List UInt8}
    (hi : encoded[i]? = some (encodeLength 1 u16len
      ++ (encodeLength 1 payload.length ++ (payload ++ leBytes 1 0))))
    (hu16len : u16len < 2 ^ 15) (hpayload : payload.length < 2 ^ 15) :
    ∃ piece, (poolOf true encoded).string8At i = some (some piece) ∧ piece.text = payload := by
  obtain ⟨before, rest, heq, hbefore⟩ := exists_string true encoded hi
  have hlong : ∀ n, 1 ≤ (encodeLength 1 n).length := fun n => by
    rw [encodeLength]
    split_ifs
    · rw [List.length_append, length_leBytes]
      omega
    · rw [length_leBytes]
  obtain ⟨off, hoff, hpos, hend⟩ := entryOffset_flattenPool hsize hterm hi (by
    have hfirst := hlong u16len
    rw [List.length_append, List.length_append, List.length_append, length_leBytes]
    show 2 * 1 ≤ _
    omega)
  have hpos : off = (encoded.take i).flatten.length := (Nat.one_mul off).symm.trans hpos
  -- both lengths, one behind the other
  have heq1 : flattenPool true encoded = before ++ (encodeLength 1 u16len
      ++ (encodeLength 1 payload.length ++ (payload ++ leBytes 1 0) ++ rest)) :=
    heq.trans (by simp only [List.append_assoc])
  have heq2 : flattenPool true encoded = before ++ encodeLength 1 u16len
      ++ (encodeLength 1 payload.length ++ (payload ++ leBytes 1 0 ++ rest)) :=
    heq.trans (by simp only [List.append_assoc])
  have heq3 : flattenPool true encoded = before ++ encodeLength 1 u16len
      ++ encodeLength 1 payload.length ++ (payload ++ (leBytes 1 0 ++ rest)) :=
    heq.trans (by simp only [List.append_assoc])
  have haddress : before.length = 28 + 4 * encoded.length + 1 * off := by omega
  obtain ⟨units, hdecode, hunits⟩ := decodeLengthOf_encodeLength Nat.one_pos hu16len before
    (encodeLength 1 payload.length ++ (payload ++ leBytes 1 0) ++ rest) haddress
  have haddress' : (before ++ encodeLength 1 u16len).length
      = 28 + 4 * encoded.length + 1 * (off + units) := by
    rw [List.length_append]
    omega
  obtain ⟨units', hdecode', hunits'⟩ := decodeLengthOf_encodeLength Nat.one_pos hpayload
    (before ++ encodeLength 1 u16len) (payload ++ leBytes 1 0 ++ rest) haddress'
  rw [← heq1] at hdecode
  rw [← heq2] at hdecode'
  have hlengths : (poolOf true encoded).decodeLengths off
      = some (u16len, payload.length, off + units + units') := by
    rw [ResStringPool.decodeLengths]
    show (decodeLengthOf 1 (flattenPool true encoded) (28 + 4 * encoded.length) off).bind _ = _
    rw [hdecode, Option.bind_some]
    show (decodeLengthOf 1 (flattenPool true encoded) (28 + 4 * encoded.length) (off + units)).bind _
      = _
    rw [hdecode']
    rfl
  have hbehind : (before ++ encodeLength 1 u16len ++ encodeLength 1 payload.length).length
      = 28 + 4 * encoded.length + (off + units + units') := by
    rw [List.length_append, List.length_append]
    omega
  -- the terminator is inside of the pool
  have hpool : (poolOf true encoded).stringPoolSize < 2 ^ 32 := by
    have hlength := length_flattenPool true encoded
    show (align4 encoded.flatten).length / 1 < 2 ^ 32
    omega
  have hinside : off + units + units' + payload.length < (poolOf true encoded).stringPoolSize := by
    have hone : unitSize true = 1 := rfl
    rw [List.length_append, List.length_append, List.length_append, length_leBytes, hone, Nat.div_one]
      at hend
    omega
  have hnull : fieldAt (flattenPool true encoded)
      (28 + 4 * encoded.length + (off + units + units' + payload.length)) 1 = 0 := by
    rw [heq3, ← List.append_assoc, ← Nat.add_assoc, ← hbehind, ← List.length_append,
      fieldAt_append_leBytes]
    rfl
  refine ⟨pieceAt (flattenPool true encoded)
    (28 + 4 * encoded.length + (off + units + units')) payload.length, ?_, ?_⟩
  · have hlt := (List.getElem?_eq_some_iff.mp hi).1
    have hutf8 := isUtf8_poolHeader true encoded
    have hcond : ¬ ((poolOf true encoded).header.stringCount ≤ i
        ∨ (!(poolOf true encoded).header.isUtf8) = true) := by
      rw [not_or, Nat.not_le]
      exact ⟨hlt, by simp [poolOf, hutf8]⟩
    have hsearch : (poolOf true encoded).stringDecodeAt (off + units + units') payload.length
        = some (some (pieceAt (flattenPool true encoded)
          (28 + 4 * encoded.length + (off + units + units')) payload.length)) := by
      have hzero : 0 <<< 15 ||| payload.length = payload.length := by
        rw [Nat.zero_shiftLeft, Nat.zero_or]
      rw [ResStringPool.stringDecodeAt, ResStringPool.stringDecodeLoop_end]
      · rw [hzero]
        rfl
      · rw [hzero, Nat.mod_eq_of_lt (by omega)]
        exact hinside
      · rw [hzero]
        show 28 + 4 * encoded.length + _ < (flattenPool true encoded).length
        rw [heq3, List.length_append, hbehind, List.length_append, List.length_append, length_leBytes]
        omega
      · rw [hzero]
        exact hnull
    rw [ResStringPool.string8At, if_neg hcond]
    simp only [hoff, hlengths, Option.bind_eq_bind, Option.bind_some,
      Nat.mod_eq_of_lt (Nat.lt_trans hinside hpool), if_pos hinside, hsearch]
  · show ((flattenPool true encoded).drop _).take _ = payload
    rw [heq3, ← hbehind, List.drop_left, List.take_left]

/-- The units that were written at an address. -/
theorem unitsFrom_eq (before rest : List UInt8) (units : List UInt16) :
    unitsFrom (before ++ (units.flatMap (fun w => leBytes 2 w.toNat) ++ rest)) before.length units.length
      = units := by
  have hbytes : (units.flatMap fun w => leBytes 2 w.toNat).length = 2 * units.length :=
    length_flatMap_of_length (fun w => length_leBytes 2 w.toNat) units
  refine List.ext_getElem (by rw [unitsFrom, List.length_map, List.length_range]) fun j _ hj => ?_
  have hdrop := drop_flatMap_of_length (fun w : UInt16 => length_leBytes 2 w.toNat)
    (List.getElem?_eq_getElem hj)
  have hskip := fieldAt_drop (units.flatMap (fun w => leBytes 2 w.toNat) ++ rest) (2 * j) 0 2
  rw [Nat.add_zero] at hskip
  have hmod : units[j].toNat % 256 ^ 2 = units[j].toNat := Nat.mod_eq_of_lt units[j].toNat_lt
  simp only [unitsFrom, List.getElem_map, List.getElem_range]
  rw [fieldAt_append_of_le (Nat.le_add_right _ _), Nat.add_sub_cancel_left, ← hskip,
    List.drop_append_of_le_length (by omega), hdrop, List.append_assoc, fieldAt_leBytes_append, hmod]
  exact UInt16.ofNat_toNat

/-- **A string in UTF-16 is found.** -/
theorem stringAt_poolOf (hsize : (flattenPool false encoded).length < 2 ^ 32)
    (hterm : Terminated false encoded) {units : List UInt16}
    (hi : encoded[i]? = some (encodeLength 2 units.length
      ++ (units.flatMap (fun w => leBytes 2 w.toNat) ++ leBytes 2 0)))
    (hunits : units.length < 2 ^ 31) (cache : ResStringPool.Cache) :
    (poolOf false encoded).stringAt cache i = some (some units, cache) := by
  obtain ⟨before, rest, heq, hbefore⟩ := exists_string false encoded hi
  have hbytes : (units.flatMap fun w => leBytes 2 w.toNat).length = 2 * units.length :=
    length_flatMap_of_length (fun w => length_leBytes 2 w.toNat) units
  have hlong : 2 ≤ (encodeLength 2 units.length).length := by
    rw [encodeLength]
    split_ifs
    · rw [List.length_append, length_leBytes]
      omega
    · rw [length_leBytes]
  obtain ⟨off, hoff, hpos, hend⟩ := entryOffset_flattenPool hsize hterm hi (by
    rw [List.length_append, List.length_append, length_leBytes]
    show 2 * 2 ≤ _
    omega)
  have hpos : 2 * off = (encoded.take i).flatten.length := hpos
  have heq1 : flattenPool false encoded = before ++ (encodeLength 2 units.length
      ++ (units.flatMap (fun w => leBytes 2 w.toNat) ++ leBytes 2 0 ++ rest)) :=
    heq.trans (by simp only [List.append_assoc])
  have heq2 : flattenPool false encoded = before ++ encodeLength 2 units.length
      ++ (units.flatMap (fun w => leBytes 2 w.toNat) ++ (leBytes 2 0 ++ rest)) :=
    heq.trans (by simp only [List.append_assoc])
  have haddress : before.length = 28 + 4 * encoded.length + 2 * off := by omega
  obtain ⟨width, hdecode, hwidth⟩ := decodeLengthOf_encodeLength Nat.two_pos hunits before
    (units.flatMap (fun w => leBytes 2 w.toNat) ++ leBytes 2 0 ++ rest) haddress
  rw [← heq1] at hdecode
  have hbehind : (before ++ encodeLength 2 units.length).length
      = 28 + 4 * encoded.length + 2 * (off + width) := by
    rw [List.length_append]
    omega
  -- the terminator is inside of the pool
  have hpool : (poolOf false encoded).stringPoolSize < 2 ^ 32 := by
    have hlength := length_flattenPool false encoded
    show (align4 encoded.flatten).length / 2 < 2 ^ 32
    omega
  have hinside : off + width + units.length < (poolOf false encoded).stringPoolSize := by
    have htwo : unitSize false = 2 := rfl
    rw [List.length_append, List.length_append, length_leBytes, htwo, hbytes, hwidth] at hend
    omega
  have hnull : load 2 (flattenPool false encoded)
      (28 + 4 * encoded.length + 2 * (off + width + units.length)) = some 0 := by
    rw [heq2, ← List.append_assoc, load_leBytes]
    · rw [Nat.zero_mod]
    · rw [List.length_append, hbehind, hbytes]
      omega
  have htext : unitsFrom (flattenPool false encoded) (28 + 4 * encoded.length + 2 * (off + width))
      units.length = units := by
    rw [heq2, ← hbehind, unitsFrom_eq]
  have hlt : i < (poolOf false encoded).header.stringCount := (List.getElem?_eq_some_iff.mp hi).1
  have hutf16 : (poolOf false encoded).header.isUtf8 = false := isUtf8_poolHeader false encoded
  have hread : (poolOf false encoded).stringAt16 i = some (some units) := by
    rw [ResStringPool.stringAt16, hoff]
    show (decodeLengthOf 2 (flattenPool false encoded) (28 + 4 * encoded.length) off).bind _ = _
    rw [hdecode, Option.bind_some]
    dsimp only
    rw [Nat.mod_eq_of_lt (Nat.lt_trans hinside hpool), if_pos hinside]
    show (load 2 (flattenPool false encoded)
      (28 + 4 * encoded.length + 2 * (off + width + units.length))).bind _ = _
    rw [hnull]
    exact congrArg (fun s => some (some s)) htext
  rw [ResStringPool.stringAt, if_neg (Nat.not_le.mpr hlt), hutf16, if_neg (by decide), hread]
  rfl

end Reading

/-! ## Copied texts -/

/-- What the copy as a C string leaves of a text: behind the first U+0000 there are only zeros. -/
def copiedChars (chars : List Char) : List Char :=
  chars.takeWhile (fun c => c.toNat ≠ 0)
    ++ List.replicate ((chars.dropWhile fun c => c.toNat ≠ 0).flatMap modifiedChar).length (Char.ofNat 0)

/-- A text that survives the copy and the conversion: no character of the last two planes, and
nothing else behind a U+0000. -/
def Survives (chars : List Char) : Prop :=
  (∀ c ∈ chars, c.toNat < 0xf0000) ∧ ∀ c ∈ chars.dropWhile (fun c => c.toNat ≠ 0), c.toNat = 0

instance (chars : List Char) : Decidable (Survives chars) := inferInstanceAs (Decidable (_ ∧ _))

/-- A character with the value 0. -/
theorem eq_nul {c : Char} (h : c.toNat = 0) : c = Char.ofNat 0 :=
  Char.toNat_inj.mp h

/-- Other characters have no zeros in their bytes. -/
theorem ne_zero_of_mem_utf8EncodeChar {c : Char} (hc : c.toNat ≠ 0) {b : UInt8}
    (hb : b ∈ String.utf8EncodeChar c) : b ≠ 0 := by
  rintro rfl
  have hzero : (0 : UInt8).toNat = 0 := rfl
  rcases utf8EncodeChar_cases c with ⟨x, heq, -, h1⟩ | ⟨x, x2, heq, -, -, h1, h2⟩
    | ⟨x, x2, x3, heq, -, -, h1, h2, h3⟩ | ⟨x, x2, x3, x4, heq, -, -, h1, h2, h3, h4⟩
  all_goals
    rw [heq] at hb
    simp only [List.mem_cons, List.not_mem_nil, or_false] at hb
  · subst hb
    omega
  · rcases hb with rfl | rfl
    all_goals omega
  · rcases hb with rfl | rfl | rfl
    all_goals omega
  · rcases hb with rfl | rfl | rfl | rfl
    all_goals omega

/-- The same in modified UTF-8. -/
theorem ne_zero_of_mem_modifiedChar {c : Char} (hc : c.toNat ≠ 0) {b : UInt8}
    (hb : b ∈ modifiedChar c) : b ≠ 0 := by
  rw [modifiedChar] at hb
  split at hb
  next => exact ne_zero_of_mem_utf8EncodeChar hc hb
  next hge =>
    have hmax := toNat_le_max c
    have hbytes : ∀ n : ℕ, 0xd800 ≤ n → n ≤ 0xdfff → b ∈ surrogateBytes (.ofNat 32 n) → b ≠ 0 := by
      intro n h h' hmem
      rintro rfl
      rw [surrogateBytes_eq h h'] at hmem
      simp only [List.mem_cons, List.not_mem_nil, or_false] at hmem
      rcases hmem with hmem | hmem | hmem
      · exact absurd hmem (by decide)
      all_goals
        have hnat := congrArg UInt8.toNat hmem
        rw [UInt8.toNat_ofNat'] at hnat
        change 0 = _ at hnat
        omega
    rcases List.mem_append.mp hb with hb | hb
    · exact hbytes _ (by rw [highSurrogate]; omega) (by rw [highSurrogate]; omega) hb
    · exact hbytes _ (by rw [lowSurrogate]; omega) (by rw [lowSurrogate]; omega) hb

/-- The copy stops at the first U+0000. -/
theorem takeWhile_modified (chars : List Char) :
    (chars.flatMap modifiedChar).takeWhile (· ≠ 0)
      = (chars.takeWhile fun c => c.toNat ≠ 0).flatMap modifiedChar := by
  induction chars with
  | nil => rfl
  | cons c chars ih =>
      by_cases hc : c.toNat = 0
      · obtain rfl := eq_nul hc
        rfl
      · rw [List.flatMap_cons, List.takeWhile_cons_of_pos (by simpa using hc), List.flatMap_cons,
          List.takeWhile_append_of_pos fun b hb => by
            simpa using ne_zero_of_mem_modifiedChar hc hb, ih]

/-- Characters with the value 0 are zeros, in every form of UTF-8. -/
theorem flatMap_replicate_nul {form : Char → List UInt8} (h : form (Char.ofNat 0) = [0]) (n : ℕ) :
    (List.replicate n (Char.ofNat 0)).flatMap form = List.replicate n 0 := by
  induction n with
  | zero => rfl
  | succ n ih => rw [List.replicate_succ, List.flatMap_cons, ih, h, List.replicate_succ]; rfl

/-- **What is copied**: a text again. -/
theorem strncpy_modified (chars : List Char) :
    strncpy (chars.flatMap modifiedChar) (chars.flatMap modifiedChar).length
      = (copiedChars chars).flatMap modifiedChar := by
  have hsplit : chars.flatMap modifiedChar
      = (chars.takeWhile fun c => c.toNat ≠ 0).flatMap modifiedChar
        ++ (chars.dropWhile fun c => c.toNat ≠ 0).flatMap modifiedChar := by
    rw [← List.flatMap_append, List.takeWhile_append_dropWhile]
  have hlength := congrArg List.length hsplit
  rw [List.length_append] at hlength
  rw [strncpy, takeWhile_modified, List.take_of_length_le (by omega), hlength,
    Nat.add_sub_cancel_left, copiedChars, List.flatMap_append, flatMap_replicate_nul rfl]

/-- **Which texts survive.** -/
theorem copiedChars_eq_iff (chars : List Char) :
    (copiedChars chars).flatMap restoredChar = encoded chars ↔ Survives chars := by
  have hchars : (chars.takeWhile fun c => c.toNat ≠ 0) ++ (chars.dropWhile fun c => c.toNat ≠ 0)
      = chars := List.takeWhile_append_dropWhile
  constructor
  · intro h
    have hencoded : encoded chars = encoded (chars.takeWhile fun c => c.toNat ≠ 0)
        ++ encoded (chars.dropWhile fun c => c.toNat ≠ 0) := by
      rw [← encoded_append, hchars]
    rw [copiedChars, List.flatMap_append, flatMap_replicate_nul rfl, hencoded] at h
    -- neither part is shorter than the one it has to be
    have hfirst := length_encoded_le_restored (chars.takeWhile fun c => c.toNat ≠ 0)
    have hsecond := (length_modified (chars.dropWhile fun c => c.toNat ≠ 0)).1
    have hlength := congrArg List.length h
    rw [List.length_append, List.length_append, List.length_replicate] at hlength
    obtain ⟨hbefore, hbehind⟩ := List.append_inj h (by omega)
    have hzero : ∀ c ∈ chars.dropWhile (fun c => c.toNat ≠ 0), c.toNat = 0 := by
      intro c hc
      by_contra hne
      obtain ⟨b, rest, hb⟩ := List.exists_cons_of_ne_nil (String.utf8EncodeChar_ne_nil (c := c))
      have hmem : b ∈ encoded (chars.dropWhile fun c => c.toNat ≠ 0) :=
        List.mem_flatMap.mpr ⟨c, hc, hb ▸ List.mem_cons_self⟩
      rw [← hbehind] at hmem
      exact ne_zero_of_mem_utf8EncodeChar hne (hb ▸ List.mem_cons_self)
        (List.eq_of_mem_replicate hmem)
    refine ⟨fun c hc => ?_, hzero⟩
    rw [← hchars] at hc
    rcases List.mem_append.mp hc with hc | hc
    · exact (flatMap_restoredChar_eq_iff _).mp hbefore c hc
    · rw [hzero c hc]
      decide
  · rintro ⟨hplanes, hzero⟩
    have hnul : chars.dropWhile (fun c => c.toNat ≠ 0)
        = List.replicate (chars.dropWhile fun c => c.toNat ≠ 0).length (Char.ofNat 0) :=
      List.eq_replicate_of_mem fun c hc => eq_nul (hzero c hc)
    have hlength : ((chars.dropWhile fun c => c.toNat ≠ 0).flatMap modifiedChar).length
        = (chars.dropWhile fun c => c.toNat ≠ 0).length := by
      rw [hnul, flatMap_replicate_nul rfl, List.length_replicate, List.length_replicate]
    rw [copiedChars, hlength, ← hnul, hchars, flatMap_restoredChar_eq_iff]
    exact hplanes

/-! ## Both pools -/

/-- The form of a text in a pool in UTF-8. -/
def stored8 (chars : List Char) : List UInt8 :=
  let modified := chars.flatMap modifiedChar
  encodeLength 1 (utf16Units chars).length ++ (encodeLength 1 modified.length
    ++ (strncpy modified modified.length ++ leBytes 1 0))

/-- The form of a text in a pool in UTF-16. -/
def stored16 (chars : List Char) : List UInt8 :=
  encodeLength 2 (utf16Units chars).length
    ++ ((utf16Units chars).flatMap (fun w => leBytes 2 w.toNat) ++ leBytes 2 0)

/-- A text with lengths that both forms can encode. -/
def Encodable (chars : List Char) : Prop :=
  (chars.flatMap modifiedChar).length ≤ 0x7fff ∧ (utf16Units chars).length ≤ 0x7fff

/-- What is written for a text in UTF-8. -/
theorem encodeString_utf8 {chars : List Char} (h : Encodable chars) :
    encodeString true (encoded chars) = some (stored8 chars, true) := by
  have hmax : encodeLengthMax 1 = 0x7fff := by decide
  have hfits : ¬ (encodeLengthMax 1 < (chars.flatMap modifiedChar).length
      ∨ encodeLengthMax 1 < (utf16Units chars).length) := by
    rw [hmax]
    have hmodified := h.1
    have hunits := h.2
    omega
  have hform : encodeFitting true (encoded chars) = some (some (stored8 chars)) := by
    rw [encodeFitting, if_pos rfl, utf8ToModifiedUtf8_encoded]
    simp only [Option.bind_eq_bind, Option.bind_some, utf8ToUtf16Length_modified, if_neg hfits]
    rfl
  rw [encodeString, hform]
  rfl

/-- What is written for a text in UTF-16. -/
theorem encodeString_utf16 {chars : List Char} (h : Encodable chars) :
    encodeString false (encoded chars) = some (stored16 chars, true) := by
  have hmax : 0x7fff ≤ encodeLengthMax 2 := by decide
  have hfits : ¬ encodeLengthMax 2 < (utf16Units chars).length := by
    have hunits := h.2
    omega
  have hform : encodeFitting false (encoded chars) = some (some (stored16 chars)) := by
    rw [encodeFitting, if_neg (by decide), utf8ToUtf16_encoded]
    simp only [Option.bind_eq_bind, Option.bind_some, if_neg hfits]
    rfl
  rw [encodeString, hform]
  rfl

/-- The form of a text in one of the pools. -/
def stored (utf8 : Bool) (chars : List Char) : List UInt8 :=
  if utf8 then stored8 chars else stored16 chars

/-- **What is written for a text.** -/
theorem encodeString_encoded (utf8 : Bool) {chars : List Char} (h : Encodable chars) :
    encodeString utf8 (encoded chars) = some (stored utf8 chars, true) := by
  cases utf8
  · exact encodeString_utf16 h
  · exact encodeString_utf8 h

variable {strings : List (List Char)}

/-- **What is written for all texts.** -/
theorem flatten_encoded (utf8 : Bool) (h : ∀ chars ∈ strings, Encodable chars) :
    flatten utf8 (strings.map encoded) = some (flattenPool utf8 (strings.map (stored utf8)), true) := by
  have hall : (strings.map encoded).mapM (encodeString utf8)
      = some (strings.map fun chars => (stored utf8 chars, true)) := by
    induction strings with
    | nil => rfl
    | cons chars strings ih =>
        rw [List.map_cons, List.mapM_cons, encodeString_encoded utf8 (h chars List.mem_cons_self),
          ih fun chars hmem => h chars (List.mem_cons_of_mem _ hmem)]
        rfl
  rw [flatten, hall, Option.bind_eq_bind, Option.bind_some, List.map_map, List.all_map]
  have hok : (strings.all (Prod.snd ∘ fun chars => (stored utf8 chars, true))) = true :=
    List.all_eq_true.mpr fun _ _ => rfl
  rw [hok]
  rfl

/-- The strings end with a zero. -/
theorem terminated_stored (utf8 : Bool) (strings : List (List Char)) :
    Terminated utf8 (strings.map (stored utf8)) := by
  intro s hs
  obtain ⟨chars, -, rfl⟩ := List.mem_map.mp hs
  cases utf8
  · have hbytes : ((utf16Units chars).flatMap fun w => leBytes 2 w.toNat).length
        = 2 * (utf16Units chars).length :=
      length_flatMap_of_length (fun w : UInt16 => length_leBytes 2 w.toNat) _
    have hlength : (encodeLength 2 (utf16Units chars).length).length % 2 = 0 := by
      rw [encodeLength]
      split_ifs
      · rw [List.length_append, length_leBytes, length_leBytes]
      · rw [length_leBytes]
    refine ⟨?_, encodeLength 2 (utf16Units chars).length
      ++ (utf16Units chars).flatMap fun w : UInt16 => leBytes 2 w.toNat, ?_⟩
    · show (stored16 chars).length % 2 = 0
      rw [stored16, List.length_append, List.length_append, hbytes, length_leBytes]
      omega
    · exact (List.append_assoc _ _ _).symm
  · refine ⟨Nat.mod_one _, encodeLength 1 (utf16Units chars).length
      ++ (encodeLength 1 (chars.flatMap modifiedChar).length
        ++ strncpy (chars.flatMap modifiedChar) (chars.flatMap modifiedChar).length), ?_⟩
    show stored8 chars = _ ++ leBytes 1 0
    rw [stored8]
    simp only [List.append_assoc]

/-- **What `GetString` reads from the pool in UTF-8.** -/
theorem getString_utf8 (h : ∀ chars ∈ strings, Encodable chars)
    (hsize : (flattenPool true (strings.map (stored true))).length < 2 ^ 32) {i : ℕ}
    {chars : List Char} (hi : strings[i]? = some chars) (cache : ResStringPool.Cache) :
    getString (poolOf true (strings.map (stored true))) cache i
      = some ((copiedChars chars).flatMap restoredChar) := by
  obtain ⟨hmodified, hunits⟩ := h chars (List.mem_of_getElem? hi)
  have hcopied : (strncpy (chars.flatMap modifiedChar) (chars.flatMap modifiedChar).length).length
      = (chars.flatMap modifiedChar).length := by
    rw [strncpy, List.length_append, List.length_replicate, List.length_take]
    omega
  have hentry : (strings.map (stored true))[i]? = some (encodeLength 1 (utf16Units chars).length
      ++ (encodeLength 1
          (strncpy (chars.flatMap modifiedChar) (chars.flatMap modifiedChar).length).length
        ++ (strncpy (chars.flatMap modifiedChar) (chars.flatMap modifiedChar).length
          ++ leBytes 1 0))) := by
    rw [List.getElem?_map, hi, hcopied]
    rfl
  obtain ⟨piece, hpiece, htext⟩ := string8At_poolOf hsize (terminated_stored true strings) hentry
    (by omega) (by omega)
  rw [getString, hpiece, Option.bind_eq_bind, Option.bind_some]
  show modifiedUtf8ToUtf8 piece.text = _
  rw [htext, strncpy_modified, modifiedUtf8ToUtf8_modified]

/-- **What `GetString` reads from the pool in UTF-16**: the text. -/
theorem getString_utf16 (h : ∀ chars ∈ strings, Encodable chars)
    (hsize : (flattenPool false (strings.map (stored false))).length < 2 ^ 32) {i : ℕ}
    {chars : List Char} (hi : strings[i]? = some chars) (cache : ResStringPool.Cache) :
    getString (poolOf false (strings.map (stored false))) cache i = some (encoded chars) := by
  have hunits := (h chars (List.mem_of_getElem? hi)).2
  have hentry : (strings.map (stored false))[i]? = some (encodeLength 2 (utf16Units chars).length
      ++ ((utf16Units chars).flatMap (fun w => leBytes 2 w.toNat) ++ leBytes 2 0)) := by
    rw [List.getElem?_map, hi]
    rfl
  have hread := stringAt_poolOf hsize (terminated_stored false strings) hentry (by omega) cache
  have hutf16 : (poolOf false (strings.map (stored false))).header.isUtf8 = false :=
    isUtf8_poolHeader false _
  have hnone : (poolOf false (strings.map (stored false))).string8At i = some none := by
    rw [ResStringPool.string8At, if_pos (.inr (by rw [hutf16]; rfl))]
  rw [getString, hnone, Option.bind_eq_bind, Option.bind_some, getString16, hread]
  show some (utf16ToUtf8 (utf16Units chars)) = _
  rw [utf16ToUtf8_units]

/-- Both pools are accepted and give every string back, whatever was read before. -/
def PoolsAgree (strings : List (List Char)) : Prop :=
  ∀ utf8, ∃ data pool, flatten utf8 (strings.map encoded) = some (data, true)
    ∧ setTo data data.length = some (some pool)
    ∧ ∀ cache i chars, strings[i]? = some chars → getString pool cache i = some (encoded chars)

/-- The sizes of both pools can be written. -/
def SizesFit (strings : List (List Char)) : Prop :=
  ∀ utf8 data, flatten utf8 (strings.map encoded) = some (data, true) → data.length < 2 ^ 32

/-- The sizes, from what is written. -/
theorem sizesFit_of_lt (h : ∀ chars ∈ strings, Encodable chars)
    (hlt : ∀ utf8, (flattenPool utf8 (strings.map (stored utf8))).length < 2 ^ 32) :
    SizesFit strings := by
  intro utf8 data hdata
  rw [flatten_encoded utf8 h, Option.some_inj] at hdata
  obtain rfl : flattenPool utf8 (strings.map (stored utf8)) = data := congrArg Prod.fst hdata
  exact hlt utf8

/-- Strings that are given back survive. -/
theorem PoolsAgree.survives (hagree : PoolsAgree strings) (h : ∀ chars ∈ strings, Encodable chars)
    (hsizes : SizesFit strings) : ∀ chars ∈ strings, Survives chars := by
  intro chars hmem
  obtain ⟨i, hi⟩ := List.mem_iff_getElem?.mp hmem
  obtain ⟨data, pool, hdata, hpool, hread⟩ := hagree true
  have hflatten := flatten_encoded true h
  have hsize := hsizes true _ hflatten
  obtain rfl : flattenPool true (strings.map (stored true)) = data :=
    congrArg Prod.fst (Option.some.inj (hflatten.symm.trans hdata))
  rw [setTo_flattenPool hsize (terminated_stored true strings), Option.some_inj, Option.some_inj]
    at hpool
  have hback := hread ResStringPool.emptyCache i chars hi
  rw [← hpool, getString_utf8 h hsize hi, Option.some_inj] at hback
  exact (copiedChars_eq_iff chars).mp hback

/-- **When both pools agree**: no string has characters of the last two planes, or anything but
zeros behind a U+0000. -/
theorem poolsAgree_iff (h : ∀ chars ∈ strings, Encodable chars) (hsizes : SizesFit strings) :
    PoolsAgree strings ↔ ∀ chars ∈ strings, Survives chars := by
  refine ⟨fun hagree => hagree.survives h hsizes, fun hsurvive utf8 => ?_⟩
  have hflatten := flatten_encoded utf8 h
  have hsize := hsizes utf8 _ hflatten
  refine ⟨_, _, hflatten, setTo_flattenPool hsize (terminated_stored utf8 strings),
    fun cache i chars hi => ?_⟩
  cases utf8
  · exact getString_utf16 h hsize hi cache
  · rw [getString_utf8 h hsize hi,
      (copiedChars_eq_iff chars).mpr (hsurvive chars (List.mem_of_getElem? hi))]

/-- Letters, no character at all, and a character of the second plane. -/
theorem poolsAgree_strings :
    PoolsAgree [['a', 'b'], [], ['a', Char.ofNat 0x10000, 'c']] := by
  have h : ∀ chars ∈ [['a', 'b'], [], ['a', Char.ofNat 0x10000, 'c']], Encodable chars := by
    intro chars hmem
    simp only [List.mem_cons, List.not_mem_nil, or_false] at hmem
    rcases hmem with rfl | rfl | rfl <;> exact ⟨by decide, by decide⟩
  refine (poolsAgree_iff h (sizesFit_of_lt h (by decide))).mpr fun chars hmem => ?_
  simp only [List.mem_cons, List.not_mem_nil, or_false] at hmem
  rcases hmem with rfl | rfl | rfl <;> exact ⟨by simp, by simp⟩

/-- A letter behind a U+0000 is lost in UTF-8. -/
theorem not_poolsAgree_nul : (∀ chars ∈ [[Char.ofNat 0, 'a']], Encodable chars)
    ∧ SizesFit [[Char.ofNat 0, 'a']] ∧ ¬ PoolsAgree [[Char.ofNat 0, 'a']] := by
  have h : ∀ chars ∈ [[Char.ofNat 0, 'a']], Encodable chars := by
    intro chars hmem
    obtain rfl := List.mem_singleton.mp hmem
    exact ⟨by decide, by decide⟩
  have hsizes := sizesFit_of_lt h (by decide)
  refine ⟨h, hsizes, fun hagree => ?_⟩
  have hsurvives := hagree.survives h hsizes _ List.mem_cons_self
  have hletter : 'a' ∈ [Char.ofNat 0, 'a'].dropWhile fun c => c.toNat ≠ 0 :=
    List.mem_cons_of_mem _ List.mem_cons_self
  exact absurd (hsurvives.2 'a' hletter) (by decide)

end AndroidSdk.Androidfw
