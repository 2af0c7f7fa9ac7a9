import AndroidSdk.Androidfw.ResStringPool

/-! # The form of a string pool

What `StringPool::Flatten` writes around the encoded strings (`libs/androidfw/StringPool.cpp`), and
what `ResStringPool` finds there. Styles are left out.

* **`encodeLength`** — `EncodeLength`; `decodeLengthOf_encodeLength` reads it.
* **`flattenPool`** — a pool around encoded strings.
* **`setTo_flattenPool`** — it is accepted.
* **`exists_string`**, **`entryOffset_flattenPool`** — where the strings lie. -/

namespace AndroidSdk.Androidfw

open Lib

/-! ## Writing -/

/-- `EncodeLength`, for units of `charSize` bytes. -/
def encodeLength (charSize length : ℕ) : List UInt8 :=
  let kMask := 2 ^ (8 * charSize - 1)
  let kMaxSize := kMask - 1
  if kMaxSize < length then
    leBytes charSize (kMask ||| (kMaxSize &&& (length >>> (8 * charSize)))) ++ leBytes charSize length
  else leBytes charSize length

/-- `ResChunk_header`. -/
def chunkHeader (type headerSize size : ℕ) : List UInt8 :=
  leBytes 2 type ++ leBytes 2 headerSize ++ leBytes 4 size

/-- The offsets of encoded strings. -/
def stringOffsets (start : ℕ) : List (List UInt8) → List ℕ
  | [] => []
  | s :: rest => start :: stringOffsets (start + s.length) rest

/-- `Align4`. -/
def align4 (data : List UInt8) : List UInt8 := data ++ List.replicate ((4 - data.length % 4) % 4) 0

/-- `StringPool::Flatten`, without styles. -/
def flattenPool (utf8 : Bool) (encoded : List (List UInt8)) : List UInt8 :=
  let stringsStart := 28 + 4 * encoded.length
  let indices := (stringOffsets 0 encoded).flatMap (leBytes 4)
  let data := align4 encoded.flatten
  chunkHeader 0x0001 28 (stringsStart + data.length) ++ leBytes 4 encoded.length ++ leBytes 4 0
    ++ leBytes 4 (if utf8 then 0x100 else 0) ++ leBytes 4 stringsStart ++ leBytes 4 0 ++ indices
    ++ data

@[simp] theorem length_chunkHeader (type headerSize size : ℕ) :
    (chunkHeader type headerSize size).length = 8 := by
  simp [chunkHeader]

/-! ## Lengths -/

/-- A number that was written at an address. -/
theorem load_leBytes {before rest : List UInt8} {width n address : ℕ}
    (haddress : before.length = address) :
    load width (before ++ (leBytes width n ++ rest)) address = some (n % 256 ^ width) := by
  rw [load, if_pos, ← haddress, fieldAt_append_leBytes]
  rw [List.length_append, List.length_append, length_leBytes, haddress]
  omega

/-- **A length is read back**, and the position is the one behind it. -/
theorem decodeLengthOf_encodeLength {charSize : ℕ} (hsize : 0 < charSize) {length : ℕ}
    (hlength : length < 2 ^ (16 * charSize - 1)) (before rest : List UInt8) {strings str : ℕ}
    (haddress : before.length = strings + charSize * str) :
    ∃ units, decodeLengthOf charSize (before ++ (encodeLength charSize length ++ rest)) strings str
        = some (length, str + units) ∧ (encodeLength charSize length).length = charSize * units := by
  have hwidth : (256 : ℕ) ^ charSize = 2 ^ (8 * charSize) := by
    rw [Nat.pow_mul]
  have hdouble : (2 : ℕ) ^ (8 * charSize) = 2 * 2 ^ (8 * charSize - 1) := by
    rw [← Nat.pow_succ']
    congr 1
    omega
  have hpos := Nat.two_pow_pos (8 * charSize - 1)
  -- a long length takes two units, the first of which has its highest bit set
  by_cases hlong : 2 ^ (8 * charSize - 1) - 1 < length
  · have hhigh : length / 2 ^ (8 * charSize) < 2 ^ (8 * charSize - 1) := by
      rw [Nat.div_lt_iff_lt_mul (Nat.two_pow_pos _), ← Nat.pow_add]
      exact Nat.lt_of_lt_of_eq hlength (congrArg _ (by omega))
    have hfirst : 2 ^ (8 * charSize - 1) ||| (2 ^ (8 * charSize - 1) - 1 &&& length >>> (8 * charSize))
        = 2 ^ (8 * charSize - 1) + length / 2 ^ (8 * charSize) := by
      rw [Nat.and_comm, Nat.and_two_pow_sub_one_eq_mod, Nat.shiftRight_eq_div_pow,
        Nat.mod_eq_of_lt hhigh]
      have hor := Nat.two_pow_add_eq_or_of_lt hhigh 1
      rw [Nat.mul_one] at hor
      exact hor.symm
    refine ⟨2, ?_, ?_⟩
    · have hload : load charSize (before ++ (encodeLength charSize length ++ rest))
          (strings + charSize * str)
          = some (2 ^ (8 * charSize - 1) + length / 2 ^ (8 * charSize)) := by
        rw [encodeLength, if_pos hlong, hfirst, List.append_assoc, load_leBytes haddress, hwidth,
          Nat.mod_eq_of_lt (by omega)]
      have hload' : load charSize (before ++ (encodeLength charSize length ++ rest))
          (strings + charSize * (str + 1)) = some (length % 2 ^ (8 * charSize)) := by
        rw [encodeLength, if_pos hlong, List.append_assoc, ← List.append_assoc, load_leBytes, hwidth]
        rw [List.length_append, length_leBytes, haddress, Nat.mul_succ, Nat.add_assoc]
      rw [decodeLengthOf_two hload hhigh hload' (Nat.mod_lt _ (Nat.two_pow_pos _)), Nat.mul_comm,
        Nat.div_add_mod]
    · rw [encodeLength, if_pos hlong, List.length_append, length_leBytes, length_leBytes, Nat.mul_two]
  -- a short one is the unit itself
  · refine ⟨1, ?_, ?_⟩
    · have hload : load charSize (before ++ (encodeLength charSize length ++ rest))
          (strings + charSize * str) = some length := by
        rw [encodeLength, if_neg hlong, load_leBytes haddress, hwidth, Nat.mod_eq_of_lt (by omega)]
      exact decodeLengthOf_one hload (by omega)
    · rw [encodeLength, if_neg hlong, length_leBytes, Nat.mul_one]

/-! ## The parts of a pool -/

section Layout

variable (utf8 : Bool) (encoded : List (List UInt8))

/-- The offsets are as many as the strings. -/
theorem length_stringOffsets (start : ℕ) : (stringOffsets start encoded).length = encoded.length := by
  induction encoded generalizing start with
  | nil => rfl
  | cons s encoded ih => rw [stringOffsets, List.length_cons, ih, List.length_cons]

/-- The offset of a string: what lies before it. -/
theorem getElem?_stringOffsets (start : ℕ) {i : ℕ} {s : List UInt8} (hi : encoded[i]? = some s) :
    (stringOffsets start encoded)[i]? = some (start + (encoded.take i).flatten.length) := by
  induction encoded generalizing start i with
  | nil => simp at hi
  | cons t encoded ih =>
      cases i with
      | zero => rfl
      | succ i =>
          rw [stringOffsets, List.getElem?_cons_succ, ih _ (by simpa using hi), List.take_succ_cons,
            List.flatten_cons, List.length_append, Nat.add_assoc]

/-- The header and the offsets of a pool. -/
def poolStart : List UInt8 :=
  chunkHeader 0x0001 28 (flattenPool utf8 encoded).length ++ leBytes 4 encoded.length ++ leBytes 4 0
    ++ leBytes 4 (if utf8 then 0x100 else 0) ++ leBytes 4 (28 + 4 * encoded.length) ++ leBytes 4 0
    ++ (stringOffsets 0 encoded).flatMap (leBytes 4)

/-- The offsets in bytes. -/
theorem length_offsets :
    ((stringOffsets 0 encoded).flatMap (leBytes 4)).length = 4 * encoded.length := by
  rw [length_flatMap_of_length (length_leBytes 4), length_stringOffsets]

/-- Where the strings start. -/
theorem length_poolStart : (poolStart utf8 encoded).length = 28 + 4 * encoded.length := by
  simp only [poolStart, List.length_append, length_chunkHeader, length_leBytes, length_offsets]

/-- The size of a pool. -/
theorem length_flattenPool :
    (flattenPool utf8 encoded).length = 28 + 4 * encoded.length + (align4 encoded.flatten).length := by
  simp only [flattenPool, List.length_append, length_chunkHeader, length_leBytes, length_offsets]

/-- A pool is its start and its strings. -/
theorem flattenPool_eq :
    flattenPool utf8 encoded = poolStart utf8 encoded ++ align4 encoded.flatten := by
  rw [poolStart, length_flattenPool]
  rfl

/-- Strings take whole words. -/
theorem length_align4 (data : List UInt8) : (align4 data).length % 4 = 0 := by
  rw [align4, List.length_append, List.length_replicate]
  omega

/-- **Where a string lies.** -/
theorem exists_string {i : ℕ} {s : List UInt8} (hi : encoded[i]? = some s) :
    ∃ before rest, flattenPool utf8 encoded = before ++ (s ++ rest)
      ∧ before.length = 28 + 4 * encoded.length + (encoded.take i).flatten.length := by
  obtain ⟨hlt, rfl⟩ := List.getElem?_eq_some_iff.mp hi
  have hsplit : encoded.flatten = (encoded.take i).flatten
      ++ (encoded[i] ++ (encoded.drop (i + 1)).flatten) := by
    rw [← List.flatten_cons, ← List.flatten_append, ← List.drop_eq_getElem_cons hlt,
      List.take_append_drop]
  refine ⟨poolStart utf8 encoded ++ (encoded.take i).flatten, (encoded.drop (i + 1)).flatten
    ++ List.replicate ((4 - encoded.flatten.length % 4) % 4) 0, ?_, ?_⟩
  · rw [flattenPool_eq, align4]
    generalize List.replicate ((4 - encoded.flatten.length % 4) % 4) (0 : UInt8) = padding
    rw [hsplit]
    simp only [List.append_assoc]
  · rw [List.length_append, length_poolStart]

/-- The header of a pool. -/
def poolHeader : PoolHeader :=
  ⟨28, (flattenPool utf8 encoded).length, encoded.length, 0, if utf8 then 0x100 else 0,
    28 + 4 * encoded.length, 0⟩

/-- **The header is read back.** -/
theorem readHeader_flattenPool (hsize : (flattenPool utf8 encoded).length < 2 ^ 32) :
    readHeader (flattenPool utf8 encoded) = some (poolHeader utf8 encoded) := by
  have hlength := length_flattenPool utf8 encoded
  have hmod : ∀ {n : ℕ}, n < 2 ^ 32 → n % 256 ^ 4 = n := fun hn => Nat.mod_eq_of_lt hn
  -- the fields, each behind what was written before it
  have hfields : ∀ (address : ℕ) (before : List UInt8) {width n : ℕ} {rest : List UInt8},
      flattenPool utf8 encoded = before ++ (leBytes width n ++ rest) → before.length = address →
      load width (flattenPool utf8 encoded) address = some (n % 256 ^ width) := by
    intro address before width n rest heq haddress
    rw [heq, load_leBytes haddress]
  have heq := flattenPool_eq utf8 encoded
  rw [poolStart, chunkHeader] at heq
  simp only [List.append_assoc] at heq
  have h1 := hfields 2 (leBytes 2 1) heq rfl
  have h2 := hfields 4 (leBytes 2 1 ++ leBytes 2 28)
    (heq.trans (by simp only [List.append_assoc]; rfl)) rfl
  have h3 := hfields 8 (leBytes 2 1 ++ leBytes 2 28
    ++ leBytes 4 (flattenPool utf8 encoded).length)
    (heq.trans (by simp only [List.append_assoc]; rfl)) rfl
  have h4 := hfields 12 (leBytes 2 1 ++ leBytes 2 28
    ++ leBytes 4 (flattenPool utf8 encoded).length ++ leBytes 4 encoded.length)
    (heq.trans (by simp only [List.append_assoc]; rfl)) rfl
  have h5 := hfields 16 (leBytes 2 1 ++ leBytes 2 28
    ++ leBytes 4 (flattenPool utf8 encoded).length ++ leBytes 4 encoded.length ++ leBytes 4 0)
    (heq.trans (by simp only [List.append_assoc]; rfl)) rfl
  have h6 := hfields 20 (leBytes 2 1 ++ leBytes 2 28
    ++ leBytes 4 (flattenPool utf8 encoded).length ++ leBytes 4 encoded.length ++ leBytes 4 0
    ++ leBytes 4 (if utf8 then 0x100 else 0)) (heq.trans (by simp only [List.append_assoc]; rfl)) rfl
  have h7 := hfields 24 (leBytes 2 1 ++ leBytes 2 28
    ++ leBytes 4 (flattenPool utf8 encoded).length ++ leBytes 4 encoded.length ++ leBytes 4 0
    ++ leBytes 4 (if utf8 then 0x100 else 0) ++ leBytes 4 (28 + 4 * encoded.length))
    (heq.trans (by simp only [List.append_assoc]; rfl)) rfl
  have hflags : (if utf8 then 0x100 else 0) % 256 ^ 4 = if utf8 then 0x100 else 0 := by
    cases utf8
    · rfl
    · rfl
  rw [hmod hsize] at h2
  rw [hmod (by omega)] at h3 h6
  rw [hflags] at h5
  rw [readHeader, h1, h2, h3, h4, h5, h6, h7]
  rfl

/-- The flag of the header. -/
theorem isUtf8_poolHeader : (poolHeader utf8 encoded).isUtf8 = utf8 := by
  cases utf8
  · simp [PoolHeader.isUtf8, poolHeader]
  · simp [PoolHeader.isUtf8, poolHeader]

/-- The size of the units of a pool. -/
def unitSize (utf8 : Bool) : ℕ := if utf8 then 1 else 2

/-- The header tells the size of the units. -/
theorem charSize_poolHeader : (poolHeader utf8 encoded).charSize = unitSize utf8 := by
  rw [PoolHeader.charSize, isUtf8_poolHeader, unitSize]

/-- What `setTo` makes of a pool. -/
def poolOf : ResStringPool :=
  ⟨flattenPool utf8 encoded, poolHeader utf8 encoded,
    (align4 encoded.flatten).length / unitSize utf8, 0⟩

/-- The strings of a pool: whole units, of which the last one is a zero. -/
def Terminated (encoded : List (List UInt8)) : Prop :=
  ∀ s ∈ encoded, s.length % unitSize utf8 = 0 ∧ ∃ body, s = body ++ leBytes (unitSize utf8) 0

variable {utf8 encoded}

/-- The last unit of all strings is a zero. -/
theorem exists_align4_eq (hterm : Terminated utf8 encoded) (hne : encoded ≠ []) :
    ∃ units, align4 encoded.flatten = units ++ leBytes (unitSize utf8) 0 := by
  obtain ⟨body, hbody⟩ := (hterm _ (List.getLast_mem hne)).2
  have hzeros : leBytes (unitSize utf8) 0 = List.replicate (unitSize utf8) 0 := by
    cases utf8
    · rfl
    · rfl
  have hsplit : encoded.flatten
      = encoded.dropLast.flatten ++ (body ++ leBytes (unitSize utf8) 0) := by
    conv_lhs => rw [← List.dropLast_concat_getLast hne, hbody]
    rw [List.flatten_append, List.flatten_singleton]
  refine ⟨encoded.dropLast.flatten ++ body
    ++ List.replicate ((4 - encoded.flatten.length % 4) % 4) 0, ?_⟩
  rw [align4]
  generalize (4 - encoded.flatten.length % 4) % 4 = padding
  rw [hsplit, hzeros]
  simp only [List.append_assoc, List.replicate_append_replicate, Nat.add_comm]

/-- **A pool is accepted.** -/
theorem setTo_flattenPool (hsize : (flattenPool utf8 encoded).length < 2 ^ 32)
    (hterm : Terminated utf8 encoded) :
    setTo (flattenPool utf8 encoded) (flattenPool utf8 encoded).length
      = some (some (poolOf utf8 encoded)) := by
  have hlength := length_flattenPool utf8 encoded
  have halign := length_align4 encoded.flatten
  -- the header agrees with the size
  have hvalid : validateHeader (poolHeader utf8 encoded) (flattenPool utf8 encoded).length
      = true := by
    rw [validateHeader, decide_eq_true_iff]
    show 28 ≤ 28 ∧ 28 ≤ (flattenPool utf8 encoded).length ∧ 28 % 4 = 0
      ∧ (flattenPool utf8 encoded).length % 4 = 0
      ∧ (flattenPool utf8 encoded).length ≤ (flattenPool utf8 encoded).length
    omega
  -- the last unit of the strings is the terminator of the last one
  have hstrings : checkStrings (flattenPool utf8 encoded) (poolHeader utf8 encoded)
      (flattenPool utf8 encoded).length
      = some (some ((align4 encoded.flatten).length / unitSize utf8)) := by
    by_cases hne : encoded = []
    · subst hne
      cases utf8
      · rfl
      · rfl
    -- a pool with strings ends in a whole unit of zeros
    · obtain ⟨units, hunits⟩ := exists_align4_eq hterm hne
      have hcount : 0 < encoded.length := List.length_pos_iff.mpr hne
      have hunit : 0 < unitSize utf8 := by
        cases utf8
        · decide
        · decide
      have hparts : (align4 encoded.flatten).length = units.length + unitSize utf8 := by
        rw [hunits, List.length_append, length_leBytes]
      obtain ⟨k, hk, hk'⟩ : ∃ k, units.length = unitSize utf8 * k
          ∧ (align4 encoded.flatten).length / unitSize utf8 = k + 1 := by
        cases utf8
        · have hparts : (align4 encoded.flatten).length = units.length + 2 := hparts
          refine ⟨units.length / 2, ?_, ?_⟩
          · show units.length = 2 * (units.length / 2)
            omega
          · show (align4 encoded.flatten).length / 2 = _
            omega
        · exact ⟨units.length, (Nat.one_mul _).symm, by rw [hparts]; exact Nat.div_one _⟩
      rw [hk']
      refine checkStrings_of_load ?_ ?_ rfl ?_ ?_ hcount.ne'
      · show 28 + encoded.length * 4 ≤ _
        omega
      · show 28 + 4 * encoded.length < (flattenPool utf8 encoded).length - 2
        omega
      · rw [charSize_poolHeader]
        show ((flattenPool utf8 encoded).length - (28 + 4 * encoded.length)) / _ = _
        rw [hlength, Nat.add_sub_cancel_left, hk']
      · rw [charSize_poolHeader]
        show load _ _ (28 + 4 * encoded.length + unitSize utf8 * k) = _
        rw [flattenPool_eq, hunits, ← List.append_assoc, ← List.append_nil (leBytes _ 0), load_leBytes]
        · rw [Nat.zero_mod]
        · rw [List.length_append, length_poolStart, hk]
  exact setTo_of_checks (readHeader_flattenPool utf8 encoded hsize) hvalid hstrings rfl

/-- The size of the units is 1 or 2. -/
theorem unitSize_cases (utf8 : Bool) : unitSize utf8 = 1 ∨ unitSize utf8 = 2 := by
  cases utf8
  · exact .inr rfl
  · exact .inl rfl

/-- **Where the pool says that a string lies**, and where the end of the pool is. -/
theorem entryOffset_flattenPool (hsize : (flattenPool utf8 encoded).length < 2 ^ 32)
    (hterm : Terminated utf8 encoded) {i : ℕ} {s : List UInt8} (hi : encoded[i]? = some s)
    (hlong : 2 * unitSize utf8 ≤ s.length) :
    ∃ off, (poolOf utf8 encoded).entryOffset i = some (some off)
      ∧ unitSize utf8 * off = (encoded.take i).flatten.length
      ∧ off + s.length / unitSize utf8 ≤ (poolOf utf8 encoded).stringPoolSize := by
  have hwhole : ∀ l : List (List UInt8), (∀ t ∈ l, t.length % unitSize utf8 = 0) →
      l.flatten.length % unitSize utf8 = 0 := by
    intro l hl
    induction l with
    | nil => exact Nat.zero_mod _
    | cons t l ih =>
        have ht := hl t List.mem_cons_self
        have hrest := ih fun t' ht' => hl t' (List.mem_cons_of_mem t ht')
        rw [List.flatten_cons, List.length_append]
        rw [Nat.add_mod, ht, hrest, Nat.zero_mod]
  have hoff := hwhole (encoded.take i) fun t ht => (hterm t (List.mem_of_mem_take ht)).1
  have hs := (hterm s (List.mem_of_getElem? hi)).1
  obtain ⟨before, rest, heq, hbefore⟩ := exists_string utf8 encoded hi
  have hlength := length_flattenPool utf8 encoded
  have hinside : (encoded.take i).flatten.length + s.length ≤ (align4 encoded.flatten).length := by
    have hlen := congrArg List.length heq
    rw [List.length_append, List.length_append] at hlen
    omega
  have halign := length_align4 encoded.flatten
  -- the entry is the offset in bytes
  have hentry : load 4 (flattenPool utf8 encoded) (28 + 4 * i)
      = some (encoded.take i).flatten.length := by
    have hindex := getElem?_stringOffsets encoded 0 hi
    rw [Nat.zero_add] at hindex
    have hlt := (List.getElem?_eq_some_iff.mp hi).1
    have hdrop := drop_flatMap_of_length (length_leBytes 4) hindex
    obtain ⟨front, hfront, hstart⟩ : ∃ front, front.length = 28
        ∧ poolStart utf8 encoded = front ++ (stringOffsets 0 encoded).flatMap (leBytes 4) :=
      ⟨_, rfl, rfl⟩
    rw [flattenPool_eq, hstart, ← List.take_append_drop (4 * i) (List.flatMap _ _), hdrop,
      List.append_assoc, List.append_assoc, List.append_assoc, ← List.append_assoc front,
      load_leBytes, Nat.mod_eq_of_lt]
    · omega
    · rw [List.length_append, hfront, List.length_take, length_offsets]
      omega
  refine ⟨(encoded.take i).flatten.length / unitSize utf8, ?_, ?_, ?_⟩
  · have hfits : (encoded.take i).flatten.length / unitSize utf8
        < (align4 encoded.flatten).length / unitSize utf8 - 1 := by
      rcases unitSize_cases utf8 with h | h
      · rw [h] at hlong ⊢
        omega
      · rw [h] at hlong ⊢
        omega
    have hcharSize : (poolOf utf8 encoded).header.charSize = unitSize utf8 :=
      charSize_poolHeader utf8 encoded
    rw [ResStringPool.entryOffset, hcharSize]
    show (load 4 (flattenPool utf8 encoded) (28 + 4 * i)).bind _ = _
    rw [hentry]
    exact congrArg some (if_pos hfits)
  · exact Nat.mul_div_cancel' (Nat.dvd_of_mod_eq_zero hoff)
  · show _ ≤ (align4 encoded.flatten).length / unitSize utf8
    rcases unitSize_cases utf8 with h | h
    · rw [h]
      omega
    · rw [h] at hoff hs ⊢
      omega

end Layout

end AndroidSdk.Androidfw
