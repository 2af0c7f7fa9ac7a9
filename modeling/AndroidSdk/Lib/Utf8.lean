import Mathlib.Tactic.SplitIfs
import AndroidSdk.Lib.Components

/-! # Texts and their encodings

What the scripts do to the characters of a decoded text, and what they do to its bytes.

* **`encoded`** — the UTF-8 encoding of characters; `decodeUtf8_eq_some_iff` is the decoding.
* **`replaceAll_encoded`** — replacing a text of ASCII characters in the bytes of a text replaces it
  in the characters.
* **`universalNewlines_replaceAll`** — replacing texts without line ends in a text and in the lines
  of it. -/

namespace AndroidSdk.Lib

/-- The UTF-8 encoding of characters. -/
def encoded (chars : List Char) : List UInt8 := chars.flatMap String.utf8EncodeChar

@[simp] theorem encoded_nil : encoded [] = [] := rfl

@[simp] theorem encoded_cons (c : Char) (chars : List Char) :
    encoded (c :: chars) = String.utf8EncodeChar c ++ encoded chars := rfl

@[simp] theorem encoded_append (chars rest : List Char) :
    encoded (chars ++ rest) = encoded chars ++ encoded rest := List.flatMap_append

/-- The bytes of a string. -/
theorem encodeUtf8_eq (s : String) : encodeUtf8 s = encoded s.toList := by
  have h := String.utf8Encode_toList (b := s)
  change s.toByteArray.data.toList = encoded s.toList
  rw [← h, List.utf8Encode, List.toList_data_toByteArray, encoded]

/-- **The bytes that decode to characters** are their encoding. -/
theorem decodeUtf8_eq_some_iff {bytes : List UInt8} {chars : List Char} :
    decodeUtf8 bytes = some chars ↔ bytes = encoded chars := by
  have hbytes : (⟨bytes.toArray⟩ : ByteArray) = bytes.toByteArray := ByteArray.ext (by simp)
  have hencoded : ∀ chars : List Char, chars.utf8Encode = bytes.toByteArray ↔ bytes = encoded chars := by
    intro chars
    rw [List.utf8Encode, List.toByteArray_inj, eq_comm]
    rfl
  unfold decodeUtf8 String.fromUTF8?
  rw [hbytes]
  split_ifs with hvalid
  · rw [Option.map_some, Option.some_inj, ← hencoded]
    constructor
    · rintro rfl
      exact String.utf8Encode_toList
    · intro h
      have hstring : String.fromUTF8 bytes.toByteArray hvalid = String.ofList chars := by
        rw [← String.toByteArray_inj]
        exact h.symm
      rw [hstring, String.toList_ofList]
  · refine iff_of_false (by simp) fun h => hvalid ?_
    exact ⟨chars, ((hencoded chars).mpr h).symm⟩

/-- Encoding and decoding. -/
@[simp] theorem decodeUtf8_encoded (chars : List Char) : decodeUtf8 (encoded chars) = some chars :=
  decodeUtf8_eq_some_iff.mpr rfl

/-! ## ASCII characters -/

/-- All characters are ASCII. -/
def IsAscii (chars : List Char) : Prop := ∀ c ∈ chars, c.toNat < 128

instance (chars : List Char) : Decidable (IsAscii chars) := List.decidableBAll _ _

/-- An ASCII character is one byte. -/
theorem utf8EncodeChar_of_lt {c : Char} (h : c.toNat < 128) :
    String.utf8EncodeChar c = [UInt8.ofNat c.toNat] :=
  if_pos (Nat.le_of_lt_succ h)

/-- **The bytes of a character**, by the size of its code point. -/
theorem utf8EncodeChar_cases (c : Char) :
    (∃ b : UInt8, String.utf8EncodeChar c = [b] ∧ c.toNat < 0x80 ∧ b.toNat = c.toNat)
    ∨ (∃ b b2 : UInt8, String.utf8EncodeChar c = [b, b2] ∧ 0x80 ≤ c.toNat ∧ c.toNat < 0x800
        ∧ b.toNat = c.toNat / 64 + 0xc0 ∧ b2.toNat = c.toNat % 64 + 0x80)
    ∨ (∃ b b2 b3 : UInt8, String.utf8EncodeChar c = [b, b2, b3] ∧ 0x800 ≤ c.toNat
        ∧ c.toNat < 0x10000 ∧ b.toNat = c.toNat / 4096 + 0xe0
        ∧ b2.toNat = c.toNat / 64 % 64 + 0x80 ∧ b3.toNat = c.toNat % 64 + 0x80)
    ∨ ∃ b b2 b3 b4 : UInt8, String.utf8EncodeChar c = [b, b2, b3, b4] ∧ 0x10000 ≤ c.toNat
        ∧ c.toNat ≤ 0x10ffff ∧ b.toNat = c.toNat / 262144 + 0xf0
        ∧ b2.toNat = c.toNat / 4096 % 64 + 0x80 ∧ b3.toNat = c.toNat / 64 % 64 + 0x80
        ∧ b4.toNat = c.toNat % 64 + 0x80 := by
  have hbyte : ∀ n : ℕ, n < 256 → (UInt8.ofNat n).toNat = n := fun n hn => by
    rw [UInt8.toNat_ofNat', Nat.mod_eq_of_lt hn]
  have hmax : c.toNat ≤ 0x10ffff := by
    have hvalid := c.valid
    change c.val.toNat ≤ 0x10ffff
    rcases hvalid with h | h
    · omega
    · omega
  change c.val.toNat ≤ 0x10ffff at hmax
  unfold String.utf8EncodeChar Char.toNat
  dsimp only
  split_ifs with h1 h2 h3
  · exact .inl ⟨_, rfl, by omega, hbyte _ (by omega)⟩
  · refine .inr (.inl ⟨_, _, rfl, by omega, by omega, ?_, hbyte _ (by omega)⟩)
    rw [hbyte _ (by omega)]
    omega
  · refine .inr (.inr (.inl ⟨_, _, _, rfl, by omega, by omega, ?_, hbyte _ (by omega),
      hbyte _ (by omega)⟩))
    rw [hbyte _ (by omega)]
    omega
  · refine .inr (.inr (.inr ⟨_, _, _, _, rfl, by omega, hmax, ?_, hbyte _ (by omega),
      hbyte _ (by omega), hbyte _ (by omega)⟩))
    rw [hbyte _ (by omega)]
    omega

/-- The bytes of another character are none of ASCII. -/
theorem le_of_mem_utf8EncodeChar {c : Char} (h : 128 ≤ c.toNat) {b : UInt8}
    (hb : b ∈ String.utf8EncodeChar c) : 128 ≤ b.toNat := by
  rcases utf8EncodeChar_cases c with ⟨b1, heq, hlt, -⟩ | ⟨b1, b2, heq, -, -, h1, h2⟩
    | ⟨b1, b2, b3, heq, -, -, h1, h2, h3⟩ | ⟨b1, b2, b3, b4, heq, -, -, h1, h2, h3, h4⟩
  all_goals
    rw [heq] at hb
    simp only [List.mem_cons, List.not_mem_nil, or_false] at hb
  · omega
  · rcases hb with rfl | rfl
    all_goals omega
  · rcases hb with rfl | rfl | rfl
    all_goals omega
  · rcases hb with rfl | rfl | rfl | rfl
    all_goals omega

/-- ASCII characters are found in the bytes of a text as in the text. -/
theorem encoded_prefix_iff {old l : List Char} (hold : IsAscii old) :
    encoded old <+: encoded l ↔ old <+: l := by
  refine ⟨fun h => ?_, fun ⟨rest, h⟩ => ⟨encoded rest, by rw [← encoded_append, h]⟩⟩
  induction old generalizing l with
  | nil => exact List.nil_prefix
  | cons d old ih =>
      have hd := hold d List.mem_cons_self
      rw [encoded_cons, utf8EncodeChar_of_lt hd, List.singleton_append] at h
      have hdByte : (UInt8.ofNat d.toNat).toNat = d.toNat := by
        rw [UInt8.toNat_ofNat', Nat.mod_eq_of_lt (by omega)]
      cases l with
      | nil => exact absurd (List.prefix_nil.mp h) (List.cons_ne_nil _ _)
      | cons c l =>
          rcases lt_or_ge c.toNat 128 with hc | hc
          · have hcByte : (UInt8.ofNat c.toNat).toNat = c.toNat := by
              rw [UInt8.toNat_ofNat', Nat.mod_eq_of_lt (by omega)]
            rw [encoded_cons, utf8EncodeChar_of_lt hc, List.singleton_append,
              List.cons_prefix_cons] at h
            have hsame : d = c := by
              rw [← Char.toNat_inj, ← hdByte, h.1, hcByte]
            exact List.cons_prefix_cons.mpr
              ⟨hsame, ih (fun x hx => hold x (List.mem_cons_of_mem d hx)) h.2⟩
          · -- the first byte of another character is none of ASCII
            obtain ⟨b, bytes, hbytes⟩ := List.exists_cons_of_ne_nil
              (show String.utf8EncodeChar c ≠ [] by
                rw [← List.length_pos_iff, String.length_utf8EncodeChar]
                exact c.utf8Size_pos)
            rw [encoded_cons, hbytes, List.cons_append, List.cons_prefix_cons] at h
            have hb := le_of_mem_utf8EncodeChar hc (b := b) (by rw [hbytes]; exact List.mem_cons_self)
            rw [← h.1, hdByte] at hb
            omega

/-- **Replacing ASCII characters in the bytes of a text** replaces them in the text. -/
theorem replaceAll_encoded {old : List Char} (hold : IsAscii old) (hne : old ≠ [])
    (new l : List Char) : replaceAll (encoded old) (encoded new) (encoded l)
      = encoded (replaceAll old new l) := by
  obtain ⟨d, rest, hd⟩ := List.exists_cons_of_ne_nil hne
  have hdAscii := hold d (by rw [hd]; exact List.mem_cons_self)
  have hhead : (encoded old).head? = some (UInt8.ofNat d.toNat) := by
    rw [hd, encoded_cons, utf8EncodeChar_of_lt hdAscii]
    rfl
  have hne' : encoded old ≠ [] := by
    intro hnil
    rw [hnil] at hhead
    cases hhead
  induction hlength : l.length using Nat.strong_induction_on generalizing l with
  | _ n ih =>
    by_cases hstart : old <+: l
    · obtain ⟨l, rfl⟩ := hstart
      have hpos : 0 < old.length := List.length_pos_iff.mpr hne
      rw [List.length_append] at hlength
      rw [encoded_append, replaceAll_append_self _ hne', replaceAll_append_self _ hne,
        encoded_append, ih l.length (by omega) l rfl]
    · cases l with
      | nil => rfl
      | cons c l =>
          rw [List.length_cons] at hlength
          have hrest := ih l.length (by omega) l rfl
          rw [replaceAll_cons_of_not_start new hstart, encoded_cons, encoded_cons, ← hrest]
          rcases lt_or_ge c.toNat 128 with hc | hc
          · have hnot := mt (encoded_prefix_iff hold).mp hstart
            rw [encoded_cons, utf8EncodeChar_of_lt hc, List.singleton_append] at hnot
            rw [utf8EncodeChar_of_lt hc, List.singleton_append,
              replaceAll_cons_of_not_start _ hnot, List.singleton_append]
          · refine replaceAll_append_of_notMem _ hhead (fun hmem => ?_) _
            have hb := le_of_mem_utf8EncodeChar hc hmem
            rw [UInt8.toNat_ofNat', Nat.mod_eq_of_lt (by omega)] at hb
            omega

/-! ## Line ends -/

/-- Another character than a carriage return stays. -/
theorem universalNewlines_cons {c : Char} (h : c ≠ '\r') (l : List Char) :
    universalNewlines (c :: l) = c :: universalNewlines l := by
  rw [universalNewlines]
  · simp [h]
  · simp [h]

/-- A carriage return without line feed is a line end. -/
theorem universalNewlines_cr {l : List Char} (h : l.head? ≠ some '\n') :
    universalNewlines ('\r' :: l) = '\n' :: universalNewlines l := by
  rw [universalNewlines]
  rintro l rfl
  exact h rfl

/-- Characters other than carriage returns stay. -/
theorem universalNewlines_append {x : List Char} (h : '\r' ∉ x) (l : List Char) :
    universalNewlines (x ++ l) = x ++ universalNewlines l := by
  induction x with
  | nil => rfl
  | cons c x ih =>
      have hc : c ≠ '\r' := fun heq => h (heq ▸ List.mem_cons_self)
      rw [List.cons_append, universalNewlines_cons hc,
        ih fun hmem => h (List.mem_cons_of_mem c hmem), List.cons_append]

/-- No character of the text is part of a line end. -/
def NoNewline (chars : List Char) : Prop := '\r' ∉ chars ∧ '\n' ∉ chars

instance (chars : List Char) : Decidable (NoNewline chars) := inferInstanceAs (Decidable (_ ∧ _))

/-- Text without line ends is found at the beginning of lines as of the text. -/
theorem prefix_universalNewlines_iff {old l : List Char} (hold : NoNewline old) :
    old <+: universalNewlines l ↔ old <+: l := by
  induction old generalizing l with
  | nil => simp
  | cons d old ih =>
      have hd : d ≠ '\r' ∧ d ≠ '\n' := ⟨fun h => hold.1 (h ▸ List.mem_cons_self),
        fun h => hold.2 (h ▸ List.mem_cons_self)⟩
      have hrest : NoNewline old := ⟨fun h => hold.1 (List.mem_cons_of_mem d h),
        fun h => hold.2 (List.mem_cons_of_mem d h)⟩
      cases l with
      | nil => rfl
      | cons c l =>
          by_cases hc : c = '\r'
          · have hnewline : ∃ rest, universalNewlines (c :: l) = '\n' :: rest := by
              rw [hc]
              by_cases hhead : l.head? = some '\n'
              · obtain ⟨l, rfl⟩ := List.head?_eq_some_iff.mp hhead
                exact ⟨universalNewlines l, rfl⟩
              · exact ⟨universalNewlines l, universalNewlines_cr hhead⟩
            obtain ⟨rest, hrest⟩ := hnewline
            rw [hrest, hc, List.cons_prefix_cons, List.cons_prefix_cons]
            exact iff_of_false (fun h => hd.2 h.1) fun h => hd.1 h.1
          · rw [universalNewlines_cons hc, List.cons_prefix_cons, List.cons_prefix_cons, ih hrest]

/-- **Replacing texts without line ends** and reading lines do not disturb each other, if the
replacement is not empty. -/
theorem universalNewlines_replaceAll {old new : List Char} (hold : NoNewline old)
    (hnew : NoNewline new) (hne : old ≠ []) (hne' : new ≠ []) (l : List Char) :
    universalNewlines (replaceAll old new l) = replaceAll old new (universalNewlines l) := by
  -- characters of line ends stay
  have hstays : ∀ {c : Char} (l : List Char), c = '\r' ∨ c = '\n' →
      replaceAll old new (c :: l) = c :: replaceAll old new l := by
    intro c l hc
    refine replaceAll_cons_of_not_start new fun hstart => ?_
    obtain ⟨d, rest, rfl⟩ := List.exists_cons_of_ne_nil hne
    rw [← (List.cons_prefix_cons.mp hstart).1] at hc
    rcases hc with rfl | rfl
    · exact hold.1 List.mem_cons_self
    · exact hold.2 List.mem_cons_self
  induction hlength : l.length using Nat.strong_induction_on generalizing l with
  | _ n ih =>
    by_cases hstart : old <+: l
    · obtain ⟨l, rfl⟩ := hstart
      have hpos : 0 < old.length := List.length_pos_iff.mpr hne
      rw [List.length_append] at hlength
      rw [replaceAll_append_self new hne, universalNewlines_append hnew.1,
        universalNewlines_append hold.1, replaceAll_append_self new hne, ih l.length (by omega) l rfl]
    · cases l with
      | nil => rfl
      | cons c l =>
          rw [List.length_cons] at hlength
          have hrest := ih l.length (by omega) l rfl
          by_cases hc : c = '\r'
          · subst hc
            by_cases hhead : l.head? = some '\n'
            · obtain ⟨l, rfl⟩ := List.head?_eq_some_iff.mp hhead
              rw [List.length_cons] at hlength
              rw [hstays _ (.inl rfl), hstays _ (.inr rfl), universalNewlines, universalNewlines,
                hstays _ (.inr rfl), ih l.length (by omega) l rfl]
            · have hhead' : (replaceAll old new l).head? ≠ some '\n' := by
                by_cases hmatch : old <+: l
                · obtain ⟨l, rfl⟩ := hmatch
                  obtain ⟨d, x, rfl⟩ := List.exists_cons_of_ne_nil hne'
                  rw [replaceAll_append_self _ hne]
                  exact fun h => hnew.2 (Option.some.inj h ▸ List.mem_cons_self)
                · cases l with
                  | nil => simp [replaceAll, replaceAfter]
                  | cons d l =>
                      rw [replaceAll_cons_of_not_start new hmatch]
                      exact hhead
              rw [hstays _ (.inl rfl), universalNewlines_cr hhead', universalNewlines_cr hhead,
                hstays _ (.inr rfl), hrest]
          · have hnot : ¬ old <+: c :: universalNewlines l := by
              rw [← universalNewlines_cons hc, prefix_universalNewlines_iff hold]
              exact hstart
            rw [replaceAll_cons_of_not_start new hstart, universalNewlines_cons hc,
              universalNewlines_cons hc, replaceAll_cons_of_not_start new hnot, hrest]

end AndroidSdk.Lib
