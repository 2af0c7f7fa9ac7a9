import AndroidSdk.Androidfw.ResStringPool
import Mathlib.Data.List.Forall2

/-! # Reading a string twice

The first read of a string in UTF-8 finds its real length, also if the stored one was cut to 15 bits,
and later reads take the decoded string with the stored length.

* **`Decodes`** — a string that the first read decodes.
* **`stringAt8_eq_some_iff`** — what one read gives.
* **`CacheValid`** — what is in the cache; a read keeps it.
* **`readsAgree_iff`** — when all reads of a string agree. -/

namespace AndroidSdk.Androidfw

open Lib

namespace ResStringPool

variable {pool : ResStringPool} {cache cache' : Cache} {idx : ℕ}

/-! ## One read -/

/-- The stored length of a string in UTF-8, in units of UTF-16. -/
def storedLength (pool : ResStringPool) (idx : ℕ) : Option ℕ := do
  let some off ← pool.entryOffset idx | none
  let (u16len, _, _) ← pool.decodeLengths off
  return u16len

/-- A string that can be decoded: its bytes, and its length in UTF-16, of which the pool has at
least the low 15 bits. -/
structure Decodes (pool : ResStringPool) (idx : ℕ) (piece : StringPiece) (actualLen : ℕ) : Prop where
  string8At : pool.string8At idx = some (some piece)
  length : utf8ToUtf16Length piece.text piece.beyond = some (some actualLen)
  stored : pool.storedLength idx = some (actualLen &&& 0x7fff)

/-- Where a string that `string8At` finds lies. -/
theorem exists_of_string8At {piece : StringPiece} (h : pool.string8At idx = some (some piece)) :
    idx < pool.header.stringCount ∧ pool.header.isUtf8 = true
      ∧ ∃ off u16len u8len str, pool.entryOffset idx = some (some off)
        ∧ pool.decodeLengths off = some (u16len, u8len, str)
        ∧ (str + u8len) % 2 ^ 32 < pool.stringPoolSize
        ∧ pool.stringDecodeAt str u8len = some (some piece) := by
  rw [ResStringPool.string8At] at h
  split at h
  next hout => cases h
  next hin =>
    rw [not_or, Nat.not_le, Bool.not_eq_true', Bool.not_eq_false] at hin
    refine ⟨hin.1, hin.2, ?_⟩
    cases hoff : pool.entryOffset idx with
    | none => simp [hoff] at h
    | some found =>
        cases found with
        | none => simp [hoff] at h
        | some off =>
            cases hlengths : pool.decodeLengths off with
            | none => simp [hoff, hlengths] at h
            | some lengths =>
                obtain ⟨u16len, u8len, str⟩ := lengths
                simp only [hoff, hlengths, Option.bind_eq_bind, Option.bind_some] at h
                split at h
                next hfits => exact ⟨off, u16len, u8len, str, rfl, hlengths, hfits, h⟩
                next => cases h

/-- The stored length, where the string lies. -/
theorem storedLength_eq {off u16len u8len str : ℕ} (hoff : pool.entryOffset idx = some (some off))
    (hlengths : pool.decodeLengths off = some (u16len, u8len, str)) :
    pool.storedLength idx = some u16len := by
  simp [storedLength, hoff, hlengths]

/-- **The first read** of a string decodes it. -/
theorem stringAt_first {piece : StringPiece} {actualLen : ℕ} (h : pool.Decodes idx piece actualLen)
    (hcache : cache idx = none) :
    pool.stringAt cache idx = some (some ((utf16Buffer piece.text actualLen).take actualLen),
      Function.update cache idx (some (utf16Buffer piece.text actualLen))) := by
  obtain ⟨hlt, hutf8, off, u16len, u8len, str, hoff, hlengths, hfits, hdecode⟩ :=
    exists_of_string8At h.string8At
  have hstored := h.stored
  rw [storedLength_eq hoff hlengths, Option.some.injEq] at hstored
  rw [stringAt, if_neg (Nat.not_le.mpr hlt), if_pos hutf8, stringAt8]
  simp only [hoff, hlengths, hdecode, h.length, hcache, Option.bind_eq_bind, Option.bind_some,
    if_pos hfits, hstored, ne_eq, not_true, if_false]
  rfl

/-- **A later read** takes the string from the cache. -/
theorem stringAt_later {piece : StringPiece} {actualLen : ℕ} (h : pool.Decodes idx piece actualLen)
    {buffer : List UInt16} (hcache : cache idx = some buffer) :
    pool.stringAt cache idx = some (some (buffer.take (actualLen &&& 0x7fff)), cache) := by
  obtain ⟨hlt, hutf8, off, u16len, u8len, str, hoff, hlengths, hfits, hdecode⟩ :=
    exists_of_string8At h.string8At
  have hstored := h.stored
  rw [storedLength_eq hoff hlengths, Option.some.injEq] at hstored
  rw [stringAt, if_neg (Nat.not_le.mpr hlt), if_pos hutf8, stringAt8]
  simp only [hoff, hlengths, hcache, Option.bind_eq_bind, Option.bind_some, if_pos hfits, hstored]
  rfl

/-- What decoding a string gives, if it is not in the cache. -/
theorem decodes_of_uncached {off u16len u8len str : ℕ} (hlt : idx < pool.header.stringCount)
    (hutf8 : pool.header.isUtf8 = true) (hoff : pool.entryOffset idx = some (some off))
    (hlengths : pool.decodeLengths off = some (u16len, u8len, str))
    (hfits : (str + u8len) % 2 ^ 32 < pool.stringPoolSize) {piece : StringPiece}
    (hdecode : pool.stringDecodeAt str u8len = some (some piece)) {actualLen : ℕ}
    (hlength : utf8ToUtf16Length piece.text piece.beyond = some (some actualLen))
    (hstored : actualLen &&& 0x7fff = u16len) : pool.Decodes idx piece actualLen where
  string8At := by
    rw [ResStringPool.string8At, if_neg (by simp [hutf8, hlt])]
    simp only [hoff, hlengths, Option.bind_eq_bind, Option.bind_some, if_pos hfits, hdecode]
  length := hlength
  stored := by rw [storedLength_eq hoff hlengths, hstored]

/-- **What one read can do**: nothing, a look into the cache, or the decoding of the string. -/
theorem stringAt_cases (hutf8 : pool.header.isUtf8 = true) {s : Option (List UInt16)}
    (h : pool.stringAt cache idx = some (s, cache')) :
    (s = none ∧ cache' = cache) ∨ (cache idx ≠ none ∧ cache' = cache)
      ∨ cache idx = none ∧ ∃ piece actualLen, pool.Decodes idx piece actualLen
        ∧ cache' = Function.update cache idx (some (utf16Buffer piece.text actualLen)) := by
  -- every way out that does not decode leaves the cache
  have hnothing : ∀ {s' : Option (List UInt16)} {c : Cache}, s' = none ∧ c = cache →
      some (s', c) = some (s, cache') → s = none ∧ cache' = cache := by
    rintro s' c ⟨rfl, rfl⟩ heq
    cases heq
    exact ⟨rfl, rfl⟩
  by_cases hlt : pool.header.stringCount ≤ idx
  · rw [stringAt, if_pos hlt] at h
    exact .inl (hnothing ⟨rfl, rfl⟩ h)
  rw [stringAt, if_neg hlt, if_pos hutf8, stringAt8] at h
  rw [Nat.not_le] at hlt
  obtain ⟨found, hoff, h⟩ := Option.bind_eq_some_iff.mp h
  cases found with
  | none => exact .inl (hnothing ⟨rfl, rfl⟩ h)
  | some off =>
      obtain ⟨⟨u16len, u8len, str⟩, hlengths, h⟩ := Option.bind_eq_some_iff.mp h
      dsimp only at h
      split at h
      next hfits =>
          split at h
          next buffer hcache =>
              cases h
              exact .inr (.inl ⟨by simp [hcache], rfl⟩)
          next hcache =>
              obtain ⟨found, hdecode, h⟩ := Option.bind_eq_some_iff.mp h
              cases found with
              | none => exact .inl (hnothing ⟨rfl, rfl⟩ h)
              | some piece =>
                  obtain ⟨found, hlength, h⟩ := Option.bind_eq_some_iff.mp h
                  cases found with
                  | none => exact .inl (hnothing ⟨rfl, rfl⟩ h)
                  | some actualLen =>
                      dsimp only at h
                      split at h
                      next => exact .inl (hnothing ⟨rfl, rfl⟩ h)
                      next hstored =>
                          cases h
                          exact .inr (.inr ⟨hcache, piece, actualLen, decodes_of_uncached hlt hutf8
                            hoff hlengths hfits hdecode hlength (Decidable.not_not.mp hstored), rfl⟩)
      next => exact .inl (hnothing ⟨rfl, rfl⟩ h)

/-! ## Runs -/

/-- The results of calls of `stringAt`, one after the other. -/
def stringsAt (pool : ResStringPool) : Cache → List ℕ → Option (List (Option (List UInt16)))
  | _, [] => some []
  | cache, idx :: indices => do
      let (s, cache) ← pool.stringAt cache idx
      let results ← stringsAt pool cache indices
      return s :: results

/-- All reads of an index agree, and they give what `string8At` returns for it, in UTF-16. -/
def ReadsAgree (pool : ResStringPool) : Prop :=
  ∀ indices results, pool.stringsAt emptyCache indices = some results →
    (∀ idx s t, (idx, some s) ∈ indices.zip results → (idx, some t) ∈ indices.zip results → s = t)
    ∧ (pool.header.isUtf8 = true → ∀ idx s, (idx, some s) ∈ indices.zip results →
      ∃ piece, pool.string8At idx = some (some piece)
        ∧ utf8ToUtf16 piece.text piece.beyond = some s)

/-- No string that can be decoded is longer than the largest length the pool can store. -/
def LengthsFit (pool : ResStringPool) : Prop :=
  ∀ idx piece actualLen, pool.Decodes idx piece actualLen → actualLen ≤ 0x7fff

/-- What every read keeps and gives holds of a whole run. -/
theorem forall₂_stringsAt {P : Cache → Prop} {Q : ℕ → Option (List UInt16) → Prop}
    (hstep : ∀ {cache idx s cache'}, P cache → pool.stringAt cache idx = some (s, cache') →
      P cache' ∧ Q idx s) {cache : Cache} (hcache : P cache) {indices : List ℕ}
    {results : List (Option (List UInt16))} (h : pool.stringsAt cache indices = some results) :
    List.Forall₂ Q indices results := by
  induction indices generalizing cache results with
  | nil =>
      cases h
      exact .nil
  | cons idx indices ih =>
      obtain ⟨⟨s, cache'⟩, hread, h⟩ := Option.bind_eq_some_iff.mp h
      obtain ⟨rest, hrest, h⟩ := Option.bind_eq_some_iff.mp h
      cases h
      obtain ⟨hcache', hresult⟩ := hstep hcache hread
      exact .cons hresult (ih hcache' hrest)

/-- The cache holds strings that were decoded. -/
def CacheValid (pool : ResStringPool) (cache : Cache) : Prop :=
  ∀ idx buffer, cache idx = some buffer → ∃ piece actualLen,
    pool.Decodes idx piece actualLen ∧ buffer = utf16Buffer piece.text actualLen

/-- A new cache is empty. -/
theorem cacheValid_empty : pool.CacheValid emptyCache := fun _ _ h => nomatch h

/-- **A read keeps the cache valid.** -/
theorem CacheValid.stringAt (hcache : pool.CacheValid cache) (hutf8 : pool.header.isUtf8 = true)
    {s : Option (List UInt16)} (h : pool.stringAt cache idx = some (s, cache')) :
    pool.CacheValid cache' := by
  rcases stringAt_cases hutf8 h with ⟨-, rfl⟩ | ⟨-, rfl⟩ | ⟨-, piece, actualLen, hdecodes, rfl⟩
  · exact hcache
  · exact hcache
  · intro i buffer hbuffer
    by_cases hi : i = idx
    · subst hi
      rw [Function.update_self, Option.some.injEq] at hbuffer
      exact ⟨piece, actualLen, hdecodes, hbuffer.symm⟩
    · rw [Function.update_of_ne hi] at hbuffer
      exact hcache i buffer hbuffer

/-- The text that the first read of an index gives. -/
def FirstText (pool : ResStringPool) (idx : ℕ) (s : List UInt16) : Prop :=
  ∃ piece actualLen, pool.Decodes idx piece actualLen
    ∧ s = (utf16Buffer piece.text actualLen).take actualLen

/-- There is one such text. -/
theorem FirstText.unique {s t : List UInt16} (hs : pool.FirstText idx s)
    (ht : pool.FirstText idx t) : s = t := by
  obtain ⟨piece, actualLen, hpiece, rfl⟩ := hs
  obtain ⟨piece', actualLen', hpiece', rfl⟩ := ht
  obtain rfl : piece = piece' :=
    Option.some.inj (Option.some.inj (hpiece.string8At.symm.trans hpiece'.string8At))
  obtain rfl : actualLen = actualLen' :=
    Option.some.inj (Option.some.inj (hpiece.length.symm.trans hpiece'.length))
  rfl

/-- The first text is the UTF-16 form of the string. -/
theorem FirstText.exists_string8At {s : List UInt16} (h : pool.FirstText idx s) :
    ∃ piece, pool.string8At idx = some (some piece)
      ∧ utf8ToUtf16 piece.text piece.beyond = some s := by
  obtain ⟨piece, actualLen, hpiece, rfl⟩ := h
  exact ⟨piece, hpiece.string8At, by rw [utf8ToUtf16, hpiece.length]; rfl⟩

/-- **Every read gives the first text**, if the lengths fit. -/
theorem LengthsFit.firstText (hfit : pool.LengthsFit) (hcache : pool.CacheValid cache)
    (hutf8 : pool.header.isUtf8 = true) {s : List UInt16}
    (h : pool.stringAt cache idx = some (some s, cache')) : pool.FirstText idx s := by
  rcases stringAt_cases hutf8 h with ⟨hnone, -⟩ | ⟨hsome, -⟩ | ⟨hnone, piece, actualLen, hdecodes, -⟩
  · cases hnone
  · obtain ⟨buffer, hbuffer⟩ := Option.ne_none_iff_exists'.mp hsome
    obtain ⟨piece, actualLen, hdecodes, rfl⟩ := hcache idx buffer hbuffer
    have hlength : actualLen &&& 0x7fff = actualLen := by
      rw [show 0x7fff = 2 ^ 15 - 1 from rfl, Nat.and_two_pow_sub_one_eq_mod]
      exact Nat.mod_eq_of_lt (Nat.lt_succ_of_le (hfit idx piece actualLen hdecodes))
    rw [stringAt_later hdecodes hbuffer, hlength] at h
    cases h
    exact ⟨piece, actualLen, hdecodes, rfl⟩
  · rw [stringAt_first hdecodes hnone] at h
    cases h
    exact ⟨piece, actualLen, hdecodes, rfl⟩

/-- A pool in UTF-16 does not use the cache. -/
theorem stringAt_utf16 (hutf16 : pool.header.isUtf8 = false) (cache cache₀ : Cache)
    {s : Option (List UInt16)} (h : pool.stringAt cache idx = some (s, cache')) :
    pool.stringAt cache₀ idx = some (s, cache₀) := by
  rw [stringAt] at h ⊢
  by_cases hout : pool.header.stringCount ≤ idx
  · rw [if_pos hout] at h ⊢
    cases h
    rfl
  · rw [if_neg hout, hutf16] at h ⊢
    obtain ⟨s', hs', heq⟩ := Option.map_eq_some_iff.mp h
    cases heq
    exact Option.map_eq_some_iff.mpr ⟨s, hs', rfl⟩

/-- The buffer has room for the units and the terminator. -/
theorem length_utf16Buffer (utf8 : List UInt8) (n : ℕ) : n + 1 ≤ (utf16Buffer utf8 n).length := by
  rw [utf16Buffer, List.length_append, List.length_replicate]
  omega

/-- Two reads of a string that is too long differ. -/
theorem not_readsAgree {piece : StringPiece} {actualLen : ℕ} (h : pool.Decodes idx piece actualLen)
    (hlong : 0x7fff < actualLen) : ¬ pool.ReadsAgree := by
  intro hagree
  have hfirst := stringAt_first h (rfl : emptyCache idx = none)
  have hcached : Function.update emptyCache idx (some (utf16Buffer piece.text actualLen)) idx
      = some (utf16Buffer piece.text actualLen) := Function.update_self idx _ _
  have hlater := stringAt_later h hcached
  have hrun : pool.stringsAt emptyCache [idx, idx]
      = some [some ((utf16Buffer piece.text actualLen).take actualLen),
        some ((utf16Buffer piece.text actualLen).take (actualLen &&& 0x7fff))] := by
    simp only [stringsAt, hfirst, hlater, Option.bind_eq_bind, Option.bind_some]
    rfl
  have hsame := (hagree _ _ hrun).1 idx _ _ List.mem_cons_self
    (List.mem_cons_of_mem _ List.mem_cons_self)
  have hlength := congrArg List.length hsame
  have hroom := length_utf16Buffer piece.text actualLen
  have hcut : actualLen &&& 0x7fff < actualLen :=
    Nat.lt_of_le_of_lt Nat.and_le_right hlong
  rw [List.length_take, List.length_take] at hlength
  omega

/-- **Reading a string twice gives the same string** if and only if no string of the pool is longer
than the length that the pool stores can tell. -/
theorem readsAgree_iff (pool : ResStringPool) : pool.ReadsAgree ↔ pool.LengthsFit := by
  constructor
  · intro hagree idx piece actualLen hdecodes
    exact Nat.le_of_not_lt fun hlong => not_readsAgree hdecodes hlong hagree
  · intro hfit indices results hrun
    cases hutf8 : pool.header.isUtf8 with
    | true =>
        have hall := forall₂_stringsAt (P := pool.CacheValid)
          (Q := fun idx r => ∀ s, r = some s → pool.FirstText idx s)
          (fun hcache hread => ⟨hcache.stringAt hutf8 hread, fun s hs =>
            hfit.firstText hcache hutf8 (hs ▸ hread)⟩) cacheValid_empty hrun
        have htext : ∀ idx s, (idx, some s) ∈ indices.zip results → pool.FirstText idx s :=
          fun idx s hmem => List.forall₂_zip hall hmem s rfl
        exact ⟨fun idx s t hs ht => (htext idx s hs).unique (htext idx t ht),
          fun _ idx s hs => (htext idx s hs).exists_string8At⟩
    | false =>
        have hall := forall₂_stringsAt (P := fun _ => True)
          (Q := fun idx r => pool.stringAt emptyCache idx = some (r, emptyCache))
          (fun _ hread => ⟨trivial, stringAt_utf16 hutf8 _ _ hread⟩) trivial hrun
        refine ⟨fun idx s t hs ht => ?_, fun h => absurd h (by decide)⟩
        simpa using (List.forall₂_zip hall hs).symm.trans (List.forall₂_zip hall ht)

end ResStringPool

/-! ## A string that is too long -/

/-- The beginning of a pool in UTF-8 with one string, whose stored lengths are 0. -/
def truncatedStart : List UInt8 :=
  [0x01, 0x00, 0x1c, 0x00] ++ leBytes 4 0x8024 ++ leBytes 4 1 ++ leBytes 4 0 ++ leBytes 4 0x100
    ++ leBytes 4 32 ++ leBytes 4 0 ++ leBytes 4 0 ++ [0, 0]

/-- A pool with a string of 0x8000 characters. -/
def truncatedPool : List UInt8 := truncatedStart ++ (List.replicate 0x8000 0x61 ++ [0, 0])

/-- What `setTo` makes of it. -/
def truncatedResult : ResStringPool := ⟨truncatedPool, ⟨28, 0x8024, 1, 0, 0x100, 32, 0⟩, 0x8004, 0⟩

/-- Its size. -/
theorem length_truncatedPool : truncatedPool.length = 0x8024 := by
  rw [truncatedPool, List.length_append, List.length_append, List.length_replicate]
  rfl

/-- Its first bytes. -/
theorem load_truncatedPool {width address : ℕ} (h : address + width ≤ 34) :
    load width truncatedPool address = load width truncatedStart address := load_append h _

/-- Its characters. -/
theorem fieldAt_truncatedPool {i : ℕ} (h : i < 0x8000) : fieldAt truncatedPool (34 + i) 1 = 0x61 := by
  have hlength : (List.replicate 0x8000 (0x61 : UInt8)).length = 0x8000 := List.length_replicate
  have hchar : (List.replicate 0x8000 (0x61 : UInt8)).drop i = 0x61 :: List.replicate (0x7fff - i) 0x61 := by
    rw [List.drop_replicate, ← List.replicate_succ]
    congr 1
    omega
  rw [truncatedPool, fieldAt_append_of_le (by show 34 ≤ 34 + i; omega), fieldAt_append_of_add_le]
  · show fieldAt _ (34 + i - 34) 1 = _
    rw [Nat.add_sub_cancel_left, fieldAt, hchar]
    rfl
  · rw [hlength]
    show 34 + i - 34 + 1 ≤ _
    omega

/-- Its end. -/
theorem fieldAt_truncatedPool_end {i : ℕ} (h : i < 2) :
    fieldAt truncatedPool (0x8022 + i) 1 = 0 := by
  have hlength : (List.replicate 0x8000 (0x61 : UInt8)).length = 0x8000 := List.length_replicate
  rw [truncatedPool, fieldAt_append_of_le (by show 34 ≤ 0x8022 + i; omega)]
  show fieldAt _ (0x8022 + i - 34) 1 = 0
  rw [fieldAt_append_of_le (by rw [hlength]; omega), hlength, Nat.add_comm,
    show i + 0x8022 - 34 - 0x8000 = i by omega]
  interval_cases i
  · rfl
  · rfl

/-- The pool is accepted. -/
theorem setTo_truncatedPool : setTo truncatedPool 0x8024 = some (some truncatedResult) := by
  have hheader : readHeader truncatedPool = some truncatedResult.header := by
    rw [readHeader, load_truncatedPool (by decide), load_truncatedPool (by decide),
      load_truncatedPool (by decide), load_truncatedPool (by decide), load_truncatedPool (by decide),
      load_truncatedPool (by decide), load_truncatedPool (by decide)]
    decide
  have hlast : load 1 truncatedPool (32 + 1 * (0x8004 - 1)) = some 0 := by
    rw [load, length_truncatedPool, if_pos (by decide)]
    exact congrArg some (fieldAt_truncatedPool_end (i := 1) (by decide))
  exact setTo_of_checks hheader (by decide)
    (checkStrings_of_load (by decide) (by decide) rfl (by decide) hlast (by decide)) rfl

/-- The first read of a pool with this header and these bytes finds the end of the string. -/
theorem ResStringPool.decodes_of_start {pool : ResStringPool} {chars : List Char}
    (hheader : pool.header = truncatedResult.header) (hsize : pool.stringPoolSize = 0x8004)
    (hlength : pool.memory.length = 0x8024)
    (hstart : ∀ {width address}, address + width ≤ 34 →
      load width pool.memory address = load width truncatedStart address)
    (hchar : fieldAt pool.memory (34 + 0) 1 = 0x61)
    (hend : fieldAt pool.memory (0x8022 + 0) 1 = 0)
    (htext : (pieceAt pool.memory 34 0x8000).text = encoded chars)
    (hunits : (utf16Units chars).length = 0x8000) :
    pool.Decodes 0 (pieceAt pool.memory 34 0x8000) 0x8000 := by
  have hoff : pool.entryOffset 0 = some (some 0) := by
    rw [ResStringPool.entryOffset, hheader, hsize, show truncatedResult.header.headerSize + 4 * 0 = 28
      from rfl, hstart (by decide)]
    rfl
  have hlengths : pool.decodeLengths 0 = some (0, 0, 2) := by
    have hbyte : ∀ i < 2, decodeLength8 pool.memory 32 i = some (0, i + 1) := by
      intro i hi
      refine decodeLengthOf_one ?_ (by decide)
      rw [hstart (by omega)]
      interval_cases i
      · rfl
      · rfl
    simp only [ResStringPool.decodeLengths, hheader,
      show truncatedResult.header.stringsStart = 32 from rfl, hbyte 0 (by decide),
      hbyte 1 (by decide), Option.bind_eq_bind, Option.bind_some]
    rfl
  have hinside : ∀ n, n < 0x8004 → 32 + n < pool.memory.length := fun n hn => by
    rw [hlength]
    omega
  have hdecode : pool.stringDecodeAt 2 0 = some (some (pieceAt pool.memory 34 0x8000)) := by
    -- the first turn finds a character, the second one the end
    rw [ResStringPool.stringDecodeAt, ResStringPool.stringDecodeLoop_next]
    · rw [ResStringPool.stringDecodeLoop_end]
      · rw [hheader]
        rfl
      · rw [hsize]
        decide
      · rw [hheader]
        exact hinside 0x8002 (by decide)
      · rw [hheader]
        exact hend
    · rw [hsize]
      decide
    · rw [hheader]
      exact hinside 2 (by decide)
    · rw [hheader]
      exact hchar.trans_ne (by decide)
  refine ⟨?_, ?_, ?_⟩
  · rw [ResStringPool.string8At, hheader, if_neg (by decide)]
    simp only [hoff, hlengths, Option.bind_eq_bind, Option.bind_some, hsize]
    rw [if_pos (by decide), hdecode]
  · rw [htext, utf8ToUtf16Length_encoded, hunits]
  · rw [ResStringPool.storedLength_eq hoff hlengths]
    rfl

/-- The characters are encoded one by one. -/
theorem encoded_replicate (n : ℕ) : encoded (List.replicate n 'a') = List.replicate n 0x61 := by
  induction n with
  | zero => rfl
  | succ n ih =>
      rw [List.replicate_succ, encoded_cons, ih]
      rfl

/-- Each of them is one unit. -/
theorem length_utf16Units_replicate (n : ℕ) : (utf16Units (List.replicate n 'a')).length = n := by
  induction n with
  | zero => rfl
  | succ n ih =>
      rw [List.replicate_succ, utf16Units_cons, List.length_append, ih, Nat.add_comm]
      rfl

/-- The first read finds the end of the string. -/
theorem decodes_truncatedPool :
    truncatedResult.Decodes 0 (pieceAt truncatedPool 34 0x8000) 0x8000 := by
  refine ResStringPool.decodes_of_start rfl rfl length_truncatedPool load_truncatedPool
    (fieldAt_truncatedPool (by decide)) (fieldAt_truncatedPool_end (by decide)) ?_
    (length_utf16Units_replicate _)
  have hlength : (List.replicate 0x8000 (0x61 : UInt8)).length = 0x8000 := List.length_replicate
  have hdrop : truncatedResult.memory.drop 34 = List.replicate 0x8000 0x61 ++ [0, 0] :=
    List.drop_left' rfl
  rw [encoded_replicate, pieceAt, hdrop, List.take_left' hlength]

/-- **The pool is accepted, and two reads of its string differ.** -/
theorem not_readsAgree_truncatedPool : setTo truncatedPool 0x8024 = some (some truncatedResult)
    ∧ ¬ truncatedResult.ReadsAgree :=
  ⟨setTo_truncatedPool, ResStringPool.not_readsAgree decodes_truncatedPool (by decide)⟩

end AndroidSdk.Androidfw
