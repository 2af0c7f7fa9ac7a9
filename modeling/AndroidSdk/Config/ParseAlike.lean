import AndroidSdk.Config.Parse
import AndroidSdk.Lib.Text
import Mathlib.Data.List.Forall2
import Mathlib.Tactic.Ring

/-! # The two tools on one directory name

When `AaptConfig::parse` and `ConfigDescription::Parse` agree. They accept the same names; the
configurations differ where the older tool clears the country code for a wildcard in place of a
network code, where four characters can be read as a script or as a variant, and where a second
region is shorter than the first.

* **`InOrder`** — the parts are accepted by some of the parsers, in the order of the parsers.
* **`parseQualifiers_cases`** — what a sequence of parsers does, with the fields that it keeps.
* **`parseLocale_cases`** — the two locale parsers side by side.
* **`parse_eq_iff`** — the tools agree exactly on the names that `ParsesAlike` describes. -/

namespace AndroidSdk.Config

open SplitSelect SplitSelect.ResTableConfig

/-! ## Parsers in order -/

/-- Every part is accepted by a parser, in the order of the parsers. -/
def InOrder (qs : List Qualifier) (parts : List Bytes) : Prop :=
  List.SublistForall₂ (fun part (q : Qualifier) => (q part).isSome) parts qs

/-- The parts that are left after a parser was tried on the first one. -/
def dropAccepted (q : Qualifier) : List Bytes → List Bytes
  | [] => []
  | part :: rest => if (q part).isSome then rest else part :: rest

/-- The change that a parser makes if it accepts the first part. -/
def acceptedChange (q : Qualifier) (parts : List Bytes) : ResTableConfig → ResTableConfig :=
  (parts.head?.bind q).getD id

/-- Go on with the parts that are left; no parts are a success. -/
def onParts (next : Continuation) (c : ResTableConfig) : List Bytes → Option ResTableConfig
  | [] => some c
  | part :: rest => next part rest c

/-- A block of the parsing functions, over the parts that are left. -/
theorem onParts_attempt (q : Qualifier) (next : Continuation) (c : ResTableConfig)
    (parts : List Bytes) :
    onParts (attempt q next) c parts
      = onParts next (acceptedChange q parts c) (dropAccepted q parts) := by
  cases parts with
  | nil => rfl
  | cons part rest =>
      cases hq : q part with
      | none => simp [onParts, attempt, acceptedChange, dropAccepted, hq]
      | some f => cases rest <;> simp [onParts, attempt, acceptedChange, dropAccepted, hq]

/-- With a part less there is still an order. -/
theorem InOrder.tail {qs : List Qualifier} {part : Bytes} {rest : List Bytes}
    (h : InOrder qs (part :: rest)) : InOrder qs rest := by
  induction qs with
  | nil => cases h
  | cons q qs ih =>
      cases h with
      | cons _ h => exact .cons_right h
      | cons_right h => exact .cons_right (ih h)

/-- Trying the parsers one after the other finds the order if there is one. -/
theorem inOrder_cons_iff (q : Qualifier) (qs : List Qualifier) (parts : List Bytes) :
    InOrder (q :: qs) parts ↔ InOrder qs (dropAccepted q parts) := by
  cases parts with
  | nil => exact iff_of_true .nil .nil
  | cons part rest =>
      cases hq : (q part).isSome with
      | false =>
          rw [dropAccepted, if_neg (by simp [hq])]
          refine ⟨fun h => ?_, fun h => h.cons_right⟩
          cases h with
          | cons hacc _ => simp [hq] at hacc
          | cons_right h => exact h
      | true =>
          rw [dropAccepted, if_pos hq]
          refine ⟨fun h => ?_, fun h => .cons hq h⟩
          cases h with
          | cons _ h => exact h
          | cons_right h => exact InOrder.tail h

/-! ## What the parsers keep -/

/-- The fields of the locale. -/
def localeFields (c : ResTableConfig) : Code × Code × Vector UInt8 4 × Vector UInt8 8 :=
  (c.language, c.country, c.localeScript, c.localeVariant)

/-- The fields that no parser after the locale changes in the older tool. -/
def fixedFields (c : ResTableConfig) :
    UInt16 × UInt8 × Code × Code × Vector UInt8 4 × Vector UInt8 8 :=
  (c.mcc, c.grammaticalInflection, localeFields c)

/-- A change that keeps these fields. -/
def Keeps (f : ResTableConfig → ResTableConfig) : Prop := ∀ c, fixedFields (f c) = fixedFields c

/-- A parser whose changes keep these fields. -/
def Qualifier.Keeps (q : Qualifier) : Prop := ∀ name, ∀ f ∈ q name, Config.Keeps f

theorem named_keeps {α : Type} {set : α → ResTableConfig → ResTableConfig}
    (names : List (Bytes × α)) (h : ∀ v, Keeps (set v)) : Qualifier.Keeps (named set names) := by
  intro name f hf
  obtain ⟨v, -, rfl⟩ := Option.map_eq_some_iff.mp hf
  exact h v

theorem numbered_keeps (letters suffix : Bytes) {set : UInt16 → ResTableConfig → ResTableConfig}
    (h : ∀ v, Keeps (set v)) : Qualifier.Keeps (numbered letters suffix set) := by
  intro name f hf
  simp only [numbered, Option.mem_def] at hf
  split_ifs at hf <;> cases hf <;> exact h _

theorem parseDensity_keeps : Qualifier.Keeps parseDensity := by
  intro name f hf
  simp only [parseDensity, Option.mem_def] at hf
  split at hf
  · next set hset =>
      cases hf
      have hnamed : Qualifier.Keeps namedDensity := named_keeps _ fun v c => rfl
      exact hnamed name f hset
  · split_ifs at hf
    cases hf
    exact fun c => rfl

theorem parseScreenSize_keeps : Qualifier.Keeps parseScreenSize := by
  intro name f hf
  simp only [parseScreenSize, Option.mem_def] at hf
  split_ifs at hf with hany
  · cases hf
    exact fun c => rfl
  · split at hf
    · split_ifs at hf
      cases hf
      exact fun c => rfl
    · cases hf

/-- The parsers after the locale keep the country code, the gender and the locale. -/
theorem qualifiers_keep : ∀ q ∈ qualifiers, Qualifier.Keeps q := by
  intro q hq
  simp only [qualifiers, List.mem_cons, List.not_mem_nil, or_false] at hq
  rcases hq with rfl | rfl | rfl | rfl | rfl | rfl | rfl | rfl | rfl | rfl | rfl | rfl | rfl | rfl |
    rfl | rfl | rfl | rfl | rfl | rfl
  all_goals first
    | exact named_keeps _ fun v c => rfl
    | exact numbered_keeps _ _ fun v c => rfl
    | exact parseDensity_keeps
    | exact parseScreenSize_keeps

/-- A parser that accepts the first part or leaves it makes a change that keeps the fields. -/
theorem Qualifier.Keeps.acceptedChange {q : Qualifier} (hq : Qualifier.Keeps q)
    (parts : List Bytes) : Config.Keeps (acceptedChange q parts) := by
  intro c
  cases hf : parts.head?.bind q with
  | none => simp [Config.acceptedChange, hf]
  | some f =>
      obtain ⟨part, -, hpart⟩ := Option.bind_eq_some_iff.mp hf
      simpa [Config.acceptedChange, hf] using hq part f hpart c

/-- **A sequence of parsers** accepts parts that are in order, by a change that does not depend on
the configuration, and no others. -/
theorem parseQualifiers_cases {qs : List Qualifier} (hqs : ∀ q ∈ qs, Qualifier.Keeps q)
    (parts : List Bytes) :
    (InOrder qs parts ∧ ∃ f, Keeps f ∧ ∀ c, onParts (parseQualifiers qs) c parts = some (f c)) ∨
      (¬ InOrder qs parts ∧ ∀ c, onParts (parseQualifiers qs) c parts = none) := by
  induction qs generalizing parts with
  | nil =>
      cases parts with
      | nil => exact .inl ⟨.nil, id, fun c => rfl, fun c => rfl⟩
      | cons part rest => exact .inr ⟨nofun, fun c => rfl⟩
  | cons q qs ih =>
      have hstep : ∀ c, onParts (parseQualifiers (q :: qs)) c parts
          = onParts (parseQualifiers qs) (acceptedChange q parts c) (dropAccepted q parts) :=
        fun c => onParts_attempt q (parseQualifiers qs) c parts
      have hq := (hqs q (by simp)).acceptedChange parts
      rw [inOrder_cons_iff]
      refine (ih (fun q' hq' => hqs q' (by simp [hq'])) (dropAccepted q parts)).imp ?_ ?_
      · rintro ⟨hin, f, hf, hrun⟩
        exact ⟨hin, fun c => f (acceptedChange q parts c), fun c => (hf _).trans (hq c),
          fun c => (hstep c).trans (hrun _)⟩
      · rintro ⟨hin, hrun⟩
        exact ⟨hin, fun c => (hstep c).trans (hrun _)⟩

/-! ## The locale -/

/-- The subtags of a modified BCP 47 tag, after its `b+`. -/
def subtags (part : Bytes) : List Bytes := splitAndLowerCase (part.drop 2) 43

/-- The lengths that both tools ask of the subtags. -/
def WellFormedTag : List Bytes → Prop
  | [_] => True
  | [_, second] => 2 ≤ second.length ∧ second.length ≤ 8
  | [_, second, _] => 2 ≤ second.length ∧ second.length ≤ 4
  | [_, _, _, _] => True
  | _ => False

/-- A region that is written over another one is packed as if it stood alone: the characters that
stay of the first one do not count. -/
def RegionsAgree (first second : Bytes) : Prop :=
  packRegion (safeTransformCopy ((second ++ first.drop second.length).map toUpper))
    = packRegion (safeTransformCopy (second.map toUpper))

/-- The subtags that both tools read alike: four characters are letters or begin with a digit, and
regions that follow each other agree. -/
def SubtagsAlike : List Bytes → Prop
  | [_, second] => second.length = 4 → isAlpha second ∨ second.head?.any isDigit
  | [_, second, third] => second.length < 4 → third.length < 4 → RegionsAgree second third
  | _ => True

/-- The number of parts that spell the locale. -/
def localeLength : List Bytes → ℕ
  | [] => 0
  | part :: rest =>
      if bytes "b+" <+: part then 1
      else if (part.length = 2 ∨ part.length = 3) ∧ isAlpha part ∧ part ≠ bytes "car" then
        match rest with
        | [] => 1
        | next :: _ => if next.head? = some 114 ∧ next.length = 3 then 2 else 1
      else 0

/-- Copying over a copy is copying what stays of it after. -/
theorem copyChars_copyChars {n : ℕ} (first second : Bytes) (old : Vector UInt8 n) :
    copyChars second (copyChars first old) = copyChars (second ++ first.drop second.length) old := by
  ext i hi
  simp only [copyChars, Vector.getElem_ofFn, List.getElem?_append, List.getElem?_drop]
  by_cases hlt : i < second.length
  · simp [hlt]
  · have : second.length + (i - second.length) = i := by omega
    simp [hlt, this]

/-- The characters of a field that was written. -/
theorem getElem_safeTransformCopy {n : ℕ} (chars : Bytes) (i : ℕ) (hi : i < n) :
    (safeTransformCopy chars : Vector UInt8 n)[i] = (chars[i]?).getD 0 := by
  simp [safeTransformCopy, copyChars]

/-- The upper case of a character is the character or a letter. -/
theorem toUpper_cases (c : UInt8) :
    toUpper c = c ∨ 65 ≤ (toUpper c).toNat ∧ (toUpper c).toNat ≤ 90 := by
  simp only [toUpper]
  split_ifs with hlower
  · right
    have h97 := UInt8.le_iff_toNat_le.mp hlower.1
    have h122 := UInt8.le_iff_toNat_le.mp hlower.2
    rw [UInt8.toNat_sub_of_le _ _ (UInt8.le_iff_toNat_le.mpr (by simp at *; omega))]
    simp at *
    omega
  · exact .inl rfl

/-- The upper case of a character is no other character that is not a letter. -/
theorem toUpper_ne {c d : UInt8} (hc : c ≠ d) (hd : d.toNat < 65) : toUpper c ≠ d := by
  rcases toUpper_cases c with h | h
  · rwa [h]
  · rintro rfl
    omega

/-- A locale without a field is not written. -/
theorem writeTo_empty {c : ResTableConfig} (hc : localeFields c = localeFields defaultConfig) :
    LocaleValue.empty.writeTo c = c := by
  simp only [localeFields, Prod.mk.injEq] at hc
  obtain ⟨h₁, h₂, -, -⟩ := hc
  cases c
  simp_all [LocaleValue.writeTo, LocaleValue.empty, packLanguage, packRegion, packLanguageOrRegion,
    defaultConfig]

/-- Two locales are written alike exactly if a condition holds; otherwise the locales of
configurations without one differ after they are written. -/
structure WrittenAlike (p : Prop) (l₁ l₂ : LocaleValue) : Prop where
  eq : p → ∀ c, l₁.writeTo c = l₂.writeTo c
  ne : ¬ p → ∀ c c', localeFields c = localeFields defaultConfig →
    localeFields c' = localeFields defaultConfig →
    localeFields (l₁.writeTo c) ≠ localeFields (l₂.writeTo c')

theorem WrittenAlike.of_eq {p : Prop} (hp : p) {l₁ l₂ : LocaleValue} (h : l₁ = l₂) :
    WrittenAlike p l₁ l₂ := ⟨fun _ c => by rw [h], fun hn => absurd hp hn⟩

/-- Four letters do not begin with a digit. -/
theorem not_isDigit_of_isAlpha {s : Bytes} (h : isAlpha s) : ¬ s.head?.any isDigit := by
  cases s with
  | nil => simp
  | cons c rest =>
      simp only [isAlpha, List.all_cons, Bool.and_eq_true, isAlphaChar, decide_eq_true_eq] at h
      simp only [List.head?_cons, Option.any_some, isDigit, decide_eq_true_eq, not_and]
      intro _
      simp only [UInt8.le_iff_toNat_le] at h ⊢
      simp at h ⊢
      omega

/-- A script in place of a variant is written differently. -/
theorem writtenAlike_script {p : Prop} (hp : ¬ p) (language : Bytes) {second : Bytes}
    (h0 : (0 : UInt8) ∉ second) (hlen : second.length = 4) :
    WrittenAlike p (Aapt.setVariant second (Aapt.setLanguage language .empty))
      (Aapt2.setScript second (Aapt2.setLanguage language .empty)) := by
  refine ⟨fun h => absurd h hp, fun _ c c' hc hc' heq => ?_⟩
  obtain ⟨b, rest, rfl⟩ := List.exists_cons_of_length_eq_add_one hlen
  have hb : toUpper b ≠ 0 := toUpper_ne (fun h => h0 (by simp [h])) (by decide)
  have hscript : (safeTransformCopy (titleCase (b :: rest)) : Vector UInt8 4)[0] = toUpper b :=
    getElem_safeTransformCopy _ 0 (by decide)
  -- the older tool leaves the script of the configuration, which has none
  have hleft : (LocaleValue.writeTo (Aapt.setVariant (b :: rest)
      (Aapt.setLanguage language .empty)) c).localeScript = defaultConfig.localeScript := by
    simp only [localeFields, Prod.mk.injEq] at hc
    simp [LocaleValue.writeTo, Aapt.setVariant, Aapt.setLanguage, LocaleValue.empty, hc]
  have hright : (LocaleValue.writeTo (Aapt2.setScript (b :: rest)
      (Aapt2.setLanguage language .empty)) c').localeScript
      = safeTransformCopy (titleCase (b :: rest)) := by
    simp [LocaleValue.writeTo, Aapt2.setScript, hscript, hb]
  have hsame : defaultConfig.localeScript = safeTransformCopy (titleCase (b :: rest)) := by
    rw [← hleft, ← hright]
    exact congrArg (·.2.2.1) heq
  apply hb
  rw [← hscript, ← hsame]
  rfl

/-- A second region is written alike if the regions agree. -/
theorem writtenAlike_region {p : Prop} {first second : Bytes}
    (hp : p ↔ RegionsAgree first second) (language : Bytes) :
    WrittenAlike p
      (Aapt.setRegion second (Aapt.setRegion first (Aapt.setLanguage language .empty)))
      (Aapt2.setRegion second (Aapt2.setRegion first (Aapt2.setLanguage language .empty))) := by
  have hcopy : copyChars (second.map toUpper)
      (copyChars (first.map toUpper) (Vector.replicate 4 0))
      = safeTransformCopy ((second ++ first.drop second.length).map toUpper) := by
    rw [copyChars_copyChars, safeTransformCopy, List.map_append, List.map_drop, List.length_map]
  constructor
  · intro h c
    have hagree : packRegion (copyChars (second.map toUpper)
        (copyChars (first.map toUpper) (Vector.replicate 4 0)))
        = packRegion (safeTransformCopy (second.map toUpper)) := by rw [hcopy]; exact hp.mp h
    simp [LocaleValue.writeTo, Aapt.setRegion, Aapt2.setRegion, Aapt.setLanguage, Aapt2.setLanguage,
      LocaleValue.empty, hagree, safeTransformCopy]
  · intro h c c' _ _ heq
    apply h
    rw [hp, RegionsAgree, ← hcopy]
    exact congrArg (·.2.1) heq

/-- Both tools accept the subtags if they are well formed, and write them alike as `SubtagsAlike`
says; otherwise both reject them. -/
def ReadByBoth (ts : List Bytes) : Prop :=
  (WellFormedTag ts ∧ ∃ l₁ l₂, Aapt.initFromSubtags ts = some l₁ ∧
    Aapt2.initFromSubtags ts = some l₂ ∧ WrittenAlike (SubtagsAlike ts) l₁ l₂) ∨
  (¬ WellFormedTag ts ∧ Aapt.initFromSubtags ts = none ∧ Aapt2.initFromSubtags ts = none)

theorem readByBoth_two (language : Bytes) {second : Bytes} (h0 : (0 : UInt8) ∉ second) :
    ReadByBoth [language, second] := by
  simp only [ReadByBoth, WellFormedTag, Aapt.initFromSubtags, Aapt2.initFromSubtags, SubtagsAlike]
  by_cases hregion : second.length = 2 ∨ second.length = 3
  · exact .inl ⟨by omega, _, _, if_pos hregion, if_pos hregion, .of_eq (by omega) rfl⟩
  rw [if_neg hregion, if_neg hregion]
  by_cases hfour : second.length = 4
  · refine .inl ⟨by omega, ?_⟩
    by_cases halpha : isAlpha second
    · have hdigit := not_isDigit_of_isAlpha halpha
      exact ⟨_, _, if_pos ⟨hfour, halpha⟩, if_pos ⟨hfour, hdigit⟩,
        .of_eq (fun _ => .inl halpha) rfl⟩
    · rw [if_neg (by simp [halpha]), if_pos (by omega)]
      by_cases hdigit : second.head?.any isDigit
      · rw [if_neg (by simp [hdigit]), if_pos (by omega)]
        exact ⟨_, _, rfl, rfl, .of_eq (fun _ => .inr hdigit) rfl⟩
      · -- the older tool sees a character that is not a letter, the newer one no digit
        rw [if_pos ⟨hfour, hdigit⟩]
        exact ⟨_, _, rfl, rfl,
          writtenAlike_script (by simp [hfour, halpha, hdigit]) language h0 hfour⟩
  · simp only [hfour, false_and, if_false]
    by_cases hvariant : 4 ≤ second.length ∧ second.length ≤ 8
    · exact .inl ⟨by omega, _, _, if_pos hvariant, if_pos hvariant, .of_eq (by simp) rfl⟩
    · exact .inr ⟨by omega, if_neg hvariant, if_neg hvariant⟩

theorem readByBoth_three (language second third : Bytes) :
    ReadByBoth [language, second, third] := by
  simp only [ReadByBoth, WellFormedTag, Aapt.initFromSubtags, Aapt2.initFromSubtags, SubtagsAlike]
  by_cases hscript : second.length = 4
  · rw [if_pos hscript, if_pos hscript]
    refine .inl ⟨by omega, ?_⟩
    by_cases hvariant : 4 ≤ third.length
    · exact ⟨_, _, if_pos hvariant, if_pos hvariant, .of_eq (by omega) rfl⟩
    · exact ⟨_, _, if_neg hvariant, if_neg hvariant, .of_eq (by omega) rfl⟩
  rw [if_neg hscript, if_neg hscript]
  by_cases hregion : second.length = 2 ∨ second.length = 3
  · rw [if_pos hregion, if_pos hregion]
    refine .inl ⟨by omega, ?_⟩
    by_cases hvariant : 4 ≤ third.length
    · exact ⟨_, _, if_pos hvariant, if_pos hvariant, .of_eq (by omega) rfl⟩
    · -- a region after a region
      refine ⟨_, _, if_neg hvariant, if_neg hvariant, writtenAlike_region ?_ language⟩
      exact ⟨fun h => h (by omega) (by omega), fun h _ _ => h⟩
  · rw [if_neg hregion, if_neg hregion]
    exact .inr ⟨by omega, rfl, rfl⟩

/-- **The subtags in both tools**. -/
theorem readByBoth {ts : List Bytes} (h0 : ∀ t ∈ ts, (0 : UInt8) ∉ t) : ReadByBoth ts := by
  match ts with
  | [] => exact .inr ⟨id, rfl, rfl⟩
  | [language] => exact .inl ⟨trivial, _, _, rfl, rfl, .of_eq trivial rfl⟩
  | [language, second] => exact readByBoth_two language (h0 second (by simp))
  | [language, second, third] => exact readByBoth_three language second third
  | [language, script, region, variant] =>
      exact .inl ⟨trivial, _, _, rfl, rfl, .of_eq trivial rfl⟩
  | _ :: _ :: _ :: _ :: _ :: _ => exact .inr ⟨id, rfl, rfl⟩

/-- The tag that the parts begin with, if they begin with one, is well formed. -/
def TagWellFormed (parts : List Bytes) : Prop :=
  ∀ part ∈ parts.head?, bytes "b+" <+: part → WellFormedTag (subtags part)

/-- The tag that the parts begin with, if they begin with one, is read alike. -/
def TagAlike (parts : List Bytes) : Prop :=
  ∀ part ∈ parts.head?, bytes "b+" <+: part → SubtagsAlike (subtags part)

/-- The older tool splits the tag together with its `b+`. -/
theorem splitAndLowerCase_drop_one {part : Bytes} (h : bytes "b+" <+: part) :
    (splitAndLowerCase part 43).drop 1 = subtags part := by
  obtain ⟨rest, rfl⟩ := h
  have hb : bytes "b+" = [98, 43] := rfl
  rw [hb, subtags, splitAndLowerCase, splitAndLowerCase]
  simp [List.splitOn, List.splitOnP_cons_eq_if_modifyHead]

/-- The locale parser of the older tool, over the parts that are left. -/
theorem onParts_aapt_parseLocale (next : Continuation) (c : ResTableConfig) (part : Bytes)
    (rest : List Bytes) :
    onParts (Aapt.parseLocale next) c (part :: rest)
      = (Aapt.initFromDirName part rest).bind fun r =>
          onParts next (if 0 < r.2 then r.1.writeTo c else c) ((part :: rest).drop r.2) := by
  rw [onParts, Aapt.parseLocale]
  cases Aapt.initFromDirName part rest with
  | none => rfl
  | some r =>
      obtain ⟨l, n⟩ := r
      cases n with
      | zero => rfl
      | succ n =>
          simp only [Option.bind_some, Nat.zero_lt_succ, if_true]
          cases (part :: rest).drop (n + 1) <;> rfl

/-- The locale parser of the newer tool, over the parts that are left. -/
theorem onParts_aapt2_parseLocale (next : Continuation) (c : ResTableConfig) (part : Bytes)
    (rest : List Bytes) :
    onParts (Aapt2.parseLocale next) c (part :: rest)
      = (Aapt2.initFromParts part rest).bind fun r =>
          onParts next (r.1.writeTo c) ((part :: rest).drop r.2) := by
  rw [onParts, Aapt2.parseLocale]
  cases Aapt2.initFromParts part rest with
  | none => rfl
  | some r =>
      simp only [Option.bind_some]
      cases (part :: rest).drop r.2 <;> rfl

/-- The pieces of a C string are C strings. -/
theorem zero_notMem_of_mem_splitAndLowerCase {str : Bytes} (h0 : (0 : UInt8) ∉ str) {sep : UInt8}
    {part : Bytes} (hpart : part ∈ splitAndLowerCase str sep) : (0 : UInt8) ∉ part := by
  obtain ⟨piece, hpiece, rfl⟩ := List.mem_map.mp hpart
  intro hmem
  obtain ⟨b, hb, hzero⟩ := List.mem_map.mp hmem
  have hb0 : b = 0 := by
    simp only [toLower] at hzero
    split_ifs at hzero with hupper
    · have hle := UInt8.le_iff_toNat_le.mp hupper.2
      have := congrArg UInt8.toNat hzero
      simp [UInt8.toNat_add] at *
      omega
    · exact hzero
  exact h0 (hb0 ▸ Lib.mem_of_mem_splitOnP hpiece hb)

/-- **The locale in both tools**: a malformed tag is rejected by both; otherwise both consume the
same parts, and write locales that are alike as `TagAlike` says. -/
theorem parseLocale_cases {parts : List Bytes} (h0 : ∀ part ∈ parts, (0 : UInt8) ∉ part) :
    (TagWellFormed parts ∧ ∃ l₁ l₂, WrittenAlike (TagAlike parts) l₁ l₂ ∧
      ∀ next c, localeFields c = localeFields defaultConfig →
        onParts (Aapt.parseLocale next) c parts
          = onParts next (l₁.writeTo c) (parts.drop (localeLength parts)) ∧
        onParts (Aapt2.parseLocale next) c parts
          = onParts next (l₂.writeTo c) (parts.drop (localeLength parts))) ∨
    (¬ TagWellFormed parts ∧ ∀ next c, onParts (Aapt.parseLocale next) c parts = none ∧
      onParts (Aapt2.parseLocale next) c parts = none) := by
  cases parts with
  | nil =>
      refine .inl ⟨nofun, .empty, .empty, .of_eq nofun rfl, fun next c hc => ?_⟩
      rw [writeTo_empty hc]
      exact ⟨rfl, rfl⟩
  | cons part rest =>
      simp only [onParts_aapt_parseLocale, onParts_aapt2_parseLocale, Aapt.initFromDirName,
        Aapt2.initFromParts, Aapt2.initFromBcp47TagImpl, localeLength]
      -- a part with `b+` is a tag, which both read as a whole
      by_cases htag : bytes "b+" <+: part
      · have hformed : TagWellFormed (part :: rest) ↔ WellFormedTag (subtags part) := by
          simp [TagWellFormed, htag]
        have halike : TagAlike (part :: rest) ↔ SubtagsAlike (subtags part) := by
          simp [TagAlike, htag]
        have hsub : ∀ t ∈ subtags part, (0 : UInt8) ∉ t := fun t ht =>
          zero_notMem_of_mem_splitAndLowerCase
            (fun hmem => h0 part (by simp) (List.mem_of_mem_drop hmem)) ht
        simp only [htag, if_true, splitAndLowerCase_drop_one htag]
        rw [← subtags, hformed, halike]
        refine (readByBoth hsub).imp ?_ ?_
        · rintro ⟨hwell, l₁, l₂, h₁, h₂, hwritten⟩
          refine ⟨hwell, l₁, l₂, hwritten, fun next c _ => ?_⟩
          simp [h₁, h₂]
        · rintro ⟨hbad, h₁, h₂⟩
          exact ⟨hbad, fun next c => by simp [h₁, h₂]⟩
      · have hformed : TagWellFormed (part :: rest) := by simp [TagWellFormed, htag]
        have halike : TagAlike (part :: rest) := by simp [TagAlike, htag]
        refine .inl ⟨hformed, ?_⟩
        simp only [htag, if_false]
        -- without it a language may come first, and then a region
        by_cases hlang : (part.length = 2 ∨ part.length = 3) ∧ isAlpha part ∧ part ≠ bytes "car"
        · cases rest with
          | nil =>
              refine ⟨Aapt.setLanguage part .empty, Aapt2.setLanguage part .empty,
                .of_eq halike rfl, fun next c _ => ?_⟩
              rw [if_pos hlang, if_pos hlang, if_pos hlang]
              exact ⟨rfl, rfl⟩
          | cons region rest =>
              by_cases hregion : region.head? = some 114 ∧ region.length = 3
              · refine ⟨Aapt.setRegion (region.drop 1) (Aapt.setLanguage part .empty),
                  Aapt2.setRegion (region.drop 1) (Aapt2.setLanguage part .empty),
                  .of_eq halike rfl, fun next c _ => ?_⟩
                rw [if_pos hlang, if_pos hlang, if_pos hlang]
                simp only [if_pos hregion]
                exact ⟨rfl, rfl⟩
              · refine ⟨Aapt.setLanguage part .empty, Aapt2.setLanguage part .empty,
                  .of_eq halike rfl, fun next c _ => ?_⟩
                rw [if_pos hlang, if_pos hlang, if_pos hlang]
                simp only [if_neg hregion]
                exact ⟨rfl, rfl⟩
        -- what is no language is left to the next axis
        · refine ⟨.empty, .empty, .of_eq halike rfl, fun next c hc => ?_⟩
          simp [hlang, writeTo_empty hc]

/-! ## Country and network codes -/

/-- The parts after a country and a network code. -/
def afterImsi (parts : List Bytes) : List Bytes :=
  dropAccepted Aapt2.parseMnc (dropAccepted Aapt2.parseMcc parts)

/-- A country code other than the wildcard, followed by the wildcard. -/
def MccThenWildcard (parts : List Bytes) : Prop :=
  ∃ mcc rest, parts = mcc :: kWildcardName :: rest ∧ (Aapt2.parseMcc mcc).isSome ∧
    mcc ≠ kWildcardName

/-- The parts are in lower case. -/
def Lowercase (part : Bytes) : Prop := part.map toLower = part

theorem lowercase_of_mem_splitAndLowerCase {str : Bytes} {sep : UInt8} {part : Bytes}
    (hpart : part ∈ splitAndLowerCase str sep) : Lowercase part := by
  obtain ⟨piece, -, rfl⟩ := List.mem_map.mp hpart
  rw [Lowercase, List.map_map]
  refine List.map_congr_left fun c _ => ?_
  simp only [Function.comp_apply, toLower]
  split_ifs with h₁ h₂
  · have hle := UInt8.le_iff_toNat_le.mp h₁.1
    have hge := UInt8.le_iff_toNat_le.mp h₁.2
    have hle' := UInt8.le_iff_toNat_le.mp h₂.2
    simp [UInt8.toNat_add] at hle hge hle'
    omega
  · rfl
  · rfl

theorem Lowercase.take {part : Bytes} (h : Lowercase part) (n : ℕ) :
    (part.take n).map toLower = part.take n := by
  rw [List.map_take, h]

/-- The older tool compares the letters of a code without regard to case. -/
theorem Lowercase.parseMcc_eq {part : Bytes} (h : Lowercase part) :
    Aapt.parseMcc part = Aapt2.parseMcc part := by
  simp only [Aapt.parseMcc, Aapt2.parseMcc, h.take]

theorem Lowercase.parseMnc_eq {part : Bytes} (h : Lowercase part) (hany : part ≠ kWildcardName) :
    Aapt.parseMnc part = Aapt2.parseMnc part := by
  simp only [Aapt.parseMnc, Aapt2.parseMnc, h.take, hany, if_false]

/-- Digits spell a number below the power of ten with as many zeros. -/
theorem decimal_lt {digits : Bytes} (h : ∀ c ∈ digits, isDigit c) :
    decimal digits < 10 ^ digits.length := by
  -- the induction runs over the value of the digits before
  have hacc : ∀ n, digits.foldl (fun n c => 10 * n + (c.toNat - 48)) n
      < (n + 1) * 10 ^ digits.length := by
    induction digits with
    | nil => simp
    | cons c digits ih =>
        intro n
        have hc : c.toNat - 48 ≤ 9 := by
          have := h c (by simp)
          simp only [isDigit, decide_eq_true_eq, UInt8.le_iff_toNat_le] at this
          simp at this
          omega
        rw [List.foldl_cons, List.length_cons, pow_succ']
        calc _ < (10 * n + (c.toNat - 48) + 1) * 10 ^ digits.length :=
              ih (fun c' hc' => h c' (by simp [hc'])) _
          _ ≤ (10 * (n + 1)) * 10 ^ digits.length := Nat.mul_le_mul_right _ (by omega)
          _ = (n + 1) * (10 * 10 ^ digits.length) := by ring
  simpa [decimal] using hacc 0

/-- A country code other than the wildcard is not zero. -/
theorem mcc_ne_zero {part : Bytes} {f : ResTableConfig → ResTableConfig}
    (hf : Aapt2.parseMcc part = some f) (hany : part ≠ kWildcardName) (c : ResTableConfig) :
    (f c).mcc ≠ 0 := by
  simp only [Aapt2.parseMcc, hany, if_false] at hf
  split_ifs at hf with hletters hbad
  cases hf
  obtain ⟨-, hlen, hzero⟩ := not_or.mp hbad |>.imp_right not_or.mp
  have hdigits : ∀ c ∈ (part.drop 3).takeWhile isDigit, isDigit c :=
    fun c hc => List.mem_takeWhile_imp hc
  have hlt := decimal_lt hdigits
  rw [not_not.mp hlen] at hlt
  have hatoi : (atoi ((part.drop 3).takeWhile isDigit)).toNat
      = decimal ((part.drop 3).takeWhile isDigit) := by
    simp only [atoi, UInt32.toNat_ofNat']
    omega
  intro h
  apply hzero
  have h16 := congrArg UInt16.toNat h
  simp only [UInt32.toNat_toUInt16, hatoi] at h16
  apply UInt32.toNat_inj.mp
  simp at h16 ⊢
  omega

/-- The configuration after the codes, with the parsers of a tool. -/
def imsiConfig (mcc mnc : Qualifier) (parts : List Bytes) : ResTableConfig :=
  acceptedChange mnc (dropAccepted mcc parts) (acceptedChange mcc parts defaultConfig)

/-- The parsers of the codes of both tools. -/
def imsiQualifiers : List Qualifier :=
  [Aapt.parseMcc, Aapt.parseMnc, Aapt2.parseMcc, Aapt2.parseMnc]

/-- The codes leave the gender and the locale. -/
theorem acceptedChange_imsi {q : Qualifier} (hq : q ∈ imsiQualifiers) (parts : List Bytes)
    (c : ResTableConfig) :
    (acceptedChange q parts c).grammaticalInflection = c.grammaticalInflection ∧
      localeFields (acceptedChange q parts c) = localeFields c := by
  cases hf : parts.head?.bind q with
  | none => simp [acceptedChange, hf]
  | some f =>
      obtain ⟨part, -, hpart⟩ := Option.bind_eq_some_iff.mp hf
      simp only [acceptedChange, hf, Option.getD_some]
      simp only [imsiQualifiers, List.mem_cons, List.not_mem_nil, or_false] at hq
      rcases hq with rfl | rfl | rfl | rfl
      all_goals
        simp only [Aapt.parseMcc, Aapt.parseMnc, Aapt2.parseMcc, Aapt2.parseMnc] at hpart
        split_ifs at hpart <;> cases hpart <;> exact ⟨rfl, rfl⟩

theorem imsiConfig_fields (mcc mnc : Qualifier) (hmcc : mcc ∈ imsiQualifiers)
    (hmnc : mnc ∈ imsiQualifiers) (parts : List Bytes) :
    (imsiConfig mcc mnc parts).grammaticalInflection = 0 ∧
      localeFields (imsiConfig mcc mnc parts) = localeFields defaultConfig := by
  have h₁ := acceptedChange_imsi hmcc parts defaultConfig
  have h₂ := acceptedChange_imsi hmnc (dropAccepted mcc parts)
    (acceptedChange mcc parts defaultConfig)
  exact ⟨h₂.1.trans h₁.1, h₂.2.trans h₁.2⟩

/-- The parts that are left after a parser was tried are parts of the name. -/
theorem mem_of_mem_dropAccepted {q : Qualifier} {parts : List Bytes} {part : Bytes}
    (h : part ∈ dropAccepted q parts) : part ∈ parts := by
  cases parts with
  | nil => exact h
  | cons part' rest =>
      simp only [dropAccepted] at h
      split_ifs at h
      · exact List.mem_cons_of_mem part' h
      · exact h

/-- Both tools accept the same codes. -/
theorem dropAccepted_imsi {parts : List Bytes} (hlower : ∀ part ∈ parts, Lowercase part) :
    dropAccepted Aapt.parseMnc (dropAccepted Aapt.parseMcc parts) = afterImsi parts := by
  have hmcc : dropAccepted Aapt.parseMcc parts = dropAccepted Aapt2.parseMcc parts := by
    cases parts with
    | nil => rfl
    | cons part rest => simp only [dropAccepted, (hlower part (by simp)).parseMcc_eq]
  have hmnc : ∀ part ∈ parts, (Aapt.parseMnc part).isSome = (Aapt2.parseMnc part).isSome := by
    intro part hpart
    by_cases hany : part = kWildcardName
    · simp [Aapt.parseMnc, Aapt2.parseMnc, hany]
    · rw [(hlower part hpart).parseMnc_eq hany]
  rw [hmcc, afterImsi]
  cases hrest : dropAccepted Aapt2.parseMcc parts with
  | nil => rfl
  | cons part rest =>
      simp only [dropAccepted]
      rw [hmnc part (mem_of_mem_dropAccepted (hrest ▸ List.mem_cons_self))]

/-- **The codes in both tools**: the configurations differ only if the older one has cleared a
country code for a wildcard. -/
theorem imsiConfig_cases {parts : List Bytes} (hlower : ∀ part ∈ parts, Lowercase part) :
    (MccThenWildcard parts ∧ (imsiConfig Aapt.parseMcc Aapt.parseMnc parts).mcc
      ≠ (imsiConfig Aapt2.parseMcc Aapt2.parseMnc parts).mcc) ∨
    (¬ MccThenWildcard parts ∧ imsiConfig Aapt.parseMcc Aapt.parseMnc parts
      = imsiConfig Aapt2.parseMcc Aapt2.parseMnc parts) := by
  cases parts with
  | nil => exact .inr ⟨nofun, rfl⟩
  | cons part rest =>
      have hmcc := (hlower part (by simp)).parseMcc_eq
      cases hf : Aapt2.parseMcc part with
      | none =>
          -- the wildcard is a country code for both tools
          have hany : part ≠ kWildcardName := by
            rintro rfl
            simp [Aapt2.parseMcc] at hf
          refine .inr ⟨?_, ?_⟩
          · rintro ⟨mcc, rest', heq, hacc, -⟩
            cases heq
            simp [hf] at hacc
          · simp [imsiConfig, acceptedChange, dropAccepted, hmcc, hf,
              (hlower part (by simp)).parseMnc_eq hany]
      | some f =>
          cases rest with
          | nil =>
              refine .inr ⟨nofun, ?_⟩
              simp [imsiConfig, acceptedChange, dropAccepted, hmcc, hf]
          | cons next rest =>
              simp only [imsiConfig, acceptedChange, dropAccepted, hmcc, hf, List.head?_cons,
                Option.bind_some, Option.isSome_some, if_true, Option.getD_some]
              by_cases hnext : next = kWildcardName
              -- the wildcard behind a country code is read apart, unless that is a wildcard, too
              · subst hnext
                by_cases hany : part = kWildcardName
                · refine .inr ⟨?_, ?_⟩
                  · rintro ⟨mcc, rest', heq, -, hne⟩
                    cases heq
                    exact hne hany
                  · simp only [hany, Aapt2.parseMcc, if_true, Option.some.injEq] at hf
                    subst hf
                    rfl
                · refine .inl ⟨⟨part, rest, rfl, by simp [hf], hany⟩, ?_⟩
                  simp [Aapt.parseMnc, Aapt2.parseMnc, (mcc_ne_zero hf hany _).symm]
              · refine .inr ⟨?_, ?_⟩
                · rintro ⟨mcc, rest', heq, -, -⟩
                  cases heq
                  exact hnext rfl
                · rw [(hlower next (by simp)).parseMnc_eq hnext]

/-! ## The directory name -/

/-- The shape of the names that both tools accept: after the codes comes no malformed tag, and the
parts after the locale are in order. -/
structure Recognised (parts : List Bytes) : Prop where
  tag : TagWellFormed (afterImsi parts)
  rest : InOrder qualifiers ((afterImsi parts).drop (localeLength (afterImsi parts)))

/-- The names that both tools read alike: those that both reject, and those with no wildcard after a
country code and with a tag that is read alike. -/
def ParsesAlike (parts : List Bytes) : Prop :=
  Recognised parts → ¬ MccThenWildcard parts ∧ TagAlike (afterImsi parts)

/-- Raising the version keeps the country code, the gender and the locale. -/
theorem applyVersion_keeps (minSdk : UInt16) : Keeps (applyVersion minSdk) := by
  intro c
  simp only [applyVersion]
  split_ifs <;> rfl

/-- Without a gender both tools imply the same version. -/
theorem applyVersionForCompatibility_eq {c : ResTableConfig} (hc : c.grammaticalInflection = 0) :
    Aapt2.applyVersionForCompatibility c = Aapt.applyVersionForCompatibility c := by
  simp [Aapt.applyVersionForCompatibility, Aapt2.applyVersionForCompatibility, hc]

/-- The parsers of the newer tool on parts that are not genders. -/
theorem onParts_gender {parts : List Bytes} (hgender : ∀ part ∈ parts,
    parseGrammaticalInflection part = none) (c : ResTableConfig) :
    onParts (parseQualifiers (parseGrammaticalInflection :: qualifiers)) c parts
      = onParts (parseQualifiers qualifiers) c parts := by
  refine (onParts_attempt _ _ c parts).trans ?_
  cases parts with
  | nil => rfl
  | cons part rest =>
      simp only [acceptedChange, dropAccepted, hgender part (by simp), List.head?_cons,
        Option.bind_some, Option.isSome_none]
      rfl

/-- The parts of a name in both tools, after the codes. -/
theorem onParts_parseParts {parts : List Bytes} (hparts : parts ≠ []) :
    Aapt.parseParts parts = onParts (Aapt.parseLocale (parseQualifiers qualifiers))
      (imsiConfig Aapt.parseMcc Aapt.parseMnc parts)
      (dropAccepted Aapt.parseMnc (dropAccepted Aapt.parseMcc parts)) ∧
    Aapt2.parseParts parts
      = onParts (Aapt2.parseLocale (parseQualifiers (parseGrammaticalInflection :: qualifiers)))
        (imsiConfig Aapt2.parseMcc Aapt2.parseMnc parts) (afterImsi parts) := by
  obtain ⟨part, rest, rfl⟩ := List.exists_cons_of_ne_nil hparts
  constructor
  · refine (onParts_attempt Aapt.parseMcc _ defaultConfig (part :: rest)).trans ?_
    rw [onParts_attempt]
    rfl
  · refine (onParts_attempt Aapt2.parseMcc _ defaultConfig (part :: rest)).trans ?_
    rw [onParts_attempt]
    rfl

/-- **The parts of a name in both tools**: the two agree exactly if the parts are read alike. -/
theorem parseParts_eq_iff {parts : List Bytes} (hparts : parts ≠ [])
    (h0 : ∀ part ∈ parts, (0 : UInt8) ∉ part) (hlower : ∀ part ∈ parts, Lowercase part)
    (hgender : ∀ part ∈ parts, parseGrammaticalInflection part = none) :
    (Aapt.parseParts parts).map Aapt.applyVersionForCompatibility
        = (Aapt2.parseParts parts).map Aapt2.applyVersionForCompatibility ↔
      ParsesAlike parts := by
  have hmem : ∀ part ∈ afterImsi parts, part ∈ parts := fun part h =>
    mem_of_mem_dropAccepted (mem_of_mem_dropAccepted h)
  have hzero : ∀ part ∈ afterImsi parts, (0 : UInt8) ∉ part := fun part h => h0 part (hmem part h)
  have hnone : ∀ part ∈ (afterImsi parts).drop (localeLength (afterImsi parts)),
      parseGrammaticalInflection part = none := fun part h =>
    hgender part (hmem part (List.mem_of_mem_drop h))
  obtain ⟨h₁, h₂⟩ := onParts_parseParts hparts
  obtain ⟨-, hfresh₁⟩ := imsiConfig_fields Aapt.parseMcc Aapt.parseMnc
    (by simp [imsiQualifiers]) (by simp [imsiQualifiers]) parts
  obtain ⟨hgi, hfresh₂⟩ := imsiConfig_fields Aapt2.parseMcc Aapt2.parseMnc
    (by simp [imsiQualifiers]) (by simp [imsiQualifiers]) parts
  rw [h₁, h₂, dropAccepted_imsi hlower]
  -- what is left of the parts begins with a locale, which the tools read apart
  rcases parseLocale_cases hzero with ⟨htag, l₁, l₂, hwritten, hrun⟩ | ⟨htag, hrun⟩
  -- the qualifiers behind it are read alike by both
  · rw [(hrun _ _ hfresh₁).1, (hrun _ _ hfresh₂).2, onParts_gender hnone]
    rcases parseQualifiers_cases qualifiers_keep
      ((afterImsi parts).drop (localeLength (afterImsi parts))) with ⟨hin, f, hf, hq⟩ | ⟨hin, hq⟩
    · have hgender₂ : (f (l₂.writeTo (imsiConfig Aapt2.parseMcc Aapt2.parseMnc parts))
          ).grammaticalInflection = 0 :=
        (congrArg (·.2.1) (hf (l₂.writeTo _))).trans hgi
      rw [hq, hq, Option.map_some, Option.map_some, Option.some_inj,
        applyVersionForCompatibility_eq hgender₂]
      constructor
      · intro heq _
        have hfixed := congrArg fixedFields heq
        simp only [Aapt.applyVersionForCompatibility] at hfixed
        rw [applyVersion_keeps, applyVersion_keeps, hf, hf] at hfixed
        refine ⟨fun hmcc => ?_, ?_⟩
        · rcases imsiConfig_cases hlower with ⟨-, hne⟩ | ⟨hn, -⟩
          · exact hne (congrArg (·.1) hfixed)
          · exact hn hmcc
        -- the locale is all that differs
        · by_contra halike
          exact hwritten.ne halike _ _ hfresh₁ hfresh₂ (congrArg (·.2.2) hfixed)
      · intro h
        obtain ⟨hmcc, halike⟩ := h ⟨htag, hin⟩
        rcases imsiConfig_cases hlower with ⟨h', -⟩ | ⟨-, hsame⟩
        · exact absurd h' hmcc
        · rw [hsame, hwritten.eq halike]
    · rw [hq, hq]
      exact iff_of_true rfl fun h => absurd h.rest hin
  · rw [(hrun _ _).1, (hrun _ _).2]
    exact iff_of_true rfl fun h => absurd h.tag htag

/-- The grammatical genders, which only the newer tool knows. -/
def genders : List Bytes := [bytes "feminine", bytes "masculine", bytes "neuter"]

/-- The newer tool sees a gender in no other part. -/
theorem parseGrammaticalInflection_eq_none {part : Bytes} (h : part ∉ genders) :
    parseGrammaticalInflection part = none := by
  rw [parseGrammaticalInflection, named, Option.map_eq_none_iff, List.lookup_eq_none_iff]
  intro entry hentry
  have hmem : entry.1 ∈ genders := List.mem_map_of_mem hentry
  have hne : part ≠ entry.1 := fun heq => h (heq ▸ hmem)
  exact bne_iff_ne.mpr hne

/-- **Both tools on a directory name** without a gender: they accept the name or reject it together,
with the same configuration, exactly if its parts are read alike. -/
theorem parse_eq_iff (str : CString)
    (hgender : ∀ part ∈ splitAndLowerCase str.chars 45, part ∉ genders) :
    Aapt.parse str.chars = Aapt2.parse str.chars ↔
      ParsesAlike (splitAndLowerCase str.chars 45) := by
  by_cases hempty : str.chars = []
  · refine iff_of_true (by simp [Aapt.parse, Aapt2.parse, hempty]; rfl) fun _ => ?_
    rw [hempty]
    refine ⟨nofun, fun part hpart htag => ?_⟩
    have hpart : part = [] := (Option.some.inj hpart).symm
    rw [hpart] at htag
    exact absurd htag (by decide)
  · rw [Aapt.parse, Aapt2.parse, if_neg hempty, if_neg hempty]
    refine parseParts_eq_iff ?_ ?_ ?_ ?_
    · simp [splitAndLowerCase, List.splitOn, List.splitOnP_ne_nil]
    · exact fun part => zero_notMem_of_mem_splitAndLowerCase str.zero_notMem
    · exact fun part => lowercase_of_mem_splitAndLowerCase
    · exact fun part hpart => parseGrammaticalInflection_eq_none (hgender part hpart)

/-- The name `mcc310-en-v21`. -/
def mccEnglish : CString := ⟨bytes "mcc310-en-v21", by decide⟩

/-- The parts of `mcc310-en-v21` are read alike. -/
theorem parse_eq_iff_mccEnglish :
    (∀ part ∈ splitAndLowerCase mccEnglish.chars 45, part ∉ genders) ∧
      ParsesAlike (splitAndLowerCase mccEnglish.chars 45) := by
  have hgender : ∀ part ∈ splitAndLowerCase mccEnglish.chars 45, part ∉ genders := by decide
  exact ⟨hgender, (parse_eq_iff mccEnglish hgender).mp (by decide +kernel)⟩

/-- The name `mcc310-any`. -/
def mccWildcard : CString := ⟨bytes "mcc310-any", by decide⟩

/-- `mcc310-any` has the country code 310 for the newer tool and none for the older one. -/
theorem not_parse_eq_mccWildcard :
    ¬ ∀ str : CString, (∀ part ∈ splitAndLowerCase str.chars 45, part ∉ genders) →
      Aapt.parse str.chars = Aapt2.parse str.chars := by
  intro h
  exact absurd (h mccWildcard (by decide)) (by decide +kernel)

end AndroidSdk.Config
