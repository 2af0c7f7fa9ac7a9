import AndroidSdk.Config.Qualifiers

/-! # Parsing a configuration directory with the two tools

`AaptConfig::parse` with `AaptLocaleValue` (`AaptConfig.cpp`, `AaptAssets.cpp`), and
`ConfigDescription::Parse` with `LocaleValue` (`ConfigDescription.cpp`, `Locale.cpp`). The two are
written apart, so that each can be read against its source; what they have in common is in
`Config.Qualifiers`.

* **`LocaleValue`** — the fields of a locale, and how they are written to a configuration.
* **`Aapt.parse`** — the older tool: its setters leave the characters that they do not overwrite.
* **`Aapt2.parse`** — the newer tool: its setters clear the characters after the ones they write. -/

namespace AndroidSdk.Config

open SplitSelect SplitSelect.ResTableConfig

/-- `AaptLocaleValue`, `LocaleValue`. -/
structure LocaleValue where
  language : Vector UInt8 4
  region : Vector UInt8 4
  script : Vector UInt8 4
  variant : Vector UInt8 8
  deriving DecidableEq

namespace LocaleValue

/-- A new locale, which is all zeros. -/
def empty : LocaleValue where
  language := Vector.replicate 4 0
  region := Vector.replicate 4 0
  script := Vector.replicate 4 0
  variant := Vector.replicate 8 0

end LocaleValue

/-- Copy characters over the start of a field, as far as they go and fit. -/
def copyChars {n : ℕ} (chars : Bytes) (old : Vector UInt8 n) : Vector UInt8 n :=
  Vector.ofFn fun i => (chars[i.val]?).getD old[i]

/-- `safe_transform_copy`: the rest of the field is cleared. -/
def safeTransformCopy {n : ℕ} (chars : Bytes) : Vector UInt8 n :=
  copyChars chars (Vector.replicate n 0)

/-- The characters of a script: the first in upper case, the others in lower case. -/
def titleCase : Bytes → Bytes
  | [] => []
  | c :: rest => toUpper c :: rest.map toLower

/-- `packLanguageOrRegion`: two characters, or three packed ones. -/
def packLanguageOrRegion (base : UInt8) (chars : Vector UInt8 4) : Code :=
  if chars[2] = 0 ∨ chars[2] = 45 then ⟨firstOf chars, chars[1]⟩
  else
    let first := (firstOf chars - base) &&& 0x7f
    let second := (chars[1] - base) &&& 0x7f
    let third := (chars[2] - base) &&& 0x7f
    ⟨(0x80 : UInt8) ||| (third <<< 2) ||| (second >>> 3), (second <<< 5) ||| first⟩

/-- `ResTable_config::packLanguage`. -/
def packLanguage (language : Vector UInt8 4) : Code := packLanguageOrRegion 97 language

/-- `ResTable_config::packRegion`. -/
def packRegion (region : Vector UInt8 4) : Code := packLanguageOrRegion 48 region

/-- `writeTo`: a script or a variant is written if it has a first character. -/
def LocaleValue.writeTo (l : LocaleValue) (c : ResTableConfig) : ResTableConfig :=
  { c with
    language := packLanguage l.language
    country := packRegion l.region
    localeScript := if firstOf l.script = 0 then c.localeScript else l.script
    localeVariant := if firstOf l.variant = 0 then c.localeVariant else l.variant }

/-! ## The older tool -/

namespace Aapt

/-- `AaptLocaleValue::setLanguage`. -/
def setLanguage (chars : Bytes) (l : LocaleValue) : LocaleValue :=
  { l with language := copyChars (chars.map toLower) l.language }

/-- `AaptLocaleValue::setRegion`. -/
def setRegion (chars : Bytes) (l : LocaleValue) : LocaleValue :=
  { l with region := copyChars (chars.map toUpper) l.region }

/-- `AaptLocaleValue::setScript`. -/
def setScript (chars : Bytes) (l : LocaleValue) : LocaleValue :=
  { l with script := copyChars (titleCase chars) l.script }

/-- `AaptLocaleValue::setVariant`. -/
def setVariant (chars : Bytes) (l : LocaleValue) : LocaleValue :=
  { l with variant := copyChars chars l.variant }

/-- The subtags of a modified BCP 47 tag, in `AaptLocaleValue::initFromDirName`. -/
def initFromSubtags : List Bytes → Option LocaleValue
  | [language] => some (setLanguage language .empty)
  | [language, second] =>
      let l := setLanguage language .empty
      -- the second tag can either be a region, a variant or a script
      if second.length = 2 ∨ second.length = 3 then some (setRegion second l)
      else if second.length = 4 ∧ isAlpha second then some (setScript second l)
      else if 4 ≤ second.length ∧ second.length ≤ 8 then some (setVariant second l)
      else none
  | [language, second, third] => do
      let l := setLanguage language .empty
      let l ← if second.length = 4 then some (setScript second l)
        else if second.length = 2 ∨ second.length = 3 then some (setRegion second l)
        else none
      -- a third tag after a region may be a region again
      if 4 ≤ third.length then some (setVariant third l) else some (setRegion third l)
  | [language, script, region, variant] =>
      some (setVariant variant (setRegion region (setScript script (setLanguage language .empty))))
  | _ => none

/-- `AaptLocaleValue::initFromDirName`: the locale and the number of parts that spell it. -/
def initFromDirName (part : Bytes) (rest : List Bytes) : Option (LocaleValue × ℕ) :=
  if bytes "b+" <+: part then
    (initFromSubtags ((splitAndLowerCase part 43).drop 1)).map fun l => (l, 1)
  else if (part.length = 2 ∨ part.length = 3) ∧ isAlpha part ∧ part ≠ bytes "car" then
    let l := setLanguage part .empty
    match rest with
    | [] => some (l, 1)
    | next :: _ =>
        if next.head? = some 114 ∧ next.length = 3 then some (setRegion (next.drop 1) l, 2)
        else some (l, 1)
  else some (.empty, 0)

/-- `AaptConfig::parseMcc`. -/
def parseMcc : Qualifier := fun name =>
  if name = kWildcardName then some fun c => { c with mcc := 0 }
  else if (name.take 3).map toLower = bytes "mcc" then
    let digits := (name.drop 3).takeWhile isDigit
    if (name.drop 3).dropWhile isDigit ≠ [] ∨ digits.length ≠ 3 ∨ atoi digits = 0 then none
    else some fun c => { c with mcc := (atoi digits).toUInt16 }
  else none

/-- `AaptConfig::parseMnc`: the wildcard sets the country code. -/
def parseMnc : Qualifier := fun name =>
  if name = kWildcardName then some fun c => { c with mcc := 0 }
  else if (name.take 3).map toLower = bytes "mnc" then
    let digits := (name.drop 3).takeWhile isDigit
    if (name.drop 3).dropWhile isDigit ≠ [] ∨ digits.length = 0 ∨ 3 < digits.length then none
    else some fun c =>
      { c with mnc := if (atoi digits).toUInt16 = 0 then 0xffff else (atoi digits).toUInt16 }
  else none

/-- The locale in `AaptConfig::parse`; only a locale that is there is written. -/
def parseLocale (next : Continuation) : Continuation := fun part rest c =>
  match initFromDirName part rest with
  | none => none
  | some (l, consumed) =>
      if 0 < consumed then
        match (part :: rest).drop consumed with
        | [] => some (l.writeTo c)
        | part' :: rest' => next part' rest' (l.writeTo c)
      else next part rest c

/-- `AaptConfig::applyVersionForCompatibility`. -/
def applyVersionForCompatibility (c : ResTableConfig) : ResTableConfig :=
  applyVersion (impliedSdk c) c

/-- The parts of a directory name in `AaptConfig::parse`, before the version is applied. -/
def parseParts : List Bytes → Option ResTableConfig
  | [] => none
  | part :: rest =>
      attempt parseMcc (attempt parseMnc (parseLocale (parseQualifiers qualifiers))) part rest
        defaultConfig

/-- `AaptConfig::parse`. -/
def parse (str : Bytes) : Option ResTableConfig :=
  (if str = [] then some defaultConfig else parseParts (splitAndLowerCase str 45)).map
    applyVersionForCompatibility

end Aapt

/-! ## The newer tool -/

namespace Aapt2

/-- `LocaleValue::set_language`. -/
def setLanguage (chars : Bytes) (l : LocaleValue) : LocaleValue :=
  { l with language := safeTransformCopy (chars.map toLower) }

/-- `LocaleValue::set_region`. -/
def setRegion (chars : Bytes) (l : LocaleValue) : LocaleValue :=
  { l with region := safeTransformCopy (chars.map toUpper) }

/-- `LocaleValue::set_script`. -/
def setScript (chars : Bytes) (l : LocaleValue) : LocaleValue :=
  { l with script := safeTransformCopy (titleCase chars) }

/-- `LocaleValue::set_variant`. -/
def setVariant (chars : Bytes) (l : LocaleValue) : LocaleValue :=
  { l with variant := safeTransformCopy chars }

/-- The subtags in `LocaleValue::InitFromBcp47TagImpl`. -/
def initFromSubtags : List Bytes → Option LocaleValue
  | [language] => some (setLanguage language .empty)
  | [language, second] =>
      let l := setLanguage language .empty
      -- the second tag can either be a region, a variant or a script
      if second.length = 2 ∨ second.length = 3 then some (setRegion second l)
      else if second.length = 4 ∧ ¬ (second.head?.any isDigit) then some (setScript second l)
      else if 4 ≤ second.length ∧ second.length ≤ 8 then some (setVariant second l)
      else none
  | [language, second, third] => do
      let l := setLanguage language .empty
      let l ← if second.length = 4 then some (setScript second l)
        else if second.length = 2 ∨ second.length = 3 then some (setRegion second l)
        else none
      if 4 ≤ third.length then some (setVariant third l) else some (setRegion third l)
  | [language, script, region, variant] =>
      some (setVariant variant (setRegion region (setScript script (setLanguage language .empty))))
  | _ => none

/-- `LocaleValue::InitFromBcp47TagImpl`. -/
def initFromBcp47TagImpl (bcp47tag : Bytes) (separator : UInt8) : Option LocaleValue :=
  initFromSubtags (splitAndLowerCase bcp47tag separator)

/-- `LocaleValue::InitFromParts`. -/
def initFromParts (part : Bytes) (rest : List Bytes) : Option (LocaleValue × ℕ) :=
  if bytes "b+" <+: part then (initFromBcp47TagImpl (part.drop 2) 43).map fun l => (l, 1)
  else if (part.length = 2 ∨ part.length = 3) ∧ isAlpha part ∧ part ≠ bytes "car" then
    let l := setLanguage part .empty
    match rest with
    | [] => some (l, 1)
    | next :: _ =>
        if next.head? = some 114 ∧ next.length = 3 then some (setRegion (next.drop 1) l, 2)
        else some (l, 1)
  else some (.empty, 0)

/-- `parseMcc` of `ConfigDescription.cpp`. -/
def parseMcc : Qualifier := fun name =>
  if name = kWildcardName then some fun c => { c with mcc := 0 }
  else if name.take 3 = bytes "mcc" then
    let digits := (name.drop 3).takeWhile isDigit
    if (name.drop 3).dropWhile isDigit ≠ [] ∨ digits.length ≠ 3 ∨ atoi digits = 0 then none
    else some fun c => { c with mcc := (atoi digits).toUInt16 }
  else none

/-- `parseMnc` of `ConfigDescription.cpp`. -/
def parseMnc : Qualifier := fun name =>
  if name = kWildcardName then some fun c => { c with mnc := 0 }
  else if name.take 3 = bytes "mnc" then
    let digits := (name.drop 3).takeWhile isDigit
    if (name.drop 3).dropWhile isDigit ≠ [] ∨ digits.length = 0 ∨ 3 < digits.length then none
    else some fun c =>
      { c with mnc := if (atoi digits).toUInt16 = 0 then 0xffff else (atoi digits).toUInt16 }
  else none

/-- The locale in `ConfigDescription::Parse`, which is always written. -/
def parseLocale (next : Continuation) : Continuation := fun part rest c =>
  match initFromParts part rest with
  | none => none
  | some (l, consumed) =>
      match (part :: rest).drop consumed with
      | [] => some (l.writeTo c)
      | part' :: rest' => next part' rest' (l.writeTo c)

/-- `ConfigDescription::ApplyVersionForCompatibility`: a grammatical gender comes before what the
older tool has. -/
def applyVersionForCompatibility (c : ResTableConfig) : ResTableConfig :=
  applyVersion (if c.grammaticalInflection ≠ 0 then 34 else impliedSdk c) c

/-- The parts of a directory name in `ConfigDescription::Parse`, before the version is applied. -/
def parseParts : List Bytes → Option ResTableConfig
  | [] => none
  | part :: rest =>
      attempt parseMcc (attempt parseMnc
        (parseLocale (parseQualifiers (parseGrammaticalInflection :: qualifiers)))) part rest
        defaultConfig

/-- `ConfigDescription::Parse`. -/
def parse (str : Bytes) : Option ResTableConfig :=
  (if str = [] then some defaultConfig else parseParts (splitAndLowerCase str 45)).map
    applyVersionForCompatibility

end Aapt2

end AndroidSdk.Config
