import Mathlib.Algebra.Group.Nat.Defs
import AndroidSdk.Aapt2.ResourceModel

/-! # The qualifiers of a configuration directory

The parsers for the parts of a directory name such as `values-mcc310-en-rUS-sw600dp-v13`, which
`AaptConfig.cpp` and `ConfigDescription.cpp` both have. The strings are C strings: their end is
where the source reads a zero.

* **`CString`** — a string without a zero.
* **`Qualifier`** — a parser: the names it accepts, with the change each makes to a configuration.
* **`named`**, **`numbered`** — the two families: a table of names, and letters around a number.
* **`qualifiers`** — the parsers after the locale, in the order in which both tools try them.
* **`impliedSdk`**, **`applyVersion`** — the version that a configuration needs at least. -/

namespace AndroidSdk.Config

open SplitSelect SplitSelect.ResTableConfig

/-! ## Characters -/

/-- A C string: no character of it is zero. -/
structure CString where
  chars : Bytes
  zero_notMem : (0 : UInt8) ∉ chars

/-- The characters from `'0'` to `'9'`. -/
def isDigit (c : UInt8) : Bool := 48 ≤ c ∧ c ≤ 57

/-- `isalpha` of the C locale. -/
def isAlphaChar (c : UInt8) : Bool := (65 ≤ c ∧ c ≤ 90) ∨ (97 ≤ c ∧ c ≤ 122)

/-- `tolower` of the C locale. -/
def toLower (c : UInt8) : UInt8 := if 65 ≤ c ∧ c ≤ 90 then c + 32 else c

/-- `toupper` of the C locale. -/
def toUpper (c : UInt8) : UInt8 := if 97 ≤ c ∧ c ≤ 122 then c - 32 else c

/-- `isAlpha`, `is_alpha`. -/
def isAlpha (s : Bytes) : Bool := s.all isAlphaChar

/-- `splitAndLowerCase`, `SplitAndLowercase`. -/
def splitAndLowerCase (str : Bytes) (sep : UInt8) : List Bytes :=
  (str.splitOn sep).map (List.map toLower)

/-- The value of a sequence of digits. -/
def decimal (digits : Bytes) : ℕ := digits.foldl (fun n c => 10 * n + (c.toNat - 48)) 0

/-- `atoi` of a sequence of digits: `strtol`, which stops at the greatest `long`, cast to an
`int`. -/
def atoi (digits : Bytes) : UInt32 := UInt32.ofNat (min (decimal digits) (2 ^ 63 - 1))

/-! ## Parsers -/

/-- A parser `bool parse(const char* name, ResTable_config* out)`: what it does to the configuration
if it accepts the name. -/
abbrev Qualifier := Bytes → Option (ResTableConfig → ResTableConfig)

/-- `kWildcardName`. -/
def kWildcardName : Bytes := bytes "any"

/-- Replace the bits under a mask. -/
def setBits (mask value old : UInt8) : UInt8 := (old &&& ~~~mask) ||| value

/-- A parser that compares the name with a table of names. -/
def named {α : Type} (set : α → ResTableConfig → ResTableConfig) (names : List (Bytes × α)) :
    Qualifier :=
  fun name => (names.lookup name).map set

/-- A parser that accepts the wildcard, and letters followed by a number and a suffix. -/
def numbered (letters suffix : Bytes) (set : UInt16 → ResTableConfig → ResTableConfig) :
    Qualifier := fun name =>
  if name = kWildcardName then some (set 0)
  else if letters <+: name then
    let digits := (name.drop letters.length).takeWhile isDigit
    let rest := (name.drop letters.length).dropWhile isDigit
    if digits = [] ∨ rest ≠ suffix then none else some (set (atoi digits).toUInt16)
  else none

/-- `parseGrammaticalInflection`, which has no wildcard. -/
def parseGrammaticalInflection : Qualifier :=
  named (fun v c => { c with grammaticalInflection := v })
    [(bytes "feminine", 2), (bytes "masculine", 3), (bytes "neuter", 1)]

/-- `parseLayoutDirection`. -/
def parseLayoutDirection : Qualifier :=
  named (fun v c => { c with screenLayout := setBits maskLayoutDir v c.screenLayout })
    [(kWildcardName, 0), (bytes "ldltr", 0x40), (bytes "ldrtl", 0x80)]

/-- `parseSmallestScreenWidthDp`. -/
def parseSmallestScreenWidthDp : Qualifier :=
  numbered (bytes "sw") (bytes "dp") fun v c => { c with smallestScreenWidthDp := v }

/-- `parseScreenWidthDp`. -/
def parseScreenWidthDp : Qualifier :=
  numbered (bytes "w") (bytes "dp") fun v c => { c with screenWidthDp := v }

/-- `parseScreenHeightDp`. -/
def parseScreenHeightDp : Qualifier :=
  numbered (bytes "h") (bytes "dp") fun v c => { c with screenHeightDp := v }

/-- `parseScreenLayoutSize`. -/
def parseScreenLayoutSize : Qualifier :=
  named (fun v c => { c with screenLayout := setBits maskScreenSize v c.screenLayout })
    [(kWildcardName, 0), (bytes "small", 1), (bytes "normal", 2), (bytes "large", 3),
      (bytes "xlarge", 4)]

/-- `parseScreenLayoutLong`. -/
def parseScreenLayoutLong : Qualifier :=
  named (fun v c => { c with screenLayout := setBits maskScreenLong v c.screenLayout })
    [(kWildcardName, 0), (bytes "long", 0x20), (bytes "notlong", 0x10)]

/-- `parseScreenRound`. -/
def parseScreenRound : Qualifier :=
  named (fun v c => { c with screenLayout2 := setBits maskScreenRound v c.screenLayout2 })
    [(kWildcardName, 0), (bytes "round", 2), (bytes "notround", 1)]

/-- `parseWideColorGamut`. -/
def parseWideColorGamut : Qualifier :=
  named (fun v c => { c with colorMode := setBits maskWideColorGamut v c.colorMode })
    [(kWildcardName, 0), (bytes "widecg", 2), (bytes "nowidecg", 1)]

/-- `parseHdr`. -/
def parseHdr : Qualifier :=
  named (fun v c => { c with colorMode := setBits maskHdr v c.colorMode })
    [(kWildcardName, 0), (bytes "highdr", 0x08), (bytes "lowdr", 0x04)]

/-- `parseOrientation`. -/
def parseOrientation : Qualifier :=
  named (fun v c => { c with orientation := v })
    [(kWildcardName, 0), (bytes "port", 1), (bytes "land", 2), (bytes "square", 3)]

/-- `parseUiModeType`. -/
def parseUiModeType : Qualifier :=
  named (fun v c => { c with uiMode := setBits maskUiModeType v c.uiMode })
    [(kWildcardName, 0), (bytes "desk", 2), (bytes "car", 3), (bytes "television", 4),
      (bytes "appliance", 5), (bytes "watch", 6), (bytes "vrheadset", 7)]

/-- `parseUiModeNight`. -/
def parseUiModeNight : Qualifier :=
  named (fun v c => { c with uiMode := setBits maskUiModeNight v c.uiMode })
    [(kWildcardName, 0), (bytes "night", 0x20), (bytes "notnight", 0x10)]

/-- The named densities of `parseDensity`. -/
def namedDensity : Qualifier :=
  named (fun v c => { c with density := v })
    [(kWildcardName, 0), (bytes "anydpi", 0xfffe), (bytes "nodpi", 0xffff), (bytes "ldpi", 120),
      (bytes "mdpi", 160), (bytes "tvdpi", 213), (bytes "hdpi", 240), (bytes "xhdpi", 320),
      (bytes "xxhdpi", 480), (bytes "xxxhdpi", 640)]

/-- `parseDensity`: a named density, or a number other than zero before `dpi`. The number may have
no digits, which `atoi` reads as zero. -/
def parseDensity : Qualifier := fun name =>
  match namedDensity name with
  | some set => some set
  | none =>
      if (name.dropWhile isDigit).map toUpper = bytes "DPI" then
        let d := atoi (name.takeWhile isDigit)
        if d = 0 then none else some fun c => { c with density := d.toUInt16 }
      else none

/-- `parseTouchscreen`. -/
def parseTouchscreen : Qualifier :=
  named (fun v c => { c with touchscreen := v })
    [(kWildcardName, 0), (bytes "notouch", 1), (bytes "stylus", 2), (bytes "finger", 3)]

/-- `parseKeysHidden`. -/
def parseKeysHidden : Qualifier :=
  named (fun v c => { c with inputFlags := setBits maskKeysHidden v c.inputFlags })
    [(kWildcardName, 0), (bytes "keysexposed", 1), (bytes "keyshidden", 2), (bytes "keyssoft", 3)]

/-- `parseKeyboard`. -/
def parseKeyboard : Qualifier :=
  named (fun v c => { c with keyboard := v })
    [(kWildcardName, 0), (bytes "nokeys", 1), (bytes "qwerty", 2), (bytes "12key", 3)]

/-- `parseNavHidden`. -/
def parseNavHidden : Qualifier :=
  named (fun v c => { c with inputFlags := setBits maskNavHidden v c.inputFlags })
    [(kWildcardName, 0), (bytes "navexposed", 0x04), (bytes "navhidden", 0x08)]

/-- `parseNavigation`. -/
def parseNavigation : Qualifier :=
  named (fun v c => { c with navigation := v })
    [(kWildcardName, 0), (bytes "nonav", 1), (bytes "dpad", 2), (bytes "trackball", 3),
      (bytes "wheel", 4)]

/-- `parseScreenSize`: two numbers around an `x`, the first not less than the second. The test that
the second has a digit compares with the start of the name, so that it always passes. -/
def parseScreenSize : Qualifier := fun name =>
  if name = kWildcardName then some fun c => { c with screenWidth := 0, screenHeight := 0 }
  else
    let xName := name.takeWhile isDigit
    match name.dropWhile isDigit with
    | 120 :: y =>
        let w := (atoi xName).toUInt16
        let h := (atoi (y.takeWhile isDigit)).toUInt16
        if xName = [] ∨ y.dropWhile isDigit ≠ [] ∨ w < h then none
        else some fun c => { c with screenWidth := w, screenHeight := h }
    | _ => none

/-- `parseVersion`. -/
def parseVersion : Qualifier :=
  numbered (bytes "v") [] fun v c => { c with sdkVersion := v, minorVersion := 0 }

/-- The parsers after the locale, in the order of the source. -/
def qualifiers : List Qualifier :=
  [parseLayoutDirection, parseSmallestScreenWidthDp, parseScreenWidthDp, parseScreenHeightDp,
    parseScreenLayoutSize, parseScreenLayoutLong, parseScreenRound, parseWideColorGamut, parseHdr,
    parseOrientation, parseUiModeType, parseUiModeNight, parseDensity, parseTouchscreen,
    parseKeysHidden, parseKeyboard, parseNavHidden, parseNavigation, parseScreenSize, parseVersion]

/-! ## Trying the parsers -/

/-- What is left to do with the current part, the parts after it and the configuration. -/
abbrev Continuation := Bytes → List Bytes → ResTableConfig → Option ResTableConfig

/-- The block `if (parse(part, &config)) ...` of the parsing functions: after an accepted part comes
the next one, and the last one ends with success. -/
def attempt (q : Qualifier) (next : Continuation) : Continuation := fun part rest c =>
  match q part, rest with
  | none, _ => next part rest c
  | some f, [] => some (f c)
  | some f, part' :: rest' => next part' rest' (f c)

/-- A sequence of such blocks; a part that none of them accepts is unrecognized. -/
def parseQualifiers (qs : List Qualifier) : Continuation :=
  qs.foldr attempt fun _ _ _ => none

/-! ## Implied versions -/

/-- The least version with the features of a configuration: `minSdk` of
`applyVersionForCompatibility`. -/
def impliedSdk (c : ResTableConfig) : UInt16 :=
  if c.uiMode &&& maskUiModeType = 7 ∨ c.colorMode &&& maskWideColorGamut ≠ 0 ∨
      c.colorMode &&& maskHdr ≠ 0 then 26
  else if c.screenLayout2 &&& maskScreenRound ≠ 0 then 23
  else if c.density = 0xfffe then 21
  else if c.smallestScreenWidthDp ≠ 0 ∨ c.screenWidthDp ≠ 0 ∨ c.screenHeightDp ≠ 0 then 13
  else if c.uiMode &&& maskUiModeType ≠ 0 ∨ c.uiMode &&& maskUiModeNight ≠ 0 then 8
  else if c.screenLayout &&& maskScreenSize ≠ 0 ∨ c.screenLayout &&& maskScreenLong ≠ 0 ∨
      c.density ≠ 0 then 4
  else 0

/-- Raise the version of a configuration. -/
def applyVersion (minSdk : UInt16) (c : ResTableConfig) : ResTableConfig :=
  if c.sdkVersion < minSdk then { c with sdkVersion := minSdk } else c

end AndroidSdk.Config
