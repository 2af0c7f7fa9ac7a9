import Mathlib.Order.Nat
import Mathlib.Tactic.ByContra

/-! # Resource configurations

`ResTable_config` with the operations that choose among configurations (`ResourceTypes.cpp`): the
logical order, matching a device, and being better than another configuration for a device.

* **`ResTableConfig`** — the fields of a configuration; unions are read through `imsi`, `locale`,
  `input` and the like, as on a little-endian host.
* **`LocaleData`** — what the tables of `LocaleData.cpp` say about languages, scripts and regions.
* **`compareLogical`**, **`isMatch`**, **`isBetterThan`** — the operations, criterion by criterion.
* **`bcp47Locale`** — the text of a locale. -/

namespace AndroidSdk.SplitSelect

/-- A language or region code: two characters, or three packed ones. -/
structure Code where
  first : UInt8
  second : UInt8
  deriving DecidableEq

/-- The characters of a code as a number, in the byte order of the host. -/
def Code.toNat (c : Code) : ℕ := c.first.toNat + 256 * c.second.toNat

/-- A code has two bytes. -/
theorem Code.toNat_lt (c : Code) : c.toNat < 65536 := by
  have h₁ := c.first.toNat_lt
  have h₂ := c.second.toNat_lt
  simp only [Code.toNat]
  omega

/-- The number tells codes apart. -/
theorem Code.toNat_injective {a b : Code} (h : a.toNat = b.toNat) : a = b := by
  obtain ⟨a₁, a₂⟩ := a
  obtain ⟨b₁, b₂⟩ := b
  simp only [Code.toNat] at h
  have ha := a₁.toNat_lt
  have hb := b₁.toNat_lt
  have h₁ : a₁ = b₁ := UInt8.toNat_inj.mp (by omega)
  have h₂ : a₂ = b₂ := UInt8.toNat_inj.mp (by omega)
  rw [h₁, h₂]

/-- `kEnglish`. -/
def kEnglish : Code := ⟨0x65, 0x6e⟩

/-- `kUnitedStates`. -/
def kUnitedStates : Code := ⟨0x55, 0x53⟩

/-- `kFilipino`: packed version of `fil`. -/
def kFilipino : Code := ⟨0xad, 0x05⟩

/-- `kTagalog`. -/
def kTagalog : Code := ⟨0x74, 0x6c⟩

/-- The first character of a field, which is zero if the field is empty. -/
abbrev firstOf {n : ℕ} (field : Vector UInt8 (n + 1)) : UInt8 := field[0]

/-- `langsAreEquivalent`. -/
def langsAreEquivalent (lang1 lang2 : Code) : Bool :=
  lang1 = lang2 ∨ (lang1 = kTagalog ∧ lang2 = kFilipino) ∨ (lang1 = kFilipino ∧ lang2 = kTagalog)

/-- `ResTable_config`, with the fields that its operations read. -/
structure ResTableConfig where
  mcc : UInt16
  mnc : UInt16
  language : Code
  country : Code
  orientation : UInt8
  touchscreen : UInt8
  density : UInt16
  keyboard : UInt8
  navigation : UInt8
  inputFlags : UInt8
  grammaticalInflection : UInt8
  screenWidth : UInt16
  screenHeight : UInt16
  sdkVersion : UInt16
  minorVersion : UInt16
  screenLayout : UInt8
  uiMode : UInt8
  smallestScreenWidthDp : UInt16
  screenWidthDp : UInt16
  screenHeightDp : UInt16
  localeScript : Vector UInt8 4
  localeVariant : Vector UInt8 8
  screenLayout2 : UInt8
  colorMode : UInt8
  screenConfigPad2 : UInt16
  localeScriptWasComputed : Bool
  localeNumberingSystem : Vector UInt8 8
  deriving DecidableEq

/-- What the locale tables say: `localeDataComputeScript`, `localeDataCompareRegions` and
`localeDataIsCloseToUsEnglish`. Equal regions are equally good. -/
structure LocaleData where
  computeScript : Code → Code → Vector UInt8 4
  compareRegions : Code → Code → Code → Vector UInt8 4 → Code → ℤ
  isCloseToUsEnglish : Code → Bool
  compareRegions_self : ∀ region requestedLanguage requestedScript requestedRegion,
    compareRegions region region requestedLanguage requestedScript requestedRegion = 0

/-- Locale tables without an entry, for splits and devices without a locale. -/
def LocaleData.unknown : LocaleData where
  computeScript _ _ := #v[0, 0, 0, 0]
  compareRegions _ _ _ _ _ := 0
  isCloseToUsEnglish _ := false
  compareRegions_self _ _ _ _ := rfl

namespace ResTableConfig

/-- `ConfigDescription::DefaultConfig`. -/
def defaultConfig : ResTableConfig where
  mcc := 0
  mnc := 0
  language := ⟨0, 0⟩
  country := ⟨0, 0⟩
  orientation := 0
  touchscreen := 0
  density := 0
  keyboard := 0
  navigation := 0
  inputFlags := 0
  grammaticalInflection := 0
  screenWidth := 0
  screenHeight := 0
  sdkVersion := 0
  minorVersion := 0
  screenLayout := 0
  uiMode := 0
  smallestScreenWidthDp := 0
  screenWidthDp := 0
  screenHeightDp := 0
  localeScript := #v[0, 0, 0, 0]
  localeVariant := #v[0, 0, 0, 0, 0, 0, 0, 0]
  screenLayout2 := 0
  colorMode := 0
  screenConfigPad2 := 0
  localeScriptWasComputed := false
  localeNumberingSystem := #v[0, 0, 0, 0, 0, 0, 0, 0]

/-! ## Masks and constants -/

/-- `DENSITY_MEDIUM`. -/
def densityMedium : ℕ := 160

/-- `DENSITY_ANY`. -/
def densityAny : ℕ := 0xfffe

/-- `MASK_LAYOUTDIR`. -/
def maskLayoutDir : UInt8 := 0xC0

/-- `MASK_SCREENSIZE`. -/
def maskScreenSize : UInt8 := 0x0f

/-- `SCREENSIZE_NORMAL`. -/
def screenSizeNormal : UInt8 := 0x02

/-- `MASK_SCREENLONG`. -/
def maskScreenLong : UInt8 := 0x30

/-- `MASK_UI_MODE_TYPE`. -/
def maskUiModeType : UInt8 := 0x0f

/-- `MASK_UI_MODE_NIGHT`. -/
def maskUiModeNight : UInt8 := 0x30

/-- `MASK_SCREENROUND`. -/
def maskScreenRound : UInt8 := 0x03

/-- `MASK_WIDE_COLOR_GAMUT`. -/
def maskWideColorGamut : UInt8 := 0x03

/-- `MASK_HDR`. -/
def maskHdr : UInt8 := 0x0c

/-- `MASK_KEYSHIDDEN`. -/
def maskKeysHidden : UInt8 := 0x03

/-- `KEYSHIDDEN_NO`. -/
def keysHiddenNo : UInt8 := 0x01

/-- `KEYSHIDDEN_SOFT`. -/
def keysHiddenSoft : UInt8 := 0x03

/-- `MASK_NAVHIDDEN`. -/
def maskNavHidden : UInt8 := 0x0c

/-! ## Unions -/

/-- `imsi`. -/
def imsi (c : ResTableConfig) : ℕ := c.mcc.toNat + 65536 * c.mnc.toNat

/-- `locale`. -/
def locale (c : ResTableConfig) : ℕ := c.language.toNat + 65536 * c.country.toNat

/-- `screenType`. -/
def screenType (c : ResTableConfig) : ℕ :=
  c.orientation.toNat + 256 * c.touchscreen.toNat + 65536 * c.density.toNat

/-- `input`, a bit field of 24 bits. -/
def input (c : ResTableConfig) : ℕ :=
  c.keyboard.toNat + 256 * c.navigation.toNat + 65536 * c.inputFlags.toNat

/-- `screenSize`. -/
def screenSize (c : ResTableConfig) : ℕ := c.screenWidth.toNat + 65536 * c.screenHeight.toNat

/-- `version`. -/
def version (c : ResTableConfig) : ℕ := c.sdkVersion.toNat + 65536 * c.minorVersion.toNat

/-- `screenConfig`. -/
def screenConfig (c : ResTableConfig) : ℕ :=
  c.screenLayout.toNat + 256 * c.uiMode.toNat + 65536 * c.smallestScreenWidthDp.toNat

/-- `screenSizeDp`. -/
def screenSizeDp (c : ResTableConfig) : ℕ :=
  c.screenWidthDp.toNat + 65536 * c.screenHeightDp.toNat

/-- `screenConfig2`. -/
def screenConfig2 (c : ResTableConfig) : ℕ :=
  c.screenLayout2.toNat + 256 * c.colorMode.toNat + 65536 * c.screenConfigPad2.toNat

/-! ## The logical order -/

/-- The script as `compareLocales` sees it: one that was computed counts as empty. -/
def providedScript (c : ResTableConfig) : List UInt8 :=
  if c.localeScriptWasComputed then [0, 0, 0, 0] else c.localeScript.toList

/-- `compareLocales`. -/
def compareLocales : ResTableConfig → ResTableConfig → Ordering :=
  compareLex (compareOn locale) <|
  compareLex (compareOn providedScript) <|
  compareLex (compareOn fun c => c.localeVariant.toList)
    (compareOn fun c => c.localeNumberingSystem.toList)

/-- `compareLogical`. -/
def compareLogical : ResTableConfig → ResTableConfig → Ordering :=
  compareLex (compareOn mcc) <|
  compareLex (compareOn mnc) <|
  compareLex compareLocales <|
  compareLex (compareOn grammaticalInflection) <|
  compareLex (compareOn fun c => c.screenLayout &&& maskLayoutDir) <|
  compareLex (compareOn smallestScreenWidthDp) <|
  compareLex (compareOn screenWidthDp) <|
  compareLex (compareOn screenHeightDp) <|
  compareLex (compareOn screenWidth) <|
  compareLex (compareOn screenHeight) <|
  compareLex (compareOn density) <|
  compareLex (compareOn orientation) <|
  compareLex (compareOn touchscreen) <|
  compareLex (compareOn input) <|
  compareLex (compareOn screenLayout) <|
  compareLex (compareOn screenLayout2) <|
  compareLex (compareOn colorMode) <|
  compareLex (compareOn uiMode)
    (compareOn version)

instance : Std.TransCmp compareLogical := by
  unfold compareLogical compareLocales
  infer_instance

/-- Two configurations that differ at most in density, version and a script that was computed. -/
def SameQualifiers (c o : ResTableConfig) : Prop :=
  c.mcc = o.mcc ∧ c.mnc = o.mnc ∧ c.language = o.language ∧ c.country = o.country
    ∧ c.providedScript = o.providedScript ∧ c.localeVariant = o.localeVariant
    ∧ c.localeNumberingSystem = o.localeNumberingSystem
    ∧ c.grammaticalInflection = o.grammaticalInflection
    ∧ c.smallestScreenWidthDp = o.smallestScreenWidthDp ∧ c.screenWidthDp = o.screenWidthDp
    ∧ c.screenHeightDp = o.screenHeightDp ∧ c.screenWidth = o.screenWidth
    ∧ c.screenHeight = o.screenHeight ∧ c.orientation = o.orientation
    ∧ c.touchscreen = o.touchscreen ∧ c.keyboard = o.keyboard ∧ c.navigation = o.navigation
    ∧ c.inputFlags = o.inputFlags ∧ c.screenLayout = o.screenLayout
    ∧ c.screenLayout2 = o.screenLayout2 ∧ c.colorMode = o.colorMode ∧ c.uiMode = o.uiMode
    ∧ c.minorVersion = o.minorVersion

/-- Equal locales have equal languages and countries. -/
theorem locale_eq_iff (c o : ResTableConfig) :
    c.locale = o.locale ↔ c.language = o.language ∧ c.country = o.country := by
  have h₁ := c.language.toNat_lt
  have h₂ := o.language.toNat_lt
  simp only [locale]
  constructor
  · intro h
    exact ⟨Code.toNat_injective (by omega), Code.toNat_injective (by omega)⟩
  · rintro ⟨hlanguage, hcountry⟩
    rw [hlanguage, hcountry]

/-- Equal inputs have equal fields. -/
theorem input_eq_iff (c o : ResTableConfig) : c.input = o.input ↔
    c.keyboard = o.keyboard ∧ c.navigation = o.navigation ∧ c.inputFlags = o.inputFlags := by
  have h₁ := c.keyboard.toNat_lt
  have h₂ := o.keyboard.toNat_lt
  have h₃ := c.navigation.toNat_lt
  have h₄ := o.navigation.toNat_lt
  simp only [input, ← UInt8.toNat_inj]
  omega

/-- Equal versions have equal fields. -/
theorem version_eq_iff (c o : ResTableConfig) : c.version = o.version ↔
    c.sdkVersion = o.sdkVersion ∧ c.minorVersion = o.minorVersion := by
  have h₁ := c.sdkVersion.toNat_lt
  have h₂ := o.sdkVersion.toNat_lt
  simp only [version, ← UInt16.toNat_inj]
  omega

/-- **What the logical order does not tell apart**: configurations with the same qualifiers, density
and version. -/
theorem compareLogical_eq_iff (c o : ResTableConfig) : c.compareLogical o = .eq ↔
    SameQualifiers c o ∧ c.density = o.density ∧ c.sdkVersion = o.sdkVersion := by
  simp only [compareLogical, compareLocales, compareLex_eq_eq, compareOn,
    Std.LawfulEqCmp.compare_eq_iff_eq, locale_eq_iff, input_eq_iff, version_eq_iff, SameQualifiers,
    Vector.toList_inj]
  constructor
  · rintro ⟨hmcc, hmnc, ⟨⟨hlanguage, hcountry⟩, hlocale⟩, hrest⟩
    simp_all
  · rintro ⟨hqualifiers, hdensity, hsdk⟩
    simp_all

/-! ## Matching a device -/

section Locale

variable (data : LocaleData)

/-- The part of `match` on `mcc` and `mnc`. -/
def matchImsi (c settings : ResTableConfig) : Bool :=
  c.imsi = 0 ∨ ((c.mcc = 0 ∨ c.mcc = settings.mcc) ∧ (c.mnc = 0 ∨ c.mnc = settings.mnc))

/-- The script that `match` compares with that of the settings; without one, countries must
match. -/
def matchedScript (c settings : ResTableConfig) : Option (Vector UInt8 4) :=
  if settings.localeScript[0] = 0 then none
  else if c.localeScript[0] = 0 ∧ c.localeScriptWasComputed = false then
    -- script was not provided or computed, so we try to compute it
    let computed := data.computeScript c.language c.country
    if computed[0] = 0 then none else some computed
  else some c.localeScript

/-- The part of `match` on the locale. -/
def matchLocale (c settings : ResTableConfig) : Bool :=
  if c.locale = 0 then true
  else if !langsAreEquivalent c.language settings.language then false
  else
    match matchedScript data c settings with
    | none => c.country.first = 0 ∨ c.country = settings.country
    | some script => script = settings.localeScript

/-- The part of `match` on `screenConfig`. -/
def matchScreenConfig (c settings : ResTableConfig) : Bool :=
  c.screenConfig = 0 ∨
    ((c.screenLayout &&& maskLayoutDir = 0
        ∨ c.screenLayout &&& maskLayoutDir = settings.screenLayout &&& maskLayoutDir)
      ∧ (c.screenLayout &&& maskScreenSize = 0
        ∨ c.screenLayout &&& maskScreenSize ≤ settings.screenLayout &&& maskScreenSize)
      ∧ (c.screenLayout &&& maskScreenLong = 0
        ∨ c.screenLayout &&& maskScreenLong = settings.screenLayout &&& maskScreenLong)
      ∧ (c.uiMode &&& maskUiModeType = 0
        ∨ c.uiMode &&& maskUiModeType = settings.uiMode &&& maskUiModeType)
      ∧ (c.uiMode &&& maskUiModeNight = 0
        ∨ c.uiMode &&& maskUiModeNight = settings.uiMode &&& maskUiModeNight)
      ∧ (c.smallestScreenWidthDp = 0 ∨ c.smallestScreenWidthDp ≤ settings.smallestScreenWidthDp))

/-- The part of `match` on `screenConfig2`. -/
def matchScreenConfig2 (c settings : ResTableConfig) : Bool :=
  c.screenConfig2 = 0 ∨
    ((c.screenLayout2 &&& maskScreenRound = 0
        ∨ c.screenLayout2 &&& maskScreenRound = settings.screenLayout2 &&& maskScreenRound)
      ∧ (c.colorMode &&& maskHdr = 0
        ∨ c.colorMode &&& maskHdr = settings.colorMode &&& maskHdr)
      ∧ (c.colorMode &&& maskWideColorGamut = 0
        ∨ c.colorMode &&& maskWideColorGamut = settings.colorMode &&& maskWideColorGamut))

/-- The part of `match` on `screenSizeDp`. -/
def matchScreenSizeDp (c settings : ResTableConfig) : Bool :=
  c.screenSizeDp = 0 ∨
    ((c.screenWidthDp = 0 ∨ c.screenWidthDp ≤ settings.screenWidthDp)
      ∧ (c.screenHeightDp = 0 ∨ c.screenHeightDp ≤ settings.screenHeightDp))

/-- The part of `match` on `screenType`: any density matches, since it can be scaled. -/
def matchScreenType (c settings : ResTableConfig) : Bool :=
  c.screenType = 0 ∨
    ((c.orientation = 0 ∨ c.orientation = settings.orientation)
      ∧ (c.touchscreen = 0 ∨ c.touchscreen = settings.touchscreen))

/-- The part of `match` on `input`. -/
def matchInput (c settings : ResTableConfig) : Bool :=
  let keysHidden := c.inputFlags &&& maskKeysHidden
  let setKeysHidden := settings.inputFlags &&& maskKeysHidden
  c.input = 0 ∨
    -- a request for KEYSHIDDEN_SOFT also matches KEYSHIDDEN_NO
    ((keysHidden = 0 ∨ keysHidden = setKeysHidden
        ∨ (keysHidden = keysHiddenNo ∧ setKeysHidden = keysHiddenSoft))
      ∧ (c.inputFlags &&& maskNavHidden = 0
        ∨ c.inputFlags &&& maskNavHidden = settings.inputFlags &&& maskNavHidden)
      ∧ (c.keyboard = 0 ∨ c.keyboard = settings.keyboard)
      ∧ (c.navigation = 0 ∨ c.navigation = settings.navigation))

/-- The part of `match` on `screenSize`. -/
def matchScreenSize (c settings : ResTableConfig) : Bool :=
  c.screenSize = 0 ∨
    ((c.screenWidth = 0 ∨ c.screenWidth ≤ settings.screenWidth)
      ∧ (c.screenHeight = 0 ∨ c.screenHeight ≤ settings.screenHeight))

/-- The part of `match` on `version`. -/
def matchVersion (c settings : ResTableConfig) : Bool :=
  c.version = 0 ∨
    ((c.sdkVersion = 0 ∨ c.sdkVersion ≤ settings.sdkVersion)
      ∧ (c.minorVersion = 0 ∨ c.minorVersion = settings.minorVersion))

/-- `match`. -/
def isMatch (c settings : ResTableConfig) : Bool :=
  matchImsi c settings && matchLocale data c settings
    && (c.grammaticalInflection = 0 || c.grammaticalInflection = settings.grammaticalInflection)
    && matchScreenConfig c settings && matchScreenConfig2 c settings && matchScreenSizeDp c settings
    && matchScreenType c settings && matchInput c settings && matchScreenSize c settings
    && matchVersion c settings

/-! ## Being better for a device

Each criterion gives the result of the comparison, or `none` if the next criterion decides. -/

/-- A field that is cut off at its first NUL, as `strncmp` sees it. -/
def cText {n : ℕ} (v : Vector UInt8 n) : List UInt8 := v.toList.takeWhile (· ≠ 0)

/-- `isLocaleBetterThan`. -/
def isLocaleBetterThan (c o requested : ResTableConfig) : Bool :=
  if requested.locale = 0 then false
  else if c.locale = 0 ∧ o.locale = 0 then false
  else if !langsAreEquivalent c.language o.language then
    -- a resource without a language is better for US English than one for another English
    if requested.language = kEnglish ∧ requested.country = kUnitedStates then
      if c.language.first ≠ 0 then c.country.first = 0 ∨ c.country = kUnitedStates
      else ¬ (o.country.first = 0 ∨ o.country = kUnitedStates)
    else if requested.language = kEnglish ∧ data.isCloseToUsEnglish requested.country then
      if c.language.first ≠ 0 then data.isCloseToUsEnglish c.country
      else !data.isCloseToUsEnglish o.country
    else c.language.first ≠ 0
  else
    let regionComparison := data.compareRegions c.country o.country requested.language
      requested.localeScript requested.country
    let localeMatches : Bool := cText c.localeVariant = cText requested.localeVariant
    let otherMatches : Bool := cText o.localeVariant = cText requested.localeVariant
    let localeNumsysMatches : Bool :=
      cText c.localeNumberingSystem = cText requested.localeNumberingSystem
    let otherNumsysMatches : Bool :=
      cText o.localeNumberingSystem = cText requested.localeNumberingSystem
    if regionComparison ≠ 0 then 0 < regionComparison
    else if localeMatches ≠ otherMatches then localeMatches
    else if localeNumsysMatches ≠ otherNumsysMatches then localeNumsysMatches
    else c.language = requested.language ∧ o.language ≠ requested.language

/-- `mcc` and `mnc`. -/
def betterImsi (c o requested : ResTableConfig) : Option Bool :=
  if c.imsi = 0 ∧ o.imsi = 0 then none
  else if c.mcc ≠ o.mcc ∧ requested.mcc ≠ 0 then some (c.mcc ≠ 0)
  else if c.mnc ≠ o.mnc ∧ requested.mnc ≠ 0 then some (c.mnc ≠ 0)
  else none

/-- The locale decides only in favour of the configuration. -/
def betterLocale (c o requested : ResTableConfig) : Option Bool :=
  if requested.locale ≠ 0 ∧ (c.locale ≠ 0 ∨ o.locale ≠ 0)
    ∧ isLocaleBetterThan data c o requested then some true else none

/-- The grammatical inflection. -/
def betterGrammaticalInflection (c o requested : ResTableConfig) : Option Bool :=
  if c.grammaticalInflection ≠ o.grammaticalInflection ∧ requested.grammaticalInflection ≠ 0 then
    some (c.grammaticalInflection ≠ 0)
  else none

/-- The layout direction. -/
def betterLayoutDir (c o requested : ResTableConfig) : Option Bool :=
  if c.screenLayout &&& maskLayoutDir ≠ o.screenLayout &&& maskLayoutDir
    ∧ requested.screenLayout &&& maskLayoutDir ≠ 0 then
    some (o.screenLayout &&& maskLayoutDir < c.screenLayout &&& maskLayoutDir)
  else none

/-- The smallest width: the largest one is best. -/
def betterSmallestScreenWidthDp (c o : ResTableConfig) : Option Bool :=
  if c.smallestScreenWidthDp ≠ o.smallestScreenWidthDp then
    some (o.smallestScreenWidthDp < c.smallestScreenWidthDp)
  else none

/-- How far a size is from the requested one, where that is set. -/
def sizeDelta (requestedWidth requestedHeight width height : UInt16) : ℤ :=
  (if requestedWidth ≠ 0 then (requestedWidth.toNat : ℤ) - width.toNat else 0)
    + (if requestedHeight ≠ 0 then (requestedHeight.toNat : ℤ) - height.toNat else 0)

/-- The criterion on two distances. -/
def betterDelta (myDelta otherDelta : ℤ) : Option Bool :=
  if myDelta ≠ otherDelta then some (myDelta < otherDelta) else none

/-- Width and height in dp. -/
def betterScreenSizeDp (c o requested : ResTableConfig) : Option Bool :=
  if c.screenSizeDp = 0 ∧ o.screenSizeDp = 0 then none
  else betterDelta
    (sizeDelta requested.screenWidthDp requested.screenHeightDp c.screenWidthDp c.screenHeightDp)
    (sizeDelta requested.screenWidthDp requested.screenHeightDp o.screenWidthDp o.screenHeightDp)

/-- The size and the shape of the screen layout. -/
def betterScreenLayout (c o requested : ResTableConfig) : Option Bool :=
  let mySL := c.screenLayout &&& maskScreenSize
  let oSL := o.screenLayout &&& maskScreenSize
  let requestedSL := requested.screenLayout &&& maskScreenSize
  -- undefined counts as normal, if the requested size is at least normal
  let fixed (size : UInt8) :=
    if screenSizeNormal ≤ requestedSL ∧ size = 0 then screenSizeNormal else size
  if mySL ≠ oSL ∧ requestedSL ≠ 0 then
    if fixed mySL = fixed oSL then some (mySL ≠ 0) else some (fixed oSL < fixed mySL)
  else if c.screenLayout &&& maskScreenLong ≠ o.screenLayout &&& maskScreenLong
    ∧ requested.screenLayout &&& maskScreenLong ≠ 0 then
    some (c.screenLayout &&& maskScreenLong ≠ 0)
  else none

/-- A masked field that decides in favour of the configuration that sets it. -/
def betterMasked (mask mine other requested : UInt8) : Option Bool :=
  if mine &&& mask ≠ other &&& mask ∧ requested &&& mask ≠ 0 then some (mine &&& mask ≠ 0) else none

/-- A field that decides in favour of the configuration that sets it. -/
def betterField (mine other requested : UInt8) : Option Bool :=
  if mine ≠ other ∧ requested ≠ 0 then some (mine ≠ 0) else none

/-- The density that is requested: none and `DENSITY_ANY` count as medium. -/
def requestedDensity (requested : ResTableConfig) : ℕ :=
  if requested.density = 0 ∨ requested.density.toNat = densityAny then densityMedium
  else requested.density.toNat

/-- Whether one density is better than another for a requested one: `DENSITY_ANY` is best, and
scaling down is preferred. -/
def densityIsBetter (thisDensity otherDensity requested : ℕ) : Bool :=
  if thisDensity = densityAny then true
  else if otherDensity = densityAny then false
  else
    let bImBigger : Bool := otherDensity ≤ thisDensity
    let h := max thisDensity otherDensity
    let l := min thisDensity otherDensity
    if h = requested then bImBigger
    else if requested ≤ l then !bImBigger
    else bImBigger

/-- The density, where none counts as medium. -/
def effectiveDensity (c : ResTableConfig) : ℕ :=
  if c.density = 0 then densityMedium else c.density.toNat

/-- Density and touch screen. -/
def betterScreenType (c o requested : ResTableConfig) : Option Bool :=
  if c.density ≠ o.density then
    some (densityIsBetter c.effectiveDensity o.effectiveDensity requested.requestedDensity)
  else betterField c.touchscreen o.touchscreen requested.touchscreen

/-- Keyboard and navigation. -/
def betterInput (c o requested : ResTableConfig) : Option Bool :=
  let keysHidden := c.inputFlags &&& maskKeysHidden
  let oKeysHidden := o.inputFlags &&& maskKeysHidden
  let reqKeysHidden := requested.inputFlags &&& maskKeysHidden
  let navHidden := c.inputFlags &&& maskNavHidden
  let oNavHidden := o.inputFlags &&& maskNavHidden
  let reqNavHidden := requested.inputFlags &&& maskNavHidden
  let byKeys : Option Bool :=
    if keysHidden ≠ oKeysHidden ∧ reqKeysHidden ≠ 0 then
      if keysHidden = 0 then some false
      else if oKeysHidden = 0 then some true
      else if reqKeysHidden = keysHidden then some true
      else if reqKeysHidden = oKeysHidden then some false
      else none
    else none
  let byNav : Option Bool :=
    if navHidden ≠ oNavHidden ∧ reqNavHidden ≠ 0 then
      if navHidden = 0 then some false else if oNavHidden = 0 then some true else none
    else none
  byKeys.or <| byNav.or <| (betterField c.keyboard o.keyboard requested.keyboard).or
    (betterField c.navigation o.navigation requested.navigation)

/-- Width and height. -/
def betterScreenSize (c o requested : ResTableConfig) : Option Bool :=
  if c.screenSize = 0 ∧ o.screenSize = 0 then none
  else betterDelta
    (sizeDelta requested.screenWidth requested.screenHeight c.screenWidth c.screenHeight)
    (sizeDelta requested.screenWidth requested.screenHeight o.screenWidth o.screenHeight)

/-- The version: a higher one is better. -/
def betterVersion (c o requested : ResTableConfig) : Option Bool :=
  if c.sdkVersion ≠ o.sdkVersion ∧ requested.sdkVersion ≠ 0 then some (o.sdkVersion < c.sdkVersion)
  else if c.minorVersion ≠ o.minorVersion ∧ requested.minorVersion ≠ 0 then
    some (c.minorVersion ≠ 0)
  else none

/-- The criteria of `isBetterThan`, in their order. -/
def criteria (c o requested : ResTableConfig) : List (Option Bool) :=
  [betterImsi c o requested,
    betterLocale data c o requested,
    betterGrammaticalInflection c o requested,
    betterLayoutDir c o requested,
    betterSmallestScreenWidthDp c o,
    betterScreenSizeDp c o requested,
    betterScreenLayout c o requested,
    betterMasked maskScreenRound c.screenLayout2 o.screenLayout2 requested.screenLayout2,
    betterMasked maskWideColorGamut c.colorMode o.colorMode requested.colorMode,
    betterMasked maskHdr c.colorMode o.colorMode requested.colorMode,
    betterField c.orientation o.orientation requested.orientation,
    betterMasked maskUiModeType c.uiMode o.uiMode requested.uiMode,
    betterMasked maskUiModeNight c.uiMode o.uiMode requested.uiMode,
    betterScreenType c o requested,
    betterInput c o requested,
    betterScreenSize c o requested,
    betterVersion c o requested]

/-- `isBetterThan` for a requested configuration: the first criterion that decides. -/
def isBetterThan (c o requested : ResTableConfig) : Bool :=
  ((criteria data c o requested).findSome? id).getD false

end Locale

/-! ## The text of a locale -/

/-- `unpackLanguageOrRegion`: three characters if the high bit is set, two or none otherwise. -/
def unpackLanguageOrRegion (code : Code) (base : UInt8) : List UInt8 :=
  if code.first &&& 0x80 ≠ 0 then
    let first := code.second &&& 0x1f
    let second := ((code.second &&& 0xe0) >>> 5) + ((code.first &&& 0x03) <<< 3)
    let third := (code.first &&& 0x7c) >>> 2
    [first + base, second + base, third + base]
  else if code.first ≠ 0 then [code.first, code.second]
  else []

/-- Append a part of a locale behind a separator, if there is something before it. -/
def appendPart (text part : List UInt8) : List UInt8 :=
  if text = [] then part else text ++ 45 :: part

/-- `getBcp47Locale`, as the C string that it leaves. -/
def getBcp47Locale (c : ResTableConfig) : List UInt8 :=
  if c.language.first = 0 ∧ c.country.first = 0 then []
  else
    let language := if c.language.first ≠ 0 then unpackLanguageOrRegion c.language 97 else []
    let script :=
      if c.localeScript[0] ≠ 0 ∧ c.localeScriptWasComputed = false then
        appendPart language c.localeScript.toList
      else language
    let region :=
      if c.country.first ≠ 0 then appendPart script (unpackLanguageOrRegion c.country 48)
      else script
    let variant :=
      if c.localeVariant[0] ≠ 0 then appendPart region (cText c.localeVariant) else region
    let numbering :=
      if c.localeNumberingSystem[0] ≠ 0 ∧ variant ≠ [] then
        variant ++ ([45, 117, 45, 110, 117, 45] ++ c.localeNumberingSystem.toList)
      else variant
    numbering.takeWhile (· ≠ 0)

/-- The locale as the text of a rule, one character for each byte. -/
def bcp47Locale (c : ResTableConfig) : String :=
  String.ofList (c.getBcp47Locale.map fun b => Char.ofNat b.toNat)

end ResTableConfig

end AndroidSdk.SplitSelect
