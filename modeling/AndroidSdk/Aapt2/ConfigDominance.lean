import Mathlib.Data.UInt
import Mathlib.Data.List.Find
import AndroidSdk.Aapt2.ResourceModel
import AndroidSdk.Lib.Domination
import AndroidSdk.SplitSelect.BetterThanOrder

/-! # Domination of configurations

`ConfigDescription::Dominates` (`ConfigDescription.cpp`) with what it calls of `ResTable_config`: a
configuration dominates another one if the other is chosen only where the first one matches, too.

* **`diff`**, **`isMoreSpecificThan`**, **`hasHigherPrecedenceThan`**, **`dominates`** — the
  operations.
* **`canonical`** — a configuration up to what `compare` does not see.
* **`dominates_iff`** — domination in terms of the fields.
* **`transitiveOn_dominates`** — domination is transitive where scripts that are marked as computed
  have been computed. -/

namespace AndroidSdk.SplitSelect.ResTableConfig

open Lib

/-! ## Differences -/

/-- The flags of `diff`. -/
inductive ConfigChange where
  | mcc | mnc | orientation | density | touchscreen | keyboardHidden | keyboard | navigation
  | screenSize | version | layoutDir | screenLayout | screenRound | colorMode | uiMode
  | smallestScreenSize | grammaticalGender | locale
  deriving DecidableEq

/-- The tests of `diff` with the flags that they set. -/
def diffTests (c o : ResTableConfig) : List (Bool × ConfigChange) :=
  [(c.mcc ≠ o.mcc, .mcc),
    (c.mnc ≠ o.mnc, .mnc),
    (c.orientation ≠ o.orientation, .orientation),
    (c.density ≠ o.density, .density),
    (c.touchscreen ≠ o.touchscreen, .touchscreen),
    ((c.inputFlags ^^^ o.inputFlags) &&& (maskKeysHidden ||| maskNavHidden) ≠ 0, .keyboardHidden),
    (c.keyboard ≠ o.keyboard, .keyboard),
    (c.navigation ≠ o.navigation, .navigation),
    (c.screenSize ≠ o.screenSize, .screenSize),
    (c.version ≠ o.version, .version),
    (c.screenLayout &&& maskLayoutDir ≠ o.screenLayout &&& maskLayoutDir, .layoutDir),
    (c.screenLayout &&& ~~~maskLayoutDir ≠ o.screenLayout &&& ~~~maskLayoutDir, .screenLayout),
    (c.screenLayout2 &&& maskScreenRound ≠ o.screenLayout2 &&& maskScreenRound, .screenRound),
    (c.colorMode &&& maskWideColorGamut ≠ o.colorMode &&& maskWideColorGamut, .colorMode),
    (c.colorMode &&& maskHdr ≠ o.colorMode &&& maskHdr, .colorMode),
    (c.uiMode ≠ o.uiMode, .uiMode),
    (c.smallestScreenWidthDp ≠ o.smallestScreenWidthDp, .smallestScreenSize),
    (c.screenSizeDp ≠ o.screenSizeDp, .screenSize),
    (c.grammaticalInflection ≠ o.grammaticalInflection, .grammaticalGender),
    (c.compareLocales o ≠ .eq, .locale)]

/-- `diff`: the flags that are set. -/
def diff (c o : ResTableConfig) : List ConfigChange :=
  ((diffTests c o).filter Prod.fst).map Prod.snd

/-! ## Specificity -/

/-- Two values of a field: the configuration that leaves it unset is less specific. -/
def specific {α : Type} [DecidableEq α] [Zero α] (mine other : α) : Option Bool :=
  if mine ≠ other then
    if mine = 0 then some false else if other = 0 then some true else none
  else none

/-- Tests that are made if one of two unions is set. -/
def whenSet (mine other : ℕ) (tests : List (Option Bool)) : List (Option Bool) :=
  if mine ≠ 0 ∨ other ≠ 0 then tests else []

/-- `getImportanceScoreOfLocale`. -/
def getImportanceScoreOfLocale (c : ResTableConfig) : ℤ :=
  (if firstOf c.localeVariant ≠ 0 then 4 else 0)
    + (if firstOf c.localeScript ≠ 0 ∧ c.localeScriptWasComputed = false then 2 else 0)
    + (if firstOf c.localeNumberingSystem ≠ 0 then 1 else 0)

/-- `isLocaleMoreSpecificThan`. -/
def isLocaleMoreSpecificThan (c o : ResTableConfig) : ℤ :=
  let byCode := (whenSet c.locale o.locale
    [specific c.language.first o.language.first, specific c.country.first o.country.first]).findSome? id
  match byCode with
  | some true => 1
  | some false => -1
  | none => c.getImportanceScoreOfLocale - o.getImportanceScoreOfLocale

/-- The test on the sign of `isLocaleMoreSpecificThan`. -/
def specificLocale (c o : ResTableConfig) : Option Bool :=
  if c.isLocaleMoreSpecificThan o < 0 then some false
  else if 0 < c.isLocaleMoreSpecificThan o then some true
  else none

/-- The tests of `isMoreSpecificThan`, in their order; density is never more specific. -/
def specificityTests (c o : ResTableConfig) : List (Option Bool) :=
  whenSet c.imsi o.imsi [specific c.mcc o.mcc, specific c.mnc o.mnc]
  ++ whenSet c.locale o.locale [specificLocale c o]
  ++ whenSet c.grammaticalInflection.toNat o.grammaticalInflection.toNat
    [specific c.grammaticalInflection o.grammaticalInflection]
  ++ whenSet c.screenLayout.toNat o.screenLayout.toNat
    [specific (c.screenLayout &&& maskLayoutDir) (o.screenLayout &&& maskLayoutDir)]
  ++ whenSet c.smallestScreenWidthDp.toNat o.smallestScreenWidthDp.toNat
    [specific c.smallestScreenWidthDp o.smallestScreenWidthDp]
  ++ whenSet c.screenSizeDp o.screenSizeDp
    [specific c.screenWidthDp o.screenWidthDp, specific c.screenHeightDp o.screenHeightDp]
  ++ whenSet c.screenLayout.toNat o.screenLayout.toNat
    [specific (c.screenLayout &&& maskScreenSize) (o.screenLayout &&& maskScreenSize),
      specific (c.screenLayout &&& maskScreenLong) (o.screenLayout &&& maskScreenLong)]
  ++ whenSet c.screenLayout2.toNat o.screenLayout2.toNat
    [specific (c.screenLayout2 &&& maskScreenRound) (o.screenLayout2 &&& maskScreenRound)]
  ++ whenSet c.colorMode.toNat o.colorMode.toNat
    [specific (c.colorMode &&& maskHdr) (o.colorMode &&& maskHdr),
      specific (c.colorMode &&& maskWideColorGamut) (o.colorMode &&& maskWideColorGamut)]
  ++ [specific c.orientation o.orientation]
  ++ whenSet c.uiMode.toNat o.uiMode.toNat
    [specific (c.uiMode &&& maskUiModeType) (o.uiMode &&& maskUiModeType),
      specific (c.uiMode &&& maskUiModeNight) (o.uiMode &&& maskUiModeNight)]
  ++ [specific c.touchscreen o.touchscreen]
  ++ whenSet c.input o.input
    [specific (c.inputFlags &&& maskKeysHidden) (o.inputFlags &&& maskKeysHidden),
      specific (c.inputFlags &&& maskNavHidden) (o.inputFlags &&& maskNavHidden),
      specific c.keyboard o.keyboard, specific c.navigation o.navigation]
  ++ whenSet c.screenSize o.screenSize
    [specific c.screenWidth o.screenWidth, specific c.screenHeight o.screenHeight]
  ++ whenSet c.version o.version
    [specific c.sdkVersion o.sdkVersion, specific c.minorVersion o.minorVersion]

/-- `isMoreSpecificThan`: the first test that decides. -/
def isMoreSpecificThan (c o : ResTableConfig) : Bool :=
  ((specificityTests c o).findSome? id).getD false

/-! ## Precedence -/

/-- The qualifiers in the order of `HasHigherPrecedenceThan`: whether a configuration sets them. -/
def qualifiers : List (ResTableConfig → Bool) :=
  [fun c => c.mcc ≠ 0,
    fun c => c.mnc ≠ 0,
    fun c => c.language.first ≠ 0,
    fun c => c.country.first ≠ 0,
    -- script and variant require a language or a country
    fun c => c.grammaticalInflection ≠ 0,
    fun c => c.screenLayout &&& maskLayoutDir ≠ 0,
    fun c => c.smallestScreenWidthDp ≠ 0,
    fun c => c.screenWidthDp ≠ 0,
    fun c => c.screenHeightDp ≠ 0,
    fun c => c.screenLayout &&& maskScreenSize ≠ 0,
    fun c => c.screenLayout &&& maskScreenLong ≠ 0,
    fun c => c.screenLayout2 &&& maskScreenRound ≠ 0,
    fun c => c.colorMode &&& maskHdr ≠ 0,
    fun c => c.colorMode &&& maskWideColorGamut ≠ 0,
    fun c => c.orientation ≠ 0,
    fun c => c.uiMode &&& maskUiModeType ≠ 0,
    fun c => c.uiMode &&& maskUiModeNight ≠ 0,
    fun c => c.density ≠ 0,
    fun c => c.touchscreen ≠ 0,
    fun c => c.inputFlags &&& maskKeysHidden ≠ 0,
    fun c => c.inputFlags &&& maskNavHidden ≠ 0,
    fun c => c.keyboard ≠ 0,
    fun c => c.navigation ≠ 0,
    fun c => c.screenWidth ≠ 0,
    fun c => c.screenHeight ≠ 0,
    fun c => c.sdkVersion ≠ 0,
    fun c => c.minorVersion ≠ 0]

/-- `HasHigherPrecedenceThan`: the first qualifier that one of the configurations sets decides. -/
def hasHigherPrecedenceThan (c o : ResTableConfig) : Bool :=
  match qualifiers.find? fun q => q c || q o with
  | some q => !q o
  | none => c.compare o ≠ .eq

/-! ## Domination -/

section

variable (data : LocaleData)

/-- `MatchWithDensity`. -/
def matchWithDensity (c o : ResTableConfig) : Bool :=
  c.isMatch data o && (c.density = 0 || o.density ≠ 0)

/-- `Dominates`. -/
def dominates (c o : ResTableConfig) : Bool :=
  if c.compare o = .eq then true
  -- locales are not compared, nor is what has a higher precedence
  else if (diff c o).any (· ∈ [.locale, .mcc, .mnc]) then false
  else if c.compare defaultConfig = .eq then true
  else
    matchWithDensity data c o && !matchWithDensity data o c
      && !isMoreSpecificThan c o && !hasHigherPrecedenceThan o c

end

/-! ## What a match says about every field -/

/-- A value that asks for nothing, or is met by another one. -/
def Within {α : Type} [Zero α] (meets : α → α → Prop) (asked given : α) : Prop :=
  asked = 0 ∨ meets asked given

/-- A request for `KEYSHIDDEN_NO` is met by `KEYSHIDDEN_SOFT`. -/
def KeysMet (asked given : UInt8) : Prop :=
  asked = given ∨ (asked = keysHiddenNo ∧ given = keysHiddenSoft)

section

variable {α : Type} [Zero α] {meets : α → α → Prop}

/-- What is met by a value that is met itself. -/
theorem Within.trans (htrans : ∀ a b c, meets a b → meets b c → meets a c)
    (hpos : ∀ a b, meets a b → b = 0 → a = 0) {a b c : α} (h : Within meets a b)
    (h' : Within meets b c) : Within meets a c := by
  rcases h with hzero | h
  · exact .inl hzero
  · rcases h' with hzero | h'
    · exact .inl (hpos a b h hzero)
    · exact .inr (htrans a b c h h')

/-- A value that is asked for is given. -/
theorem Within.ne_zero (hpos : ∀ a b, meets a b → b = 0 → a = 0) {a b : α} (h : Within meets a b)
    (ha : a ≠ 0) : b ≠ 0 := fun hb => ha (h.elim id fun h => hpos a b h hb)

/-- Equal values are unset together. -/
theorem eq_pos (a b : α) (h : a = b) (hb : b = 0) : a = 0 := h.trans hb

/-- A byte that is at most zero is zero. -/
theorem le_pos₈ (a b : UInt8) (h : a ≤ b) (hb : b = 0) : a = 0 := by
  rw [hb, UInt8.le_iff_toNat_le, UInt8.toNat_zero, Nat.le_zero] at h
  exact UInt8.toNat_inj.mp h

/-- A number that is at most zero is zero. -/
theorem le_pos₁₆ (a b : UInt16) (h : a ≤ b) (hb : b = 0) : a = 0 := by
  rw [hb, UInt16.le_iff_toNat_le, UInt16.toNat_zero, Nat.le_zero] at h
  exact UInt16.toNat_inj.mp h

/-- A request for hidden keys is met by a setting. -/
theorem keysMet_pos (a b : UInt8) (h : KeysMet a b) (hb : b = 0) : a = 0 := by
  rcases h with h | ⟨-, h⟩
  · exact h.trans hb
  · rw [hb] at h
    exact absurd h (by decide)

/-- Requests for hidden keys that are met by requests. -/
theorem KeysMet.trans (a b c : UInt8) (h : KeysMet a b) (h' : KeysMet b c) : KeysMet a c := by
  rcases h with rfl | ⟨ha, hb⟩
  · exact h'
  · rcases h' with rfl | ⟨hb', -⟩
    · exact .inr ⟨ha, hb⟩
    · exact absurd (hb.symm.trans hb') (by decide)

end

/-- Every field of a configuration but the locale is met by another one. -/
structure Met (c o : ResTableConfig) : Prop where
  mcc : Within Eq c.mcc o.mcc
  mnc : Within Eq c.mnc o.mnc
  grammaticalInflection : Within Eq c.grammaticalInflection o.grammaticalInflection
  layoutDir : Within Eq (c.screenLayout &&& maskLayoutDir) (o.screenLayout &&& maskLayoutDir)
  layoutSize :
    Within (· ≤ ·) (c.screenLayout &&& maskScreenSize) (o.screenLayout &&& maskScreenSize)
  layoutLong : Within Eq (c.screenLayout &&& maskScreenLong) (o.screenLayout &&& maskScreenLong)
  uiModeType : Within Eq (c.uiMode &&& maskUiModeType) (o.uiMode &&& maskUiModeType)
  uiModeNight : Within Eq (c.uiMode &&& maskUiModeNight) (o.uiMode &&& maskUiModeNight)
  smallestScreenWidthDp : Within (· ≤ ·) c.smallestScreenWidthDp o.smallestScreenWidthDp
  screenRound :
    Within Eq (c.screenLayout2 &&& maskScreenRound) (o.screenLayout2 &&& maskScreenRound)
  hdr : Within Eq (c.colorMode &&& maskHdr) (o.colorMode &&& maskHdr)
  wideColorGamut :
    Within Eq (c.colorMode &&& maskWideColorGamut) (o.colorMode &&& maskWideColorGamut)
  screenWidthDp : Within (· ≤ ·) c.screenWidthDp o.screenWidthDp
  screenHeightDp : Within (· ≤ ·) c.screenHeightDp o.screenHeightDp
  orientation : Within Eq c.orientation o.orientation
  touchscreen : Within Eq c.touchscreen o.touchscreen
  keysHidden : Within KeysMet (c.inputFlags &&& maskKeysHidden) (o.inputFlags &&& maskKeysHidden)
  navHidden : Within Eq (c.inputFlags &&& maskNavHidden) (o.inputFlags &&& maskNavHidden)
  keyboard : Within Eq c.keyboard o.keyboard
  navigation : Within Eq c.navigation o.navigation
  screenWidth : Within (· ≤ ·) c.screenWidth o.screenWidth
  screenHeight : Within (· ≤ ·) c.screenHeight o.screenHeight
  sdkVersion : Within (· ≤ ·) c.sdkVersion o.sdkVersion
  minorVersion : Within Eq c.minorVersion o.minorVersion

/-- A gate on a union does not change a test that unset fields pass. -/
theorem gate_or_iff {gate test : Prop} (h : gate → test) : gate ∨ test ↔ test :=
  or_iff_right_of_imp h

/-- **A match**, without the gates on the unions. -/
theorem isMatch_iff (data : LocaleData) (c o : ResTableConfig) :
    c.isMatch data o = true ↔ matchLocale data c o = true ∧ Met c o := by
  -- each test of a whole group of fields is one test for each field
  have himsi : matchImsi c o = true ↔ Within Eq c.mcc o.mcc ∧ Within Eq c.mnc o.mnc := by
    simp only [matchImsi, decide_eq_true_eq]
    exact gate_or_iff fun h => ⟨.inl (eq_zero_of_union h).1, .inl (eq_zero_of_union h).2⟩
  have hconfig : matchScreenConfig c o = true
      ↔ Within Eq (c.screenLayout &&& maskLayoutDir) (o.screenLayout &&& maskLayoutDir)
        ∧ Within (· ≤ ·) (c.screenLayout &&& maskScreenSize) (o.screenLayout &&& maskScreenSize)
        ∧ Within Eq (c.screenLayout &&& maskScreenLong) (o.screenLayout &&& maskScreenLong)
        ∧ Within Eq (c.uiMode &&& maskUiModeType) (o.uiMode &&& maskUiModeType)
        ∧ Within Eq (c.uiMode &&& maskUiModeNight) (o.uiMode &&& maskUiModeNight)
        ∧ Within (· ≤ ·) c.smallestScreenWidthDp o.smallestScreenWidthDp := by
    simp only [matchScreenConfig, decide_eq_true_eq]
    refine gate_or_iff fun h => ?_
    obtain ⟨hlayout, hmode, hwidth⟩ := eq_zero_of_union₃ h
    rw [hlayout, hmode, UInt16.toNat_inj.mp (hwidth.trans UInt16.toNat_zero.symm)]
    simp
  have hconfig2 : matchScreenConfig2 c o = true
      ↔ Within Eq (c.screenLayout2 &&& maskScreenRound) (o.screenLayout2 &&& maskScreenRound)
        ∧ Within Eq (c.colorMode &&& maskHdr) (o.colorMode &&& maskHdr)
        ∧ Within Eq (c.colorMode &&& maskWideColorGamut) (o.colorMode &&& maskWideColorGamut) := by
    simp only [matchScreenConfig2, decide_eq_true_eq]
    refine gate_or_iff fun h => ?_
    rw [(eq_zero_of_union₃ h).1, (eq_zero_of_union₃ h).2.1]
    simp
  have hsizeDp : matchScreenSizeDp c o = true
      ↔ Within (· ≤ ·) c.screenWidthDp o.screenWidthDp
        ∧ Within (· ≤ ·) c.screenHeightDp o.screenHeightDp := by
    simp only [matchScreenSizeDp, decide_eq_true_eq]
    exact gate_or_iff fun h => ⟨.inl (eq_zero_of_union h).1, .inl (eq_zero_of_union h).2⟩
  have htype : matchScreenType c o = true
      ↔ Within Eq c.orientation o.orientation ∧ Within Eq c.touchscreen o.touchscreen := by
    simp only [matchScreenType, decide_eq_true_eq]
    exact gate_or_iff fun h => ⟨.inl (eq_zero_of_union₃ h).1, .inl (eq_zero_of_union₃ h).2.1⟩
  have hinput : matchInput c o = true
      ↔ Within KeysMet (c.inputFlags &&& maskKeysHidden) (o.inputFlags &&& maskKeysHidden)
        ∧ Within Eq (c.inputFlags &&& maskNavHidden) (o.inputFlags &&& maskNavHidden)
        ∧ Within Eq c.keyboard o.keyboard ∧ Within Eq c.navigation o.navigation := by
    simp only [matchInput, decide_eq_true_eq]
    refine gate_or_iff fun h => ?_
    obtain ⟨hkeyboard, hnavigation, hflags⟩ := eq_zero_of_union₃ h
    rw [hkeyboard, hnavigation, UInt8.toNat_inj.mp (hflags.trans UInt8.toNat_zero.symm)]
    simp
  have hsize : matchScreenSize c o = true
      ↔ Within (· ≤ ·) c.screenWidth o.screenWidth
        ∧ Within (· ≤ ·) c.screenHeight o.screenHeight := by
    simp only [matchScreenSize, decide_eq_true_eq]
    exact gate_or_iff fun h => ⟨.inl (eq_zero_of_union h).1, .inl (eq_zero_of_union h).2⟩
  have hversion : matchVersion c o = true
      ↔ Within (· ≤ ·) c.sdkVersion o.sdkVersion ∧ Within Eq c.minorVersion o.minorVersion := by
    simp only [matchVersion, decide_eq_true_eq]
    exact gate_or_iff fun h => ⟨.inl (eq_zero_of_union h).1, .inl (eq_zero_of_union h).2⟩
  have hgender : (c.grammaticalInflection = 0
      || c.grammaticalInflection = o.grammaticalInflection) = true
        ↔ Within Eq c.grammaticalInflection o.grammaticalInflection := by
    simp only [Bool.or_eq_true, decide_eq_true_eq]
    rfl
  simp only [isMatch, Bool.and_eq_true, himsi, hconfig, hconfig2, hsizeDp, htype, hinput, hsize,
    hversion, hgender]
  -- what is left is the order of the conjuncts
  constructor
  · rintro ⟨⟨⟨⟨⟨⟨⟨⟨⟨⟨hmcc, hmnc⟩, hlocale⟩, hgender⟩, hdir, hlayoutSize, hlong, hmode, hnight, hsw⟩,
      hround, hhdr, hgamut⟩, hwdp, hhdp⟩, horientation, htouch⟩, hkeys, hnav, hkeyboard,
      hnavigation⟩, hw, hh⟩, hsdk, hminor⟩
    exact ⟨hlocale, hmcc, hmnc, hgender, hdir, hlayoutSize, hlong, hmode, hnight, hsw, hround, hhdr,
      hgamut, hwdp, hhdp, horientation, htouch, hkeys, hnav, hkeyboard, hnavigation, hw, hh, hsdk,
      hminor⟩
  · rintro ⟨hlocale, h⟩
    exact ⟨⟨⟨⟨⟨⟨⟨⟨⟨⟨h.mcc, h.mnc⟩, hlocale⟩, h.grammaticalInflection⟩, h.layoutDir, h.layoutSize,
      h.layoutLong, h.uiModeType, h.uiModeNight, h.smallestScreenWidthDp⟩, h.screenRound, h.hdr,
      h.wideColorGamut⟩, h.screenWidthDp, h.screenHeightDp⟩, h.orientation, h.touchscreen⟩,
      h.keysHidden, h.navHidden, h.keyboard, h.navigation⟩, h.screenWidth, h.screenHeight⟩,
      h.sdkVersion, h.minorVersion⟩

/-- **Being met is transitive.** -/
theorem Met.trans {a b c : ResTableConfig} (h : Met a b) (h' : Met b c) : Met a c := by
  have heq : ∀ {α : Type} [Zero α] {x y z : α}, Within Eq x y → Within Eq y z → Within Eq x z :=
    fun h h' => Within.trans (fun a b c (h : a = b) (h' : b = c) => h.trans h') eq_pos h h'
  have hle : ∀ {x y z : UInt16}, Within (· ≤ ·) x y → Within (· ≤ ·) y z → Within (· ≤ ·) x z :=
    fun h h' =>
      Within.trans (fun a b c (h : a ≤ b) (h' : b ≤ c) => UInt16.le_trans h h') le_pos₁₆ h h'
  constructor
  case layoutSize =>
    exact Within.trans (fun a b c (h : a ≤ b) (h' : b ≤ c) => UInt8.le_trans h h') le_pos₈
      h.layoutSize h'.layoutSize
  case keysHidden => exact Within.trans KeysMet.trans keysMet_pos h.keysHidden h'.keysHidden
  case mcc => exact heq h.mcc h'.mcc
  case mnc => exact heq h.mnc h'.mnc
  case grammaticalInflection => exact heq h.grammaticalInflection h'.grammaticalInflection
  case layoutDir => exact heq h.layoutDir h'.layoutDir
  case layoutLong => exact heq h.layoutLong h'.layoutLong
  case uiModeType => exact heq h.uiModeType h'.uiModeType
  case uiModeNight => exact heq h.uiModeNight h'.uiModeNight
  case smallestScreenWidthDp => exact hle h.smallestScreenWidthDp h'.smallestScreenWidthDp
  case screenRound => exact heq h.screenRound h'.screenRound
  case hdr => exact heq h.hdr h'.hdr
  case wideColorGamut => exact heq h.wideColorGamut h'.wideColorGamut
  case screenWidthDp => exact hle h.screenWidthDp h'.screenWidthDp
  case screenHeightDp => exact hle h.screenHeightDp h'.screenHeightDp
  case orientation => exact heq h.orientation h'.orientation
  case touchscreen => exact heq h.touchscreen h'.touchscreen
  case navHidden => exact heq h.navHidden h'.navHidden
  case keyboard => exact heq h.keyboard h'.keyboard
  case navigation => exact heq h.navigation h'.navigation
  case screenWidth => exact hle h.screenWidth h'.screenWidth
  case screenHeight => exact hle h.screenHeight h'.screenHeight
  case sdkVersion => exact hle h.sdkVersion h'.sdkVersion
  case minorVersion => exact heq h.minorVersion h'.minorVersion

/-! ## Configurations up to what is not compared -/

/-- The script of a configuration as `compareLocales` sees it. -/
def canonicalScript (c : ResTableConfig) : Vector UInt8 4 :=
  if c.localeScriptWasComputed then defaultConfig.localeScript else c.localeScript

/-- A configuration without a computed script and padding. -/
def canonical (c : ResTableConfig) : ResTableConfig :=
  { c with
    localeScript := c.canonicalScript
    localeScriptWasComputed := false
    screenConfigPad2 := 0 }

/-- The script that is provided. -/
theorem canonicalScript_toList (c : ResTableConfig) :
    c.canonicalScript.toList = c.providedScript := by
  unfold canonicalScript providedScript
  split_ifs
  · rfl
  · rfl

/-- **Equality of configurations** is equality of their canonical forms. -/
theorem compare_eq_iff_canonical (c o : ResTableConfig) :
    c.compare o = .eq ↔ c.canonical = o.canonical := by
  rw [compare_eq_iff]
  simp only [SameQualifiers, ← canonicalScript_toList, Vector.toList_inj, canonical,
    ResTableConfig.mk.injEq, true_and]
  tauto

/-- The same operator and the same locale. -/
structure SameLocale (c o : ResTableConfig) : Prop where
  mcc : c.mcc = o.mcc
  mnc : c.mnc = o.mnc
  language : c.language = o.language
  country : c.country = o.country
  localeScript : c.localeScript = o.localeScript
  localeVariant : c.localeVariant = o.localeVariant
  localeNumberingSystem : c.localeNumberingSystem = o.localeNumberingSystem

/-- What `diff` is asked for. -/
theorem any_diff_eq_false_iff (c o : ResTableConfig) :
    (diff c o).any (· ∈ [.locale, .mcc, .mnc]) = false ↔ SameLocale c.canonical o.canonical := by
  have hlocales : c.compareLocales o = .eq ↔ (c.language = o.language ∧ c.country = o.country)
      ∧ c.canonicalScript = o.canonicalScript ∧ c.localeVariant = o.localeVariant
      ∧ c.localeNumberingSystem = o.localeNumberingSystem := by
    simp only [compareLocales, compareLex_eq_eq, compareOn, Std.LawfulEqCmp.compare_eq_iff_eq,
      locale_eq_iff, ← canonicalScript_toList, Vector.toList_inj]
  have htests : (diff c o).any (· ∈ [.locale, .mcc, .mnc]) = false
      ↔ c.mcc = o.mcc ∧ c.mnc = o.mnc ∧ c.compareLocales o = .eq := by
    simp only [diff, List.any_map, List.any_filter, diffTests, List.any_cons, List.any_nil,
      Function.comp_apply, Bool.or_eq_false_iff, Bool.and_eq_false_iff]
    simp
  rw [htests, hlocales]
  constructor
  · rintro ⟨hmcc, hmnc, ⟨hlanguage, hcountry⟩, hscript, hvariant, hnumbering⟩
    exact ⟨hmcc, hmnc, hlanguage, hcountry, hscript, hvariant, hnumbering⟩
  · rintro ⟨hmcc, hmnc, hlanguage, hcountry, hscript, hvariant, hnumbering⟩
    exact ⟨hmcc, hmnc, ⟨hlanguage, hcountry⟩, hscript, hvariant, hnumbering⟩

/-- A script that is marked as computed is the one that the tables give. -/
def ScriptComputed (data : LocaleData) (c : ResTableConfig) : Prop :=
  c.localeScriptWasComputed = true → c.localeScript = data.computeScript c.language c.country

/-- Where computed scripts are computed, the script of a configuration with the same locale is the
same or not looked at. -/
theorem matchedScript_of_sameLocale {data : LocaleData} {c o : ResTableConfig}
    (hc : ScriptComputed data c) (ho : ScriptComputed data o)
    (h : SameLocale c.canonical o.canonical) :
    matchedScript data c o = none ∨ matchedScript data c o = some o.localeScript := by
  have hlanguage : c.language = o.language := h.language
  have hcountry : c.country = o.country := h.country
  have hscript : c.canonicalScript = o.canonicalScript := h.localeScript
  unfold matchedScript
  by_cases hnone : o.localeScript[0] = 0
  · rw [if_pos hnone]
    exact .inl rfl
  · rw [if_neg hnone]
    refine .inr ?_
    unfold canonicalScript at hscript
    cases hcomputed : c.localeScriptWasComputed with
    | false =>
        cases hother : o.localeScriptWasComputed with
        | false =>
            rw [hcomputed, hother, if_neg Bool.false_ne_true, if_neg Bool.false_ne_true] at hscript
            rw [if_neg fun hzero => hnone (hscript ▸ hzero.1), hscript]
        | true =>
            rw [hcomputed, hother, if_neg Bool.false_ne_true, if_pos rfl] at hscript
            have hfirst : c.localeScript[0] = 0 := by
              rw [hscript]
              rfl
            rw [if_pos ⟨hfirst, rfl⟩, hlanguage, hcountry, ← ho hother]
            exact if_neg hnone
    | true =>
        rw [if_neg fun hzero => absurd hzero.2 (by decide)]
        cases hother : o.localeScriptWasComputed with
        | false =>
            rw [hcomputed, hother, if_pos rfl, if_neg Bool.false_ne_true] at hscript
            refine absurd ?_ hnone
            rw [← hscript]
            rfl
        | true => rw [hc hcomputed, ho hother, hlanguage, hcountry]

/-- **Equal locales match**, where computed scripts are computed. -/
theorem matchLocale_of_sameLocale {data : LocaleData} {c o : ResTableConfig}
    (hc : ScriptComputed data c) (ho : ScriptComputed data o)
    (h : SameLocale c.canonical o.canonical) : matchLocale data c o = true := by
  have hlanguage : c.language = o.language := h.language
  have hcountry : c.country = o.country := h.country
  unfold matchLocale
  split_ifs with hzero hlangs
  · rfl
  · rw [hlanguage] at hlangs
    simp [langsAreEquivalent] at hlangs
  · rcases matchedScript_of_sameLocale hc ho h with hmatched | hmatched
    · rw [hmatched]
      exact decide_eq_true (.inr hcountry)
    · rw [hmatched]
      exact decide_eq_true rfl

/-! ## Qualifiers -/

/-- Every field of a configuration but the locale is met by another one, with a density if there is
one. -/
def Covers (c o : ResTableConfig) : Prop := Met c o ∧ (c.density = 0 ∨ o.density ≠ 0)

/-- Covering is transitive. -/
theorem Covers.trans {a b c : ResTableConfig} (h : Covers a b) (h' : Covers b c) : Covers a c := by
  refine ⟨h.1.trans h'.1, ?_⟩
  rcases h.2 with hzero | hne
  · exact .inl hzero
  · exact .inr (h'.2.resolve_left hne)

/-- **A configuration that covers sets no other qualifiers.** -/
theorem Covers.qualifier {c o : ResTableConfig} (hlocale : SameLocale c.canonical o.canonical)
    (h : Covers c o) : ∀ q ∈ qualifiers, q c = true → q o = true := by
  have hlanguage : c.language = o.language := hlocale.language
  have hcountry : c.country = o.country := hlocale.country
  have hdensity : c.density ≠ 0 → o.density ≠ 0 := fun hne => h.2.resolve_left hne
  obtain ⟨h, -⟩ := h
  simp only [qualifiers, List.forall_mem_cons, List.not_mem_nil, IsEmpty.forall_iff, implies_true,
    decide_eq_true_eq, and_true, hlanguage, hcountry]
  exact ⟨h.mcc.ne_zero eq_pos, h.mnc.ne_zero eq_pos, id, id,
    h.grammaticalInflection.ne_zero eq_pos, h.layoutDir.ne_zero eq_pos,
    h.smallestScreenWidthDp.ne_zero le_pos₁₆, h.screenWidthDp.ne_zero le_pos₁₆,
    h.screenHeightDp.ne_zero le_pos₁₆, h.layoutSize.ne_zero le_pos₈, h.layoutLong.ne_zero eq_pos,
    h.screenRound.ne_zero eq_pos, h.hdr.ne_zero eq_pos, h.wideColorGamut.ne_zero eq_pos,
    h.orientation.ne_zero eq_pos, h.uiModeType.ne_zero eq_pos, h.uiModeNight.ne_zero eq_pos,
    hdensity, h.touchscreen.ne_zero eq_pos, h.keysHidden.ne_zero keysMet_pos,
    h.navHidden.ne_zero eq_pos, h.keyboard.ne_zero eq_pos, h.navigation.ne_zero eq_pos,
    h.screenWidth.ne_zero le_pos₁₆, h.screenHeight.ne_zero le_pos₁₆, h.sdkVersion.ne_zero le_pos₁₆,
    h.minorVersion.ne_zero eq_pos⟩

/-- A field of a covering configuration is not more specific. -/
theorem specific_ne_some_true {α : Type} [DecidableEq α] [Zero α] {mine other : α}
    (h : mine ≠ 0 → other ≠ 0) : specific mine other ≠ some true := by
  unfold specific
  split_ifs with hne hmine hother
  · simp
  · exact absurd hother (h hmine)
  · simp
  · simp

/-- Tests behind a gate. -/
theorem forall_mem_whenSet {mine other : ℕ} {tests : List (Option Bool)}
    (h : ∀ t ∈ tests, t ≠ some true) : ∀ t ∈ whenSet mine other tests, t ≠ some true := by
  unfold whenSet
  split_ifs
  · exact h
  · exact fun t ht => nomatch ht

/-- Fields that are equal do not decide. -/
theorem specific_self {α : Type} [DecidableEq α] [Zero α] (a : α) : specific a a = none :=
  if_neg (not_not.mpr rfl)

/-- The score of a locale. -/
theorem getImportanceScoreOfLocale_canonical (c : ResTableConfig) :
    c.canonical.getImportanceScoreOfLocale = c.getImportanceScoreOfLocale := by
  unfold getImportanceScoreOfLocale canonical canonicalScript
  cases c.localeScriptWasComputed with
  | false => rfl
  | true => simp [show firstOf defaultConfig.localeScript = 0 from rfl]

/-- Equal locales are equally specific. -/
theorem specificLocale_of_sameLocale {c o : ResTableConfig}
    (h : SameLocale c.canonical o.canonical) : specificLocale c o = none := by
  have hlanguage : c.language = o.language := h.language
  have hcountry : c.country = o.country := h.country
  have hscore : c.getImportanceScoreOfLocale = o.getImportanceScoreOfLocale := by
    rw [← getImportanceScoreOfLocale_canonical c, ← getImportanceScoreOfLocale_canonical o]
    unfold getImportanceScoreOfLocale
    rw [h.localeVariant, h.localeScript, h.localeNumberingSystem]
    rfl
  have hcodes : (whenSet c.locale o.locale [specific c.language.first o.language.first,
      specific c.country.first o.country.first]).findSome? id = none := by
    rw [hlanguage, hcountry, specific_self, specific_self]
    unfold whenSet
    split_ifs
    · rfl
    · rfl
  have hzero : isLocaleMoreSpecificThan c o = 0 := by
    unfold isLocaleMoreSpecificThan
    rw [hcodes, hscore]
    exact Int.sub_self _
  unfold specificLocale
  rw [hzero]
  rfl

/-- **A configuration that covers is not more specific.** -/
theorem isMoreSpecificThan_eq_false {c o : ResTableConfig}
    (hlocale : SameLocale c.canonical o.canonical) (h : Covers c o) :
    isMoreSpecificThan c o = false := by
  obtain ⟨h, -⟩ := h
  -- no test says that `c` has what `o` lacks
  have htests : ∀ t ∈ specificityTests c o, t ≠ some true := by
    simp only [specificityTests, List.forall_mem_append]
    have hone : ∀ {t : Option Bool}, t ≠ some true → ∀ t' ∈ [t], t' ≠ some true :=
      fun ht t' ht' => List.mem_singleton.mp ht' ▸ ht
    have htwo : ∀ {t u : Option Bool}, t ≠ some true → u ≠ some true →
        ∀ t' ∈ [t, u], t' ≠ some true :=
      fun ht hu => List.forall_mem_cons.mpr ⟨ht, hone hu⟩
    refine ⟨⟨⟨⟨⟨⟨⟨⟨⟨⟨⟨⟨⟨⟨?_, ?_⟩, ?_⟩, ?_⟩, ?_⟩, ?_⟩, ?_⟩, ?_⟩, ?_⟩, ?_⟩, ?_⟩, ?_⟩, ?_⟩, ?_⟩, ?_⟩
    · exact forall_mem_whenSet (htwo (specific_ne_some_true (h.mcc.ne_zero eq_pos))
        (specific_ne_some_true (h.mnc.ne_zero eq_pos)))
    -- the same locale leaves the test undecided
    · refine forall_mem_whenSet (hone ?_)
      rw [specificLocale_of_sameLocale hlocale]
      exact nofun
    · exact forall_mem_whenSet
        (hone (specific_ne_some_true (h.grammaticalInflection.ne_zero eq_pos)))
    · exact forall_mem_whenSet (hone (specific_ne_some_true (h.layoutDir.ne_zero eq_pos)))
    · exact forall_mem_whenSet
        (hone (specific_ne_some_true (h.smallestScreenWidthDp.ne_zero le_pos₁₆)))
    · exact forall_mem_whenSet (htwo (specific_ne_some_true (h.screenWidthDp.ne_zero le_pos₁₆))
        (specific_ne_some_true (h.screenHeightDp.ne_zero le_pos₁₆)))
    · exact forall_mem_whenSet (htwo (specific_ne_some_true (h.layoutSize.ne_zero le_pos₈))
        (specific_ne_some_true (h.layoutLong.ne_zero eq_pos)))
    · exact forall_mem_whenSet (hone (specific_ne_some_true (h.screenRound.ne_zero eq_pos)))
    · exact forall_mem_whenSet (htwo (specific_ne_some_true (h.hdr.ne_zero eq_pos))
        (specific_ne_some_true (h.wideColorGamut.ne_zero eq_pos)))
    · exact hone (specific_ne_some_true (h.orientation.ne_zero eq_pos))
    · exact forall_mem_whenSet (htwo (specific_ne_some_true (h.uiModeType.ne_zero eq_pos))
        (specific_ne_some_true (h.uiModeNight.ne_zero eq_pos)))
    · exact hone (specific_ne_some_true (h.touchscreen.ne_zero eq_pos))
    -- the flags, and the two keyboards
    · exact forall_mem_whenSet (List.forall_mem_cons.mpr
        ⟨specific_ne_some_true (h.keysHidden.ne_zero keysMet_pos), List.forall_mem_cons.mpr
          ⟨specific_ne_some_true (h.navHidden.ne_zero eq_pos),
            htwo (specific_ne_some_true (h.keyboard.ne_zero eq_pos))
              (specific_ne_some_true (h.navigation.ne_zero eq_pos))⟩⟩)
    · exact forall_mem_whenSet (htwo (specific_ne_some_true (h.screenWidth.ne_zero le_pos₁₆))
        (specific_ne_some_true (h.screenHeight.ne_zero le_pos₁₆)))
    · exact forall_mem_whenSet (htwo (specific_ne_some_true (h.sdkVersion.ne_zero le_pos₁₆))
        (specific_ne_some_true (h.minorVersion.ne_zero eq_pos)))
  -- the first test that decides cannot say yes
  unfold isMoreSpecificThan
  cases hfound : (specificityTests c o).findSome? id with
  | none => rfl
  | some b =>
      obtain ⟨t, ht, htb⟩ := List.exists_of_findSome?_eq_some hfound
      cases b with
      | false => rfl
      | true => exact absurd htb (htests t ht)

/-! ## The first qualifier -/

/-- The first qualifier that the other configuration sets is set. -/
def LedBy (c o : ResTableConfig) : Prop := ∃ q, qualifiers.find? (· o) = some q ∧ q c = true

/-- An item that is found first for a test is found first for a stricter test that it passes. -/
theorem find?_of_imp {α : Type} {l : List α} {p r : α → Bool} {a : α}
    (himp : ∀ x ∈ l, r x = true → p x = true) (h : l.find? p = some a) (ha : r a = true) :
    l.find? r = some a := by
  rw [List.find?_eq_some_iff_append] at h ⊢
  obtain ⟨-, before, after, rfl, hbefore⟩ := h
  refine ⟨ha, before, after, rfl, fun x hx => ?_⟩
  have hx' := hbefore x hx
  rw [Bool.not_eq_true'] at hx' ⊢
  exact Bool.eq_false_iff.mpr fun hr =>
    Bool.eq_false_iff.mp hx' (himp x (List.mem_append_left _ hx) hr)

/-- **The other configuration has no higher precedence** iff its first qualifier is set, or nothing
is set and the configurations are equal. -/
theorem hasHigherPrecedenceThan_eq_false_iff {c o : ResTableConfig}
    (himp : ∀ q ∈ qualifiers, q c = true → q o = true) (hne : o.compare c ≠ .eq) :
    hasHigherPrecedenceThan o c = false ↔ LedBy c o := by
  have hfind : qualifiers.find? (fun q => q o || q c) = qualifiers.find? (· o) := by
    refine List.find?_congr fun q hq => ?_
    cases ho : q o with
    | true => rfl
    | false => exact Bool.eq_false_iff.mpr fun hc => by simp [himp q hq hc] at ho
  unfold hasHigherPrecedenceThan LedBy
  rw [hfind]
  cases qualifiers.find? (· o) with
  | none => simpa using hne
  | some q => simp

/-! ## Transitivity -/

/-- Domination, on configurations without what is not compared. -/
def Dominates (c o : ResTableConfig) : Prop :=
  c = o ∨ SameLocale c o ∧ (c = defaultConfig ∨ Covers c o ∧ ¬ Covers o c ∧ LedBy c o)

/-- The default configuration sets no qualifier. -/
theorem find?_defaultConfig : qualifiers.find? (· defaultConfig) = none := by
  rfl

/-- The qualifiers do not depend on what is not compared. -/
theorem ledBy_canonical (c o : ResTableConfig) : LedBy c.canonical o.canonical ↔ LedBy c o := by
  have hcanonical : ∀ c : ResTableConfig, ∀ q ∈ qualifiers, q c.canonical = q c := by
    intro c
    simp only [qualifiers, List.forall_mem_cons, List.not_mem_nil, IsEmpty.forall_iff, implies_true,
      and_true]
    exact ⟨rfl, rfl, rfl, rfl, rfl, rfl, rfl, rfl, rfl, rfl, rfl, rfl, rfl, rfl, rfl, rfl, rfl, rfl,
      rfl, rfl, rfl, rfl, rfl, rfl, rfl, rfl, rfl⟩
  unfold LedBy
  rw [List.find?_congr (hcanonical o)]
  refine exists_congr fun q => and_congr_right fun hq => ?_
  rw [hcanonical c q (List.mem_of_find?_eq_some hq)]

/-- The fields that are met do not depend on what is not compared. -/
theorem covers_canonical (c o : ResTableConfig) : Covers c.canonical o.canonical ↔ Covers c o := by
  have hmet : Met c.canonical o.canonical ↔ Met c o := by
    constructor
    · rintro ⟨⟩
      constructor <;> assumption
    · rintro ⟨⟩
      constructor <;> assumption
  exact and_congr_left fun _ => hmet

/-- **Domination in terms of the fields.** -/
theorem dominates_iff {data : LocaleData} {c o : ResTableConfig} (hc : ScriptComputed data c)
    (ho : ScriptComputed data o) :
    dominates data c o = true ↔ Dominates c.canonical o.canonical := by
  have hmatch : ∀ {c o : ResTableConfig}, ScriptComputed data c → ScriptComputed data o →
      SameLocale c.canonical o.canonical → (matchWithDensity data c o = true ↔ Covers c o) := by
    intro c o hc ho h
    simp only [matchWithDensity, Bool.and_eq_true, isMatch_iff, matchLocale_of_sameLocale hc ho h,
      true_and, Bool.or_eq_true, decide_eq_true_eq, Covers]
  unfold dominates Dominates
  rw [← compare_eq_iff_canonical]
  split_ifs with heq hdiff hdefault
  · exact iff_of_true rfl (.inl heq)
  · have hother : ¬ SameLocale c.canonical o.canonical := fun h => by
      rw [(any_diff_eq_false_iff c o).mpr h] at hdiff
      cases hdiff
    refine iff_of_false not_false ?_
    rintro (h | ⟨h, -⟩)
    · exact heq h
    · exact hother h
  · have hlocale := (any_diff_eq_false_iff c o).mp (Bool.eq_false_iff.mpr hdiff)
    have hdefault' := (compare_eq_iff_canonical c defaultConfig).mp hdefault
    exact iff_of_true rfl (.inr ⟨hlocale, .inl hdefault'⟩)
  · have hlocale := (any_diff_eq_false_iff c o).mp (Bool.eq_false_iff.mpr hdiff)
    have hlocale' : SameLocale o.canonical c.canonical := ⟨hlocale.mcc.symm, hlocale.mnc.symm,
      hlocale.language.symm, hlocale.country.symm, hlocale.localeScript.symm,
      hlocale.localeVariant.symm, hlocale.localeNumberingSystem.symm⟩
    have hdefault' : c.canonical ≠ defaultConfig := fun h =>
      hdefault ((compare_eq_iff_canonical c defaultConfig).mpr h)
    have hne : o.compare c ≠ .eq := fun h =>
      heq ((compare_eq_iff_canonical c o).mpr ((compare_eq_iff_canonical o c).mp h).symm)
    simp only [Bool.and_eq_true, Bool.not_eq_true']
    rw [hmatch hc ho hlocale, ← Bool.not_eq_true, hmatch ho hc hlocale', or_iff_right heq,
      and_iff_right hlocale, or_iff_right hdefault', covers_canonical, covers_canonical,
      ledBy_canonical]
    constructor
    · rintro ⟨⟨⟨hcovers, hnot⟩, -⟩, hprecedence⟩
      exact ⟨hcovers, hnot,
        (hasHigherPrecedenceThan_eq_false_iff (hcovers.qualifier hlocale) hne).mp hprecedence⟩
    · rintro ⟨hcovers, hnot, hled⟩
      exact ⟨⟨⟨hcovers, hnot⟩, isMoreSpecificThan_eq_false hlocale hcovers⟩,
        (hasHigherPrecedenceThan_eq_false_iff (hcovers.qualifier hlocale) hne).mpr hled⟩

/-- **Domination is transitive.** -/
theorem Dominates.trans {a b c : ResTableConfig} (hb : b.canonical = b) (hc : c.canonical = c)
    (h : Dominates a b) (h' : Dominates b c) : Dominates a c := by
  rcases h with rfl | ⟨hlocale, h⟩
  · exact h'
  rcases h' with rfl | ⟨hlocale', h'⟩
  · exact .inr ⟨hlocale, h⟩
  refine .inr ⟨⟨hlocale.mcc.trans hlocale'.mcc, hlocale.mnc.trans hlocale'.mnc,
    hlocale.language.trans hlocale'.language, hlocale.country.trans hlocale'.country,
    hlocale.localeScript.trans hlocale'.localeScript,
    hlocale.localeVariant.trans hlocale'.localeVariant,
    hlocale.localeNumberingSystem.trans hlocale'.localeNumberingSystem⟩, ?_⟩
  rcases h with rfl | ⟨hcovers, hnot, q, hfind, hq⟩
  · exact .inl rfl
  rcases h' with rfl | ⟨hcovers', hnot', q', hfind', hq'⟩
  · -- nothing else is led by a configuration without qualifiers
    rw [find?_defaultConfig] at hfind
    cases hfind
  · refine .inr ⟨hcovers.trans hcovers', fun hback => hnot (hcovers'.trans hback), q', hfind', ?_⟩
    -- the first qualifier of the last configuration is the first of the one between
    have himp : ∀ q ∈ qualifiers, q b = true → q c = true :=
      hcovers'.qualifier (by rwa [hb, hc])
    have hsame := find?_of_imp himp hfind' hq'
    rw [hfind] at hsame
    rwa [← Option.some.inj hsame]

/-- **Domination is transitive where computed scripts are computed.** -/
theorem transitiveOn_dominates (data : LocaleData) :
    Rose.TransitiveOn (dominates data) (ScriptComputed data) := by
  intro a b c ha hb hc h h'
  have hcanonical : ∀ c : ResTableConfig, c.canonical.canonical = c.canonical := fun _ => rfl
  rw [dominates_iff ha hb] at h
  rw [dominates_iff hb hc] at h'
  rw [dominates_iff ha hc]
  exact h.trans (hcanonical b) (hcanonical c) h'

end AndroidSdk.SplitSelect.ResTableConfig
