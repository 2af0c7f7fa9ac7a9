import AndroidSdk.Lib.Selection
import AndroidSdk.SplitSelect.Selector

/-! # Is being better an order?

`ResTable_config::isBetterThan` asks about twenty criteria one after another. On configurations that
match the requested one, every criterion but the locale prefers the configuration with the greater
key, so together they are a lexicographic order. The locale returns only on a win and falls through
on a loss, so it can contradict the criteria after it.

* **`imsiKeys`**, **`laterKeys`** — the keys of the criteria before and after the locale.
* **`isBetterThan_eq_true_iff`** — being better, as a cascade with a one-sided locale.
* **`isBetterThan_strictOn_iff`** — exactly when being better is a strict order. -/

namespace AndroidSdk.SplitSelect.ResTableConfig

open Lib

/-! ## Keys -/

/-- The keys of `mcc` and `mnc`. -/
def imsiKeys : List (ResTableConfig → ℤ) := [fun c => c.mcc.toNat, fun c => c.mnc.toNat]

/-- The size of the screen layout: undefined counts as normal if the requested size is at least
normal, but normal is still better. -/
def screenSizeKey (requested c : ResTableConfig) : ℤ :=
  let size := c.screenLayout &&& maskScreenSize
  if size = 0 then
    if screenSizeNormal ≤ requested.screenLayout &&& maskScreenSize then
      2 * (screenSizeNormal.toNat : ℤ)
    else 0
  else 2 * (size.toNat : ℤ) + 1

/-- Whether keys are hidden: an exact match is best, and any match is better than none. -/
def keysHiddenKey (requested c : ResTableConfig) : ℤ :=
  let keysHidden := c.inputFlags &&& maskKeysHidden
  if keysHidden = 0 then 0
  else if keysHidden = requested.inputFlags &&& maskKeysHidden then 2
  else 1

/-- The keys of the criteria between the locale and the density, in their order. -/
def keysBeforeDensity (requested : ResTableConfig) : List (ResTableConfig → ℤ) :=
  [fun c => c.grammaticalInflection.toNat,
    fun c => (c.screenLayout &&& maskLayoutDir).toNat,
    fun c => c.smallestScreenWidthDp.toNat,
    fun c => -sizeDelta requested.screenWidthDp requested.screenHeightDp
      c.screenWidthDp c.screenHeightDp,
    screenSizeKey requested,
    fun c => (c.screenLayout &&& maskScreenLong).toNat,
    fun c => (c.screenLayout2 &&& maskScreenRound).toNat,
    fun c => (c.colorMode &&& maskWideColorGamut).toNat,
    fun c => (c.colorMode &&& maskHdr).toNat,
    fun c => c.orientation.toNat,
    fun c => (c.uiMode &&& maskUiModeType).toNat,
    fun c => (c.uiMode &&& maskUiModeNight).toNat]

/-- The key of the density. -/
def densityKey (requested c : ResTableConfig) : ℤ :=
  densityRank requested.requestedDensity c.effectiveDensity

/-- The keys of the criteria between the density and the version, in their order. -/
def keysAfterDensity (requested : ResTableConfig) : List (ResTableConfig → ℤ) :=
  [fun c => c.touchscreen.toNat,
    keysHiddenKey requested,
    fun c => (c.inputFlags &&& maskNavHidden).toNat,
    fun c => c.keyboard.toNat,
    fun c => c.navigation.toNat,
    fun c => -sizeDelta requested.screenWidth requested.screenHeight c.screenWidth c.screenHeight]

/-- The keys of the version. -/
def versionKeys : List (ResTableConfig → ℤ) :=
  [fun c => c.sdkVersion.toNat, fun c => c.minorVersion.toNat]

/-- The keys of the criteria after the locale, in their order. -/
def laterKeys (requested : ResTableConfig) : List (ResTableConfig → ℤ) :=
  keysBeforeDensity requested
    ++ densityKey requested :: (keysAfterDensity requested ++ versionKeys)

/-! ## What a match says about the fields -/

/-- The fields of a configuration that matches. A field that is unset matches anything. -/
structure Matched (requested c : ResTableConfig) : Prop where
  mcc : c.mcc = 0 ∨ c.mcc = requested.mcc
  mnc : c.mnc = 0 ∨ c.mnc = requested.mnc
  grammaticalInflection :
    c.grammaticalInflection = 0 ∨ c.grammaticalInflection = requested.grammaticalInflection
  layoutDir : c.screenLayout &&& maskLayoutDir = 0
    ∨ c.screenLayout &&& maskLayoutDir = requested.screenLayout &&& maskLayoutDir
  screenSize : c.screenLayout &&& maskScreenSize = 0
    ∨ c.screenLayout &&& maskScreenSize ≤ requested.screenLayout &&& maskScreenSize
  screenLong : c.screenLayout &&& maskScreenLong = 0
    ∨ c.screenLayout &&& maskScreenLong = requested.screenLayout &&& maskScreenLong
  uiModeType : c.uiMode &&& maskUiModeType = 0
    ∨ c.uiMode &&& maskUiModeType = requested.uiMode &&& maskUiModeType
  uiModeNight : c.uiMode &&& maskUiModeNight = 0
    ∨ c.uiMode &&& maskUiModeNight = requested.uiMode &&& maskUiModeNight
  screenRound : c.screenLayout2 &&& maskScreenRound = 0
    ∨ c.screenLayout2 &&& maskScreenRound = requested.screenLayout2 &&& maskScreenRound
  hdr : c.colorMode &&& maskHdr = 0 ∨ c.colorMode &&& maskHdr = requested.colorMode &&& maskHdr
  wideColorGamut : c.colorMode &&& maskWideColorGamut = 0
    ∨ c.colorMode &&& maskWideColorGamut = requested.colorMode &&& maskWideColorGamut
  orientation : c.orientation = 0 ∨ c.orientation = requested.orientation
  touchscreen : c.touchscreen = 0 ∨ c.touchscreen = requested.touchscreen
  keysHidden : c.inputFlags &&& maskKeysHidden = 0
    ∨ c.inputFlags &&& maskKeysHidden = requested.inputFlags &&& maskKeysHidden
    ∨ (c.inputFlags &&& maskKeysHidden = keysHiddenNo
      ∧ requested.inputFlags &&& maskKeysHidden = keysHiddenSoft)
  navHidden : c.inputFlags &&& maskNavHidden = 0
    ∨ c.inputFlags &&& maskNavHidden = requested.inputFlags &&& maskNavHidden
  keyboard : c.keyboard = 0 ∨ c.keyboard = requested.keyboard
  navigation : c.navigation = 0 ∨ c.navigation = requested.navigation
  sdkVersion : c.sdkVersion = 0 ∨ c.sdkVersion ≤ requested.sdkVersion
  minorVersion : c.minorVersion = 0 ∨ c.minorVersion = requested.minorVersion

/-- The 16-bit halves of a union that is zero. -/
theorem eq_zero_of_union {a b : UInt16} (h : a.toNat + 65536 * b.toNat = 0) : a = 0 ∧ b = 0 :=
  ⟨UInt16.toNat_inj.mp (show a.toNat = 0 by omega), UInt16.toNat_inj.mp (show b.toNat = 0 by omega)⟩

/-- The parts of a union of two bytes and 16 bits that is zero. -/
theorem eq_zero_of_union₃ {a b : UInt8} {n : ℕ} (h : a.toNat + 256 * b.toNat + 65536 * n = 0) :
    a = 0 ∧ b = 0 ∧ n = 0 :=
  ⟨UInt8.toNat_inj.mp (show a.toNat = 0 by omega), UInt8.toNat_inj.mp (show b.toNat = 0 by omega),
    by omega⟩

/-- A match constrains every field. -/
theorem matched_of_isMatch {data : LocaleData} {requested c : ResTableConfig}
    (h : c.isMatch data requested = true) : Matched requested c := by
  simp only [isMatch, Bool.and_eq_true] at h
  obtain ⟨⟨⟨⟨⟨⟨⟨⟨⟨himsi, -⟩, hgender⟩, hconfig⟩, hconfig2⟩, -⟩, htype⟩, hinput⟩, -⟩, hversion⟩ := h
  simp only [matchImsi, decide_eq_true_eq] at himsi
  simp only [Bool.or_eq_true, decide_eq_true_eq] at hgender
  simp only [matchScreenConfig, decide_eq_true_eq] at hconfig
  simp only [matchScreenConfig2, decide_eq_true_eq] at hconfig2
  simp only [matchScreenType, decide_eq_true_eq] at htype
  simp only [matchInput, decide_eq_true_eq] at hinput
  simp only [matchVersion, decide_eq_true_eq] at hversion
  -- a union that is zero has fields that are unset
  have himsi' : (c.mcc = 0 ∨ c.mcc = requested.mcc) ∧ (c.mnc = 0 ∨ c.mnc = requested.mnc) := by
    rcases himsi with hzero | himsi
    · obtain ⟨hmcc, hmnc⟩ := eq_zero_of_union hzero
      exact ⟨.inl hmcc, .inl hmnc⟩
    · exact himsi
  have hversion' : (c.sdkVersion = 0 ∨ c.sdkVersion ≤ requested.sdkVersion)
      ∧ (c.minorVersion = 0 ∨ c.minorVersion = requested.minorVersion) := by
    rcases hversion with hzero | hversion
    · obtain ⟨hsdk, hminor⟩ := eq_zero_of_union hzero
      exact ⟨.inl hsdk, .inl hminor⟩
    · exact hversion
  have hlayout : c.screenConfig = 0 → c.screenLayout = 0 ∧ c.uiMode = 0 := fun hzero =>
    ⟨(eq_zero_of_union₃ hzero).1, (eq_zero_of_union₃ hzero).2.1⟩
  have hlayout2 : c.screenConfig2 = 0 → c.screenLayout2 = 0 ∧ c.colorMode = 0 := fun hzero =>
    ⟨(eq_zero_of_union₃ hzero).1, (eq_zero_of_union₃ hzero).2.1⟩
  have htype' : c.screenType = 0 → c.orientation = 0 ∧ c.touchscreen = 0 := fun hzero =>
    ⟨(eq_zero_of_union₃ hzero).1, (eq_zero_of_union₃ hzero).2.1⟩
  have hinput' : c.input = 0 → c.keyboard = 0 ∧ c.navigation = 0 ∧ c.inputFlags = 0 := fun hzero =>
    ⟨(eq_zero_of_union₃ hzero).1, (eq_zero_of_union₃ hzero).2.1,
      UInt8.toNat_inj.mp (eq_zero_of_union₃ hzero).2.2⟩
  constructor
  case mcc => exact himsi'.1
  case mnc => exact himsi'.2
  case grammaticalInflection => exact hgender
  case sdkVersion => exact hversion'.1
  case minorVersion => exact hversion'.2
  case layoutDir =>
    rcases hconfig with hzero | hconfig
    · simp [(hlayout hzero).1]
    · exact hconfig.1
  case screenSize =>
    rcases hconfig with hzero | hconfig
    · simp [(hlayout hzero).1]
    · exact hconfig.2.1
  case screenLong =>
    rcases hconfig with hzero | hconfig
    · simp [(hlayout hzero).1]
    · exact hconfig.2.2.1
  case uiModeType =>
    rcases hconfig with hzero | hconfig
    · simp [(hlayout hzero).2]
    · exact hconfig.2.2.2.1
  case uiModeNight =>
    rcases hconfig with hzero | hconfig
    · simp [(hlayout hzero).2]
    · exact hconfig.2.2.2.2.1
  case screenRound =>
    rcases hconfig2 with hzero | hconfig2
    · simp [(hlayout2 hzero).1]
    · exact hconfig2.1
  case hdr =>
    rcases hconfig2 with hzero | hconfig2
    · simp [(hlayout2 hzero).2]
    · exact hconfig2.2.1
  case wideColorGamut =>
    rcases hconfig2 with hzero | hconfig2
    · simp [(hlayout2 hzero).2]
    · exact hconfig2.2.2
  case orientation =>
    rcases htype with hzero | htype
    · exact .inl (htype' hzero).1
    · exact htype.1
  case touchscreen =>
    rcases htype with hzero | htype
    · exact .inl (htype' hzero).2
    · exact htype.2
  case keysHidden =>
    rcases hinput with hzero | hinput
    · simp [(hinput' hzero).2.2]
    · exact hinput.1
  case navHidden =>
    rcases hinput with hzero | hinput
    · simp [(hinput' hzero).2.2]
    · exact hinput.2.1
  case keyboard =>
    rcases hinput with hzero | hinput
    · exact .inl (hinput' hzero).1
    · exact hinput.2.2.1
  case navigation =>
    rcases hinput with hzero | hinput
    · exact .inl (hinput' hzero).2.1
    · exact hinput.2.2.2

/-! ## Every criterion but the locale decides by a key -/

section Keys

variable {requested c o : ResTableConfig}

/-- A field that is unset or as requested, and decides in favour of the configuration that sets it,
decides by its value. -/
theorem decide_set_eq {α β : Type} [DecidableEq β] {zero : β} {toNat : β → ℕ}
    (hinjective : Function.Injective toNat) (htoNat : toNat zero = 0) (key : α → ℤ) {x y : α}
    {mine other req : β} (hmine : mine = zero ∨ mine = req) (hother : other = zero ∨ other = req)
    (hx : key x = toNat mine) (hy : key y = toNat other) :
    (if mine ≠ other ∧ req ≠ zero then some (decide (mine ≠ zero)) else none)
      = decideKey key x y := by
  rw [decideKey, hx, hy]
  by_cases heq : mine = other
  · rw [if_neg (by simp [heq]), if_pos (by rw [heq])]
  · have hne : (toNat mine : ℤ) ≠ toNat other := by
      intro h
      exact heq (hinjective (by omega))
    have hreq : req ≠ zero := by
      -- otherwise both are unset
      rintro rfl
      exact heq ((hmine.elim id id).trans (hother.elim id id).symm)
    rw [if_neg hne, if_pos ⟨heq, hreq⟩]
    rcases hmine with rfl | rfl
    · simp [htoNat]
    · have hother' : other = zero := hother.resolve_right (Ne.symm heq)
      have hpos : 0 < toNat mine :=
        Nat.pos_of_ne_zero fun h => hreq (hinjective (h.trans htoNat.symm))
      rw [hother', htoNat]
      simp [hreq, hpos]

/-- A field of a byte. -/
theorem betterField_eq {α : Type} (key : α → ℤ) {x y : α} {mine other req : UInt8}
    (hmine : mine = 0 ∨ mine = req) (hother : other = 0 ∨ other = req)
    (hx : key x = mine.toNat) (hy : key y = other.toNat) :
    betterField mine other req = decideKey key x y :=
  decide_set_eq (fun _ _ => UInt8.toNat_inj.mp) rfl key hmine hother hx hy

/-- A masked field of a byte. -/
theorem betterMasked_eq {α : Type} (key : α → ℤ) {x y : α} {mask mine other req : UInt8}
    (hmine : mine &&& mask = 0 ∨ mine &&& mask = req &&& mask)
    (hother : other &&& mask = 0 ∨ other &&& mask = req &&& mask)
    (hx : key x = (mine &&& mask).toNat) (hy : key y = (other &&& mask).toNat) :
    betterMasked mask mine other req = decideKey key x y :=
  betterField_eq key hmine hother hx hy

/-- The first condition decides, or the second does. -/
theorem ite_ite_eq_or {p q : Prop} [Decidable p] [Decidable q] (a b : Bool) :
    (if p then some a else if q then some b else none)
      = (if p then some a else none).or (if q then some b else none) := by
  split_ifs <;> rfl

/-- `mcc` and `mnc`. -/
theorem betterImsi_eq (hc : Matched requested c) (ho : Matched requested o) :
    betterImsi c o requested = decideKeys imsiKeys c o := by
  have hinjective : Function.Injective UInt16.toNat := fun _ _ => UInt16.toNat_inj.mp
  have hmcc := decide_set_eq hinjective rfl (fun c : ResTableConfig => (c.mcc.toNat : ℤ))
    hc.mcc ho.mcc rfl rfl
  have hmnc := decide_set_eq hinjective rfl (fun c : ResTableConfig => (c.mnc.toNat : ℤ))
    hc.mnc ho.mnc rfl rfl
  rw [imsiKeys, decideKeys_cons, decideKeys_cons, decideKeys_nil, Option.or_none, ← hmcc, ← hmnc,
    betterImsi]
  by_cases hzero : c.imsi = 0 ∧ o.imsi = 0
  · -- without `mcc` and `mnc` there is nothing to compare
    obtain ⟨hmcc₁, hmnc₁⟩ := eq_zero_of_union hzero.1
    obtain ⟨hmcc₂, hmnc₂⟩ := eq_zero_of_union hzero.2
    rw [if_pos hzero]
    simp [hmcc₁, hmcc₂, hmnc₁, hmnc₂]
  · rw [if_neg hzero, ite_ite_eq_or]

/-- Distances: the smaller one is better. -/
theorem betterDelta_eq {α : Type} (key : α → ℤ) {x y : α} {mine other : ℤ} (hx : key x = -mine)
    (hy : key y = -other) : betterDelta mine other = decideKey key x y := by
  rw [betterDelta, decideKey, hx, hy]
  by_cases heq : mine = other
  · rw [if_neg (by simpa using heq), if_pos (by rw [heq])]
  · rw [if_pos heq, if_neg (by omega)]
    simp

/-- The size in dp. -/
theorem betterScreenSizeDp_eq : betterScreenSizeDp c o requested
    = decideKey (fun c => -sizeDelta requested.screenWidthDp requested.screenHeightDp
        c.screenWidthDp c.screenHeightDp) c o := by
  rw [betterScreenSizeDp]
  split_ifs with hzero
  · -- sizes that are both unset are at the same distance
    obtain ⟨hwidth₁, hheight₁⟩ := eq_zero_of_union hzero.1
    obtain ⟨hwidth₂, hheight₂⟩ := eq_zero_of_union hzero.2
    rw [decideKey, hwidth₁, hheight₁, hwidth₂, hheight₂, if_pos rfl]
  · exact betterDelta_eq _ rfl rfl

/-- The size in pixels. -/
theorem betterScreenSize_eq : betterScreenSize c o requested
    = decideKey (fun c => -sizeDelta requested.screenWidth requested.screenHeight
        c.screenWidth c.screenHeight) c o := by
  rw [betterScreenSize]
  split_ifs with hzero
  · obtain ⟨hwidth₁, hheight₁⟩ := eq_zero_of_union hzero.1
    obtain ⟨hwidth₂, hheight₂⟩ := eq_zero_of_union hzero.2
    rw [decideKey, hwidth₁, hheight₁, hwidth₂, hheight₂, if_pos rfl]
  · exact betterDelta_eq _ rfl rfl

/-- The layout direction. -/
theorem betterLayoutDir_eq (hc : Matched requested c) (ho : Matched requested o) :
    betterLayoutDir c o requested
      = decideKey (fun c => ((c.screenLayout &&& maskLayoutDir).toNat : ℤ)) c o := by
  rw [betterLayoutDir, decideKey]
  by_cases heq : c.screenLayout &&& maskLayoutDir = o.screenLayout &&& maskLayoutDir
  · rw [if_neg (by simp [heq]), if_pos (by rw [heq])]
  · have hreq : requested.screenLayout &&& maskLayoutDir ≠ 0 := by
      intro hzero
      have h₁ := hc.layoutDir
      have h₂ := ho.layoutDir
      rw [hzero, or_self] at h₁ h₂
      exact heq (h₁.trans h₂.symm)
    have hne : ((c.screenLayout &&& maskLayoutDir).toNat : ℤ)
        ≠ (o.screenLayout &&& maskLayoutDir).toNat := by
      intro h
      exact heq (UInt8.toNat_inj.mp (by omega))
    rw [if_pos ⟨heq, hreq⟩, if_neg hne]
    simp [UInt8.lt_iff_toNat_lt]

/-- The smallest width. -/
theorem betterSmallestScreenWidthDp_eq : betterSmallestScreenWidthDp c o
    = decideKey (fun c => (c.smallestScreenWidthDp.toNat : ℤ)) c o := by
  rw [betterSmallestScreenWidthDp, decideKey]
  by_cases heq : c.smallestScreenWidthDp = o.smallestScreenWidthDp
  · rw [if_neg (by simp [heq]), if_pos (by rw [heq])]
  · have hne : (c.smallestScreenWidthDp.toNat : ℤ) ≠ o.smallestScreenWidthDp.toNat := by
      intro h
      exact heq (UInt16.toNat_inj.mp (by omega))
    rw [if_pos heq, if_neg hne]
    simp [UInt16.lt_iff_toNat_lt]

/-- Different sizes, of which an unset one may count as another, decide by their keys. -/
theorem decideSize_eq {α : Type} (key : α → ℤ) {x y : α} (fixed : UInt8 → UInt8)
    {mine other : UInt8} (hne : mine ≠ other) (hfixed : ∀ size, size ≠ 0 → fixed size = size)
    (hx : key x = 2 * (fixed mine).toNat + if mine = 0 then 0 else 1)
    (hy : key y = 2 * (fixed other).toNat + if other = 0 then 0 else 1) :
    (if fixed mine = fixed other then some (decide (mine ≠ 0))
      else some (decide (fixed other < fixed mine))) = decideKey key x y := by
  rw [decideKey, hx, hy]
  by_cases heq : fixed mine = fixed other
  · rw [if_pos heq, heq]
    -- sizes that are both set are not changed, so one of them is unset
    by_cases hmine : mine = 0
    · have hother : other ≠ 0 := fun hother => hne (hmine.trans hother.symm)
      rw [if_pos hmine, if_neg hother, if_neg (by omega), decide_eq_decide.mpr]
      simp only [hmine, ne_eq, not_true_eq_false, false_iff]
      omega
    · have hother : other = 0 := by
        by_contra hother
        exact hne ((hfixed mine hmine).symm.trans (heq.trans (hfixed other hother)))
      rw [if_neg hmine, if_pos hother, if_neg (by omega), decide_eq_decide.mpr]
      simp only [hmine, ne_eq, not_false_eq_true, true_iff]
      omega
  · have hnat : (fixed mine).toNat ≠ (fixed other).toNat := fun h => heq (UInt8.toNat_inj.mp h)
    have hlt : fixed other < fixed mine ↔ (2 * ((fixed other).toNat : ℤ)
        + if other = 0 then 0 else 1) < 2 * (fixed mine).toNat + if mine = 0 then 0 else 1 := by
      rw [UInt8.lt_iff_toNat_lt]
      split_ifs <;> omega
    rw [if_neg heq, if_neg (by split_ifs <;> omega), decide_eq_decide.mpr hlt]

/-- The size and the shape of the screen layout. -/
theorem betterScreenLayout_eq (hc : Matched requested c) (ho : Matched requested o) :
    betterScreenLayout c o requested = (decideKey (screenSizeKey requested) c o).or
      (decideKey (fun c => ((c.screenLayout &&& maskScreenLong).toNat : ℤ)) c o) := by
  have hlong := betterMasked_eq (fun c : ResTableConfig =>
    ((c.screenLayout &&& maskScreenLong).toNat : ℤ)) hc.screenLong ho.screenLong rfl rfl
  rw [← hlong, betterScreenLayout, betterMasked]
  by_cases heq : c.screenLayout &&& maskScreenSize = o.screenLayout &&& maskScreenSize
  · -- equal sizes leave the decision to the shape
    have hkey : screenSizeKey requested c = screenSizeKey requested o := by
      simp only [screenSizeKey, heq]
    rw [if_neg (by simp [heq]), decideKey, if_pos hkey, Option.none_or]
  · have hreq : requested.screenLayout &&& maskScreenSize ≠ 0 := by
      intro hzero
      have h₁ := hc.screenSize
      have h₂ := ho.screenSize
      rw [hzero, UInt8.le_zero_iff, or_self] at h₁ h₂
      exact heq (h₁.trans h₂.symm)
    have hkey : ∀ c : ResTableConfig, screenSizeKey requested c
        = 2 * (if screenSizeNormal ≤ requested.screenLayout &&& maskScreenSize
              ∧ c.screenLayout &&& maskScreenSize = 0 then screenSizeNormal
            else c.screenLayout &&& maskScreenSize).toNat
          + if c.screenLayout &&& maskScreenSize = 0 then 0 else 1 := by
      intro c
      simp only [screenSizeKey]
      by_cases hzero : c.screenLayout &&& maskScreenSize = 0
      · by_cases hnormal : screenSizeNormal ≤ requested.screenLayout &&& maskScreenSize
        · simp [hzero, hnormal]
        · simp [hzero, hnormal]
      · simp [hzero]
    have hdecides := decideSize_eq (screenSizeKey requested) (fun size =>
      if screenSizeNormal ≤ requested.screenLayout &&& maskScreenSize ∧ size = 0 then
        screenSizeNormal
      else size) heq (fun size hsize => if_neg (by simp [hsize])) (hkey c) (hkey o)
    rw [if_pos ⟨heq, hreq⟩, ← hdecides, ← apply_ite, Option.some_or]

/-- The criterion on the density. -/
def betterDensity (c o requested : ResTableConfig) : Option Bool :=
  if c.density ≠ o.density then
    some (densityIsBetter c.effectiveDensity o.effectiveDensity requested.requestedDensity)
  else none

/-- Density and touch screen. -/
theorem betterScreenType_eq (hc : Matched requested c) (ho : Matched requested o) :
    betterScreenType c o requested = (betterDensity c o requested).or
      (decideKey (fun c => (c.touchscreen.toNat : ℤ)) c o) := by
  have htouch := betterField_eq (fun c : ResTableConfig => (c.touchscreen.toNat : ℤ))
    hc.touchscreen ho.touchscreen rfl rfl
  rw [← htouch, betterScreenType, betterDensity]
  split_ifs <;> rfl

/-- Densities that are told apart decide by their rank. -/
theorem betterDensity_eq
    (hdensity : c.effectiveDensity = o.effectiveDensity → c.density = o.density) :
    betterDensity c o requested = decideKey (densityKey requested) c o := by
  have hlt : ∀ c : ResTableConfig, c.effectiveDensity < 65536 := by
    intro c
    have h := c.density.toNat_lt
    rw [effectiveDensity, densityMedium]
    split_ifs <;> omega
  rw [betterDensity, decideKey, densityKey, densityKey]
  by_cases heq : c.density = o.density
  · have hkey : c.effectiveDensity = o.effectiveDensity := by
      rw [effectiveDensity, effectiveDensity, heq]
    rw [if_neg (by simp [heq]), if_pos (by rw [hkey])]
  · have hne : c.effectiveDensity ≠ o.effectiveDensity := mt hdensity heq
    have hrank : (densityRank requested.requestedDensity c.effectiveDensity : ℤ)
        ≠ densityRank requested.requestedDensity o.effectiveDensity := by
      intro h
      exact hne (densityRank_injective (hlt c) (hlt o) (Int.ofNat_inj.mp h))
    rw [if_pos heq, if_neg hrank, Bool.eq_iff_iff.mpr
      ((densityIsBetter_iff (hlt c) (hlt o) hne).trans decide_eq_true_iff.symm)]
    simp

/-- Whether keys are hidden. -/
theorem decideKeysHidden_eq {α : Type} (key : α → ℤ) {x y : α} {mine other req : UInt8}
    (h₁ : mine = 0 ∨ mine = req ∨ (mine = keysHiddenNo ∧ req = keysHiddenSoft))
    (h₂ : other = 0 ∨ other = req ∨ (other = keysHiddenNo ∧ req = keysHiddenSoft))
    (hx : key x = if mine = 0 then 0 else if mine = req then 2 else 1)
    (hy : key y = if other = 0 then 0 else if other = req then 2 else 1) :
    (if mine ≠ other ∧ req ≠ 0 then
      if mine = 0 then some false
      else if other = 0 then some true
      else if req = mine then some true
      else if req = other then some false
      else none
    else none) = decideKey key x y := by
  rw [decideKey, hx, hy]
  by_cases hreq : req = 0
  · -- nothing is requested, so both are unset
    have hsoft : keysHiddenSoft ≠ 0 := by decide
    have hmine : mine = 0 := by
      rcases h₁ with h₁ | h₁ | ⟨-, h₁⟩
      · exact h₁
      · exact h₁.trans hreq
      · exact absurd (h₁.symm.trans hreq) hsoft
    have hother : other = 0 := by
      rcases h₂ with h₂ | h₂ | ⟨-, h₂⟩
      · exact h₂
      · exact h₂.trans hreq
      · exact absurd (h₂.symm.trans hreq) hsoft
    simp [hmine, hother]
  · by_cases heq : mine = other
    · simp [heq]
    · by_cases hmine : mine = 0
      · have hother : other ≠ 0 := fun hother => heq (hmine.trans hother.symm)
        by_cases hexact : other = req
        · simp [hmine, hreq, hexact, Ne.symm hreq]
        · simp [hmine, hother, hreq, hexact, Ne.symm hother]
      · by_cases hother : other = 0
        · by_cases hexact : mine = req
          · simp [hother, hreq, hexact]
          · simp [hmine, hother, hreq, hexact]
        · -- of two that are set and differ, exactly one is as requested
          rcases h₁ with h₁ | h₁ | ⟨h₁, -⟩
          · exact absurd h₁ hmine
          · have hexact : other ≠ req := fun h => heq (h₁.trans h.symm)
            simp [h₁, hreq, hother, hexact, Ne.symm hexact]
          · rcases h₂ with h₂ | h₂ | ⟨h₂, -⟩
            · exact absurd h₂ hother
            · have hexact : mine ≠ req := fun h => heq (h.trans h₂.symm)
              simp [h₂, hreq, hmine, hexact, Ne.symm hexact]
            · exact absurd (h₁.trans h₂.symm) heq

/-- Whether navigation is hidden. -/
theorem decideNavHidden_eq {mask mine other req : UInt8}
    (h₁ : mine &&& mask = 0 ∨ mine &&& mask = req &&& mask)
    (h₂ : other &&& mask = 0 ∨ other &&& mask = req &&& mask) :
    (if mine &&& mask ≠ other &&& mask ∧ req &&& mask ≠ 0 then
      if mine &&& mask = 0 then some false
      else if other &&& mask = 0 then some true
      else none
    else none) = betterMasked mask mine other req := by
  rw [betterMasked]
  by_cases hne : mine &&& mask ≠ other &&& mask ∧ req &&& mask ≠ 0
  · rw [if_pos hne, if_pos hne]
    by_cases hmine : mine &&& mask = 0
    · simp [hmine]
    · have hother : other &&& mask = 0 :=
        h₂.resolve_right fun h => hne.1 ((h₁.resolve_left hmine).trans h.symm)
      simp [hmine, hother]
  · rw [if_neg hne, if_neg hne]

/-- Keyboard and navigation. -/
theorem betterInput_eq (hc : Matched requested c) (ho : Matched requested o) :
    betterInput c o requested = (decideKey (keysHiddenKey requested) c o).or
      ((decideKey (fun c => ((c.inputFlags &&& maskNavHidden).toNat : ℤ)) c o).or
        ((decideKey (fun c => (c.keyboard.toNat : ℤ)) c o).or
          (decideKey (fun c => (c.navigation.toNat : ℤ)) c o))) := by
  have hkeyboard := betterField_eq (fun c : ResTableConfig => (c.keyboard.toNat : ℤ))
    hc.keyboard ho.keyboard rfl rfl
  have hnavigation := betterField_eq (fun c : ResTableConfig => (c.navigation.toNat : ℤ))
    hc.navigation ho.navigation rfl rfl
  have hnav := betterMasked_eq (fun c : ResTableConfig =>
    ((c.inputFlags &&& maskNavHidden).toNat : ℤ)) hc.navHidden ho.navHidden rfl rfl
  rw [← decideKeysHidden_eq (keysHiddenKey requested) hc.keysHidden ho.keysHidden rfl rfl, ← hnav,
    ← hkeyboard, ← hnavigation, ← decideNavHidden_eq hc.navHidden ho.navHidden]
  rfl

/-- The version. -/
theorem betterVersion_eq (hc : Matched requested c) (ho : Matched requested o) :
    betterVersion c o requested = decideKeys versionKeys c o := by
  have hinjective : Function.Injective UInt16.toNat := fun _ _ => UInt16.toNat_inj.mp
  have hminor := decide_set_eq hinjective rfl (fun c : ResTableConfig => (c.minorVersion.toNat : ℤ))
    hc.minorVersion ho.minorVersion rfl rfl
  rw [versionKeys, decideKeys_cons, decideKeys_cons, decideKeys_nil, Option.or_none, ← hminor,
    betterVersion, ite_ite_eq_or]
  congr 1
  rw [decideKey]
  by_cases heq : c.sdkVersion = o.sdkVersion
  · rw [if_neg (by simp [heq]), if_pos (by rw [heq])]
  · have hreq : requested.sdkVersion ≠ 0 := by
      intro hzero
      have h₁ := hc.sdkVersion
      have h₂ := ho.sdkVersion
      rw [hzero, UInt16.le_zero_iff, or_self] at h₁ h₂
      exact heq (h₁.trans h₂.symm)
    have hne : (c.sdkVersion.toNat : ℤ) ≠ o.sdkVersion.toNat := by
      intro h
      exact heq (UInt16.toNat_inj.mp (by omega))
    rw [if_pos ⟨heq, hreq⟩, if_neg hne]
    simp [UInt16.lt_iff_toNat_lt]

/-- The grammatical inflection. -/
theorem betterGrammaticalInflection_eq (hc : Matched requested c) (ho : Matched requested o) :
    betterGrammaticalInflection c o requested
      = decideKey (fun c => (c.grammaticalInflection.toNat : ℤ)) c o :=
  betterField_eq _ hc.grammaticalInflection ho.grammaticalInflection rfl rfl

end Keys

/-! ## The whole cascade -/

/-- A density that is not set and a medium one, which count the same. -/
def DensitiesClash (c o : ResTableConfig) : Prop :=
  (c.density = 0 ∧ o.density = 160) ∨ (c.density = 160 ∧ o.density = 0)

instance (c o : ResTableConfig) : Decidable (DensitiesClash c o) :=
  inferInstanceAs (Decidable (_ ∨ _))

/-- Other densities that count the same are the same. -/
theorem density_eq_of_effectiveDensity_eq {c o : ResTableConfig} (hclash : ¬ DensitiesClash c o)
    (h : c.effectiveDensity = o.effectiveDensity) : c.density = o.density := by
  simp only [effectiveDensity, densityMedium] at h
  by_cases hc : c.density = 0
  · by_cases ho : o.density = 0
    · rw [hc, ho]
    · rw [if_pos hc, if_neg ho] at h
      exact absurd (.inl ⟨hc, UInt16.toNat_inj.mp h.symm⟩) hclash
  · by_cases ho : o.density = 0
    · rw [if_neg hc, if_pos ho] at h
      exact absurd (.inr ⟨UInt16.toNat_inj.mp h, ho⟩) hclash
    · rw [if_neg hc, if_neg ho] at h
      exact UInt16.toNat_inj.mp h

/-- The first criterion decides, or the others do. -/
theorem findSome?_id_cons (x : Option Bool) (l : List (Option Bool)) :
    (x :: l).findSome? id = x.or (l.findSome? id) := by
  cases x <;> rfl

variable {data : LocaleData} {requested c o : ResTableConfig}

/-- The criteria before the version. -/
def beforeVersion (data : LocaleData) (c o requested : ResTableConfig) : Option Bool :=
  ((criteria data c o requested).dropLast).findSome? id

/-- The version decides last. -/
theorem findSome?_criteria (c o requested : ResTableConfig) :
    (criteria data c o requested).findSome? id
      = (beforeVersion data c o requested).or (betterVersion c o requested) := by
  simp only [beforeVersion, criteria, List.dropLast, findSome?_id_cons, List.findSome?_nil,
    Option.or_none, Option.or_assoc]

/-- The criteria before the version, with the locale and the density as they are and keys around
them. -/
theorem beforeVersion_eq (hc : Matched requested c) (ho : Matched requested o) :
    beforeVersion data c o requested = (decideKeys imsiKeys c o).or
      ((betterLocale data c o requested).or ((decideKeys (keysBeforeDensity requested) c o).or
        ((betterDensity c o requested).or (decideKeys (keysAfterDensity requested) c o)))) := by
  have hround := betterMasked_eq (fun c : ResTableConfig =>
    ((c.screenLayout2 &&& maskScreenRound).toNat : ℤ)) hc.screenRound ho.screenRound rfl rfl
  have hgamut := betterMasked_eq (fun c : ResTableConfig =>
    ((c.colorMode &&& maskWideColorGamut).toNat : ℤ)) hc.wideColorGamut ho.wideColorGamut rfl rfl
  have hhdr := betterMasked_eq (fun c : ResTableConfig =>
    ((c.colorMode &&& maskHdr).toNat : ℤ)) hc.hdr ho.hdr rfl rfl
  have horientation := betterField_eq (fun c : ResTableConfig => (c.orientation.toNat : ℤ))
    hc.orientation ho.orientation rfl rfl
  have htype := betterMasked_eq (fun c : ResTableConfig =>
    ((c.uiMode &&& maskUiModeType).toNat : ℤ)) hc.uiModeType ho.uiModeType rfl rfl
  have hnight := betterMasked_eq (fun c : ResTableConfig =>
    ((c.uiMode &&& maskUiModeNight).toNat : ℤ)) hc.uiModeNight ho.uiModeNight rfl rfl
  simp only [beforeVersion, criteria, List.dropLast, findSome?_id_cons, List.findSome?_nil,
    betterImsi_eq hc ho, betterGrammaticalInflection_eq hc ho, betterLayoutDir_eq hc ho,
    betterSmallestScreenWidthDp_eq, betterScreenSizeDp_eq, betterScreenLayout_eq hc ho, hround,
    hgamut, hhdr, horientation, htype, hnight, betterScreenType_eq hc ho, betterInput_eq hc ho,
    betterScreenSize_eq, keysBeforeDensity, keysAfterDensity, decideKeys_cons, decideKeys_nil,
    Option.or_none, Option.or_assoc]

/-- The criteria as two orders with the locale between them. -/
theorem findSome?_criteria_eq (hc : Matched requested c) (ho : Matched requested o)
    (hclash : ¬ DensitiesClash c o) :
    (criteria data c o requested).findSome? id = (decideKeys imsiKeys c o).or
      ((betterLocale data c o requested).or (decideKeys (laterKeys requested) c o)) := by
  rw [findSome?_criteria, beforeVersion_eq hc ho, betterVersion_eq hc ho,
    betterDensity_eq (density_eq_of_effectiveDensity_eq hclash), laterKeys, decideKeys_append,
    decideKeys_cons, decideKeys_append]
  simp only [Option.or_assoc]

/-- The guards of the locale criterion are those of `isLocaleBetterThan` itself. -/
theorem betterLocale_eq (c o requested : ResTableConfig) : betterLocale data c o requested
    = if isLocaleBetterThan data c o requested then some true else none := by
  rw [betterLocale]
  by_cases hrequested : requested.locale = 0
  · simp [hrequested, isLocaleBetterThan]
  · by_cases hlocale : c.locale = 0 ∧ o.locale = 0
    · simp [hrequested, hlocale.1, hlocale.2, isLocaleBetterThan]
    · have hset : c.locale ≠ 0 ∨ o.locale ≠ 0 := by
        rw [← not_and_or]
        exact hlocale
      simp [hrequested, hset]

/-- **Being better, as a cascade with a one-sided locale.** -/
theorem isBetterThan_eq_true_iff (hc : c.isMatch data requested = true)
    (ho : o.isMatch data requested = true) (hclash : ¬ DensitiesClash c o) :
    c.isBetterThan data o requested = true ↔ OneSided (compareKeys imsiKeys)
      (fun c o => isLocaleBetterThan data c o requested = true)
      (compareKeys (laterKeys requested)) c o := by
  rw [isBetterThan, findSome?_criteria_eq (matched_of_isMatch hc) (matched_of_isMatch ho) hclash,
    betterLocale_eq, OneSided, decideKeys, decideKeys]
  cases himsi : compareKeys imsiKeys c o with
  | lt => simp [decision]
  | gt => simp [decision]
  | eq =>
      cases hlocale : isLocaleBetterThan data c o requested with
      | true => simp [decision]
      | false =>
          cases hlater : compareKeys (laterKeys requested) c o with
          | lt => simp [decision]
          | eq => simp [decision]
          | gt => simp [decision]

/-! ## Configurations that only keys tell apart -/

/-- Configurations with the same locale. -/
structure EqualLocales (c o : ResTableConfig) : Prop where
  language : c.language = o.language
  country : c.country = o.country
  localeVariant : c.localeVariant = o.localeVariant
  localeNumberingSystem : c.localeNumberingSystem = o.localeNumberingSystem

/-- The same locale is not better. -/
theorem EqualLocales.betterLocale_eq_none (h : EqualLocales c o) :
    betterLocale data c o requested = none := by
  have hlanguage : langsAreEquivalent o.language o.language = true := by simp [langsAreEquivalent]
  simp [betterLocale_eq, isLocaleBetterThan, h.language, h.country, h.localeVariant,
    h.localeNumberingSystem, hlanguage, data.compareRegions_self]

/-- In one locale, only keys decide. -/
theorem EqualLocales.isBetterThan_iff_compareKeys (h : EqualLocales c o)
    (hc : c.isMatch data requested = true) (ho : o.isMatch data requested = true)
    (hclash : ¬ DensitiesClash c o) : c.isBetterThan data o requested = true
      ↔ compareKeys (imsiKeys ++ laterKeys requested) c o = .gt := by
  rw [isBetterThan, findSome?_criteria_eq (matched_of_isMatch hc) (matched_of_isMatch ho) hclash,
    h.betterLocale_eq_none, Option.none_or, ← decideKeys_append, ← decideKeys_eq_true_iff]
  cases decideKeys (imsiKeys ++ laterKeys requested) c o <;> simp

/-- Configurations with the same `mcc`, `mnc`, locale and density. -/
structure SameCell (c o : ResTableConfig) : Prop where
  mcc : c.mcc = o.mcc
  mnc : c.mnc = o.mnc
  language : c.language = o.language
  country : c.country = o.country
  localeVariant : c.localeVariant = o.localeVariant
  localeNumberingSystem : c.localeNumberingSystem = o.localeNumberingSystem
  density : c.density = o.density

/-- The keys of the criteria after the locale, other than the density. -/
def cellKeys (requested : ResTableConfig) : List (ResTableConfig → ℤ) :=
  keysBeforeDensity requested ++ (keysAfterDensity requested ++ versionKeys)

/-- Being better, decision by decision. -/
theorem isBetterThan_eq (hc : Matched requested c) (ho : Matched requested o) :
    c.isBetterThan data o requested = ((decideKeys imsiKeys c o).or
      ((betterLocale data c o requested).or ((decideKeys (keysBeforeDensity requested) c o).or
        ((betterDensity c o requested).or
          (decideKeys (keysAfterDensity requested ++ versionKeys) c o))))).getD false := by
  rw [isBetterThan, findSome?_criteria, beforeVersion_eq hc ho, betterVersion_eq hc ho,
    decideKeys_append]
  simp only [Option.or_assoc]

/-- Their locale is the same. -/
theorem SameCell.betterLocale_eq_none (h : SameCell c o) : betterLocale data c o requested = none :=
  EqualLocales.betterLocale_eq_none ⟨h.language, h.country, h.localeVariant, h.localeNumberingSystem⟩

/-- The same `mcc` and `mnc` decide nothing. -/
theorem SameCell.compareKeys_imsi (h : SameCell c o) : compareKeys imsiKeys c o = .eq := by
  rw [compareKeys_eq_iff]
  simp [imsiKeys, h.mcc, h.mnc]

/-- Only the other keys decide. -/
theorem SameCell.isBetterThan_iff (h : SameCell c o) (hc : Matched requested c)
    (ho : Matched requested o) :
    c.isBetterThan data o requested = true ↔ compareKeys (cellKeys requested) c o = .gt := by
  have himsi : decideKeys imsiKeys c o = none := decideKeys_eq_none_iff.mpr h.compareKeys_imsi
  have hdensity : betterDensity c o requested = none := by simp [betterDensity, h.density]
  rw [isBetterThan_eq hc ho, himsi, h.betterLocale_eq_none, hdensity, Option.none_or, Option.none_or,
    Option.none_or, ← decideKeys_append, ← decideKeys_eq_true_iff, cellKeys]
  cases decideKeys (keysBeforeDensity requested ++ (keysAfterDensity requested ++ versionKeys)) c o
    with
  | none => simp
  | some decided => simp

/-- Keys that are greater first, or equal first and greater then. -/
theorem compareKeys_append_eq_gt {α : Type} {keys keys' : List (α → ℤ)} {a b : α}
    (h : compareKeys (keys ++ keys') a b = .gt) : compareKeys keys a b = .gt
      ∨ (compareKeys keys a b = .eq ∧ compareKeys keys' a b = .gt) := by
  rw [← decideKeys_eq_true_iff, decideKeys_append, Option.or_eq_some_iff] at h
  rw [← decideKeys_eq_true_iff, ← decideKeys_eq_true_iff, ← decideKeys_eq_none_iff]
  exact h

/-- Against any other configuration, the locale of the same cell decides the same. -/
theorem SameCell.betterLocale_congr (h : SameCell c o) (b : ResTableConfig) :
    betterLocale data c b requested = betterLocale data o b requested := by
  have hlocale : c.locale = o.locale := by rw [locale, locale, h.language, h.country]
  simp only [betterLocale_eq, isLocaleBetterThan, hlocale, h.language, h.country, h.localeVariant,
    h.localeNumberingSystem]

/-- And so does the density. -/
theorem SameCell.betterDensity_congr (h : SameCell c o) (b : ResTableConfig) :
    betterDensity c b requested = betterDensity o b requested := by
  simp only [betterDensity, effectiveDensity, h.density]

/-- A decision that is the same for both leaves the rest to be compared. -/
theorem getD_or_mono {decided rest rest' : Option Bool} (h : (decided.or rest).getD false = true)
    (hrest : rest.getD false = true → rest'.getD false = true) :
    (decided.or rest').getD false = true := by
  cases decided with
  | none => exact hrest h
  | some decided => exact h

/-- **In a cell, greater keys win against more configurations.** -/
theorem SameCell.ahead (h : SameCell c o) (hc : Matched requested c) (ho : Matched requested o)
    (hkeys : compareKeys (cellKeys requested) c o = .gt) :
    Ahead (fun c => c.isMatch data requested) (fun a b => a.isBetterThan data b requested) c o := by
  refine ⟨(h.isBetterThan_iff hc ho).mpr hkeys, fun b hb hbetter => ?_⟩
  have hb := matched_of_isMatch hb
  have himsi : decideKeys imsiKeys c b = decideKeys imsiKeys o b := by
    rw [decideKeys, decideKeys, Std.TransCmp.congr_left h.compareKeys_imsi]
  dsimp only at hbetter ⊢
  rw [isBetterThan_eq ho hb] at hbetter
  rw [isBetterThan_eq hc hb, h.betterLocale_congr, h.betterDensity_congr, himsi]
  refine getD_or_mono hbetter fun hbetter => getD_or_mono hbetter fun hbetter => ?_
  rcases compareKeys_append_eq_gt hkeys with hkeys | ⟨heq, hkeys⟩
  · -- the keys before the density are greater, so they are greater than those of `b`
    have hgt : compareKeys (keysBeforeDensity requested) c b = .gt := by
      cases hcmp : compareKeys (keysBeforeDensity requested) o b with
      | lt =>
          rw [decideKeys, hcmp] at hbetter
          simp [decision] at hbetter
      | eq => exact Std.TransCmp.gt_of_gt_of_eq hkeys hcmp
      | gt => exact Std.TransCmp.gt_trans hkeys hcmp
    rw [decideKeys_eq_true_iff.mpr hgt]
    rfl
  · rw [decideKeys, Std.TransCmp.congr_left heq]
    refine getD_or_mono hbetter fun hbetter => getD_or_mono hbetter fun hbetter => ?_
    have hgt : decideKeys (keysAfterDensity requested ++ versionKeys) o b = some true := by
      cases hlast : decideKeys (keysAfterDensity requested ++ versionKeys) o b with
      | none => simp [hlast] at hbetter
      | some decided => simpa [hlast] using hbetter
    rw [decideKeys_eq_true_iff] at hgt
    rw [decideKeys_eq_true_iff.mpr (Std.TransCmp.gt_trans hkeys hgt)]
    rfl

/-! ## When being better is an order -/

/-- The configurations of a list that match the requested one. -/
def Candidate (data : LocaleData) (requested : ResTableConfig) (l : List ResTableConfig)
    (c : ResTableConfig) : Prop :=
  c ∈ l ∧ c.isMatch data requested = true

/-- Being better is a strict order on the configurations that match, and the loop over them keeps
one that no other beats, whatever their order. -/
def BetterIsOrder (data : LocaleData) (requested : ResTableConfig) (l : List ResTableConfig) :
    Prop :=
  StrictOn (Candidate data requested l) (fun a b => a.isBetterThan data b requested = true)
    ∧ ∀ l' : List ResTableConfig, l'.Perm l → ∀ best,
      selectBest (fun c => c.isMatch data requested) (fun a b => a.isBetterThan data b requested) l'
        = some best →
      ∀ other ∈ l', other.isMatch data requested = true →
        other.isBetterThan data best requested = false

/-- Among configurations that match, with the same `mcc` and `mnc`, the locale prefers neither of
two against itself or against a later criterion, and is transitive among those that no other
criterion tells apart. -/
def LocaleConsistent (data : LocaleData) (requested : ResTableConfig) (l : List ResTableConfig) :
    Prop :=
  Consistent (Candidate data requested l) (compareKeys imsiKeys)
    (fun a b => isLocaleBetterThan data a b requested = true) (compareKeys (laterKeys requested))

/-- Being better is a strict order on the configurations that match iff the locale is consistent. -/
theorem strictOn_candidate_iff {l : List ResTableConfig}
    (hclash : ∀ a b, Candidate data requested l a → Candidate data requested l b →
      ¬ DensitiesClash a b) :
    StrictOn (Candidate data requested l) (fun a b => a.isBetterThan data b requested = true)
      ↔ LocaleConsistent data requested l := by
  rw [LocaleConsistent, ← oneSided_strictOn_iff]
  exact strictOn_congr fun a b ha hb => isBetterThan_eq_true_iff ha.2 hb.2 (hclash a b ha hb)

/-- **Exactly when being better is an order.** -/
theorem betterIsOrder_iff_localeConsistent (data : LocaleData) (requested : ResTableConfig)
    (l : List ResTableConfig)
    (hclash : ∀ a b, Candidate data requested l a → Candidate data requested l b →
      ¬ DensitiesClash a b) :
    BetterIsOrder data requested l ↔ LocaleConsistent data requested l := by
  rw [← strictOn_candidate_iff hclash]
  constructor
  · rintro ⟨hstrict, -⟩
    exact hstrict
  · intro hstrict
    refine ⟨hstrict, fun l' hperm best hbest other hother hmatch => ?_⟩
    have hstrict' : StrictOn (fun c => c ∈ l' ∧ c.isMatch data requested = true)
        (fun a b => a.isBetterThan data b requested = true) := by
      simp only [hperm.mem_iff]
      exact hstrict
    exact selectBest_unbeaten hstrict' hbest hother hmatch

/-- French. -/
def french : ResTableConfig := { defaultConfig with language := ⟨0x66, 0x72⟩ }

/-- Landscape. -/
def land : ResTableConfig := { defaultConfig with orientation := 2 }

/-- A French device in landscape. -/
def frenchLand : ResTableConfig := { french with orientation := 2 }

/-- A device without a locale: landscape is better than the default. -/
theorem betterIsOrder_land : BetterIsOrder .unknown land [defaultConfig, land] := by
  refine (betterIsOrder_iff_localeConsistent .unknown land [defaultConfig, land] ?_).mpr ⟨?_, ?_⟩
  · rintro a b ⟨ha, -⟩ ⟨hb, -⟩
    simp only [List.mem_cons, List.not_mem_nil, or_false] at ha hb
    rcases ha with rfl | rfl <;> rcases hb with rfl | rfl <;> decide
  · rintro a b - - - hab
    simp [isLocaleBetterThan, land, defaultConfig, locale, Code.toNat] at hab
  · rintro a b c - - - - - - - hab
    simp [isLocaleBetterThan, land, defaultConfig, locale, Code.toNat] at hab

/-- For a French device in landscape, French is better than landscape and landscape is better than
French: the locale wins for the one, and does not lose for the other. -/
theorem not_betterIsOrder_french_land : ¬ BetterIsOrder .unknown frenchLand [french, land] := by
  rintro ⟨⟨hasymm, -⟩, -⟩
  exact hasymm french land ⟨by decide, by decide⟩ ⟨by decide, by decide⟩ (by decide) (by decide)

end AndroidSdk.SplitSelect.ResTableConfig
