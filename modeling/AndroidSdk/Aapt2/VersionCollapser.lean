import AndroidSdk.Aapt2.ResourceModel
import AndroidSdk.Lib.BinarySearch
import AndroidSdk.SplitSelect.BetterThanOrder

/-! # Collapsing versions

`VersionCollapser` removes the values of an entry that are overridden for every device with at least
the minimum SDK, and strips the version from those that are left (`VersionCollapser.cpp`). The
version is the last criterion of `isBetterThan`, so stripping it changes the choice between two
configurations that no earlier criterion tells apart.

* **`collapseVersions`**, **`VersionCollapser.consume`** — the pass on an entry and on a table.
* **`chosenValue`** — the value that a device gets from an entry.
* **`selectBest_collapseVersions`** — what the pass leaves is the same loop with another comparison.
* **`StrippedTie`**, **`FirmChoice`** — a choice that hangs on a version, and one that does not.
* **`preservesResolution_iff`** — when the pass keeps the choice from an entry. -/

namespace AndroidSdk

/-! ## Configurations without a version -/

namespace SplitSelect.ResTableConfig

/-- The configuration with another SDK version. -/
def withSdkVersion (sdkVersion : UInt16) (c : ResTableConfig) : ResTableConfig :=
  { c with sdkVersion }

/-- `CopyWithoutSdkVersion`. -/
def copyWithoutSdkVersion (c : ResTableConfig) : ResTableConfig := c.withSdkVersion 0

/-- The configuration after the pass: a version up to the minimum is stripped. -/
def stripped (minSdk : ℤ) (c : ResTableConfig) : ResTableConfig :=
  if c.sdkVersion ≠ 0 ∧ (c.sdkVersion.toNat : ℤ) ≤ minSdk then c.copyWithoutSdkVersion else c

/-- What `compare` reads before the version. -/
def compareBeforeVersion : ResTableConfig → ResTableConfig → Ordering :=
  compareLex (compareOn imsi) <|
  compareLex compareLocales <|
  compareLex (compareOn grammaticalInflection) <|
  compareLex (compareOn screenType) <|
  compareLex (compareOn input)
    (compareOn screenSize)

/-- What `compare` reads after the version. -/
def compareAfterVersion : ResTableConfig → ResTableConfig → Ordering :=
  compareLex (compareOn screenLayout) <|
  compareLex (compareOn screenLayout2) <|
  compareLex (compareOn colorMode) <|
  compareLex (compareOn uiMode) <|
  compareLex (compareOn smallestScreenWidthDp)
    (compareOn screenSizeDp)

instance : Std.TransCmp compareBeforeVersion := by
  unfold compareBeforeVersion compareLocales
  infer_instance

/-- The order reads the version between the other fields. -/
theorem compare_eq_then (c o : ResTableConfig) : c.compare o = (compareBeforeVersion c o).then
    ((compare c.version o.version).then (compareAfterVersion c o)) := by
  simp only [ResTableConfig.compare, compareBeforeVersion, compareAfterVersion, compareLex, compareOn,
    Ordering.then_assoc]

variable {minSdk : ℤ} {c o : ResTableConfig}

/-- Stripping changes nothing before the version. -/
theorem compareBeforeVersion_stripped (c o : ResTableConfig) :
    compareBeforeVersion (stripped minSdk c) (stripped minSdk o) = compareBeforeVersion c o := by
  unfold stripped
  split_ifs <;> rfl

/-- Stripping changes nothing after the version. -/
theorem compareAfterVersion_stripped (c o : ResTableConfig) :
    compareAfterVersion (stripped minSdk c) (stripped minSdk o) = compareAfterVersion c o := by
  unfold stripped
  split_ifs <;> rfl

/-- A common term does not matter for a comparison. -/
theorem compare_add_left (s a b : ℕ) : compare (s + a) (s + b) = compare a b := by
  rcases Nat.lt_trichotomy a b with h | h | h
  · rw [compare_lt_iff_lt.mpr h, compare_lt_iff_lt.mpr (by omega)]
  · rw [h]
    simp
  · rw [compare_gt_iff_gt.mpr h, compare_gt_iff_gt.mpr (by omega)]

/-- Configurations with the same version compare as before. -/
theorem compare_stripped_of_sdkVersion_eq (h : c.sdkVersion = o.sdkVersion) :
    (stripped minSdk c).compare (stripped minSdk o) = c.compare o := by
  rw [compare_eq_then, compare_eq_then, compareBeforeVersion_stripped, compareAfterVersion_stripped]
  congr 2
  unfold stripped
  rw [h]
  split_ifs
  · simp only [version, copyWithoutSdkVersion, withSdkVersion, h, compare_add_left]
  · rfl

/-- Stripping changes the place of a configuration only among those that agree before the
version. -/
theorem compareBeforeVersion_of_inversion (h : c.compare o = .lt)
    (h' : (stripped minSdk o).compare (stripped minSdk c) ≠ .gt) :
    compareBeforeVersion c o = .eq := by
  rw [compare_eq_then] at h
  rw [compare_eq_then, compareBeforeVersion_stripped] at h'
  cases hbefore : compareBeforeVersion c o with
  | eq => rfl
  | gt =>
      rw [hbefore] at h
      cases h
  | lt =>
      rw [Std.OrientedCmp.gt_of_lt hbefore] at h'
      exact absurd rfl h'

/-- Those differ at most where keys tell them apart. -/
theorem sameCell_of_compareBeforeVersion (h : compareBeforeVersion c o = .eq) : SameCell c o := by
  simp only [compareBeforeVersion, compareLocales, compareLex_eq_eq, compareOn,
    Std.LawfulEqCmp.compare_eq_iff_eq, locale_eq_iff, imsi_eq_iff, screenType_eq_iff,
    Vector.toList_inj] at h
  obtain ⟨⟨hmcc, hmnc⟩, ⟨⟨hlanguage, hcountry⟩, -, hvariant, hnumbering⟩, -, ⟨-, -, hdensity⟩, -⟩ := h
  exact ⟨hmcc, hmnc, hlanguage, hcountry, hvariant, hnumbering, hdensity⟩

/-- The version of a stripped configuration. -/
theorem sdkVersion_stripped (c : ResTableConfig) : (stripped minSdk c).sdkVersion
    = if (c.sdkVersion.toNat : ℤ) ≤ minSdk then 0 else c.sdkVersion := by
  unfold stripped
  by_cases hle : (c.sdkVersion.toNat : ℤ) ≤ minSdk
  · by_cases hzero : c.sdkVersion = 0
    · simp [hzero]
    · rw [if_pos ⟨hzero, hle⟩, if_pos hle]
      rfl
  · rw [if_neg (fun h => hle h.2), if_neg hle]

/-- A configuration after the pass, as an update of its version. -/
theorem stripped_eq (c : ResTableConfig) :
    stripped minSdk c = c.withSdkVersion (stripped minSdk c).sdkVersion := by
  unfold stripped
  split_ifs <;> rfl

/-- A version up to the minimum is stripped. -/
theorem stripped_of_le (h : (c.sdkVersion.toNat : ℤ) ≤ minSdk) :
    stripped minSdk c = c.withSdkVersion 0 := by
  rw [stripped_eq, sdkVersion_stripped, if_pos h]

/-- Versions of configurations that the pass makes equal are up to the minimum, if they differ. -/
theorem sdkVersion_le_of_compare_stripped
    (h : (stripped minSdk c).compare (stripped minSdk o) = .eq)
    (hlt : c.sdkVersion < o.sdkVersion) : (o.sdkVersion.toNat : ℤ) ≤ minSdk := by
  have hsdk := ((compare_eq_iff _ _).mp h).2.2
  have hlt' : c.sdkVersion.toNat < o.sdkVersion.toNat := UInt16.lt_iff_toNat_lt.mp hlt
  rw [sdkVersion_stripped, sdkVersion_stripped] at hsdk
  by_contra hnot
  rw [if_neg hnot] at hsdk
  split_ifs at hsdk with hc
  · rw [← hsdk] at hlt'
    simp at hlt'
  · rw [hsdk] at hlt'
    omega

/-- **Configurations that the pass makes equal** differ in nothing else. -/
theorem eq_of_compare_stripped (h : (stripped minSdk c).compare (stripped minSdk o) = .eq)
    (hlt : c.sdkVersion < o.sdkVersion) (hc : c.localeScriptWasComputed = false)
    (ho : o.localeScriptWasComputed = false) :
    c = { o with sdkVersion := c.sdkVersion, screenConfigPad2 := c.screenConfigPad2 } := by
  have hle := sdkVersion_le_of_compare_stripped h hlt
  have hlt' : c.sdkVersion.toNat < o.sdkVersion.toNat := UInt16.lt_iff_toNat_lt.mp hlt
  rw [stripped_of_le (c := c) (by omega), stripped_of_le hle] at h
  have heq := eq_of_compare_eq h hc ho
  simp only [withSdkVersion] at heq
  cases c
  cases o
  simp_all

end SplitSelect.ResTableConfig

namespace Aapt2

open Lib SplitSelect.ResTableConfig
open SplitSelect (ResTableConfig LocaleData)

/-! ## The pass -/

section Pass

variable {ι : Type} (minSdk : ℤ)

/-- The predicate of the reverse scan: the value differs from the configuration at most in its SDK
version, which is up to the minimum. -/
def overriddenBy (config : ResTableConfig) (val : ResourceConfigValue ι) : Bool :=
  (config.copyWithoutSdkVersion.withSdkVersion val.config.sdkVersion).compare val.config = .eq
    ∧ (val.config.sdkVersion.toNat : ℤ) ≤ minSdk

/-- The reverse scan, over the values in reverse order. The first value with a version up to the
minimum is kept, and those that it overrides are marked for removal; what is marked is skipped. -/
def removeOverridden : (ResourceConfigValue ι → Bool) → List (ResourceConfigValue ι) →
    List (ResourceConfigValue ι)
  | _, [] => []
  | marked, v :: rest =>
    if marked v then removeOverridden marked rest
    else if (v.config.sdkVersion.toNat : ℤ) ≤ minSdk then
      v :: removeOverridden (fun val => marked val || overriddenBy minSdk v.config val) rest
    else v :: removeOverridden marked rest

/-- Whether a value is replaced by one without a version. -/
def hasVersionToStrip (v : ResourceConfigValue ι) : Bool :=
  v.config.sdkVersion ≠ 0 ∧ (v.config.sdkVersion.toNat : ℤ) ≤ minSdk

/-- The value with its version stripped. -/
def ResourceConfigValue.stripVersion (v : ResourceConfigValue ι) : ResourceConfigValue ι :=
  if hasVersionToStrip minSdk v then ⟨v.config.copyWithoutSdkVersion, v.product, v.value, false⟩
  else v

/-- `CollapseVersions`. -/
def collapseVersions (entry : ResourceEntry ι) : ResourceEntry ι :=
  let kept := (removeOverridden minSdk (fun _ => false) entry.values.reverse).reverse
  let values := kept.map (·.stripVersion minSdk)
  if kept.any (hasVersionToStrip minSdk) then
    -- the keys have been modified
    { entry with values := sortBy ResTableConfig.compare ResourceConfigValue.config values }
  else { entry with values }

/-- `VersionCollapser::Consume`. -/
def VersionCollapser.consume (table : ResourceTable ι) : ResourceTable ι :=
  table.mapEntries (collapseVersions minSdk)

end Pass

/-- The value that a device gets: of the values whose configuration matches, the one that is kept by
comparing them in their order. -/
def chosenValue {ι : Type} (data : LocaleData) (device : ResTableConfig)
    (values : List (ResourceConfigValue ι)) : Option (Option (Value ι)) :=
  (selectBest (fun v => v.config.isMatch data device)
    (fun a b => a.config.isBetterThan data b.config device) values).map ResourceConfigValue.value

/-! ## What the scan removes -/

section Scan

variable {ι : Type} {minSdk : ℤ}

/-- A value is overridden by a later one that the pass would make equal to it. -/
def Overridden (minSdk : ℤ) (l : List (ResourceConfigValue ι)) (x : ResourceConfigValue ι) : Prop :=
  ∃ k ∈ l, (stripped minSdk k.config).compare (stripped minSdk x.config) = .eq
    ∧ x.config.sdkVersion < k.config.sdkVersion

instance (l : List (ResourceConfigValue ι)) (x : ResourceConfigValue ι) :
    Decidable (Overridden minSdk l x) :=
  inferInstanceAs (Decidable (∃ k ∈ l, _))

/-- The predicate of the scan, by what the pass makes equal. -/
theorem overriddenBy_iff {k x : ResourceConfigValue ι}
    (hk : (k.config.sdkVersion.toNat : ℤ) ≤ minSdk) : overriddenBy minSdk k.config x = true ↔
      (x.config.sdkVersion.toNat : ℤ) ≤ minSdk
        ∧ (stripped minSdk k.config).compare (stripped minSdk x.config) = .eq := by
  rw [overriddenBy, decide_eq_true_iff, and_comm]
  refine and_congr_right fun hx => ?_
  have hsame : (stripped minSdk
      (k.config.copyWithoutSdkVersion.withSdkVersion x.config.sdkVersion)).compare
        (stripped minSdk x.config)
      = (k.config.copyWithoutSdkVersion.withSdkVersion x.config.sdkVersion).compare x.config :=
    compare_stripped_of_sdkVersion_eq rfl
  rw [← hsame, stripped_of_le (show ((k.config.copyWithoutSdkVersion.withSdkVersion
    x.config.sdkVersion).sdkVersion.toNat : ℤ) ≤ minSdk from hx), stripped_of_le hk]
  rfl

/-- **What the scan leaves.** Values that the pass makes equal stand next to each other in the order
of their versions, so the first that the scan meets has the highest. -/
theorem removeOverridden_eq_filter {marked : ResourceConfigValue ι → Bool}
    {r : List (ResourceConfigValue ι)}
    (hr : r.Pairwise fun a b =>
      (stripped minSdk a.config).compare (stripped minSdk b.config) = .eq →
        b.config.sdkVersion < a.config.sdkVersion)
    (hmarked : ∀ k x, marked k = true → (k.config.sdkVersion.toNat : ℤ) ≤ minSdk →
      (x.config.sdkVersion.toNat : ℤ) ≤ minSdk →
      (stripped minSdk k.config).compare (stripped minSdk x.config) = .eq → marked x = true) :
    removeOverridden minSdk marked r
      = r.filter fun x => !marked x && !decide (Overridden minSdk r x) := by
  induction r generalizing marked with
  | nil => rfl
  | cons v r ih =>
      obtain ⟨hv, hr⟩ := List.pairwise_cons.mp hr
      have hcons : ∀ x, Overridden minSdk (v :: r) x ↔
          ((stripped minSdk v.config).compare (stripped minSdk x.config) = .eq
            ∧ x.config.sdkVersion < v.config.sdkVersion) ∨ Overridden minSdk r x := by
        intro x
        simp [Overridden]
      have hlt : ∀ {a b : UInt16}, a < b → a.toNat < b.toNat := UInt16.lt_iff_toNat_lt.mp
      -- nothing that comes later in the scan overrides the first value
      have hfirst : ¬ Overridden minSdk (v :: r) v := by
        rw [hcons]
        rintro (⟨-, hself⟩ | ⟨k, hk, heq, hlt'⟩)
        · have := hlt hself
          omega
        · have h₁ := hlt (hv k hk (Std.OrientedCmp.eq_symm heq))
          have h₂ := hlt hlt'
          omega
      rw [removeOverridden]
      cases hmark : marked v with
      | true =>
          rw [if_pos rfl, ih hr hmarked, List.filter_cons_of_neg (by simp [hmark])]
          refine List.filter_congr fun x hx => ?_
          by_cases hequal : (stripped minSdk v.config).compare (stripped minSdk x.config) = .eq
              ∧ x.config.sdkVersion < v.config.sdkVersion
          · have hle := sdkVersion_le_of_compare_stripped (Std.OrientedCmp.eq_symm hequal.1) hequal.2
            have hx' := hmarked v x hmark hle (by have := hlt hequal.2; omega) hequal.1
            simp [hx']
          · have hiff : Overridden minSdk (v :: r) x ↔ Overridden minSdk r x := by
              rw [hcons]
              exact or_iff_right hequal
            rw [decide_eq_decide.mpr hiff]
      | false =>
          rw [if_neg (by simp), List.filter_cons_of_pos (by simp [hmark, hfirst])]
          by_cases hle : (v.config.sdkVersion.toNat : ℤ) ≤ minSdk
          · rw [if_pos hle, ih hr]
            · congr 1
              refine List.filter_congr fun x hx => ?_
              have hiff : overriddenBy minSdk v.config x = true ↔
                  ((stripped minSdk v.config).compare (stripped minSdk x.config) = .eq
                    ∧ x.config.sdkVersion < v.config.sdkVersion) := by
                rw [overriddenBy_iff hle]
                constructor
                · rintro ⟨-, heq⟩
                  exact ⟨heq, hv x hx heq⟩
                · rintro ⟨heq, hless⟩
                  have := hlt hless
                  exact ⟨by omega, heq⟩
              rw [Bool.eq_iff_iff]
              simp only [Bool.and_eq_true, Bool.not_eq_true', ← Bool.not_eq_true, Bool.or_eq_true,
                decide_eq_true_iff, hcons, hiff, not_or, and_assoc]
            · intro k x hk hkle hxle heq
              rw [Bool.or_eq_true] at hk ⊢
              rcases hk with hk | hk
              · exact .inl (hmarked k x hk hkle hxle heq)
              · exact .inr ((overriddenBy_iff hle).mpr
                  ⟨hxle, Std.TransCmp.eq_trans ((overriddenBy_iff hle).mp hk).2 heq⟩)
          · rw [if_neg hle, ih hr hmarked]
            congr 1
            refine List.filter_congr fun x hx => ?_
            have hiff : Overridden minSdk (v :: r) x ↔ Overridden minSdk r x := by
              rw [hcons]
              refine or_iff_right ?_
              rintro ⟨heq, hless⟩
              exact hle (sdkVersion_le_of_compare_stripped (Std.OrientedCmp.eq_symm heq) hless)
            rw [decide_eq_decide.mpr hiff]

end Scan

/-! ## The order that the pass makes -/

section Order

variable {ι : Type} {minSdk : ℤ}

/-- The order of the values by what the pass makes of their configurations, then by their
version. -/
def collapseOrder (minSdk : ℤ) : ResTableConfig → ResTableConfig → Ordering :=
  compareLex (fun a b => (stripped minSdk a).compare (stripped minSdk b)) (compareOn sdkVersion)

instance : Std.TransCmp (collapseOrder minSdk) := by
  have : Std.TransCmp fun a b => (stripped minSdk a).compare (stripped minSdk b) :=
    { eq_swap := Std.OrientedCmp.eq_swap, isLE_trans := Std.TransCmp.isLE_trans }
  unfold collapseOrder
  infer_instance

/-- The two parts of the order. -/
theorem collapseOrder_eq (a b : ResTableConfig) : collapseOrder minSdk a b
    = ((stripped minSdk a).compare (stripped minSdk b)).then
      (compare a.sdkVersion b.sdkVersion) := rfl

/-- The order tells configurations apart that `compare` tells apart. -/
theorem collapseOrder_ne_eq {a b : ResTableConfig} (h : a.compare b ≠ .eq) :
    collapseOrder minSdk a b ≠ .eq := by
  rw [collapseOrder_eq, Ne, Ordering.then_eq_eq]
  rintro ⟨hstripped, hsdk⟩
  rw [compare_stripped_of_sdkVersion_eq (Std.LawfulEqCmp.compare_eq_iff_eq.mp hsdk)] at hstripped
  exact h hstripped

/-- The values in this order. -/
theorem strictlySorted_collapseOrder {l : List (ResourceConfigValue ι)}
    (h : StrictlySortedBy ResTableConfig.compare ResourceConfigValue.config l) :
    StrictlySortedBy (collapseOrder minSdk) ResourceConfigValue.config
      (sortBy (collapseOrder minSdk) ResourceConfigValue.config l) := by
  refine (sortedBy_sortBy l).strictly ?_
  have hne : l.Pairwise fun x y => collapseOrder minSdk x.config y.config ≠ .eq :=
    h.imp fun hlt => collapseOrder_ne_eq (by rw [hlt]; simp)
  refine ((sortBy_perm l).pairwise_iff ?_).mpr hne
  exact fun hxy hyx => hxy (Std.OrientedCmp.eq_symm hyx)

/-- Values that the pass makes equal stand in the order of their versions. -/
theorem sdkVersion_lt_of_compare {a b : ResTableConfig} (h : a.compare b = .lt)
    (heq : (stripped minSdk a).compare (stripped minSdk b) = .eq) : a.sdkVersion < b.sdkVersion := by
  have hminor : a.minorVersion = b.minorVersion := by
    have hsame := ((compare_eq_iff _ _).mp heq).1
    rw [stripped_eq a, stripped_eq b] at hsame
    simp only [SameQualifiers, withSdkVersion] at hsame
    simp_all
  rw [compare_eq_then, compareBeforeVersion_stripped, compareAfterVersion_stripped,
    Ordering.then_eq_eq, Ordering.then_eq_eq] at heq
  obtain ⟨hbefore, -, hafter⟩ := heq
  rw [compare_eq_then, hbefore, hafter, Ordering.then_eq, Ordering.eq_then, compare_lt_iff_lt] at h
  simp only [version, hminor] at h
  exact UInt16.lt_iff_toNat_lt.mpr (by omega)

/-- The configuration of a value after the pass. -/
theorem config_stripVersion (v : ResourceConfigValue ι) :
    (v.stripVersion minSdk).config = stripped minSdk v.config := by
  unfold ResourceConfigValue.stripVersion stripped hasVersionToStrip
  by_cases h : v.config.sdkVersion ≠ 0 ∧ (v.config.sdkVersion.toNat : ℤ) ≤ minSdk
  · rw [if_pos (decide_eq_true h), if_pos h]
  · rw [if_neg (by simpa using h), if_neg h]

/-- Stripping keeps the value. -/
theorem value_stripVersion (v : ResourceConfigValue ι) :
    (v.stripVersion minSdk).value = v.value := by
  unfold ResourceConfigValue.stripVersion
  split_ifs <;> rfl

/-- The values that the scan keeps. -/
theorem kept_eq {l : List (ResourceConfigValue ι)}
    (h : StrictlySortedBy ResTableConfig.compare ResourceConfigValue.config l) :
    (removeOverridden minSdk (fun _ => false) l.reverse).reverse
      = l.filter fun x => !decide (Overridden minSdk l x) := by
  have hreverse : ∀ x, Overridden minSdk l.reverse x ↔ Overridden minSdk l x := by
    intro x
    simp [Overridden]
  rw [removeOverridden_eq_filter, List.filter_reverse, List.reverse_reverse]
  · simp [hreverse]
  · rw [List.pairwise_reverse]
    exact h.imp fun hlt heq => sdkVersion_lt_of_compare hlt (Std.OrientedCmp.eq_symm heq)
  · intro k x hk
    cases hk

/-- The values that are left, in the order that the pass makes. -/
def collapsed (minSdk : ℤ) (l : List (ResourceConfigValue ι)) : List (ResourceConfigValue ι) :=
  (sortBy (collapseOrder minSdk) ResourceConfigValue.config l).filter fun x =>
    !decide (Overridden minSdk l x)

/-- They are the values that no other overrides. -/
theorem mem_collapsed_iff {l : List (ResourceConfigValue ι)} {x : ResourceConfigValue ι} :
    x ∈ collapsed minSdk l ↔ x ∈ l ∧ ¬ Overridden minSdk l x := by
  simp [collapsed, (sortBy_perm l).mem_iff]

/-- The pass tells them all apart, and keeps their order. -/
theorem pairwise_collapsed {l : List (ResourceConfigValue ι)}
    (h : StrictlySortedBy ResTableConfig.compare ResourceConfigValue.config l) :
    (collapsed minSdk l).Pairwise fun x y =>
      (stripped minSdk x.config).compare (stripped minSdk y.config) = .lt := by
  have hsorted : (collapsed minSdk l).Pairwise fun x y =>
      collapseOrder minSdk x.config y.config = .lt :=
    (strictlySorted_collapseOrder h).sublist List.filter_sublist
  refine hsorted.imp_of_mem ?_
  intro x y hx hy hlt
  rw [collapseOrder_eq] at hlt
  cases hcmp : (stripped minSdk x.config).compare (stripped minSdk y.config) with
  | lt => rfl
  | gt =>
      rw [hcmp] at hlt
      cases hlt
  | eq =>
      -- the one with the higher version would override the other
      rw [hcmp, Ordering.eq_then, Std.compare_eq_lt] at hlt
      exact absurd ⟨y, (mem_collapsed_iff.mp hy).1, Std.OrientedCmp.eq_symm hcmp, hlt⟩
        (mem_collapsed_iff.mp hx).2

/-- **What the pass leaves**, in the order that it makes. -/
theorem values_collapseVersions {entry : ResourceEntry ι}
    (h : StrictlySortedBy ResTableConfig.compare ResourceConfigValue.config entry.values) :
    (collapseVersions minSdk entry).values
      = (collapsed minSdk entry.values).map (·.stripVersion minSdk) := by
  have hkept : (removeOverridden minSdk (fun _ => false) entry.values.reverse).reverse
      = entry.values.filter fun x => !decide (Overridden minSdk entry.values x) := kept_eq h
  have hperm : ((entry.values.filter fun x => !decide (Overridden minSdk entry.values x)).map
      (·.stripVersion minSdk)).Perm
        ((collapsed minSdk entry.values).map (·.stripVersion minSdk)) :=
    ((sortBy_perm entry.values).symm.filter _).map _
  have hstrictly : StrictlySortedBy ResTableConfig.compare ResourceConfigValue.config
      ((collapsed minSdk entry.values).map (·.stripVersion minSdk)) := by
    rw [StrictlySortedBy, List.pairwise_map]
    simp only [config_stripVersion]
    exact pairwise_collapsed h
  rw [collapseVersions, hkept]
  split_ifs with hmodified
  · -- the values are sorted again
    refine StrictlySortedBy.eq_of_perm ((sortedBy_sortBy _).strictly ?_) hstrictly
      ((sortBy_perm _).trans hperm)
    refine (((sortBy_perm _).trans hperm).pairwise_iff
      fun hxy hyx => hxy (Std.OrientedCmp.eq_symm hyx)).mpr ?_
    exact hstrictly.imp fun hlt => by rw [hlt]; simp
  · -- nothing was stripped, so the values are still sorted
    refine StrictlySortedBy.eq_of_perm ?_ hstrictly hperm
    rw [StrictlySortedBy, List.pairwise_map]
    refine (h.sublist List.filter_sublist).imp_of_mem ?_
    intro x y hx hy hlt
    have hsame : ∀ v ∈ entry.values.filter fun x => !decide (Overridden minSdk entry.values x),
        v.stripVersion minSdk = v := by
      intro v hv
      refine if_neg fun hstrip => hmodified ?_
      rw [List.any_eq_true]
      exact ⟨v, hv, hstrip⟩
    rw [hsame x hx, hsame y hy]
    exact hlt

end Order

/-! ## What the loop does not notice -/

section Selection

variable {ι : Type} {data : LocaleData} {minSdk : ℤ} {device : ResTableConfig}

/-- A device with a higher version matches a configuration whatever its version. -/
theorem isMatch_withSdkVersion {c : ResTableConfig} {sdkVersion : UInt16}
    (hc : c.sdkVersion ≤ device.sdkVersion) (hsdk : sdkVersion ≤ device.sdkVersion) :
    (c.withSdkVersion sdkVersion).isMatch data device = c.isMatch data device := by
  have hversion : ∀ x : ResTableConfig, x.sdkVersion ≤ device.sdkVersion →
      matchVersion x device
        = decide (x.minorVersion = 0 ∨ x.minorVersion = device.minorVersion) := by
    intro x hx
    rw [matchVersion, decide_eq_decide]
    constructor
    · rintro (hzero | ⟨-, hminor⟩)
      · exact .inl (eq_zero_of_union hzero).2
      · exact hminor
    · exact fun hminor => .inr ⟨.inr hx, hminor⟩
  unfold isMatch
  rw [hversion c hc, hversion _ (show (c.withSdkVersion sdkVersion).sdkVersion ≤ _ from hsdk)]
  rfl

/-- Nor does padding matter. -/
theorem isMatch_update {o : ResTableConfig} {sdkVersion pad : UInt16}
    (ho : o.sdkVersion ≤ device.sdkVersion) (hsdk : sdkVersion ≤ device.sdkVersion) :
    isMatch data { o with sdkVersion, screenConfigPad2 := pad } device = o.isMatch data device := by
  -- the union with the padding is zero only if the fields beside it are
  have hconfig2 : ∀ x : ResTableConfig, matchScreenConfig2 x device
      = decide ((x.screenLayout2 &&& maskScreenRound = 0
          ∨ x.screenLayout2 &&& maskScreenRound = device.screenLayout2 &&& maskScreenRound)
        ∧ (x.colorMode &&& maskHdr = 0
          ∨ x.colorMode &&& maskHdr = device.colorMode &&& maskHdr)
        ∧ (x.colorMode &&& maskWideColorGamut = 0
          ∨ x.colorMode &&& maskWideColorGamut = device.colorMode &&& maskWideColorGamut)) := by
    intro x
    rw [matchScreenConfig2, decide_eq_decide]
    refine or_iff_right_of_imp fun hzero => ?_
    obtain ⟨hlayout, hcolor, -⟩ := eq_zero_of_union₃ hzero
    simp [hlayout, hcolor]
  rw [← isMatch_withSdkVersion ho hsdk]
  unfold isMatch
  rw [hconfig2, hconfig2]
  rfl

/-- The pass changes no match with a device that has at least the minimum. -/
theorem isMatch_stripped (hm : minSdk ≤ device.sdkVersion.toNat) (c : ResTableConfig) :
    (stripped minSdk c).isMatch data device = c.isMatch data device := by
  by_cases hle : (c.sdkVersion.toNat : ℤ) ≤ minSdk
  · rw [stripped_of_le hle]
    exact isMatch_withSdkVersion (UInt16.le_iff_toNat_le.mpr (by omega))
      (UInt16.le_iff_toNat_le.mpr (Nat.zero_le _))
  · rw [stripped, if_neg fun h => hle h.2]

/-- In the same class, the higher version has greater keys. -/
theorem compareKeys_cellKeys_of_lt (o : ResTableConfig) {sdkVersion pad : UInt16}
    (hlt : sdkVersion < o.sdkVersion) :
    compareKeys (cellKeys device) o { o with sdkVersion, screenConfigPad2 := pad } = .gt := by
  have hbefore : decideKeys (keysBeforeDensity device) o
      { o with sdkVersion, screenConfigPad2 := pad } = none := by
    rw [decideKeys_eq_none_iff, compareKeys_eq_iff]
    simp [keysBeforeDensity, screenSizeKey]
  have hafter : decideKeys (keysAfterDensity device) o
      { o with sdkVersion, screenConfigPad2 := pad } = none := by
    rw [decideKeys_eq_none_iff, compareKeys_eq_iff]
    simp [keysAfterDensity, keysHiddenKey]
  have hlt' := UInt16.lt_iff_toNat_lt.mp hlt
  rw [← decideKeys_eq_true_iff, cellKeys, decideKeys_append, decideKeys_append, hbefore, hafter,
    versionKeys, decideKeys_cons, decideKey, if_neg (show ((o.sdkVersion.toNat : ℤ)
      ≠ sdkVersion.toNat) by omega)]
  simp [hlt']

/-- The loop of the resolution, on values. -/
abbrev resolveStep (data : LocaleData) (device : ResTableConfig) :
    Option (ResourceConfigValue ι) → ResourceConfigValue ι → Option (ResourceConfigValue ι) :=
  selectStep (fun v => v.config.isMatch data device)
    (fun a b => a.config.isBetterThan data b.config device)

/-- A value that does not match is skipped. -/
theorem resolveStep_of_not_match {x : ResourceConfigValue ι}
    (hx : x.config.isMatch data device = false) (s : Option (ResourceConfigValue ι)) :
    resolveStep data device s x = s := by
  simp [resolveStep, selectStep, hx]

/-- Greater keys in a cell, on values. -/
theorem ahead_of_sameCell {x y : ResourceConfigValue ι} (hcell : SameCell y.config x.config)
    (hx : x.config.isMatch data device = true) (hy : y.config.isMatch data device = true)
    (hkeys : compareKeys (cellKeys device) y.config x.config = .gt) :
    Ahead (fun v : ResourceConfigValue ι => v.config.isMatch data device)
      (fun a b => a.config.isBetterThan data b.config device) y x := by
  have hahead : Ahead (fun c : ResTableConfig => c.isMatch data device)
      (fun a b => a.isBetterThan data b device) y.config x.config :=
    hcell.ahead (matched_of_isMatch hy) (matched_of_isMatch hx) hkeys
  exact ⟨hahead.1, fun b hb hbetter => hahead.2 b.config hb hbetter⟩

/-- Values that change places commute. -/
theorem resolveStep_comm {x y : ResourceConfigValue ι} (hlt : x.config.compare y.config = .lt)
    (hinv : collapseOrder minSdk y.config x.config = .lt) {s : Option (ResourceConfigValue ι)}
    (hs : Passing (fun v => v.config.isMatch data device) s) :
    resolveStep data device (resolveStep data device s y) x
      = resolveStep data device (resolveStep data device s x) y := by
  cases hx : x.config.isMatch data device with
  | false => rw [resolveStep_of_not_match hx, resolveStep_of_not_match hx]
  | true =>
      cases hy : y.config.isMatch data device with
      | false => rw [resolveStep_of_not_match hy, resolveStep_of_not_match hy]
      | true =>
          have hnotGt : (stripped minSdk y.config).compare (stripped minSdk x.config) ≠ .gt := by
            intro hgt
            rw [collapseOrder_eq, hgt] at hinv
            cases hinv
          have hcell := sameCell_of_compareBeforeVersion
            (compareBeforeVersion_of_inversion hlt hnotGt)
          have hcell' : SameCell y.config x.config := ⟨hcell.1.symm, hcell.2.symm, hcell.3.symm,
            hcell.4.symm, hcell.5.symm, hcell.6.symm, hcell.7.symm⟩
          have hnot : ∀ {a b : ResourceConfigValue ι}, SameCell a.config b.config →
              a.config.isMatch data device = true → b.config.isMatch data device = true →
              compareKeys (cellKeys device) b.config a.config = .gt →
              a.config.isBetterThan data b.config device = false := by
            intro a b hcell ha hb hgt
            rw [← Bool.not_eq_true, hcell.isBetterThan_iff (matched_of_isMatch ha)
              (matched_of_isMatch hb), Std.OrientedCmp.lt_of_gt hgt]
            simp
          cases hkeys : compareKeys (cellKeys device) x.config y.config with
          | lt =>
              have hgt := Std.OrientedCmp.gt_of_lt hkeys
              exact (ahead_of_sameCell hcell' hx hy hgt).selectStep_comm (hnot hcell hx hy hgt) hs
          | gt =>
              exact ((ahead_of_sameCell hcell hy hx hkeys).selectStep_comm
                (hnot hcell' hy hx hkeys) hs).symm
          | eq =>
              -- equal keys have equal versions, so the pass does not change their places
              have hsdk : x.config.sdkVersion = y.config.sdkVersion := by
                have hkey := (compareKeys_eq_iff _ _ _).mp hkeys (fun c => c.sdkVersion.toNat)
                  (by simp [cellKeys, versionKeys])
                exact UInt16.toNat_inj.mp (Int.ofNat_inj.mp hkey)
              rw [collapseOrder_eq, compare_stripped_of_sdkVersion_eq hsdk.symm,
                Std.OrientedCmp.gt_of_lt hlt] at hinv
              cases hinv

/-- A value that the next one overrides is absorbed by it. -/
theorem resolveStep_absorb (hm : minSdk ≤ device.sdkVersion.toNat) {c h : ResourceConfigValue ι}
    (heq : (stripped minSdk c.config).compare (stripped minSdk h.config) = .eq)
    (hlt : c.config.sdkVersion < h.config.sdkVersion)
    (hc : c.config.localeScriptWasComputed = false) (hh : h.config.localeScriptWasComputed = false)
    {s : Option (ResourceConfigValue ι)}
    (hs : Passing (fun v => v.config.isMatch data device) s) :
    resolveStep data device (resolveStep data device s c) h = resolveStep data device s h := by
  have hle := sdkVersion_le_of_compare_stripped heq hlt
  have hlt' := UInt16.lt_iff_toNat_lt.mp hlt
  have hupdate := eq_of_compare_stripped heq hlt hc hh
  have hmatch : c.config.isMatch data device = h.config.isMatch data device := by
    rw [hupdate]
    exact isMatch_update (UInt16.le_iff_toNat_le.mpr (by omega))
      (UInt16.le_iff_toNat_le.mpr (by omega))
  cases hpass : c.config.isMatch data device with
  | false => rw [resolveStep_of_not_match hpass]
  | true =>
      have hcell : SameCell h.config c.config := by
        rw [hupdate]
        constructor <;> rfl
      have hkeys : compareKeys (cellKeys device) h.config c.config = .gt := by
        rw [hupdate]
        exact compareKeys_cellKeys_of_lt h.config hlt
      exact (ahead_of_sameCell hcell hpass (hmatch ▸ hpass) hkeys).selectStep_absorb hmatch hs

/-- **The loop notices neither the order that the pass makes nor what it removes.** -/
theorem selectBest_collapsed (hm : minSdk ≤ device.sdkVersion.toNat)
    {l : List (ResourceConfigValue ι)}
    (h : StrictlySortedBy ResTableConfig.compare ResourceConfigValue.config l)
    (hscript : ∀ v ∈ l, v.config.localeScriptWasComputed = false) :
    selectBest (fun v => v.config.isMatch data device)
        (fun a b => a.config.isBetterThan data b.config device) (collapsed minSdk l)
      = selectBest (fun v => v.config.isMatch data device)
        (fun a b => a.config.isBetterThan data b.config device) l := by
  have hnone : Passing (fun v : ResourceConfigValue ι => v.config.isMatch data device) none := by
    intro b hb
    cases hb
  have hkeeps : ∀ (s : Option (ResourceConfigValue ι)) (x : ResourceConfigValue ι),
      Passing (fun v => v.config.isMatch data device) s →
      Passing (fun v => v.config.isMatch data device) (resolveStep data device s x) :=
    fun s x hs => hs.selectStep x
  have hsorted : StrictlySortedBy (collapseOrder minSdk) ResourceConfigValue.config
      (sortBy (collapseOrder minSdk) ResourceConfigValue.config l) := strictlySorted_collapseOrder h
  have hmem : ∀ {v}, v ∈ sortBy (collapseOrder minSdk) ResourceConfigValue.config l ↔ v ∈ l :=
    (sortBy_perm l).mem_iff
  rw [selectBest_eq_foldl, selectBest_eq_foldl, collapsed, foldl_filter_of_absorbed hkeeps ?_ hnone]
  · exact foldl_eq_of_inversions hkeeps (sortBy_perm l) h hsorted
      (fun x _ y _ hlt hinv s hs => resolveStep_comm hlt hinv hs) hnone
  · intro c rest hsuffix hdrop
    obtain ⟨pre, hpre⟩ := hsuffix
    rw [StrictlySortedBy, ← hpre] at hsorted
    obtain ⟨-, hrest, hcross⟩ := List.pairwise_append.mp hsorted
    obtain ⟨hc, hrest⟩ := List.pairwise_cons.mp hrest
    obtain ⟨k, hk, heq, hlt⟩ : Overridden minSdk l c := by simpa using hdrop
    have hck : collapseOrder minSdk c.config k.config = .lt := by
      rw [collapseOrder_eq, Std.OrientedCmp.eq_symm heq, Ordering.eq_then, Std.compare_eq_lt]
      exact hlt
    -- the value that overrides stands behind, so the next one overrides as well
    have hkrest : k ∈ rest := by
      have hkmem := hmem.mpr hk
      rw [← hpre, List.mem_append, List.mem_cons] at hkmem
      rcases hkmem with hkpre | rfl | hkrest
      · have hkc := hcross k hkpre c List.mem_cons_self
        rw [Std.OrientedCmp.gt_of_lt hck] at hkc
        cases hkc
      · have hself : collapseOrder minSdk k.config k.config = .eq := Std.ReflCmp.compare_self
        rw [hself] at hck
        cases hck
      · exact hkrest
    cases rest with
    | nil => cases hkrest
    | cons next rest =>
        refine ⟨next, rest, rfl, fun s hs => ?_⟩
        have hcn := hc next List.mem_cons_self
        have hnk : (stripped minSdk next.config).compare (stripped minSdk k.config) ≠ .gt := by
          rcases List.mem_cons.mp hkrest with rfl | hkrest
          · simp [Std.ReflCmp.compare_self]
          · have hlt := (List.pairwise_cons.mp hrest).1 k hkrest
            intro hgt
            rw [collapseOrder_eq, hgt] at hlt
            cases hlt
        rw [collapseOrder_eq] at hcn
        have heqn : (stripped minSdk c.config).compare (stripped minSdk next.config) = .eq := by
          cases hcmp : (stripped minSdk c.config).compare (stripped minSdk next.config) with
          | eq => rfl
          | gt =>
              rw [hcmp] at hcn
              cases hcn
          | lt =>
              -- `next` would be between two that the pass makes equal
              exfalso
              have hgt : (stripped minSdk next.config).compare (stripped minSdk c.config) = .gt :=
                Std.OrientedCmp.gt_of_lt hcmp
              exact hnk (Std.TransCmp.gt_of_gt_of_eq hgt (Std.OrientedCmp.eq_symm heq))
        rw [heqn, Ordering.eq_then, Std.compare_eq_lt] at hcn
        have hcl : c ∈ l := hmem.mp (by rw [← hpre]; simp)
        have hnl : next ∈ l := hmem.mp (by rw [← hpre]; simp)
        exact resolveStep_absorb hm heqn hcn (hscript c hcl) (hscript next hnl) hs

/-! ## When the choice is kept -/

/-- Two configurations whose choice hangs on a version that the pass strips: the one that is behind
after the pass would have been chosen, or not, by a higher SDK version alone, and the minor version
does not say the same. -/
def StrippedTie (data : LocaleData) (minSdk : ℤ) (device x y : ResTableConfig) : Prop :=
  (stripped minSdk x).compare (stripped minSdk y) = .lt
    ∧ (x.sdkVersion.toNat : ℤ) ≤ minSdk ∧ (y.sdkVersion.toNat : ℤ) ≤ minSdk
    ∧ x.sdkVersion ≠ y.sdkVersion ∧ beforeVersion data y x device = none
    ∧ ¬ (x.sdkVersion < y.sdkVersion ↔ x.minorVersion < y.minorVersion)

instance (x y : ResTableConfig) : Decidable (StrippedTie data minSdk device x y) :=
  inferInstanceAs (Decidable (_ ∧ _))

/-- No criterion before the version notices the pass. -/
theorem beforeVersion_stripped (x y : ResTableConfig) :
    beforeVersion data (stripped minSdk y) (stripped minSdk x) device
      = beforeVersion data y x device := by
  rw [stripped_eq x, stripped_eq y]
  rfl

/-- The choice by two versions. -/
theorem getD_decideKeys_version (x y : ResTableConfig) : (decideKeys versionKeys y x).getD false
    = if x.sdkVersion = y.sdkVersion then decide (x.minorVersion < y.minorVersion)
      else decide (x.sdkVersion < y.sdkVersion) := by
  rw [versionKeys, decideKeys_cons, decideKeys_cons, decideKeys_nil, decideKey, decideKey]
  simp only [UInt16.lt_iff_toNat_lt, ← UInt16.toNat_inj, Int.ofNat_inj, Int.ofNat_lt,
    Option.or_none]
  by_cases hsdk : y.sdkVersion.toNat = x.sdkVersion.toNat
  · rw [if_pos hsdk, if_pos hsdk.symm, Option.none_or]
    split_ifs with hminor
    · simp [hminor]
    · rfl
  · rw [if_neg hsdk, if_neg (Ne.symm hsdk)]
    rfl

/-- **The pass keeps the choice between two configurations**, unless it hangs on a version that is
stripped. -/
theorem isBetterThan_stripped_iff (hm : minSdk ≤ device.sdkVersion.toNat) {x y : ResTableConfig}
    (hx : x.isMatch data device = true) (hy : y.isMatch data device = true)
    (hlt : (stripped minSdk x).compare (stripped minSdk y) = .lt) :
    (stripped minSdk y).isBetterThan data (stripped minSdk x) device = y.isBetterThan data x device
      ↔ ¬ StrippedTie data minSdk device x y := by
  have hmx := matched_of_isMatch hx
  have hmy := matched_of_isMatch hy
  have hmx' := matched_of_isMatch (c := stripped minSdk x) (by rw [isMatch_stripped hm]; exact hx)
  have hmy' := matched_of_isMatch (c := stripped minSdk y) (by rw [isMatch_stripped hm]; exact hy)
  have hminor : ∀ c : ResTableConfig, (stripped minSdk c).minorVersion = c.minorVersion := by
    intro c
    rw [stripped_eq]
    rfl
  rw [isBetterThan, isBetterThan, findSome?_criteria, findSome?_criteria, beforeVersion_stripped,
    betterVersion_eq hmy hmx, betterVersion_eq hmy' hmx', StrippedTie]
  cases hbefore : beforeVersion data y x device with
  | some decided => simp
  | none =>
      rw [Option.none_or, Option.none_or, getD_decideKeys_version, getD_decideKeys_version,
        sdkVersion_stripped, sdkVersion_stripped, hminor, hminor]
      by_cases hsdk : x.sdkVersion = y.sdkVersion
      · rw [hsdk]
        simp
      · rw [if_neg hsdk]
        have hsdk' : x.sdkVersion.toNat ≠ y.sdkVersion.toNat := fun h => hsdk (UInt16.toNat_inj.mp h)
        by_cases hxle : (x.sdkVersion.toNat : ℤ) ≤ minSdk
        · by_cases hyle : (y.sdkVersion.toNat : ℤ) ≤ minSdk
          · -- both versions are stripped
            rw [if_pos hxle, if_pos hyle, if_pos rfl, decide_eq_decide]
            simp only [hlt, hxle, hyle, hsdk, ne_eq, not_false_eq_true, true_and, not_not]
            exact Iff.comm
          · have hzero : (0 : UInt16) ≠ y.sdkVersion := by
              rintro h
              rw [← h] at hyle
              have : (0 : UInt16).toNat = 0 := rfl
              omega
            rw [if_pos hxle, if_neg hyle, if_neg hzero]
            simp only [hyle, false_and, and_false, not_false_eq_true, iff_true, decide_eq_decide,
              UInt16.lt_iff_toNat_lt]
            have : (0 : UInt16).toNat = 0 := rfl
            omega
        · by_cases hyle : (y.sdkVersion.toNat : ℤ) ≤ minSdk
          · have hzero : x.sdkVersion ≠ 0 := by
              rintro h
              rw [h] at hxle
              have : (0 : UInt16).toNat = 0 := rfl
              omega
            rw [if_neg hxle, if_pos hyle, if_neg hzero]
            simp only [hxle, false_and, and_false, not_false_eq_true, iff_true, decide_eq_decide,
              UInt16.lt_iff_toNat_lt]
            have : (0 : UInt16).toNat = 0 := rfl
            omega
          · rw [if_neg hxle, if_neg hyle, if_neg hsdk]
            simp [hxle]

/-- The value that a device gets after the pass. -/
theorem chosenValue_collapseVersions (hm : minSdk ≤ device.sdkVersion.toNat)
    {entry : ResourceEntry ι}
    (h : StrictlySortedBy ResTableConfig.compare ResourceConfigValue.config entry.values) :
    chosenValue data device (collapseVersions minSdk entry).values
      = (selectBest (fun v => v.config.isMatch data device)
          (fun a b => (stripped minSdk a.config).isBetterThan data (stripped minSdk b.config) device)
          (collapsed minSdk entry.values)).map ResourceConfigValue.value := by
  have hmap : selectBest (fun v : ResourceConfigValue ι => v.config.isMatch data device)
      (fun a b => a.config.isBetterThan data b.config device)
      ((collapsed minSdk entry.values).map (ResourceConfigValue.stripVersion minSdk))
      = (selectBest (fun v => v.config.isMatch data device)
          (fun a b => (stripped minSdk a.config).isBetterThan data (stripped minSdk b.config) device)
          (collapsed minSdk entry.values)).map (ResourceConfigValue.stripVersion minSdk) := by
    refine selectBest_map ?_ ?_
    · intro v _
      rw [config_stripVersion, isMatch_stripped hm]
    · refine (pairwise_collapsed h).imp ?_
      intro x y _ _ _
      rw [config_stripVersion, config_stripVersion]
  rw [chosenValue, values_collapseVersions h, hmap, Option.map_map]
  congr 1
  exact funext value_stripVersion

/-- The value that a device gets before the pass, by the same loop. -/
theorem chosenValue_eq (hm : minSdk ≤ device.sdkVersion.toNat) {l : List (ResourceConfigValue ι)}
    (h : StrictlySortedBy ResTableConfig.compare ResourceConfigValue.config l)
    (hscript : ∀ v ∈ l, v.config.localeScriptWasComputed = false) :
    chosenValue data device l
      = (selectBest (fun v => v.config.isMatch data device)
          (fun a b => a.config.isBetterThan data b.config device)
          (collapsed minSdk l)).map ResourceConfigValue.value := by
  rw [chosenValue, selectBest_collapsed hm h hscript]

/-- What the scan leaves of the values that match the device. -/
def Survives (data : LocaleData) (minSdk : ℤ) (device : ResTableConfig)
    (l : List (ResourceConfigValue ι)) (v : ResourceConfigValue ι) : Prop :=
  ¬ Overridden minSdk l v ∧ v.config.isMatch data device = true

instance (l : List (ResourceConfigValue ι)) (v : ResourceConfigValue ι) :
    Decidable (Survives data minSdk device l v) :=
  inferInstanceAs (Decidable (_ ∧ _))

/-- No choice between two of them hangs on a version that is stripped. -/
def NoTies (data : LocaleData) (minSdk : ℤ) (device : ResTableConfig)
    (l : List (ResourceConfigValue ι)) : Prop :=
  ∀ v ∈ l, ∀ w ∈ l, Survives data minSdk device l v → Survives data minSdk device l w →
    ¬ StrippedTie data minSdk device v.config w.config

instance (l : List (ResourceConfigValue ι)) : Decidable (NoTies data minSdk device l) :=
  inferInstanceAs (Decidable (∀ v ∈ l, ∀ w ∈ l, _))

/-- The value that is chosen is tied with no other, and wins against all that the pass puts ahead of
it. -/
structure FirmChoice (data : LocaleData) (minSdk : ℤ) (device : ResTableConfig)
    (l : List (ResourceConfigValue ι)) (chosen : ResourceConfigValue ι) : Prop where
  untied : ∀ v ∈ l, Survives data minSdk device l v →
    ¬ StrippedTie data minSdk device v.config chosen.config
      ∧ ¬ StrippedTie data minSdk device chosen.config v.config
  wins : ∀ v ∈ l, Survives data minSdk device l v →
    (stripped minSdk v.config).compare (stripped minSdk chosen.config) = .lt →
      chosen.config.isBetterThan data v.config device = true

/-- They have one locale, and none is of the default density next to one of medium density. -/
def OneLocale (data : LocaleData) (minSdk : ℤ) (device : ResTableConfig)
    (l : List (ResourceConfigValue ι)) : Prop :=
  ∀ v ∈ l, ∀ w ∈ l, Survives data minSdk device l v → Survives data minSdk device l w →
    EqualLocales v.config w.config ∧ ¬ DensitiesClash v.config w.config

/-- What the loop selects before and after the pass. -/
abbrev selectChosen (data : LocaleData) (device : ResTableConfig)
    (f : ResTableConfig → ResTableConfig) (l : List (ResourceConfigValue ι)) :
    Option (ResourceConfigValue ι) :=
  selectBest (fun v => v.config.isMatch data device)
    (fun a b => (f a.config).isBetterThan data (f b.config) device) l

/-- The values before and behind one that is left. -/
theorem exists_split_collapsed {l : List (ResourceConfigValue ι)}
    (h : StrictlySortedBy ResTableConfig.compare ResourceConfigValue.config l)
    {b : ResourceConfigValue ι} (hb : b ∈ collapsed minSdk l) :
    ∃ p q, collapsed minSdk l = p ++ b :: q
      ∧ (∀ y ∈ p, (stripped minSdk y.config).compare (stripped minSdk b.config) = .lt)
      ∧ (∀ y ∈ q, (stripped minSdk b.config).compare (stripped minSdk y.config) = .lt)
      ∧ b ∉ p ∧ b ∉ q := by
  obtain ⟨p, q, hpq⟩ := List.append_of_mem hb
  have hpairs : (collapsed minSdk l).Pairwise _ := pairwise_collapsed h
  rw [hpq] at hpairs
  obtain ⟨-, hq, hp⟩ := List.pairwise_append.mp hpairs
  have hahead : ∀ y ∈ p, (stripped minSdk y.config).compare (stripped minSdk b.config) = .lt :=
    fun y hy => hp y hy b List.mem_cons_self
  have hbehind : ∀ y ∈ q, (stripped minSdk b.config).compare (stripped minSdk y.config) = .lt :=
    (List.pairwise_cons.mp hq).1
  have hself : (stripped minSdk b.config).compare (stripped minSdk b.config) ≠ .lt := by
    simp [Std.ReflCmp.compare_self]
  exact ⟨p, q, hpq, hahead, hbehind, fun hb => hself (hahead b hb), fun hb => hself (hbehind b hb)⟩

/-- Those that survive are those that are left and match. -/
theorem survives_of_mem_collapsed {l : List (ResourceConfigValue ι)} {v : ResourceConfigValue ι}
    (hv : v ∈ collapsed minSdk l) (hmatch : v.config.isMatch data device = true) :
    v ∈ l ∧ Survives data minSdk device l v :=
  ⟨(mem_collapsed_iff.mp hv).1, (mem_collapsed_iff.mp hv).2, hmatch⟩

/-- **Without ties the pass keeps the choice**, and also if the choice is firm. -/
theorem selectChosen_stripped (hm : minSdk ≤ device.sdkVersion.toNat)
    {l : List (ResourceConfigValue ι)}
    (h : StrictlySortedBy ResTableConfig.compare ResourceConfigValue.config l)
    (hkeeps : NoTies data minSdk device l
      ∨ ∀ b, selectChosen data device id (collapsed minSdk l) = some b →
        FirmChoice data minSdk device l b) :
    selectChosen data device (stripped minSdk) (collapsed minSdk l)
      = selectChosen data device id (collapsed minSdk l) := by
  rcases hkeeps with hties | hfirm
  · refine selectBest_congr ((pairwise_collapsed h).imp_of_mem ?_)
    intro x y hx hy hlt hmx hmy
    obtain ⟨hxl, hxs⟩ := survives_of_mem_collapsed hx hmx
    obtain ⟨hyl, hys⟩ := survives_of_mem_collapsed hy hmy
    exact (isBetterThan_stripped_iff hm hmx hmy hlt).mpr (hties x hxl y hyl hxs hys)
  · cases hbest : selectChosen data device id (collapsed minSdk l) with
    | none => exact selectBest_eq_none_iff.mpr (selectBest_eq_none_iff.mp hbest)
    | some b =>
        obtain ⟨hb, hmb⟩ := mem_of_selectBest hbest
        have hfirm := hfirm b hbest
        obtain ⟨p, q, hpq, hahead, hbehind, -, hbq⟩ := exists_split_collapsed h hb
        rw [hpq] at hbest ⊢
        refine selectBest_append_cons hmb (fun y hy hmy => ?_) (fun y hy hmy => ?_)
        · obtain ⟨hyl, hys⟩ := survives_of_mem_collapsed
            (hpq ▸ List.mem_append_left _ hy : y ∈ collapsed minSdk l) hmy
          have hsame := (isBetterThan_stripped_iff hm hmy hmb (hahead y hy)).mpr
            (hfirm.untied y hyl hys).1
          exact hsame.trans (hfirm.wins y hyl hys (hahead y hy))
        · obtain ⟨hyl, hys⟩ := survives_of_mem_collapsed
            (hpq ▸ List.mem_append_right _ (List.mem_cons_of_mem b hy) : y ∈ collapsed minSdk l) hmy
          have hsame := (isBetterThan_stripped_iff hm hmb hmy (hbehind y hy)).mpr
            (hfirm.untied y hyl hys).2
          exact hsame.trans ((selectBest_earlier hbq hbest).2 y hy hmy)

/-- In one locale, the choice wins against all ahead of it, before and after the pass. -/
theorem wins_of_oneLocale {l : List (ResourceConfigValue ι)} (hone : OneLocale data minSdk device l)
    {f : ResTableConfig → ResTableConfig}
    (hmatch : ∀ c : ResTableConfig, (f c).isMatch data device = c.isMatch data device)
    (hlocale : ∀ c o, EqualLocales c o → EqualLocales (f c) (f o))
    (hdensity : ∀ c : ResTableConfig, (f c).density = c.density)
    {p q : List (ResourceConfigValue ι)} {b : ResourceConfigValue ι}
    (hpq : collapsed minSdk l = p ++ b :: q) (hbp : b ∉ p) (hbq : b ∉ q)
    (hbest : selectChosen data device f (p ++ b :: q) = some b) {y : ResourceConfigValue ι}
    (hy : y ∈ p) (hmy : y.config.isMatch data device = true) :
    (f b.config).isBetterThan data (f y.config) device = true := by
  have hmem : ∀ v ∈ p ++ [b], v ∈ collapsed minSdk l := by
    intro v hv
    rw [hpq, List.append_cons]
    exact List.mem_append_left q hv
  have hkeys : ∀ v ∈ p ++ [b], ∀ w ∈ p ++ [b], v.config.isMatch data device = true →
      w.config.isMatch data device = true →
      ((f v.config).isBetterThan data (f w.config) device = true
        ↔ compareKeys (imsiKeys ++ laterKeys device) (f v.config) (f w.config) = .gt) := by
    intro v hv w hw hmv hmw
    obtain ⟨hvl, hvs⟩ := survives_of_mem_collapsed (hmem v hv) hmv
    obtain ⟨hwl, hws⟩ := survives_of_mem_collapsed (hmem w hw) hmw
    obtain ⟨hsame, hclash⟩ := hone v hvl w hwl hvs hws
    refine (hlocale _ _ hsame).isBetterThan_iff_compareKeys ((hmatch _).trans hmv)
      ((hmatch _).trans hmw) ?_
    rwa [DensitiesClash, hdensity, hdensity]
  exact better_of_selectBest hkeys hbp (selectBest_earlier hbq hbest).1 hy hmy

/-- **In one locale, a choice that the pass keeps is firm.** -/
theorem firmChoice_of_selectChosen (hm : minSdk ≤ device.sdkVersion.toNat)
    {l : List (ResourceConfigValue ι)}
    (h : StrictlySortedBy ResTableConfig.compare ResourceConfigValue.config l)
    (hone : OneLocale data minSdk device l) {b : ResourceConfigValue ι}
    (hbefore : selectChosen data device id (collapsed minSdk l) = some b)
    (hafter : selectChosen data device (stripped minSdk) (collapsed minSdk l) = some b) :
    FirmChoice data minSdk device l b := by
  obtain ⟨hb, hmb⟩ := mem_of_selectBest hbefore
  obtain ⟨p, q, hpq, hahead, hbehind, hbp, hbq⟩ := exists_split_collapsed h hb
  rw [hpq] at hbefore hafter
  have hwins : ∀ y ∈ p, y.config.isMatch data device = true →
      b.config.isBetterThan data y.config device = true := fun y hy hmy =>
    wins_of_oneLocale hone (fun _ => rfl) (fun _ _ h => h) (fun _ => rfl) hpq hbp hbq hbefore hy hmy
  have hwins' : ∀ y ∈ p, y.config.isMatch data device = true →
      (stripped minSdk b.config).isBetterThan data (stripped minSdk y.config) device = true := by
    intro y hy hmy
    refine wins_of_oneLocale hone (isMatch_stripped hm) (fun c o h => ?_) (fun c => ?_) hpq hbp hbq
      hafter hy hmy
    · rw [stripped_eq c, stripped_eq o]
      exact ⟨h.language, h.country, h.localeVariant, h.localeNumberingSystem⟩
    · rw [stripped_eq]
      rfl
  -- where a value stands in the order that the pass makes
  have hplace : ∀ v ∈ l, Survives data minSdk device l v → v ∈ p ∨ v = b ∨ v ∈ q := by
    intro v hv hs
    have hmem : v ∈ p ++ b :: q := hpq ▸ mem_collapsed_iff.mpr ⟨hv, hs.1⟩
    simpa using hmem
  have hself : (stripped minSdk b.config).compare (stripped minSdk b.config) = .eq :=
    Std.ReflCmp.compare_self
  refine ⟨fun v hv hs => ?_, fun v hv hs hlt => ?_⟩
  · rcases hplace v hv hs with hvp | rfl | hvq
    · have hlt := hahead v hvp
      refine ⟨(isBetterThan_stripped_iff hm hs.2 hmb hlt).mp
        ((hwins' v hvp hs.2).trans (hwins v hvp hs.2).symm), fun htie => ?_⟩
      have hgt := htie.1
      rw [Std.OrientedCmp.gt_of_lt hlt] at hgt
      cases hgt
    · exact ⟨fun htie => by simp [htie.1] at hself, fun htie => by simp [htie.1] at hself⟩
    · have hlt := hbehind v hvq
      refine ⟨fun htie => ?_, (isBetterThan_stripped_iff hm hmb hs.2 hlt).mp ?_⟩
      · have hgt := htie.1
        rw [Std.OrientedCmp.gt_of_lt hlt] at hgt
        cases hgt
      · exact ((selectBest_earlier hbq hafter).2 v hvq hs.2).trans
          ((selectBest_earlier hbq hbefore).2 v hvq hs.2).symm
  · rcases hplace v hv hs with hvp | rfl | hvq
    · exact hwins v hvp hs.2
    · rw [hself] at hlt
      cases hlt
    · rw [Std.OrientedCmp.gt_of_lt (hbehind v hvq)] at hlt
      cases hlt

end Selection

/-! ## The whole pass -/

/-- The entry gives the device the same value before and after the pass over its table. -/
def PreservesResolution {ι : Type} (data : LocaleData) (minSdk : ℤ) (device : ResTableConfig)
    (table : ResourceTable ι) (i : ℕ) (name : ResourceName) (entry : ResourceEntry ι) : Prop :=
  ∃ entry', (VersionCollapser.consume minSdk table).namedEntries[i]? = some (name, entry')
    ∧ chosenValue data device entry'.values = chosenValue data device entry.values

/-- The pass keeps the names. -/
theorem name_collapseVersions {ι : Type} (minSdk : ℤ) (entry : ResourceEntry ι) :
    (collapseVersions minSdk entry).name = entry.name := by
  unfold collapseVersions
  dsimp only
  split_ifs <;> rfl

/-- The pass keeps the choice from an entry iff it keeps the value that the loop selects. -/
theorem preservesResolution_iff_selectChosen {ι : Type} {data : LocaleData} {minSdk : ℤ}
    {device : ResTableConfig} (hm : minSdk ≤ device.sdkVersion.toNat) {table : ResourceTable ι}
    {i : ℕ} {name : ResourceName} {entry : ResourceEntry ι}
    (hentry : table.namedEntries[i]? = some (name, entry))
    (hsorted : StrictlySortedBy ResTableConfig.compare ResourceConfigValue.config entry.values)
    (hscript : ∀ v ∈ entry.values, v.config.localeScriptWasComputed = false) :
    PreservesResolution data minSdk device table i name entry
      ↔ (selectChosen data device (stripped minSdk) (collapsed minSdk entry.values)).map
          ResourceConfigValue.value
        = (selectChosen data device id (collapsed minSdk entry.values)).map
          ResourceConfigValue.value := by
  have hafter : (VersionCollapser.consume minSdk table).namedEntries[i]?
      = some (name, collapseVersions minSdk entry) := by
    rw [VersionCollapser.consume,
      ResourceTable.namedEntries_mapEntries (name_collapseVersions minSdk), List.getElem?_map,
      hentry]
    rfl
  rw [PreservesResolution, hafter]
  simp only [Option.some.injEq, Prod.mk.injEq, true_and, exists_eq_left']
  rw [chosenValue_collapseVersions hm hsorted, chosenValue_eq hm hsorted hscript]
  rfl

/-- A configuration of `wNdp-hNdp-vN`. -/
def sizeDp (width height sdkVersion : UInt16) : ResTableConfig :=
  { defaultConfig with screenWidthDp := width, screenHeightDp := height, sdkVersion }

/-- A value that is weak or not, to tell two values apart. -/
def markedValue (weak : Bool) : Value Unit := ⟨.id, (), weak, true, none, .noFlag⟩

/-- An entry with the given configurations, of which the first has a weak value. -/
def entryOf (first : ResTableConfig) (others : List ResTableConfig) : ResourceEntry Unit :=
  { ResourceEntry.new [] with
    values := ⟨first, [], some (markedValue true), false⟩
      :: others.map fun c => ⟨c, [], some (markedValue false), false⟩ }

/-- A table with this entry. -/
def tableOf (entry : ResourceEntry Unit) : ResourceTable Unit :=
  ⟨[⟨[], [⟨⟨[], .kAnim⟩, .kUndefined, [entry]⟩]⟩]⟩

end Aapt2

end AndroidSdk
