import AndroidSdk.Lib.SortedVector
import AndroidSdk.SplitSelect.Config

/-! # Grouping splits

The splits of an application and their groups of mutually exclusive ones (`Abi.cpp`,
`SplitDescription.cpp`, `Grouper.cpp`).

* **`SplitDescription.compare`** — the order that tells splits apart.
* **`groupByMutualExclusivity`** — plain splits, density groups and ABI groups.
* **`densityRank`** — how good a density is for a requested one. -/

namespace AndroidSdk.SplitSelect

open Lib ResTableConfig

/-! ## ABIs -/

/-- `abi::Variant`. -/
inductive Variant where
  | none | armeabi | armeabiV7a | arm64V8a | x86 | x8664 | mips | mips64
  deriving DecidableEq

/-- `abi::Family`. -/
inductive Family where
  | none | arm | intel | mips
  deriving DecidableEq

namespace Variant

/-- The value of the enumeration. -/
def toNat : Variant → ℕ
  | .none => 0
  | .armeabi => 1
  | .armeabiV7a => 2
  | .arm64V8a => 3
  | .x86 => 4
  | .x8664 => 5
  | .mips => 6
  | .mips64 => 7

/-- `abi::getFamily`. -/
def getFamily : Variant → Family
  | .none => .none
  | .armeabi | .armeabiV7a | .arm64V8a => .arm
  | .x86 | .x8664 => .intel
  | .mips | .mips64 => .mips

/-- `abi::toString`. -/
def toString : Variant → String
  | .none => ""
  | .armeabi => "armeabi"
  | .armeabiV7a => "armeabi-v7a"
  | .arm64V8a => "arm64-v8a"
  | .x86 => "x86"
  | .x8664 => "x86_64"
  | .mips => "mips"
  | .mips64 => "mips64"

/-- The value tells the variants apart. -/
theorem toNat_injective {a b : Variant} (h : a.toNat = b.toNat) : a = b := by
  cases a <;> cases b <;> first | rfl | exact absurd h (by decide)

end Variant

/-- `abi::getVariants`. -/
def getVariants : Family → List Variant
  | .none => []
  | .arm => [.armeabi, .armeabiV7a, .arm64V8a]
  | .intel => [.x86, .x8664]
  | .mips => [.mips, .mips64]

/-! ## Split descriptions -/

/-- `SplitDescription`. -/
structure SplitDescription where
  config : ResTableConfig
  abi : Variant
  deriving DecidableEq

namespace SplitDescription

/-- `SplitDescription::compare`. -/
def compare : SplitDescription → SplitDescription → Ordering :=
  compareLex (compareOn fun s => s.abi.toNat) fun s o => s.config.compareLogical o.config

instance : Std.TransCmp compare := by
  unfold compare
  have : Std.TransCmp fun s o : SplitDescription => s.config.compareLogical o.config :=
    { eq_swap := Std.OrientedCmp.eq_swap, isLE_trans := Std.TransCmp.isLE_trans }
  infer_instance

/-- What the order does not tell apart. -/
theorem compare_eq_iff (s o : SplitDescription) : compare s o = .eq ↔
    s.abi = o.abi ∧ s.config.SameQualifiers o.config ∧ s.config.density = o.config.density
      ∧ s.config.sdkVersion = o.config.sdkVersion := by
  rw [compare, compareLex_eq_eq, ResTableConfig.compareLogical_eq_iff]
  simp only [compareOn, Std.LawfulEqCmp.compare_eq_iff_eq]
  exact and_congr_left fun _ => ⟨Variant.toNat_injective, congrArg _⟩

/-- The key of the density group of a split. -/
def densityKey (s : SplitDescription) : SplitDescription :=
  { s with config := { s.config with density := 0, sdkVersion := 0 } }

/-- The key of the ABI group of a split. -/
def abiKey (s : SplitDescription) : SplitDescription := { s with abi := .none }

/-- Splits of one density group: same ABI and same qualifiers. -/
theorem compare_densityKey_eq_iff (s o : SplitDescription) :
    compare s.densityKey o.densityKey = .eq
      ↔ s.abi = o.abi ∧ s.config.SameQualifiers o.config := by
  rw [compare_eq_iff]
  constructor
  · rintro ⟨habi, hqualifiers, -, -⟩
    exact ⟨habi, hqualifiers⟩
  · rintro ⟨habi, hqualifiers⟩
    exact ⟨habi, hqualifiers, rfl, rfl⟩

/-- Splits of one ABI group: same qualifiers, density and version. -/
theorem compare_abiKey_eq_iff (s o : SplitDescription) :
    compare s.abiKey o.abiKey = .eq
      ↔ s.config.SameQualifiers o.config ∧ s.config.density = o.config.density
        ∧ s.config.sdkVersion = o.config.sdkVersion := by
  rw [compare_eq_iff]
  exact ⟨fun h => h.2, fun h => ⟨rfl, h⟩⟩

end SplitDescription

/-- A split, or a device, with a density and a version. -/
def dpi (density sdkVersion : UInt16) : SplitDescription where
  config := { defaultConfig with density, sdkVersion }
  abi := .none

/-! ## Groups -/

/-- The groups that `groupByMutualExclusivity` builds in its loop. -/
structure Groups where
  groups : List (List SplitDescription) := []
  densityGroups : List (SplitDescription × List SplitDescription) := []
  abiGroups : List (SplitDescription × List SplitDescription) := []

/-- `AaptUtil::appendValue` for groups of splits. -/
def appendValue : SplitDescription → SplitDescription →
    List (SplitDescription × List SplitDescription) →
    List (SplitDescription × List SplitDescription) :=
  KeyedVector.appendValue SplitDescription.compare SplitDescription.compare

/-- One turn of the loop of `groupByMutualExclusivity`. -/
def Groups.addSplit (g : Groups) (split : SplitDescription) : Groups :=
  if split.config.density ≠ 0 then
    { g with densityGroups := appendValue split.densityKey split g.densityGroups }
  else if split.abi ≠ .none then
    { g with abiGroups := appendValue split.abiKey split g.abiGroups }
  else { g with groups := g.groups ++ [[split]] }

/-- The loop of `groupByMutualExclusivity`. -/
def collectGroups (splits : List SplitDescription) : Groups := splits.foldl Groups.addSplit {}

/-- The groups of splits that differ in density. -/
def densityGroups (splits : List SplitDescription) : List (List SplitDescription) :=
  (collectGroups splits).densityGroups.map Prod.snd

/-- The groups of splits that differ in ABI. -/
def abiGroups (splits : List SplitDescription) : List (List SplitDescription) :=
  (collectGroups splits).abiGroups.map Prod.snd

/-- `groupByMutualExclusivity`. -/
def groupByMutualExclusivity (splits : List SplitDescription) : List (List SplitDescription) :=
  (collectGroups splits).groups ++ densityGroups splits ++ abiGroups splits

/-- The invariant of the loop of `groupByMutualExclusivity`. -/
structure Groups.Valid (g : Groups) : Prop where
  plain : ∀ group ∈ g.groups, ∀ s ∈ group, s.config.density = 0 ∧ s.abi = .none
  density : KeyedVector.Grouped SplitDescription.compare SplitDescription.compare
    SplitDescription.densityKey (fun s => s.config.density ≠ 0) g.densityGroups
  abi : KeyedVector.Grouped SplitDescription.compare SplitDescription.compare
    SplitDescription.abiKey (fun s => s.config.density = 0 ∧ s.abi ≠ .none) g.abiGroups

/-- One turn of the loop keeps the invariant. -/
theorem Groups.Valid.addSplit {g : Groups} (h : g.Valid) (split : SplitDescription) :
    (g.addSplit split).Valid := by
  unfold Groups.addSplit
  split_ifs with hdensity habi
  · exact ⟨h.plain, h.density.appendValue hdensity, h.abi⟩
  · exact ⟨h.plain, h.density, h.abi.appendValue ⟨not_not.mp hdensity, habi⟩⟩
  · refine ⟨?_, h.density, h.abi⟩
    intro group hgroup s hs
    obtain hgroup | hgroup := List.mem_append.mp hgroup
    · exact h.plain group hgroup s hs
    · rw [List.mem_singleton.mp hgroup, List.mem_singleton] at hs
      rw [hs]
      exact ⟨not_not.mp hdensity, not_not.mp habi⟩

/-- The loop builds valid groups. -/
theorem valid_collectGroups (splits : List SplitDescription) : (collectGroups splits).Valid := by
  induction splits using List.reverseRecOn with
  | nil => exact ⟨by simp [collectGroups], ⟨by simp [collectGroups], by simp [collectGroups],
      by simp [collectGroups], by simp [collectGroups]⟩, ⟨by simp [collectGroups],
      by simp [collectGroups], by simp [collectGroups], by simp [collectGroups]⟩⟩
  | append_singleton splits split ih =>
      rw [collectGroups, List.foldl_append]
      exact ih.addSplit split

section Group

variable {splits group other : List SplitDescription} {s o : SplitDescription}

/-- Members of a density group have a density, one ABI and the same qualifiers. -/
theorem densityGroup_spec (hgroup : group ∈ densityGroups splits) (hs : s ∈ group)
    (ho : o ∈ group) :
    s.config.density ≠ 0 ∧ s.abi = o.abi ∧ s.config.SameQualifiers o.config := by
  obtain ⟨p, hp, rfl⟩ := List.mem_map.mp hgroup
  have hvalid := (valid_collectGroups splits).density
  have heq := Std.TransCmp.eq_trans (hvalid.key_eq p hp s hs)
    (Std.OrientedCmp.eq_symm (hvalid.key_eq p hp o ho))
  exact ⟨hvalid.holds p hp s hs, (SplitDescription.compare_densityKey_eq_iff s o).mp heq⟩

/-- Members of an ABI group have an ABI, no density, and the same qualifiers and version. -/
theorem abiGroup_spec (hgroup : group ∈ abiGroups splits) (hs : s ∈ group) (ho : o ∈ group) :
    s.abi ≠ .none ∧ s.config.density = 0 ∧ s.config.SameQualifiers o.config
      ∧ s.config.sdkVersion = o.config.sdkVersion := by
  obtain ⟨p, hp, rfl⟩ := List.mem_map.mp hgroup
  have hvalid := (valid_collectGroups splits).abi
  have heq := Std.TransCmp.eq_trans (hvalid.key_eq p hp s hs)
    (Std.OrientedCmp.eq_symm (hvalid.key_eq p hp o ho))
  obtain ⟨hqualifiers, -, hsdk⟩ := (SplitDescription.compare_abiKey_eq_iff s o).mp heq
  obtain ⟨hdensity, habi⟩ := hvalid.holds p hp s hs
  exact ⟨habi, hdensity, hqualifiers, hsdk⟩

/-- Density groups and ABI groups are sorted. -/
theorem sorted_group (hgroup : group ∈ densityGroups splits ∨ group ∈ abiGroups splits) :
    SortedVector.Sorted SplitDescription.compare group := by
  obtain hgroup | hgroup := hgroup
  · obtain ⟨p, hp, rfl⟩ := List.mem_map.mp hgroup
    exact (valid_collectGroups splits).density.sorted p hp
  · obtain ⟨p, hp, rfl⟩ := List.mem_map.mp hgroup
    exact (valid_collectGroups splits).abi.sorted p hp

end Group

/-! ## Densities -/

/-- How good a density is for a requested one: `DENSITY_ANY`, then the densities from the requested
one on, the nearest first, then the lower ones, the nearest first. -/
def densityRank (requested density : ℕ) : ℕ :=
  if density = densityAny then 131072
  else if requested ≤ density then 131071 - density
  else density

/-- The rank decides between two densities. -/
theorem densityIsBetter_iff {d d' requested : ℕ} (hd : d < 65536) (hd' : d' < 65536)
    (hne : d ≠ d') :
    densityIsBetter d d' requested = true ↔ densityRank requested d' < densityRank requested d := by
  unfold densityIsBetter densityRank
  by_cases hAny : d = densityAny
  · have hAny' : d' ≠ densityAny := fun h => hne (hAny.trans h.symm)
    rw [if_pos hAny, if_pos hAny, if_neg hAny']
    simp only [true_iff]
    split_ifs <;> omega
  · by_cases hAny' : d' = densityAny
    · rw [if_neg hAny, if_pos hAny', if_pos hAny', if_neg hAny]
      simp only [Bool.false_eq_true, false_iff]
      split_ifs <;> omega
    · rw [if_neg hAny, if_neg hAny', if_neg hAny', if_neg hAny]
      dsimp only
      split_ifs <;> simp <;> omega

/-- The rank tells densities apart. -/
theorem densityRank_injective {d d' requested : ℕ} (hd : d < 65536) (hd' : d' < 65536)
    (h : densityRank requested d = densityRank requested d') :
    d = d' := by
  unfold densityRank densityAny at h
  split_ifs at h <;> omega

end AndroidSdk.SplitSelect
