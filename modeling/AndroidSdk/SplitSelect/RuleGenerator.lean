import Mathlib.Algebra.Group.Nat.Defs
import Mathlib.Data.Nat.Sqrt
import AndroidSdk.SplitSelect.Rule
import AndroidSdk.SplitSelect.Selector

/-! # Generating rules

The rules that tell on which devices a split is installed (`RuleGenerator.cpp` and
`SplitSelector::getRules`).

* **`findMid`** — the break point between two densities, in 32-bit arithmetic.
* **`generateDensity`**, **`generateAbi`**, **`generate`** — the rule of a member of a group.
* **`getRules`** — the map from splits to simplified rules.
* **`deviceSatisfies`** — what a leaf rule says of a device.
* **`getRules_eq`** — its two loops as one.
* **`DensityRange`** — what the subrules on densities say together. -/

namespace AndroidSdk.SplitSelect

open Lib ResTableConfig Rule

/-! ## Break points -/

/-- An `int`: 32 bits with a sign. -/
def wrapInt (n : ℤ) : ℤ := n.bmod (2 ^ 32)

/-- The least number whose square is not below a number. -/
def ceilSqrt (n : ℕ) : ℕ := if n.sqrt * n.sqrt = n then n.sqrt else n.sqrt + 1

/-- Half the difference of a root and a number, cut off towards zero. -/
def halfRootSub (n h : ℕ) : ℤ :=
  if h * h ≤ n then ((n.sqrt - h) / 2 : ℕ) else -((h - ceilSqrt n) / 2 : ℕ)

section Generate

/- What the conversion of a NaN to an `int` gives, which the language leaves open. -/
variable (nan : ℤ)

/-- `findMid`: the root of a product that leaves the range of `int` and becomes negative is a
NaN. -/
def findMid (l h : ℕ) : ℤ :=
  let square := wrapInt (h * h + 8 * l * h)
  if square < 0 then nan else halfRootSub square.toNat h

/-! ## Rules -/

/-- A rule on a numeric property. -/
def longRule (op : Operator) (key : Key) (arg : ℤ) : Rule := .mk op key false [] [arg] []

/-- A rule on a property that is a text or a list of texts. -/
def stringRule (op : Operator) (key : Key) (args : List String) : Rule :=
  .mk op key false args [] []

/-- `SDK_LOLLIPOP`. -/
def sdkLollipop : ℕ := 21

/-- The entry before an index. -/
def previous? {α : Type} (l : List α) (index : ℕ) : Option α :=
  if 0 < index then l[index - 1]? else none

/-- The rule on a lower neighbour. -/
def aboveRule (density : ℕ) : Option ℕ → List Rule
  | none => []
  | some l => [longRule .greaterThan .screenDensity (wrapInt (findMid nan l density - 1))]

/-- The rule on an upper neighbour, if that is not `DENSITY_ANY`. -/
def belowRule (density : ℕ) : Option ℕ → List Rule
  | none => []
  | some h =>
      if h ≠ densityAny then [longRule .lessThan .screenDensity (findMid nan density h)] else []

/-- The subrules that `generateDensity` adds for a density other than `DENSITY_ANY`. -/
def densitySubrules (allDensities : List ℕ) (index : Fin allDensities.length) : List Rule :=
  (if densityAny ∈ allDensities then [longRule .lessThan .sdkVersion sdkLollipop] else [])
    ++ aboveRule nan (allDensities.get index) (previous? allDensities index)
    ++ belowRule nan (allDensities.get index) allDensities[index.val + 1]?

/-- `RuleGenerator::generateDensity`. -/
def generateDensity (allDensities : List ℕ) (index : Fin allDensities.length) : Rule :=
  if (allDensities.get index) ≠ densityAny then conj (densitySubrules nan allDensities index)
  -- the version is handled elsewhere, so `DENSITY_ANY` is always picked if it is available
  else .mk .alwaysTrue .none false [] [] []

/-- The variants from an ABI on, up to the one of the next split. -/
def abiRange (thisAbi : Variant) (next : Option Variant) : List Variant :=
  let start := (getVariants thisAbi.getFamily).dropWhile (· ≠ thisAbi)
  match next with
  | none => start
  | some abi => start.takeWhile (· ≠ abi)

/-- `RuleGenerator::generateAbi`. -/
def generateAbi (splitAbis : List Variant) (index : Fin splitAbis.length) : Rule :=
  stringRule .containsAny .nativePlatform
    ((abiRange (splitAbis.get index) splitAbis[index.val + 1]?).map Variant.toString)

/-- The language and the version of a split. -/
def generateQualifiers (c : ResTableConfig) : List Rule :=
  (if c.locale ≠ 0 then [stringRule .equals .language [c.bcp47Locale]] else [])
    ++ (if c.sdkVersion ≠ 0 then
        [longRule .greaterThan .sdkVersion ((c.sdkVersion.toNat : ℤ) - 1)]
      else [])

/-- The density of a split, among those of its group if they differ. -/
def generateGroupDensity (group : List SplitDescription) (index : Fin group.length) : Rule :=
  if ∃ other ∈ group, other.config.density ≠ (group.get index).config.density then
    generateDensity nan (group.map fun s => s.config.density.toNat)
      (index.cast (List.length_map _).symm)
  else generateDensity nan [(group.get index).config.density.toNat] 0

/-- The ABI of a split, among those of its group if they differ. -/
def generateGroupAbi (group : List SplitDescription) (index : Fin group.length) : Rule :=
  if ∃ other ∈ group, other.abi ≠ (group.get index).abi then
    generateAbi (group.map SplitDescription.abi) (index.cast (List.length_map _).symm)
  else generateAbi [(group.get index).abi] 0

/-- `RuleGenerator::generate`. -/
def generate (group : List SplitDescription) (index : Fin group.length) : Rule :=
  conj (generateQualifiers (group.get index).config
    ++ (if (group.get index).config.density ≠ 0 then [generateGroupDensity nan group index] else [])
    ++ (if (group.get index).abi ≠ .none then [generateGroupAbi group index] else []))

/-- `SplitSelector::getRules`. -/
def getRules (splits : List SplitDescription) : List (SplitDescription × Rule) :=
  (groupByMutualExclusivity splits).foldl (fun rules group =>
    (List.finRange group.length).foldl (fun rules j =>
      -- a null rule is not added
      KeyedVector.addSome SplitDescription.compare rules
        ((group.get j), simplify (generate nan group j))) rules) []

end Generate

/-! ## Devices -/

/-- What a leaf rule says of the device that a target describes. -/
def deviceSatisfies (target : SplitDescription) : Rule → Bool
  | .mk .alwaysTrue _ negate _ _ _ => !negate
  | .mk .lessThan .sdkVersion negate _ [n] _ =>
      decide (target.config.sdkVersion.toNat < n) ^^ negate
  | .mk .greaterThan .sdkVersion negate _ [n] _ =>
      decide (n < target.config.sdkVersion.toNat) ^^ negate
  | .mk .lessThan .screenDensity negate _ [n] _ =>
      decide (target.config.density.toNat < n) ^^ negate
  | .mk .greaterThan .screenDensity negate _ [n] _ =>
      decide (n < target.config.density.toNat) ^^ negate
  | .mk .equals .language negate [text] _ _ => decide (target.config.bcp47Locale = text) ^^ negate
  | .mk .containsAny .nativePlatform negate args _ _ =>
      decide (target.abi ≠ .none ∧ target.abi.toString ∈ args) ^^ negate
  | _ => false

/-! ## The rules of all groups -/

/-- What the loops of `getRules` add. -/
def ruleEntries (nan : ℤ) (splits : List SplitDescription) :
    List (SplitDescription × Option Rule) :=
  (groupByMutualExclusivity splits).flatMap fun group =>
    (List.finRange group.length).map fun j => ((group.get j), simplify (generate nan group j))

/-- The two loops of `getRules` as one. -/
theorem getRules_eq (nan : ℤ) (splits : List SplitDescription) :
    getRules nan splits
      = (ruleEntries nan splits).foldl (KeyedVector.addSome SplitDescription.compare) [] := by
  rw [ruleEntries, List.foldl_flatMap]
  simp only [List.foldl_map]
  rfl

/-! ## Leaves -/

section Leaves

variable {nan : ℤ} {target : SplitDescription}

/-- The subrules on densities are leaves. -/
theorem leaf_of_mem_densitySubrules {ds : List ℕ} {i : Fin ds.length} {l : Rule}
    (h : l ∈ densitySubrules nan ds i) : ¬ l.op.isCombinator := by
  simp only [densitySubrules, List.mem_append] at h
  obtain (h | h) | h := h
  · split_ifs at h
    · rw [List.mem_singleton.mp h]
      decide
    · cases h
  · cases hprevious : previous? ds i with
    | none => simp [hprevious, aboveRule] at h
    | some d =>
        simp only [hprevious, aboveRule, List.mem_singleton] at h
        rw [h]
        exact (by decide : ¬ Operator.greaterThan.isCombinator)
  · cases hnext : ds[i.val + 1]? with
    | none => simp [hnext, belowRule] at h
    | some d =>
        simp only [hnext, belowRule] at h
        split_ifs at h
        · rw [List.mem_singleton.mp h]
          exact (by decide : ¬ Operator.lessThan.isCombinator)
        · cases h

/-- The rules on language and version are leaves. -/
theorem leaf_of_mem_generateQualifiers {c : ResTableConfig} {l : Rule}
    (h : l ∈ generateQualifiers c) : ¬ l.op.isCombinator := by
  simp only [generateQualifiers, List.mem_append] at h
  obtain h | h := h
  · split_ifs at h
    · rw [List.mem_singleton.mp h]
      exact (by decide : ¬ Operator.equals.isCombinator)
    · cases h
  · split_ifs at h
    · rw [List.mem_singleton.mp h]
      exact (by decide : ¬ Operator.greaterThan.isCombinator)
    · cases h

/-- The leaves of the rule on densities. -/
theorem leaves_generateDensity {ds : List ℕ} {i : Fin ds.length} (h : ds.get i ≠ densityAny) :
    leaves (generateDensity nan ds i) = densitySubrules nan ds i := by
  rw [generateDensity, if_pos h, conj, leaves_node (.inl rfl),
    flatMap_leaves_of_leaf fun l hl => leaf_of_mem_densitySubrules hl]

/-- `DENSITY_ANY` has a rule that always holds. -/
theorem leaves_generateDensity_any {ds : List ℕ} {i : Fin ds.length} (h : ds.get i = densityAny) :
    leaves (generateDensity nan ds i) = [.mk .alwaysTrue .none false [] [] []] := by
  rw [generateDensity, if_neg (not_not.mpr h)]
  exact leaves_leaf (by decide)

/-- The rule on densities is flat. -/
theorem flat_generateDensity (ds : List ℕ) (i : Fin ds.length) :
    Flat (generateDensity nan ds i) := by
  unfold generateDensity
  split_ifs
  · exact .inr ⟨_, rfl, fun l hl => leaf_of_mem_densitySubrules hl⟩
  · exact .inl (by decide : ¬ Operator.alwaysTrue.isCombinator)

/-! ## What the leaves say of a device -/

/-- The density of the device lies between the break points to the neighbours, and its version is
below the first one with `DENSITY_ANY` if that is there. -/
structure DensityRange (nan : ℤ) (ds : List ℕ) (i : Fin ds.length) (target : SplitDescription) :
    Prop where
  sdk : densityAny ∈ ds → target.config.sdkVersion.toNat < sdkLollipop
  above : ∀ l, previous? ds i = some l →
    wrapInt (findMid nan l (ds.get i) - 1) < target.config.density.toNat
  below : ∀ h, ds[i.val + 1]? = some h → h ≠ densityAny →
    target.config.density.toNat < findMid nan (ds.get i) h

/-- All subrules on densities hold. -/
theorem densitySubrules_hold_iff (ds : List ℕ) (i : Fin ds.length) :
    (∀ l ∈ densitySubrules nan ds i, deviceSatisfies target l = true)
      ↔ DensityRange nan ds i target := by
  have hsdk : (∀ l ∈ (if densityAny ∈ ds then [longRule .lessThan .sdkVersion sdkLollipop] else []),
      deviceSatisfies target l = true)
        ↔ (densityAny ∈ ds → target.config.sdkVersion.toNat < sdkLollipop) := by
    by_cases h : densityAny ∈ ds
    · simp [h, longRule, deviceSatisfies]
    · simp [h]
  have habove : (∀ l ∈ aboveRule nan (ds.get i) (previous? ds i), deviceSatisfies target l = true)
        ↔ ∀ l, previous? ds i = some l →
          wrapInt (findMid nan l (ds.get i) - 1) < target.config.density.toNat := by
    cases previous? ds i with
    | none => simp [aboveRule]
    | some l => simp [aboveRule, longRule, deviceSatisfies]
  have hbelow : (∀ l ∈ belowRule nan (ds.get i) ds[i.val + 1]?, deviceSatisfies target l = true)
        ↔ ∀ h, ds[i.val + 1]? = some h → h ≠ densityAny →
          target.config.density.toNat < findMid nan (ds.get i) h := by
    cases ds[i.val + 1]? with
    | none => simp [belowRule]
    | some h =>
        by_cases hAny : h = densityAny
        · simp [belowRule, hAny]
        · simp [belowRule, hAny, longRule, deviceSatisfies]
  simp only [densitySubrules, List.forall_mem_append, hsdk, habove, hbelow]
  constructor
  · rintro ⟨⟨h₁, h₂⟩, h₃⟩
    exact ⟨h₁, h₂, h₃⟩
  · rintro ⟨h₁, h₂, h₃⟩
    exact ⟨⟨h₁, h₂⟩, h₃⟩

end Leaves

end AndroidSdk.SplitSelect
