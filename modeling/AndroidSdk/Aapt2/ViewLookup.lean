import Mathlib.Data.List.Find
import AndroidSdk.Aapt2.ProtoFlags
import AndroidSdk.Aapt2.TableView

/-! # Lookups in an entry of a view

`ResourceTableEntryView::FindValue` and `FindFlagDisabledValue` (`ResourceTable.cpp`): a lower bound
in one of the two vectors of the entry, which is compared with the end of a vector before what it
points to is tested. `FindFlagDisabledValue` searches the values behind disabled flags and compares
with the end of the others.

* **`ValueIterator`** — an iterator knows the vector it belongs to.
* **`findValue`**, **`findFlagDisabledValue`** — the lookups.
* **`findFlagDisabledValue_eq_iff`** — when the lookup behind disabled flags does. -/

namespace AndroidSdk.Aapt2

open Lib SplitSelect

variable {ι : Type}

/-! ## Iterators -/

/-- The vectors of an entry. -/
inductive ViewVector where
  | values | flagDisabledValues
  deriving DecidableEq

/-- An iterator of one of the vectors. A vector that never held an item has no storage, and both its
ends are null. -/
inductive ValueIterator where
  | null
  | at (vector : ViewVector) (index : ℕ)
  deriving DecidableEq

namespace ResourceTableEntryView

/-- The items of a vector. -/
def items (entry : ResourceTableEntryView ι) : ViewVector → List (ResourceConfigValue ι)
  | .values => entry.values
  | .flagDisabledValues => entry.flagDisabledValues

/-- `begin() + index`. -/
def iterator (entry : ResourceTableEntryView ι) (vector : ViewVector) (index : ℕ) : ValueIterator :=
  if entry.items vector = [] then .null else .at vector index

/-- `end()`. -/
def iteratorEnd (entry : ResourceTableEntryView ι) (vector : ViewVector) : ValueIterator :=
  entry.iterator vector (entry.items vector).length

/-- What an iterator points to; at the end of a vector, and null, that is nothing. -/
def deref (entry : ResourceTableEntryView ι) : ValueIterator → Option (ResourceConfigValue ι)
  | .null => none
  | .at vector index => (entry.items vector)[index]?

/-! ## The lookups -/

/-- `FindValue`: none if it dereferences the end of a vector. -/
def findValue (config : ResTableConfig) (product : Bytes) (entry : ResourceTableEntryView ι) :
    Option (Option (ResourceConfigValue ι)) :=
  let iter := entry.iterator .values
    (lowerBound (fun v => v.key.compare ⟨config, product⟩ == .lt) entry.values)
  if iter ≠ entry.iteratorEnd .values then do
    let value ← entry.deref iter
    if value.config.compare config = .eq ∧ value.product = product then some (some value)
    else some none
  else some none

end ResourceTableEntryView

/-- The value is behind the flag, for the configuration and the product. -/
def ResourceConfigValue.HasFlagKey (flag : FeatureFlagAttribute) (config : ResTableConfig)
    (product : Bytes) (v : ResourceConfigValue ι) : Prop :=
  v.value.bind Value.flag = some flag ∧ v.config.compare config = .eq ∧ v.product = product

instance (flag : FeatureFlagAttribute) (config : ResTableConfig) (product : Bytes)
    (v : ResourceConfigValue ι) : Decidable (v.HasFlagKey flag config product) := by
  unfold ResourceConfigValue.HasFlagKey
  infer_instance

namespace ResourceTableEntryView

/-- `FindFlagDisabledValue`: none if it dereferences the end of a vector. -/
def findFlagDisabledValue (flag : FeatureFlagAttribute) (config : ResTableConfig) (product : Bytes)
    (entry : ResourceTableEntryView ι) : Option (Option (ResourceConfigValue ι)) :=
  let iter := entry.iterator .flagDisabledValues
    (lowerBound (fun v => v.flagKey.compare ⟨config, product, flag⟩ == .lt) entry.flagDisabledValues)
  -- the end of the other vector
  if iter ≠ entry.iteratorEnd .values then do
    let value ← entry.deref iter
    if value.HasFlagKey flag config product then some (some value) else some none
  else some none

variable {entry : ResourceTableEntryView ι}

/-! ## Iterators of one and of two vectors -/

/-- What an iterator into a vector points to. -/
@[simp]
theorem deref_iterator (vector : ViewVector) (index : ℕ) :
    entry.deref (entry.iterator vector index) = (entry.items vector)[index]? := by
  unfold iterator
  split_ifs with hnil
  · rw [hnil, deref, List.getElem?_nil]
  · rfl

/-- Iterators of different vectors differ, unless both are null. -/
theorem iterator_flagDisabledValues_eq_iff (i j : ℕ) :
    entry.iterator .flagDisabledValues i = entry.iterator .values j
      ↔ entry.flagDisabledValues = [] ∧ entry.values = [] := by
  simp only [iterator, items]
  by_cases hdisabled : entry.flagDisabledValues = []
  · by_cases hvalues : entry.values = []
    · simp [hdisabled, hvalues]
    · simp [hdisabled, hvalues]
  · by_cases hvalues : entry.values = []
    · simp [hdisabled, hvalues]
    · simp [hdisabled, hvalues]

/-! ## What is found -/

/-- The test behind the lookup compares the keys of values that have a flag. -/
theorem hasFlagKey_iff {v : ResourceConfigValue ι} (hflag : (v.value.bind Value.flag).isSome)
    (flag : FeatureFlagAttribute) (config : ResTableConfig) (product : Bytes) :
    v.HasFlagKey flag config product ↔ v.flagKey.compare ⟨config, product, flag⟩ = .eq := by
  obtain ⟨f, hf⟩ := Option.isSome_iff_exists.mp hflag
  have hget : v.flag = f := by rw [ResourceConfigValue.flag, hf, Option.getD_some]
  have hname : compare f.name flag.name = .eq ↔ f.name = flag.name :=
    Std.LawfulEqCmp.compare_eq_iff_eq
  have hnegated : compare f.negated flag.negated = .eq ↔ f.negated = flag.negated :=
    Std.LawfulEqCmp.compare_eq_iff_eq
  have hflags : f = flag ↔ f.name = flag.name ∧ f.negated = flag.negated := by
    cases f
    cases flag
    exact FeatureFlagAttribute.mk.injEq .. ▸ Iff.rfl
  rw [ResourceConfigValue.HasFlagKey, hf, ConfigFlagKey.compare_eq_then, Ordering.then_eq_eq,
    Ordering.then_eq_eq, ConfigKey.compare_eq_iff, ResourceConfigValue.flagKey, hget, hname,
    hnegated, Option.some.injEq, hflags]
  exact and_comm

/-- **When `FindFlagDisabledValue` finds the value with the key**, or null if there is none, and
dereferences no end: some key behind the flags is not before the key, or the entry has no values at
all. -/
theorem findFlagDisabledValue_eq_iff
    (hflag : ∀ v ∈ entry.flagDisabledValues, (v.value.bind Value.flag).isSome)
    (hsorted : SortedBy ConfigFlagKey.compare ResourceConfigValue.flagKey entry.flagDisabledValues)
    (flag : FeatureFlagAttribute) (config : ResTableConfig) (product : Bytes) :
    entry.findFlagDisabledValue flag config product
        = some (entry.flagDisabledValues.find? fun v => v.HasFlagKey flag config product)
      ↔ (∃ v ∈ entry.flagDisabledValues, v.flagKey.compare ⟨config, product, flag⟩ ≠ .lt)
        ∨ entry.flagDisabledValues = [] ∧ entry.values = [] := by
  have hfind : (entry.flagDisabledValues.find? fun v => v.HasFlagKey flag config product)
      = findSorted ConfigFlagKey.compare ResourceConfigValue.flagKey ⟨config, product, flag⟩
        entry.flagDisabledValues := by
    rw [findSorted_eq_find? hsorted]
    refine List.find?_congr fun v hv => ?_
    simp [hasFlagKey_iff (hflag v hv), beq_eq_decide]
  rw [hfind, findSorted]
  obtain ⟨pre, post, heq, hbound, hpre, hpost⟩ := exists_split_lowerBound hsorted
    ⟨config, product, flag⟩
  have hat : entry.flagDisabledValues[pre.length]? = post.head? := by
    rw [heq, List.getElem?_append_right le_rfl, Nat.sub_self, List.head?_eq_getElem?]
  simp only [findFlagDisabledValue, hbound, hat, iteratorEnd, deref_iterator, ne_eq,
    iterator_flagDisabledValues_eq_iff, items]
  by_cases hempty : entry.flagDisabledValues = [] ∧ entry.values = []
  · -- both iterators are null
    have hnil : post = [] := (List.append_eq_nil_iff.mp (heq.symm.trans hempty.1)).2
    simp [hempty, hnil]
  · rw [if_pos hempty]
    cases post with
    | nil =>
        -- every key is before the one that is searched, and the end is dereferenced
        have hvalues : pre = [] → entry.values ≠ [] := fun hnil hvalues =>
          hempty ⟨by rw [heq, hnil, List.nil_append], hvalues⟩
        simpa [heq] using ⟨hpre, hvalues⟩
    | cons v post =>
        have hmem : v ∈ entry.flagDisabledValues :=
          heq ▸ List.mem_append_right pre List.mem_cons_self
        refine iff_of_true ?_ (.inl ⟨v, hmem, hpost v List.mem_cons_self⟩)
        rw [List.head?_cons, Option.bind_eq_bind, Option.bind_some]
        by_cases hkey : v.flagKey.compare ⟨config, product, flag⟩ = .eq
        · rw [if_pos ((hasFlagKey_iff (hflag v hmem) ..).mpr hkey)]
          simp [Option.filter, hkey]
        · rw [if_neg fun h => hkey ((hasFlagKey_iff (hflag v hmem) ..).mp h)]
          simp [Option.filter, hkey]

/-- A value behind the given flag, which is disabled. -/
def disabledValue (flag : Bytes) : ResourceConfigValue Unit :=
  ⟨.defaultConfig, [], some ⟨.string, (), false, true, some ⟨flag, false⟩, .disabled⟩, false⟩

/-- An entry with values behind two disabled flags. -/
def sampleDisabled : ResourceTableEntryView Unit where
  name := [97]
  id := some 0
  visibility := .default
  allowNew := none
  overlayableItem := none
  stagedId := none
  values := []
  flagDisabledValues := [disabledValue [102], disabledValue [103]]

/-- The second value is found. -/
theorem findFlagDisabledValue_sampleDisabled :
    sampleDisabled.findFlagDisabledValue ⟨[103], false⟩ ResTableConfig.defaultConfig []
      = some (sampleDisabled.flagDisabledValues.find? fun v =>
        v.HasFlagKey ⟨[103], false⟩ ResTableConfig.defaultConfig []) := by
  have hflag : ∀ v ∈ sampleDisabled.flagDisabledValues, (v.value.bind Value.flag).isSome := by decide
  have hsorted : SortedBy ConfigFlagKey.compare ResourceConfigValue.flagKey
      sampleDisabled.flagDisabledValues :=
    List.pairwise_pair.mpr (by decide)
  exact (findFlagDisabledValue_eq_iff hflag hsorted _ _ _).mpr
    (.inl ⟨disabledValue [103], by decide, by decide⟩)

/-- An entry with a value and none behind a flag. -/
def samplePlain : ResourceTableEntryView Unit :=
  { sampleDisabled with
    values := [⟨ResTableConfig.defaultConfig, [], some ⟨.string, (), false, true, none, .noFlag⟩,
      false⟩]
    flagDisabledValues := [] }

/-- The search behind flags dereferences the end of the empty vector. -/
theorem findFlagDisabledValue_samplePlain :
    SortedBy ConfigFlagKey.compare ResourceConfigValue.flagKey samplePlain.flagDisabledValues
      ∧ (samplePlain.flagDisabledValues.find? fun v =>
        v.HasFlagKey ⟨[102], false⟩ ResTableConfig.defaultConfig []) = none
      ∧ samplePlain.findFlagDisabledValue ⟨[102], false⟩ ResTableConfig.defaultConfig [] = none :=
  ⟨List.Pairwise.nil, rfl, by decide⟩

end ResourceTableEntryView

end AndroidSdk.Aapt2
