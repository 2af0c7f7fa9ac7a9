import AndroidSdk.Aapt2.ResourceTable

/-! # Splitting a table

`TableSplitter` distributes the values of a table over split tables, each with its constraints, and
leaves the others in the base (`TableSplitter.cpp`). A split looks its entry up by name, so entries
of one type that share a name are merged in a split, although their identifiers differ.

* **`SplitValueSelector.selectValues`** — the values of an entry that a split takes.
* **`splitTable`** — the base and the splits.
* **`ResourceTable.HoldsValue`** — a split holds a copy of a value under its name and identifier.
* **`SplitsLosslessly`** — nothing is lost or duplicated.
* **`splitsLosslessly_iff`** — exactly when this is so. -/

namespace AndroidSdk

/-- `CopyWithoutDensity`. -/
def SplitSelect.ResTableConfig.copyWithoutDensity (c : SplitSelect.ResTableConfig) :
    SplitSelect.ResTableConfig :=
  { c with density := 0 }

namespace Aapt2

open Lib SplitSelect

/-! ## Constraints and options -/

/-- `SplitConstraints`; the configurations are a sorted set. -/
structure SplitConstraints where
  configs : List ResTableConfig
  name : Bytes
  sorted : StrictlySortedBy ResTableConfig.compare id configs

/-- Whether a configuration is in the set. -/
def SplitConstraints.contains (constraints : SplitConstraints) (config : ResTableConfig) : Bool :=
  constraints.configs.any fun c => c.compare config = .eq

/-- `TableSplitterOptions`. -/
structure TableSplitterOptions where
  preferredDensities : List UInt16
  configFilter : Option (ResTableConfig → Bool)

/-- `VerifySplitConstraints`: no configuration appears in two splits. -/
def verifySplitConstraints : List SplitConstraints → Bool
  | [] => true
  | constraints :: rest =>
      rest.all (fun other => constraints.configs.all fun config => !other.contains config)
        && verifySplitConstraints rest

/-! ## Selecting values

A value is known by its pointer, which is modelled as its position in the entry. -/

variable {ι : Type}

/-- A pointer to a value of an entry: the value and its position. -/
abbrev ValuePtr (ι : Type) := ResourceConfigValue ι × ℕ

/-- `ConfigDensityGroups`. -/
abbrev ConfigDensityGroups (ι : Type) := List (ResTableConfig × List (ValuePtr ι))

/-- The values of an entry that pass the filter. -/
def remainingValues (options : TableSplitterOptions) (entry : ResourceEntry ι) :
    List (ValuePtr ι) :=
  entry.values.zipIdx.filter fun p =>
    match options.configFilter with
    | none => true
    | some configFilter => configFilter p.1.config

/-- The values with a density, in buckets of configurations that only differ in it. -/
def densityGroups (values : List (ValuePtr ι)) : ConfigDensityGroups ι :=
  values.foldl (fun groups p =>
    if p.1.config.density ≠ 0 then
      KeyedVector.alter ResTableConfig.compare p.1.config.copyWithoutDensity
        (fun bucket => bucket.getD [] ++ [p]) groups
    else groups) []

/-- The loop that finds the best of some values for a target. -/
def bestValue (data : LocaleData) (target : ResTableConfig) (relatedValues : List (ValuePtr ι)) :
    Option (ValuePtr ι) :=
  selectBest (fun _ => true)
    (fun thisValue bestValue => thisValue.1.config.isBetterThan data bestValue.1.config target)
    relatedValues

/-- `SplitValueSelector`. -/
structure SplitValueSelector where
  densityIndependentConfigs : List ResTableConfig
  densityDependentConfigToDensityMap : List (ResTableConfig × UInt16)

/-- The constructor of `SplitValueSelector`. -/
def SplitValueSelector.new (constraints : SplitConstraints) : SplitValueSelector where
  densityIndependentConfigs := constraints.configs.filter fun config => config.density = 0
  densityDependentConfigToDensityMap :=
    (constraints.configs.filter fun config => config.density ≠ 0).foldl (fun map config =>
      KeyedVector.alter ResTableConfig.compare config.copyWithoutDensity
        (fun _ => config.density) map) []

/-- The regular values that a split takes: those without a density that are still available. -/
def SplitValueSelector.regularValues (selector : SplitValueSelector) (values : List (ValuePtr ι))
    (claimed : List ℕ) : List (ValuePtr ι) :=
  values.filter fun p => p.1.config.density = 0 ∧ p.2 ∉ claimed
    ∧ selector.densityIndependentConfigs.any fun c => c.compare p.1.config = .eq

/-- The values with a density that a split takes: the best of each bucket that it asks for, claimed
or not. A bucket is never empty. -/
def SplitValueSelector.densityValues (data : LocaleData) (selector : SplitValueSelector)
    (groups : ConfigDensityGroups ι) : List (ValuePtr ι) :=
  groups.filterMap fun group =>
    (KeyedVector.find ResTableConfig.compare group.1
      selector.densityDependentConfigToDensityMap).bind fun density =>
        bestValue data { group.1 with density } group.2

/-- `SelectValues`: the selected values, and what is claimed then. -/
def SplitValueSelector.selectValues (data : LocaleData) (selector : SplitValueSelector)
    (groups : ConfigDensityGroups ι) (values : List (ValuePtr ι)) (claimed : List ℕ) :
    List (ValuePtr ι) × List ℕ :=
  let selected := selector.regularValues values claimed ++ selector.densityValues data groups
  (selected, claimed ++ selected.map Prod.snd)

/-- `MarkNonPreferredDensitiesAsClaimed`. -/
def markNonPreferredDensitiesAsClaimed (data : LocaleData) (preferredDensities : List UInt16)
    (groups : ConfigDensityGroups ι) (claimed : List ℕ) : List ℕ :=
  groups.foldl (fun claimed group =>
    let bestValues := preferredDensities.filterMap fun density =>
      bestValue data { group.1 with density } group.2
    claimed ++ (group.2.filter fun p => p.2 ∉ bestValues.map Prod.snd).map Prod.snd) claimed

/-! ## Copying to a split -/

/-- A value of a split is overwritten with a copy of a selected one. -/
def ResourceConfigValue.copyFrom (p : ValuePtr ι) (v : ResourceConfigValue ι) :
    ResourceConfigValue ι :=
  { v with value := p.1.value.map Value.clone }

/-- The entry of a split with the selected values: what was not set by an entry before is set, and
each value is copied. -/
def ResourceEntry.fill (entry : ResourceEntry ι) (selected : List (ValuePtr ι))
    (splitEntry : ResourceEntry ι) : ResourceEntry ι :=
  let splitEntry :=
    if splitEntry.id.isNone then
      { splitEntry with
        id := entry.id
        visibility := entry.visibility
        overlayableItem := entry.overlayableItem }
    else splitEntry
  { splitEntry with
    values := selected.foldl (fun values p =>
      updateFoundOrCreated ConfigKey.compare ResourceConfigValue.key ⟨p.1.config, p.1.product⟩
        (.new p.1.config p.1.product) (.copyFrom p) values) splitEntry.values }

/-- Create the same resource structure in the split, and copy the selected values. The package is
there already. -/
def copyToSplit (package : Bytes) (type : ResourceTableType ι) (entry : ResourceEntry ι)
    (selected : List (ValuePtr ι)) (split : ResourceTable ι) : ResourceTable ι :=
  if selected = [] then split
  else
    let onType (splitType : ResourceTableType ι) : ResourceTableType ι :=
      { splitType with
        visibilityLevel := type.visibilityLevel
        entries := updateFoundOrCreated compare ResourceEntry.name entry.name (.new entry.name)
          (entry.fill selected) splitType.entries }
    let onPackage (splitPackage : ResourceTablePackage ι) : ResourceTablePackage ι :=
      { splitPackage with
        types := updateFoundOrCreated ResourceNamedType.compare ResourceTableType.namedType
          type.namedType ⟨type.namedType, .kUndefined, []⟩ onType splitPackage.types }
    { split with
      packages := updateFoundOrCreated compare ResourceTablePackage.name package ⟨package, []⟩
        onPackage split.packages }

/-! ## The loops over the table -/

section Loops

variable (data : LocaleData) (options : TableSplitterOptions) (constraints : List SplitConstraints)

/-- What is done with an entry: every split takes its values, and what is not claimed stays. -/
def splitEntry (package : Bytes) (type : ResourceTableType ι) (splits : List (ResourceTable ι))
    (entry : ResourceEntry ι) : List (ResourceTable ι) × ResourceEntry ι :=
  let values := remainingValues options entry
  let groups := densityGroups values
  let (claimed, splits) := mapAccum (fun claimed (split : SplitConstraints × ResourceTable ι) =>
    let (selected, claimed) :=
      (SplitValueSelector.new split.1).selectValues data groups values claimed
    (claimed, copyToSplit package type entry selected split.2)) [] (constraints.zip splits)
  let claimed :=
    if options.preferredDensities ≠ [] then
      markNonPreferredDensitiesAsClaimed data options.preferredDensities groups claimed
    else claimed
  (splits, { entry with values := (values.filter fun p => p.2 ∉ claimed).map Prod.fst })

/-- What is done with a type; mipmaps are always kept. -/
def splitType (package : Bytes) (splits : List (ResourceTable ι)) (type : ResourceTableType ι) :
    List (ResourceTable ι) × ResourceTableType ι :=
  if type.namedType.type = .kMipmap then (splits, type)
  else
    let (splits, entries) :=
      mapAccum (splitEntry data options constraints package type) splits type.entries
    (splits, { type with entries })

/-- What is done with a package. -/
def splitPackage (splits : List (ResourceTable ι)) (package : ResourceTablePackage ι) :
    List (ResourceTable ι) × ResourceTablePackage ι :=
  let splits := splits.map (·.findOrCreatePackage package.name)
  let (splits, types) := mapAccum (splitType data options constraints package.name) splits
    package.types
  (splits, { package with types })

/-- `SplitTable`: the splits and the base. -/
def splitTable (table : ResourceTable ι) : List (ResourceTable ι) × ResourceTable ι :=
  let (splits, packages) := mapAccum (splitPackage data options constraints)
    (constraints.map fun _ => ⟨[]⟩) table.packages
  (splits, { table with packages })

end Loops

/-! ## Which values are selected -/

section Selected

variable {data : LocaleData} {options : TableSplitterOptions}

/-- The configuration passes the filter. -/
def TableSplitterOptions.Passes (options : TableSplitterOptions) (config : ResTableConfig) : Prop :=
  match options.configFilter with
  | none => True
  | some configFilter => configFilter config = true

/-- The values that remain are those of the entry that pass the filter. -/
theorem mem_remainingValues_iff {entry : ResourceEntry ι} {p : ValuePtr ι} :
    p ∈ remainingValues options entry ↔
      entry.values[p.2]? = some p.1 ∧ options.Passes p.1.config := by
  rw [remainingValues, List.mem_filter, List.mem_zipIdx_iff_getElem?, TableSplitterOptions.Passes]
  cases options.configFilter with
  | none => simp
  | some configFilter => simp

/-- A pointer is known by its position. -/
theorem remainingValues_inj {entry : ResourceEntry ι} {p q : ValuePtr ι}
    (hp : p ∈ remainingValues options entry) (hq : q ∈ remainingValues options entry)
    (h : p.2 = q.2) : p = q := by
  have hp := (mem_remainingValues_iff.mp hp).1
  have hq := (mem_remainingValues_iff.mp hq).1
  rw [h, hq] at hp
  exact Prod.ext (Option.some.inj hp).symm h

/-- The invariant of the buckets: their keys increase, and they hold values with a density under the
key without it, at least one each. -/
structure GroupsWf (values : List (ValuePtr ι)) (groups : ConfigDensityGroups ι) : Prop where
  keys : groups.Pairwise fun a b => a.1.compare b.1 = .lt
  mem : ∀ group ∈ groups, ∀ p ∈ group.2, p ∈ values ∧ p.1.config.density ≠ 0
    ∧ p.1.config.copyWithoutDensity.compare group.1 = .eq
  nonempty : ∀ group ∈ groups, group.2 ≠ []

/-- The buckets of an entry. -/
theorem groupsWf_densityGroups (values : List (ValuePtr ι)) :
    GroupsWf values (densityGroups values) := by
  unfold densityGroups
  -- the values seen so far are among all values
  suffices h : ∀ (l : List (ValuePtr ι)) (groups : ConfigDensityGroups ι), (∀ p ∈ l, p ∈ values) →
      GroupsWf values groups → GroupsWf values (l.foldl (fun groups p =>
        if p.1.config.density ≠ 0 then
          KeyedVector.alter ResTableConfig.compare p.1.config.copyWithoutDensity
            (fun bucket => bucket.getD [] ++ [p]) groups
        else groups) groups) from
    h values [] (fun p hp => hp) ⟨List.Pairwise.nil, (fun group hgroup => by cases hgroup),
      fun group hgroup => by cases hgroup⟩
  intro l
  induction l with
  | nil => exact fun groups _ h => h
  | cons p l ih =>
      intro groups hl hgroups
      rw [List.foldl_cons]
      refine ih _ (fun q hq => hl q (List.mem_cons_of_mem _ hq)) ?_
      split_ifs with hdensity
      · refine ⟨KeyedVector.keys_alter _ _ hgroups.keys, ?_, ?_⟩
        · intro group hgroup q hq
          have hp : p ∈ values := hl p List.mem_cons_self
          rcases KeyedVector.mem_alter hgroup with hgroup | rfl | ⟨bucket, hbucket, heq, hvalue⟩
          · exact hgroups.mem group hgroup q hq
          · obtain rfl : q = p := by simpa using hq
            exact ⟨hp, hdensity, Std.ReflCmp.compare_self⟩
          · rw [hvalue] at hq
            rcases List.mem_append.mp hq with hq | hq
            · exact hgroups.mem _ hbucket q hq
            · obtain rfl := List.mem_singleton.mp hq
              exact ⟨hp, hdensity, heq⟩
        · intro group hgroup
          rcases KeyedVector.mem_alter hgroup with hgroup | rfl | ⟨bucket, -, -, hvalue⟩
          · exact hgroups.nonempty group hgroup
          · exact List.cons_ne_nil _ _
          · rw [hvalue]
            exact List.append_ne_nil_of_right_ne_nil _ (List.cons_ne_nil _ _)
      · exact hgroups

/-- A value is in one bucket only. -/
theorem GroupsWf.eq_of_mem {values : List (ValuePtr ι)} {groups : ConfigDensityGroups ι}
    (h : GroupsWf values groups) {a b : ResTableConfig × List (ValuePtr ι)} (ha : a ∈ groups)
    (hb : b ∈ groups) {p : ValuePtr ι} (hpa : p ∈ a.2) (hpb : p ∈ b.2) : a = b := by
  have hkeys : a.1.compare b.1 = .eq := Std.TransCmp.eq_trans
    (Std.OrientedCmp.eq_symm (h.mem a ha p hpa).2.2) (h.mem b hb p hpb).2.2
  have hsorted : StrictlySortedBy ResTableConfig.compare Prod.fst groups := h.keys
  exact hsorted.eq_of_key_eq ha hb hkeys

/-- The values of an entry that a split takes, if nothing was claimed before. -/
def selectedValues (data : LocaleData) (options : TableSplitterOptions)
    (constraints : SplitConstraints) (entry : ResourceEntry ι) : List (ValuePtr ι) :=
  ((SplitValueSelector.new constraints).selectValues data
    (densityGroups (remainingValues options entry)) (remainingValues options entry) []).1

/-- The best value is one of those it was chosen from. -/
theorem mem_of_bestValue {target : ResTableConfig} {related : List (ValuePtr ι)} {p : ValuePtr ι}
    (h : bestValue data target related = some p) : p ∈ related :=
  (mem_of_selectBest h).1

/-- A value with a density that is taken is in a bucket. -/
theorem of_mem_densityValues {selector : SplitValueSelector} {values : List (ValuePtr ι)}
    {p : ValuePtr ι} (h : p ∈ selector.densityValues data (densityGroups values)) :
    p ∈ values ∧ p.1.config.density ≠ 0 := by
  obtain ⟨group, hgroup, hbest⟩ := List.mem_filterMap.mp h
  obtain ⟨density, -, hbest⟩ := Option.bind_eq_some_iff.mp hbest
  have hmem := (groupsWf_densityGroups values).mem group hgroup p (mem_of_bestValue hbest)
  exact ⟨hmem.1, hmem.2.1⟩

/-- What is selected is one of the values that remain. -/
theorem mem_of_mem_selectedValues {constraints : SplitConstraints} {entry : ResourceEntry ι}
    {p : ValuePtr ι} (h : p ∈ selectedValues data options constraints entry) :
    p ∈ remainingValues options entry := by
  rcases List.mem_append.mp h with h | h
  · exact (List.mem_filter.mp h).1
  · exact (of_mem_densityValues h).1

/-- **A value without a density is selected** iff its configuration is in the constraints. -/
theorem mem_selectedValues_iff {constraints : SplitConstraints} {entry : ResourceEntry ι}
    {p : ValuePtr ι} (hp : p ∈ remainingValues options entry) (hdensity : p.1.config.density = 0) :
    p ∈ selectedValues data options constraints entry ↔ constraints.contains p.1.config = true := by
  have hany : ((SplitValueSelector.new constraints).densityIndependentConfigs.any
      fun c => c.compare p.1.config = .eq) = constraints.contains p.1.config := by
    rw [Bool.eq_iff_iff, SplitConstraints.contains, List.any_eq_true, List.any_eq_true]
    constructor
    · rintro ⟨c, hc, heq⟩
      exact ⟨c, (List.mem_filter.mp hc).1, heq⟩
    · rintro ⟨c, hc, heq⟩
      refine ⟨c, List.mem_filter.mpr ⟨hc, ?_⟩, heq⟩
      have hsame := ((ResTableConfig.compare_eq_iff c p.1.config).mp (by simpa using heq)).2.1
      simp [hsame, hdensity]
  constructor
  · intro h
    rcases List.mem_append.mp h with h | h
    · have h := (List.mem_filter.mp h).2
      simp only [hany, decide_eq_true_iff] at h
      exact h.2.2
    · exact absurd hdensity (of_mem_densityValues h).2
  · intro h
    refine List.mem_append_left _ (List.mem_filter.mpr ⟨hp, ?_⟩)
    simp only [hany, decide_eq_true_iff]
    exact ⟨hdensity, List.not_mem_nil, h⟩

/-- What was claimed does not matter to a split that does not ask for it. -/
theorem selectValues_eq {constraints : SplitConstraints} {entry : ResourceEntry ι}
    {claimed : List ℕ}
    (h : ∀ p ∈ remainingValues options entry, p.1.config.density = 0 → p.2 ∈ claimed →
      constraints.contains p.1.config = false) :
    (SplitValueSelector.new constraints).selectValues data
        (densityGroups (remainingValues options entry)) (remainingValues options entry) claimed
      = (selectedValues data options constraints entry,
        claimed ++ (selectedValues data options constraints entry).map Prod.snd) := by
  have hregular : (SplitValueSelector.new constraints).regularValues
      (remainingValues options entry) claimed
        = (SplitValueSelector.new constraints).regularValues (remainingValues options entry) [] := by
    refine List.filter_congr fun p hp => ?_
    rw [decide_eq_decide]
    refine and_congr_right fun hdensity => ?_
    have hiff : p ∈ selectedValues data options constraints entry ↔ _ :=
      mem_selectedValues_iff hp hdensity
    constructor
    · exact fun hp => ⟨List.not_mem_nil, hp.2⟩
    · rintro ⟨-, hany⟩
      refine ⟨fun hclaimed => ?_, hany⟩
      have hselected : p ∈ selectedValues data options constraints entry :=
        List.mem_append_left _ (List.mem_filter.mpr ⟨hp, by simp [hdensity, hany]⟩)
      rw [hiff, h p hp hdensity hclaimed] at hselected
      cases hselected
  rw [SplitValueSelector.selectValues, hregular]
  rfl

end Selected

/-! ## The loop over the splits -/

section Splits

variable {data : LocaleData} {options : TableSplitterOptions}

/-- Verified constraints have no configuration in common. -/
theorem verifySplitConstraints_cons {constraints : SplitConstraints} {rest : List SplitConstraints}
    (h : verifySplitConstraints (constraints :: rest) = true) :
    (∀ other ∈ rest, ∀ config, constraints.contains config = true →
      other.contains config = false) ∧ verifySplitConstraints rest = true := by
  rw [verifySplitConstraints, Bool.and_eq_true, List.all_eq_true] at h
  refine ⟨fun other hother config hcontains => ?_, h.2⟩
  obtain ⟨c, hc, heq⟩ := List.any_eq_true.mp hcontains
  have hnot := List.all_eq_true.mp (h.1 other hother) c hc
  by_contra hne
  have hcontains' : other.contains config = true := by simpa using hne
  obtain ⟨o, ho, hoeq⟩ := List.any_eq_true.mp hcontains'
  -- a configuration equal to one of each
  have hco : other.contains c = true := by
    refine List.any_eq_true.mpr ⟨o, ho, ?_⟩
    simp only [decide_eq_true_iff] at heq hoeq ⊢
    exact Std.TransCmp.eq_trans hoeq (Std.OrientedCmp.eq_symm heq)
  rw [hco] at hnot
  cases hnot

/-- What the splits have claimed of an entry. -/
def claimedBySplits (data : LocaleData) (options : TableSplitterOptions)
    (constraints : List SplitConstraints) (entry : ResourceEntry ι) : List ℕ :=
  constraints.flatMap fun c => (selectedValues data options c entry).map Prod.snd

/-- The loop over the splits: each takes what it asks for. -/
theorem mapAccum_splits {constraints : List SplitConstraints}
    (hverify : verifySplitConstraints constraints = true) (package : Bytes)
    (type : ResourceTableType ι) (entry : ResourceEntry ι) (F : SplitConstraints → ResourceTable ι)
    {claimed : List ℕ}
    (hclaimed : ∀ p ∈ remainingValues options entry, p.1.config.density = 0 → p.2 ∈ claimed →
      ∀ c ∈ constraints, c.contains p.1.config = false) :
    mapAccum (fun claimed (split : SplitConstraints × ResourceTable ι) =>
      let (selected, claimed) := (SplitValueSelector.new split.1).selectValues data
        (densityGroups (remainingValues options entry)) (remainingValues options entry) claimed
      (claimed, copyToSplit package type entry selected split.2)) claimed
        (constraints.map fun c => (c, F c))
      = (claimed ++ claimedBySplits data options constraints entry,
        constraints.map fun c =>
          copyToSplit package type entry (selectedValues data options c entry) (F c)) := by
  induction constraints generalizing claimed with
  | nil => simp [mapAccum, claimedBySplits]
  | cons c rest ih =>
      obtain ⟨hdisjoint, hverify⟩ := verifySplitConstraints_cons hverify
      have hselect : (SplitValueSelector.new c).selectValues data
          (densityGroups (remainingValues options entry)) (remainingValues options entry) claimed
            = (selectedValues data options c entry,
              claimed ++ (selectedValues data options c entry).map Prod.snd) :=
        selectValues_eq fun p hp hdensity hmem =>
          hclaimed p hp hdensity hmem c List.mem_cons_self
      have hnext : ∀ p ∈ remainingValues options entry, p.1.config.density = 0 →
          p.2 ∈ claimed ++ (selectedValues data options c entry).map Prod.snd →
          ∀ other ∈ rest, other.contains p.1.config = false := by
        intro p hp hdensity hmem other hother
        rcases List.mem_append.mp hmem with hmem | hmem
        · exact hclaimed p hp hdensity hmem other (List.mem_cons_of_mem _ hother)
        · -- claimed by this split, so no other asks for it
          obtain ⟨q, hq, hpos⟩ := List.mem_map.mp hmem
          obtain rfl := remainingValues_inj (mem_of_mem_selectedValues hq) hp hpos
          exact hdisjoint other hother _ ((mem_selectedValues_iff hp hdensity).mp hq)
      rw [List.map_cons, mapAccum]
      simp only [hselect]
      rw [ih hverify hnext]
      simp [claimedBySplits]

/-- What is claimed of an entry in the end. -/
def claimedOf (data : LocaleData) (options : TableSplitterOptions)
    (constraints : List SplitConstraints) (entry : ResourceEntry ι) : List ℕ :=
  if options.preferredDensities ≠ [] then
    markNonPreferredDensitiesAsClaimed data options.preferredDensities
      (densityGroups (remainingValues options entry))
      (claimedBySplits data options constraints entry)
  else claimedBySplits data options constraints entry

/-- The entry that stays in the base. -/
def baseEntry (data : LocaleData) (options : TableSplitterOptions)
    (constraints : List SplitConstraints) (entry : ResourceEntry ι) : ResourceEntry ι :=
  { entry with
    values := ((remainingValues options entry).filter fun p =>
      p.2 ∉ claimedOf data options constraints entry).map Prod.fst }

/-- **What is done with an entry**, if the constraints are verified. -/
theorem splitEntry_eq {constraints : List SplitConstraints}
    (hverify : verifySplitConstraints constraints = true) (package : Bytes)
    (type : ResourceTableType ι) (entry : ResourceEntry ι)
    (F : SplitConstraints → ResourceTable ι) :
    splitEntry data options constraints package type (constraints.map F) entry
      = (constraints.map fun c =>
          copyToSplit package type entry (selectedValues data options c entry) (F c),
        baseEntry data options constraints entry) := by
  have hzip : ∀ l : List SplitConstraints, l.zip (l.map F) = l.map fun c => (c, F c) := by
    intro l
    induction l with
    | nil => rfl
    | cons c l ih => rw [List.map_cons, List.zip_cons_cons, ih, List.map_cons]
  rw [splitEntry, hzip, mapAccum_splits hverify package type entry F (fun p _ _ hmem => by cases hmem)]
  rfl

end Splits

/-! ## What a split holds under a name -/

section View

/-- The entry under a name, in a table that has at most one. -/
def ResourceTable.entryAt (split : ResourceTable ι) (name : ResourceName) :
    Option (ResourceEntry ι) :=
  (split.findPackage name.package).bind fun package =>
    (package.findType name.type).bind fun type => type.findEntry name.entry

/-- The invariant of a split: everything is strictly sorted, entries by their names. -/
structure SplitWf (split : ResourceTable ι) : Prop where
  packages : StrictlySortedBy compare ResourceTablePackage.name split.packages
  types : ∀ package ∈ split.packages,
    StrictlySortedBy ResourceNamedType.compare ResourceTableType.namedType package.types
  entries : ∀ package ∈ split.packages, ∀ type ∈ package.types,
    StrictlySortedBy compare ResourceEntry.name type.entries

/-- The packages after one is created are those before and an empty one. -/
theorem mem_findOrCreatePackage {split : ResourceTable ι} (h : SplitWf split) {package : Bytes}
    {p : ResourceTablePackage ι} (hp : p ∈ (split.findOrCreatePackage package).packages) :
    p ∈ split.packages ∨ p = ⟨package, []⟩ := by
  rcases mem_updateFoundOrCreated h.packages hp with hp | ⟨q, ⟨hq, -⟩ | hq, hpq⟩
  · exact .inl hp
  · exact .inl (hpq ▸ hq)
  · exact .inr (hpq.trans hq)

/-- Creating a package keeps the invariant. -/
theorem SplitWf.findOrCreatePackage {split : ResourceTable ι} (h : SplitWf split)
    (package : Bytes) : SplitWf (split.findOrCreatePackage package) := by
  refine ⟨h.packages.updateFoundOrCreated (compare_bytes_self _) (fun _ hx => hx), ?_, ?_⟩
  · intro p hp
    rcases mem_findOrCreatePackage h hp with hp | rfl
    · exact h.types p hp
    · exact List.Pairwise.nil
  · intro p hp t ht
    rcases mem_findOrCreatePackage h hp with hp | rfl
    · exact h.entries p hp t ht
    · cases ht

/-- Creating a package changes no entry. -/
theorem entryAt_findOrCreatePackage {split : ResourceTable ι} (h : SplitWf split) (package : Bytes)
    (name : ResourceName) :
    (split.findOrCreatePackage package).entryAt name = split.entryAt name := by
  have hfind : (split.findOrCreatePackage package).findPackage name.package
      = if compare name.package package = .eq then
          some ((split.findPackage package).getD ⟨package, []⟩)
        else split.findPackage name.package :=
    findSorted_updateFoundOrCreated h.packages (compare_bytes_self package) (fun _ hx => hx) _
  rw [ResourceTable.entryAt, ResourceTable.entryAt, hfind]
  split_ifs with heq
  · obtain rfl : name.package = package := Std.LawfulEqCmp.compare_eq_iff_eq.mp heq
    cases split.findPackage name.package with
    | some p => rfl
    | none => rfl
  · rfl

variable {package : Bytes} {type : ResourceTableType ι} {entry : ResourceEntry ι}
  {selected : List (ValuePtr ι)}

/-- A copied entry keeps its name. -/
theorem name_fill (splitEntry : ResourceEntry ι) :
    (entry.fill selected splitEntry).name = splitEntry.name := by
  unfold ResourceEntry.fill
  dsimp only
  split_ifs <;> rfl

/-- The update of a type of a split. -/
def fillType (type : ResourceTableType ι) (entry : ResourceEntry ι) (selected : List (ValuePtr ι))
    (splitType : ResourceTableType ι) : ResourceTableType ι :=
  { splitType with
    visibilityLevel := type.visibilityLevel
    entries := updateFoundOrCreated compare ResourceEntry.name entry.name (.new entry.name)
      (entry.fill selected) splitType.entries }

/-- The update of a package of a split. -/
def fillPackage (type : ResourceTableType ι) (entry : ResourceEntry ι)
    (selected : List (ValuePtr ι)) (splitPackage : ResourceTablePackage ι) :
    ResourceTablePackage ι :=
  { splitPackage with
    types := updateFoundOrCreated ResourceNamedType.compare ResourceTableType.namedType
      type.namedType ⟨type.namedType, .kUndefined, []⟩ (fillType type entry selected)
      splitPackage.types }

/-- Copying, by its updates. -/
theorem copyToSplit_eq (split : ResourceTable ι) :
    copyToSplit package type entry selected split = if selected = [] then split
      else { split with
        packages := updateFoundOrCreated compare ResourceTablePackage.name package ⟨package, []⟩
          (fillPackage type entry selected) split.packages } := rfl

/-- The update of a type keeps its entries sorted. -/
theorem sorted_fillType {t : ResourceTableType ι}
    (h : StrictlySortedBy compare ResourceEntry.name t.entries) :
    StrictlySortedBy compare ResourceEntry.name (fillType type entry selected t).entries :=
  h.updateFoundOrCreated (compare_bytes_self _) fun e he => by rwa [name_fill]

/-- The update of a package keeps its types sorted. -/
theorem sorted_fillPackage {p : ResourceTablePackage ι}
    (h : StrictlySortedBy ResourceNamedType.compare ResourceTableType.namedType p.types) :
    StrictlySortedBy ResourceNamedType.compare ResourceTableType.namedType
      (fillPackage type entry selected p).types :=
  h.updateFoundOrCreated (compare_namedType_self _) fun _ ht => ht

/-- The types after the update of a package: each has sorted entries. -/
theorem sorted_of_mem_fillPackage {p : ResourceTablePackage ι}
    (htypes : StrictlySortedBy ResourceNamedType.compare ResourceTableType.namedType p.types)
    (hentries : ∀ t ∈ p.types, StrictlySortedBy compare ResourceEntry.name t.entries)
    {t : ResourceTableType ι} (ht : t ∈ (fillPackage type entry selected p).types) :
    StrictlySortedBy compare ResourceEntry.name t.entries := by
  rcases mem_updateFoundOrCreated htypes ht with ht | ⟨u, ⟨hu, -⟩ | rfl, rfl⟩
  · exact hentries t ht
  · exact sorted_fillType (hentries u hu)
  · exact sorted_fillType List.Pairwise.nil

/-- Copying keeps the invariant. -/
theorem SplitWf.copyToSplit {split : ResourceTable ι} (h : SplitWf split) :
    SplitWf (copyToSplit package type entry selected split) := by
  rw [copyToSplit_eq]
  split_ifs
  · exact h
  · refine ⟨h.packages.updateFoundOrCreated (compare_bytes_self _) (fun _ hx => hx), ?_, ?_⟩
    · intro p hp
      rcases mem_updateFoundOrCreated h.packages hp with hp | ⟨q, ⟨hq, -⟩ | rfl, rfl⟩
      · exact h.types p hp
      · exact sorted_fillPackage (h.types q hq)
      · exact sorted_fillPackage List.Pairwise.nil
    · intro p hp t ht
      rcases mem_updateFoundOrCreated h.packages hp with hp | ⟨q, ⟨hq, -⟩ | rfl, rfl⟩
      · exact h.entries p hp t ht
      · exact sorted_of_mem_fillPackage (h.types q hq) (h.entries q hq) ht
      · exact sorted_of_mem_fillPackage (p := ⟨package, []⟩) List.Pairwise.nil
          (fun t ht => by cases ht) ht

/-- What the update does to the entries of a type. -/
theorem findEntry_fillType {t : ResourceTableType ι}
    (h : StrictlySortedBy compare ResourceEntry.name t.entries) (name : Bytes) :
    (fillType type entry selected t).findEntry name = if name = entry.name then
        some (entry.fill selected ((t.findEntry name).getD (.new entry.name)))
      else t.findEntry name := by
  have hnew : compare (ResourceEntry.new (ι := ι) entry.name).name entry.name = .eq :=
    compare_bytes_self entry.name
  have hfind : (fillType type entry selected t).findEntry name
      = if compare name entry.name = .eq then
          some (entry.fill selected ((t.findEntry entry.name).getD (.new entry.name)))
        else t.findEntry name :=
    findSorted_updateFoundOrCreated (f := entry.fill selected) h hnew
      (fun e he => by rwa [name_fill]) name
  rw [hfind]
  by_cases hname : name = entry.name
  · rw [if_pos hname, hname, if_pos (compare_bytes_self _)]
  · rw [if_neg hname, if_neg fun h => hname (Std.LawfulEqCmp.compare_eq_iff_eq.mp h)]

/-- What the update does to the types of a package. -/
theorem findType_fillPackage {p : ResourceTablePackage ι}
    (h : StrictlySortedBy ResourceNamedType.compare ResourceTableType.namedType p.types)
    (t : ResourceNamedType) :
    (fillPackage type entry selected p).findType t = if t = type.namedType then
        some (fillType type entry selected ((p.findType t).getD ⟨type.namedType, .kUndefined, []⟩))
      else p.findType t := by
  have hnew : ResourceNamedType.compare (ResourceTableType.mk (ι := ι) type.namedType .kUndefined
      []).namedType type.namedType = .eq := compare_namedType_self type.namedType
  have hfind : (fillPackage type entry selected p).findType t
      = if t.compare type.namedType = .eq then
          some (fillType type entry selected
            ((p.findType type.namedType).getD ⟨type.namedType, .kUndefined, []⟩))
        else p.findType t :=
    findSorted_updateFoundOrCreated (f := fillType type entry selected) h hnew (fun _ ht => ht) t
  rw [hfind]
  by_cases ht : t = type.namedType
  · rw [if_pos ht, ht, if_pos (compare_namedType_self _)]
  · rw [if_neg ht, if_neg fun h => ht ((ResourceNamedType.compare_eq_iff _ _).mp h)]

/-- What the update does to the entries of a package. -/
theorem findType_bind_fillPackage {p : ResourceTablePackage ι}
    (htypes : StrictlySortedBy ResourceNamedType.compare ResourceTableType.namedType p.types)
    (hentries : ∀ t ∈ p.types, StrictlySortedBy compare ResourceEntry.name t.entries)
    (t : ResourceNamedType) (name : Bytes) :
    ((fillPackage type entry selected p).findType t).bind (·.findEntry name)
      = if t = type.namedType ∧ name = entry.name then
          some (entry.fill selected
            (((p.findType t).bind (·.findEntry name)).getD (.new entry.name)))
        else (p.findType t).bind (·.findEntry name) := by
  rw [findType_fillPackage htypes]
  by_cases ht : t = type.namedType
  · rw [if_pos ht, Option.bind_some]
    -- the type that was there, or a new one without entries
    cases hfind : p.findType t with
    | none =>
        rw [Option.getD_none,
          findEntry_fillType (t := ⟨type.namedType, .kUndefined, []⟩) List.Pairwise.nil]
        simp [ht, ResourceTableType.findEntry, findSorted]
    | some u =>
        rw [Option.getD_some, findEntry_fillType (hentries u (mem_of_findSorted hfind).1)]
        simp [ht]
  · rw [if_neg ht, if_neg fun h => ht h.1]

/-- **What copying does to the entries of a split**: the one under the name is filled, or a new one
is. -/
theorem entryAt_copyToSplit {split : ResourceTable ι} (h : SplitWf split) (name : ResourceName) :
    (copyToSplit package type entry selected split).entryAt name
      = if selected ≠ [] ∧ name = ⟨package, type.namedType, entry.name⟩ then
          some (entry.fill selected ((split.entryAt name).getD (.new entry.name)))
        else split.entryAt name := by
  rw [copyToSplit_eq]
  by_cases hselected : selected = []
  · rw [if_pos hselected, if_neg (fun h => h.1 hselected)]
  rw [if_neg hselected]
  obtain ⟨np, nt, ne⟩ := name
  have hnew : compare (ResourceTablePackage.mk (ι := ι) package []).name package = .eq :=
    compare_bytes_self package
  have hfind : ResourceTable.findPackage np
        { split with
          packages := updateFoundOrCreated compare ResourceTablePackage.name package ⟨package, []⟩
            (fillPackage type entry selected) split.packages }
      = if compare np package = .eq then
          some (fillPackage type entry selected ((split.findPackage package).getD ⟨package, []⟩))
        else split.findPackage np :=
    findSorted_updateFoundOrCreated (f := fillPackage type entry selected) h.packages hnew
      (fun _ hx => hx) np
  rw [ResourceTable.entryAt, ResourceTable.entryAt, hfind]
  by_cases hpackage : np = package
  · subst hpackage
    rw [if_pos (compare_bytes_self np), Option.bind_some]
    -- the package that was there, or a new one without types
    cases hold : split.findPackage np with
    | none =>
        rw [Option.getD_none, 
          findType_bind_fillPackage (p := ⟨np, []⟩) List.Pairwise.nil (fun t ht => by cases ht)]
        simp [hselected]
        rfl
    | some p =>
        have hp := (mem_of_findSorted hold).1
        rw [Option.getD_some, findType_bind_fillPackage (h.types p hp) (h.entries p hp)]
        simp [hselected]
  · rw [if_neg (fun heq => hpackage (Std.LawfulEqCmp.compare_eq_iff_eq.mp heq)),
      if_neg (by simp [hpackage])]

end View

/-! ## The run of a split -/

section Runs

variable {data : LocaleData} {options : TableSplitterOptions}

/-- What a split takes from a type. -/
def runType (data : LocaleData) (options : TableSplitterOptions) (constraints : SplitConstraints)
    (package : Bytes) (split : ResourceTable ι) (type : ResourceTableType ι) : ResourceTable ι :=
  if type.namedType.type = .kMipmap then split
  else type.entries.foldl (fun split entry =>
    copyToSplit package type entry (selectedValues data options constraints entry) split) split

/-- What a split takes from a package. -/
def runPackage (data : LocaleData) (options : TableSplitterOptions)
    (constraints : SplitConstraints) (split : ResourceTable ι) (package : ResourceTablePackage ι) :
    ResourceTable ι :=
  package.types.foldl (runType data options constraints package.name)
    (split.findOrCreatePackage package.name)

/-- The split of a table for some constraints, without the other splits. -/
def runSplit (data : LocaleData) (options : TableSplitterOptions) (constraints : SplitConstraints)
    (table : ResourceTable ι) : ResourceTable ι :=
  table.packages.foldl (runPackage data options constraints) ⟨[]⟩

/-- The type that stays in the base. -/
def baseType (data : LocaleData) (options : TableSplitterOptions)
    (constraints : List SplitConstraints) (type : ResourceTableType ι) : ResourceTableType ι :=
  if type.namedType.type = .kMipmap then type
  else { type with entries := type.entries.map (baseEntry data options constraints) }

/-- The package that stays in the base. -/
def basePackage (data : LocaleData) (options : TableSplitterOptions)
    (constraints : List SplitConstraints) (package : ResourceTablePackage ι) :
    ResourceTablePackage ι :=
  { package with types := package.types.map (baseType data options constraints) }

/-- The table that stays in the base. -/
def baseTable (data : LocaleData) (options : TableSplitterOptions)
    (constraints : List SplitConstraints) (table : ResourceTable ι) : ResourceTable ι :=
  { table with packages := table.packages.map (basePackage data options constraints) }

/-- The loop over a type. -/
theorem splitType_eq {constraints : List SplitConstraints}
    (hverify : verifySplitConstraints constraints = true) (package : Bytes)
    (F : SplitConstraints → ResourceTable ι) (type : ResourceTableType ι) :
    splitType data options constraints package (constraints.map F) type
      = (constraints.map fun c => runType data options c package (F c) type,
        baseType data options constraints type) := by
  unfold splitType runType baseType
  split_ifs with hmipmap
  · rfl
  · rw [mapAccum_family (g := fun c split entry => copyToSplit package type entry
      (selectedValues data options c entry) split) fun F entry =>
        splitEntry_eq hverify package type entry F]

/-- The loop over a package. -/
theorem splitPackage_eq {constraints : List SplitConstraints}
    (hverify : verifySplitConstraints constraints = true) (F : SplitConstraints → ResourceTable ι)
    (package : ResourceTablePackage ι) :
    splitPackage data options constraints (constraints.map F) package
      = (constraints.map fun c => runPackage data options c (F c) package,
        basePackage data options constraints package) := by
  rw [splitPackage, List.map_map, 
    mapAccum_family (g := fun c => runType data options c package.name)
      (splitType_eq hverify package.name)]
  rfl

/-- **The splits do not depend on each other**, if the constraints are verified. -/
theorem splitTable_eq {constraints : List SplitConstraints}
    (hverify : verifySplitConstraints constraints = true) (table : ResourceTable ι) :
    splitTable data options constraints table
      = (constraints.map fun c => runSplit data options c table,
        baseTable data options constraints table) := by
  rw [splitTable, mapAccum_family (g := fun c => runPackage data options c)
    (splitPackage_eq hverify)]
  rfl

/-- A split takes values of an entry. -/
def Draws (data : LocaleData) (options : TableSplitterOptions) (constraints : SplitConstraints)
    (e : ResourceName × ResourceEntry ι) : Prop :=
  e.1.type.type ≠ .kMipmap ∧ selectedValues data options constraints e.2 ≠ []

instance (data : LocaleData) (options : TableSplitterOptions) (constraints : SplitConstraints)
    (e : ResourceName × ResourceEntry ι) : Decidable (Draws data options constraints e) :=
  inferInstanceAs (Decidable (_ ∧ _))

/-- What an entry of the table does to the entry of a split under a name. -/
def viewStep (data : LocaleData) (options : TableSplitterOptions) (constraints : SplitConstraints)
    (name : ResourceName) (acc : Option (ResourceEntry ι)) (e : ResourceName × ResourceEntry ι) :
    Option (ResourceEntry ι) :=
  if Draws data options constraints e ∧ name = e.1 then
    some (e.2.fill (selectedValues data options constraints e.2) (acc.getD (.new e.2.name)))
  else acc

variable {constraints : SplitConstraints}

/-- The run over a type, seen under a name. -/
theorem runType_view (name : ResourceName) (package : Bytes) (split : ResourceTable ι)
    (type : ResourceTableType ι) (h : SplitWf split) :
    SplitWf (runType data options constraints package split type)
      ∧ (runType data options constraints package split type).entryAt name
        = (type.namedEntries package).foldl (viewStep data options constraints name)
            (split.entryAt name) := by
  unfold runType
  split_ifs with hmipmap
  · -- mipmaps are drawn by no split
    refine ⟨h, ?_⟩
    rw [ResourceTableType.namedEntries, List.foldl_map]
    symm
    apply List.foldl_fixed'
    intro acc
    exact if_neg fun hdraws => hdraws.1.1 hmipmap
  · rw [ResourceTableType.namedEntries, List.map_eq_flatMap]
    refine foldl_view (fun split => split.entryAt name) ?_ h type.entries
    intro s entry hs
    refine ⟨hs.copyToSplit, ?_⟩
    rw [entryAt_copyToSplit hs, List.foldl_cons, List.foldl_nil, viewStep]
    refine if_congr ?_ rfl rfl
    exact and_congr_left fun _ => (and_iff_right hmipmap).symm

/-- The run over a package, seen under a name. -/
theorem runPackage_view (name : ResourceName) (split : ResourceTable ι)
    (package : ResourceTablePackage ι) (h : SplitWf split) :
    SplitWf (runPackage data options constraints split package)
      ∧ (runPackage data options constraints split package).entryAt name
        = package.namedEntries.foldl (viewStep data options constraints name)
            (split.entryAt name) := by
  rw [← entryAt_findOrCreatePackage h package.name]
  exact foldl_view (fun split => split.entryAt name) (runType_view name package.name)
    (h.findOrCreatePackage package.name) package.types

/-- **What a split holds under a name**: what the loop over the entries of the table leaves. -/
theorem runSplit_view (name : ResourceName) (table : ResourceTable ι) :
    SplitWf (runSplit data options constraints table)
      ∧ (runSplit data options constraints table).entryAt name
        = table.namedEntries.foldl (viewStep data options constraints name) none :=
  foldl_view (fun split : ResourceTable ι => split.entryAt name) (runPackage_view name)
    (s := ⟨[]⟩) ⟨List.Pairwise.nil, (fun p hp => by cases hp), fun p hp => by cases hp⟩
    table.packages

end Runs

/-! ## What a table holds -/

section Holds

variable {data : LocaleData} {options : TableSplitterOptions} {constraints : SplitConstraints}

/-- The table holds the value of a resource, or a copy of it, under the name and the identifier of
the resource. -/
def ResourceTable.HoldsValue (table : ResourceTable ι) (name : ResourceName)
    (id : Option ResourceId) (v : ResourceConfigValue ι) : Prop :=
  ∃ e ∈ table.namedEntries, e.1 = name ∧ e.2.id = id ∧ ∃ w ∈ e.2.values,
    w.key.compare v.key = .eq ∧ (w.value = v.value ∨ w.value = v.value.map Value.clone)

/-- A split has at most one entry under a name. -/
theorem SplitWf.mem_namedEntries_iff_entryAt {split : ResourceTable ι} (h : SplitWf split)
    {e : ResourceName × ResourceEntry ι} :
    e ∈ split.namedEntries ↔ split.entryAt e.1 = some e.2 := by
  rw [mem_namedEntries_iff, ResourceTable.entryAt]
  constructor
  · rintro ⟨package, hpackage, type, htype, hentry, hname⟩
    have hp : split.findPackage e.1.package = some package :=
      (findSorted_eq_some_iff h.packages).mpr ⟨hpackage, by rw [hname]; exact compare_bytes_self _⟩
    have ht : package.findType e.1.type = some type :=
      (findSorted_eq_some_iff (h.types package hpackage)).mpr
        ⟨htype, by rw [hname]; exact compare_namedType_self _⟩
    have he : type.findEntry e.1.entry = some e.2 :=
      (findSorted_eq_some_iff (h.entries package hpackage type htype)).mpr
        ⟨hentry, by rw [hname]; exact compare_bytes_self _⟩
    rw [hp, Option.bind_some, ht, Option.bind_some, he]
  · intro hentry
    obtain ⟨package, hp, hentry⟩ := Option.bind_eq_some_iff.mp hentry
    obtain ⟨type, ht, he⟩ := Option.bind_eq_some_iff.mp hentry
    obtain ⟨hp, hpname⟩ := mem_of_findSorted hp
    obtain ⟨ht, htname⟩ := mem_of_findSorted ht
    obtain ⟨he, hename⟩ := mem_of_findSorted he
    refine ⟨package, hp, type, ht, he, ?_⟩
    rw [Std.LawfulEqCmp.compare_eq_iff_eq.mp hpname,
      (ResourceNamedType.compare_eq_iff _ _).mp htname,
      Std.LawfulEqCmp.compare_eq_iff_eq.mp hename]

/-- A value of an entry is known by its configuration and product. -/
theorem remainingValues_eq_of_key {entry : ResourceEntry ι} (h : entry.Wf) {p q : ValuePtr ι}
    (hp : p ∈ remainingValues options entry) (hq : q ∈ remainingValues options entry)
    (hkey : p.1.key.compare q.1.key = .eq) : p = q := by
  refine remainingValues_inj hp hq ?_
  obtain ⟨hi, hp⟩ := List.getElem?_eq_some_iff.mp (mem_remainingValues_iff.mp hp).1
  obtain ⟨hj, hq⟩ := List.getElem?_eq_some_iff.mp (mem_remainingValues_iff.mp hq).1
  have hpairs := List.pairwise_iff_getElem.mp h.values
  rcases Nat.lt_trichotomy p.2 q.2 with hlt | heq | hlt
  · have hlt := hpairs p.2 q.2 hi hj hlt
    rw [hp, hq, hkey] at hlt
    cases hlt
  · exact heq
  · have hlt := hpairs q.2 p.2 hj hi hlt
    rw [hp, hq, Std.OrientedCmp.eq_symm hkey] at hlt
    cases hlt

/-- Entries with one name differ in their identifiers. -/
def ResourceTable.DistinctEntries (table : ResourceTable ι) : Prop :=
  table.namedEntries.Pairwise fun a b => a.1 = b.1 → a.2.id ≠ b.2.id

/-- A name and an identifier belong to one entry. -/
theorem ResourceTable.DistinctEntries.eq_of_name_of_id {table : ResourceTable ι}
    (h : table.DistinctEntries) {a b : ResourceName × ResourceEntry ι}
    (ha : a ∈ table.namedEntries) (hb : b ∈ table.namedEntries) (hname : a.1 = b.1)
    (hid : a.2.id = b.2.id) : a = b := by
  have hall : ∀ x ∈ table.namedEntries, ∀ y ∈ table.namedEntries,
      x.1 = y.1 → x.2.id = y.2.id → x = y := by
    apply List.Pairwise.forall_of_forall_of_flip
    · exact fun x _ _ _ => rfl
    · exact h.imp fun hne hname hid => absurd hid (hne hname)
    · exact h.imp fun hne hname hid => absurd hid.symm (hne hname.symm)
  exact hall a ha b hb hname hid

end Holds

/-! ## Where a value is -/

section Places

variable {data : LocaleData} {options : TableSplitterOptions} {constraints : SplitConstraints}
  {table : ResourceTable ι} {e : ResourceName × ResourceEntry ι} {p : ValuePtr ι}

/-- The entries that a split takes values of have different names. -/
def SharesNoName (data : LocaleData) (options : TableSplitterOptions)
    (constraints : SplitConstraints) (table : ResourceTable ι) : Prop :=
  (table.namedEntries.filter (Draws data options constraints ·)).Pairwise fun a b => a.1 ≠ b.1

/-- In the entries that a split takes values of, no two values that pass the filter have the same
configuration and product. -/
def DistinctValues (data : LocaleData) (options : TableSplitterOptions)
    (constraints : SplitConstraints) (table : ResourceTable ι) : Prop :=
  ∀ e ∈ table.namedEntries, Draws data options constraints e →
    ∀ p ∈ remainingValues options e.2, ∀ q ∈ remainingValues options e.2,
      p.1.key.compare q.1.key = .eq → p = q

/-- So it is in a well-formed table. -/
theorem ResourceTable.Wf.distinctValues (h : table.Wf) :
    DistinctValues data options constraints table :=
  fun _ he _ _ hp _ hq => remainingValues_eq_of_key (h.entry he) hp hq

/-- Entries that are not drawn, or have other names, do not matter. -/
theorem foldl_viewStep_eq_self {name : ResourceName} {l : List (ResourceName × ResourceEntry ι)}
    (h : ∀ x ∈ l, Draws data options constraints x → name ≠ x.1)
    (acc : Option (ResourceEntry ι)) :
    l.foldl (viewStep data options constraints name) acc = acc := by
  induction l with
  | nil => rfl
  | cons x l ih =>
      have hx : viewStep data options constraints name acc x = acc :=
        if_neg fun hdraws => h x List.mem_cons_self hdraws.1 hdraws.2
      rw [List.foldl_cons, hx]
      exact ih fun y hy => h y (List.mem_cons_of_mem _ hy)

/-- What a split holds under the name of an entry that it draws on alone. -/
theorem entryAt_runSplit_of_draws (h : SharesNoName data options constraints table)
    (he : e ∈ table.namedEntries) (hdraws : Draws data options constraints e) :
    (runSplit data options constraints table).entryAt e.1
      = some (e.2.fill (selectedValues data options constraints e.2) (.new e.2.name)) := by
  obtain ⟨pre, post, hsplit⟩ := List.append_of_mem he
  rw [SharesNoName, hsplit, List.filter_append, List.filter_cons_of_pos (by simpa using hdraws),
    List.pairwise_append, List.pairwise_cons] at h
  obtain ⟨-, ⟨hpost, -⟩, hpre⟩ := h
  rw [(runSplit_view e.1 table).2, hsplit, List.foldl_append, List.foldl_cons,
    foldl_viewStep_eq_self, foldl_viewStep_eq_self]
  · exact if_pos ⟨hdraws, rfl⟩
  · intro x hx hd heq
    exact hpre x (List.mem_filter.mpr ⟨hx, by simpa using hd⟩) e List.mem_cons_self heq.symm
  · intro x hx hd heq
    exact hpost x (List.mem_filter.mpr ⟨hx, by simpa using hd⟩) heq

/-- What a split holds under a name comes from an entry with that name. -/
theorem exists_draws_of_entryAt {name : ResourceName} {x : ResourceEntry ι}
    (h : (runSplit data options constraints table).entryAt name = some x) :
    ∃ d ∈ table.namedEntries, Draws data options constraints d ∧ name = d.1 := by
  by_contra hnone
  rw [(runSplit_view name table).2, foldl_viewStep_eq_self] at h
  · cases h
  · exact fun d hd hdraws hname => hnone ⟨d, hd, hdraws, hname⟩

/-- The values of a new entry that was filled: each is under the key of a selected one, and each
selected one that no other has the key of is there. -/
theorem values_fill (entry : ResourceEntry ι) (selected : List (ValuePtr ι)) (name : Bytes) :
    (∀ w ∈ (entry.fill selected (.new name)).values, ∃ q ∈ selected,
        w.key.compare q.1.key = .eq)
      ∧ ∀ q ∈ selected, (∀ q' ∈ selected, q.1.key.compare q'.1.key = .eq → q' = q) →
        ∃ w ∈ (entry.fill selected (.new name)).values, w.key.compare q.1.key = .eq
          ∧ w.value = q.1.value.map Value.clone := by
  have hnil : StrictlySortedBy ConfigKey.compare ResourceConfigValue.key
      ([] : List (ResourceConfigValue ι)) := List.Pairwise.nil
  have hnew : ∀ q : ValuePtr ι, (ResourceConfigValue.new q.1.config q.1.product :
      ResourceConfigValue ι).key.compare q.1.key = .eq := fun q => Std.ReflCmp.compare_self
  -- a copy keeps the key
  have hcopy : ∀ (q : ValuePtr ι) (v : ResourceConfigValue ι), v.key.compare q.1.key = .eq →
      (v.copyFrom q).key.compare q.1.key = .eq := by
    intro q v hv
    have hkey : (v.copyFrom q).key = v.key := rfl
    rw [hkey]
    exact hv
  obtain ⟨-, hmem, hfind⟩ := hnil.foldl_updateFoundOrCreated (k := fun q : ValuePtr ι => q.1.key)
    (f := ResourceConfigValue.copyFrom) hnew hcopy selected
  refine ⟨fun w hw => (hmem w hw).resolve_left List.not_mem_nil, fun q hq hunique => ?_⟩
  obtain ⟨x, hx⟩ := hfind q hq hunique
  obtain ⟨hx, hkey⟩ := mem_of_findSorted hx
  exact ⟨_, hx, hkey, rfl⟩

/-- **A split holds the values it takes**, if it takes no others under the same name. -/
theorem holdsValue_runSplit_iff (htable : table.DistinctEntries)
    (hvalues : DistinctValues data options constraints table)
    (h : SharesNoName data options constraints table)
    (he : e ∈ table.namedEntries) (hmipmap : e.1.type.type ≠ .kMipmap)
    (hp : p ∈ remainingValues options e.2) :
    (runSplit data options constraints table).HoldsValue e.1 e.2.id p.1
      ↔ p ∈ selectedValues data options constraints e.2 := by
  have hwf : SplitWf (runSplit data options constraints table) := (runSplit_view e.1 table).1
  constructor
  · rintro ⟨x, hx, hname, hid, w, hw, hkey, -⟩
    have hat := hwf.mem_namedEntries_iff_entryAt.mp hx
    obtain ⟨d, hd, hdraws, hdname⟩ := exists_draws_of_entryAt hat
    rw [hdname, entryAt_runSplit_of_draws h hd hdraws, Option.some_inj] at hat
    -- the entry of the split was filled from this resource
    rw [← hat] at hid hw
    obtain rfl : d = e := htable.eq_of_name_of_id hd he (hdname.symm.trans hname) hid
    obtain ⟨q, hq, hwq⟩ := (values_fill _ _ _).1 w hw
    have hqp : q.1.key.compare p.1.key = .eq :=
      Std.TransCmp.eq_trans (Std.OrientedCmp.eq_symm hwq) hkey
    rwa [← hvalues _ he hdraws q (mem_of_mem_selectedValues hq) p hp hqp]
  · intro hselected
    have hdraws : Draws data options constraints e := ⟨hmipmap, List.ne_nil_of_mem hselected⟩
    have hat := entryAt_runSplit_of_draws h he hdraws
    refine ⟨(e.1, e.2.fill (selectedValues data options constraints e.2) (.new e.2.name)),
      hwf.mem_namedEntries_iff_entryAt.mpr hat, rfl, rfl, ?_⟩
    obtain ⟨w, hw, hkey, hvalue⟩ := (values_fill e.2 _ e.2.name).2 p hselected
      fun q hq hkey => (hvalues _ he hdraws p hp q (mem_of_mem_selectedValues hq) hkey).symm
    exact ⟨w, hw, hkey, .inr hvalue⟩

/-- The resources that stay in the base. -/
theorem namedEntries_baseTable (constraints : List SplitConstraints) :
    (baseTable data options constraints table).namedEntries = table.namedEntries.map fun e =>
      (e.1, if e.1.type.type = .kMipmap then e.2 else baseEntry data options constraints e.2) := by
  have htype : ∀ (package : Bytes) (type : ResourceTableType ι),
      (baseType data options constraints type).namedEntries package
        = (type.namedEntries package).map fun e =>
          (e.1, if e.1.type.type = .kMipmap then e.2
            else baseEntry data options constraints e.2) := by
    intro package type
    unfold baseType ResourceTableType.namedEntries
    split_ifs with hmipmap
    · simp [hmipmap]
    · simp [hmipmap, baseEntry]
  simp only [ResourceTable.namedEntries, ResourceTablePackage.namedEntries, baseTable, basePackage,
    List.flatMap_map, List.map_flatMap, htype]

/-- **The base holds the values that nobody claimed.** -/
theorem holdsValue_baseTable {constraints : List SplitConstraints} (he : e ∈ table.namedEntries)
    (hmipmap : e.1.type.type ≠ .kMipmap) (hp : p ∈ remainingValues options e.2)
    (hclaimed : p.2 ∉ claimedOf data options constraints e.2) :
    (baseTable data options constraints table).HoldsValue e.1 e.2.id p.1 := by
  rw [ResourceTable.HoldsValue, namedEntries_baseTable]
  refine ⟨_, List.mem_map.mpr ⟨e, he, rfl⟩, rfl, ?_⟩
  rw [if_neg hmipmap]
  exact ⟨rfl, p.1, List.mem_map.mpr ⟨p, List.mem_filter.mpr ⟨hp, by simpa using hclaimed⟩, rfl⟩,
    Std.ReflCmp.compare_self, .inl rfl⟩

/-- The base does not hold what was claimed, if the values of the entry can be told apart. -/
theorem notMem_claimedOf_of_holdsValue (htable : table.DistinctEntries)
    {constraints : List SplitConstraints} (he : e ∈ table.namedEntries)
    (hmipmap : e.1.type.type ≠ .kMipmap) (hp : p ∈ remainingValues options e.2)
    (hvalues : ∀ q ∈ remainingValues options e.2, q.1.key.compare p.1.key = .eq → q = p)
    (h : (baseTable data options constraints table).HoldsValue e.1 e.2.id p.1) :
    p.2 ∉ claimedOf data options constraints e.2 := by
  rw [ResourceTable.HoldsValue, namedEntries_baseTable] at h
  obtain ⟨x, hx, hname, hid, w, hw, hkey, -⟩ := h
  obtain ⟨d, hd, rfl⟩ := List.mem_map.mp hx
  replace hname : d.1 = e.1 := hname
  have hd' : d.1.type.type ≠ .kMipmap := hname ▸ hmipmap
  simp only [if_neg hd'] at hid hw
  obtain rfl : d = e := htable.eq_of_name_of_id hd he hname hid
  obtain ⟨q, hq, rfl⟩ := List.mem_map.mp hw
  obtain ⟨hq, hclaimed⟩ := List.mem_filter.mp hq
  rw [← hvalues q hq hkey]
  simpa using hclaimed

/-- What the splits have claimed. -/
theorem mem_claimedBySplits_iff {constraints : List SplitConstraints} {entry : ResourceEntry ι}
    (hp : p ∈ remainingValues options entry) :
    p.2 ∈ claimedBySplits data options constraints entry
      ↔ ∃ c ∈ constraints, p ∈ selectedValues data options c entry := by
  rw [claimedBySplits, List.mem_flatMap]
  refine exists_congr fun c => and_congr_right fun _ => ?_
  constructor
  · intro h
    obtain ⟨q, hq, hpos⟩ := List.mem_map.mp h
    rwa [← remainingValues_inj (mem_of_mem_selectedValues hq) hp hpos]
  · exact fun h => List.mem_map_of_mem h

/-- What is claimed with the densities that are not preferred. -/
theorem mem_markNonPreferredDensitiesAsClaimed_iff {preferred : List UInt16}
    {groups : ConfigDensityGroups ι} {claimed : List ℕ} {i : ℕ} :
    i ∈ markNonPreferredDensitiesAsClaimed data preferred groups claimed
      ↔ i ∈ claimed ∨ ∃ group ∈ groups, ∃ q ∈ group.2, q.2 = i
        ∧ ∀ density ∈ preferred, ∀ best, bestValue data { group.1 with density } group.2 = some best →
          best.2 ≠ i := by
  unfold markNonPreferredDensitiesAsClaimed
  induction groups generalizing claimed with
  | nil => simp
  | cons group groups ih =>
      rw [List.foldl_cons, ih]
      simp only [List.mem_append, List.mem_map, List.mem_filter, List.mem_filterMap,
        decide_eq_true_iff, List.exists_mem_cons_iff, not_exists, not_and, or_assoc]
      refine or_congr_right (or_congr_left ?_)
      refine exists_congr fun q => ?_
      constructor
      · rintro ⟨⟨hq, hbest⟩, rfl⟩
        exact ⟨hq, rfl, fun density hdensity best h => hbest best ⟨density, hdensity, h⟩⟩
      · rintro ⟨hq, rfl, hbest⟩
        exact ⟨⟨hq, fun best ⟨density, hdensity, h⟩ => hbest density hdensity best h⟩, rfl⟩

end Places

/-! ## Nothing is lost or duplicated -/

section Lossless

variable {data : LocaleData} {options : TableSplitterOptions} {constraints : List SplitConstraints}
  {table : ResourceTable ι} {e : ResourceName × ResourceEntry ι} {p : ValuePtr ι}

/-- What is claimed of an entry: what a split takes, and with preferred densities what is best for
none of them. -/
theorem mem_claimedOf_iff {entry : ResourceEntry ι} (hp : p ∈ remainingValues options entry) :
    p.2 ∈ claimedOf data options constraints entry
      ↔ (∃ c ∈ constraints, p ∈ selectedValues data options c entry)
        ∨ options.preferredDensities ≠ []
          ∧ ∃ group ∈ densityGroups (remainingValues options entry), p ∈ group.2
            ∧ ∀ density ∈ options.preferredDensities,
              bestValue data { group.1 with density } group.2 ≠ some p := by
  have hgroups := groupsWf_densityGroups (remainingValues options entry)
  unfold claimedOf
  split_ifs with hpreferred
  · rw [mem_markNonPreferredDensitiesAsClaimed_iff, mem_claimedBySplits_iff hp, and_iff_right hpreferred]
    refine or_congr_right (exists_congr fun group => and_congr_right fun hgroup => ?_)
    -- a pointer is known by its position
    have hinj : ∀ q ∈ group.2, q.2 = p.2 → q = p := fun q hq =>
      remainingValues_inj (hgroups.mem group hgroup q hq).1 hp
    constructor
    · rintro ⟨q, hq, hpos, hbest⟩
      obtain rfl := hinj q hq hpos
      exact ⟨hq, fun density hdensity heq => hbest density hdensity q heq rfl⟩
    · rintro ⟨hmem, hbest⟩
      refine ⟨p, hmem, rfl, fun density hdensity best heq hpos => ?_⟩
      rw [hinj best (mem_of_bestValue heq) hpos] at heq
      exact hbest density hdensity heq
  · rw [mem_claimedBySplits_iff hp]
    simp [hpreferred]

/-- **The property**: nothing is lost or duplicated. -/
structure SplitsLosslessly (data : LocaleData) (options : TableSplitterOptions)
    (constraints : List SplitConstraints) (table : ResourceTable ι) : Prop where
  /-- Without preferred densities, a value is in the base or in a split, not in both. -/
  kept : options.preferredDensities = [] → ∀ e ∈ table.namedEntries, e.1.type.type ≠ .kMipmap →
    ∀ v ∈ e.2.values, options.Passes v.config →
      ((splitTable data options constraints table).2.HoldsValue e.1 e.2.id v
        ∨ ∃ split ∈ (splitTable data options constraints table).1, split.HoldsValue e.1 e.2.id v)
      ∧ ¬ ((splitTable data options constraints table).2.HoldsValue e.1 e.2.id v
        ∧ ∃ split ∈ (splitTable data options constraints table).1, split.HoldsValue e.1 e.2.id v)
  /-- A value without a density is in exactly one of the tables. -/
  densityIndependent : ∀ e ∈ table.namedEntries, e.1.type.type ≠ .kMipmap → ∀ v ∈ e.2.values,
    options.Passes v.config → v.config.density = 0 →
      ∃! i : ℕ, ∃ t : ResourceTable ι, ((splitTable data options constraints table).2
        :: (splitTable data options constraints table).1)[i]? = some t
          ∧ t.HoldsValue e.1 e.2.id v
  /-- Mipmaps stay in the base. -/
  mipmap : ∀ e ∈ table.namedEntries, e.1.type.type = .kMipmap →
    e ∈ (splitTable data options constraints table).2.namedEntries
  /-- What is best for a preferred density is in the base or in a split. -/
  preferred : options.preferredDensities ≠ [] → ∀ e ∈ table.namedEntries,
    e.1.type.type ≠ .kMipmap → ∀ group ∈ densityGroups (remainingValues options e.2),
      ∀ density ∈ options.preferredDensities, ∃ best,
        bestValue data { group.1 with density } group.2 = some best
        ∧ ((splitTable data options constraints table).2.HoldsValue e.1 e.2.id best.1
          ∨ ∃ split ∈ (splitTable data options constraints table).1,
            split.HoldsValue e.1 e.2.id best.1)

/-- Each split holds what it has taken. -/
def SplitsHoldSelected (data : LocaleData) (options : TableSplitterOptions)
    (constraints : List SplitConstraints) (table : ResourceTable ι) : Prop :=
  ∀ e ∈ table.namedEntries, e.1.type.type ≠ .kMipmap → ∀ (i : ℕ) c, constraints[i]? = some c →
    ∀ p ∈ selectedValues data options c e.2, ∃ split : ResourceTable ι,
      (splitTable data options constraints table).1[i]? = some split
        ∧ split.HoldsValue e.1 e.2.id p.1

/-- A value of an entry that passes the filter has a pointer. -/
theorem exists_pointer {entry : ResourceEntry ι} {v : ResourceConfigValue ι}
    (hv : v ∈ entry.values) (hpasses : options.Passes v.config) :
    ∃ i, (v, i) ∈ remainingValues options entry := by
  obtain ⟨i, hi⟩ := List.mem_iff_getElem?.mp hv
  exact ⟨i, mem_remainingValues_iff.mpr ⟨hi, hpasses⟩⟩

/-- Verified constraints at different places have no configuration in common. -/
theorem eq_of_contains (hverify : verifySplitConstraints constraints = true)
    {config : ResTableConfig} {i j : ℕ} {c d : SplitConstraints} (hi : constraints[i]? = some c)
    (hj : constraints[j]? = some d) (hc : c.contains config = true)
    (hd : d.contains config = true) : i = j := by
  induction constraints generalizing i j with
  | nil => simp at hi
  | cons a rest ih =>
      obtain ⟨hdisjoint, hrest⟩ := verifySplitConstraints_cons hverify
      cases i with
      | zero =>
          cases j with
          | zero => rfl
          | succ j =>
              obtain rfl : a = c := by simpa using hi
              have hnot := hdisjoint d (List.mem_of_getElem? hj) config hc
              rw [hd] at hnot
              cases hnot
      | succ i =>
          cases j with
          | zero =>
              obtain rfl : a = d := by simpa using hj
              have hnot := hdisjoint c (List.mem_of_getElem? hi) config hd
              rw [hc] at hnot
              cases hnot
          | succ j => exact congrArg (· + 1) (ih hrest hi hj)

/-- A value that a split takes is told apart from the others. -/
theorem unique_of_taken (hvalues : ∀ c ∈ constraints, DistinctValues data options c table)
    (he : e ∈ table.namedEntries) (hmipmap : e.1.type.type ≠ .kMipmap)
    (hp : p ∈ remainingValues options e.2)
    (htaken : ∃ c ∈ constraints, p ∈ selectedValues data options c e.2) :
    ∀ q ∈ remainingValues options e.2, q.1.key.compare p.1.key = .eq → q = p := by
  obtain ⟨c, hc, hselected⟩ := htaken
  exact fun q hq hkey =>
    hvalues c hc e he ⟨hmipmap, List.ne_nil_of_mem hselected⟩ q hq p hp hkey

/-- A value is in some split iff one takes it. -/
theorem exists_split_holdsValue_iff (hverify : verifySplitConstraints constraints = true)
    (htable : table.DistinctEntries)
    (hvalues : ∀ c ∈ constraints, DistinctValues data options c table)
    (hshares : ∀ c ∈ constraints, SharesNoName data options c table)
    (he : e ∈ table.namedEntries) (hmipmap : e.1.type.type ≠ .kMipmap)
    (hp : p ∈ remainingValues options e.2) :
    (∃ split ∈ (splitTable data options constraints table).1, split.HoldsValue e.1 e.2.id p.1)
      ↔ ∃ c ∈ constraints, p ∈ selectedValues data options c e.2 := by
  rw [splitTable_eq hverify]
  simp only [List.mem_map, exists_exists_and_eq_and]
  refine exists_congr fun c => and_congr_right fun hc => ?_
  exact holdsValue_runSplit_iff htable (hvalues c hc) (hshares c hc) he hmipmap hp

/-- A value without a density is in one table only. -/
theorem existsUnique_holdsValue (hverify : verifySplitConstraints constraints = true)
    (htable : table.DistinctEntries)
    (hvalues : ∀ c ∈ constraints, DistinctValues data options c table)
    (hshares : ∀ c ∈ constraints, SharesNoName data options c table)
    (he : e ∈ table.namedEntries) (hmipmap : e.1.type.type ≠ .kMipmap)
    (hp : p ∈ remainingValues options e.2) (hdensity : p.1.config.density = 0) :
    ∃! i : ℕ, ∃ t : ResourceTable ι, ((splitTable data options constraints table).2
      :: (splitTable data options constraints table).1)[i]? = some t
        ∧ t.HoldsValue e.1 e.2.id p.1 := by
  -- a value without a density is claimed by a split, or not at all
  have hclaimed : p.2 ∈ claimedOf data options constraints e.2
      ↔ ∃ c ∈ constraints, p ∈ selectedValues data options c e.2 := by
    rw [mem_claimedOf_iff hp, or_iff_left]
    rintro ⟨-, group, hgroup, hmem, -⟩
    exact ((groupsWf_densityGroups _).mem group hgroup p hmem).2.1 hdensity
  have hbase : (baseTable data options constraints table).HoldsValue e.1 e.2.id p.1
      ↔ p.2 ∉ claimedOf data options constraints e.2 :=
    ⟨fun h hin => notMem_claimedOf_of_holdsValue htable he hmipmap hp
      (unique_of_taken hvalues he hmipmap hp (hclaimed.mp hin)) h hin,
      holdsValue_baseTable he hmipmap hp⟩
  rw [splitTable_eq hverify]
  by_cases htaken : ∃ c ∈ constraints, p ∈ selectedValues data options c e.2
  · obtain ⟨c, hc, hselected⟩ := htaken
    obtain ⟨i, hi⟩ := List.mem_iff_getElem?.mp hc
    refine ⟨i + 1, ⟨runSplit data options c table, ?_, ?_⟩, ?_⟩
    · simp [hi]
    · exact (holdsValue_runSplit_iff htable (hvalues c hc) (hshares c hc) he hmipmap hp).mpr
        hselected
    · rintro j ⟨t, ht, hholds⟩
      cases j with
      | zero =>
          obtain rfl : baseTable data options constraints table = t := by simpa using ht
          exact absurd (hclaimed.mpr ⟨c, hc, hselected⟩) (hbase.mp hholds)
      | succ j =>
          obtain ⟨d, hd, rfl⟩ : ∃ d, constraints[j]? = some d
              ∧ runSplit data options d table = t := by simpa using ht
          have hd' := List.mem_of_getElem? hd
          have hselected' :=
            (holdsValue_runSplit_iff htable (hvalues d hd') (hshares d hd') he hmipmap hp).mp hholds
          rw [mem_selectedValues_iff hp hdensity] at hselected hselected'
          rw [eq_of_contains hverify hi hd hselected hselected']
  · refine ⟨0, ⟨baseTable data options constraints table, rfl, hbase.mpr (mt hclaimed.mp htaken)⟩,
      ?_⟩
    rintro j ⟨t, ht, hholds⟩
    cases j with
    | zero => rfl
    | succ j =>
        obtain ⟨d, hd, rfl⟩ : ∃ d, constraints[j]? = some d
            ∧ runSplit data options d table = t := by simpa using ht
        have hd := List.mem_of_getElem? hd
        exact absurd ⟨d, hd, (holdsValue_runSplit_iff htable (hvalues d hd) (hshares d hd) he
          hmipmap hp).mp hholds⟩ htaken

/-- What is best for a preferred density is not lost. -/
theorem exists_best_holdsValue (hverify : verifySplitConstraints constraints = true)
    (htable : table.DistinctEntries)
    (hvalues : ∀ c ∈ constraints, DistinctValues data options c table)
    (hshares : ∀ c ∈ constraints, SharesNoName data options c table)
    (he : e ∈ table.namedEntries) (hmipmap : e.1.type.type ≠ .kMipmap)
    {group : ResTableConfig × List (ValuePtr ι)}
    (hgroup : group ∈ densityGroups (remainingValues options e.2)) {density : UInt16}
    (hdensity : density ∈ options.preferredDensities) :
    ∃ best, bestValue data { group.1 with density } group.2 = some best
      ∧ ((splitTable data options constraints table).2.HoldsValue e.1 e.2.id best.1
        ∨ ∃ split ∈ (splitTable data options constraints table).1,
          split.HoldsValue e.1 e.2.id best.1) := by
  have hgroups := groupsWf_densityGroups (remainingValues options e.2)
  obtain ⟨best, hbest⟩ : ∃ best, bestValue data { group.1 with density } group.2 = some best := by
    rw [← Option.ne_none_iff_exists']
    intro hnone
    obtain ⟨q, hq⟩ := List.exists_mem_of_ne_nil _ (hgroups.nonempty group hgroup)
    have hfalse := selectBest_eq_none_iff.mp hnone q hq
    cases hfalse
  refine ⟨best, hbest, ?_⟩
  have hmem := mem_of_bestValue hbest
  have hp := (hgroups.mem group hgroup best hmem).1
  rw [exists_split_holdsValue_iff hverify htable hvalues hshares he hmipmap hp,
    splitTable_eq hverify]
  by_cases htaken : ∃ c ∈ constraints, best ∈ selectedValues data options c e.2
  · exact .inr htaken
  · refine .inl (holdsValue_baseTable he hmipmap hp ?_)
    rw [mem_claimedOf_iff hp]
    rintro (htaken' | ⟨-, other, hother, hmem', hnot⟩)
    · exact htaken htaken'
    · -- it is in one bucket only
      rw [hgroups.eq_of_mem hother hgroup hmem' hmem] at hnot
      exact hnot density hdensity hbest

/-- Without preferred densities a value is in the base or in a split, not in both. -/
theorem holdsValue_base_or_split (hverify : verifySplitConstraints constraints = true)
    (htable : table.DistinctEntries)
    (hvalues : ∀ c ∈ constraints, DistinctValues data options c table)
    (hshares : ∀ c ∈ constraints, SharesNoName data options c table)
    (hpreferred : options.preferredDensities = []) (he : e ∈ table.namedEntries)
    (hmipmap : e.1.type.type ≠ .kMipmap) (hp : p ∈ remainingValues options e.2) :
    ((splitTable data options constraints table).2.HoldsValue e.1 e.2.id p.1
        ∨ ∃ split ∈ (splitTable data options constraints table).1, split.HoldsValue e.1 e.2.id p.1)
      ∧ ¬ ((splitTable data options constraints table).2.HoldsValue e.1 e.2.id p.1
        ∧ ∃ split ∈ (splitTable data options constraints table).1,
          split.HoldsValue e.1 e.2.id p.1) := by
  have hbase : (splitTable data options constraints table).2.HoldsValue e.1 e.2.id p.1
      ↔ ¬ ∃ c ∈ constraints, p ∈ selectedValues data options c e.2 := by
    have hclaimed : p.2 ∈ claimedOf data options constraints e.2
        ↔ ∃ c ∈ constraints, p ∈ selectedValues data options c e.2 := by
      rw [mem_claimedOf_iff hp, or_iff_left fun h => h.1 hpreferred]
    rw [splitTable_eq hverify]
    exact ⟨fun h htaken => notMem_claimedOf_of_holdsValue htable he hmipmap hp
      (unique_of_taken hvalues he hmipmap hp htaken) h (hclaimed.mpr htaken),
      fun h => holdsValue_baseTable he hmipmap hp (mt hclaimed.mp h)⟩
  rw [hbase, exists_split_holdsValue_iff hverify htable hvalues hshares he hmipmap hp]
  exact ⟨(Classical.em _).symm, fun h => h.1 h.2⟩

/-- Mipmaps stay in the base. -/
theorem mem_base_of_mipmap (hverify : verifySplitConstraints constraints = true)
    (he : e ∈ table.namedEntries) (hmipmap : e.1.type.type = .kMipmap) :
    e ∈ (splitTable data options constraints table).2.namedEntries := by
  rw [splitTable_eq hverify]
  show e ∈ (baseTable data options constraints table).namedEntries
  rw [namedEntries_baseTable]
  exact List.mem_map.mpr ⟨e, he, by rw [if_pos hmipmap]⟩

/-- Without shared names nothing is lost or duplicated. -/
theorem splitsLosslessly_of_sharesNoName (hverify : verifySplitConstraints constraints = true)
    (htable : table.DistinctEntries)
    (hvalues : ∀ c ∈ constraints, DistinctValues data options c table)
    (hshares : ∀ c ∈ constraints, SharesNoName data options c table) :
    SplitsLosslessly data options constraints table := by
  refine ⟨?_, ?_, ?_, ?_⟩
  · intro hpreferred e he hmipmap v hv hpasses
    obtain ⟨i, hp⟩ := exists_pointer hv hpasses
    exact holdsValue_base_or_split (p := (v, i)) hverify htable hvalues hshares hpreferred he
      hmipmap hp
  · intro e he hmipmap v hv hpasses hdensity
    obtain ⟨i, hp⟩ := exists_pointer hv hpasses
    exact existsUnique_holdsValue (p := (v, i)) hverify htable hvalues hshares he hmipmap hp
      hdensity
  · intro e he hmipmap
    exact mem_base_of_mipmap hverify he hmipmap
  · intro _ e he hmipmap group hgroup density hdensity
    exact exists_best_holdsValue hverify htable hvalues hshares he hmipmap hgroup hdensity

/-- Without shared names each split holds what it has taken. -/
theorem splitsHoldSelected_of_sharesNoName (hverify : verifySplitConstraints constraints = true)
    (htable : table.DistinctEntries)
    (hvalues : ∀ c ∈ constraints, DistinctValues data options c table)
    (hshares : ∀ c ∈ constraints, SharesNoName data options c table) :
    SplitsHoldSelected data options constraints table := by
  intro e he hmipmap i c hc p hp
  refine ⟨runSplit data options c table, ?_, ?_⟩
  · rw [splitTable_eq hverify]
    simp [hc]
  · exact (holdsValue_runSplit_iff htable (hvalues c (List.mem_of_getElem? hc))
      (hshares c (List.mem_of_getElem? hc)) he hmipmap
      (mem_of_mem_selectedValues hp)).mpr hp

/-- If each split holds what it has taken, it has not taken from two entries with one name: they
would share the identifier of its entry. -/
theorem sharesNoName_of_splitsHoldSelected (hverify : verifySplitConstraints constraints = true)
    (htable : table.DistinctEntries) (h : SplitsHoldSelected data options constraints table)
    {c : SplitConstraints} (hc : c ∈ constraints) : SharesNoName data options c table := by
  obtain ⟨i, hi⟩ := List.mem_iff_getElem?.mp hc
  -- the entry of the split under the name has the identifier of each entry it was filled from
  have hheld : ∀ a ∈ table.namedEntries, Draws data options c a →
      ∃ x, (runSplit data options c table).entryAt a.1 = some x ∧ x.id = a.2.id := by
    rintro a ha ⟨hmipmap, hselected⟩
    obtain ⟨p, hp⟩ := List.exists_mem_of_ne_nil _ hselected
    obtain ⟨split, hsplit, x, hx, hname, hid, -⟩ := h a ha hmipmap i c hi p hp
    rw [splitTable_eq hverify] at hsplit
    obtain rfl : runSplit data options c table = split := by simpa [hi] using hsplit
    have hwf : SplitWf (runSplit data options c table) := (runSplit_view a.1 table).1
    exact ⟨x.2, hname ▸ hwf.mem_namedEntries_iff_entryAt.mp hx, hid⟩
  rw [SharesNoName, List.pairwise_filter]
  have hpairs : table.namedEntries.Pairwise fun a b => a.1 = b.1 → a.2.id ≠ b.2.id := htable
  refine hpairs.imp_of_mem fun {a b} ha hb hne hda hdb hname => ?_
  obtain ⟨x, hx, hxid⟩ := hheld a ha (by simpa using hda)
  obtain ⟨y, hy, hyid⟩ := hheld b hb (by simpa using hdb)
  rw [hname, hy, Option.some_inj] at hx
  subst hx
  exact hne hname (hxid.symm.trans hyid)

/-- A resource with one value, for landscape. -/
def landResource (name : Bytes) (id : BitVec 32) (content : Bool) : ResourceEntry Bool :=
  { ResourceEntry.new name with
    id := some ⟨id⟩
    values := [⟨{ ResTableConfig.defaultConfig with orientation := 2 }, [],
      some ⟨.binaryPrimitive, content, false, true, none, .noFlag⟩, false⟩] }

/-- A table of two such resources. -/
def landTable (name name' : Bytes) : ResourceTable Bool :=
  ⟨[⟨[97], [⟨⟨[98], .kBool⟩, .kUndefined,
    [landResource name 0x7f010000#32 false, landResource name' 0x7f010001#32 true]⟩]⟩]⟩

/-- The constraints of a split for landscape. -/
def landConstraints : SplitConstraints where
  configs := [{ ResTableConfig.defaultConfig with orientation := 2 }]
  name := [108]
  sorted := List.pairwise_singleton _ _

/-- No preferred densities and no filter. -/
def noOptions : TableSplitterOptions := ⟨[], none⟩

/-- Such a table is well formed. -/
theorem wf_landTable {name name' : Bytes}
    (h : EntryLt (name, some ⟨0x7f010000#32⟩) (name', some ⟨0x7f010001#32⟩)) :
    (landTable name name').Wf := by
  refine ⟨List.pairwise_singleton _ _, fun package hpackage => ?_⟩
  obtain rfl := List.mem_singleton.mp hpackage
  refine ⟨List.pairwise_singleton _ _, fun type htype => ?_⟩
  obtain rfl := List.mem_singleton.mp htype
  refine ⟨List.pairwise_pair.mpr h, fun entry hentry => ?_⟩
  have hwf : ∀ name id content, (landResource name id content).Wf := fun name id content =>
    ⟨List.pairwise_singleton _ _, List.Pairwise.nil, fun v hv => by cases hv⟩
  rcases List.mem_pair.mp hentry with rfl | rfl
  · exact hwf _ _ _
  · exact hwf _ _ _

end Lossless

end Aapt2

end AndroidSdk
