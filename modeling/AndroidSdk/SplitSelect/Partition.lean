import AndroidSdk.SplitSelect.RuleGenerator

/-! # Groups as a partition

`groupByMutualExclusivity` distributes splits over groups. Splits are told apart by
`SplitDescription::compare`, which takes a script that was computed for a script that is not there.

* **`collectGroups_eq`** — the loop in terms of the splits of each kind.
* **`occurrences`** — in how many groups a split occurs.
* **`occurrences_eq`** — in one, or in one for each time it is given.
* **`Partitions`**, **`partitions_groupByMutualExclusivity`** — what the groups are. -/

namespace AndroidSdk.SplitSelect

open Lib ResTableConfig

/-! ## The kinds of splits -/

/-- Splits that are grouped by density. -/
def SplitDescription.hasDensity (s : SplitDescription) : Bool := s.config.density ≠ 0

/-- Splits that are grouped by ABI. -/
def SplitDescription.hasAbiOnly (s : SplitDescription) : Bool :=
  s.config.density = 0 ∧ s.abi ≠ .none

/-- Splits that make a group of their own. -/
def SplitDescription.isPlain (s : SplitDescription) : Bool := s.config.density = 0 ∧ s.abi = .none

/-- **The loop, in terms of the splits of each kind.** -/
theorem collectGroups_eq (splits : List SplitDescription) :
    collectGroups splits = {
      groups := (splits.filter SplitDescription.isPlain).map fun s => [s]
      densityGroups := KeyedVector.group SplitDescription.compare SplitDescription.compare
        SplitDescription.densityKey (splits.filter SplitDescription.hasDensity)
      abiGroups := KeyedVector.group SplitDescription.compare SplitDescription.compare
        SplitDescription.abiKey (splits.filter SplitDescription.hasAbiOnly) } := by
  induction splits using List.reverseRecOn with
  | nil => rfl
  | append_singleton splits s ih =>
      rw [collectGroups, List.foldl_append, List.foldl_cons, List.foldl_nil, ← collectGroups, ih,
        Groups.addSplit]
      simp only [List.filter_append, KeyedVector.group, List.foldl_append]
      by_cases hdensity : s.config.density = 0
      · by_cases habi : s.abi = .none
        · simp [SplitDescription.isPlain, SplitDescription.hasDensity, SplitDescription.hasAbiOnly,
            hdensity, habi]
        · simp [SplitDescription.isPlain, SplitDescription.hasDensity, SplitDescription.hasAbiOnly,
            hdensity, habi, appendValue]
      · simp [SplitDescription.isPlain, SplitDescription.hasDensity, SplitDescription.hasAbiOnly,
          hdensity, appendValue]

section Kinds

variable {s o : SplitDescription}

/-- Splits that are not told apart have a density or not. -/
theorem hasDensity_congr (h : SplitDescription.compare s o = .eq) : s.hasDensity = o.hasDensity := by
  obtain ⟨-, -, hdensity, -⟩ := (SplitDescription.compare_eq_iff s o).mp h
  rw [SplitDescription.hasDensity, SplitDescription.hasDensity, hdensity]

/-- Splits that are not told apart have only an ABI or not. -/
theorem hasAbiOnly_congr (h : SplitDescription.compare s o = .eq) : s.hasAbiOnly = o.hasAbiOnly := by
  obtain ⟨habi, -, hdensity, -⟩ := (SplitDescription.compare_eq_iff s o).mp h
  rw [SplitDescription.hasAbiOnly, SplitDescription.hasAbiOnly, hdensity, habi]

/-- Splits that are not told apart are plain or not. -/
theorem isPlain_congr (h : SplitDescription.compare s o = .eq) : s.isPlain = o.isPlain := by
  obtain ⟨habi, -, hdensity, -⟩ := (SplitDescription.compare_eq_iff s o).mp h
  rw [SplitDescription.isPlain, SplitDescription.isPlain, hdensity, habi]

/-- The key of a density group does not tell apart what the order does not. -/
theorem compare_densityKey (h : SplitDescription.compare s o = .eq) :
    SplitDescription.compare s.densityKey o.densityKey = .eq := by
  obtain ⟨habi, hqualifiers, -, -⟩ := (SplitDescription.compare_eq_iff s o).mp h
  exact (SplitDescription.compare_densityKey_eq_iff s o).mpr ⟨habi, hqualifiers⟩

/-- The key of an ABI group does not tell apart what the order does not. -/
theorem compare_abiKey (h : SplitDescription.compare s o = .eq) :
    SplitDescription.compare s.abiKey o.abiKey = .eq :=
  (SplitDescription.compare_abiKey_eq_iff s o).mpr ((SplitDescription.compare_eq_iff s o).mp h).2

end Kinds

/-! ## In how many groups a split occurs -/

/-- A split, or one that is not told apart from it, is in a group. -/
def occursIn (s : SplitDescription) (group : List SplitDescription) : Bool :=
  SortedVector.contains SplitDescription.compare s group

/-- The number of groups in which a split occurs. -/
def occurrences (groups : List (List SplitDescription)) (s : SplitDescription) : ℕ :=
  groups.countP (occursIn s)

/-- The number of times a split is given. -/
def multiplicity (splits : List SplitDescription) (s : SplitDescription) : ℕ :=
  splits.countP fun o => SplitDescription.compare s o = .eq

section Occurrences

variable {splits : List SplitDescription} {s : SplitDescription}

/-- A split occurs in as many groups of its own as it is given, if it is plain. -/
theorem occurrences_groups (splits : List SplitDescription) (s : SplitDescription) :
    occurrences (collectGroups splits).groups s = if s.isPlain then multiplicity splits s else 0 := by
  have hsingle : (occursIn s ∘ fun o => [o]) = fun o => decide (SplitDescription.compare s o = .eq) := by
    funext o
    simp [occursIn, SortedVector.contains]
  rw [collectGroups_eq, occurrences, List.countP_map, hsingle, List.countP_filter, multiplicity]
  split
  next hplain =>
    refine List.countP_congr fun o _ => ?_
    simp only [Bool.and_eq_true, decide_eq_true_eq, and_iff_left_iff_imp]
    intro heq
    rw [← isPlain_congr heq, hplain]
  next hplain =>
    refine List.countP_eq_zero.mpr fun o _ hboth => hplain ?_
    simp only [Bool.and_eq_true, decide_eq_true_eq] at hboth
    rw [isPlain_congr hboth.1, hboth.2]

/-- Whether a split occurs in one of the groups of its kind, or in none. -/
theorem countP_group {key : SplitDescription → SplitDescription} {kind : SplitDescription → Bool}
    {P : SplitDescription → Prop} (hs : s ∈ splits)
    (hkind : ∀ o, SplitDescription.compare s o = .eq → kind s = kind o)
    (hkey : ∀ v w, SplitDescription.compare v w = .eq →
      SplitDescription.compare (key v) (key w) = .eq)
    (hgrouped : KeyedVector.Grouped SplitDescription.compare SplitDescription.compare key P
      (KeyedVector.group SplitDescription.compare SplitDescription.compare key
        (splits.filter kind))) :
    occurrences ((KeyedVector.group SplitDescription.compare SplitDescription.compare key
      (splits.filter kind)).map Prod.snd) s = if kind s then 1 else 0 := by
  rw [occurrences, List.countP_map]
  have hle := hgrouped.countP_le_one hkey s
  split
  next hyes =>
    have hself : SplitDescription.compare s s = .eq := Std.ReflCmp.compare_self
    obtain ⟨p, hp, hcontains⟩ := (KeyedVector.any_group s (splits.filter kind)).mpr
      ⟨s, List.mem_filter.mpr ⟨hs, hyes⟩, hself⟩
    exact le_antisymm hle (List.countP_pos_iff.mpr ⟨p, hp, hcontains⟩)
  next hno =>
    refine List.countP_eq_zero.mpr fun p hp hcontains => hno ?_
    obtain ⟨o, ho, heq⟩ := (KeyedVector.any_group s (splits.filter kind)).mp ⟨p, hp, hcontains⟩
    rw [hkind o heq]
    exact (List.mem_filter.mp ho).2

/-- **A split with a density or an ABI occurs in one group, another one in as many as it is
given.** -/
theorem occurrences_eq (hs : s ∈ splits) :
    occurrences (groupByMutualExclusivity splits) s
      = if s.isPlain then multiplicity splits s else 1 := by
  have hvalid := valid_collectGroups splits
  have hgroups := occurrences_groups splits s
  have hdensity : occurrences (densityGroups splits) s = if s.hasDensity then 1 else 0 := by
    have hgrouped := hvalid.density
    rw [collectGroups_eq] at hgrouped
    rw [densityGroups, collectGroups_eq]
    exact countP_group hs (fun o => hasDensity_congr) (fun v w => compare_densityKey) hgrouped
  have habi : occurrences (abiGroups splits) s = if s.hasAbiOnly then 1 else 0 := by
    have hgrouped := hvalid.abi
    rw [collectGroups_eq] at hgrouped
    rw [abiGroups, collectGroups_eq]
    exact countP_group hs (fun o => hasAbiOnly_congr) (fun v w => compare_abiKey) hgrouped
  rw [occurrences] at hgroups hdensity habi ⊢
  rw [groupByMutualExclusivity, List.countP_append, List.countP_append, hgroups, hdensity, habi]
  by_cases hd : s.config.density = 0
  · by_cases ha : s.abi = .none
    · simp [SplitDescription.isPlain, SplitDescription.hasDensity, SplitDescription.hasAbiOnly, hd, ha]
    · simp [SplitDescription.isPlain, SplitDescription.hasDensity, SplitDescription.hasAbiOnly, hd, ha]
  · simp [SplitDescription.isPlain, SplitDescription.hasDensity, SplitDescription.hasAbiOnly, hd]

end Occurrences

/-! ## What the groups are -/

/-- The groups are a partition of the splits, where splits that `compare` does not tell apart count
as the same: no split is lost, none is invented, and none is in two groups unless it is given
several times. Groups are sorted, those of splits with a density differ in density and version only,
those of splits with only an ABI differ in the ABI only, and splits that differ in density and
version only are in the same group. -/
structure Partitions (splits : List SplitDescription) (groups : List (List SplitDescription)) :
    Prop where
  once : ∀ s ∈ splits, occurrences groups s = if s.isPlain then multiplicity splits s else 1
  given : ∀ group ∈ groups, ∀ s ∈ group, s ∈ splits
  sorted : ∀ group ∈ groups, group ≠ [] ∧ SortedVector.Sorted SplitDescription.compare group
  density : ∀ group ∈ groups, ∀ s ∈ group, s.hasDensity = true → ∀ o ∈ group,
    o.hasDensity = true ∧ s.abi = o.abi ∧ s.config.SameQualifiers o.config
  abi : ∀ group ∈ groups, ∀ s ∈ group, s.hasAbiOnly = true → ∀ o ∈ group,
    o.hasAbiOnly = true ∧ s.config.SameQualifiers o.config
      ∧ s.config.density = o.config.density ∧ s.config.sdkVersion = o.config.sdkVersion
  merged : ∀ s ∈ splits, ∀ o ∈ splits, s.hasDensity = true → o.hasDensity = true → s.abi = o.abi →
    s.config.SameQualifiers o.config →
    ∀ group ∈ groups, occursIn s group = true → occursIn o group = true

section Groups

variable {splits group : List SplitDescription}

/-- A group is that of a plain split, a density group or an ABI group. -/
theorem mem_groupByMutualExclusivity_iff :
    group ∈ groupByMutualExclusivity splits
      ↔ (∃ s ∈ splits, s.isPlain = true ∧ group = [s])
        ∨ group ∈ densityGroups splits ∨ group ∈ abiGroups splits := by
  rw [groupByMutualExclusivity, List.mem_append, List.mem_append, or_assoc]
  refine or_congr_left ?_
  simp only [collectGroups_eq, List.mem_map, List.mem_filter, and_assoc, eq_comm]

/-- The splits of density groups are those with a density. -/
theorem mem_of_mem_densityGroup (hgroup : group ∈ densityGroups splits) :
    group ≠ [] ∧ ∀ s ∈ group, s ∈ splits ∧ s.hasDensity = true := by
  rw [densityGroups, collectGroups_eq] at hgroup
  obtain ⟨p, hp, rfl⟩ := List.mem_map.mp hgroup
  obtain ⟨hne, hmem⟩ := KeyedVector.mem_of_mem_group hp
  exact ⟨hne, fun s hs => List.mem_filter.mp (hmem s hs)⟩

/-- The splits of ABI groups are those with only an ABI. -/
theorem mem_of_mem_abiGroup (hgroup : group ∈ abiGroups splits) :
    group ≠ [] ∧ ∀ s ∈ group, s ∈ splits ∧ s.hasAbiOnly = true := by
  rw [abiGroups, collectGroups_eq] at hgroup
  obtain ⟨p, hp, rfl⟩ := List.mem_map.mp hgroup
  obtain ⟨hne, hmem⟩ := KeyedVector.mem_of_mem_group hp
  exact ⟨hne, fun s hs => List.mem_filter.mp (hmem s hs)⟩

/-- A group with a split that has a density is a density group. -/
theorem mem_densityGroups (hgroup : group ∈ groupByMutualExclusivity splits) {s : SplitDescription}
    (hs : s ∈ group) (hdensity : s.hasDensity = true) : group ∈ densityGroups splits := by
  obtain ⟨o, -, hplain, rfl⟩ | hgroup | hgroup := mem_groupByMutualExclusivity_iff.mp hgroup
  · rw [List.mem_singleton.mp hs] at hdensity
    simp_all [SplitDescription.isPlain, SplitDescription.hasDensity]
  · exact hgroup
  · have habi := ((mem_of_mem_abiGroup hgroup).2 s hs).2
    simp_all [SplitDescription.hasAbiOnly, SplitDescription.hasDensity]

/-- A group with a split that has only an ABI is an ABI group. -/
theorem mem_abiGroups (hgroup : group ∈ groupByMutualExclusivity splits) {s : SplitDescription}
    (hs : s ∈ group) (habi : s.hasAbiOnly = true) : group ∈ abiGroups splits := by
  obtain ⟨o, -, hplain, rfl⟩ | hgroup | hgroup := mem_groupByMutualExclusivity_iff.mp hgroup
  · rw [List.mem_singleton.mp hs] at habi
    simp_all [SplitDescription.isPlain, SplitDescription.hasAbiOnly]
  · have hdensity := ((mem_of_mem_densityGroup hgroup).2 s hs).2
    simp_all [SplitDescription.hasAbiOnly, SplitDescription.hasDensity]
  · exact hgroup

end Groups

/-- **The groups partition the splits.** -/
theorem partitions_groupByMutualExclusivity (splits : List SplitDescription) :
    Partitions splits (groupByMutualExclusivity splits) where
  once s hs := occurrences_eq hs
  given group hgroup s hs := by
    obtain ⟨o, ho, -, rfl⟩ | hgroup | hgroup := mem_groupByMutualExclusivity_iff.mp hgroup
    · rwa [List.mem_singleton.mp hs]
    · exact ((mem_of_mem_densityGroup hgroup).2 s hs).1
    · exact ((mem_of_mem_abiGroup hgroup).2 s hs).1
  sorted group hgroup := by
    obtain ⟨o, -, -, rfl⟩ | hgroup | hgroup := mem_groupByMutualExclusivity_iff.mp hgroup
    · exact ⟨List.cons_ne_nil _ _, List.pairwise_singleton _ o⟩
    · exact ⟨(mem_of_mem_densityGroup hgroup).1, sorted_group (.inl hgroup)⟩
    · exact ⟨(mem_of_mem_abiGroup hgroup).1, sorted_group (.inr hgroup)⟩
  density group hgroup s hs hdensity o ho := by
    have hgroup := mem_densityGroups hgroup hs hdensity
    exact ⟨((mem_of_mem_densityGroup hgroup).2 o ho).2, (densityGroup_spec hgroup hs ho).2⟩
  abi group hgroup s hs habi o ho := by
    have hgroup := mem_abiGroups hgroup hs habi
    obtain ⟨-, hs0, hqualifiers, hsdk⟩ := abiGroup_spec hgroup hs ho
    obtain ⟨-, ho0, -, -⟩ := abiGroup_spec hgroup ho hs
    exact ⟨((mem_of_mem_abiGroup hgroup).2 o ho).2, hqualifiers, hs0.trans ho0.symm, hsdk⟩
  merged s _ o ho hsdensity hodensity habi hqualifiers group hgroup hin := by
    -- the group of the other split has the same key, so that it is the same group
    obtain ⟨w, hw, heq⟩ := SortedVector.contains_eq_true_iff.mp hin
    have hgroup := mem_densityGroups hgroup hw ((hasDensity_congr heq).symm.trans hsdensity)
    have hvalid := (valid_collectGroups splits).density
    have hself : SplitDescription.compare o o = .eq := Std.ReflCmp.compare_self
    obtain ⟨q, hq, hcontains⟩ := (KeyedVector.any_group o
      (splits.filter SplitDescription.hasDensity)).mpr
        ⟨o, List.mem_filter.mpr ⟨ho, hodensity⟩, hself⟩
    obtain ⟨v, hv, hov⟩ := SortedVector.contains_eq_true_iff.mp hcontains
    rw [densityGroups, collectGroups_eq] at hgroup
    rw [collectGroups_eq] at hvalid
    obtain ⟨p, hp, rfl⟩ := List.mem_map.mp hgroup
    have hkey : SplitDescription.compare w.densityKey v.densityKey = .eq :=
      Std.TransCmp.eq_trans (Std.OrientedCmp.eq_symm (compare_densityKey heq))
        (Std.TransCmp.eq_trans
          ((SplitDescription.compare_densityKey_eq_iff s o).mpr ⟨habi, hqualifiers⟩)
          (compare_densityKey hov))
    rw [hvalid.eq_of_mem hp hq hw hv hkey]
    exact hcontains

/-- The split for English with a density, without a script or with the script that was computed. -/
def englishDpi (density : UInt16) (computed : Bool) : SplitDescription where
  config := { (dpi density 0).config with
    language := ⟨101, 110⟩
    localeScript := if computed then .ofFn [76, 97, 116, 110].get else defaultConfig.localeScript
    localeScriptWasComputed := computed }
  abi := .none

/-- **A script that was computed is not compared**: a split that differs from the next one in it
alone is in no group, and two splits of a density group differ in it. -/
theorem not_partition_englishDpi :
    (englishDpi 240 true ≠ englishDpi 240 false
      ∧ ∀ group ∈ groupByMutualExclusivity [englishDpi 240 true, englishDpi 240 false],
        englishDpi 240 true ∉ group)
    ∧ groupByMutualExclusivity [englishDpi 240 true, englishDpi 320 false]
        = [[englishDpi 240 true, englishDpi 320 false]]
    ∧ (englishDpi 240 true).config.localeScript ≠ (englishDpi 320 false).config.localeScript := by
  decide +kernel

end AndroidSdk.SplitSelect
