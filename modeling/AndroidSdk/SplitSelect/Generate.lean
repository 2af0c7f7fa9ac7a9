import AndroidSdk.Lib.Run
import AndroidSdk.SplitSelect.Partition
import AndroidSdk.SplitSelect.RuleText

/-! # The rules of all splits

`split-select --generate` prints the rules of every split APK (`generate` in `Main.cpp`). It looks
up the rule of every configuration of an APK without asking whether there is one, and a missing rule
ends the program.

* **`Main.generate`** — the printed text, or nothing if the program ends before.
* **`simplify_generate_eq_none_iff`** — which members of a group have a null rule.
* **`find_getRules_eq_none_iff`** — which splits have no rule.
* **`isSome_generate_iff`** — when the program prints the rules. -/

namespace AndroidSdk.SplitSelect

open Lib ResTableConfig Rule

/-! ## The program -/

namespace Main

/-- The rule of an APK: one of the rules of its configurations holds. `valueFor` ends the program if
there is no rule, as does `toJson` of a null rule. -/
def masterRule (rules : List (SplitDescription × Rule)) (splitDescriptions : List SplitDescription) :
    Option Rule := do
  let subrules ← splitDescriptions.mapM fun s => KeyedVector.find SplitDescription.compare s rules
  simplify (.mk .orSubrules .none false [] [] subrules)

/-- The text of an APK. -/
def apkText (path : String) (rule : Rule) : List Char :=
  "  \x7b\n    \"path\": \"".toList ++ (path.toList ++ ("\",\n    \"rules\": ".toList
    ++ (rule.toJson 2 ++ "\n  \x7d".toList)))

/-- `generate`: the text with the rules of all APKs but the base. -/
def generate (nan : ℤ) (splits : List (String × List SplitDescription)) (base : String) :
    Option (List Char) := do
  let rules := getRules nan (splits.flatMap Prod.snd)
  let texts ← (splits.filter fun apk => apk.1 ≠ base).mapM fun apk => do
    let rule ← masterRule rules apk.2
    return apkText apk.1 rule
  return "[\n".toList ++ (List.intercalate ",\n".toList texts ++ "\n]\n".toList)

end Main

/-! ## Null rules -/

section Null

variable {nan : ℤ} {splits group : List SplitDescription} {s : SplitDescription}

/-- A split whose rule has no subrule besides the one on its density. -/
def SplitDescription.DensityOnly (s : SplitDescription) : Prop :=
  s.config.locale = 0 ∧ s.config.sdkVersion = 0 ∧ s.abi = .none

instance : DecidablePred SplitDescription.DensityOnly := fun s =>
  inferInstanceAs (Decidable (s.config.locale = 0 ∧ s.config.sdkVersion = 0 ∧ s.abi = .none))

/-- The rule on its density is flat. -/
theorem flat_generateGroupDensity (j : Fin group.length) :
    Flat (generateGroupDensity nan group j) := by
  unfold generateGroupDensity
  split_ifs
  · exact flat_generateDensity _ _
  · exact flat_generateDensity _ _

/-- The rule on its ABI is a leaf. -/
theorem leaf_generateGroupAbi (j : Fin group.length) :
    ¬ (generateGroupAbi group j).op.isCombinator := by
  unfold generateGroupAbi
  split_ifs
  · exact (by decide : ¬ Operator.containsAny.isCombinator)
  · exact (by decide : ¬ Operator.containsAny.isCombinator)

/-- What is left of a conjunction of flat rules: nothing iff there is no leaf, and otherwise a rule
that is formed. -/
theorem simplify_conj_flat {rs : List Rule} (h : ∀ r ∈ rs, Flat r) :
    (simplify (conj rs) = none ↔ rs.flatMap leaves = [])
      ∧ ∀ r, simplify (conj rs) = some r → Formed r := by
  have hop : Operator.andSubrules.isCombinator := .inl rfl
  have hleaf : ∀ l ∈ rs.flatMap leaves, ¬ l.op.isCombinator := by
    intro l hl
    obtain ⟨r, hr, hl⟩ := List.mem_flatMap.mp hl
    exact (h r hr).leaf_of_mem hl
  rw [conj, simplify, if_neg (not_not.mpr hop), simplifySubrules_flat h]
  by_cases hnil : rs.flatMap leaves = []
  · simp [hnil]
  · simp only [List.length_eq_zero_iff, hnil, if_false]
    split
    · rw [List.getLast?_eq_some_getLast hnil]
      refine ⟨by simp, ?_⟩
      rintro r hr
      cases hr
      exact .leaf (hleaf _ (List.getLast_mem hnil))
    · refine ⟨by simp, ?_⟩
      rintro r hr
      cases hr
      exact .node hop hnil fun l hl => .leaf (hleaf l hl)

/-- The subrules that are generated for a member of a group are flat. -/
theorem flat_of_mem_generate {j : Fin group.length} {r : Rule}
    (h : r ∈ generateQualifiers (group.get j).config
      ++ (if (group.get j).config.density ≠ 0 then [generateGroupDensity nan group j] else [])
      ++ (if (group.get j).abi ≠ .none then [generateGroupAbi group j] else [])) : Flat r := by
  simp only [List.mem_append] at h
  obtain (h | h) | h := h
  · exact .inl (leaf_of_mem_generateQualifiers h)
  · split_ifs at h
    · rw [List.mem_singleton.mp h]
      exact flat_generateGroupDensity j
    · cases h
  · split_ifs at h
    · rw [List.mem_singleton.mp h]
      exact .inl (leaf_generateGroupAbi j)
    · cases h

/-- The subrules on densities are missing iff there is only one density, which is not
`DENSITY_ANY`. -/
theorem densitySubrules_eq_nil_iff (ds : List ℕ) (i : Fin ds.length)
    (hAny : ds.get i ≠ densityAny) : densitySubrules nan ds i = [] ↔ ds.length = 1 := by
  have hpos : 0 < ds.length := i.pos
  constructor
  · intro h
    simp only [densitySubrules, List.append_eq_nil_iff] at h
    obtain ⟨⟨hsdk, habove⟩, hbelow⟩ := h
    have hzero : i.val = 0 := by
      by_contra hne
      have hlt : i.val - 1 < ds.length := by omega
      simp [previous?, Nat.pos_of_ne_zero hne, hlt, aboveRule] at habove
    by_contra hlength
    have hlt : i.val + 1 < ds.length := by omega
    rw [List.getElem?_eq_getElem hlt] at hbelow
    simp only [belowRule] at hbelow
    split_ifs at hbelow with hnext
    rw [not_not] at hnext
    rw [if_pos (hnext ▸ List.getElem_mem hlt)] at hsdk
    cases hsdk
  · intro h
    have hzero : i.val = 0 := by omega
    have hnot : densityAny ∉ ds := by
      intro hmem
      obtain ⟨k, hk, hget⟩ := List.mem_iff_getElem.mp hmem
      obtain rfl : k = i.val := by omega
      exact hAny hget
    have hnext : ds[i.val + 1]? = none := List.getElem?_eq_none (by omega)
    rw [densitySubrules, if_neg hnot, hnext, previous?, if_neg (by omega)]
    rfl

/-- The rule on the density of a member has no leaves iff all densities of the group are the same,
and not `DENSITY_ANY`. -/
theorem leaves_generateGroupDensity_eq_nil_iff (j : Fin group.length) :
    leaves (generateGroupDensity nan group j) = []
      ↔ (group.get j).config.density.toNat ≠ densityAny
        ∧ ∀ o ∈ group, o.config.density = (group.get j).config.density := by
  have hleaves {ds : List ℕ} (i : Fin ds.length) : leaves (generateDensity nan ds i) = []
      ↔ ds.get i ≠ densityAny ∧ ds.length = 1 := by
    by_cases hAny : ds.get i = densityAny
    · rw [leaves_generateDensity_any hAny]
      exact iff_of_false (List.cons_ne_nil _ _) fun h => h.1 hAny
    · rw [leaves_generateDensity hAny, densitySubrules_eq_nil_iff ds i hAny, and_iff_right hAny]
  rw [generateGroupDensity]
  split
  next hother =>
    obtain ⟨o, ho, hne⟩ := hother
    rw [hleaves]
    constructor
    · rintro ⟨-, hone⟩
      rw [List.length_map] at hone
      -- the other one would be the only member
      obtain ⟨k, hk, rfl⟩ := List.mem_iff_getElem.mp ho
      obtain rfl : k = j.val := by omega
      exact absurd rfl hne
    · rintro ⟨-, hall⟩
      exact absurd (hall o ho) hne
  next hsame =>
    rw [hleaves]
    have hall : ∀ o ∈ group, o.config.density = (group.get j).config.density := by
      intro o ho
      by_contra hne
      exact hsame ⟨o, ho, hne⟩
    constructor
    · rintro ⟨hAny, -⟩
      exact ⟨hAny, hall⟩
    · rintro ⟨hAny, -⟩
      exact ⟨hAny, rfl⟩

/-- There are no subrules on the language and the version iff there is no qualifier of the kind. -/
theorem generateQualifiers_eq_nil_iff (c : ResTableConfig) :
    generateQualifiers c = [] ↔ c.locale = 0 ∧ c.sdkVersion = 0 := by
  rw [generateQualifiers, List.append_eq_nil_iff]
  by_cases hlocale : c.locale = 0
  · by_cases hsdk : c.sdkVersion = 0
    · simp [hlocale, hsdk]
    · simp [hlocale, hsdk]
  · simp [hlocale]

/-- The leaves of an optional subrule. -/
theorem flatMap_leaves_ite_eq_nil_iff {p : Prop} [Decidable p] (r : Rule) :
    (if p then [r] else []).flatMap leaves = [] ↔ (p → leaves r = []) := by
  by_cases hp : p
  · rw [if_pos hp, List.flatMap_singleton]
    exact (imp_iff_right hp).symm
  · rw [if_neg hp]
    exact iff_of_true rfl fun h => absurd h hp

/-- **A member of a group has a null rule iff it is unqualified**, apart from a density other than
`DENSITY_ANY` in which the group does not differ. -/
theorem simplify_generate_eq_none_iff (j : Fin group.length) :
    simplify (generate nan group j) = none
      ↔ (group.get j).DensityOnly ∧ ((group.get j).config.density ≠ 0 →
          (group.get j).config.density.toNat ≠ densityAny
            ∧ ∀ o ∈ group, o.config.density = (group.get j).config.density) := by
  have hleaf : leaves (generateGroupAbi group j) ≠ [] := by
    rw [leaves_leaf (leaf_generateGroupAbi j)]
    exact List.cons_ne_nil _ _
  have hqualifiers : (generateQualifiers (group.get j).config).flatMap leaves
      = generateQualifiers (group.get j).config :=
    flatMap_leaves_of_leaf fun l hl => leaf_of_mem_generateQualifiers hl
  rw [generate, (simplify_conj_flat fun r hr => flat_of_mem_generate hr).1, List.flatMap_append,
    List.flatMap_append, List.append_eq_nil_iff, List.append_eq_nil_iff, hqualifiers,
    generateQualifiers_eq_nil_iff, flatMap_leaves_ite_eq_nil_iff, flatMap_leaves_ite_eq_nil_iff,
    leaves_generateGroupDensity_eq_nil_iff]
  constructor
  · rintro ⟨⟨⟨hlocale, hsdk⟩, hdensity⟩, habi⟩
    exact ⟨⟨hlocale, hsdk, not_not.mp fun h => hleaf (habi h)⟩, hdensity⟩
  · rintro ⟨⟨hlocale, hsdk, habi⟩, hdensity⟩
    exact ⟨⟨⟨hlocale, hsdk⟩, hdensity⟩, fun h => absurd habi h⟩

/-- The rule of a member of a group is formed, if there is one. -/
theorem formed_of_simplify_generate {j : Fin group.length} {r : Rule}
    (h : simplify (generate nan group j) = some r) : Formed r := by
  rw [generate] at h
  refine (simplify_conj_flat ?_).2 r h
  intro r hr
  exact flat_of_mem_generate hr

end Null

/-! ## Missing rules -/

/-- A split has a rule among the rules of all splits: it has a language, a version or an ABI, or a
density that is `DENSITY_ANY` or that differs from the one of a split with the same ABI and
qualifiers. -/
def HasRule (splits : List SplitDescription) (s : SplitDescription) : Prop :=
  s.config.locale ≠ 0 ∨ s.config.sdkVersion ≠ 0 ∨ s.abi ≠ .none
    ∨ s.config.density ≠ 0 ∧ (s.config.density.toNat = densityAny
      ∨ ∃ o ∈ splits, o.config.density ≠ 0 ∧ o.config.density ≠ s.config.density
        ∧ s.abi = o.abi ∧ s.config.SameQualifiers o.config)

section Missing

variable {nan : ℤ} {splits group : List SplitDescription} {s : SplitDescription}

/-- Every split occurs in a group. -/
theorem exists_group_of_mem (hs : s ∈ splits) :
    ∃ group ∈ groupByMutualExclusivity splits, ∃ j : Fin group.length,
      SplitDescription.compare s (group.get j) = .eq := by
  have hself : SplitDescription.compare s s = .eq := Std.ReflCmp.compare_self
  have hpos : 0 < occurrences (groupByMutualExclusivity splits) s := by
    rw [occurrences_eq hs]
    split
    · exact List.countP_pos_iff.mpr ⟨s, hs, by simp [hself]⟩
    · exact Nat.one_pos
  obtain ⟨group, hgroup, hin⟩ := List.countP_pos_iff.mp hpos
  obtain ⟨w, hw, heq⟩ := SortedVector.contains_eq_true_iff.mp hin
  obtain ⟨j, hj, rfl⟩ := List.mem_iff_getElem.mp hw
  exact ⟨group, hgroup, ⟨j, hj⟩, heq⟩

/-- Splits that are not told apart have the same rule on their density only. -/
theorem densityOnly_congr {o : SplitDescription} (h : SplitDescription.compare s o = .eq) :
    s.DensityOnly ↔ o.DensityOnly := by
  obtain ⟨habi, hqualifiers, -, hsdk⟩ := (SplitDescription.compare_eq_iff s o).mp h
  have hlocale : s.config.locale = o.config.locale :=
    (locale_eq_iff s.config o.config).mpr ⟨hqualifiers.2.2.1, hqualifiers.2.2.2.1⟩
  rw [SplitDescription.DensityOnly, SplitDescription.DensityOnly, habi, hlocale, hsdk]

/-- A split without a rule. -/
theorem not_hasRule_iff :
    ¬ HasRule splits s ↔ s.DensityOnly ∧ (s.config.density ≠ 0 →
      s.config.density.toNat ≠ densityAny ∧ ∀ o ∈ splits, o.config.density ≠ 0 → s.abi = o.abi →
        s.config.SameQualifiers o.config → o.config.density = s.config.density) := by
  rw [HasRule, SplitDescription.DensityOnly]
  constructor
  · intro h
    simp only [not_or, not_not, not_and, not_exists] at h
    obtain ⟨hlocale, hsdk, habi, hdensity⟩ := h
    refine ⟨⟨hlocale, hsdk, habi⟩, fun hne => ⟨(hdensity hne).1, ?_⟩⟩
    intro o ho ho0 hoabi hqualifiers
    by_contra hother
    exact (hdensity hne).2 o ho ho0 hother hoabi hqualifiers
  · rintro ⟨⟨hlocale, hsdk, habi⟩, hdensity⟩ (h | h | h | ⟨hne, h⟩)
    · exact h hlocale
    · exact h hsdk
    · exact h habi
    · obtain hAny | ⟨o, ho, ho0, hother, hoabi, hqualifiers⟩ := h
      · exact (hdensity hne).1 hAny
      · exact hother ((hdensity hne).2 o ho ho0 hoabi hqualifiers)

/-- **Which splits have no rule in the map of `getRules`.** -/
theorem find_getRules_eq_none_iff (hs : s ∈ splits) :
    KeyedVector.find SplitDescription.compare s (getRules nan splits) = none
      ↔ ¬ HasRule splits s := by
  rw [getRules_eq, KeyedVector.find_foldl_addSome_eq_none_iff, not_hasRule_iff]
  have hpartitions := partitions_groupByMutualExclusivity splits
  constructor
  · intro h
    obtain ⟨group, hgroup, j, heq⟩ := exists_group_of_mem hs
    have hentry : ((group.get j), simplify (generate nan group j)) ∈ ruleEntries nan splits :=
      List.mem_flatMap.mpr ⟨group, hgroup, List.mem_map.mpr ⟨j, List.mem_finRange j, rfl⟩⟩
    have hnull := h _ hentry heq
    dsimp only at hnull
    obtain ⟨honly, hgroupDensity⟩ := (simplify_generate_eq_none_iff j).mp hnull
    obtain ⟨-, -, hdensity, -⟩ := (SplitDescription.compare_eq_iff s (group.get j)).mp heq
    rw [← hdensity] at hgroupDensity
    refine ⟨(densityOnly_congr heq).mpr honly, fun hne => ⟨(hgroupDensity hne).1, ?_⟩⟩
    intro o ho ho0 habi hqualifiers
    -- the other split is in the same group
    have hin : occursIn s group = true :=
      SortedVector.contains_eq_true_iff.mpr ⟨(group.get j), List.getElem_mem j.isLt, heq⟩
    obtain ⟨w, hw, how⟩ := SortedVector.contains_eq_true_iff.mp
      (hpartitions.merged s hs o ho (decide_eq_true hne) (decide_eq_true ho0) habi hqualifiers
        group hgroup hin)
    exact ((SplitDescription.compare_eq_iff o w).mp how).2.2.1.trans ((hgroupDensity hne).2 w hw)
  · rintro ⟨honly, hsplits⟩ e he heq
    obtain ⟨group, hgroup, he⟩ := List.mem_flatMap.mp he
    obtain ⟨j, -, rfl⟩ := List.mem_map.mp he
    have hj : group.get j ∈ group := List.getElem_mem j.isLt
    obtain ⟨-, -, hdensity, -⟩ := (SplitDescription.compare_eq_iff s (group.get j)).mp heq
    dsimp only
    refine (simplify_generate_eq_none_iff j).mpr ⟨(densityOnly_congr heq).mp honly, ?_⟩
    rw [← hdensity]
    refine fun hne => ⟨(hsplits hne).1, ?_⟩
    intro o ho
    obtain ⟨ho0, hoabi, hoqualifiers⟩ := hpartitions.density group hgroup (group.get j) hj
      (decide_eq_true (hdensity ▸ hne)) o ho
    obtain ⟨hsabi, hsqualifiers⟩ := (SplitDescription.compare_densityKey_eq_iff s o).mp
      (Std.TransCmp.eq_trans (compare_densityKey heq)
        ((SplitDescription.compare_densityKey_eq_iff (group.get j) o).mpr ⟨hoabi, hoqualifiers⟩))
    exact (hsplits hne).2 o (hpartitions.given group hgroup o ho) (of_decide_eq_true ho0) hsabi
      hsqualifiers

/-- The rules in the map are formed. -/
theorem formed_of_find_getRules {r : Rule}
    (h : KeyedVector.find SplitDescription.compare s (getRules nan splits) = some r) :
    Formed r := by
  rw [getRules_eq] at h
  obtain ⟨e, he, hsome⟩ := KeyedVector.exists_mem_of_find_foldl_addSome h
  obtain ⟨group, -, he⟩ := List.mem_flatMap.mp he
  obtain ⟨j, -, rfl⟩ := List.mem_map.mp he
  dsimp only at hsome
  exact formed_of_simplify_generate hsome

end Missing

/-! ## Normal termination -/

section Terminates

variable {nan : ℤ}

/-- **An APK has a rule** iff it has a description and every description has a rule. -/
theorem isSome_masterRule_iff {splits descriptions : List SplitDescription}
    (h : ∀ d ∈ descriptions, d ∈ splits) :
    (Main.masterRule (getRules nan splits) descriptions).isSome = true
      ↔ descriptions ≠ [] ∧ ∀ d ∈ descriptions, HasRule splits d := by
  have hfind : (∀ d ∈ descriptions, (KeyedVector.find SplitDescription.compare d
        (getRules nan splits)).isSome = true) ↔ ∀ d ∈ descriptions, HasRule splits d := by
    refine forall₂_congr fun d hd => ?_
    rw [Option.isSome_iff_ne_none, ne_eq, find_getRules_eq_none_iff (h d hd), not_not]
  rw [← hfind, ← isSome_mapM_iff, Main.masterRule]
  cases hrules : descriptions.mapM fun s =>
      KeyedVector.find SplitDescription.compare s (getRules nan splits) with
  | none => simp
  | some rules =>
      have hall := mapM_eq_some_iff.mp hrules
      suffices hsimplify : (simplify (.mk .orSubrules .none false [] [] rules)).isSome = true
          ↔ descriptions ≠ [] by
        simpa using hsimplify
      by_cases hnil : descriptions = []
      · subst hnil
        obtain rfl := List.forall₂_nil_left_iff.mp hall
        simp [simplify, simplifySubrules, Operator.isCombinator]
      · have hne : rules ≠ [] := by
          rintro rfl
          exact hnil (List.forall₂_nil_right_iff.mp hall)
        have hformed : ∀ r ∈ rules, Formed r := by
          intro r hr
          obtain ⟨i, hi, rfl⟩ := List.mem_iff_getElem.mp hr
          have hd := hall.get (hall.length_eq ▸ hi) hi
          exact formed_of_find_getRules hd
        have hor : Formed (.mk .orSubrules .none false [] [] rules) := .node (.inr rfl) hne hformed
        obtain ⟨s, hs, -⟩ := simplify_formed hor
        simp [hs, hnil]

/-- **The rules of all splits are printed iff every split APK has a description and every
description of one has a rule**: otherwise the program ends at the lookup or at the null rule. -/
theorem isSome_generate_iff (nan : ℤ) (splits : List (String × List SplitDescription))
    (base : String) :
    (Main.generate nan splits base).isSome = true
      ↔ ∀ apk ∈ splits, apk.1 ≠ base →
        apk.2 ≠ [] ∧ ∀ d ∈ apk.2, HasRule (splits.flatMap Prod.snd) d := by
  have hturn (apk : String × List SplitDescription) (hapk : apk ∈ splits) :
      (Main.masterRule (getRules nan (splits.flatMap Prod.snd)) apk.2).isSome = true
        ↔ apk.2 ≠ [] ∧ ∀ d ∈ apk.2, HasRule (splits.flatMap Prod.snd) d :=
    isSome_masterRule_iff fun d hd => List.mem_flatMap.mpr ⟨apk, hapk, hd⟩
  rw [Main.generate, isSome_bind_pure, isSome_mapM_iff]
  simp only [isSome_bind_pure]
  constructor
  · intro h apk hapk hbase
    exact (hturn apk hapk).mp (h apk (List.mem_filter.mpr ⟨hapk, decide_eq_true hbase⟩))
  · intro h apk hfilter
    obtain ⟨hapk, hbase⟩ := List.mem_filter.mp hfilter
    exact (hturn apk hapk).mpr (h apk hapk (of_decide_eq_true hbase))

/-- **A split APK for the default configuration ends the program.** -/
theorem generate_default_eq_none :
    (fun nan : ℤ => Main.generate nan [("base.apk", [dpi 0 0]), ("split.apk", [dpi 0 0])] "base.apk")
      = fun _ => none := by
  funext nan
  have hnot : ¬ HasRule [dpi 0 0, dpi 0 0] (dpi 0 0) := by
    rw [not_hasRule_iff]
    exact ⟨by decide, fun h => absurd rfl h⟩
  rw [← Option.not_isSome_iff_eq_none, isSome_generate_iff]
  intro h
  exact hnot ((h ("split.apk", [dpi 0 0]) (by simp) (by decide)).2 _ (by simp))

end Terminates

end AndroidSdk.SplitSelect
