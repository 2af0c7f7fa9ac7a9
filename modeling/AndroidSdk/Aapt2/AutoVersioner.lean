import Mathlib.Algebra.Ring.Nat
import AndroidSdk.Aapt2.ResourceTable
import AndroidSdk.Aapt2.VersionCollapser
import AndroidSdk.Lib.Versions

/-! # Versioning styles

`AutoVersioner` moves the attributes of a style that a version of the platform does not know to a
copy of the style for a later version (`AutoVersioner.cpp`). The copies are inserted into the vector
that is being iterated over, and are versioned in turn.

* **`findAttributeSdkLevel`** — the version that introduced an attribute.
* **`versionValue`**, **`versionValues`** — a turn of the loop over the values of an entry, and the
  loop.
* **`AutoVersioner.consume`** — the pass on a table.
* **`versionValue_spec`** — what a turn does.
* **`Progress`** — the invariant of the loop: what is in force has the usable attributes.
* **`autoVersion_keeps_usable`** — the pass keeps what devices of every version can use. -/

namespace AndroidSdk

/-! ## Families of configurations -/

namespace SplitSelect.ResTableConfig

/-- Two configurations vary at most in their SDK versions. -/
def sameFamily (c o : ResTableConfig) : Bool := (c.withSdkVersion o.sdkVersion).compare o = .eq

/-- Such configurations are the same without their versions. -/
theorem sameFamily_iff (c o : ResTableConfig) : c.sameFamily o = true ↔
    c.copyWithoutSdkVersion.compare o.copyWithoutSdkVersion = .eq := by
  rw [sameFamily, decide_eq_true_iff, compare_eq_iff, compare_eq_iff]
  refine and_congr Iff.rfl (and_congr Iff.rfl ?_)
  exact iff_of_true rfl rfl

variable {c o d : ResTableConfig}

theorem sameFamily_refl (c : ResTableConfig) : c.sameFamily c = true :=
  (sameFamily_iff c c).mpr Std.ReflCmp.compare_self

theorem sameFamily_symm (h : c.sameFamily o = true) : o.sameFamily c = true :=
  (sameFamily_iff o c).mpr (Std.OrientedCmp.eq_symm ((sameFamily_iff c o).mp h))

theorem sameFamily_trans (h : c.sameFamily o = true) (h' : o.sameFamily d = true) :
    c.sameFamily d = true :=
  (sameFamily_iff c d).mpr
    (Std.TransCmp.eq_trans ((sameFamily_iff c o).mp h) ((sameFamily_iff o d).mp h'))

/-- The version does not matter for the family. -/
theorem sameFamily_withSdkVersion (c : ResTableConfig) (sdkVersion : UInt16) :
    c.sameFamily (c.withSdkVersion sdkVersion) = true :=
  (sameFamily_iff _ _).mpr Std.ReflCmp.compare_self

/-- Configurations that are not told apart are in one family. -/
theorem sameFamily_of_compare_eq (h : c.compare o = .eq) : c.sameFamily o = true := by
  obtain ⟨hqualifiers, hdensity, -⟩ := (compare_eq_iff c o).mp h
  rw [sameFamily, decide_eq_true_iff, compare_eq_iff]
  exact ⟨hqualifiers, hdensity, rfl⟩

/-- **A family is ordered by version.** -/
theorem compare_of_sameFamily (h : c.sameFamily o = true) :
    c.compare o = compare c.sdkVersion.toNat o.sdkVersion.toNat := by
  rw [sameFamily, decide_eq_true_iff] at h
  have hminor : c.minorVersion = o.minorVersion :=
    ((compare_eq_iff _ _).mp h).1.2.2.2.2.2.2.2.2.2.2.2.2.2.2.2.2.2.2.2.2.2.2
  rw [compare_eq_then, Ordering.then_eq_eq, Ordering.then_eq_eq] at h
  obtain ⟨hbefore, -, hafter⟩ := h
  have hversion : compare c.version o.version
      = compare c.sdkVersion.toNat o.sdkVersion.toNat := by
    rw [version, version, hminor, Nat.add_comm, Nat.add_comm o.sdkVersion.toNat, compare_add_left]
  rw [compare_eq_then, hversion]
  have hbefore' : compareBeforeVersion c o = .eq := hbefore
  have hafter' : compareAfterVersion c o = .eq := hafter
  rw [hbefore', hafter', Ordering.then_eq]
  rfl

end SplitSelect.ResTableConfig

namespace Aapt2

open Lib SplitSelect.ResTableConfig
open SplitSelect (ResTableConfig)

/-! ## SDK levels -/

/-- `sAttrIdMap`. -/
def sAttrIdMap : List (ℕ × ℕ) :=
  [(0x021c, 1), (0x021d, 2), (0x0269, 3), (0x028d, 4), (0x02ad, 5), (0x02b3, 6), (0x02b5, 7),
    (0x02bd, 8), (0x02cb, 9), (0x0361, 11), (0x0363, 12), (0x0366, 13), (0x03a6, 14), (0x03ae, 16),
    (0x03cc, 17), (0x03da, 18), (0x03f1, 19), (0x03f6, 20), (0x04ce, 21), (0x04d8, 22),
    (0x04f1, 23), (0x0527, 24), (0x0530, 25), (0x0568, 26), (0x056d, 27), (0x0586, 28),
    (0x0606, 29), (0x0616, 30), (0x064b, 31), (0x064c, 32)]

/-- `SDK_LOLLIPOP_MR1`. -/
def sdkLollipopMr1 : ℕ := 22

/-- `FindAttributeSdkLevel`. -/
def findAttributeSdkLevel (id : ResourceId) : ℕ :=
  if id.packageId ≠ 0x01 ∨ id.typeId ≠ 0x01 then 0
  else
    match sAttrIdMap[lowerBound (fun p => decide (p.1 < id.entryId.toNat)) sAttrIdMap]? with
    | none => sdkLollipopMr1
    | some p => p.2

/-- SDK levels fit the field for the version of a configuration. -/
theorem findAttributeSdkLevel_lt (id : ResourceId) : findAttributeSdkLevel id < 65536 := by
  have hall : ∀ p ∈ sAttrIdMap, p.2 < 65536 := by decide
  rw [findAttributeSdkLevel]
  split
  · decide
  · split
    · decide
    next p hp => exact hall p (List.mem_of_getElem? hp)

/-! ## Styles -/

/-- `Style::Entry`: the identifier of the attribute, if it is assigned, and the value. -/
structure StyleEntry (ν : Type) where
  id : Option ResourceId
  value : ν
  deriving DecidableEq

/-- `Style`. -/
structure Style (ν ρ : Type) where
  entries : List (StyleEntry ν)
  parent : ρ
  deriving DecidableEq

/-- The content of a value in a type of styles. -/
inductive StyleContent (ν ρ ω : Type) where
  | style (style : Style ν ρ)
  | other (content : ω)
  deriving DecidableEq

/-- A value of an entry for styles. -/
abbrev StyleValue (ν ρ ω : Type) := ResourceConfigValue (StyleContent ν ρ ω)

section Pass

variable {ι ν ρ ω : Type}

/-- The style with other entries. -/
def Style.withEntries (style : Style ν ρ) (entries : List (StyleEntry ν)) : Style ν ρ :=
  { style with entries }

/-- `ValueCast<Style>`: the style of a value. -/
def Value.style? (value : Value (StyleContent ν ρ ω)) : Option (Style ν ρ) :=
  match value.content with
  | .style style => some style
  | .other _ => none

/-- The value with another style. -/
def Value.withStyle (value : Value (StyleContent ν ρ ω)) (style : Style ν ρ) :
    Value (StyleContent ν ρ ω) :=
  { value with content := .style style }

/-- The value that `Transform` makes of a style with the cloner; only the flag is copied. -/
def Value.cloneWithStyle (value : Value (StyleContent ν ρ ω)) (style : Style ν ρ) :
    Value (StyleContent ν ρ ω) :=
  ⟨.style, .style style, false, true, value.flag, value.flagStatus⟩

/-! ## The pass -/

/-- The version of a value. -/
def ResourceConfigValue.sdk (v : ResourceConfigValue ι) : ℕ := v.config.sdkVersion.toNat

/-- `FindNextApiVersionForConfig`, which ends the program if the configuration is not there. -/
def findNextApiVersionForConfig (values : List (ResourceConfigValue ι)) (config : ResTableConfig) :
    Option ℕ :=
  match values.dropWhile fun v => v.config.compare config ≠ .eq with
  | [] => none
  | _ :: rest =>
      -- the next configuration either only varies in its version, or is completely different
      match rest.find? fun v => config.sameFamily v.config with
      | some v => some v.sdk
      -- the highest possible value
      | none => some 2147483647

/-- `ShouldGenerateVersionedResource`, which ends the program if the version is not greater than
that of the configuration. -/
def shouldGenerateVersionedResource (values : List (ResourceConfigValue ι))
    (config : ResTableConfig) (sdkVersionToGenerate : ℕ) : Option Bool :=
  if config.sdkVersion.toNat < sdkVersionToGenerate then
    (findNextApiVersionForConfig values config).map fun next => sdkVersionToGenerate < next
  else none

/-- `FindOrCreateValue` with the empty product, and the assignment of the value. -/
def setValue (config : ResTableConfig) (value : Value ι) :
    List (ResourceConfigValue ι) → List (ResourceConfigValue ι) :=
  updateFoundOrCreated ConfigKey.compare ResourceConfigValue.key ⟨config, []⟩ (.new config [])
    fun v => { v with value := some value }

/-- The smallest level, which is used for the new style. -/
def lowestLevel (minSdkStripped : Option ℕ) (sdkLevel : ℕ) : ℕ :=
  match minSdkStripped with
  | some m => min m sdkLevel
  | none => sdkLevel

variable (level : ResourceId → ℕ)

/-- The loop over the entries of a style: those that stay, those that are stripped, and the lowest
level of one that is stripped. It ends the program if an identifier is not assigned. -/
def stripLoop (limit : ℕ) : List (StyleEntry ν) → List (StyleEntry ν) → Option ℕ →
    List (StyleEntry ν) → Option (List (StyleEntry ν) × List (StyleEntry ν) × Option ℕ)
  | kept, stripped, minSdkStripped, [] => some (kept, stripped, minSdkStripped)
  | kept, stripped, minSdkStripped, e :: rest => do
      let id ← e.id
      if limit < level id then
        stripLoop limit kept (stripped ++ [e]) (some (lowestLevel minSdkStripped (level id))) rest
      else stripLoop limit (kept ++ [e]) stripped minSdkStripped rest

/-- One turn of the loop over the values of an entry. -/
def versionValue (values : List (StyleValue ν ρ ω)) (i : ℕ) : Option (List (StyleValue ν ρ ω)) :=
  match values[i]? with
  | none => none
  | some v =>
      -- from this version on the attributes are private
      if sdkLollipopMr1 ≤ v.sdk then some values
      else
        match v.value with
        | none => some values
        | some value =>
            match value.style? with
            | none => some values
            | some style => do
                let (kept, stripped, minSdkStripped) ←
                  stripLoop level (max v.sdk 1) [] [] none style.entries
                let left := style.withEntries kept
                let values := values.set i { v with value := some (value.withStyle left) }
                match minSdkStripped with
                | none => return values
                | some m =>
                    if stripped.isEmpty then return values
                    else if ← shouldGenerateVersionedResource values v.config m then
                      let new := left.withEntries (left.entries ++ stripped)
                      return setValue (v.config.withSdkVersion (UInt16.ofNat m))
                        (value.cloneWithStyle new) values
                    else return values

/-- The loop over the values of an entry, which get more on the way. -/
def versionValues : ℕ → List (StyleValue ν ρ ω) → ℕ → Option (List (StyleValue ν ρ ω))
  | 0, _, _ => none
  | fuel + 1, values, i =>
      if i < values.length then do
        let values ← versionValue level values i
        versionValues fuel values (i + 1)
      else some values

/-- The pass on an entry. -/
def autoVersion (fuel : ℕ) (entry : ResourceEntry (StyleContent ν ρ ω)) :
    Option (ResourceEntry (StyleContent ν ρ ω)) :=
  (versionValues level fuel entry.values 0).map fun values => { entry with values }

/-- `AutoVersioner::Consume`: the pass on the entries of all types for styles. -/
def AutoVersioner.consume (fuel : ℕ) (table : ResourceTable (StyleContent ν ρ ω)) :
    Option (ResourceTable (StyleContent ν ρ ω)) := do
  let packages ← table.packages.mapM fun package => do
    let types ← package.types.mapM fun type => do
      if type.namedType.type = .kStyle then
        let entries ← type.entries.mapM (autoVersion level fuel)
        return { type with entries }
      else return type
    return { package with types }
  return { table with packages }

end Pass

/-! ## What a turn does -/

section Turn

variable {ι ν ρ ω : Type} {level : ResourceId → ℕ}

/-- The level of the attribute of an entry. -/
def StyleEntry.sdkLevel (level : ResourceId → ℕ) (e : StyleEntry ν) : ℕ := (e.id.map level).getD 0

/-- The entries of a value, if it is a style. -/
def entriesOf (v : StyleValue ν ρ ω) : List (StyleEntry ν) :=
  ((v.value.bind Value.style?).map Style.entries).getD []

/-- A value is a style. -/
def isStyle (v : StyleValue ν ρ ω) : Bool := (v.value.bind Value.style?).isSome

/-- The lowest level of entries, if there are any. -/
def IsLowest (level : ResourceId → ℕ) (entries : List (StyleEntry ν)) : Option ℕ → Prop
  | none => entries = []
  | some m => (∃ e ∈ entries, e.sdkLevel level = m) ∧ ∀ e ∈ entries, m ≤ e.sdkLevel level

/-- The lowest level with one more entry. -/
theorem IsLowest.append {entries : List (StyleEntry ν)} {lowest : Option ℕ}
    (h : IsLowest level entries lowest) (e : StyleEntry ν) :
    IsLowest level (entries ++ [e]) (some (lowestLevel lowest (e.sdkLevel level))) := by
  cases lowest with
  | none =>
      rw [IsLowest] at h
      subst h
      simp [IsLowest, lowestLevel]
  | some m =>
      obtain ⟨⟨e', he', hm⟩, hle⟩ := h
      rw [lowestLevel]
      refine ⟨?_, ?_⟩
      · by_cases hmin : m ≤ e.sdkLevel level
        · exact ⟨e', List.mem_append_left _ he', by rw [hm, min_eq_left hmin]⟩
        · exact ⟨e, by simp, by rw [min_eq_right (by omega)]⟩
      · intro e'' he''
        obtain he'' | he'' := List.mem_append.mp he''
        · exact (min_le_left _ _).trans (hle e'' he'')
        · rw [List.mem_singleton.mp he'']
          exact min_le_right _ _

/-- The entries for versions up to the limit. -/
def keptEntries (level : ResourceId → ℕ) (limit : ℕ) (entries : List (StyleEntry ν)) :
    List (StyleEntry ν) := entries.filter fun e => e.sdkLevel level ≤ limit

/-- The entries for versions above the limit. -/
def strippedEntries (level : ResourceId → ℕ) (limit : ℕ) (entries : List (StyleEntry ν)) :
    List (StyleEntry ν) := entries.filter fun e => limit < e.sdkLevel level

@[simp] theorem mem_keptEntries_iff {limit : ℕ} {entries : List (StyleEntry ν)} {e : StyleEntry ν} :
    e ∈ keptEntries level limit entries ↔ e ∈ entries ∧ e.sdkLevel level ≤ limit := by
  simp [keptEntries]

@[simp] theorem mem_strippedEntries_iff {limit : ℕ} {entries : List (StyleEntry ν)}
    {e : StyleEntry ν} :
    e ∈ strippedEntries level limit entries ↔ e ∈ entries ∧ limit < e.sdkLevel level := by
  simp [strippedEntries]

/-- **The loop over the entries of a style** splits them at the limit. -/
theorem stripLoop_spec {limit : ℕ} {entries kept stripped : List (StyleEntry ν)}
    {minSdkStripped : Option ℕ} (hids : ∀ e ∈ entries, e.id.isSome = true)
    (hlowest : IsLowest level stripped minSdkStripped) :
    ∃ lowest, stripLoop level limit kept stripped minSdkStripped entries
        = some (kept ++ keptEntries level limit entries,
          stripped ++ strippedEntries level limit entries, lowest)
      ∧ IsLowest level (stripped ++ strippedEntries level limit entries) lowest := by
  induction entries generalizing kept stripped minSdkStripped with
  | nil =>
      refine ⟨minSdkStripped, ?_, ?_⟩
      · simp [stripLoop, keptEntries, strippedEntries]
      · simpa [strippedEntries] using hlowest
  | cons e entries ih =>
      obtain ⟨id, hid⟩ := Option.isSome_iff_exists.mp (hids e List.mem_cons_self)
      have hrest : ∀ e' ∈ entries, e'.id.isSome = true :=
        fun e' he' => hids e' (List.mem_cons_of_mem e he')
      have hlevel : e.sdkLevel level = level id := by rw [StyleEntry.sdkLevel, hid]; rfl
      rw [stripLoop, hid, Option.bind_eq_bind, Option.bind_some, keptEntries, strippedEntries]
      by_cases habove : limit < level id
      · rw [if_pos habove, List.filter_cons_of_neg (by simp [hlevel, habove]),
          List.filter_cons_of_pos (by simp [hlevel, habove])]
        have hlowest' := hlowest.append e
        rw [hlevel] at hlowest'
        obtain ⟨lowest, hloop, hlow⟩ := @ih kept (stripped ++ [e]) _ hrest hlowest'
        rw [List.append_assoc, List.singleton_append] at hloop hlow
        exact ⟨lowest, hloop, hlow⟩
      · rw [if_neg habove, List.filter_cons_of_pos (by simp [hlevel]; omega),
          List.filter_cons_of_neg (by simp [hlevel]; omega)]
        obtain ⟨lowest, hloop, hlow⟩ := @ih (kept ++ [e]) stripped minSdkStripped hrest hlowest
        rw [List.append_assoc kept, List.singleton_append] at hloop
        exact ⟨lowest, hloop, hlow⟩

/-- The values of an entry are in the order of their configurations. -/
def Ordered (values : List (ResourceConfigValue ι)) : Prop :=
  StrictlySortedBy ResTableConfig.compare ResourceConfigValue.config values

/-- Of a family, the values behind another one have higher versions. -/
theorem Ordered.sdk_lt {v z : ResourceConfigValue ι} {todo : List (ResourceConfigValue ι)}
    (h : Ordered (v :: todo)) (hz : z ∈ todo) (hfamily : v.config.sameFamily z.config = true) :
    v.sdk < z.sdk := by
  have hlt := (List.pairwise_cons.mp h).1 z hz
  rw [compare_of_sameFamily hfamily] at hlt
  exact compare_lt_iff_lt.mp hlt

/-- **The next version of a family** is the lowest one behind the value, or the highest possible
version. -/
theorem findNextApiVersionForConfig_spec {done todo : List (ResourceConfigValue ι)}
    {v : ResourceConfigValue ι} (h : Ordered (done ++ v :: todo)) :
    ∃ next, findNextApiVersionForConfig (done ++ v :: todo) v.config = some next
      ∧ (∀ z ∈ todo, v.config.sameFamily z.config = true → next ≤ z.sdk)
      ∧ (next < 2147483647 → ∃ z ∈ todo, v.config.sameFamily z.config = true ∧ z.sdk = next) := by
  obtain ⟨-, htail, hcross⟩ := List.pairwise_append.mp h
  have hdrop : (done ++ v :: todo).dropWhile (fun w => decide (w.config.compare v.config ≠ .eq))
      = v :: todo := by
    have hself : v.config.compare v.config = .eq := Std.ReflCmp.compare_self
    rw [List.dropWhile_append_of_pos, List.dropWhile_cons_of_neg]
    · simp [hself]
    · intro w hw
      have hlt := hcross w hw v List.mem_cons_self
      simp [hlt]
  rw [findNextApiVersionForConfig, hdrop]
  dsimp only
  cases hfind : todo.find? fun w => v.config.sameFamily w.config with
  | none =>
      refine ⟨_, rfl, fun z hz hfamily => ?_, fun hlt => absurd hlt (by decide)⟩
      exact absurd hfamily (List.find?_eq_none.mp hfind z hz)
  | some z =>
      have hfamily : v.config.sameFamily z.config = true := by simpa using List.find?_some hfind
      obtain ⟨hz, before, after, rfl, hbefore⟩ := List.find?_eq_some_iff_append.mp hfind
      refine ⟨z.sdk, rfl, ?_, fun _ => ⟨z, by simp, hfamily, rfl⟩⟩
      intro z' hz' hfamily'
      obtain hz' | hz' := List.mem_append.mp hz'
      · have hnot := hbefore z' hz'
        rw [hfamily'] at hnot
        cases hnot
      · obtain rfl | hz' := List.mem_cons.mp hz'
        · exact le_rfl
        · have hordered : Ordered (z :: after) :=
            (List.pairwise_append.mp (List.pairwise_cons.mp htail).2).2.1
          exact (hordered.sdk_lt hz'
            (sameFamily_trans (sameFamily_symm hfamily) hfamily')).le

/-- **A version is generated** iff it is before those of the family behind the value. -/
theorem shouldGenerateVersionedResource_spec {done todo : List (ResourceConfigValue ι)}
    {v : ResourceConfigValue ι} {m : ℕ} (h : Ordered (done ++ v :: todo)) (hlow : v.sdk < m)
    (hbound : m < 65536) :
    ∃ generate, shouldGenerateVersionedResource (done ++ v :: todo) v.config m = some generate
      ∧ if generate then ∀ z ∈ todo, v.config.sameFamily z.config = true → m < z.sdk
        else ∃ z ∈ todo, v.config.sameFamily z.config = true ∧ z.sdk ≤ m := by
  obtain ⟨next, hfind, hnext, hthere⟩ := findNextApiVersionForConfig_spec h
  refine ⟨decide (m < next), ?_, ?_⟩
  · rw [shouldGenerateVersionedResource, hfind]
    exact if_pos hlow
  · by_cases hlt : m < next
    · simp only [hlt, decide_true, if_true]
      exact fun z hz hfamily => hlt.trans_le (hnext z hz hfamily)
    · simp only [hlt, decide_false, Bool.false_eq_true, if_false]
      obtain ⟨z, hz, hfamily, hsdk⟩ := hthere (by omega)
      exact ⟨z, hz, hfamily, by omega⟩

/-- Without products, the order of the values is that of their configurations. -/
theorem compare_key {a b : ResourceConfigValue ι} (ha : a.product = []) (hb : b.product = []) :
    ConfigKey.compare a.key b.key = a.config.compare b.config := by
  have hproduct : compare a.key.product b.key.product = .eq := by
    rw [ResourceConfigValue.key, ResourceConfigValue.key, ha, hb]
    exact Std.ReflCmp.compare_self
  rw [ConfigKey.compare, compareLex, compareOn, hproduct, Ordering.then_eq]
  rfl

/-- The value that is created for a configuration. -/
def createdValue (config : ResTableConfig) (value : Value ι) : ResourceConfigValue ι :=
  ⟨config, [], some value, false⟩

/-- **A value for a new configuration** behind the first values is inserted among the others. -/
theorem exists_split_setValue {done todo : List (ResourceConfigValue ι)} {config : ResTableConfig}
    (value : Value ι) (hproduct : ∀ x ∈ done ++ todo, x.product = []) (h : Ordered todo)
    (hdone : ∀ x ∈ done, x.config.compare config = .lt)
    (hfresh : ∀ x ∈ todo, x.config.compare config ≠ .eq) :
    ∃ p q, todo = p ++ q
      ∧ setValue config value (done ++ todo) = done ++ (p ++ createdValue config value :: q)
      ∧ Ordered (p ++ createdValue config value :: q) := by
  have hkey : ∀ x ∈ done ++ todo, ConfigKey.compare x.key ⟨config, []⟩ = x.config.compare config :=
    fun x hx => compare_key (b := createdValue config value) (hproduct x hx) rfl
  have hsorted : SortedBy ConfigKey.compare ResourceConfigValue.key todo := by
    refine (List.Pairwise.imp_of_mem ?_ h)
    intro x z hx hz hlt
    rw [compare_key (hproduct x (List.mem_append_right _ hx))
      (hproduct z (List.mem_append_right _ hz)), hlt]
    rfl
  have hsplit : ∃ p q, todo = p ++ q
      ∧ setValue config value (done ++ todo) = done ++ (p ++ createdValue config value :: q)
      ∧ (∀ x ∈ p, ConfigKey.compare x.key ⟨config, []⟩ = .lt)
      ∧ ∀ x ∈ q, ConfigKey.compare x.key ⟨config, []⟩ = .gt :=
    exists_split_updateFoundOrCreated hsorted
      (fun x hx => (hkey x (List.mem_append_left _ hx)).trans (hdone x hx))
      (fun x hx => (hkey x (List.mem_append_right _ hx)).symm ▸ hfresh x hx)
  obtain ⟨p, q, rfl, hset, hp, hq⟩ := hsplit
  refine ⟨p, q, rfl, hset, ?_⟩
  obtain ⟨hpp, hqq, hcross⟩ := List.pairwise_append.mp h
  refine List.pairwise_append.mpr ⟨hpp, List.pairwise_cons.mpr ⟨?_, hqq⟩, ?_⟩
  · intro z hz
    have hgt := hq z hz
    rw [hkey z (by simp [hz])] at hgt
    exact Std.OrientedCmp.lt_of_gt hgt
  · intro x hx z hz
    obtain rfl | hz := List.mem_cons.mp hz
    · have hlt := hp x hx
      rwa [hkey x (by simp [hx])] at hlt
    · exact hcross x hx z hz

/-- The values behind one, with at most a copy of it for a version before those that there are. -/
def Copied (v : StyleValue ν ρ ω) (todo todo' : List (StyleValue ν ρ ω)) : Prop :=
  todo' = todo ∨ ∃ p y q, todo = p ++ q ∧ todo' = p ++ y :: q ∧ y.product = []
    ∧ v.config.sameFamily y.config = true ∧ v.sdk < y.sdk
    ∧ (∀ z ∈ todo, v.config.sameFamily z.config = true → y.sdk < z.sdk)
    ∧ isStyle y = isStyle v ∧ ∀ e, e ∈ entriesOf y ↔ e ∈ entriesOf v

/-- What a turn of the loop makes of a value and of those behind it. -/
structure Turn (level : ResourceId → ℕ) (v : StyleValue ν ρ ω) (todo : List (StyleValue ν ρ ω))
    (v' : StyleValue ν ρ ω) (todo' : List (StyleValue ν ρ ω)) : Prop where
  config : v'.config = v.config
  product : v'.product = v.product
  style : isStyle v' = isStyle v
  entries : ∀ e ∈ entriesOf v', e ∈ entriesOf v
  clean : v.sdk < sdkLollipopMr1 → ∀ e ∈ entriesOf v', e.sdkLevel level ≤ max v.sdk 1
  /-- What is stripped is not for the versions up to the next one. -/
  usable : ∀ e ∈ entriesOf v, e ∈ entriesOf v'
    ∨ ∃ z ∈ todo', v.config.sameFamily z.config = true ∧ z.sdk ≤ e.sdkLevel level
  ordered : Ordered (v' :: todo')
  rest : Copied v todo todo'

/-- A turn that changes nothing. -/
theorem turn_refl {v : StyleValue ν ρ ω} {todo : List (StyleValue ν ρ ω)} (h : Ordered (v :: todo))
    (hclean : v.sdk < sdkLollipopMr1 → ∀ e ∈ entriesOf v, e.sdkLevel level ≤ max v.sdk 1) :
    Turn level v todo v todo where
  config := rfl
  product := rfl
  style := rfl
  entries _ he := he
  clean := hclean
  usable _ he := .inl he
  ordered := h
  rest := .inl rfl

/-- The value of a style with other entries. -/
def StyleValue.withEntries (v : StyleValue ν ρ ω) (value : Value (StyleContent ν ρ ω))
    (style : Style ν ρ) (entries : List (StyleEntry ν)) : StyleValue ν ρ ω :=
  { v with value := some (value.withStyle (style.withEntries entries)) }

@[simp] theorem StyleValue.withEntries_config (v : StyleValue ν ρ ω)
    (value : Value (StyleContent ν ρ ω)) (style : Style ν ρ) (entries : List (StyleEntry ν)) :
    (StyleValue.withEntries v value style entries).config = v.config := rfl

@[simp] theorem entriesOf_withEntries (v : StyleValue ν ρ ω) (value : Value (StyleContent ν ρ ω))
    (style : Style ν ρ) (entries : List (StyleEntry ν)) :
    entriesOf (StyleValue.withEntries v value style entries) = entries := rfl

/-- The order is that of the configurations, so that values for the same one may be exchanged. -/
theorem Ordered.replace {done todo : List (ResourceConfigValue ι)} {v v' : ResourceConfigValue ι}
    (h : Ordered (done ++ v :: todo)) (hconfig : v'.config = v.config) :
    Ordered (done ++ v' :: todo) := by
  obtain ⟨hdone, htail, hcross⟩ := List.pairwise_append.mp h
  obtain ⟨hhead, htodo⟩ := List.pairwise_cons.mp htail
  refine List.pairwise_append.mpr ⟨hdone, List.pairwise_cons.mpr ⟨?_, htodo⟩, ?_⟩
  · intro z hz
    rw [hconfig]
    exact hhead z hz
  · intro x hx z hz
    obtain rfl | hz := List.mem_cons.mp hz
    · rw [hconfig]
      exact hcross x hx v List.mem_cons_self
    · exact hcross x hx z (List.mem_cons_of_mem v hz)

section Style

variable {v : StyleValue ν ρ ω} {value : Value (StyleContent ν ρ ω)} {style : Style ν ρ}
  {done todo todo' : List (StyleValue ν ρ ω)} (hvalue : v.value = some value)
  (hstyle : value.style? = some style)

include hvalue hstyle

theorem isStyle_of_style : isStyle v = true := by
  rw [isStyle, hvalue, Option.bind_some, hstyle]
  rfl

theorem entriesOf_of_style : entriesOf v = style.entries := by
  rw [entriesOf, hvalue, Option.bind_some, hstyle]
  rfl

/-- A turn that strips a style of the entries above its limit. -/
theorem turn_strip (hordered : Ordered (v :: todo'))
    (hstripped : ∀ e ∈ strippedEntries level (max v.sdk 1) style.entries,
      ∃ z ∈ todo', v.config.sameFamily z.config = true ∧ z.sdk ≤ e.sdkLevel level)
    (hrest : Copied v todo todo') :
    Turn level v todo (StyleValue.withEntries v value style
      (keptEntries level (max v.sdk 1) style.entries)) todo' := by
  have hentries := entriesOf_of_style hvalue hstyle
  refine ⟨rfl, rfl, ?_, ?_, ?_, ?_, @Ordered.replace _ [] _ _ _ hordered rfl, hrest⟩
  · rw [isStyle_of_style hvalue hstyle]
    rfl
  · intro e he
    rw [hentries]
    exact (mem_keptEntries_iff.mp he).1
  · intro _ e he
    exact (mem_keptEntries_iff.mp he).2
  · intro e he
    rw [hentries] at he
    by_cases hle : e.sdkLevel level ≤ max v.sdk 1
    · exact .inl (mem_keptEntries_iff.mpr ⟨he, hle⟩)
    · exact .inr (hstripped e (mem_strippedEntries_iff.mpr ⟨he, Nat.not_le.mp hle⟩))

/-- **A copy for a version before the next one** is inserted among the values behind the style. -/
theorem exists_copied_setValue {v' : StyleValue ν ρ ω} {m : ℕ} (new : Style ν ρ)
    (h : Ordered (done ++ v' :: todo)) (hproduct : ∀ x ∈ done ++ v' :: todo, x.product = [])
    (hconfig : v'.config = v.config) (hbound : m < 65536) (hlow : v.sdk < m)
    (hnext : ∀ z ∈ todo, v.config.sameFamily z.config = true → m < z.sdk)
    (hnew : ∀ e, e ∈ new.entries ↔ e ∈ style.entries) :
    ∃ todo', setValue (v.config.withSdkVersion (UInt16.ofNat m)) (value.cloneWithStyle new)
        (done ++ v' :: todo) = done ++ v' :: todo'
      ∧ Ordered (v :: todo') ∧ Copied v todo todo'
      ∧ ∃ z ∈ todo', v.config.sameFamily z.config = true ∧ z.sdk = m := by
  have hm : (v.config.withSdkVersion (UInt16.ofNat m)).sdkVersion.toNat = m := by
    show (UInt16.ofNat m).toNat = m
    rw [UInt16.toNat_ofNat']
    exact Nat.mod_eq_of_lt hbound
  have hfamily := sameFamily_withSdkVersion v.config (UInt16.ofNat m)
  generalize v.config.withSdkVersion (UInt16.ofNat m) = config at hm hfamily ⊢
  obtain ⟨-, htail, hcross⟩ := List.pairwise_append.mp h
  obtain ⟨hhead, htodo⟩ := List.pairwise_cons.mp htail
  have hlt : v'.config.compare config = .lt := by
    rw [hconfig, compare_of_sameFamily hfamily, hm]
    exact compare_lt_iff_lt.mpr hlow
  have hbefore : ∀ x ∈ done ++ [v'], x.config.compare config = .lt := by
    intro x hx
    obtain hx | hx := List.mem_append.mp hx
    · exact Std.TransCmp.lt_trans (hcross x hx v' List.mem_cons_self) hlt
    · rw [List.mem_singleton.mp hx]
      exact hlt
  have hfresh : ∀ x ∈ todo, x.config.compare config ≠ .eq := by
    -- a value for the configuration would be of the family, and those are for later versions
    intro x hx heq
    have hsame := sameFamily_of_compare_eq heq
    have hgt := hnext x hx (sameFamily_trans hfamily (sameFamily_symm hsame))
    rw [compare_of_sameFamily hsame, hm, Nat.compare_eq_eq] at heq
    exact absurd heq (Nat.ne_of_gt hgt)
  have hassoc : done ++ v' :: todo = (done ++ [v']) ++ todo := by simp
  rw [hassoc] at hproduct ⊢
  obtain ⟨p, q, rfl, hset, hordered⟩ :=
    exists_split_setValue (value.cloneWithStyle new) hproduct htodo hbefore hfresh
  refine ⟨p ++ createdValue config (value.cloneWithStyle new) :: q, ?_, ?_, ?_, ?_⟩
  · rw [hset, List.append_assoc, List.singleton_append]
  · refine List.pairwise_cons.mpr ⟨?_, hordered⟩
    intro z hz
    rw [← hconfig]
    obtain hz | hz := List.mem_append.mp hz
    · exact hhead z (List.mem_append_left _ hz)
    · obtain rfl | hz := List.mem_cons.mp hz
      · exact hlt
      · exact hhead z (List.mem_append_right _ hz)
  · refine .inr ⟨p, _, q, rfl, rfl, rfl, hfamily, ?_, ?_, ?_, ?_⟩
    · exact hlow.trans_eq hm.symm
    · intro z hz hsame
      exact hm.trans_lt (hnext z hz hsame)
    · rw [isStyle_of_style hvalue hstyle]
      rfl
    · intro e
      rw [entriesOf_of_style hvalue hstyle]
      exact hnew e
  · exact ⟨createdValue config (value.cloneWithStyle new), by simp, hfamily, hm⟩

/-- A turn of the loop on a style, step by step. -/
theorem versionValue_eq (hids : ∀ e ∈ style.entries, e.id.isSome = true)
    (hold : v.sdk < sdkLollipopMr1) {kept stripped : List (StyleEntry ν)}
    (hkept : kept = keptEntries level (max v.sdk 1) style.entries)
    (hstripped : stripped = strippedEntries level (max v.sdk 1) style.entries)
    {values : List (StyleValue ν ρ ω)}
    (hvalues : values = done ++ StyleValue.withEntries v value style kept :: todo) :
    ∃ lowest, IsLowest level stripped lowest
      ∧ versionValue level (done ++ v :: todo) done.length = match lowest with
        | none => some values
        | some m => (shouldGenerateVersionedResource values v.config m).map fun generate =>
            if generate then setValue (v.config.withSdkVersion (UInt16.ofNat m))
              (value.cloneWithStyle (style.withEntries (kept ++ stripped))) values
            else values := by
  obtain ⟨lowest, hloop, hlowest⟩ :=
    @stripLoop_spec ν level (max v.sdk 1) style.entries [] [] none hids rfl
  rw [List.nil_append, ← hstripped] at hlowest
  rw [List.nil_append, List.nil_append, ← hkept, ← hstripped] at hloop
  have hat : (done ++ v :: todo)[done.length]? = some v := by simp
  have hset : (done ++ v :: todo).set done.length { v with
      value := some (value.withStyle (style.withEntries kept)) } = values := by
    rw [hvalues]
    simp [StyleValue.withEntries]
  refine ⟨lowest, hlowest, ?_⟩
  rw [versionValue, hat]
  dsimp only
  rw [if_neg (Nat.not_le.mpr hold), hvalue]
  dsimp only
  rw [hstyle]
  dsimp only
  rw [hloop, Option.bind_eq_bind, Option.bind_some]
  dsimp only
  rw [hset]
  cases lowest with
  | none => rfl
  | some m =>
      -- a lowest level is that of something that was stripped
      have hnonempty : stripped.isEmpty = false := by
        obtain ⟨⟨e, he, -⟩, -⟩ := hlowest
        exact List.isEmpty_eq_false_iff.mpr (List.ne_nil_of_mem he)
      dsimp only
      rw [hnonempty]
      cases shouldGenerateVersionedResource values v.config m with
      | none => rfl
      | some generate => cases generate <;> rfl

/-- **A turn of the loop on a style.** -/
theorem versionValue_style (hlevel : ∀ id, level id < 65536) (h : Ordered (done ++ v :: todo))
    (hproduct : ∀ x ∈ done ++ v :: todo, x.product = [])
    (hids : ∀ e ∈ style.entries, e.id.isSome = true) (hold : v.sdk < sdkLollipopMr1) :
    ∃ v' todo', versionValue level (done ++ v :: todo) done.length = some (done ++ v' :: todo')
      ∧ Turn level v todo v' todo' := by
  obtain ⟨lowest, hlowest, hversion⟩ :=
    @versionValue_eq _ _ _ level _ _ _ done todo hvalue hstyle hids hold _ _ rfl rfl _ rfl
  rw [hversion]
  have hturn {todo' : List (StyleValue ν ρ ω)} :=
    @turn_strip _ _ _ level _ _ _ todo todo' hvalue hstyle
  have hordered : Ordered (v :: todo) := (List.pairwise_append.mp h).2.1
  have hordered' : Ordered (done ++ StyleValue.withEntries v value style
      (keptEntries level (max v.sdk 1) style.entries) :: todo) := h.replace rfl
  cases lowest with
  | none =>
      refine ⟨_, todo, rfl, hturn hordered ?_ (.inl rfl)⟩
      intro e he
      rw [hlowest] at he
      cases he
  | some m =>
      obtain ⟨⟨e₀, he₀, hm⟩, hleast⟩ := hlowest
      obtain ⟨hmem, habove⟩ := mem_strippedEntries_iff.mp he₀
      have hlow : v.sdk < m := by omega
      have hbound : m < 65536 := by
        obtain ⟨id, hid⟩ := Option.isSome_iff_exists.mp (hids e₀ hmem)
        rw [← hm, StyleEntry.sdkLevel, hid]
        exact hlevel id
      obtain ⟨generate, hgenerate, hspec⟩ :=
        shouldGenerateVersionedResource_spec hordered' hlow hbound
      rw [StyleValue.withEntries_config] at hgenerate hspec
      dsimp only
      rw [hgenerate, Option.map_some]
      cases generate with
      | false =>
          -- there is a value for the version, or for one before it
          obtain ⟨z, hz, hfamily, hle⟩ := hspec
          refine ⟨_, todo, rfl, hturn hordered ?_ (.inl rfl)⟩
          intro e he
          exact ⟨z, hz, hfamily, hle.trans (hleast e he)⟩
      | true =>
          have hproduct' : ∀ x ∈ done ++ StyleValue.withEntries v value style
              (keptEntries level (max v.sdk 1) style.entries) :: todo, x.product = [] := by
            intro x hx
            obtain hx | hx := List.mem_append.mp hx
            · exact hproduct x (List.mem_append_left _ hx)
            · obtain rfl | hx := List.mem_cons.mp hx
              · exact hproduct v (by simp)
              · exact hproduct x (by simp [hx])
          have hall : ∀ e, e ∈ keptEntries level (max v.sdk 1) style.entries
              ++ strippedEntries level (max v.sdk 1) style.entries ↔ e ∈ style.entries := by
            intro e
            rw [List.mem_append, mem_keptEntries_iff, mem_strippedEntries_iff, ← and_or_left]
            exact and_iff_left (le_or_gt _ _)
          obtain ⟨todo', hinsert, hordered'', hcopied, z, hz, hfamily, hsdk⟩ :=
            exists_copied_setValue hvalue hstyle (style.withEntries (_ ++ _)) hordered' hproduct'
              rfl hbound hlow hspec hall
          refine ⟨_, todo', congrArg some hinsert, hturn hordered'' ?_ hcopied⟩
          intro e he
          exact ⟨z, hz, hfamily, hsdk.trans_le (hleast e he)⟩

end Style

/-- **A turn of the loop over the values of an entry.** -/
theorem versionValue_spec {done todo : List (StyleValue ν ρ ω)} {v : StyleValue ν ρ ω}
    (hlevel : ∀ id, level id < 65536) (h : Ordered (done ++ v :: todo))
    (hproduct : ∀ x ∈ done ++ v :: todo, x.product = [])
    (hids : v.sdk < sdkLollipopMr1 → ∀ e ∈ entriesOf v, e.id.isSome = true) :
    ∃ v' todo', versionValue level (done ++ v :: todo) done.length = some (done ++ v' :: todo')
      ∧ Turn level v todo v' todo' := by
  obtain ⟨-, hordered, hcross⟩ := List.pairwise_append.mp h
  have hat : (done ++ v :: todo)[done.length]? = some v := by
    rw [List.getElem?_append_right le_rfl, Nat.sub_self]
    rfl
  by_cases hnew : sdkLollipopMr1 ≤ v.sdk
  · refine ⟨v, todo, ?_, turn_refl hordered fun hlt => absurd hlt (Nat.not_lt.mpr hnew)⟩
    rw [versionValue, hat]
    exact if_pos hnew
  cases hvalue : v.value with
  | none =>
      have hentries : entriesOf v = [] := by simp [entriesOf, hvalue]
      refine ⟨v, todo, ?_, turn_refl hordered fun _ e he => by simp [hentries] at he⟩
      rw [versionValue, hat]
      simp only [hvalue, ite_self]
  | some value =>
      cases hstyle : value.style? with
      | none =>
          have hentries : entriesOf v = [] := by simp [entriesOf, hvalue, hstyle]
          refine ⟨v, todo, ?_, turn_refl hordered fun _ e he => by simp [hentries] at he⟩
          rw [versionValue, hat]
          simp only [hvalue, hstyle, ite_self]
      | some style =>
          have hold : v.sdk < sdkLollipopMr1 := Nat.not_le.mp hnew
          rw [entriesOf_of_style hvalue hstyle] at hids
          exact versionValue_style hvalue hstyle hlevel h hproduct (hids hold) hold

end Turn

/-! ## What is in force -/

section Progress

variable {ν ρ ω : Type} {level : ResourceId → ℕ} {values done todo todo' : List (StyleValue ν ρ ω)}
  {v v' x : StyleValue ν ρ ω} {c : ResTableConfig} {s : ℕ}

/-- The value that devices of a version choose among those for a configuration. -/
def Chosen (c : ResTableConfig) (values : List (StyleValue ν ρ ω)) (s : ℕ) (x : StyleValue ν ρ ω) :
    Prop :=
  InForce (fun v : StyleValue ν ρ ω => c.sameFamily v.config = true) ResourceConfigValue.sdk
    values s x

/-- Of a style, another one has the entries that devices of a version can use, and no more. -/
structure Keeps (level : ResourceId → ℕ) (s : ℕ) (old new : StyleValue ν ρ ω) : Prop where
  style : isStyle new = isStyle old
  usable : ∀ e ∈ entriesOf old, e.sdkLevel level ≤ s → e ∈ entriesOf new
  only : ∀ e ∈ entriesOf new, e ∈ entriesOf old

/-- Of a family, the values before another one have lower versions. -/
theorem Ordered.sdk_lt_of_append (h : Ordered (done ++ v :: todo)) (hx : x ∈ done)
    (hfamily : x.config.sameFamily v.config = true) : x.sdk < v.sdk := by
  have hlt := (List.pairwise_append.mp h).2.2 x hx v List.mem_cons_self
  rw [compare_of_sameFamily hfamily] at hlt
  exact compare_lt_iff_lt.mp hlt

theorem Turn.sdk_eq (hturn : Turn level v todo v' todo') : v'.sdk = v.sdk := by
  rw [ResourceConfigValue.sdk, hturn.config]
  rfl

/-- **What was chosen before a turn**: the same value, or the one of the turn for that and for a
copy of it. -/
theorem Turn.chosen (hturn : Turn level v todo v' todo') (h : Ordered (done ++ v :: todo))
    (hx : Chosen c (done ++ v' :: todo') s x) :
    (Chosen c (done ++ v :: todo) s x ∧ (x ∈ todo' → x ∈ todo))
      ∨ (Chosen c (done ++ v :: todo) s v ∧ x = v')
      ∨ (Chosen c (done ++ v :: todo) s v ∧ isStyle x = isStyle v
        ∧ ∀ e, e ∈ entriesOf x ↔ e ∈ entriesOf v) := by
  have hfamily : c.sameFamily v'.config = true ↔ c.sameFamily v.config = true := by
    rw [hturn.config]
  have hversion : v'.sdk = v.sdk := hturn.sdk_eq
  -- without the copy, only the value of the turn is exchanged
  have hreplace (hx : Chosen c (done ++ v' :: todo) s x) (hback : x ∈ todo' → x ∈ todo) :
      (Chosen c (done ++ v :: todo) s x ∧ (x ∈ todo' → x ∈ todo))
        ∨ (Chosen c (done ++ v :: todo) s v ∧ x = v') := by
    by_cases heq : x = v'
    · subst heq
      exact .inr ⟨InForce.of_replace hfamily hversion hx, rfl⟩
    · refine .inl ⟨InForce.of_replace_other hfamily hversion hx ?_, hback⟩
      have hmem : x ∈ done ++ v' :: todo := hx.mem
      simp only [List.mem_append, List.mem_cons, heq, false_or] at hmem ⊢
      exact hmem.imp_right .inr
  obtain rfl | ⟨p, y, q, rfl, rfl, -, hy, hlt, hnext, hstyle, hentries⟩ := hturn.rest
  · exact (hreplace hx id).imp_right .inl
  · have hassoc : done ++ v' :: (p ++ y :: q) = (done ++ v' :: p) ++ y :: q := by simp
    have hassoc' : done ++ v' :: (p ++ q) = (done ++ v' :: p) ++ q := by simp
    rw [Chosen, hassoc] at hx
    by_cases heq : x = y
    · subst heq
      have hsplit : InForce (fun v : StyleValue ν ρ ω => c.sameFamily v.config = true)
          ResourceConfigValue.sdk ((done ++ v' :: p) ++ q) s v' := by
        have hv : c.sameFamily v.config = true := sameFamily_trans hx.belongs (sameFamily_symm hy)
        refine InForce.of_split hx (by simp) (hfamily.mpr hv) (hversion.trans_lt hlt) ?_
        intro z hz hzfamily
        have hvz : v.config.sameFamily z.config = true :=
          sameFamily_trans (sameFamily_symm hv) hzfamily
        rw [← hassoc'] at hz
        obtain hz | hz := List.mem_append.mp hz
        · exact .inl ((h.sdk_lt_of_append hz (sameFamily_symm hvz)).le.trans_eq hversion.symm)
        · obtain rfl | hz := List.mem_cons.mp hz
          · exact .inl le_rfl
          · exact .inr (hnext z hz hvz)
      rw [← hassoc'] at hsplit
      exact .inr (.inr ⟨InForce.of_replace hfamily hversion hsplit, hstyle, hentries⟩)
    · obtain hx | hx := InForce.of_insert hx
      · exact absurd hx heq
      · rw [← hassoc'] at hx
        refine (hreplace hx ?_).imp_right .inl
        intro hmem
        simpa [heq] using hmem

/-- **The value of a turn**, where it is chosen, has what devices can use of it: an entry that was
stripped is for versions from that of another value on. -/
theorem Turn.keeps {old : StyleValue ν ρ ω} (hturn : Turn level v todo v' todo')
    (hchosen : Chosen c (done ++ v' :: todo') s v') (hkeeps : Keeps level s old v)
    (hsame : ∀ e ∈ entriesOf old, e ∈ entriesOf v) : Keeps level s old v' where
  style := hturn.style.trans hkeeps.style
  only e he := hkeeps.only e (hturn.entries e he)
  usable e he hle := by
    obtain he' | ⟨z, hz, hfamily, hsdk⟩ := hturn.usable e (hsame e he)
    · exact he'
    · rw [← hturn.config] at hfamily
      have hlt : v'.sdk < z.sdk := hturn.ordered.sdk_lt hz hfamily
      have hmem : z ∈ done ++ v' :: todo' :=
        List.mem_append_right done (List.mem_cons_of_mem v' hz)
      have hhighest : z.sdk ≤ v'.sdk :=
        hchosen.highest z hmem (sameFamily_trans hchosen.belongs hfamily) (hsdk.trans hle)
      exact absurd hlt (Nat.not_lt.mpr hhighest)

/-- The invariant of the loop over the values of an entry. -/
structure Progress (level : ResourceId → ℕ) (before done todo : List (StyleValue ν ρ ω)) :
    Prop where
  ordered : Ordered (done ++ todo)
  product : ∀ x ∈ done ++ todo, x.product = []
  ids : ∀ x ∈ done ++ todo, x.sdk < sdkLollipopMr1 → ∀ e ∈ entriesOf x, e.id.isSome = true
  clean : ∀ x ∈ done, x.sdk < sdkLollipopMr1 → ∀ e ∈ entriesOf x, e.sdkLevel level ≤ max x.sdk 1
  covers : ∀ c s, (∃ x, Chosen c before s x) → ∃ x, Chosen c (done ++ todo) s x
  /-- What is chosen comes from what was chosen, and is as that was before its turn. -/
  kept : ∀ c s x, Chosen c (done ++ todo) s x → ∃ old, Chosen c before s old ∧ Keeps level s old x
    ∧ (x ∈ todo → ∀ e ∈ entriesOf old, e ∈ entriesOf x)

/-- **The invariant holds at the start.** -/
theorem progress_init (hordered : Ordered values) (hproduct : ∀ x ∈ values, x.product = [])
    (hids : ∀ x ∈ values, x.sdk < sdkLollipopMr1 → ∀ e ∈ entriesOf x, e.id.isSome = true) :
    Progress level values [] values where
  ordered := hordered
  product := hproduct
  ids := hids
  clean x hx := by cases hx
  covers _ _ h := h
  kept _ _ x hx := ⟨x, hx, ⟨rfl, fun _ he _ => he, fun _ he => he⟩, fun _ _ he => he⟩

/-- Of the values behind one, all but a copy of it were there. -/
theorem Copied.mem {z : StyleValue ν ρ ω} (h : Copied v todo todo') (hz : z ∈ todo') :
    z ∈ todo ∨ (z.product = [] ∧ v.sdk < z.sdk ∧ ∀ e, e ∈ entriesOf z ↔ e ∈ entriesOf v) := by
  obtain rfl | ⟨p, y, q, rfl, rfl, hproduct, -, hlt, -, -, hentries⟩ := h
  · exact .inl hz
  · obtain hz | hz := List.mem_append.mp hz
    · exact .inl (List.mem_append_left _ hz)
    · obtain rfl | hz := List.mem_cons.mp hz
      · exact .inr ⟨hproduct, hlt, hentries⟩
      · exact .inl (List.mem_append_right _ hz)

/-- The values behind one stay. -/
theorem Copied.subset {z : StyleValue ν ρ ω} (h : Copied v todo todo') (hz : z ∈ todo) :
    z ∈ todo' := by
  obtain rfl | ⟨p, y, q, rfl, rfl, -⟩ := h
  · exact hz
  · obtain hz | hz := List.mem_append.mp hz
    · exact List.mem_append_left _ hz
    · exact List.mem_append_right _ (List.mem_cons_of_mem y hz)

/-- The values stay in order: the value of the turn stands where its predecessor did. -/
theorem Turn.ordered_append (hturn : Turn level v todo v' todo') (h : Ordered (done ++ v :: todo)) :
    Ordered (done ++ v' :: todo') := by
  obtain ⟨hdone, -, hcross⟩ := List.pairwise_append.mp h
  have hlt : ∀ x ∈ done, x.config.compare v'.config = .lt := by
    intro x hx
    rw [hturn.config]
    exact hcross x hx v List.mem_cons_self
  refine List.pairwise_append.mpr ⟨hdone, hturn.ordered, ?_⟩
  intro x hx z hz
  obtain rfl | hz := List.mem_cons.mp hz
  · exact hlt x hx
  · exact Std.TransCmp.lt_trans (hlt x hx) ((List.pairwise_cons.mp hturn.ordered).1 z hz)

/-- What is there after a turn has the product and the entries of something before it, which is for
no later version. -/
theorem Turn.exists_of_mem (hturn : Turn level v todo v' todo')
    (hproduct : ∀ x ∈ done ++ v :: todo, x.product = []) (hx : x ∈ done ++ v' :: todo') :
    x.product = []
      ∧ ∃ o ∈ done ++ v :: todo, o.sdk ≤ x.sdk ∧ ∀ e ∈ entriesOf x, e ∈ entriesOf o := by
  obtain hx | hx := List.mem_append.mp hx
  · have hmem : x ∈ done ++ v :: todo := List.mem_append_left _ hx
    exact ⟨hproduct x hmem, x, hmem, le_rfl, fun _ he => he⟩
  · obtain rfl | hx := List.mem_cons.mp hx
    · exact ⟨hturn.product.trans (hproduct v (by simp)), v, by simp, hturn.sdk_eq.ge, hturn.entries⟩
    · obtain hx | ⟨hempty, hlt, hentries⟩ := hturn.rest.mem hx
      · have hmem : x ∈ done ++ v :: todo := by simp [hx]
        exact ⟨hproduct x hmem, x, hmem, le_rfl, fun _ he => he⟩
      · exact ⟨hempty, v, by simp, hlt.le, fun e he => (hentries e).mp he⟩

/-- **A turn keeps the invariant.** -/
theorem Progress.turn {before : List (StyleValue ν ρ ω)}
    (h : Progress level before done (v :: todo)) (hturn : Turn level v todo v' todo') :
    Progress level before (done ++ [v']) todo' := by
  have hassoc : (done ++ [v']) ++ todo' = done ++ v' :: todo' := by simp
  refine ⟨?ordered, ?product, ?ids, ?clean, ?covers, ?kept⟩
  case ordered =>
    rw [hassoc]
    exact hturn.ordered_append h.ordered
  case product =>
    rw [hassoc]
    exact fun x hx => (hturn.exists_of_mem h.product hx).1
  case ids =>
    rw [hassoc]
    intro x hx hold e he
    obtain ⟨-, o, ho, hle, hentries⟩ := hturn.exists_of_mem h.product hx
    exact h.ids o ho (hle.trans_lt hold) e (hentries e he)
  case clean =>
    intro x hx hlt e he
    obtain hx | hx := List.mem_append.mp hx
    · exact h.clean x hx hlt e he
    · rw [List.mem_singleton.mp hx] at hlt he ⊢
      rw [hturn.sdk_eq] at hlt ⊢
      exact hturn.clean hlt e he
  case covers =>
    intro c s hbefore
    rw [hassoc]
    obtain ⟨z, hz, hfamily, hle⟩ := exists_inForce_iff.mp (h.covers c s hbefore)
    apply exists_inForce_iff.mpr
    obtain hz | hz := List.mem_append.mp hz
    · exact ⟨z, List.mem_append_left _ hz, hfamily, hle⟩
    · obtain rfl | hz := List.mem_cons.mp hz
      · exact ⟨v', by simp, by rwa [hturn.config], hturn.sdk_eq.trans_le hle⟩
      · exact ⟨z, by simp [hturn.rest.subset hz], hfamily, hle⟩
  case kept =>
    intro c s x hx
    rw [hassoc] at hx
    obtain ⟨hx, hback⟩ | ⟨hv, heq⟩ | ⟨hv, hstyle, hentries⟩ := hturn.chosen h.ordered hx
    · obtain ⟨old, hold, hkeeps, hsame⟩ := h.kept c s x hx
      exact ⟨old, hold, hkeeps, fun hmem => hsame (List.mem_cons_of_mem v (hback hmem))⟩
    · subst heq
      obtain ⟨old, hold, hkeeps, hsame⟩ := h.kept c s v hv
      refine ⟨old, hold, hturn.keeps hx hkeeps (hsame List.mem_cons_self), ?_⟩
      -- the value of the turn is not among those behind it
      intro hmem
      exact absurd (hturn.ordered.sdk_lt hmem (sameFamily_refl x.config)) (lt_irrefl x.sdk)
    · -- a copy has all entries, and is to be versioned itself
      obtain ⟨old, hold, hkeeps, hsame⟩ := h.kept c s v hv
      have hall : ∀ e ∈ entriesOf old, e ∈ entriesOf x := fun e he =>
        (hentries e).mpr (hsame List.mem_cons_self e he)
      exact ⟨old, hold, ⟨hstyle.trans hkeeps.style, fun e he _ => hall e he,
        fun e he => hkeeps.only e ((hentries e).mp he)⟩, fun _ => hall⟩

/-! ## The loop -/

/-- What the turns of the loop use up: a copy is for a later version. -/
def turnsLeft (todo : List (StyleValue ν ρ ω)) : ℕ := (todo.map fun v => 65536 - v.sdk).sum

theorem ResourceConfigValue.sdk_lt {ι : Type} (v : ResourceConfigValue ι) : v.sdk < 65536 :=
  v.config.sdkVersion.toNat_lt

/-- **A turn uses up some.** -/
theorem Turn.turnsLeft_lt (hturn : Turn level v todo v' todo') :
    turnsLeft todo' < turnsLeft (v :: todo) := by
  have hv := v.sdk_lt
  obtain rfl | ⟨p, y, q, rfl, rfl, -, -, hlt, -⟩ := hturn.rest
  · simp only [turnsLeft, List.map_cons, List.sum_cons]
    omega
  · have hy := y.sdk_lt
    simp only [turnsLeft, List.map_cons, List.map_append, List.sum_cons, List.sum_append]
    omega

/-- **The loop over the values of an entry** ends, and keeps the invariant. -/
theorem exists_versionValues {before : List (StyleValue ν ρ ω)} (hlevel : ∀ id, level id < 65536)
    (h : Progress level before done todo) :
    ∃ after, (∀ fuel, turnsLeft todo < fuel →
        versionValues level fuel (done ++ todo) done.length = some after)
      ∧ Progress level before after [] := by
  induction hleft : turnsLeft todo using Nat.strongRecOn generalizing done todo with
  | ind n ih =>
      subst hleft
      cases todo with
      | nil =>
          refine ⟨done, ?_, h⟩
          intro fuel hfuel
          obtain ⟨fuel, rfl⟩ := Nat.exists_eq_succ_of_ne_zero (Nat.ne_of_gt hfuel)
          simp [versionValues]
      | cons v todo =>
          obtain ⟨v', todo', hversion, hturn⟩ :=
            versionValue_spec hlevel h.ordered h.product (h.ids v (by simp))
          obtain ⟨after, hrun, hafter⟩ := ih _ hturn.turnsLeft_lt (h.turn hturn) rfl
          refine ⟨after, ?_, hafter⟩
          intro fuel hfuel
          have hpos : 0 < fuel := Nat.zero_lt_of_lt hfuel
          obtain ⟨fuel, rfl⟩ := Nat.exists_eq_succ_of_ne_zero hpos.ne'
          have hlt := hturn.turnsLeft_lt
          have hrest := hrun fuel (by omega)
          rw [List.append_assoc, List.singleton_append, List.length_append] at hrest
          rw [versionValues, if_pos (by simp), hversion]
          exact hrest

/-- More fuel does not matter for a result. -/
theorem versionValues_mono {fuel more i : ℕ} {after : List (StyleValue ν ρ ω)} (hle : fuel ≤ more)
    (h : versionValues level fuel values i = some after) :
    versionValues level more values i = some after := by
  induction fuel generalizing more values i with
  | zero => cases h
  | succ fuel ih =>
      obtain ⟨more, rfl⟩ := Nat.exists_eq_add_of_le' (Nat.one_le_of_lt hle)
      rw [versionValues] at h ⊢
      by_cases hi : i < values.length
      · rw [if_pos hi] at h ⊢
        obtain ⟨values', hversion, hrest⟩ := Option.bind_eq_some_iff.mp h
        rw [hversion]
        exact ih (by omega) hrest
      · rw [if_neg hi] at h ⊢
        exact h

end Progress

/-! ## The pass keeps what devices can use -/

section Versioned

variable {ν ρ ω : Type} {level : ResourceId → ℕ}

/-- The entry of a type for styles at a place of a table. -/
def ResourceTable.styleEntryAt (table : ResourceTable (StyleContent ν ρ ω)) (i j k : ℕ) :
    Option (ResourceEntry (StyleContent ν ρ ω)) := do
  let package ← table.packages[i]?
  let type ← package.types[j]?
  if type.namedType.type = .kStyle then type.entries[k]? else none

/-- **The pass works on the entries one by one.** -/
theorem exists_autoVersion_of_consume {fuel i j k : ℕ}
    {table after : ResourceTable (StyleContent ν ρ ω)} {entry : ResourceEntry (StyleContent ν ρ ω)}
    (h : AutoVersioner.consume level fuel table = some after)
    (hentry : table.styleEntryAt i j k = some entry) :
    ∃ entry', autoVersion level fuel entry = some entry'
      ∧ after.styleEntryAt i j k = some entry' := by
  obtain ⟨packages, hpackages, hafter⟩ := Option.bind_eq_some_iff.mp h
  obtain ⟨package, hpackage, hentry⟩ := Option.bind_eq_some_iff.mp hentry
  obtain ⟨type, htype, hentry⟩ := Option.bind_eq_some_iff.mp hentry
  obtain ⟨package', hpass, hpackage'⟩ := exists_getElem?_of_mapM hpackages hpackage
  obtain ⟨types, htypes, hpass⟩ := Option.bind_eq_some_iff.mp hpass
  obtain ⟨type', hpass', htype'⟩ := exists_getElem?_of_mapM htypes htype
  by_cases hstyle : type.namedType.type = .kStyle
  · rw [if_pos hstyle] at hentry hpass'
    obtain ⟨entries, hentries, hpass'⟩ := Option.bind_eq_some_iff.mp hpass'
    obtain ⟨entry', hversion, hentry'⟩ := exists_getElem?_of_mapM hentries hentry
    refine ⟨entry', hversion, ?_⟩
    cases hafter
    cases hpass
    cases hpass'
    rw [ResourceTable.styleEntryAt, hpackage', Option.bind_eq_bind, Option.bind_some]
    dsimp only
    rw [htype', Option.bind_eq_bind, Option.bind_some, if_pos hstyle, hentry']
  · rw [if_neg hstyle] at hentry
    cases hentry

/-- More fuel does not matter for the pass on an entry. -/
theorem autoVersion_mono {fuel more : ℕ} {entry entry' : ResourceEntry (StyleContent ν ρ ω)}
    (hle : fuel ≤ more) (h : autoVersion level fuel entry = some entry') :
    autoVersion level more entry = some entry' := by
  obtain ⟨values, hvalues, rfl⟩ := Option.map_eq_some_iff.mp h
  rw [autoVersion, versionValues_mono hle hvalues]
  rfl

/-- What the pass promises of the values of an entry. -/
structure Versioned (level : ResourceId → ℕ) (before after : List (StyleValue ν ρ ω)) : Prop where
  chosen : ∀ c s, (∃ x, Chosen c before s x) ↔ ∃ x, Chosen c after s x
  keeps : ∀ c s old new, Chosen c before s old → Chosen c after s new → Keeps level s old new
  clean : ∀ x ∈ after, x.sdk < sdkLollipopMr1 → ∀ e ∈ entriesOf x, e.sdkLevel level ≤ max x.sdk 1

/-- Devices choose one value. -/
theorem Chosen.eq {c : ResTableConfig} {values : List (StyleValue ν ρ ω)} {s : ℕ}
    {x y : StyleValue ν ρ ω} (h : Ordered values) (hx : Chosen c values s x)
    (hy : Chosen c values s y) : x = y := by
  have hfamily : x.config.sameFamily y.config = true :=
    sameFamily_trans (sameFamily_symm hx.belongs) hy.belongs
  have hversion : x.sdk = y.sdk := InForce.version_eq hx hy
  refine StrictlySortedBy.eq_of_key_eq h hx.mem hy.mem ?_
  rw [compare_of_sameFamily hfamily]
  exact compare_eq_iff_eq.mpr hversion

/-- At the end of the loop, the invariant is what the pass promises. -/
theorem Progress.versioned {before after : List (StyleValue ν ρ ω)} (hordered : Ordered before)
    (h : Progress level before after []) : Versioned level before after where
  chosen c s := by
    have hcovers := h.covers c s
    rw [List.append_nil] at hcovers
    refine ⟨hcovers, ?_⟩
    rintro ⟨x, hx⟩
    obtain ⟨old, hold, -⟩ := h.kept c s x (by rwa [List.append_nil])
    exact ⟨old, hold⟩
  keeps c s old new hold hnew := by
    obtain ⟨old', hold', hkeeps, -⟩ := h.kept c s new (by rwa [List.append_nil])
    rwa [hold.eq hordered hold']
  clean := h.clean

/-- **Auto-versioning keeps every usable attribute of a style.** The pass ends on the entry, and
wherever that is in a table. What devices of a version choose afterwards has those of the entries of
what they chose before that are for their version, and no other ones, and the values for versions
below 22 have only entries for these versions. -/
theorem autoVersion_keeps_usable (hlevel : ∀ id, level id < 65536)
    (entry : ResourceEntry (StyleContent ν ρ ω)) (hwf : entry.Wf)
    (hproduct : ∀ v ∈ entry.values, v.product = [])
    (hids : ∀ v ∈ entry.values, v.sdk < sdkLollipopMr1 → ∀ e ∈ entriesOf v, e.id.isSome = true) :
    ∃ after : ResourceEntry (StyleContent ν ρ ω),
      (∃ n, ∀ fuel, n ≤ fuel → autoVersion level fuel entry = some after)
      ∧ (∀ fuel table table' i j k, AutoVersioner.consume level fuel table = some table' →
        table.styleEntryAt i j k = some entry → table'.styleEntryAt i j k = some after)
      ∧ Versioned level entry.values after.values := by
  have hordered : Ordered entry.values := by
    refine List.Pairwise.imp_of_mem ?_ hwf.values
    intro x z hx hz hlt
    rwa [compare_key (hproduct x hx) (hproduct z hz)] at hlt
  obtain ⟨values, hrun, hprogress⟩ :=
    exists_versionValues hlevel (progress_init hordered hproduct hids)
  have hfuel (fuel : ℕ) (hle : turnsLeft entry.values + 1 ≤ fuel) :
      autoVersion level fuel entry = some { entry with values } := by
    rw [autoVersion]
    exact congrArg _ (hrun fuel hle)
  refine ⟨{ entry with values }, ⟨_, hfuel⟩, ?_, hprogress.versioned hordered⟩
  intro fuel table table' i j k hconsume hentry
  obtain ⟨entry', hversion, hentry'⟩ := exists_autoVersion_of_consume hconsume hentry
  have hmore := autoVersion_mono (le_max_left fuel (turnsLeft entry.values + 1)) hversion
  rw [hfuel _ (le_max_right _ _)] at hmore
  rw [hentry', hmore]

/-- A style for all versions with attributes from versions 3 and 21. -/
def cupcakeAndLollipop : ResourceEntry (StyleContent Unit Unit Unit) :=
  { ResourceEntry.new [] with
    values := [⟨ResTableConfig.defaultConfig, [], some ⟨.style, .style
      ⟨[⟨some ⟨0x01010269⟩, ()⟩, ⟨some ⟨0x010104ce⟩, ()⟩], ()⟩, false, true, none, .noFlag⟩,
      false⟩] }

example : (autoVersion findAttributeSdkLevel 4 cupcakeAndLollipop).map (fun entry =>
    entry.values.map fun v => (v.sdk, (entriesOf v).length)) = some [(0, 0), (3, 1), (21, 2)] := by
  decide +kernel

theorem autoVersion_keeps_usable_cupcakeAndLollipop :
    ∃ after : ResourceEntry (StyleContent Unit Unit Unit),
      (∃ n, ∀ fuel, n ≤ fuel →
        autoVersion findAttributeSdkLevel fuel cupcakeAndLollipop = some after)
      ∧ (∀ fuel table table' i j k,
        AutoVersioner.consume findAttributeSdkLevel fuel table = some table' →
        table.styleEntryAt i j k = some cupcakeAndLollipop → table'.styleEntryAt i j k = some after)
      ∧ Versioned findAttributeSdkLevel cupcakeAndLollipop.values after.values := by
  refine autoVersion_keeps_usable findAttributeSdkLevel_lt cupcakeAndLollipop ⟨?_, ?_, ?_⟩ ?_ ?_
  · exact List.pairwise_singleton _ _
  · exact List.Pairwise.nil
  · intro v hv
    cases hv
  · decide
  · decide

end Versioned

end Aapt2

end AndroidSdk
