import AndroidSdk.Lib.Rebuild
import AndroidSdk.Aapt2.ResourceTable
import AndroidSdk.Aapt2.ResourceValues

/-! # Copies of a table

`ResourceTable::Clone` (`ResourceTable.cpp`) creates every package, type, entry and value anew and
sets some of their members, with copies of the values that belong to the new string pool.

* **`ValueCloner`** — what copies values; `Values.cloningTransformer` is the one of
  `ResourceValues.cpp`.
* **`ResourceTable.clone`** — the copy of a table.
* **`SameTable`** — the same members everywhere, and equal values.
* **`exists_clone_iff`** — when a copy is the same: no key is there twice, and no entry has what is
  not copied. -/

namespace AndroidSdk.Aapt2

open Lib SplitSelect

variable {ι σ : Type}

/-! ## The copy -/

/-- What copies values with a string pool as its state; copies are equal to the values. -/
structure ValueCloner (ι σ : Type) where
  transform : σ → Value ι → σ × Value ι
  equals : Value ι → Value ι → Bool
  equals_transform : ∀ s v, equals (transform s v).2 v = true

section Clone

variable (cloner : ValueCloner ι σ)

/-- What `Clone` does with a new value; none if the value is null, which is dereferenced. -/
def ResourceConfigValue.cloneInto (pool : σ) (value new : ResourceConfigValue ι) :
    Option (σ × ResourceConfigValue ι) :=
  value.value.map fun v =>
    let copy := cloner.transform pool v
    (copy.1, { new with value := some copy.2 })

/-- The loop over the values of an entry. -/
def ResourceEntry.cloneValues (pool : σ) (values : List (ResourceConfigValue ι))
    (new : ResourceEntry ι) : Option (σ × ResourceEntry ι) :=
  values.foldlM (fun s value => s.2.onValue value.config value.product (value.cloneInto cloner s.1))
    (pool, new)

/-- What `Clone` does with an entry that it has created. -/
def ResourceEntry.cloneInto (pool : σ) (entry new : ResourceEntry ι) :
    Option (σ × ResourceEntry ι) :=
  ResourceEntry.cloneValues cloner pool entry.values
    { new with
      id := entry.id
      visibility := entry.visibility
      allowNew := entry.allowNew
      overlayableItem := entry.overlayableItem }

/-- The loop over the entries of a type. -/
def ResourceTableType.cloneEntry (s : σ × ResourceTableType ι) (entry : ResourceEntry ι) :
    Option (σ × ResourceTableType ι) :=
  let created := createEntry entry.name s.2.entries
  (entry.cloneInto cloner s.1 (.new entry.name)).map fun r =>
    (r.1, { s.2 with entries := created.1.set created.2 r.2 })

/-- What `Clone` does with a type that it has created. -/
def ResourceTableType.cloneInto (pool : σ) (type new : ResourceTableType ι) :
    Option (σ × ResourceTableType ι) :=
  type.entries.foldlM (ResourceTableType.cloneEntry cloner)
    (pool, { new with visibilityLevel := type.visibilityLevel })

/-- What `Clone` does with a package that it has created. -/
def ResourceTablePackage.cloneInto (pool : σ) (package new : ResourceTablePackage ι) :
    Option (σ × ResourceTablePackage ι) :=
  package.types.foldlM (fun s type => s.2.onType type.namedType (type.cloneInto cloner s.1))
    (pool, new)

/-- `Clone`: the new pool and the new table. -/
def ResourceTable.clone (pool : σ) (table : ResourceTable ι) : Option (σ × ResourceTable ι) :=
  table.packages.foldlM
    (fun s package => s.2.onPackage package.name (package.cloneInto cloner s.1)) (pool, ⟨[]⟩)

end Clone

/-! ## The same table -/

section Same

variable (cloner : ValueCloner ι σ)

/-- The same key and flag, and values that are equal or both null. -/
def SameValue (a b : ResourceConfigValue ι) : Prop :=
  a.config = b.config ∧ a.product = b.product
    ∧ a.usesReadwriteFeatureFlags = b.usesReadwriteFeatureFlags
    ∧ Option.Rel (fun x y => cloner.equals x y = true) a.value b.value

/-- The same members of an entry, and the same lists of values. -/
structure EqualEntry (a b : ResourceEntry ι) : Prop where
  name : a.name = b.name
  id : a.id = b.id
  visibility : a.visibility = b.visibility
  allowNew : a.allowNew = b.allowNew
  overlayableItem : a.overlayableItem = b.overlayableItem
  stagedId : a.stagedId = b.stagedId
  values : List.Forall₂ (SameValue cloner) a.values b.values
  flagDisabledValues : List.Forall₂ (SameValue cloner) a.flagDisabledValues b.flagDisabledValues

/-- The same type with the same entries. -/
def SameType (a b : ResourceTableType ι) : Prop :=
  a.namedType = b.namedType ∧ a.visibilityLevel = b.visibilityLevel
    ∧ List.Forall₂ (EqualEntry cloner) a.entries b.entries

/-- The same package with the same types. -/
def SamePackage (a b : ResourceTablePackage ι) : Prop :=
  a.name = b.name ∧ List.Forall₂ (SameType cloner) a.types b.types

/-- The same packages. -/
def SameTable (a b : ResourceTable ι) : Prop :=
  List.Forall₂ (SamePackage cloner) a.packages b.packages

end Same

/-! ## When the copy is the same -/

/-- The values of an entry are in order, none is null or uses flags that can change, and it has no
staged identifier and no value behind a disabled flag: nothing that is not copied. -/
def ResourceEntry.Clonable (entry : ResourceEntry ι) : Prop :=
  StrictlySortedBy ConfigKey.compare ResourceConfigValue.key entry.values
    ∧ entry.stagedId = none ∧ entry.flagDisabledValues = []
    ∧ ∀ v ∈ entry.values, v.value.isSome ∧ v.usesReadwriteFeatureFlags = false

/-- The entries are in order and no name is there twice. -/
def ResourceTableType.Clonable (type : ResourceTableType ι) : Prop :=
  StrictlySortedBy compare ResourceEntry.name type.entries ∧ ∀ entry ∈ type.entries, entry.Clonable

/-- The types are in order. -/
def ResourceTablePackage.Clonable (package : ResourceTablePackage ι) : Prop :=
  StrictlySortedBy ResourceNamedType.compare ResourceTableType.namedType package.types
    ∧ ∀ type ∈ package.types, type.Clonable

/-- The packages are in order. -/
def ResourceTable.Clonable (table : ResourceTable ι) : Prop :=
  StrictlySortedBy compare ResourceTablePackage.name table.packages
    ∧ ∀ package ∈ table.packages, package.Clonable

/-- No two entries of a type have the same name and the same identifier. -/
def ResourceTableType.DistinctEntries (type : ResourceTableType ι) : Prop :=
  (type.entries.map ResourceEntry.nameAndId).Nodup

variable {cloner : ValueCloner ι σ}

/-- The loop over the values of an entry changes only its values. -/
theorem ResourceEntry.cloneValues_eq (values : List (ResourceConfigValue ι)) (pool : σ)
    (new : ResourceEntry ι) :
    cloneValues cloner pool values new
      = (values.foldlM (fun s v => onFoundOrCreated ConfigKey.compare ResourceConfigValue.key v.key
          (.new v.config v.product) (v.cloneInto cloner s.1) s.2) (pool, new.values)).map
        fun r => (r.1, { new with values := r.2 }) := by
  have hpart := foldlM_part ResourceEntry.values (fun e l => { e with values := l })
    (fun _ _ => rfl) (fun _ _ _ => rfl) (fun _ => rfl)
    (fun s v => onFoundOrCreated ConfigKey.compare ResourceConfigValue.key v.key
      (.new v.config v.product) (v.cloneInto cloner s.1) s.2) values pool new
  exact hpart

/-- The loop over sorted values of a new entry, in terms of its turns. -/
theorem ResourceEntry.cloneValues_of_sorted {values : List (ResourceConfigValue ι)}
    (hvalues : StrictlySortedBy ConfigKey.compare ResourceConfigValue.key values) (pool : σ)
    {new : ResourceEntry ι} (hnew : new.values = []) :
    cloneValues cloner pool values new
      = (mapAccumO (fun s v => v.cloneInto cloner s (.new v.config v.product)) pool values).map
        fun r => (r.1, { new with values := r.2 }) := by
  have hkey : ∀ (s : σ) (v : ResourceConfigValue ι) (s' : σ) (a : ResourceConfigValue ι),
      v.cloneInto cloner s (.new v.config v.product) = some (s', a) →
      ConfigKey.compare a.key v.key = .eq := by
    intro s v s' a h
    obtain ⟨x, -, hx⟩ := Option.map_eq_some_iff.mp h
    cases hx
    exact Std.ReflCmp.compare_self
  rw [cloneValues_eq, hnew, foldlM_onFoundOrCreated_nil hkey hvalues pool]

/-- When the copies of the values of an entry are the same. -/
theorem exists_cloneValues_iff {values : List (ResourceConfigValue ι)} (pool : σ) :
    (∃ pool' l, mapAccumO (fun s v => ResourceConfigValue.cloneInto cloner s v
        (.new v.config v.product)) pool values = some (pool', l)
        ∧ List.Forall₂ (SameValue cloner) l values)
      ↔ ∀ v ∈ values, v.value.isSome ∧ v.usesReadwriteFeatureFlags = false := by
  refine exists_mapAccumO_iff (fun v _ s => ?_) pool
  constructor
  · rintro ⟨s', b, hb, -, -, huses, -⟩
    obtain ⟨x, hx, hb⟩ := Option.map_eq_some_iff.mp hb
    cases hb
    exact ⟨Option.isSome_iff_exists.mpr ⟨x, hx⟩, huses.symm⟩
  · rintro ⟨hsome, huses⟩
    obtain ⟨x, hx⟩ := Option.isSome_iff_exists.mp hsome
    refine ⟨(cloner.transform s x).1,
      { ResourceConfigValue.new v.config v.product with value := some (cloner.transform s x).2 },
      by rw [ResourceConfigValue.cloneInto, hx, Option.map_some], rfl, rfl, huses.symm, ?_⟩
    rw [hx]
    exact .some (cloner.equals_transform s x)

/-- What a copy of an entry has, whatever becomes of its values. -/
theorem ResourceEntry.of_cloneInto {entry copy : ResourceEntry ι} {pool pool' : σ}
    (hcopy : entry.cloneInto cloner pool (.new entry.name) = some (pool', copy)) :
    copy.name = entry.name ∧ copy.id = entry.id ∧ copy.stagedId = none
      ∧ copy.flagDisabledValues = [] := by
  rw [cloneInto, cloneValues_eq] at hcopy
  obtain ⟨r, -, hr⟩ := Option.map_eq_some_iff.mp hcopy
  cases hr
  exact ⟨rfl, rfl, rfl, rfl⟩

/-- The keys of the same values. -/
theorem key_eq_of_sameValue {l m : List (ResourceConfigValue ι)}
    (h : List.Forall₂ (SameValue cloner) l m) :
    l.map ResourceConfigValue.key = m.map ResourceConfigValue.key :=
  map_eq_map_of_forall₂ h fun a b hab => by
    rw [ResourceConfigValue.key, ResourceConfigValue.key, hab.1, hab.2.1]

/-- **When the copy of an entry is the same.** -/
theorem ResourceEntry.exists_cloneInto_iff (entry : ResourceEntry ι) (pool : σ) :
    (∃ pool' copy, entry.cloneInto cloner pool (.new entry.name) = some (pool', copy)
        ∧ EqualEntry cloner copy entry) ↔ entry.Clonable := by
  constructor
  · rintro ⟨pool', copy, hcopy, hsame⟩
    obtain ⟨-, -, hstaged, hdisabled⟩ := of_cloneInto hcopy
    have hvalues : StrictlySortedBy ConfigKey.compare ResourceConfigValue.key entry.values := by
      rw [cloneInto, cloneValues_eq] at hcopy
      obtain ⟨⟨s, l⟩, hl, hr⟩ := Option.map_eq_some_iff.mp hcopy
      cases hr
      have hkeep : ∀ (s : σ) (v x : ResourceConfigValue ι) (s' : σ) (x' : ResourceConfigValue ι),
          v.cloneInto cloner s x = some (s', x') → x'.key = x.key := by
        intro s v x s' x' hx
        obtain ⟨y, -, hy⟩ := Option.map_eq_some_iff.mp hx
        cases hy
        rfl
      have hnil : StrictlySortedBy ConfigKey.compare ResourceConfigValue.key
          ([] : List (ResourceConfigValue ι)) := List.Pairwise.nil
      have hnew : ∀ v : ResourceConfigValue ι, ConfigKey.compare
          (ResourceConfigValue.new v.config v.product : ResourceConfigValue ι).key v.key = .eq :=
        fun v => Std.ReflCmp.compare_self
      exact (hnil.foldlM_onFoundOrCreated hnew hkeep hl).of_map_eq
        (key_eq_of_sameValue hsame.values).symm
    refine ⟨hvalues, hsame.stagedId ▸ hstaged, ?_, ?_⟩
    · have hall := hsame.flagDisabledValues
      rw [hdisabled] at hall
      exact List.forall₂_nil_left_iff.mp hall
    · rw [cloneInto, cloneValues_of_sorted hvalues pool rfl] at hcopy
      obtain ⟨⟨s, l⟩, hl, hr⟩ := Option.map_eq_some_iff.mp hcopy
      cases hr
      exact (exists_cloneValues_iff pool).mp ⟨s, l, hl, hsame.values⟩
  · rintro ⟨hsorted, hstaged, hdisabled, hvalues⟩
    obtain ⟨s, l, hl, hall⟩ := (exists_cloneValues_iff pool).mpr hvalues
    rw [cloneInto, cloneValues_of_sorted hsorted pool rfl, hl, Option.map_some]
    refine ⟨_, _, rfl, ?_⟩
    exact {
      name := rfl
      id := rfl
      visibility := rfl
      allowNew := rfl
      overlayableItem := rfl
      stagedId := hstaged.symm
      values := hall
      flagDisabledValues := hdisabled ▸ .nil }

/-- A new entry is set where it was created. -/
theorem set_createEntry {name : Bytes} {entries : List (ResourceEntry ι)} {entry : ResourceEntry ι}
    (hname : entry.name = name) :
    (createEntry name entries).1.set (createEntry name entries).2 entry
      = insertLower compare ResourceEntry.name entry entries := by
  subst hname
  rw [createEntry, insertLower]
  have hle := lowerBound_le_length (fun e => compare e.name entry.name == .lt) entries
  dsimp only
  generalize lowerBound (fun e => compare e.name entry.name == .lt) entries = i at hle ⊢
  obtain ⟨pre, post, rfl, rfl⟩ : ∃ pre post, entries = pre ++ post ∧ i = pre.length :=
    ⟨entries.take i, entries.drop i, (List.take_append_drop i entries).symm, by simp [hle]⟩
  rw [insertIdx_append_length, insertIdx_append_length, set_append_length]

/-- The loop over the entries of a type, in terms of its turns. -/
theorem ResourceTableType.cloneInto_eq (pool : σ) (type new : ResourceTableType ι) :
    type.cloneInto cloner pool new
      = (mapAccumO (fun s e => e.cloneInto cloner s (.new e.name)) pool type.entries).map fun r =>
        (r.1, { new with
          visibilityLevel := type.visibilityLevel
          entries := r.2.foldl (fun acc e => insertLower compare ResourceEntry.name e acc)
            new.entries }) := by
  have hturn : ∀ (s : σ × ResourceTableType ι) (entry : ResourceEntry ι),
      cloneEntry cloner s entry = ((entry.cloneInto cloner s.1 (.new entry.name)).map fun r =>
        (r.1, insertLower compare ResourceEntry.name r.2 s.2.entries)).map fun r =>
          (r.1, { s.2 with entries := r.2 }) := by
    intro s entry
    rw [cloneEntry]
    cases hcopy : entry.cloneInto cloner s.1 (.new entry.name) with
    | none => rfl
    | some r =>
        rw [Option.map_some, Option.map_some, Option.map_some,
          set_createEntry (ResourceEntry.of_cloneInto hcopy).1]
  have hpart := foldlM_part ResourceTableType.entries (fun t l => { t with entries := l })
    (fun _ _ => rfl) (fun _ _ _ => rfl) (fun _ => rfl)
    (fun (s : σ × List (ResourceEntry ι)) e => (e.cloneInto cloner s.1 (.new e.name)).map fun r =>
      (r.1, insertLower compare ResourceEntry.name r.2 s.2)) type.entries pool
      { new with visibilityLevel := type.visibilityLevel }
  rw [foldlM_insertLower fun s (e : ResourceEntry ι) => e.cloneInto cloner s (.new e.name),
    Option.map_map] at hpart
  rw [cloneInto, funext fun s => funext fun e => hturn s e]
  exact hpart

/-- **When the copy of a type is the same**: entries with one name come out in reverse, so that
there must not be any. -/
theorem ResourceTableType.exists_cloneInto_iff {type : ResourceTableType ι}
    (hdistinct : type.DistinctEntries) (pool : σ) :
    (∃ pool' copy, type.cloneInto cloner pool ⟨type.namedType, .kUndefined, []⟩
        = some (pool', copy) ∧ SameType cloner copy type) ↔ type.Clonable := by
  have hturns := exists_mapAccumO_iff (l := type.entries) (C := ResourceEntry.Clonable)
    (R := EqualEntry cloner) (f := fun s e => e.cloneInto cloner s (.new e.name))
    (fun e _ s => ResourceEntry.exists_cloneInto_iff e s) pool
  rw [cloneInto_eq, Clonable]
  constructor
  · rintro ⟨pool', copy, hcopy, -, -, hsame⟩
    obtain ⟨⟨s, l⟩, hl, hr⟩ := Option.map_eq_some_iff.mp hcopy
    cases hr
    replace hsame : List.Forall₂ (EqualEntry cloner)
      (l.foldl (fun acc e => insertLower compare ResourceEntry.name e acc) []) type.entries := hsame
    have hcopies : List.Forall₂ (fun b a : ResourceEntry ι => b.name = a.name ∧ b.id = a.id)
        l type.entries :=
      forall₂_of_mapAccumO (fun s e s' b hb =>
        ⟨(ResourceEntry.of_cloneInto hb).1, (ResourceEntry.of_cloneInto hb).2.1⟩) hl
    have htags : l.map ResourceEntry.nameAndId = type.entries.map ResourceEntry.nameAndId :=
      map_eq_map_of_forall₂ hcopies fun a b hab => Prod.ext hab.1 hab.2
    have hnames : l.map ResourceEntry.name = type.entries.map ResourceEntry.name :=
      map_eq_map_of_forall₂ hcopies fun a b hab => hab.1
    -- the copy is in order, and so are its names
    have hordered : SortedBy compare ResourceEntry.name l := by
      have hspec : SortedBy compare ResourceEntry.name
          (l.foldl (fun acc e => insertLower compare ResourceEntry.name e acc) []) :=
        (foldl_insertLower_spec l).1
      refine hspec.of_map_eq ?_
      rw [hnames]
      exact (map_eq_map_of_forall₂ hsame fun a b hab => hab.name).symm
    have hsorted : StrictlySortedBy compare ResourceEntry.name l := by
      refine strictlySortedBy_of_foldl_insertLower ResourceEntry.nameAndId hordered
        (htags ▸ hdistinct) ?_
      rw [htags]
      exact map_eq_map_of_forall₂ hsame fun a b hab => Prod.ext hab.name hab.id
    rw [hsorted.foldl_insertLower] at hsame
    exact ⟨hsorted.of_map_eq hnames.symm, hturns.mp ⟨s, l, hl, hsame⟩⟩
  · rintro ⟨hsorted, hentries⟩
    obtain ⟨s, l, hl, hsame⟩ := hturns.mpr hentries
    have hl' : StrictlySortedBy compare ResourceEntry.name l :=
      hsorted.of_map_eq (map_eq_map_of_forall₂ hsame fun a b hab => hab.name)
    rw [hl, Option.map_some]
    refine ⟨_, _, rfl, rfl, rfl, ?_⟩
    show List.Forall₂ (EqualEntry cloner)
      (l.foldl (fun acc e => insertLower compare ResourceEntry.name e acc) []) type.entries
    rw [hl'.foldl_insertLower]
    exact hsame

/-- Where no name is there twice, the entries are distinct. -/
theorem ResourceTableType.Clonable.distinctEntries {type : ResourceTableType ι}
    (h : type.Clonable) : type.DistinctEntries := by
  refine List.pairwise_map.mpr (h.1.imp fun {a b} hlt heq => ?_)
  have hname : a.name = b.name := congrArg Prod.fst heq
  rw [hname, compare_bytes_self] at hlt
  cases hlt

/-- The loop over the types of a package changes only its types. -/
theorem ResourceTablePackage.cloneInto_eq (pool : σ) (package new : ResourceTablePackage ι) :
    package.cloneInto cloner pool new
      = (package.types.foldlM (fun s t => onFoundOrCreated ResourceNamedType.compare
          ResourceTableType.namedType t.namedType ⟨t.namedType, .kUndefined, []⟩
          (t.cloneInto cloner s.1) s.2) (pool, new.types)).map
        fun r => (r.1, { new with types := r.2 }) := by
  have hpart := foldlM_part ResourceTablePackage.types (fun p l => { p with types := l })
    (fun _ _ => rfl) (fun _ _ _ => rfl) (fun _ => rfl)
    (fun s (t : ResourceTableType ι) => onFoundOrCreated ResourceNamedType.compare
      ResourceTableType.namedType t.namedType ⟨t.namedType, .kUndefined, []⟩
      (t.cloneInto cloner s.1) s.2) package.types pool new
  exact hpart

/-- A copy of a type has its name and type. -/
theorem ResourceTableType.namedType_cloneInto {pool pool' : σ} {type new copy : ResourceTableType ι}
    (h : type.cloneInto cloner pool new = some (pool', copy)) : copy.namedType = new.namedType := by
  rw [cloneInto_eq] at h
  obtain ⟨r, -, hr⟩ := Option.map_eq_some_iff.mp h
  cases hr
  rfl

/-- **When the copy of a package is the same.** -/
theorem ResourceTablePackage.exists_cloneInto_iff {package : ResourceTablePackage ι}
    (h : ∀ type ∈ package.types, type.DistinctEntries) (pool : σ) :
    (∃ pool' copy, package.cloneInto cloner pool ⟨package.name, []⟩ = some (pool', copy)
        ∧ SamePackage cloner copy package) ↔ package.Clonable := by
  have hturns := exists_mapAccumO_iff (R := SameType cloner)
    (fun t ht s => @ResourceTableType.exists_cloneInto_iff ι σ cloner t (h t ht) s) pool
  have hkeep : ∀ (s : σ) (t x : ResourceTableType ι) (s' : σ) (x' : ResourceTableType ι),
      t.cloneInto cloner s x = some (s', x') → x'.namedType = x.namedType :=
    fun s t x s' x' => ResourceTableType.namedType_cloneInto
  have hkey : ∀ (s : σ) (t : ResourceTableType ι) (s' : σ) (a : ResourceTableType ι),
      t.cloneInto cloner s ⟨t.namedType, .kUndefined, []⟩ = some (s', a) →
      a.namedType.compare t.namedType = .eq := by
    intro s t s' a hcopy
    rw [hkeep s t _ s' a hcopy]
    exact compare_namedType_self t.namedType
  rw [cloneInto_eq, Clonable]
  constructor
  · rintro ⟨pool', copy, hcopy, -, hsame⟩
    obtain ⟨⟨s, l⟩, hl, hr⟩ := Option.map_eq_some_iff.mp hcopy
    cases hr
    have hnil : StrictlySortedBy ResourceNamedType.compare ResourceTableType.namedType
        ([] : List (ResourceTableType ι)) := List.Pairwise.nil
    have hkeys : l.map ResourceTableType.namedType
        = package.types.map ResourceTableType.namedType :=
      map_eq_map_of_forall₂ hsame fun a b hab => hab.1
    have hsorted : StrictlySortedBy ResourceNamedType.compare ResourceTableType.namedType
        package.types :=
      (hnil.foldlM_onFoundOrCreated (fun t => compare_namedType_self t.namedType) hkeep
        hl).of_map_eq hkeys.symm
    rw [foldlM_onFoundOrCreated_nil hkey hsorted pool] at hl
    exact ⟨hsorted, hturns.mp ⟨s, l, hl, hsame⟩⟩
  · rintro ⟨hsorted, htypes⟩
    obtain ⟨s, l, hl, hsame⟩ := hturns.mpr htypes
    rw [foldlM_onFoundOrCreated_nil hkey hsorted pool]
    exact ⟨s, ⟨package.name, l⟩, by rw [hl, Option.map_some], rfl, hsame⟩

/-- A copy of a package has its name. -/
theorem ResourceTablePackage.name_cloneInto {pool pool' : σ}
    {package new copy : ResourceTablePackage ι}
    (h : package.cloneInto cloner pool new = some (pool', copy)) : copy.name = new.name := by
  rw [cloneInto_eq] at h
  obtain ⟨r, -, hr⟩ := Option.map_eq_some_iff.mp h
  cases hr
  rfl

/-- The loop over the packages of a table changes only its packages. -/
theorem ResourceTable.clone_eq (pool : σ) (table : ResourceTable ι) :
    table.clone cloner pool
      = (table.packages.foldlM (fun s p => onFoundOrCreated compare ResourceTablePackage.name p.name
          ⟨p.name, []⟩ (p.cloneInto cloner s.1) s.2) (pool, [])).map fun r => (r.1, ⟨r.2⟩) := by
  have hpart := foldlM_part ResourceTable.packages (fun t l => { t with packages := l })
    (fun _ _ => rfl) (fun _ _ _ => rfl) (fun _ => rfl)
    (fun s (p : ResourceTablePackage ι) => onFoundOrCreated compare ResourceTablePackage.name p.name
      ⟨p.name, []⟩ (p.cloneInto cloner s.1) s.2) table.packages pool ⟨[]⟩
  exact hpart

/-- When the copy of a table is the same, if its entries can be told apart. -/
theorem ResourceTable.exists_clone_iff_of_distinct {table : ResourceTable ι}
    (h : ∀ package ∈ table.packages, ∀ type ∈ package.types, type.DistinctEntries) (pool : σ) :
    (∃ pool' copy, table.clone cloner pool = some (pool', copy) ∧ SameTable cloner copy table)
      ↔ table.Clonable := by
  have hturns := exists_mapAccumO_iff (R := SamePackage cloner)
    (fun p hp s => @ResourceTablePackage.exists_cloneInto_iff ι σ cloner p (h p hp) s) pool
  have hkeep : ∀ (s : σ) (p x : ResourceTablePackage ι) (s' : σ) (x' : ResourceTablePackage ι),
      p.cloneInto cloner s x = some (s', x') → x'.name = x.name :=
    fun s p x s' x' => ResourceTablePackage.name_cloneInto
  have hkey : ∀ (s : σ) (p : ResourceTablePackage ι) (s' : σ) (a : ResourceTablePackage ι),
      p.cloneInto cloner s ⟨p.name, []⟩ = some (s', a) → compare a.name p.name = .eq := by
    intro s p s' a hcopy
    rw [hkeep s p _ s' a hcopy]
    exact compare_bytes_self p.name
  rw [clone_eq, Clonable]
  constructor
  · rintro ⟨pool', copy, hcopy, hsame⟩
    obtain ⟨⟨s, l⟩, hl, hr⟩ := Option.map_eq_some_iff.mp hcopy
    cases hr
    have hnil : StrictlySortedBy compare ResourceTablePackage.name
        ([] : List (ResourceTablePackage ι)) := List.Pairwise.nil
    have hkeys : l.map ResourceTablePackage.name = table.packages.map ResourceTablePackage.name :=
      map_eq_map_of_forall₂ hsame fun a b hab => hab.1
    have hsorted : StrictlySortedBy compare ResourceTablePackage.name table.packages :=
      (hnil.foldlM_onFoundOrCreated (fun p => compare_bytes_self p.name) hkeep hl).of_map_eq
        hkeys.symm
    rw [foldlM_onFoundOrCreated_nil hkey hsorted pool] at hl
    exact ⟨hsorted, hturns.mp ⟨s, l, hl, hsame⟩⟩
  · rintro ⟨hsorted, hpackages⟩
    obtain ⟨s, l, hl, hsame⟩ := hturns.mpr hpackages
    rw [foldlM_onFoundOrCreated_nil hkey hsorted pool]
    exact ⟨s, ⟨l⟩, by rw [hl, Option.map_some], hsame⟩

/-- **When the copy of a table is the same**: all vectors are in order, no key is there twice, and
no entry has a staged identifier, a value behind a disabled flag, a value that is null or one that
uses flags that can change. Entries with one name and one identifier, which the copy reverses as
well, may be equal. -/
theorem ResourceTable.exists_clone_iff (table : ResourceTable ι) (pool : σ) :
    (table.Clonable →
        ∃ pool' copy, table.clone cloner pool = some (pool', copy) ∧ SameTable cloner copy table)
      ∧ ((∀ package ∈ table.packages, ∀ type ∈ package.types, type.DistinctEntries) →
        (∃ pool' copy, table.clone cloner pool = some (pool', copy)
          ∧ SameTable cloner copy table) → table.Clonable) := by
  refine ⟨fun h => ?_, fun hdistinct => (exists_clone_iff_of_distinct hdistinct pool).mp⟩
  refine (exists_clone_iff_of_distinct (fun package hp type ht => ?_) pool).mpr h
  exact ((h.2 package hp).2 type ht).distinctEntries

/-! ## Tables of values -/

namespace Values

/-- The subclass of an item. -/
def Item.kind : Item → ValueKind
  | .reference _ => .reference
  | .id _ => .id
  | .rawString _ _ => .rawString
  | .string _ _ _ => .string
  | .styledString _ _ _ => .styledString
  | .fileReference _ _ _ _ => .fileReference
  | .binaryPrimitive _ _ _ => .binaryPrimitive

/-- The subclass of a value, and its members of `Value`. -/
def Value.kindAndMetadata : Value → ValueKind × Metadata
  | .item value => (value.kind, value.metadata)
  | .attr typeMask _ _ _ metadata => (.attribute typeMask, metadata)
  | .style value => (.style, value.metadata)
  | .array _ metadata => (.array, metadata)
  | .plural _ metadata => (.plural, metadata)
  | .styleable _ metadata => (.styleable, metadata)
  | .kMacro _ _ _ _ metadata => (.kMacro, metadata)

/-- A value of a table. -/
def Value.inTable (v : Value) : Aapt2.Value Value where
  kind := v.kindAndMetadata.1
  content := v
  weak := v.kindAndMetadata.2.weak
  translatable := v.kindAndMetadata.2.translatable
  flag := v.kindAndMetadata.2.flag
  flagStatus := v.kindAndMetadata.2.flagStatus

/-- `CloningValueTransformer` on the values of a table. -/
def cloningTransformer (std : StdSort) : ValueCloner Value Pool where
  transform pool v :=
    let copy := v.content.transform pool
    (copy.1, copy.2.inTable)
  equals a b := a.content.equals std b.content
  equals_transform pool v := v.content.equals_transform std pool

/-- **When `Clone` gives an equal table**: if all vectors are in order without a key twice and
nothing is left out, and only then if entries of one name differ in their identifiers. -/
theorem clone_same_iff (std : StdSort) (table : ResourceTable Value) (pool : Pool) :
    (table.Clonable → ∃ pool' copy, table.clone (cloningTransformer std) pool = some (pool', copy)
        ∧ SameTable (cloningTransformer std) copy table)
      ∧ ((∀ package ∈ table.packages, ∀ type ∈ package.types, type.DistinctEntries) →
        (∃ pool' copy, table.clone (cloningTransformer std) pool = some (pool', copy)
          ∧ SameTable (cloningTransformer std) copy table) → table.Clonable) :=
  table.exists_clone_iff pool

/-- A table with one entry. -/
def sampleTable (stagedId : Option StagedId) : ResourceTable Value :=
  ⟨[⟨[97], [⟨⟨[98], .kString⟩, .kPublic,
    [{ ResourceEntry.new [99] with
      stagedId
      values := [⟨ResTableConfig.defaultConfig, [], some sampleString.inTable, false⟩] }]⟩]⟩]⟩

/-- The copy of a table without anything that is not copied. -/
theorem exists_clone_sampleTable :
    ∃ pool' copy, (sampleTable none).clone (cloningTransformer StdSort.insertion) ⟨1, [], []⟩
        = some (pool', copy)
      ∧ SameTable (cloningTransformer StdSort.insertion) copy (sampleTable none) := by
  refine (clone_same_iff StdSort.insertion (sampleTable none) ⟨1, [], []⟩).1 ?_
  refine ⟨List.pairwise_singleton _ _, fun p hp => ?_⟩
  obtain rfl := List.mem_singleton.mp hp
  refine ⟨List.pairwise_singleton _ _, fun t ht => ?_⟩
  obtain rfl := List.mem_singleton.mp ht
  refine ⟨List.pairwise_singleton _ _, fun e he => ?_⟩
  obtain rfl := List.mem_singleton.mp he
  exact ⟨List.pairwise_singleton _ _, by decide⟩

/-- An entry whose copy is the same has no staged identifier. -/
theorem stagedId_of_clonable {stagedId : Option StagedId}
    (h : (sampleTable stagedId).Clonable) : stagedId = none := by
  have htype := (h.2 _ (List.mem_singleton_self _)).2 _ (List.mem_singleton_self _)
  exact (htype.2 _ (List.mem_singleton_self _)).2.1

/-- The only entry of the table. -/
theorem distinctEntries_sampleTable (stagedId : Option StagedId) :
    ∀ package ∈ (sampleTable stagedId).packages, ∀ type ∈ package.types, type.DistinctEntries := by
  intro p hp t ht
  obtain rfl := List.mem_singleton.mp hp
  obtain rfl := List.mem_singleton.mp ht
  exact List.nodup_singleton _

/-- A staged identifier is not copied. -/
theorem not_exists_clone_sampleTable :
    ¬ ∃ pool' copy, (sampleTable (some ⟨⟨0x7f010000#32⟩⟩)).clone
        (cloningTransformer StdSort.insertion) ⟨1, [], []⟩ = some (pool', copy)
      ∧ SameTable (cloningTransformer StdSort.insertion) copy
        (sampleTable (some ⟨⟨0x7f010000#32⟩⟩)) := by
  intro h
  have hclonable := (@ResourceTable.exists_clone_iff Value Pool
    (cloningTransformer StdSort.insertion) (sampleTable (some ⟨⟨0x7f010000#32⟩⟩)) ⟨1, [], []⟩).2
      (distinctEntries_sampleTable _) h
  cases stagedId_of_clonable hclonable

end Values

end AndroidSdk.Aapt2
