import AndroidSdk.Lib.Dict
import AndroidSdk.Aapt2.ResourceTable

/-! # The partitioned view of a table

`ResourceTable::GetPartitionedView` (`ResourceTable.cpp`) sorts the resources of a table by their
identifiers. An entry with a staged identifier is there twice. The runtime does not support several
type identifiers for one type in a package, so each further one is moved to a package of its own.

* **`insertEntryIntoTableView`**, **`getPartitionedView`** — the view of a table.
* **`ResourceTableView.placed`** — what a view holds, entry by entry.
* **`layer`** — the types of a package with a given number of smaller type identifiers for the same
  type.
* **`getPartitionedView_eq`** — the packages of the view: the first layer, then the others from the
  last to the second. -/

namespace AndroidSdk.Aapt2

open Lib SplitSelect

variable {ι : Type}

/-! ## Views -/

/-- `ResourceTableEntryView`. -/
structure ResourceTableEntryView (ι : Type) where
  name : Bytes
  id : Option (BitVec 16)
  visibility : Visibility
  allowNew : Option AllowNew
  overlayableItem : Option OverlayableItem
  stagedId : Option StagedId
  values : List (ResourceConfigValue ι)
  flagDisabledValues : List (ResourceConfigValue ι)
  deriving DecidableEq

/-- `ResourceTableTypeView`. -/
structure ResourceTableTypeView (ι : Type) where
  namedType : ResourceNamedType
  id : Option (BitVec 8)
  visibilityLevel : VisibilityLevel
  entries : List (ResourceTableEntryView ι)
  deriving DecidableEq

/-- `ResourceTablePackageView`. -/
structure ResourceTablePackageView (ι : Type) where
  name : Bytes
  id : Option (BitVec 8)
  types : List (ResourceTableTypeView ι)
  deriving DecidableEq

/-- `ResourceTableView`. -/
structure ResourceTableView (ι : Type) where
  packages : List (ResourceTablePackageView ι)
  deriving DecidableEq

/-- The order of optional identifiers: none is before all others. -/
def idKey {w : ℕ} (id : Option (BitVec w)) : ℕ := id.elim 0 (·.toNat + 1)

/-- The key tells identifiers apart. -/
theorem idKey_injective {w : ℕ} {a b : Option (BitVec w)} (h : idKey a = idKey b) : a = b := by
  cases a with
  | none =>
      cases b with
      | none => rfl
      | some b => simp [idKey] at h
  | some a =>
      cases b with
      | none => simp [idKey] at h
      | some b =>
          have h : a.toNat = b.toNat := by simpa [idKey] using h
          rw [BitVec.eq_of_toNat_eq h]

/-- `PackageViewComparer`, `EntryViewComparer`: by the identifier, then by the name. -/
def compareIdName : ℕ × Bytes → ℕ × Bytes → Ordering :=
  compareLex (compareOn Prod.fst) (compareOn Prod.snd)

instance : Std.TransCmp compareIdName := by
  unfold compareIdName
  infer_instance

/-- `TypeViewComparer`: by the identifier, then by the named type. -/
def compareIdType : ℕ × ResourceNamedType → ℕ × ResourceNamedType → Ordering :=
  compareLex (compareOn Prod.fst) fun a b => a.2.compare b.2

instance : Std.TransCmp compareIdType := by
  have : Std.TransCmp fun a b : ℕ × ResourceNamedType => a.2.compare b.2 :=
    { eq_swap := Std.OrientedCmp.eq_swap, isLE_trans := Std.TransCmp.isLE_trans }
  unfold compareIdType
  infer_instance

/-- What an entry is sorted by. -/
def ResourceTableEntryView.key (entry : ResourceTableEntryView ι) : ℕ × Bytes :=
  (idKey entry.id, entry.name)

/-- What a type is sorted by. -/
def ResourceTableTypeView.key (type : ResourceTableTypeView ι) : ℕ × ResourceNamedType :=
  (idKey type.id, type.namedType)

/-- What a package is sorted by. -/
def ResourceTablePackageView.key (package : ResourceTablePackageView ι) : ℕ × Bytes :=
  (idKey package.id, package.name)

/-- Keys that compare equal are equal. -/
theorem compareIdName_eq_iff (a b : ℕ × Bytes) : compareIdName a b = .eq ↔ a = b := by
  rw [compareIdName, compareLex_eq_eq, compareOn, compareOn, Std.LawfulEqCmp.compare_eq_iff_eq,
    Std.LawfulEqCmp.compare_eq_iff_eq, Prod.ext_iff]

/-- Keys that compare equal are equal. -/
theorem compareIdType_eq_iff (a b : ℕ × ResourceNamedType) : compareIdType a b = .eq ↔ a = b := by
  rw [compareIdType, compareLex_eq_eq, compareOn, Std.LawfulEqCmp.compare_eq_iff_eq,
    ResourceNamedType.compare_eq_iff, Prod.ext_iff]

/-! ## The first loop -/

/-- What the first loop does with an entry of a type view. -/
def ResourceTableTypeView.insertEntry (entry : ResourceTableEntryView ι)
    (type : ResourceTableTypeView ι) : ResourceTableTypeView ι :=
  { type with
    -- only mark the level of the type as public, it does not care about being private
    visibilityLevel :=
      if entry.visibility.level = .kPublic then .kPublic else type.visibilityLevel
    entries := updateFoundOrCreated compareIdName ResourceTableEntryView.key entry.key entry
      (fun found => found) type.entries }

/-- What the first loop does with an entry of a package view. -/
def ResourceTablePackageView.insertEntry (type : ResourceNamedType) (id : Option ResourceId)
    (entry : ResourceTableEntryView ι) (package : ResourceTablePackageView ι) :
    ResourceTablePackageView ι :=
  { package with
    types := updateFoundOrCreated compareIdType ResourceTableTypeView.key
      (idKey (id.map ResourceId.typeId), type)
      ⟨type, id.map ResourceId.typeId, .kUndefined, []⟩ (·.insertEntry entry) package.types }

/-- `InsertEntryIntoTableView`. -/
def insertEntryIntoTableView (package : Bytes) (type : ResourceNamedType) (name : Bytes)
    (id : Option ResourceId) (visibility : Visibility) (allowNew : Option AllowNew)
    (overlayableItem : Option OverlayableItem) (stagedId : Option StagedId)
    (values flagDisabledValues : List (ResourceConfigValue ι)) (view : ResourceTableView ι) :
    ResourceTableView ι :=
  { view with
    packages := updateFoundOrCreated compareIdName ResourceTablePackageView.key
      (idKey (id.map ResourceId.packageId), package) ⟨package, id.map ResourceId.packageId, []⟩
      (·.insertEntry type id ⟨name, id.map ResourceId.entryId, visibility, allowNew, overlayableItem,
        stagedId, values, flagDisabledValues⟩) view.packages }

/-- What the first loop does with an entry: it is inserted, and once more under its staged
identifier. -/
def insertWithAlias (createAliasEntries : Bool) (view : ResourceTableView ι)
    (e : ResourceName × ResourceEntry ι) : ResourceTableView ι :=
  let entry := e.2
  let view := insertEntryIntoTableView e.1.package e.1.type entry.name entry.id entry.visibility
    entry.allowNew entry.overlayableItem entry.stagedId entry.values entry.flagDisabledValues view
  match entry.stagedId with
  | some stagedId =>
      if createAliasEntries then
        insertEntryIntoTableView e.1.package e.1.type entry.name (some stagedId.id)
          entry.visibility entry.allowNew entry.overlayableItem none entry.values
          entry.flagDisabledValues view
      else view
  | none => view

/-! ## Types with several identifiers -/

/-- The state of the loop over the types of a package. -/
structure PartitionState (ι : Type) where
  newPackages : List (ResourceTablePackageView ι)
  kept : List (ResourceTableTypeView ι)
  typeNewPackageIndex : Dict ResourceNamedType ℕ

/-- What is done with a type: the first occurrence of a named type is kept, others are moved to new
packages. -/
def partitionType (startIndex : ℕ) (package : ResourceTablePackageView ι) (s : PartitionState ι)
    (type : ResourceTableTypeView ι) : PartitionState ι :=
  match s.typeNewPackageIndex.lookup type.namedType with
  | none =>
      { s with
        kept := s.kept ++ [type]
        typeNewPackageIndex := s.typeNewPackageIndex.insert type.namedType startIndex }
  | some index =>
      let newPackages :=
        if s.newPackages.length = index then s.newPackages ++ [⟨package.name, package.id, []⟩]
        else s.newPackages
      { s with
        newPackages := newPackages.modify index fun other =>
          { other with
            types := updateFoundOrCreated compareIdType ResourceTableTypeView.key type.key type
              (fun found => found) other.types }
        typeNewPackageIndex := s.typeNewPackageIndex.insert type.namedType (index + 1) }

/-- What is done with a package; a new package that was created for one of its types is used for the
others, too. -/
def partitionPackage (newPackages : List (ResourceTablePackageView ι))
    (package : ResourceTablePackageView ι) :
    List (ResourceTablePackageView ι) × ResourceTablePackageView ι :=
  let s := package.types.foldl (partitionType newPackages.length package) ⟨newPackages, [], ∅⟩
  (s.newPackages, { package with types := s.kept })

/-- A new package is inserted after its original package. -/
def insertNewPackage (packages : List (ResourceTablePackageView ι))
    (newPackage : ResourceTablePackageView ι) : List (ResourceTablePackageView ι) :=
  packages.insertIdx
    (lowerBound (fun p => compareIdName p.key newPackage.key == .lt) packages + 1) newPackage

/-- `GetPartitionedView`. -/
def ResourceTable.getPartitionedView (createAliasEntries : Bool) (table : ResourceTable ι) :
    ResourceTableView ι :=
  let view : ResourceTableView ι :=
    table.namedEntries.foldl (insertWithAlias createAliasEntries) ⟨[]⟩
  let (newPackages, packages) := mapAccum partitionPackage [] view.packages
  ⟨newPackages.foldl insertNewPackage packages⟩

/-! ## What a view holds -/

/-- An entry of a view, with the package and the type it is in and its whole identifier. -/
structure Placed (ι : Type) where
  package : Bytes
  type : ResourceNamedType
  id : Option ResourceId
  entry : ResourceTableEntryView ι

/-- The identifier of three parts, if all are there. -/
def fullId (p t : Option (BitVec 8)) (e : Option (BitVec 16)) : Option ResourceId :=
  p.bind fun p => t.bind fun t => e.map fun e => .ofParts p t e

/-- An identifier is made of its parts. -/
theorem ofParts_parts (r : ResourceId) : .ofParts r.packageId r.typeId r.entryId = r := by
  apply ResourceId.eq_of_parts <;> simp

/-- Parts make an identifier iff they are its parts. -/
theorem fullId_eq_some_iff {p t : Option (BitVec 8)} {e : Option (BitVec 16)} {r : ResourceId} :
    fullId p t e = some r
      ↔ p = some r.packageId ∧ t = some r.typeId ∧ e = some r.entryId := by
  constructor
  · intro h
    obtain ⟨p', hp, hrest⟩ := Option.bind_eq_some_iff.mp h
    obtain ⟨t', ht, hrest⟩ := Option.bind_eq_some_iff.mp hrest
    obtain ⟨e', he, rfl⟩ := Option.map_eq_some_iff.mp hrest
    simp [hp, ht, he]
  · rintro ⟨rfl, rfl, rfl⟩
    simp [fullId, ofParts_parts]

/-- The entries of a type. -/
def ResourceTableTypeView.placed (package : Bytes) (packageId : Option (BitVec 8))
    (type : ResourceTableTypeView ι) : List (Placed ι) :=
  type.entries.map fun e => ⟨package, type.namedType, fullId packageId type.id e.id, e⟩

/-- The entries of a package. -/
def ResourceTablePackageView.placed (package : ResourceTablePackageView ι) : List (Placed ι) :=
  package.types.flatMap (·.placed package.name package.id)

/-- The entries of a view. -/
def ResourceTableView.placed (view : ResourceTableView ι) : List (Placed ι) :=
  view.packages.flatMap ResourceTablePackageView.placed

/-- The invariant of a package view: types are strictly sorted, and so are their entries; no type is
empty. -/
structure ResourceTablePackageView.Wf (package : ResourceTablePackageView ι) : Prop where
  types : StrictlySortedBy compareIdType ResourceTableTypeView.key package.types
  entries : ∀ type ∈ package.types,
    StrictlySortedBy compareIdName ResourceTableEntryView.key type.entries
  nonempty : ∀ type ∈ package.types, type.entries ≠ []

/-- A package without types is well formed. -/
theorem ResourceTablePackageView.Wf.nil (name : Bytes) (id : Option (BitVec 8)) :
    (⟨name, id, []⟩ : ResourceTablePackageView ι).Wf :=
  ⟨List.Pairwise.nil, (fun t ht => by cases ht), fun t ht => by cases ht⟩

/-- The invariant of a view before types are moved. -/
structure ResourceTableView.Wf (view : ResourceTableView ι) : Prop where
  packages : StrictlySortedBy compareIdName ResourceTablePackageView.key view.packages
  package : ∀ package ∈ view.packages, package.Wf

section Insert

variable {package : Bytes} {type : ResourceNamedType} {r : ResourceId}
  {entry : ResourceTableEntryView ι}

/-- The invariant of a type view after an insertion. -/
theorem ResourceTableTypeView.wf_insertEntry {t : ResourceTableTypeView ι}
    (h : StrictlySortedBy compareIdName ResourceTableEntryView.key t.entries) :
    StrictlySortedBy compareIdName ResourceTableEntryView.key (t.insertEntry entry).entries
      ∧ (t.insertEntry entry).entries ≠ [] := by
  refine ⟨h.updateFoundOrCreated Std.ReflCmp.compare_self fun _ hx => hx, ?_⟩
  intro hnil
  have hfind := findSorted_updateFoundOrCreated (f := fun found => found) h
    (Std.ReflCmp.compare_self (a := entry.key)) (fun _ hx => hx) entry.key
  rw [if_pos Std.ReflCmp.compare_self] at hfind
  have hmem := (mem_of_findSorted hfind).1
  replace hnil : updateFoundOrCreated compareIdName ResourceTableEntryView.key entry.key entry
    (fun found => found) t.entries = [] := hnil
  rw [hnil] at hmem
  cases hmem

/-- The invariant of a package view after an insertion. -/
theorem ResourceTablePackageView.wf_insertEntry {p : ResourceTablePackageView ι} (h : p.Wf)
    (id : Option ResourceId) : (p.insertEntry type id entry).Wf := by
  have hmem : ∀ t ∈ (p.insertEntry type id entry).types,
      StrictlySortedBy compareIdName ResourceTableEntryView.key t.entries ∧ t.entries ≠ [] := by
    intro t ht
    rcases mem_updateFoundOrCreated h.types ht with ht | ⟨u, ⟨hu, -⟩ | rfl, rfl⟩
    · exact ⟨h.entries t ht, h.nonempty t ht⟩
    · exact ResourceTableTypeView.wf_insertEntry (h.entries u hu)
    · exact ResourceTableTypeView.wf_insertEntry
        (t := ⟨type, id.map ResourceId.typeId, .kUndefined, []⟩) List.Pairwise.nil
  exact ⟨h.types.updateFoundOrCreated Std.ReflCmp.compare_self fun _ hx => hx,
    fun t ht => (hmem t ht).1, fun t ht => (hmem t ht).2⟩

/-- The invariant of a view after an insertion. -/
theorem wf_insertEntryIntoTableView {view : ResourceTableView ι} (h : view.Wf) {name : Bytes}
    {id : Option ResourceId} {visibility : Visibility} {allowNew : Option AllowNew}
    {overlayableItem : Option OverlayableItem} {stagedId : Option StagedId}
    {values flagDisabledValues : List (ResourceConfigValue ι)} :
    (insertEntryIntoTableView package type name id visibility allowNew overlayableItem stagedId
      values flagDisabledValues view).Wf := by
  refine ⟨h.packages.updateFoundOrCreated Std.ReflCmp.compare_self fun _ hx => hx, fun p hp => ?_⟩
  rcases mem_updateFoundOrCreated h.packages hp with hp | ⟨q, ⟨hq, -⟩ | rfl, rfl⟩
  · exact h.package p hp
  · exact ResourceTablePackageView.wf_insertEntry (h.package q hq) id
  · exact ResourceTablePackageView.wf_insertEntry (.nil _ _) id

/-- **The entries of a type view after any insertion**: those it had, and one under the key. -/
theorem ResourceTableTypeView.mem_placed_insertEntry {t : ResourceTableTypeView ι} (package : Bytes)
    (packageId : Option (BitVec 8)) (entry : ResourceTableEntryView ι)
    (h : StrictlySortedBy compareIdName ResourceTableEntryView.key t.entries) :
    (∀ y ∈ (t.insertEntry entry).placed package packageId, y ∈ t.placed package packageId
        ∨ y = ⟨package, t.namedType, fullId packageId t.id entry.id, entry⟩)
      ∧ (∀ y ∈ t.placed package packageId, y ∈ (t.insertEntry entry).placed package packageId)
      ∧ ∃ y ∈ (t.insertEntry entry).placed package packageId,
        y.id = fullId packageId t.id entry.id := by
  obtain ⟨hkeep, e, he, hmem⟩ := mem_updateFoundOrCreated_of_mem entry.key entry
    (fun found => found) h.sortedBy
  refine ⟨fun y hy => ?_, fun y hy => ?_, _, List.mem_map_of_mem hmem, ?_⟩
  · obtain ⟨e, he, rfl⟩ := List.mem_map.mp hy
    rcases mem_updateFoundOrCreated h he with he | ⟨x, ⟨hx, -⟩ | rfl, rfl⟩
    · exact .inl (List.mem_map_of_mem he)
    · exact .inl (List.mem_map_of_mem hx)
    · exact .inr rfl
  · obtain ⟨e, he, rfl⟩ := List.mem_map.mp hy
    exact List.mem_map_of_mem ((hkeep e he).elim (fun h => h) And.right)
  · rcases he with ⟨-, hkey⟩ | rfl
    · have hid := idKey_injective (congrArg Prod.fst ((compareIdName_eq_iff _ _).mp hkey))
      rw [hid]
      rfl
    · rfl

/-- **The entries of a package view after any insertion.** -/
theorem ResourceTablePackageView.mem_placed_insertEntry {p : ResourceTablePackageView ι} (h : p.Wf)
    (hid : p.id = some r.packageId) (entry : ResourceTableEntryView ι)
    (hentry : entry.id = some r.entryId) :
    (∀ y ∈ (p.insertEntry type (some r) entry).placed, y ∈ p.placed
        ∨ y = ⟨p.name, type, some r, entry⟩)
      ∧ (∀ y ∈ p.placed, y ∈ (p.insertEntry type (some r) entry).placed)
      ∧ ∃ y ∈ (p.insertEntry type (some r) entry).placed,
        y.package = p.name ∧ y.type = type ∧ y.id = some r := by
  have hfull : fullId p.id (some r.typeId) entry.id = some r :=
    fullId_eq_some_iff.mpr ⟨hid, rfl, hentry⟩
  -- the type view that gets the entry
  have htype : ∀ t, (t ∈ p.types ∧ compareIdType t.key (idKey (some r.typeId), type) = .eq
      ∨ t = ⟨type, some r.typeId, .kUndefined, []⟩) → t.namedType = type ∧ t.id = some r.typeId
        ∧ StrictlySortedBy compareIdName ResourceTableEntryView.key t.entries := by
    rintro t (⟨ht, hkey⟩ | rfl)
    · have hkey := (compareIdType_eq_iff _ _).mp hkey
      exact ⟨congrArg Prod.snd hkey, idKey_injective (congrArg Prod.fst hkey), h.entries t ht⟩
    · exact ⟨rfl, rfl, List.Pairwise.nil⟩
  obtain ⟨hkeep, u, hu, humem⟩ := mem_updateFoundOrCreated_of_mem (idKey (some r.typeId), type)
    (⟨type, some r.typeId, .kUndefined, []⟩ : ResourceTableTypeView ι)
    (fun t => t.insertEntry entry) h.types.sortedBy
  refine ⟨fun y hy => ?_, fun y hy => ?_, ?_⟩
  · obtain ⟨t, ht, hy⟩ := List.mem_flatMap.mp hy
    rcases mem_updateFoundOrCreated h.types ht with ht | ⟨x, hx, rfl⟩
    · exact .inl (List.mem_flatMap.mpr ⟨t, ht, hy⟩)
    · obtain ⟨hname, hxid, hsorted⟩ := htype x hx
      rcases (ResourceTableTypeView.mem_placed_insertEntry _ _ entry hsorted).1 y hy with hy | rfl
      · rcases hx with ⟨hx, -⟩ | rfl
        · exact .inl (List.mem_flatMap.mpr ⟨x, hx, hy⟩)
        · exact absurd hy List.not_mem_nil
      · refine .inr ?_
        show Placed.mk p.name x.namedType (fullId p.id x.id entry.id) entry = _
        rw [hname, hxid, hfull]
  · obtain ⟨t, ht, hy⟩ := List.mem_flatMap.mp hy
    rcases hkeep t ht with ht' | ⟨-, ht'⟩
    · exact List.mem_flatMap.mpr ⟨t, ht', hy⟩
    · exact List.mem_flatMap.mpr ⟨_, ht',
        (ResourceTableTypeView.mem_placed_insertEntry _ _ entry (h.entries t ht)).2.1 y hy⟩
  · obtain ⟨hname, huid, hsorted⟩ := htype u hu
    obtain ⟨y, hy, hyid⟩ :=
      (ResourceTableTypeView.mem_placed_insertEntry p.name p.id entry hsorted).2.2
    refine ⟨y, List.mem_flatMap.mpr ⟨_, humem, hy⟩, ?_⟩
    obtain ⟨e, -, rfl⟩ := List.mem_map.mp hy
    exact ⟨rfl, hname, by rw [hyid, huid, hfull]⟩

/-- **The entries of a view after any insertion**: those it had, and one under the identifier, which
is the new one unless there was one. -/
theorem mem_placed_insertEntryIntoTableView {view : ResourceTableView ι} (h : view.Wf) {name : Bytes}
    {visibility : Visibility} {allowNew : Option AllowNew}
    {overlayableItem : Option OverlayableItem} {stagedId : Option StagedId}
    {values flagDisabledValues : List (ResourceConfigValue ι)} :
    let view' := insertEntryIntoTableView package type name (some r) visibility allowNew
      overlayableItem stagedId values flagDisabledValues view
    (∀ y ∈ view'.placed, y ∈ view.placed ∨ y = ⟨package, type, some r, ⟨name, some r.entryId,
        visibility, allowNew, overlayableItem, stagedId, values, flagDisabledValues⟩⟩)
      ∧ (∀ y ∈ view.placed, y ∈ view'.placed)
      ∧ ∃ y ∈ view'.placed, y.package = package ∧ y.type = type ∧ y.id = some r := by
  intro view'
  let entry : ResourceTableEntryView ι := ⟨name, some r.entryId, visibility, allowNew,
    overlayableItem, stagedId, values, flagDisabledValues⟩
  have hpackage : ∀ p, (p ∈ view.packages ∧ compareIdName p.key (idKey (some r.packageId), package) = .eq
      ∨ p = ⟨package, some r.packageId, []⟩) → p.name = package ∧ p.id = some r.packageId ∧ p.Wf := by
    rintro p (⟨hp, hkey⟩ | rfl)
    · have hkey := (compareIdName_eq_iff _ _).mp hkey
      exact ⟨congrArg Prod.snd hkey, idKey_injective (congrArg Prod.fst hkey), h.package p hp⟩
    · exact ⟨rfl, rfl, .nil _ _⟩
  obtain ⟨hkeep, u, hu, humem⟩ := mem_updateFoundOrCreated_of_mem
    (idKey (some r.packageId), package) (⟨package, some r.packageId, []⟩ : ResourceTablePackageView ι)
    (fun p => p.insertEntry type (some r) entry) h.packages.sortedBy
  refine ⟨fun y hy => ?_, fun y hy => ?_, ?_⟩
  · obtain ⟨p, hp, hy⟩ := List.mem_flatMap.mp hy
    rcases mem_updateFoundOrCreated h.packages hp with hp | ⟨x, hx, rfl⟩
    · exact .inl (List.mem_flatMap.mpr ⟨p, hp, hy⟩)
    · obtain ⟨hname, hxid, hwf⟩ := hpackage x hx
      rcases (ResourceTablePackageView.mem_placed_insertEntry hwf hxid entry rfl).1 y hy with hy | rfl
      · rcases hx with ⟨hx, -⟩ | rfl
        · exact .inl (List.mem_flatMap.mpr ⟨x, hx, hy⟩)
        · exact absurd hy List.not_mem_nil
      · refine .inr ?_
        show Placed.mk x.name type (some r) entry = _
        rw [hname]
  · obtain ⟨p, hp, hy⟩ := List.mem_flatMap.mp hy
    rcases hkeep p hp with hp' | ⟨hkey, hp'⟩
    · exact List.mem_flatMap.mpr ⟨p, hp', hy⟩
    · obtain ⟨-, hid, hwf⟩ := hpackage p (.inl ⟨hp, hkey⟩)
      exact List.mem_flatMap.mpr ⟨_, hp',
        (ResourceTablePackageView.mem_placed_insertEntry hwf hid entry rfl).2.1 y hy⟩
  · obtain ⟨hname, hid, hwf⟩ := hpackage u hu
    obtain ⟨y, hy, hyname, hytype, hyid⟩ :=
      (ResourceTablePackageView.mem_placed_insertEntry hwf hid entry rfl).2.2
    exact ⟨y, List.mem_flatMap.mpr ⟨_, humem, hy⟩, hyname.trans hname, hytype, hyid⟩

end Insert

/-! ## Layers -/

section Layers

/-- How many smaller identifiers the named type has. -/
def rank (types : List (ResourceTableTypeView ι)) (type : ResourceTableTypeView ι) : ℕ :=
  types.countP fun u => u.namedType = type.namedType ∧ idKey u.id < idKey type.id

/-- The types of a rank. -/
def layer (types : List (ResourceTableTypeView ι)) (k : ℕ) : List (ResourceTableTypeView ι) :=
  types.filter fun type => rank types type = k

/-- The greatest rank. -/
def depth (types : List (ResourceTableTypeView ι)) : ℕ := (types.map (rank types)).foldr max 0

/-- How often a named type occurs. -/
def occurrences (types : List (ResourceTableTypeView ι)) (t : ResourceNamedType) : ℕ :=
  types.countP fun u => u.namedType = t

variable {types : List (ResourceTableTypeView ι)} {type : ResourceTableTypeView ι}

/-- What is before a type in the order has no greater identifier, and a smaller one if it is for the
same named type. -/
theorem id_of_compareIdType_lt {u t : ResourceTableTypeView ι}
    (h : compareIdType u.key t.key = .lt) :
    idKey u.id ≤ idKey t.id ∧ (u.namedType = t.namedType → idKey u.id < idKey t.id) := by
  have h : (compare (idKey u.id) (idKey t.id)).then (u.namedType.compare t.namedType) = .lt := h
  rcases Ordering.then_eq_lt.mp h with h | ⟨h, hlt⟩
  · have hlt := compare_lt_iff_lt.mp h
    exact ⟨hlt.le, fun _ => hlt⟩
  · refine ⟨(compare_eq_iff_eq.mp h).le, fun heq => ?_⟩
    rw [(ResourceNamedType.compare_eq_iff _ _).mpr heq] at hlt
    cases hlt

section Append

variable (h : StrictlySortedBy compareIdType ResourceTableTypeView.key (types ++ [type]))
include h

/-- The last type is behind all others. -/
theorem compareIdType_last {u : ResourceTableTypeView ι} (hu : u ∈ types) :
    compareIdType u.key type.key = .lt :=
  (List.pairwise_append.mp h).2.2 u hu type List.mem_cons_self

/-- A type at the end does not change the ranks of the others. -/
theorem rank_append_of_mem {u : ResourceTableTypeView ι} (hu : u ∈ types) :
    rank (types ++ [type]) u = rank types u := by
  have hnot : ¬ (type.namedType = u.namedType ∧ idKey type.id < idKey u.id) := fun hlt => by
    have hle := (id_of_compareIdType_lt (compareIdType_last h hu)).1
    omega
  simp [rank, List.countP_append, hnot]

/-- The rank of a type at the end. -/
theorem rank_append_self : rank (types ++ [type]) type = occurrences types type.namedType := by
  have hcount : types.countP (fun u => u.namedType = type.namedType ∧ idKey u.id < idKey type.id)
      = types.countP fun u => u.namedType = type.namedType := by
    refine List.countP_congr fun u hu => ?_
    simp only [decide_eq_true_iff]
    exact and_iff_left_of_imp (id_of_compareIdType_lt (compareIdType_last h hu)).2
  rw [rank, List.countP_append, hcount]
  simp [occurrences]

/-- A type at the end joins the layer of its rank. -/
theorem layer_append (k : ℕ) :
    layer (types ++ [type]) k
      = layer types k ++ if k = occurrences types type.namedType then [type] else [] := by
  rw [layer, List.filter_append]
  congr 1
  · refine List.filter_congr fun u hu => ?_
    rw [rank_append_of_mem h hu]
  · rw [List.filter_singleton, rank_append_self h]
    by_cases hk : k = occurrences types type.namedType
    · simp [hk]
    · simp [hk, Ne.symm hk]

/-- The depth with a type at the end. -/
theorem depth_append :
    depth (types ++ [type]) = max (depth types) (occurrences types type.namedType) := by
  have hranks : types.map (rank (types ++ [type])) = types.map (rank types) :=
    List.map_congr_left fun u hu => rank_append_of_mem h hu
  rw [depth, List.map_append, hranks, List.map_singleton, rank_append_self h]
  have hfold : ∀ (l : List ℕ) (m : ℕ), (l ++ [m]).foldr max 0 = max (l.foldr max 0) m := by
    intro l m
    induction l with
    | nil => simp
    | cons a l ih => rw [List.cons_append, List.foldr_cons, ih, List.foldr_cons, max_assoc]
  exact hfold _ _

end Append

/-- A named type occurs at most once in each layer. -/
theorem occurrences_le_depth (h : StrictlySortedBy compareIdType ResourceTableTypeView.key types)
    (t : ResourceNamedType) : occurrences types t ≤ depth types + 1 := by
  induction types using List.reverseRecOn with
  | nil => simp [occurrences]
  | append_singleton types type ih =>
      have hle := ih (List.pairwise_append.mp h).1
      have hcount : occurrences (types ++ [type]) t
          = occurrences types t + if type.namedType = t then 1 else 0 := by
        simp [occurrences, List.countP_append, List.countP_cons]
      rw [hcount, depth_append h]
      split_ifs with heq
      · subst heq
        omega
      · omega

/-- No rank is greater than the depth. -/
theorem rank_le_depth {u : ResourceTableTypeView ι} (hu : u ∈ types) : rank types u ≤ depth types := by
  have hmax : ∀ (l : List ℕ), ∀ m ∈ l, m ≤ l.foldr max 0 := by
    intro l
    induction l with
    | nil => exact fun m hm => by cases hm
    | cons a l ih =>
        intro m hm
        rw [List.foldr_cons]
        rcases List.mem_cons.mp hm with rfl | hm
        · exact le_max_left _ _
        · exact (ih m hm).trans (le_max_right _ _)
  exact hmax _ _ (List.mem_map_of_mem hu)

/-- The new packages that the types of a package are moved to. -/
def layerPackages (package : ResourceTablePackageView ι)
    (types : List (ResourceTableTypeView ι)) : List (ResourceTablePackageView ι) :=
  (List.range (depth types)).map fun k => ⟨package.name, package.id, layer types (k + 1)⟩

/-- A type at the end is moved to the new package of its rank, which is created when it is
missing. -/
theorem layerPackages_append (newPackages : List (ResourceTablePackageView ι))
    (package : ResourceTablePackageView ι)
    (h : StrictlySortedBy compareIdType ResourceTableTypeView.key (types ++ [type])) {c : ℕ}
    (hc : occurrences types type.namedType = c + 1) (hle : c + 1 ≤ depth types + 1) :
    ((if (newPackages ++ layerPackages package types).length = newPackages.length + c then
        newPackages ++ layerPackages package types ++ [⟨package.name, package.id, []⟩]
      else newPackages ++ layerPackages package types).modify (newPackages.length + c) fun other =>
        { other with
          types := updateFoundOrCreated compareIdType ResourceTableTypeView.key type.key type
            (fun found => found) other.types })
      = newPackages ++ layerPackages package (types ++ [type]) := by
  -- the type is behind all types of its layer
  have hinsert : ∀ k, updateFoundOrCreated compareIdType ResourceTableTypeView.key type.key type
      (fun found => found) (layer types k) = layer types k ++ [type] := by
    intro k
    have hsorted := (List.pairwise_append.mp h).1
    refine updateFoundOrCreated_eq_append (hsorted.sublist List.filter_sublist) fun u hu => ?_
    exact compareIdType_last h (List.mem_filter.mp hu).1
  have hlength : (layerPackages package types).length = depth types := by simp [layerPackages]
  have hat : ∀ k, (layerPackages package types)[k]?
      = if k < depth types then some ⟨package.name, package.id, layer types (k + 1)⟩ else none := by
    intro k
    by_cases hk : k < depth types
    · simp [layerPackages, hk]
    · simp [layerPackages, hk]
  have happend : (if (newPackages ++ layerPackages package types).length = newPackages.length + c then
        newPackages ++ layerPackages package types ++ [⟨package.name, package.id, []⟩]
      else newPackages ++ layerPackages package types)
      = newPackages ++ (layerPackages package types
        ++ if depth types = c then [⟨package.name, package.id, []⟩] else []) := by
    rw [List.length_append, hlength]
    by_cases hdepth : depth types = c
    · rw [if_pos hdepth, if_pos (by rw [hdepth]), List.append_assoc]
    · rw [if_neg hdepth, if_neg fun heq => hdepth (Nat.add_left_cancel heq), List.append_nil]
  have hmodify : ∀ (pre l : List (ResourceTablePackageView ι)) f,
      (pre ++ l).modify (pre.length + c) f = pre ++ l.modify c f := by
    intro pre l f
    induction pre with
    | nil => simp
    | cons p pre ih =>
        rw [List.cons_append, List.length_cons, Nat.add_right_comm, List.modify_succ_cons, ih,
          List.cons_append]
  rw [happend, hmodify]
  congr 1
  apply List.ext_getElem?
  intro k
  have hright : (layerPackages package (types ++ [type]))[k]?
      = if k < max (depth types) (c + 1) then some ⟨package.name, package.id,
          layer types (k + 1) ++ if k + 1 = c + 1 then [type] else []⟩ else none := by
    by_cases hk : k < max (depth types) (c + 1)
    · simp [layerPackages, depth_append h, hc, layer_append h, hk]
    · simp [layerPackages, depth_append h, hc, hk]
  have hlayer : depth types = c → layer types (c + 1) = [] := by
    intro hdepth
    refine List.filter_eq_nil_iff.mpr fun u hu => ?_
    have := rank_le_depth hu
    simp only [decide_eq_true_iff]
    omega
  rw [hright, List.getElem?_modify]
  by_cases hkc : k = c
  · subst hkc
    by_cases hdepth : depth types = k
    · have hnone : (layerPackages package types ++ [⟨package.name, package.id, []⟩])[k]?
          = some ⟨package.name, package.id, []⟩ := by
        rw [List.getElem?_append_right (by omega), hlength, hdepth, Nat.sub_self]
        rfl
      have hnil := hinsert (k + 1)
      rw [hlayer hdepth] at hnil
      simp [hdepth, hnone, hnil, hlayer hdepth]
    · have hlt : k < depth types := by omega
      simp [hdepth, hat, hlt, hinsert]
  · by_cases hdepth : depth types = c
    · by_cases hk : k < c
      · have hk' : k < (layerPackages package types).length := by omega
        have hlt : k < c + 1 := by omega
        rw [if_pos hdepth, List.getElem?_append_left hk', hat]
        simp [hdepth, hk, hkc, hlt, Ne.symm hkc]
      · have hk' : ¬ k < c + 1 := by omega
        rw [if_pos hdepth, List.getElem?_append_right (by omega), hlength]
        simp [hdepth, hk']
        omega
    · have hiff : k < max (depth types) (c + 1) ↔ k < depth types := by omega
      simp [hdepth, hat, hiff, hkc, Ne.symm hkc]

/-- The loop over the types of a package, after some of them. -/
theorem foldl_partitionType (newPackages : List (ResourceTablePackageView ι))
    (package : ResourceTablePackageView ι)
    (h : StrictlySortedBy compareIdType ResourceTableTypeView.key types) :
    ∃ index : Dict ResourceNamedType ℕ,
      types.foldl (partitionType newPackages.length package) ⟨newPackages, [], ∅⟩
        = ⟨newPackages ++ layerPackages package types, layer types 0, index⟩
      ∧ ∀ t, index.lookup t = if occurrences types t = 0 then none
        else some (newPackages.length + (occurrences types t - 1)) := by
  induction types using List.reverseRecOn with
  | nil => exact ⟨∅, by simp [layerPackages, depth, layer], fun t => by simp [occurrences]⟩
  | append_singleton types type ih =>
      obtain ⟨index, hstate, hindex⟩ := ih (List.pairwise_append.mp h).1
      have hle := occurrences_le_depth (List.pairwise_append.mp h).1 type.namedType
      have hcount : ∀ t, occurrences (types ++ [type]) t
          = occurrences types t + if type.namedType = t then 1 else 0 := fun t => by
        simp [occurrences, List.countP_append, List.countP_cons]
      rw [List.foldl_append, hstate, List.foldl_cons, List.foldl_nil, partitionType]
      dsimp only
      rw [hindex]
      by_cases hzero : occurrences types type.namedType = 0
      · -- the first occurrence is kept
        rw [if_pos hzero]
        refine ⟨index.insert type.namedType newPackages.length, ?_, ?_⟩
        · have hlayers : layerPackages package (types ++ [type]) = layerPackages package types := by
            simp [layerPackages, depth_append h, layer_append h, hzero]
          rw [hlayers, layer_append h, hzero, if_pos rfl]
        · intro t
          rw [Dict.lookup_insert, hcount, hindex]
          by_cases ht : type.namedType = t
          · subst ht
            simp [hzero]
          · simp [ht, Ne.symm ht]
      · -- the others are moved to the new package of their rank
        obtain ⟨c, hc⟩ : ∃ c, occurrences types type.namedType = c + 1 :=
          ⟨_, (Nat.succ_pred_eq_of_ne_zero hzero).symm⟩
        rw [hc] at hle
        rw [hc, if_neg (Nat.succ_ne_zero c), Nat.add_sub_cancel]
        refine ⟨index.insert type.namedType (newPackages.length + c + 1), ?_, ?_⟩
        · have hnew := layerPackages_append newPackages package h hc hle
          rw [layer_append h, hc, if_neg (Nat.succ_ne_zero c).symm, List.append_nil, ← hnew]
        · intro t
          rw [Dict.lookup_insert, hcount, hindex]
          by_cases ht : type.namedType = t
          · subst ht
            simp [hc]
            omega
          · simp [ht, Ne.symm ht]

/-- **The types of a package are moved by rank.** -/
theorem partitionPackage_eq (newPackages : List (ResourceTablePackageView ι))
    {package : ResourceTablePackageView ι} (h : package.Wf) :
    partitionPackage newPackages package
      = (newPackages ++ layerPackages package package.types,
        { package with types := layer package.types 0 }) := by
  obtain ⟨index, hstate, -⟩ := foldl_partitionType newPackages package h.types
  rw [partitionPackage, hstate]

/-- New packages for the same original are inserted right after it, each before those inserted
earlier. -/
theorem foldl_insertNewPackage {pre post new : List (ResourceTablePackageView ι)}
    {package : ResourceTablePackageView ι}
    (hpre : ∀ p ∈ pre, compareIdName p.key package.key = .lt)
    (hpost : ∀ p ∈ post, compareIdName p.key package.key ≠ .lt)
    (hnew : ∀ p ∈ new, p.key = package.key) :
    new.foldl insertNewPackage (pre ++ package :: post)
      = pre ++ package :: (new.reverse ++ post) := by
  induction new generalizing post with
  | nil => rfl
  | cons n new ih =>
      have hkey := hnew n List.mem_cons_self
      have hself : compareIdName package.key package.key = .eq := Std.ReflCmp.compare_self
      have hbound : lowerBound (fun p => compareIdName p.key n.key == .lt) (pre ++ package :: post)
          = pre.length := by
        refine lowerBound_append (fun p hp => ?_) fun p hp => ?_
        · simp [hkey, hpre p hp]
        · rcases List.mem_cons.mp hp with rfl | hp
          · simp [hkey, hself]
          · simp [hkey, hpost p hp]
      have hstep : insertNewPackage (pre ++ package :: post) n = pre ++ package :: n :: post := by
        rw [insertNewPackage, hbound]
        have hinsert := insertIdx_append_length (pre ++ [package]) post n
        simpa using hinsert
      rw [List.foldl_cons, hstep, ih]
      · simp
      · intro p hp
        rcases List.mem_cons.mp hp with rfl | hp
        · rw [hkey, hself]
          exact fun h => by cases h
        · exact hpost p hp
      · exact fun p hp => hnew p (List.mem_cons_of_mem _ hp)

/-- The packages that a package of the first view becomes: the first layer, then the others from the
last to the second. -/
def layeredPackages (package : ResourceTablePackageView ι) : List (ResourceTablePackageView ι) :=
  { package with types := layer package.types 0 }
    :: (layerPackages package package.types).reverse

/-- All these packages have the key of the original. -/
theorem key_of_mem_layeredPackages {package p : ResourceTablePackageView ι}
    (hp : p ∈ layeredPackages package) : p.key = package.key := by
  rcases List.mem_cons.mp hp with rfl | hp
  · rfl
  · obtain ⟨k, -, rfl⟩ := List.mem_map.mp (List.mem_reverse.mp hp)
    rfl

/-- The loop over the new packages of some packages. -/
theorem foldl_insertNewPackage_flatMap (done : List (ResourceTablePackageView ι))
    {packages : List (ResourceTablePackageView ι)}
    (h : StrictlySortedBy compareIdName ResourceTablePackageView.key packages)
    (hdone : ∀ p ∈ done, ∀ q ∈ packages, compareIdName p.key q.key = .lt) :
    (packages.flatMap fun p => layerPackages p p.types).foldl insertNewPackage
        (done ++ packages.map fun p => { p with types := layer p.types 0 })
      = done ++ packages.flatMap layeredPackages := by
  induction packages generalizing done with
  | nil => rfl
  | cons package packages ih =>
      obtain ⟨hpackage, hrest⟩ := List.pairwise_cons.mp h
      rw [List.flatMap_cons, List.foldl_append, List.map_cons, foldl_insertNewPackage]
      · have hdone' : ∀ p ∈ done ++ layeredPackages package, ∀ q ∈ packages,
            compareIdName p.key q.key = .lt := by
          intro p hp q hq
          rcases List.mem_append.mp hp with hp | hp
          · exact hdone p hp q (List.mem_cons_of_mem _ hq)
          · rw [key_of_mem_layeredPackages hp]
            exact hpackage q hq
        have hrec := ih (done ++ layeredPackages package) hrest hdone'
        simpa [layeredPackages] using hrec
      · exact fun p hp => hdone p hp package List.mem_cons_self
      · intro p hp
        obtain ⟨q, hq, rfl⟩ := List.mem_map.mp hp
        intro hlt
        have hgt := Std.OrientedCmp.gt_of_lt (hpackage q hq)
        have hlt : compareIdName q.key package.key = .lt := hlt
        rw [hgt] at hlt
        cases hlt
      · intro p hp
        have hmem : p ∈ layeredPackages package :=
          List.mem_cons_of_mem _ (List.mem_reverse.mpr hp)
        exact (key_of_mem_layeredPackages hmem).trans rfl

/-- **The packages of the view**, if the first loop has made a well-formed view. -/
theorem getPartitionedView_eq {createAliasEntries : Bool} {table : ResourceTable ι}
    (h : (table.namedEntries.foldl (insertWithAlias createAliasEntries) ⟨[]⟩).Wf) :
    (table.getPartitionedView createAliasEntries).packages
      = (table.namedEntries.foldl (insertWithAlias createAliasEntries)
        ⟨[]⟩).packages.flatMap layeredPackages := by
  rw [ResourceTable.getPartitionedView,
    mapAccum_append (g := fun p => layerPackages p p.types) fun s p hp =>
      partitionPackage_eq s (h.package p hp)]
  have hloop := foldl_insertNewPackage_flatMap [] h.packages fun p hp => by cases hp
  simpa using hloop

end Layers

/-! ## What the view of a table holds -/

section Placed

/-- The view of an entry under one of its identifiers. -/
def ResourceEntry.view (entry : ResourceEntry ι) (id : ResourceId) (stagedId : Option StagedId) :
    ResourceTableEntryView ι :=
  ⟨entry.name, some id.entryId, entry.visibility, entry.allowNew, entry.overlayableItem, stagedId,
    entry.values, entry.flagDisabledValues⟩

/-- The identifiers of an entry: its own, and the staged one. -/
def ResourceEntry.ids (entry : ResourceEntry ι) : List ResourceId :=
  entry.id.toList ++ entry.stagedId.toList.map StagedId.id

/-- Where an entry is in the view: under its identifier, and without the staged identifier under
that. -/
def placedOf (e : ResourceName × ResourceEntry ι) : List (Placed ι) :=
  e.2.id.toList.map (fun r => ⟨e.1.package, e.1.type, some r, e.2.view r e.2.stagedId⟩)
    ++ e.2.stagedId.toList.map fun s => ⟨e.1.package, e.1.type, some s.id, e.2.view s.id none⟩

/-- **What one turn of the first loop does to any view.** -/
theorem mem_placed_insertWithAlias {view : ResourceTableView ι} (h : view.Wf)
    {e : ResourceName × ResourceEntry ι} (hid : e.2.id.isSome) :
    (insertWithAlias true view e).Wf
      ∧ (∀ y ∈ (insertWithAlias true view e).placed, y ∈ view.placed ∨ y ∈ placedOf e)
      ∧ (∀ y ∈ view.placed, y ∈ (insertWithAlias true view e).placed)
      ∧ ∀ r ∈ e.2.ids, ∃ y ∈ (insertWithAlias true view e).placed,
        y.package = e.1.package ∧ y.type = e.1.type ∧ y.id = some r := by
  obtain ⟨r, hr⟩ := Option.isSome_iff_exists.mp hid
  -- the view after the insertion under the own identifier
  let view' := insertEntryIntoTableView e.1.package e.1.type e.2.name (some r) e.2.visibility
    e.2.allowNew e.2.overlayableItem e.2.stagedId e.2.values e.2.flagDisabledValues view
  have hwf : view'.Wf := wf_insertEntryIntoTableView h
  obtain ⟨hnew, hkeep, hown⟩ : (∀ y ∈ view'.placed, y ∈ view.placed
        ∨ y = ⟨e.1.package, e.1.type, some r, e.2.view r e.2.stagedId⟩)
      ∧ (∀ y ∈ view.placed, y ∈ view'.placed)
      ∧ ∃ y ∈ view'.placed, y.package = e.1.package ∧ y.type = e.1.type ∧ y.id = some r :=
    mem_placed_insertEntryIntoTableView h
  cases hstaged : e.2.stagedId with
  | none =>
      have hview : insertWithAlias true view e = view' := by
        simp only [insertWithAlias, hr, hstaged, view']
      rw [hview]
      refine ⟨hwf, fun y hy => (hnew y hy).imp_right fun heq => ?_, hkeep, fun r' hr' => ?_⟩
      · rw [heq]
        simp [placedOf, hr, hstaged]
      · obtain rfl : r' = r := by simpa [ResourceEntry.ids, hr, hstaged] using hr'
        exact hown
  | some s =>
      let view'' := insertEntryIntoTableView e.1.package e.1.type e.2.name (some s.id) e.2.visibility
        e.2.allowNew e.2.overlayableItem none e.2.values e.2.flagDisabledValues view'
      have hview : insertWithAlias true view e = view'' := by
        simp only [insertWithAlias, hr, hstaged, view', view'', if_true]
      obtain ⟨hnew', hkeep', halias⟩ : (∀ y ∈ view''.placed, y ∈ view'.placed
            ∨ y = ⟨e.1.package, e.1.type, some s.id, e.2.view s.id none⟩)
          ∧ (∀ y ∈ view'.placed, y ∈ view''.placed)
          ∧ ∃ y ∈ view''.placed, y.package = e.1.package ∧ y.type = e.1.type ∧ y.id = some s.id :=
        mem_placed_insertEntryIntoTableView hwf
      rw [hview]
      refine ⟨wf_insertEntryIntoTableView hwf, fun y hy => ?_, fun y hy => hkeep' y (hkeep y hy),
        fun r' hr' => ?_⟩
      · rcases hnew' y hy with hy | rfl
        · refine (hnew y hy).imp_right fun heq => ?_
          rw [heq]
          simp [placedOf, hr, hstaged]
        · refine .inr ?_
          simp [placedOf, hr, hstaged]
      · have hcases : r' = r ∨ r' = s.id := by simpa [ResourceEntry.ids, hr, hstaged] using hr'
        rcases hcases with rfl | rfl
        · obtain ⟨y, hy, hkey⟩ := hown
          exact ⟨y, hkeep' y hy, hkey⟩
        · exact halias

/-- **What the first loop makes of any table whose entries have identifiers**: a well-formed view
with nothing but those entries, and with an entry under each identifier. -/
theorem mem_placed_foldl_insertWithAlias {named : List (ResourceName × ResourceEntry ι)}
    (hid : ∀ e ∈ named, e.2.id.isSome) :
    (named.foldl (insertWithAlias true) ⟨[]⟩).Wf
      ∧ (∀ y ∈ (named.foldl (insertWithAlias true) ⟨[]⟩).placed, ∃ e ∈ named, y ∈ placedOf e)
      ∧ ∀ e ∈ named, ∀ r ∈ e.2.ids, ∃ y ∈ (named.foldl (insertWithAlias true) ⟨[]⟩).placed,
        y.package = e.1.package ∧ y.type = e.1.type ∧ y.id = some r := by
  induction named using List.reverseRecOn with
  | nil =>
      exact ⟨⟨List.Pairwise.nil, fun p hp => by cases hp⟩, (fun y hy => by cases hy),
        fun e he => by cases he⟩
  | append_singleton named e ih =>
      obtain ⟨hwf, hfrom, hall⟩ := ih fun d hd => hid d (List.mem_append_left _ hd)
      obtain ⟨hwf', hnew, hkeep, hown⟩ := mem_placed_insertWithAlias hwf
        (hid e (List.mem_append_right _ List.mem_cons_self))
      rw [List.foldl_append]
      refine ⟨hwf', fun y hy => ?_, fun d hd r hr => ?_⟩
      · rcases hnew y hy with hy | hy
        · obtain ⟨d, hd, hyd⟩ := hfrom y hy
          exact ⟨d, List.mem_append_left _ hd, hyd⟩
        · exact ⟨e, List.mem_append_right _ List.mem_cons_self, hy⟩
      · rcases List.mem_append.mp hd with hd | hd
        · obtain ⟨y, hy, hkey⟩ := hall d hd r hr
          exact ⟨y, hkeep y hy, hkey⟩
        · obtain rfl := List.mem_singleton.mp hd
          exact hown r hr

end Placed

/-! ## The order of the packages -/

section Order

variable {types : List (ResourceTableTypeView ι)}

/-- Filtering by the values of a function keeps everything. -/
theorem flatMap_filter_perm {α : Type} (f : α → ℕ) (l : List α) (d : ℕ) :
    ((List.range (d + 1)).flatMap fun k => l.filter fun a => f a = k).Perm
      (l.filter fun a => f a ≤ d) := by
  induction d with
  | zero => simp
  | succ d ih =>
      rw [List.range_succ, List.flatMap_append, List.flatMap_cons, List.flatMap_nil,
        List.append_nil]
      have hsplit := List.filter_append_perm (fun a => decide (f a ≤ d))
        (l.filter fun a => f a ≤ d + 1)
      refine (ih.append_right _).trans (.trans (.of_eq ?_) hsplit)
      rw [List.filter_filter, List.filter_filter]
      congr 1
      · refine List.filter_congr fun a _ => ?_
        rw [← Bool.decide_and, decide_eq_decide]
        omega
      · refine List.filter_congr fun a _ => ?_
        rw [← decide_not, ← Bool.decide_and, decide_eq_decide]
        omega

/-- The layers together are all types. -/
theorem layers_perm (types : List (ResourceTableTypeView ι)) :
    (layer types 0 ++ (List.range (depth types)).flatMap fun k => layer types (k + 1)).Perm types := by
  have hperm := flatMap_filter_perm (rank types) types (depth types)
  have hall : (types.filter fun u => rank types u ≤ depth types) = types :=
    List.filter_eq_self.mpr fun u hu => by simpa using rank_le_depth hu
  rw [hall, List.range_succ_eq_map, List.flatMap_cons, List.flatMap_map] at hperm
  exact hperm

/-- **Moving the types keeps the entries**, and where they are found. -/
theorem flatMap_layeredPackages {β : Type}
    (g : Bytes → Option (BitVec 8) → ResourceTableTypeView ι → List β)
    (package : ResourceTablePackageView ι) :
    ((layeredPackages package).flatMap fun p => p.types.flatMap (g p.name p.id)).Perm
      (package.types.flatMap (g package.name package.id)) := by
  have hlayers : ((layerPackages package package.types).reverse.flatMap
      fun p => p.types.flatMap (g p.name p.id)).Perm
        (((List.range (depth package.types)).flatMap fun k => layer package.types (k + 1)).flatMap
          (g package.name package.id)) := by
    refine ((List.reverse_perm _).flatMap_right _).trans (.of_eq ?_)
    rw [layerPackages, List.flatMap_map, List.flatMap_assoc]
  rw [layeredPackages, List.flatMap_cons]
  refine (hlayers.append_left _).trans ?_
  have hperm := (layers_perm package.types).flatMap_right (g package.name package.id)
  rw [List.flatMap_append] at hperm
  exact hperm

/-- Moving the types keeps the entries. -/
theorem placed_layeredPackages (package : ResourceTablePackageView ι) :
    ((layeredPackages package).flatMap ResourceTablePackageView.placed).Perm package.placed :=
  flatMap_layeredPackages (fun name id type => type.placed name id) package

/-- A greater identifier for the same named type has a greater rank. -/
theorem rank_lt {u v : ResourceTableTypeView ι} (hu : u ∈ types)
    (htype : u.namedType = v.namedType) (hid : idKey u.id < idKey v.id) :
    rank types u < rank types v := by
  obtain ⟨pre, post, rfl⟩ := List.append_of_mem hu
  have hmono : ∀ l : List (ResourceTableTypeView ι),
      (l.countP fun w => w.namedType = u.namedType ∧ idKey w.id < idKey u.id)
        ≤ l.countP fun w => w.namedType = v.namedType ∧ idKey w.id < idKey v.id := by
    intro l
    refine List.countP_mono_left fun w _ hw => ?_
    simp only [decide_eq_true_iff] at hw ⊢
    exact ⟨hw.1.trans htype, hw.2.trans hid⟩
  have hpre := hmono pre
  have hpost := hmono post
  simp only [rank, List.countP_append, List.countP_cons, htype, hid, lt_irrefl, and_false,
    decide_false, and_self, decide_true, if_true, Bool.false_eq_true, if_false] at hpre hpost ⊢
  omega

/-- The packages that a well-formed package becomes are well formed, and hold a named type only
once. -/
theorem wf_of_mem_layeredPackages {package : ResourceTablePackageView ι} (h : package.Wf)
    {p : ResourceTablePackageView ι} (hp : p ∈ layeredPackages package) :
    p.Wf ∧ p.types.Pairwise fun u v => u.namedType ≠ v.namedType := by
  obtain ⟨k, hk⟩ : ∃ k, p.types = layer package.types k := by
    rcases List.mem_cons.mp hp with rfl | hp
    · exact ⟨0, rfl⟩
    · obtain ⟨k, -, rfl⟩ := List.mem_map.mp (List.mem_reverse.mp hp)
      exact ⟨k + 1, rfl⟩
  have hsub : ∀ u ∈ p.types, u ∈ package.types := by
    rw [hk]
    exact fun u hu => (List.mem_filter.mp hu).1
  have hsorted : StrictlySortedBy compareIdType ResourceTableTypeView.key p.types := by
    rw [hk]
    exact h.types.sublist List.filter_sublist
  refine ⟨⟨hsorted, fun u hu => h.entries u (hsub u hu), fun u hu => h.nonempty u (hsub u hu)⟩, ?_⟩
  refine hsorted.imp_of_mem fun {u v} hu hv hlt htype => ?_
  have hid := (id_of_compareIdType_lt hlt).2 htype
  have hrank := rank_lt (hsub u hu) htype hid
  rw [hk] at hu hv
  have hu' := (List.mem_filter.mp hu).2
  have hv' := (List.mem_filter.mp hv).2
  simp only [decide_eq_true_iff] at hu' hv'
  omega

/-- **The partitioned view of a table whose entries have identifiers**: its packages are well formed,
and it holds nothing but those entries, and one under each identifier. -/
theorem mem_placed_getPartitionedView {table : ResourceTable ι}
    (hid : ∀ e ∈ table.namedEntries, e.2.id.isSome) :
    (∀ p ∈ (table.getPartitionedView true).packages, p.Wf)
      ∧ (∀ y ∈ (table.getPartitionedView true).placed, ∃ e ∈ table.namedEntries, y ∈ placedOf e)
      ∧ ∀ e ∈ table.namedEntries, ∀ r ∈ e.2.ids, ∃ y ∈ (table.getPartitionedView true).placed,
        y.package = e.1.package ∧ y.type = e.1.type ∧ y.id = some r := by
  obtain ⟨hwf, hfrom, hall⟩ := mem_placed_foldl_insertWithAlias hid
  have hmem : ∀ y, y ∈ (table.getPartitionedView true).placed
      ↔ y ∈ (table.namedEntries.foldl (insertWithAlias true) ⟨[]⟩).placed := fun y => by
    rw [ResourceTableView.placed, getPartitionedView_eq hwf, List.flatMap_assoc, List.mem_flatMap,
      ResourceTableView.placed, List.mem_flatMap]
    exact exists_congr fun p => and_congr_right fun _ => (placed_layeredPackages p).mem_iff
  refine ⟨fun p hp => ?_, fun y hy => hfrom y ((hmem y).mp hy), fun e he r hr => ?_⟩
  · rw [getPartitionedView_eq hwf] at hp
    obtain ⟨q, hq, hp⟩ := List.mem_flatMap.mp hp
    exact (wf_of_mem_layeredPackages (hwf.package q hq) hp).1
  · obtain ⟨y, hy, hkey⟩ := hall e he r hr
    exact ⟨y, (hmem y).mpr hy, hkey⟩

/-- A package is created with an identifier if its first entry has one. -/
theorem id_isSome_insertEntryIntoTableView {view : ResourceTableView ι} (h : view.Wf)
    (hall : ∀ p ∈ view.packages, p.id.isSome) (package : Bytes) (type : ResourceNamedType)
    (name : Bytes) (r : ResourceId) (visibility : Visibility) (allowNew : Option AllowNew)
    (overlayableItem : Option OverlayableItem) (stagedId : Option StagedId)
    (values flagDisabledValues : List (ResourceConfigValue ι)) :
    ∀ p ∈ (insertEntryIntoTableView package type name (some r) visibility allowNew overlayableItem
      stagedId values flagDisabledValues view).packages, p.id.isSome := by
  intro p hp
  rcases mem_updateFoundOrCreated h.packages hp with hp | ⟨q, ⟨hq, -⟩ | rfl, rfl⟩
  · exact hall p hp
  · exact hall q hq
  · rfl

/-- The packages that the first loop creates have identifiers. -/
theorem id_isSome_foldl_insertWithAlias {named : List (ResourceName × ResourceEntry ι)}
    (hid : ∀ e ∈ named, e.2.id.isSome) :
    ∀ p ∈ (named.foldl (insertWithAlias true) ⟨[]⟩).packages, p.id.isSome := by
  induction named using List.reverseRecOn with
  | nil => exact fun p hp => by cases hp
  | append_singleton named e ih =>
      have hbefore : ∀ d ∈ named, d.2.id.isSome := fun d hd => hid d (List.mem_append_left _ hd)
      have hview := (mem_placed_foldl_insertWithAlias hbefore).1
      obtain ⟨r, hr⟩ := Option.isSome_iff_exists.mp
        (hid e (List.mem_append_right _ List.mem_cons_self))
      have hown := id_isSome_insertEntryIntoTableView hview (ih hbefore) e.1.package e.1.type
        e.2.name r e.2.visibility e.2.allowNew e.2.overlayableItem e.2.stagedId e.2.values
        e.2.flagDisabledValues
      rw [List.foldl_append, List.foldl_cons, List.foldl_nil]
      cases hstaged : e.2.stagedId with
      | none => simpa only [insertWithAlias, hr, hstaged] using hown
      | some s =>
          have halias := id_isSome_insertEntryIntoTableView (wf_insertEntryIntoTableView hview) hown
            e.1.package e.1.type e.2.name s.id e.2.visibility e.2.allowNew e.2.overlayableItem none
            e.2.values e.2.flagDisabledValues
          simpa only [insertWithAlias, hr, hstaged, if_true] using halias

/-- The packages of the partitioned view have identifiers. -/
theorem id_isSome_of_mem_getPartitionedView {table : ResourceTable ι}
    (hid : ∀ e ∈ table.namedEntries, e.2.id.isSome) :
    ∀ p ∈ (table.getPartitionedView true).packages, p.id.isSome := by
  intro p hp
  rw [getPartitionedView_eq (mem_placed_foldl_insertWithAlias hid).1] at hp
  obtain ⟨q, hq, hp⟩ := List.mem_flatMap.mp hp
  have heq : p.id = q.id := by
    rcases List.mem_cons.mp hp with rfl | hp
    · rfl
    · obtain ⟨k, -, rfl⟩ := List.mem_map.mp (List.mem_reverse.mp hp)
      rfl
  rw [heq]
  exact id_isSome_foldl_insertWithAlias hid q hq

end Order

end AndroidSdk.Aapt2
