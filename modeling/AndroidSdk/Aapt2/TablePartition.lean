import AndroidSdk.Lib.FirstCome
import AndroidSdk.Aapt2.TableView
import Mathlib.Data.List.Perm.Basic

/-! # The view is a partition

What `GetPartitionedView` (`ResourceTable.cpp`) makes of any table. `SortedVectorInserter::Insert`
keeps an entry that is there, so of several entries for one place only the first is in the view. An
alias has a place, too: it can keep an entry out, or be kept out by one.

* **`Located`** — an entry of a view, with all that it is found by.
* **`ResourceTable.toLocate`** — the entries of a table and their aliases, where they belong.
* **`PartitionOf`** — what a view holds, and how it is sorted.
* **`partitionOf_getPartitionedView`** — that of every table is a partition, where the first to come
  takes each place. -/

namespace AndroidSdk.Aapt2

open Lib SplitSelect

variable {ι : Type}

/-! ## Where entries are -/

/-- An entry of a view, with the package view and the type view that it is in. -/
structure Located (ι : Type) where
  package : Bytes
  packageId : Option (BitVec 8)
  type : ResourceNamedType
  typeId : Option (BitVec 8)
  entry : ResourceTableEntryView ι
  deriving DecidableEq

/-- What an entry of a view is found by. -/
def Located.place (y : Located ι) :
    (Bytes × Option (BitVec 8)) × (ResourceNamedType × Option (BitVec 8))
      × (Bytes × Option (BitVec 16)) :=
  ((y.package, y.packageId), (y.type, y.typeId), (y.entry.name, y.entry.id))

/-- The entries of a type view. -/
def ResourceTableTypeView.located (package : Bytes) (packageId : Option (BitVec 8))
    (type : ResourceTableTypeView ι) : List (Located ι) :=
  type.entries.map fun entry => ⟨package, packageId, type.namedType, type.id, entry⟩

/-- The entries of a package view. -/
def ResourceTablePackageView.located (package : ResourceTablePackageView ι) : List (Located ι) :=
  package.types.flatMap (·.located package.name package.id)

/-- The entries of a view. -/
def ResourceTableView.located (view : ResourceTableView ι) : List (Located ι) :=
  view.packages.flatMap ResourceTablePackageView.located

/-- Where an entry of a table belongs under an identifier. -/
def ResourceEntry.locate (entry : ResourceEntry ι) (name : ResourceName) (id : Option ResourceId)
    (stagedId : Option StagedId) : Located ι :=
  ⟨name.package, id.map ResourceId.packageId, name.type, id.map ResourceId.typeId,
    ⟨entry.name, id.map ResourceId.entryId, entry.visibility, entry.allowNew, entry.overlayableItem,
      stagedId, entry.values, entry.flagDisabledValues⟩⟩

/-- An entry, and its alias under the staged identifier. -/
def toLocate (createAliasEntries : Bool) (e : ResourceName × ResourceEntry ι) : List (Located ι) :=
  e.2.locate e.1 e.2.id e.2.stagedId
    :: if createAliasEntries then
        e.2.stagedId.toList.map fun stagedId => e.2.locate e.1 (some stagedId.id) none
      else []

/-- The entries of a table, each with its alias, in the order of the table. -/
def ResourceTable.toLocate (createAliasEntries : Bool) (table : ResourceTable ι) :
    List (Located ι) :=
  table.namedEntries.flatMap (Aapt2.toLocate createAliasEntries)

/-- **A view is a partition of some entries**: at each place it has the first of them, no package
view holds a named type twice, and package views, type views and entry views are sorted. -/
structure PartitionOf (entries : List (Located ι)) (view : ResourceTableView ι) : Prop where
  located : FirstCome Located.place entries view.located
  namedTypes : ∀ package ∈ view.packages,
    package.types.Pairwise fun u v => u.namedType ≠ v.namedType
  packages : SortedBy compareIdName ResourceTablePackageView.key view.packages
  types : ∀ package ∈ view.packages,
    StrictlySortedBy compareIdType ResourceTableTypeView.key package.types
  entries : ∀ package ∈ view.packages, ∀ type ∈ package.types,
    StrictlySortedBy compareIdName ResourceTableEntryView.key type.entries

/-! ## The first loop -/

/-- Keys are equal if their parts are. -/
theorem compareIdName_idKey_iff {w : ℕ} {a b : Option (BitVec w)} {m n : Bytes} :
    compareIdName (idKey a, m) (idKey b, n) = .eq ↔ (m, a) = (n, b) := by
  rw [compareIdName_eq_iff, Prod.mk.injEq, Prod.mk.injEq, and_comm]
  exact and_congr_right fun _ => ⟨idKey_injective, congrArg idKey⟩

/-- Keys are equal if their parts are. -/
theorem compareIdType_idKey_iff {w : ℕ} {a b : Option (BitVec w)} {s t : ResourceNamedType} :
    compareIdType (idKey a, s) (idKey b, t) = .eq ↔ (s, a) = (t, b) := by
  rw [compareIdType_eq_iff, Prod.mk.injEq, Prod.mk.injEq, and_comm]
  exact and_congr_right fun _ => ⟨idKey_injective, congrArg idKey⟩

section Insert

variable (package : Bytes) (packageId : Option (BitVec 8)) (entry : ResourceTableEntryView ι)

/-- An insertion into a type view. -/
theorem ResourceTableTypeView.addsIfFree_insertEntry {t : ResourceTableTypeView ι}
    (h : StrictlySortedBy compareIdName ResourceTableEntryView.key t.entries) :
    AddsIfFree Located.place ⟨package, packageId, t.namedType, t.id, entry⟩
      (t.located package packageId) ((t.insertEntry entry).located package packageId) := by
  have hadds : AddsIfFree ResourceTableEntryView.key entry t.entries
      (t.insertEntry entry).entries :=
    addsIfFree_updateFoundOrCreated h fun e _ => compareIdName_eq_iff _ _
  let f : ResourceTableEntryView ι → Located ι := fun e =>
    ⟨package, packageId, t.namedType, t.id, e⟩
  refine hadds.map (f := f) fun e _ => ?_
  rw [← compareIdName_eq_iff, ResourceTableEntryView.key, ResourceTableEntryView.key,
    compareIdName_idKey_iff]
  constructor
  · intro hplace
    exact congrArg (fun place => place.2.2) hplace
  · intro hkey
    exact congrArg (fun key => ((package, packageId), (t.namedType, t.id), key)) hkey

/-- The place of an entry of a package view. -/
theorem ResourceTablePackageView.place_of_mem_located {p : ResourceTablePackageView ι}
    {y : Located ι} (h : y ∈ p.located) : y.place.1 = (p.name, p.id) := by
  obtain ⟨t, -, ht⟩ := List.mem_flatMap.mp h
  obtain ⟨e, -, rfl⟩ := List.mem_map.mp ht
  rfl

/-- An insertion into a package view. -/
theorem ResourceTablePackageView.addsIfFree_insertEntry {p : ResourceTablePackageView ι} (h : p.Wf)
    (type : ResourceNamedType) (id : Option ResourceId) :
    AddsIfFree Located.place ⟨p.name, p.id, type, id.map ResourceId.typeId, entry⟩
      p.located (p.insertEntry type id entry).located := by
  refine AddsIfFree.flatMap h.types rfl ?_ ?_
  · intro t _ y hy hplace
    obtain ⟨e, -, rfl⟩ := List.mem_map.mp hy
    exact compareIdType_idKey_iff.mpr (congrArg (fun place => place.2.1) hplace)
  · intro t ht
    obtain ⟨htype, hid, hsorted⟩ : t.namedType = type ∧ t.id = id.map ResourceId.typeId
        ∧ StrictlySortedBy compareIdName ResourceTableEntryView.key t.entries := by
      rcases ht with ⟨ht, hkey⟩ | rfl
      · obtain ⟨htype, hid⟩ := Prod.mk.inj (compareIdType_idKey_iff.mp hkey)
        exact ⟨htype, hid, h.entries t ht⟩
      · exact ⟨rfl, rfl, List.Pairwise.nil⟩
    rw [← htype, ← hid]
    exact ResourceTableTypeView.addsIfFree_insertEntry p.name p.id entry hsorted

end Insert

/-- **An insertion into a view**: the entry is added unless its place is taken. -/
theorem addsIfFree_insertEntryIntoTableView {view : ResourceTableView ι} (h : view.Wf)
    (entry : ResourceEntry ι) (name : ResourceName) (id : Option ResourceId)
    (stagedId : Option StagedId) :
    AddsIfFree Located.place (entry.locate name id stagedId) view.located
      (insertEntryIntoTableView name.package name.type entry.name id entry.visibility entry.allowNew
        entry.overlayableItem stagedId entry.values entry.flagDisabledValues view).located := by
  refine AddsIfFree.flatMap h.packages rfl ?_ ?_
  · intro p _ y hy hplace
    rw [ResourceTablePackageView.key, compareIdName_idKey_iff,
      ← ResourceTablePackageView.place_of_mem_located hy, hplace]
    rfl
  · intro p hp
    obtain ⟨hname, hid, hwf⟩ : p.name = name.package ∧ p.id = id.map ResourceId.packageId
        ∧ p.Wf := by
      rcases hp with ⟨hp, hkey⟩ | rfl
      · obtain ⟨hname, hid⟩ := Prod.mk.inj (compareIdName_idKey_iff.mp hkey)
        exact ⟨hname, hid, h.package p hp⟩
      · exact ⟨rfl, rfl, .nil _ _⟩
    rw [ResourceEntry.locate, ← hname, ← hid]
    exact ResourceTablePackageView.addsIfFree_insertEntry _ hwf name.type id

/-- One turn of the first loop. -/
theorem firstCome_insertWithAlias {view : ResourceTableView ι} (h : view.Wf)
    {came : List (Located ι)} (hcame : FirstCome Located.place came view.located)
    (createAliasEntries : Bool) (e : ResourceName × ResourceEntry ι) :
    (insertWithAlias createAliasEntries view e).Wf
      ∧ FirstCome Located.place (came ++ toLocate createAliasEntries e)
        (insertWithAlias createAliasEntries view e).located := by
  -- the view with the entry under its own identifier
  have hown := addsIfFree_insertEntryIntoTableView h e.2 e.1 e.2.id e.2.stagedId
  have hwf : (insertEntryIntoTableView e.1.package e.1.type e.2.name e.2.id e.2.visibility
      e.2.allowNew e.2.overlayableItem e.2.stagedId e.2.values e.2.flagDisabledValues view).Wf :=
    wf_insertEntryIntoTableView h
  cases hstaged : e.2.stagedId with
  | none =>
      rw [hstaged] at hown hwf
      have hnone : toLocate createAliasEntries e = [e.2.locate e.1 e.2.id none] := by
        simp [toLocate, hstaged]
      simp only [insertWithAlias, hstaged]
      rw [hnone]
      exact ⟨hwf, hcame.add hown⟩
  | some s =>
      rw [hstaged] at hown hwf
      cases createAliasEntries with
      | false =>
          have hnone : toLocate false e = [e.2.locate e.1 e.2.id (some s)] := by
            simp [toLocate, hstaged]
          simp only [insertWithAlias, hstaged, Bool.false_eq_true, if_false]
          rw [hnone]
          exact ⟨hwf, hcame.add hown⟩
      | true =>
          have hboth : came ++ toLocate true e
              = came ++ [e.2.locate e.1 e.2.id (some s)] ++ [e.2.locate e.1 (some s.id) none] := by
            simp [toLocate, hstaged]
          simp only [insertWithAlias, hstaged, if_true]
          rw [hboth]
          exact ⟨wf_insertEntryIntoTableView hwf,
            (hcame.add hown).add (addsIfFree_insertEntryIntoTableView hwf e.2 e.1 _ none)⟩

/-- **The first loop**: a well-formed view with the first entry for each place. -/
theorem firstCome_foldl_insertWithAlias (createAliasEntries : Bool)
    (named : List (ResourceName × ResourceEntry ι)) :
    (named.foldl (insertWithAlias createAliasEntries) ⟨[]⟩).Wf
      ∧ FirstCome Located.place (named.flatMap (toLocate createAliasEntries))
        (named.foldl (insertWithAlias createAliasEntries) ⟨[]⟩).located := by
  induction named using List.reverseRecOn with
  | nil => exact ⟨⟨List.Pairwise.nil, fun p hp => by cases hp⟩, fun _ => rfl⟩
  | append_singleton named e ih =>
      obtain ⟨hwf, hcame⟩ := ih
      rw [List.foldl_append, List.flatMap_append, List.flatMap_cons, List.flatMap_nil,
        List.append_nil]
      exact firstCome_insertWithAlias hwf hcame createAliasEntries e

/-! ## Moving types -/

/-- Moving types to new packages keeps the entries where they are found. -/
theorem located_layeredPackages (package : ResourceTablePackageView ι) :
    ((layeredPackages package).flatMap ResourceTablePackageView.located).Perm package.located :=
  flatMap_layeredPackages (fun name id type => type.located name id) package

/-- New packages stand with their originals, so packages stay sorted. -/
theorem sortedBy_flatMap_layeredPackages {packages : List (ResourceTablePackageView ι)}
    (h : StrictlySortedBy compareIdName ResourceTablePackageView.key packages) :
    SortedBy compareIdName ResourceTablePackageView.key (packages.flatMap layeredPackages) := by
  rw [SortedBy, List.pairwise_flatMap]
  constructor
  · intro package _
    refine List.pairwise_of_forall_mem_list fun p hp q hq => ?_
    have hself : compareIdName package.key package.key = .eq := Std.ReflCmp.compare_self
    rw [key_of_mem_layeredPackages hp, key_of_mem_layeredPackages hq, hself]
    rfl
  · refine h.imp fun {package package'} hlt p hp q hq => ?_
    rw [key_of_mem_layeredPackages hp, key_of_mem_layeredPackages hq, hlt]
    rfl

/-- **The view of any table is a partition**: of several entries or aliases for one place, the first
is in the view, and the others are not. -/
theorem partitionOf_getPartitionedView (createAliasEntries : Bool) (table : ResourceTable ι) :
    PartitionOf (table.toLocate createAliasEntries)
      (table.getPartitionedView createAliasEntries) := by
  obtain ⟨hwf, hcame⟩ := firstCome_foldl_insertWithAlias createAliasEntries table.namedEntries
  have hpackages := getPartitionedView_eq hwf
  have hpackage : ∀ p ∈ (table.getPartitionedView createAliasEntries).packages,
      p.Wf ∧ p.types.Pairwise fun u v => u.namedType ≠ v.namedType := by
    intro p hp
    rw [hpackages] at hp
    obtain ⟨package, hmem, hp⟩ := List.mem_flatMap.mp hp
    exact wf_of_mem_layeredPackages (hwf.package package hmem) hp
  refine ⟨?_, fun p hp => (hpackage p hp).2, ?_, fun p hp => (hpackage p hp).1.types,
    fun p hp => (hpackage p hp).1.entries⟩
  · refine FirstCome.congr hcame (List.Perm.symm ?_)
    rw [ResourceTableView.located, hpackages, List.flatMap_assoc]
    exact List.Perm.flatMap_left _ fun package _ => located_layeredPackages package
  · rw [hpackages]
    exact sortedBy_flatMap_layeredPackages hwf.packages

/-- A table with two drawables of one name, the second of which has the staged identifier of the
first: what reading a table gives that was written with its aliases. -/
def stagedTwice : ResourceTable Unit :=
  let id : ResourceId := ⟨0x01020000⟩
  let stagedId : ResourceId := ⟨0x01fd0000⟩
  ⟨[⟨[97], [⟨⟨[98], .kDrawable⟩, .kUndefined,
    [{ ResourceEntry.new [99] with id := some id, stagedId := some ⟨stagedId⟩ },
      { ResourceEntry.new [99] with
        id := some stagedId
        values := [⟨.defaultConfig, [], none, false⟩] }]⟩]⟩]⟩

/-- Where an alias has the place of an entry, the one that comes later is not in the view. -/
theorem not_all_located_stagedTwice :
    (stagedTwice.namedEntries.map fun e => (e.1, e.2.id)).Nodup
      ∧ ¬ ∀ y ∈ stagedTwice.toLocate true,
        (stagedTwice.getPartitionedView true).located.count y = 1 := by
  decide

end AndroidSdk.Aapt2
