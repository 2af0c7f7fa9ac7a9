import AndroidSdk.Aapt2.ResourceModel

/-! # File references

The values of a table that refer to a file of the APK (`ResourceValues.h`). A value is a file
reference itself, or it holds items, some of which may be file references.

* **`FileReference`** — path, type and file.
* **`ResourceTable.fileReferences`** — the values that are file references, in the order of the
  nested loops over packages, types, entries and values.
* **`ResourceTable.rewriteFileReferences`** — these loops, for a pass that changes file references.
  -/

namespace AndroidSdk.Aapt2

open Lib (mapAccumM bind_eq_ok_iff)

/-- `IFile`: its path, whether it was compressed, and its data, if it can be opened. -/
structure IFile where
  path : Bytes
  wasCompressed : Bool
  data : Option Bytes
  deriving DecidableEq

/-- `ResourceFile::Type`. -/
inductive ResourceFileType where
  | kUnknown | kPng | kBinaryXml | kProtoXml
  deriving DecidableEq

/-- `FileReference`. -/
structure FileReference where
  path : Bytes
  type : ResourceFileType
  file : Option IFile
  deriving DecidableEq

/-- What a value holds: it is a file reference, or a value with file references among its items. -/
inductive Content (α : Type) where
  | file (ref : FileReference)
  | items (refs : List FileReference) (rest : α)
  deriving DecidableEq

variable {α : Type}

/-- `ValueCast<FileReference>`, on what a configuration holds. -/
def ResourceConfigValue.fileReference (v : ResourceConfigValue (Content α)) :
    Option FileReference :=
  v.value.bind fun value =>
    match value.content with
    | .file ref => some ref
    | .items _ _ => none

/-- The file references among the items of a value. -/
def ResourceConfigValue.itemReferences (v : ResourceConfigValue (Content α)) :
    List FileReference :=
  v.value.elim [] fun value =>
    match value.content with
    | .file _ => []
    | .items refs _ => refs

/-- The value with the reference, after a change through its pointer. -/
def ResourceConfigValue.setFileReference (v : ResourceConfigValue (Content α))
    (ref : FileReference) : ResourceConfigValue (Content α) :=
  { v with value := v.value.map fun value => { value with content := .file ref } }

@[simp]
theorem ResourceConfigValue.fileReference_setFileReference {v : ResourceConfigValue (Content α)}
    {ref : FileReference} (h : v.fileReference = some ref) (ref' : FileReference) :
    (v.setFileReference ref').fileReference = some ref' := by
  obtain ⟨value, hvalue, -⟩ := Option.bind_eq_some_iff.mp h
  simp [ResourceConfigValue.fileReference, ResourceConfigValue.setFileReference, hvalue]

@[simp]
theorem ResourceConfigValue.itemReferences_setFileReference {v : ResourceConfigValue (Content α)}
    {ref : FileReference} (h : v.fileReference = some ref) (ref' : FileReference) :
    (v.setFileReference ref').itemReferences = v.itemReferences := by
  obtain ⟨value, hvalue, hcontent⟩ := Option.bind_eq_some_iff.mp h
  cases hc : value.content with
  | file r =>
      simp [ResourceConfigValue.itemReferences, ResourceConfigValue.setFileReference, hvalue, hc]
  | items refs rest =>
      rw [hc] at hcontent
      cases hcontent

/-- The values of an entry that are file references, each with the name of the resource. -/
def ResourceEntry.fileReferences (e : ResourceName × ResourceEntry (Content α)) :
    List (ResourceName × FileReference) :=
  e.2.values.filterMap fun v => v.fileReference.map (e.1, ·)

/-- The values of a table that are file references, each with the name of its resource. -/
def ResourceTable.fileReferences (table : ResourceTable (Content α)) :
    List (ResourceName × FileReference) :=
  table.namedEntries.flatMap ResourceEntry.fileReferences

/-- The file references among the items of the values of a table. -/
def ResourceTable.itemReferences (table : ResourceTable (Content α)) : List FileReference :=
  table.namedEntries.flatMap fun e => e.2.values.flatMap ResourceConfigValue.itemReferences

/-! ## The loops over the file references -/

section Rewrite

variable {σ ε : Type} (f : σ → ResourceName → FileReference → Except ε (σ × FileReference))

/-- The step on a value. -/
def rewriteFileReference (name : ResourceName) (s : σ) (v : ResourceConfigValue (Content α)) :
    Except ε (σ × ResourceConfigValue (Content α)) :=
  match v.fileReference with
  | none => .ok (s, v)
  | some ref => do
      let (s, ref) ← f s name ref
      return (s, v.setFileReference ref)

/-- The loop over the values of an entry. -/
def ResourceEntry.rewriteFileReferences (s : σ) (name : ResourceName)
    (entry : ResourceEntry (Content α)) : Except ε (σ × ResourceEntry (Content α)) := do
  let (s, values) ← mapAccumM (rewriteFileReference f name) s entry.values
  return (s, { entry with values })

/-- The nested loops over packages, types, entries and values. -/
def ResourceTable.rewriteFileReferences (s : σ) (table : ResourceTable (Content α)) :
    Except ε (σ × ResourceTable (Content α)) :=
  table.rewriteEntries (ResourceEntry.rewriteFileReferences f) s

/-- The same step on a reference with its name. -/
def rewriteNamedReference (s : σ) (r : ResourceName × FileReference) :
    Except ε (σ × ResourceName × FileReference) := do
  let (s, ref) ← f s r.1 r.2
  return (s, r.1, ref)

variable {f}

/-- The loop over the values of an entry, seen as a loop over its references. -/
theorem mapAccumM_rewriteFileReference {name : ResourceName} {s s' : σ}
    {values values' : List (ResourceConfigValue (Content α))}
    (h : mapAccumM (rewriteFileReference f name) s values = .ok (s', values')) :
    mapAccumM (rewriteNamedReference f) s
        (values.filterMap fun v => v.fileReference.map (name, ·))
      = .ok (s', values'.filterMap fun v => v.fileReference.map (name, ·))
      ∧ values'.flatMap ResourceConfigValue.itemReferences
        = values.flatMap ResourceConfigValue.itemReferences := by
  induction values generalizing s values' with
  | nil =>
      cases h
      exact ⟨rfl, rfl⟩
  | cons v values ih =>
      obtain ⟨t, w, rest, hv, hrest, rfl⟩ := Lib.mapAccumM_cons_eq_ok_iff.mp h
      obtain ⟨hrefs, hitems⟩ := ih hrest
      rw [rewriteFileReference] at hv
      cases href : v.fileReference with
      | none =>
          rw [href] at hv
          cases hv
          refine ⟨?_, by rw [List.flatMap_cons, List.flatMap_cons, hitems]⟩
          simpa [List.filterMap_cons, href] using hrefs
      | some ref =>
          rw [href] at hv
          obtain ⟨⟨t', ref'⟩, hf, hv⟩ := bind_eq_ok_iff.mp hv
          cases hv
          constructor
          · rw [List.filterMap_cons_some (by rw [href]; rfl), List.filterMap_cons_some
              (by rw [ResourceConfigValue.fileReference_setFileReference href]; rfl)]
            exact Lib.mapAccumM_cons_eq_ok_iff.mpr
              ⟨t, (name, ref'), _, bind_eq_ok_iff.mpr ⟨(t, ref'), hf, rfl⟩, hrefs, rfl⟩
          · rw [List.flatMap_cons, List.flatMap_cons, hitems,
              ResourceConfigValue.itemReferences_setFileReference href]

/-- The loop over the values of an entry keeps its name. -/
theorem ResourceEntry.name_rewriteFileReferences (s s' : σ) (name : ResourceName)
    (entry entry' : ResourceEntry (Content α))
    (h : ResourceEntry.rewriteFileReferences f s name entry = .ok (s', entry')) :
    entry'.name = entry.name := by
  obtain ⟨⟨t, values⟩, -, h⟩ := bind_eq_ok_iff.mp h
  cases h
  rfl

/-- **The nested loops are one loop** over the file references of the table. -/
theorem ResourceTable.mapAccumM_fileReferences {s s' : σ} {table table' : ResourceTable (Content α)}
    (h : table.rewriteFileReferences f s = .ok (s', table')) :
    mapAccumM (rewriteNamedReference f) s table.fileReferences = .ok (s', table'.fileReferences) := by
  refine Lib.mapAccumM_flatMap ?_ (ResourceTable.mapAccumM_namedEntries ResourceEntry.name_rewriteFileReferences h)
  intro s s' e e' he
  obtain ⟨⟨t, entry⟩, hentry, he⟩ := bind_eq_ok_iff.mp he
  cases he
  obtain ⟨⟨t', values⟩, hvalues, hentry⟩ := bind_eq_ok_iff.mp hentry
  cases hentry
  exact (mapAccumM_rewriteFileReference hvalues).1

/-- The items of the values stay. -/
theorem ResourceTable.itemReferences_rewriteFileReferences {s s' : σ}
    {table table' : ResourceTable (Content α)}
    (h : table.rewriteFileReferences f s = .ok (s', table')) :
    table'.itemReferences = table.itemReferences := by
  have hrun := ResourceTable.mapAccumM_namedEntries ResourceEntry.name_rewriteFileReferences h
  rw [ResourceTable.itemReferences, ResourceTable.itemReferences]
  clear h
  generalize table.namedEntries = l at hrun
  generalize table'.namedEntries = l' at hrun
  induction l generalizing s l' with
  | nil =>
      cases hrun
      rfl
  | cons e l ih =>
      obtain ⟨t, e', m, he, hl, rfl⟩ := Lib.mapAccumM_cons_eq_ok_iff.mp hrun
      obtain ⟨⟨t', entry⟩, hentry, he⟩ := bind_eq_ok_iff.mp he
      cases he
      obtain ⟨⟨t'', values⟩, hvalues, hentry⟩ := bind_eq_ok_iff.mp hentry
      cases hentry
      rw [List.flatMap_cons, List.flatMap_cons, ih m hl]
      congr 1
      exact (mapAccumM_rewriteFileReference hvalues).2

end Rewrite

end AndroidSdk.Aapt2
