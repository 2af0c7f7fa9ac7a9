import AndroidSdk.FileTree.Tree

/-! # Comparing an assembled tree with the extracted one

`compare-extracted-tree.py` flattens the assembled SDK tree and the tree extracted from its archive
into dictionaries keyed by the text of the relative path, and compares the dictionaries.

* **`inventory`**, **`differences`**, **`main`** — the functions of the script, over an arbitrary
  content digest in the place of SHA-256.
* **`Label`**, **`SameLabels`** — the trees as labelled trees: at every path the entry type, the
  permission bits and the link target or file content.
* **`main_eq_zero_iff`** — the script succeeds iff the two trees are equal as labelled trees. -/

namespace AndroidSdk.FileTree.ExtractedTree

open Lib

/-! ## The script -/

/-- The first component of an inventory tuple. -/
inductive Kind where
  | symlink | directory | file
  deriving DecidableEq

/-- The value of an inventory entry: kind, permission bits, and link target, empty text or content
digest. -/
abbrev Entry := Kind × Nat × Bytes

/-- The dictionary `entries`, keyed by `relative.as_posix()`. -/
abbrev Inventory := Dict Bytes Entry

section

variable (fileDigest : Bytes → Bytes)

/-- The inventory tuple of an entry; `none` is the unsupported entry type that raises. -/
def inventoryEntry : Node → Option Entry
  | .symlink mode target => some (.symlink, mode, target)
  | .directory mode _ => some (.directory, mode, [])
  | .regular mode content => some (.file, mode, fileDigest content)
  | .other _ => none

/-- The body of the loop in `visit`: assign the tuple of one directory entry, or raise with its
path. -/
def assignEntry (entries : Inventory) (e : Path × Node) : Except Path Inventory :=
  match inventoryEntry fileDigest e.2 with
  | some entry => .ok (entries.insert (asPosix e.1) entry)
  | none => .error e.1

/-- `inventory`: visit a directory by name and fill the dictionary. -/
def inventory (tree : Tree) : Except Path Inventory :=
  (walk byName tree.children).foldlM (assignEntry fileDigest) ∅

/-- A line of `differences`. -/
inductive Difference where
  | missing (relative : Bytes)
  | extra (relative : Bytes)
  | mismatch (relative : Bytes) (expected actual : Entry)
  deriving DecidableEq

/-- The difference the two inventories show at one path, if any. -/
def differenceAt (expected actual : Inventory) (relative : Bytes) : Option Difference :=
  match expected.lookup relative, actual.lookup relative with
  | some _, none => some (.missing relative)
  | none, some _ => some (.extra relative)
  | some e, some a => if e ≠ a then some (.mismatch relative e a) else none
  -- not reached: the loop runs over the keys of either dictionary
  | none, none => none

/-- The paths of both inventories, sorted by their bytes. -/
def allPaths (expected actual : Inventory) : List Bytes :=
  (expected.keys ∪ actual.keys).insertionSort fun a b => a.map UInt8.toNat ≤ b.map UInt8.toNat

/-- The list `differences` that `main` builds. -/
def differences (expected actual : Inventory) : List Difference :=
  (allPaths expected actual).filterMap (differenceAt expected actual)

/-- `main` on two directories: the exit status, or the entry that made `inventory` raise. -/
def main (expected actual : Tree) : Except Path Nat := do
  let expected ← inventory fileDigest expected
  let actual ← inventory fileDigest actual
  return if (differences expected actual).isEmpty then 0 else 1

end

/-! ## Labelled trees -/

/-- What a labelled tree shows of an entry. -/
inductive Label where
  | symlink (mode : Nat) (target : Bytes)
  | directory (mode : Nat)
  | regular (mode : Nat) (content : Bytes)
  | other (mode : Nat)
  deriving DecidableEq

/-- The label of an entry. -/
def label : Node → Label
  | .symlink mode target => .symlink mode target
  | .directory mode _ => .directory mode
  | .regular mode content => .regular mode content
  | .other mode => .other mode

/-- The label at a relative path, if there is an entry. -/
def labelAt (tree : Tree) (path : Path) : Option Label := (lookup tree.children path).map label

/-- Two trees are equal as labelled trees: the same relative paths and, at each path, the same entry
type, permission bits and link target or file bytes. -/
def SameLabels (t t' : Tree) : Prop := ∀ path, labelAt t path = labelAt t' path

/-! ## Flattening is faithful -/

variable {fileDigest : Bytes → Bytes}

/-- The tuple of an entry of a plain tree exists. -/
theorem exists_inventoryEntry (fileDigest : Bytes → Bytes) {node : Node}
    (h : ∀ mode, node ≠ .other mode) : ∃ entry, inventoryEntry fileDigest node = some entry := by
  cases node with
  | other mode => exact absurd rfl (h mode)
  | symlink mode target => exact ⟨_, rfl⟩
  | directory mode cs => exact ⟨_, rfl⟩
  | regular mode content => exact ⟨_, rfl⟩

/-- Assigning the tuples of supported entries fills the dictionary with them. -/
theorem foldlM_assignEntry (entries : Inventory) {l : List (Path × Node)}
    (h : ∀ e ∈ l, ∀ mode, e.2 ≠ .other mode) :
    l.foldlM (assignEntry fileDigest) entries
      = .ok (entries.fill (l.filterMap fun e =>
          (inventoryEntry fileDigest e.2).map (asPosix e.1, ·))) := by
  induction l generalizing entries with
  | nil => rfl
  | cons e l ih =>
      obtain ⟨entry, hentry⟩ := exists_inventoryEntry fileDigest (h e (by simp))
      rw [List.foldlM_cons, assignEntry, hentry]
      show l.foldlM (assignEntry fileDigest) _ = _
      rw [ih _ fun e' he' => h e' (by simp [he'])]
      simp [hentry, Dict.fill]

/-- **The inventory of a tree, key by key**: the tuple at a text is that of the entry whose path has
that text. -/
theorem exists_inventory (fileDigest : Bytes → Bytes) (tree : PlainTree) :
    ∃ entries, inventory fileDigest tree.toTree = .ok entries ∧ ∀ text entry,
      entries.lookup text = some entry ↔ ∃ path node, lookup tree.children path = some node
        ∧ asPosix path = text ∧ inventoryEntry fileDigest node = some entry := by
  have hsupp : ∀ e ∈ walk byName tree.children, ∀ mode, e.2 ≠ .other mode := fun e he =>
    tree.supported e.1 e.2 ((mem_walk_iff byName tree.distinct e.1 e.2).mp he)
  refine ⟨_, foldlM_assignEntry ∅ hsupp, fun text entry => ?_⟩
  have hkeys := nodup_keys_filterMap (fun e => inventoryEntry fileDigest e.2)
    (nodup_texts_walk byName tree.distinct)
  rw [Dict.lookup_fill_eq_some_iff ∅ hkeys]
  simp only [AList.lookup_empty, reduceCtorEq, and_false, or_false, List.mem_filterMap,
    Option.map_eq_some_iff, Prod.mk.injEq]
  constructor
  · rintro ⟨⟨path, node⟩, hmem, x, hx, rfl, rfl⟩
    exact ⟨path, node, (mem_walk_iff byName tree.distinct path node).mp hmem, rfl, hx⟩
  · rintro ⟨path, node, hl, rfl, hx⟩
    exact ⟨(path, node), (mem_walk_iff byName tree.distinct path node).mpr hl, entry, hx, rfl, rfl⟩

/-- With distinct digests for distinct contents, inventory tuples are equal iff labels are. -/
theorem inventoryEntry_eq_iff (hinj : Function.Injective fileDigest) {node node' : Node}
    (h : ∀ mode, node ≠ .other mode) (h' : ∀ mode, node' ≠ .other mode) :
    inventoryEntry fileDigest node = inventoryEntry fileDigest node' ↔ label node = label node' := by
  cases node with
  | other mode => exact absurd rfl (h mode)
  | symlink mode target => cases node' <;> simp_all [inventoryEntry, label]
  | directory mode cs => cases node' <;> simp_all [inventoryEntry, label]
  | regular mode content =>
      cases node' <;> simp_all [inventoryEntry, label, hinj.eq_iff]

/-- Two plain trees show the same tuple at a path iff they show the same label there. -/
theorem tupleAt_eq_iff (hinj : Function.Injective fileDigest) (t t' : PlainTree) (path : Path) :
    (lookup t.children path).bind (inventoryEntry fileDigest)
        = (lookup t'.children path).bind (inventoryEntry fileDigest)
      ↔ labelAt t.toTree path = labelAt t'.toTree path := by
  rw [labelAt, labelAt]
  cases hl : lookup t.children path with
  | none =>
      cases hl' : lookup t'.children path with
      | none => simp
      | some node' =>
          obtain ⟨entry, hentry⟩ := exists_inventoryEntry fileDigest (t'.supported path node' hl')
          simp [hentry]
  | some node =>
      have hsupp := t.supported path node hl
      cases hl' : lookup t'.children path with
      | none =>
          obtain ⟨entry, hentry⟩ := exists_inventoryEntry fileDigest hsupp
          simp [hentry]
      | some node' =>
          simpa using inventoryEntry_eq_iff hinj hsupp (t'.supported path node' hl')

/-! ## The verdict -/

/-- The list of differences is empty iff the two dictionaries agree at every key. -/
theorem differences_eq_nil_iff (expected actual : Inventory) :
    differences expected actual = [] ↔ ∀ text, expected.lookup text = actual.lookup text := by
  have hmem (text : Bytes) :
      text ∈ allPaths expected actual ↔ text ∈ expected ∨ text ∈ actual := by
    rw [allPaths, List.mem_insertionSort, List.mem_union_iff, AList.mem_keys, AList.mem_keys]
  rw [differences, List.filterMap_eq_nil_iff]
  constructor
  · intro h text
    have htext := h text
    rw [hmem, ← AList.lookup_isSome, ← AList.lookup_isSome, differenceAt] at htext
    cases he : expected.lookup text with
    | none =>
        cases ha : actual.lookup text with
        | none => rfl
        | some a => simp [he, ha] at htext
    | some e =>
        cases ha : actual.lookup text with
        | none => simp [he, ha] at htext
        | some a =>
            have : e = a := by simpa [he, ha] using htext
            rw [this]
  · intro h text _
    rw [differenceAt, h text]
    cases actual.lookup text <;> simp

/-- **The comparison succeeds exactly on equal labelled trees** (with distinct digests for distinct
contents): `main` returns 0 iff both trees have the same relative paths and, at each path, the same
entry type, the same permission bits, and the same symlink target or the same file bytes. -/
theorem main_eq_zero_iff (hinj : Function.Injective fileDigest) (t t' : PlainTree) :
    main fileDigest t.toTree t'.toTree = .ok 0 ↔ SameLabels t.toTree t'.toTree := by
  obtain ⟨expected, hexp, he⟩ := exists_inventory fileDigest t
  obtain ⟨actual, hact, ha⟩ := exists_inventory fileDigest t'
  have hmain : main fileDigest t.toTree t'.toTree
      = .ok (if (differences expected actual).isEmpty then 0 else 1) := by
    rw [main, hexp, hact]
    rfl
  have hverdict : main fileDigest t.toTree t'.toTree = .ok 0
      ↔ ∀ text, expected.lookup text = actual.lookup text := by
    rw [hmain, ← differences_eq_nil_iff]
    cases differences expected actual <;> simp
  rw [hverdict]
  -- the tuple of an entry is found under its path, which its text gives back
  have htuple {tree : PlainTree} {entries : Inventory} (hentries : ∀ text entry,
      entries.lookup text = some entry ↔ ∃ path node, lookup tree.children path = some node
        ∧ asPosix path = text ∧ inventoryEntry fileDigest node = some entry) {path : Path}
      (hne : path ≠ []) :
      entries.lookup (asPosix path)
        = (lookup tree.children path).bind (inventoryEntry fileDigest) := by
    ext entry
    rw [hentries, Option.bind_eq_some_iff]
    constructor
    · rintro ⟨p, node, hl, htext, hx⟩
      have hp : p ≠ [] := fun hnil => by simp [hnil, lookup] at hl
      exact ⟨node, by rwa [← asPosix_inj hp hne htext], hx⟩
    · rintro ⟨node, hl, hx⟩
      exact ⟨path, node, hl, rfl, hx⟩
  constructor
  -- from the inventories to the labels
  · intro h path
    by_cases hne : path = []
    · simp [hne, labelAt, lookup]
    · rw [← tupleAt_eq_iff hinj, ← htuple he hne, ← htuple ha hne, h]
  -- a text of the inventory comes from a path, at which both trees have the same tuple
  · intro h text
    ext entry
    rw [he, ha]
    have hstep (path : Path) : (∃ node, lookup t.children path = some node
        ∧ asPosix path = text ∧ inventoryEntry fileDigest node = some entry)
        ↔ ∃ node, lookup t'.children path = some node
          ∧ asPosix path = text ∧ inventoryEntry fileDigest node = some entry := by
      have hpath := (tupleAt_eq_iff hinj t t' path).mpr (h path)
      have hiff : (∃ node, lookup t.children path = some node
          ∧ inventoryEntry fileDigest node = some entry)
          ↔ ∃ node, lookup t'.children path = some node
            ∧ inventoryEntry fileDigest node = some entry := by
        rw [← Option.bind_eq_some_iff, ← Option.bind_eq_some_iff, hpath]
      constructor
      · rintro ⟨node, hl, htext, hx⟩
        obtain ⟨node', hl', hx'⟩ := hiff.mp ⟨node, hl, hx⟩
        exact ⟨node', hl', htext, hx'⟩
      · rintro ⟨node, hl, htext, hx⟩
        obtain ⟨node', hl', hx'⟩ := hiff.mpr ⟨node, hl, hx⟩
        exact ⟨node', hl', htext, hx'⟩
    exact exists_congr hstep

/-! ## A tree and the order of its entries -/

/-- A tree is plain if the inventory of its entries exists. -/
theorem supported_of_inventoryEntry {children : List (Name × Node)} (h : DistinctNames children)
    (hall : (walk asScanned children).all (fun e => (inventoryEntry id e.2).isSome) = true)
    (path : Path) (node : Node) (hl : lookup children path = some node) (mode : ℕ) :
    node ≠ .other mode := by
  have hentry := List.all_eq_true.mp hall _ ((mem_walk_iff asScanned h path node).mpr hl)
  rintro rfl
  cases hentry

/-- The entries of a directory `bin`: a program, a link to it, and an empty directory. -/
def binEntries : List (Name × Node) :=
  [(nameOf "adb" (by decide +kernel), .regular 0o755 (encodeUtf8 "program")),
   (nameOf "bridge" (by decide +kernel), .symlink 0o777 (encodeUtf8 "adb")),
   (nameOf "empty" (by decide +kernel), .directory 0o700 [])]

/-- A tree with files, links and directories. -/
def smallTree : PlainTree where
  children := [(nameOf "bin" (by decide +kernel), .directory 0o755 binEntries),
    (nameOf "bin.txt" (by decide +kernel), .regular 0o644 (encodeUtf8 "notes"))]
  distinct := distinctNames_of_nodup_paths (by decide +kernel)
  supported := supported_of_inventoryEntry (distinctNames_of_nodup_paths (by decide +kernel))
    (by decide +kernel)

/-- The same tree, whose directories hold their entries in another order. -/
def reorderedTree : PlainTree where
  children := [(nameOf "bin.txt" (by decide +kernel), .regular 0o644 (encodeUtf8 "notes")),
    (nameOf "bin" (by decide +kernel), .directory 0o755 binEntries.reverse)]
  distinct := distinctNames_of_nodup_paths (by decide +kernel)
  supported := supported_of_inventoryEntry (distinctNames_of_nodup_paths (by decide +kernel))
    (by decide +kernel)

/-- The order of the entries does not matter. -/
theorem main_smallTree : main id smallTree.toTree reorderedTree.toTree = .ok 0
    ∧ SameLabels smallTree.toTree reorderedTree.toTree := by
  have hmain : main id smallTree.toTree reorderedTree.toTree = .ok 0 := by decide +kernel
  exact ⟨hmain, (main_eq_zero_iff Function.injective_id smallTree reorderedTree).mp hmain⟩

end AndroidSdk.FileTree.ExtractedTree
