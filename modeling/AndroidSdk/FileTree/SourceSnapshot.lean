import AndroidSdk.FileTree.Tree

/-! # The source-tree digest

`verify-source-snapshot.py` records one SHA-256 digest for every imported source module and checks
it before each build. This file models the byte sequence that `tree_digest` feeds to the hash
function.

* **`treeDigestInput`** — the bytes hashed for a module tree, or the entry that made `visit` raise.
* **`GitEntry`**, **`SameGitEntries`** — what Git stores of a tree: regular files with their
  executable bit and content, symbolic links with their target.
* **`treeDigestInput_eq_iff`** — two module trees feed the same bytes to SHA-256 iff they have the
  same Git-visible entries. -/

namespace AndroidSdk.FileTree

open Lib

/-! ## The bytes fed to the hash function -/

/-- `update_field`: feed a value preceded by its length. -/
def updateField (digest value : Bytes) : Bytes :=
  digest ++ decimal value.length ++ [58] ++ value

/-- `b"android-sdk-linux-aarch64-source-tree-v3\0"`. -/
def digestHeader : Bytes :=
  "android-sdk-linux-aarch64-source-tree-v3".toUTF8.toList ++ [0]

/-- The mode text of a regular file: `b"100755"` if the owner may execute it, else `b"100644"`. -/
def gitMode (executable : Bool) : Bytes :=
  if executable then [49, 48, 48, 55, 53, 53] else [49, 48, 48, 54, 52, 52]

/-- `metadata.st_mode & stat.S_IXUSR`. -/
def ownerExecutable (mode : Nat) : Bool := mode &&& 0o100 != 0

/-- The body of the loop in `visit`: what one directory entry feeds to the hash function. An entry
that is neither link, directory nor regular file raises, here with its path. -/
def feedEntry (digest : Bytes) : Path × Node → Except Path Bytes
  | (relative, .symlink _ target) =>
      .ok (updateField (updateField (digest ++ [76]) (asPosix relative)) target)
  -- Git doesn't store directories; their entries follow in the walk
  | (_, .directory _ _) => .ok digest
  | (relative, .regular mode content) =>
      let digest := updateField (digest ++ [70]) (gitMode (ownerExecutable mode))
      let digest := updateField digest (asPosix relative)
      .ok (updateField digest (decimal content.length) ++ content)
  | (relative, .other _) => .error relative

/-- `tree_digest` before hashing: the header and what the entries feed, visited by name. -/
def treeDigestInput (tree : Tree) : Except Path Bytes :=
  (walk byName tree.children).foldlM feedEntry digestHeader

/-! ## What Git stores -/

/-- An entry of a tree as Git stores it. -/
inductive GitEntry where
  | link (target : Bytes)
  | file (executable : Bool) (content : Bytes)
  deriving DecidableEq

/-- What Git stores of a directory entry; directories leave no trace of their own. -/
def Node.gitEntry : Node → Option GitEntry
  | .symlink _ target => some (.link target)
  | .directory _ _ => none
  | .regular mode content => some (.file (ownerExecutable mode) content)
  | .other _ => none

/-- What Git stores at a path of a tree. -/
def Tree.gitEntryAt (tree : Tree) (path : Path) : Option GitEntry :=
  (lookup tree.children path).bind Node.gitEntry

/-- Two trees have the same regular files, with executable bit and content, and the same symbolic
links, with target, at the same paths. -/
def SameGitEntries (t t' : Tree) : Prop := ∀ path, t.gitEntryAt path = t'.gitEntryAt path

/-! ## The stream of records -/

/-- The bytes one Git-visible entry feeds, given the text of its path. -/
def record : Bytes × GitEntry → Bytes
  | (relative, .link target) => 76 :: (netstring relative ++ netstring target)
  | (relative, .file executable content) =>
      70 :: (netstring (gitMode executable) ++ (netstring relative ++ sized content))

/-- The two mode texts differ. -/
theorem gitMode_injective : Function.Injective gitMode := by
  intro a b h
  cases a <;> cases b <;> first | rfl | exact absurd h (by decide)

/-- **Records can be told apart in the stream**, whatever bytes names, targets and contents hold. -/
theorem record_selfDelimiting : SelfDelimiting record := by
  rintro ⟨p, e⟩ ⟨p', e'⟩ x y h
  cases e with
  | link target =>
      cases e' with
      | link target' =>
          simp only [record, List.cons_append, List.append_assoc, List.cons.injEq, true_and] at h
          obtain ⟨rfl, htarget⟩ := netstring_selfDelimiting h
          obtain ⟨rfl, rfl⟩ := netstring_selfDelimiting htarget
          exact ⟨rfl, rfl⟩
      | file executable' content' =>
          simp only [record, List.cons_append, List.cons.injEq] at h
          exact absurd h.1 (by decide)
  | file executable content =>
      cases e' with
      | link target' =>
          simp only [record, List.cons_append, List.cons.injEq] at h
          exact absurd h.1 (by decide)
      | file executable' content' =>
          simp only [record, List.cons_append, List.append_assoc, List.cons.injEq, true_and] at h
          obtain ⟨hmode, hpath⟩ := netstring_selfDelimiting h
          obtain ⟨rfl, hcontent⟩ := netstring_selfDelimiting hpath
          obtain ⟨rfl, rfl⟩ := sized_selfDelimiting hcontent
          rw [gitMode_injective hmode]
          exact ⟨rfl, rfl⟩

/-- The Git-visible entries of a tree in the order of the visit. -/
def gitEntries (tree : Tree) : List (Path × GitEntry) :=
  (walk byName tree.children).filterMap fun e => e.2.gitEntry.map (e.1, ·)

/-- Feeding one entry appends its record, if it has one. -/
theorem feedEntry_eq (digest : Bytes) {e : Path × Node} (h : ∀ mode, e.2 ≠ .other mode) :
    feedEntry digest e
      = .ok (digest ++ ((e.2.gitEntry.map (e.1, ·)).toList.flatMap fun g =>
          record (asPosix g.1, g.2))) := by
  obtain ⟨path, node⟩ := e
  cases node with
  | symlink mode target =>
      simp [feedEntry, updateField, Node.gitEntry, record, netstring]
  | directory mode cs => simp [feedEntry, Node.gitEntry]
  | regular mode content =>
      simp [feedEntry, updateField, Node.gitEntry, record, netstring, sized]
  | other mode => exact absurd rfl (h mode)

/-- Feeding a list of supported entries appends their records one after the other. -/
theorem foldlM_feedEntry (digest : Bytes) {entries : List (Path × Node)}
    (h : ∀ e ∈ entries, ∀ mode, e.2 ≠ .other mode) :
    entries.foldlM feedEntry digest
      = .ok (digest ++ (entries.filterMap fun e => e.2.gitEntry.map (e.1, ·)).flatMap fun g =>
          record (asPosix g.1, g.2)) := by
  induction entries generalizing digest with
  | nil => simp [pure, Except.pure]
  | cons e entries ih =>
      rw [List.foldlM_cons, feedEntry_eq digest (h e (by simp))]
      show entries.foldlM feedEntry _ = _
      rw [ih _ fun e' he' => h e' (by simp [he'])]
      cases hg : e.2.gitEntry with
      | none => simp [hg]
      | some g => simp [hg]

/-- A module tree feeds the header and the records of its Git-visible entries. -/
theorem treeDigestInput_eq (tree : PlainTree) :
    treeDigestInput tree.toTree
      = .ok (digestHeader ++ (gitEntries tree.toTree).flatMap fun g =>
          record (asPosix g.1, g.2)) := by
  refine foldlM_feedEntry digestHeader fun e he => ?_
  exact tree.supported e.1 e.2 ((mem_walk_iff byName tree.distinct e.1 e.2).mp he)

/-! ## The stream determines the Git-visible entries, and conversely -/

/-- The Git-visible entries in visiting order are those found by descending paths. -/
theorem mem_gitEntries_iff (tree : Tree) (path : Path) (g : GitEntry) :
    (path, g) ∈ gitEntries tree ↔ tree.gitEntryAt path = some g := by
  simp only [gitEntries, List.mem_filterMap, Tree.gitEntryAt, Option.bind_eq_some_iff]
  constructor
  · rintro ⟨⟨p, node⟩, hmem, hg⟩
    obtain ⟨g', hg', heq⟩ := Option.map_eq_some_iff.mp hg
    obtain ⟨rfl, rfl⟩ := Prod.mk.inj heq
    exact ⟨node, (mem_walk_iff byName tree.distinct p node).mp hmem, hg'⟩
  · rintro ⟨node, hl, hg⟩
    exact ⟨(path, node), (mem_walk_iff byName tree.distinct path node).mpr hl, by simp [hg]⟩

/-- The Git-visible entries come in strictly increasing path order. -/
theorem pairwise_gitEntries (tree : Tree) :
    (gitEntries tree).Pairwise fun e e' => pathKey e.1 < pathKey e'.1 := by
  refine (pairwise_walk_byName tree.distinct).filterMap _ fun e e' hlt g hg g' hg' => ?_
  obtain ⟨x, -, rfl⟩ := Option.map_eq_some_iff.mp hg
  obtain ⟨x', -, rfl⟩ := Option.map_eq_some_iff.mp hg'
  exact hlt

/-- The list of Git-visible entries is determined by what is stored at each path. -/
theorem gitEntries_eq_iff (t t' : Tree) : gitEntries t = gitEntries t' ↔ SameGitEntries t t' := by
  constructor
  · intro h path
    ext g
    rw [← mem_gitEntries_iff, ← mem_gitEntries_iff, h]
  · intro h
    refine eq_of_pairwise_pathKey (pairwise_gitEntries t) (pairwise_gitEntries t') fun e => ?_
    rw [mem_gitEntries_iff t e.1 e.2, mem_gitEntries_iff t' e.1 e.2, h e.1]

/-- Entries with nonempty paths are determined by the texts of their paths and their contents. -/
theorem map_asPosix_inj {l l' : List (Path × GitEntry)} (h : ∀ e ∈ l, e.1 ≠ [])
    (h' : ∀ e ∈ l', e.1 ≠ [])
    (heq : l.map (fun e => (asPosix e.1, e.2)) = l'.map fun e => (asPosix e.1, e.2)) : l = l' := by
  induction l generalizing l' with
  | nil => simpa using heq.symm
  | cons e l ih =>
      cases l' with
      | nil => simp at heq
      | cons e' l' =>
          simp only [List.map_cons, List.cons.injEq, Prod.mk.injEq] at heq
          obtain ⟨⟨hpath, hentry⟩, hrest⟩ := heq
          have hp := asPosix_inj (h e (by simp)) (h' e' (by simp)) hpath
          rw [ih (fun x hx => h x (by simp [hx])) (fun x hx => h' x (by simp [hx])) hrest,
            Prod.ext hp hentry]

/-- No Git-visible entry has an empty path. -/
theorem ne_nil_of_mem_gitEntries {tree : Tree} {e : Path × GitEntry} (h : e ∈ gitEntries tree) :
    e.1 ≠ [] := by
  obtain ⟨e', hmem, hg⟩ := List.mem_filterMap.mp h
  obtain ⟨g, -, rfl⟩ := Option.map_eq_some_iff.mp hg
  exact ne_nil_of_mem_walk hmem

/-- **The digest input is exactly the Git-visible content.** For every two module trees the bytes
that `tree_digest` feeds to SHA-256 are the same iff the trees have the same regular-file paths with
the same owner-execute bit and bytes, and the same symlink paths with the same targets. -/
theorem treeDigestInput_eq_iff (t t' : PlainTree) :
    ∃ input input', treeDigestInput t.toTree = .ok input ∧ treeDigestInput t'.toTree = .ok input'
      ∧ (input = input' ↔ SameGitEntries t.toTree t'.toTree) := by
  refine ⟨_, _, treeDigestInput_eq t, treeDigestInput_eq t', ?_⟩
  rw [← gitEntries_eq_iff, List.append_cancel_left_eq]
  constructor
  · intro h
    have hinj := record_selfDelimiting.flatMap_injective fun e => by
      obtain ⟨p, g⟩ := e
      cases g <;> simp [record]
    refine map_asPosix_inj (fun e => ne_nil_of_mem_gitEntries) (fun e => ne_nil_of_mem_gitEntries)
      (hinj ?_)
    simpa only [List.flatMap_map] using h
  · intro h
    rw [h]

end AndroidSdk.FileTree
