import Mathlib.Data.List.Lex
import Mathlib.Data.List.Nodup
import Mathlib.Data.List.Pairwise
import Mathlib.Data.List.Sort
import AndroidSdk.Lib.Dict
import AndroidSdk.Lib.Framing
import AndroidSdk.Lib.Text

/-! # Directory trees as the scripts see them

The Python scripts that fingerprint and compare source and SDK trees all walk a directory with
`os.scandir`, look at each entry with `lstat` and recurse into directories. This file has the common
part.

* **`Name`**, **`Node`**, **`Tree`** — entry names, entries and directories with distinct names.
* **`walk`** — all entries below a directory in the order in which a visit meets them, for any
  arrangement of the entries of each directory; `byName` is `sorted(os.scandir(..),
  key=os.fsencode)`.
* **`lookup`** — the entry at a path, found by descending from directory to directory.
* **`mem_walk_iff`** — the walk meets exactly the entries that `lookup` finds.
* **`pairwise_walk_byName`** — the walk by name meets paths in strictly increasing order. -/

namespace AndroidSdk.FileTree

/-- Byte strings: file contents, link targets and encoded names. -/
abbrev Bytes := List UInt8

/-- The name of a directory entry, as `os.scandir` yields it: not empty, without slash and NUL, and
neither of the special entries `.` and `..`. -/
structure Name where
  /-- The bytes `os.fsencode` gives for the name. -/
  bytes : Bytes
  ne_nil : bytes ≠ []
  no_slash : (47 : UInt8) ∉ bytes
  no_nul : (0 : UInt8) ∉ bytes
  not_dot : bytes ≠ [46]
  not_dotdot : bytes ≠ [46, 46]
  deriving DecidableEq

/-- Names with the same bytes are equal. -/
theorem Name.ext_bytes {a b : Name} (h : a.bytes = b.bytes) : a = b := by
  cases a
  cases b
  simp_all

/-- The name with the given bytes, if they can be a name. -/
def Name.ofBytes? (bytes : Bytes) : Option Name :=
  if h : bytes ≠ [] ∧ (47 : UInt8) ∉ bytes ∧ (0 : UInt8) ∉ bytes ∧ bytes ≠ [46] ∧ bytes ≠ [46, 46] then
    some ⟨bytes, h.1, h.2.1, h.2.2.1, h.2.2.2.1, h.2.2.2.2⟩
  else none

/-- The name with the given text. -/
def nameOf (text : String) (h : (Name.ofBytes? (Lib.encodeUtf8 text)).isSome) : Name :=
  (Name.ofBytes? (Lib.encodeUtf8 text)).get h

/-- A relative path: the names of its components. -/
abbrev Path := List Name

/-- The path that a text with slashes stands for. -/
def pathOf (text : String) : Path :=
  ((Lib.encodeUtf8 text).splitOn 47).filterMap Name.ofBytes?

/-- A directory entry with its permission bits, as `lstat` classifies it. -/
inductive Node where
  /-- A symbolic link with its target. -/
  | symlink (mode : Nat) (target : Bytes)
  /-- A directory with its entries in the order of `os.scandir`. -/
  | directory (mode : Nat) (children : List (Name × Node))
  /-- A regular file; `st_size` is the length of its content. -/
  | regular (mode : Nat) (content : Bytes)
  /-- A device, socket or fifo. -/
  | other (mode : Nat)

/-- No directory below has two entries of one name. -/
inductive DistinctNames : List (Name × Node) → Prop
  | mk {children : List (Name × Node)} (nodup : (children.map Prod.fst).Nodup)
      (below : ∀ name mode cs, (name, Node.directory mode cs) ∈ children → DistinctNames cs) :
      DistinctNames children

/-- A directory as a tree: its entries, with distinct names in every directory. -/
structure Tree where
  children : List (Name × Node)
  distinct : DistinctNames children

/-! ## Visiting a directory -/

/-- An order in which a visit takes the entries of a directory. -/
structure Arrangement where
  arrange : List (Name × Node) → List (Name × Node)
  perm : ∀ children, (arrange children).Perm children

/-- The entries below a directory with their paths, each directory before what it holds; `above` is
the path of the directory itself. -/
def visit (a : Arrangement) (above : Path) (children : List (Name × Node)) : List (Path × Node) :=
  (a.arrange children).flatMap fun child =>
    match _hchild : child with
    | (name, .directory mode cs) =>
        (above ++ [name], .directory mode cs) :: visit a (above ++ [name]) cs
    | (name, node) => [(above ++ [name], node)]
termination_by sizeOf children
decreasing_by
  rename_i hmem
  have hlt := List.sizeOf_lt_of_mem ((a.perm children).mem_iff.mp hmem)
  rw [_hchild] at hlt
  simp only [Prod.mk.sizeOf_spec, Node.directory.sizeOf_spec] at hlt
  omega

/-- The paths and entries one entry contributes to the visit of its directory. -/
def visitChild (a : Arrangement) (above : Path) : Name × Node → List (Path × Node)
  | (name, .directory mode cs) =>
      (above ++ [name], .directory mode cs) :: visit a (above ++ [name]) cs
  | (name, node) => [(above ++ [name], node)]

/-- A visit goes through the arranged entries one after the other. -/
theorem visit_eq (a : Arrangement) (above : Path) (children : List (Name × Node)) :
    visit a above children = (a.arrange children).flatMap (visitChild a above) := by
  rw [visit]
  refine List.flatMap_congr fun child _ => ?_
  obtain ⟨name, node⟩ := child
  cases node <;> rfl

/-- All entries below a directory, with paths relative to it, in the order of a visit. -/
def walk (a : Arrangement) (children : List (Name × Node)) : List (Path × Node) :=
  visit a [] children

/-- The paths and entries one entry contributes to the walk of its directory. -/
def walkChild (a : Arrangement) : Name × Node → List (Path × Node)
  | (name, .directory mode cs) =>
      ([name], .directory mode cs) :: (walk a cs).map fun e => (name :: e.1, e.2)
  | (name, node) => [([name], node)]

/-- Every finite tree can be taken apart directory by directory. -/
theorem directoryInduction {motive : List (Name × Node) → Prop}
    (step : ∀ children, (∀ name mode cs, (name, Node.directory mode cs) ∈ children → motive cs) →
      motive children) (children : List (Name × Node)) : motive children := by
  induction hn : sizeOf children using Nat.strong_induction_on generalizing children with
  | _ n ih =>
    refine step children fun name mode cs hmem => ih (sizeOf cs) ?_ cs rfl
    have hlt := List.sizeOf_lt_of_mem hmem
    simp only [Prod.mk.sizeOf_spec, Node.directory.sizeOf_spec] at hlt
    omega

/-- Visiting below a path prepends the path to the walk. -/
theorem visit_eq_map_walk (a : Arrangement) (above : Path) (children : List (Name × Node)) :
    visit a above children = (walk a children).map fun e => (above ++ e.1, e.2) := by
  induction children using directoryInduction generalizing above with
  | step children ih =>
      rw [walk, visit_eq, visit_eq, List.map_flatMap]
      refine List.flatMap_congr fun child hmem => ?_
      have hmem' := (a.perm children).mem_iff.mp hmem
      obtain ⟨name, node⟩ := child
      cases node with
      | directory mode cs =>
          simp only [visitChild, List.map_cons, List.nil_append]
          rw [ih name mode cs hmem' (above ++ [name]), ih name mode cs hmem' [name], List.map_map]
          simp [Function.comp_def]
      | symlink mode target => rfl
      | regular mode content => rfl
      | other mode => rfl

/-- A walk goes through the arranged entries one after the other. -/
theorem walk_eq (a : Arrangement) (children : List (Name × Node)) :
    walk a children = (a.arrange children).flatMap (walkChild a) := by
  rw [walk, visit_eq]
  refine List.flatMap_congr fun child _ => ?_
  obtain ⟨name, node⟩ := child
  cases node with
  | directory mode cs => simp [visitChild, walkChild, visit_eq_map_walk]
  | symlink mode target => rfl
  | regular mode content => rfl
  | other mode => rfl

/-! ## Looking up a path -/

/-- The entry at a path, descending from directory to directory. -/
def lookup (children : List (Name × Node)) : Path → Option Node
  | [] => none
  | name :: path =>
      match children.lookup name with
      | none => none
      | some node =>
          if path = [] then some node
          else
            match node with
            | .directory _ cs => lookup cs path
            | _ => none

/-- A tree of directories, symbolic links and regular files only. -/
structure PlainTree extends Tree where
  supported : ∀ path node, lookup children path = some node → ∀ mode, node ≠ .other mode

/-- The members of a walk come from one entry of the directory. -/
theorem mem_walk_iff_exists (a : Arrangement) (children : List (Name × Node)) (e : Path × Node) :
    e ∈ walk a children ↔ ∃ child ∈ children, e ∈ walkChild a child := by
  rw [walk_eq, List.mem_flatMap]
  exact exists_congr fun child => and_congr_left' (a.perm children).mem_iff

/-- What one entry contributes to a walk starts with the entry's name. -/
theorem mem_walkChild_iff (a : Arrangement) (name : Name) (node : Node) (e : Path × Node) :
    e ∈ walkChild a (name, node) ↔ e = ([name], node)
      ∨ ∃ mode cs path, node = .directory mode cs ∧ e.1 = name :: path
        ∧ (path, e.2) ∈ walk a cs := by
  obtain ⟨p, n⟩ := e
  cases node with
  | directory mode cs =>
      simp only [walkChild, List.mem_cons, List.mem_map, Prod.mk.injEq, Node.directory.injEq]
      refine or_congr_right ⟨?_, ?_⟩
      · rintro ⟨⟨q, m⟩, hm, rfl, rfl⟩
        exact ⟨mode, cs, q, ⟨rfl, rfl⟩, rfl, hm⟩
      · rintro ⟨mode', cs', q, ⟨rfl, rfl⟩, rfl, hm⟩
        exact ⟨(q, n), hm, rfl, rfl⟩
  | symlink mode target => simp [walkChild]
  | regular mode content => simp [walkChild]
  | other mode => simp [walkChild]

/-- No path of a walk is empty. -/
theorem ne_nil_of_mem_walk {a : Arrangement} {children : List (Name × Node)} {e : Path × Node}
    (h : e ∈ walk a children) : e.1 ≠ [] := by
  obtain ⟨⟨name, node⟩, -, he⟩ := (mem_walk_iff_exists a children e).mp h
  rcases (mem_walkChild_iff a name node e).mp he with rfl | ⟨mode, cs, path, -, hp, -⟩
  · simp
  · simp [hp]

/-- **A walk meets exactly the entries that `lookup` finds.** -/
theorem mem_walk_iff (a : Arrangement) {children : List (Name × Node)}
    (h : DistinctNames children) (path : Path) (node : Node) :
    (path, node) ∈ walk a children ↔ lookup children path = some node := by
  induction h generalizing path node with
  | @mk children nodup below ih =>
      rw [mem_walk_iff_exists]
      cases path with
      -- no entry has the empty path
      | nil =>
          refine ⟨?_, by simp [lookup]⟩
          rintro ⟨child, hmem, he⟩
          exact absurd rfl (ne_nil_of_mem_walk ((mem_walk_iff_exists a children _).mpr
            ⟨child, hmem, he⟩))
      | cons name path =>
          -- the entry is the child itself, or below a directory of that name
          have hchild : (∃ child ∈ children, (name :: path, node) ∈ walkChild a child)
              ↔ ∃ found, (name, found) ∈ children ∧ ((path = [] ∧ found = node)
                ∨ ∃ mode cs, found = .directory mode cs ∧ (path, node) ∈ walk a cs) := by
            constructor
            · rintro ⟨⟨name', found⟩, hmem, he⟩
              rcases (mem_walkChild_iff a name' found _).mp he with he | ⟨mode, cs, q, hd, hp, hw⟩
              · simp only [Prod.mk.injEq, List.cons.injEq] at he
                obtain ⟨⟨rfl, rfl⟩, rfl⟩ := he
                exact ⟨_, hmem, .inl ⟨rfl, rfl⟩⟩
              · obtain ⟨rfl, rfl⟩ := List.cons.inj hp
                exact ⟨found, hmem, .inr ⟨mode, cs, hd, hw⟩⟩
            · rintro ⟨found, hmem, ⟨rfl, rfl⟩ | ⟨mode, cs, hd, hw⟩⟩
              · exact ⟨_, hmem, (mem_walkChild_iff a name found _).mpr (.inl rfl)⟩
              · exact ⟨_, hmem, (mem_walkChild_iff a name found _).mpr
                  (.inr ⟨mode, cs, path, hd, rfl, hw⟩)⟩
          rw [hchild]
          -- names are distinct, so that the child is the one that is looked up
          constructor
          · rintro ⟨found, hmem, hfound⟩
            rw [lookup, (Lib.list_lookup_eq_some_iff nodup name found).mpr hmem]
            rcases hfound with ⟨rfl, rfl⟩ | ⟨mode, cs, rfl, hw⟩
            · simp
            · have hne : path ≠ [] := ne_nil_of_mem_walk hw
              simpa [hne] using (ih name mode cs hmem path node).mp hw
          · intro hl
            rw [lookup] at hl
            cases hfound : children.lookup name with
            | none => simp [hfound] at hl
            | some found =>
                have hmem := (Lib.list_lookup_eq_some_iff nodup name found).mp hfound
                refine ⟨found, hmem, ?_⟩
                by_cases hp : path = []
                · exact .inl ⟨hp, by simpa [hfound, hp] using hl⟩
                · cases found with
                  | directory mode cs =>
                      refine .inr ⟨mode, cs, rfl, (ih name mode cs hmem path node).mpr ?_⟩
                      simpa [hfound, hp] using hl
                  | symlink mode target => simp [hfound, hp] at hl
                  | regular mode content => simp [hfound, hp] at hl
                  | other mode => simp [hfound, hp] at hl

/-! ## Walking by name -/

/-- The key that orders names: their bytes as numbers, compared lexicographically. -/
def Name.key (name : Name) : List ℕ := name.bytes.map UInt8.toNat

/-- The key determines the name. -/
theorem Name.key_injective : Function.Injective Name.key := by
  intro a b h
  exact Name.ext_bytes (List.map_injective_iff.mpr (fun _ _ => UInt8.toNat_inj.mp) h)

/-- The order of `sorted(os.scandir(directory), key=lambda entry: os.fsencode(entry.name))`. -/
def byName : Arrangement where
  arrange := List.insertionSort fun a b => a.1.key ≤ b.1.key
  perm := List.perm_insertionSort _

/-- The entries as `os.scandir` yields them. -/
def asScanned : Arrangement where
  arrange := id
  perm _ := List.Perm.refl _

/-- The key that orders paths: component by component. -/
def pathKey (path : Path) : List (List ℕ) := path.map Name.key

/-- Distinct entries of a directory are strictly ordered by their names. -/
theorem pairwise_arrange_byName {children : List (Name × Node)}
    (h : (children.map Prod.fst).Nodup) :
    (byName.arrange children).Pairwise fun a b => a.1.key < b.1.key := by
  have htotal : Std.Total fun a b : Name × Node => a.1.key ≤ b.1.key := ⟨fun a b => le_total _ _⟩
  have htrans : IsTrans (Name × Node) fun a b => a.1.key ≤ b.1.key := ⟨fun _ _ _ => le_trans⟩
  have hsorted := List.pairwise_insertionSort (fun a b : Name × Node => a.1.key ≤ b.1.key) children
  have hnodup : ((byName.arrange children).map Prod.fst).Nodup :=
    ((byName.perm children).map Prod.fst).nodup_iff.mpr h
  have hne := List.pairwise_map.mp hnodup
  refine (hsorted.and hne).imp fun {a b} hab => ?_
  exact lt_of_le_of_ne hab.1 fun heq => hab.2 (Name.key_injective heq)

/-- Paths below different entries are ordered as the entries' names are. -/
theorem pathKey_lt_of_key_lt {a : Arrangement} {child child' : Name × Node}
    (h : child.1.key < child'.1.key) {e e' : Path × Node} (he : e ∈ walkChild a child)
    (he' : e' ∈ walkChild a child') : pathKey e.1 < pathKey e'.1 := by
  have hhead : ∀ {child : Name × Node} {e : Path × Node}, e ∈ walkChild a child →
      ∃ path, e.1 = child.1 :: path := by
    rintro ⟨name, node⟩ e he
    rcases (mem_walkChild_iff a name node e).mp he with rfl | ⟨-, -, path, -, hp, -⟩
    · exact ⟨[], rfl⟩
    · exact ⟨path, hp⟩
  obtain ⟨path, hp⟩ := hhead he
  obtain ⟨path', hp'⟩ := hhead he'
  rw [hp, hp', pathKey, pathKey, List.map_cons, List.map_cons]
  exact List.Lex.rel h

/-- **The walk by name meets paths in strictly increasing order.** Each directory comes before what
it holds, and what it holds comes before its later siblings. -/
theorem pairwise_walk_byName {children : List (Name × Node)} (h : DistinctNames children) :
    (walk byName children).Pairwise fun e e' => pathKey e.1 < pathKey e'.1 := by
  induction h with
  | @mk children nodup below ih =>
      rw [walk_eq, List.pairwise_flatMap]
      refine ⟨fun child hmem => ?_, ?_⟩
      · obtain ⟨name, node⟩ := child
        cases node with
        | directory mode cs =>
            have hmem' := (byName.perm children).mem_iff.mp hmem
            rw [walkChild, List.pairwise_cons]
            refine ⟨fun e he => ?_, ?_⟩
            · obtain ⟨e', he', rfl⟩ := List.mem_map.mp he
              have hne := ne_nil_of_mem_walk he'
              obtain ⟨first, rest, hcons⟩ := List.exists_cons_of_ne_nil hne
              simp only [pathKey, List.map_cons, hcons]
              exact List.Lex.cons List.Lex.nil
            · rw [List.pairwise_map]
              exact (ih name mode cs hmem').imp fun hlt => List.Lex.cons hlt
        | symlink mode target => simp [walkChild]
        | regular mode content => simp [walkChild]
        | other mode => simp [walkChild]
      · refine (pairwise_arrange_byName nodup).imp fun hlt e he e' he' => ?_
        exact pathKey_lt_of_key_lt hlt he he'

/-- Two lists of entries in strictly increasing path order with the same members are equal. -/
theorem eq_of_pairwise_pathKey {α : Type*} {l l' : List (Path × α)}
    (h : l.Pairwise fun e e' => pathKey e.1 < pathKey e'.1)
    (h' : l'.Pairwise fun e e' => pathKey e.1 < pathKey e'.1) (hmem : ∀ e, e ∈ l ↔ e ∈ l') :
    l = l' := by
  have hnodup : ∀ {l : List (Path × α)},
      l.Pairwise (fun e e' => pathKey e.1 < pathKey e'.1) → l.Nodup := by
    intro l hl
    refine List.Pairwise.imp (S := (· ≠ ·)) (fun {e e'} hlt heq => ?_) hl
    rw [heq] at hlt
    exact lt_irrefl _ hlt
  refine List.Perm.eq_of_pairwise (fun e e' _ _ hlt hlt' => ?_) h h'
    ((List.perm_ext_iff_of_nodup (hnodup h) (hnodup h')).mpr hmem)
  exact absurd hlt' (lt_asymm hlt)

/-- The paths of a walk are distinct, whatever the arrangement. -/
theorem nodup_paths_walk (a : Arrangement) {children : List (Name × Node)}
    (h : DistinctNames children) : ((walk a children).map Prod.fst).Nodup := by
  induction h with
  | @mk children nodup below ih =>
      have hnames : ((a.arrange children).map Prod.fst).Nodup :=
        ((a.perm children).map Prod.fst).nodup_iff.mpr nodup
      rw [walk_eq, List.map_flatMap, List.nodup_flatMap]
      refine ⟨fun child hmem => ?_, ?_⟩
      · obtain ⟨name, node⟩ := child
        cases node with
        | directory mode cs =>
            have hmem' := (a.perm children).mem_iff.mp hmem
            rw [walkChild, List.map_cons, List.map_map, List.nodup_cons]
            refine ⟨fun hin => ?_, ?_⟩
            · obtain ⟨e, he, hp⟩ := List.mem_map.mp hin
              have hnil : e.1 = [] := by simpa using hp
              exact ne_nil_of_mem_walk he hnil
            · have hmap := (ih name mode cs hmem').map (List.cons_injective (a := name))
              rwa [List.map_map] at hmap
        | symlink mode target => simp [walkChild]
        | regular mode content => simp [walkChild]
        | other mode => simp [walkChild]
      · refine (List.pairwise_map.mp hnames).imp fun {c c'} hne => ?_
        rw [Function.onFun, List.disjoint_left]
        intro path hp hp'
        obtain ⟨e, he, rfl⟩ := List.mem_map.mp hp
        obtain ⟨e', he', heq⟩ := List.mem_map.mp hp'
        have hhead : ∀ {child : Name × Node} {e : Path × Node}, e ∈ walkChild a child →
            e.1.head? = some child.1 := by
          rintro ⟨name, node⟩ e he
          rcases (mem_walkChild_iff a name node e).mp he with rfl | ⟨-, -, path, -, hp, -⟩
          · rfl
          · rw [hp, List.head?_cons]
        have := hhead he
        rw [← heq, hhead he'] at this
        exact hne (Option.some.inj this).symm

/-- If no path is met twice, then the names in every directory are distinct. -/
theorem distinctNames_of_nodup_paths {children : List (Name × Node)}
    (h : ((walk asScanned children).map Prod.fst).Nodup) : DistinctNames children := by
  induction children using directoryInduction with
  | step children ih =>
      rw [walk_eq, List.map_flatMap, List.nodup_flatMap] at h
      refine .mk (List.pairwise_map.mpr (h.2.imp fun {c c'} hdisjoint heq => ?_))
        fun name mode cs hmem => ih name mode cs hmem ?_
      · -- the path of the entry itself would be met twice
        have hself (child : Name × Node) : [child.1] ∈ (walkChild asScanned child).map Prod.fst := by
          obtain ⟨name, node⟩ := child
          exact List.mem_map.mpr ⟨_, (mem_walkChild_iff _ name node _).mpr (.inl rfl), rfl⟩
        exact hdisjoint (hself c) (by rw [heq]; exact hself c')
      · have hchild := h.1 _ hmem
        rw [walkChild, List.map_cons, List.map_map] at hchild
        refine List.Nodup.of_map (List.cons name) ?_
        rw [List.map_map]
        exact (List.nodup_cons.mp hchild).2

/-! ## Paths as text -/

/-- `PurePath.as_posix` of a relative path, encoded: the components joined by slashes. -/
def asPosix (path : Path) : Bytes := List.intercalate [47] (path.map Name.bytes)

/-- A path with one component is its name. -/
theorem asPosix_singleton (name : Name) : asPosix [name] = name.bytes := by
  simp [asPosix]

/-- A longer path is its first name, a slash and the rest. -/
theorem asPosix_cons_cons (name name' : Name) (path : Path) :
    asPosix (name :: name' :: path) = name.bytes ++ 47 :: asPosix (name' :: path) := by
  simp [asPosix, List.intercalate]

/-- **The text of a path determines its components**, since no name holds a slash. -/
theorem asPosix_inj {path path' : Path} (hne : path ≠ []) (hne' : path' ≠ [])
    (h : asPosix path = asPosix path') : path = path' := by
  induction path generalizing path' with
  | nil => exact absurd rfl hne
  | cons name path ih =>
      obtain ⟨name', rest', rfl⟩ := List.exists_cons_of_ne_nil hne'
      cases path with
      | nil =>
          cases rest' with
          | nil =>
              rw [asPosix_singleton, asPosix_singleton] at h
              rw [Name.ext_bytes h]
          | cons second rest' =>
              rw [asPosix_singleton, asPosix_cons_cons] at h
              exact absurd (by rw [h]; simp) name.no_slash
      | cons second path =>
          cases rest' with
          | nil =>
              rw [asPosix_singleton, asPosix_cons_cons] at h
              exact absurd (by rw [← h]; simp) name'.no_slash
          | cons second' rest' =>
              rw [asPosix_cons_cons, asPosix_cons_cons] at h
              obtain ⟨hname, hrest⟩ := Lib.append_sep_inj name.no_slash name'.no_slash h
              rw [Name.ext_bytes hname, ih (by simp) (by simp) hrest]

/-- The texts of the paths of a walk are distinct. -/
theorem nodup_texts_walk (a : Arrangement) {children : List (Name × Node)}
    (h : DistinctNames children) : ((walk a children).map fun e => asPosix e.1).Nodup := by
  have hpaths := nodup_paths_walk a h
  rw [show (fun e : Path × Node => asPosix e.1) = asPosix ∘ Prod.fst from rfl, ← List.map_map]
  refine List.Nodup.map_on (fun p hp q hq heq => ?_) hpaths
  obtain ⟨e, he, rfl⟩ := List.mem_map.mp hp
  obtain ⟨e', he', rfl⟩ := List.mem_map.mp hq
  exact asPosix_inj (ne_nil_of_mem_walk he) (ne_nil_of_mem_walk he') heq

end AndroidSdk.FileTree
