import AndroidSdk.FileTree.ReferenceLayout
import AndroidSdk.Lib.Components
import AndroidSdk.Scripts.DependencyClosure

/-! # Rebuilt host files and the scan

`compare-reference-layout.py` lists the positions of the NDK at which an ELF file may change from
x86-64 to AArch64, and `validate-sdk.sh` lists the directories whose ELF files it checks.

* **`Visited`** — the scan meets a file.
* **`visited_iff`** — the visited files are those below the roots, as deep as the scope of the root
  lets `find` go.
* **`rebuilt_iff_visited`** — the comparison permits a change exactly where the scan looks.
* **`checkClosure_of_rebuilt`** — a rebuilt file has passed the check of its libraries. -/

namespace AndroidSdk.Scripts

open Lib FileTree FileTree.ReferenceLayout

/-! ## What the scan meets -/

/-- `find` meets the file below one of the host directories. -/
def Visited (ndk : Tree) (file : Path × Bytes) : Prop :=
  ∃ root ∈ ndkHostRoots, ∃ files, filesBelow ndk root = .ok files ∧ file ∈ files

/-- A path below a directory is looked up in the directory. -/
theorem lookup_append {children : List (Name × Node)} {root rest : Path} (hroot : root ≠ [])
    (hrest : rest ≠ []) {node : Node} : lookup children (root ++ rest) = some node ↔
      ∃ mode cs, lookup children root = some (.directory mode cs)
        ∧ lookup cs rest = some node := by
  induction root generalizing children with
  | nil => exact absurd rfl hroot
  | cons name root ih =>
      rw [List.cons_append, lookup, lookup]
      cases children.lookup name with
      | none => simp
      | some found =>
          by_cases hnil : root = []
          · subst hnil
            cases found <;> simp [hrest]
          · cases found with
            | directory mode cs => simpa [hnil] using ih hnil
            | symlink mode target => simp [hnil]
            | regular mode content => simp [hnil]
            | other mode => simp [hnil]

/-- The files that `find` prints for a directory. -/
theorem mem_findFiles_iff {root : Path} {scope : Scope} {children : List (Name × Node)}
    (h : DistinctNames children) (file : Path × Bytes) :
    file ∈ findFiles root scope children ↔ ∃ rest mode, file.1 = root ++ rest
      ∧ (scope = .shallow → rest.length ≤ 1)
      ∧ lookup children rest = some (.regular mode file.2) := by
  unfold findFiles
  rw [List.mem_filterMap]
  constructor
  · rintro ⟨⟨rest, node⟩, hmem, hfile⟩
    cases node with
    | regular mode content =>
        dsimp only at hfile
        split_ifs at hfile with hdeep
        rw [← Option.some.inj hfile]
        refine ⟨rest, mode, rfl, fun hscope => ?_, (mem_walk_iff asScanned h _ _).mp hmem⟩
        exact not_lt.mp fun hlt => hdeep ⟨hscope, hlt⟩
    | directory mode cs => cases hfile
    | symlink mode target => cases hfile
    | other mode => cases hfile
  · rintro ⟨rest, mode, hpath, hscope, hlookup⟩
    refine ⟨_, (mem_walk_iff asScanned h _ _).mpr hlookup, ?_⟩
    dsimp only
    rw [if_neg fun hdeep => absurd (hscope hdeep.1) (not_le.mpr hdeep.2), ← hpath]

/-- A directory that is found has distinct names. -/
theorem distinctNames_of_lookup {children cs : List (Name × Node)} (h : DistinctNames children)
    {path : Path} {mode : ℕ} (hl : lookup children path = some (.directory mode cs)) :
    DistinctNames cs := by
  induction h generalizing path with
  | @mk children nodup below ih =>
      cases path with
      | nil => cases hl
      | cons name path =>
          rw [lookup] at hl
          cases hfound : children.lookup name with
          | none => simp [hfound] at hl
          | some found =>
              have hmem := (list_lookup_eq_some_iff nodup name found).mp hfound
              by_cases hnil : path = []
              · have hnode : found = .directory mode cs := by simpa [hfound, hnil] using hl
                exact below name mode cs (hnode ▸ hmem)
              · cases found with
                | directory mode' cs' =>
                    exact ih name mode' cs' hmem (by simpa [hfound, hnil] using hl)
                | symlink mode target => simp [hfound, hnil] at hl
                | regular mode content => simp [hfound, hnil] at hl
                | other mode => simp [hfound, hnil] at hl

/-- No host directory is the NDK itself. -/
theorem root_ne_nil {root : Path × Scope} (h : root ∈ ndkHostRoots) : root.1 ≠ [] := by
  have hall : (ndkHostRoots.all fun root => decide (root.1 ≠ [])) = true := by decide +kernel
  exact of_decide_eq_true (List.all_eq_true.mp hall root h)

/-- The path lies below a host directory, as deep as the scan of it goes. -/
def InScope (path : Path) (root : Path × Scope) : Prop :=
  ∃ rest, rest ≠ [] ∧ path = root.1 ++ rest ∧ (root.2 = .shallow → rest.length ≤ 1)

/-- **The scan meets the regular files in the scope of a host directory.** -/
theorem visited_iff (ndk : Tree) (path : Path) (content : Bytes) :
    Visited ndk (path, content) ↔
      (∃ mode, lookup ndk.children path = some (.regular mode content))
        ∧ ∃ root ∈ ndkHostRoots, InScope path root := by
  constructor
  · rintro ⟨root, hroot, files, hfiles, hmem⟩
    unfold filesBelow at hfiles
    split at hfiles
    · rename_i mode cs hdirectory
      rw [← Except.ok.inj hfiles,
        mem_findFiles_iff (distinctNames_of_lookup ndk.distinct hdirectory)] at hmem
      obtain ⟨rest, mode', hpath, hscope, hlookup⟩ := hmem
      have hne : rest ≠ [] := by
        rintro rfl
        cases hlookup
      dsimp only at hpath
      subst hpath
      refine ⟨⟨mode', ?_⟩, root, hroot, rest, hne, rfl, hscope⟩
      exact (lookup_append (root_ne_nil hroot) hne).mpr ⟨mode, cs, hdirectory, hlookup⟩
    · cases hfiles
  · rintro ⟨⟨mode, hlookup⟩, root, hroot, rest, hne, rfl, hscope⟩
    obtain ⟨mode', cs, hdirectory, hrest⟩ := (lookup_append (root_ne_nil hroot) hne).mp hlookup
    refine ⟨root, hroot, findFiles root.1 root.2 cs, ?_, ?_⟩
    · unfold filesBelow
      rw [hdirectory]
    · rw [mem_findFiles_iff (distinctNames_of_lookup ndk.distinct hdirectory)]
      exact ⟨rest, mode, rfl, hscope, hrest⟩

/-! ## Where the comparison permits a rebuilt file -/

/-- The NDK below the SDK. -/
def ndkPath : Path := pathOf "ndk/30.0.16248370"

/-- The path is not empty. -/
theorem ndkPath_ne_nil : ndkPath ≠ [] := by decide +kernel

/-- The host directories of a scope as positions of the SDK. -/
def rootTexts (scope : Scope) : List Bytes :=
  (ndkHostRoots.filter fun root => root.2 = scope).map fun root => asPosix (ndkPath ++ root.1)

/-- The positions are those of the host directories. -/
theorem mem_rootTexts_iff (scope : Scope) (text : Bytes) : text ∈ rootTexts scope ↔
    ∃ root ∈ ndkHostRoots, root.2 = scope ∧ text = asPosix (ndkPath ++ root.1) := by
  simp only [rootTexts, List.mem_map, List.mem_filter, decide_eq_true_eq, and_assoc,
    eq_comm (a := text)]

/-- The prefixes of the comparison are the directories that are scanned at any depth. -/
theorem perm_prefixes : ndkHostElfContentPrefixes.Perm (rootTexts .recursive) := by
  decide +kernel

/-- The directories of the comparison are those that are scanned at depth one. -/
theorem perm_directories : ndkHostElfContentDirectories.Perm (rootTexts .shallow) := by
  decide +kernel

/-- The components of a path have no slash. -/
theorem sepFree_bytes (path : Path) : SepFree 47 (path.map Name.bytes) := by
  intro part hpart
  obtain ⟨name, -, rfl⟩ := List.mem_map.mp hpart
  exact name.no_slash

/-- The text of a path begins with a directory and a slash iff the path lies below it. -/
theorem asPosix_prefix_iff {above path : Path} (habove : above ≠ []) (hpath : path ≠ []) :
    asPosix above ++ [47] <+: asPosix path ↔ ∃ rest, rest ≠ [] ∧ path = above ++ rest := by
  unfold asPosix
  rw [prefix_intercalate_iff (sepFree_bytes above) (sepFree_bytes path)
    (mt List.map_eq_nil_iff.mp habove) (mt List.map_eq_nil_iff.mp hpath)]
  constructor
  · rintro ⟨rest, hne, hparts⟩
    obtain ⟨above', rest', rfl, habove', rfl⟩ := List.map_eq_append_iff.mp hparts
    have heq : above' = above := List.map_injective_iff.mpr (fun _ _ => Name.ext_bytes) habove'
    exact ⟨rest', fun hnil => hne (by rw [hnil]; rfl), by rw [heq]⟩
  · rintro ⟨rest, hne, rfl⟩
    exact ⟨rest.map Name.bytes, mt List.map_eq_nil_iff.mp hne, List.map_append⟩

/-- What stands before the last slash of a path is its directory. -/
theorem beforeLast_asPosix {directory : Path} (hne : directory ≠ []) (name : Name) :
    beforeLast 47 (asPosix (directory ++ [name])) = some (asPosix directory) := by
  unfold asPosix
  rw [List.map_append, List.map_singleton, intercalate_append (mt List.map_eq_nil_iff.mp hne)
    (List.cons_ne_nil _ _), List.intercalate_singleton, beforeLast_append name.no_slash]

/-- **The comparison permits a rebuilt file in the scope of a host directory.** -/
theorem isRebuiltNdkHostElfPath_iff {path : Path} (hne : path ≠ []) :
    isRebuiltNdkHostElfPath (asPosix (ndkPath ++ path)) = true
      ↔ ∃ root ∈ ndkHostRoots, InScope path root := by
  obtain ⟨directory, name, rfl⟩ := List.eq_nil_or_concat' path |>.resolve_left hne
  have hparent : beforeLast 47 (asPosix (ndkPath ++ (directory ++ [name])))
      = some (asPosix (ndkPath ++ directory)) := by
    rw [← List.append_assoc, beforeLast_asPosix (by simp [ndkPath_ne_nil])]
  have hbelow : ∀ root : Path, asPosix (ndkPath ++ root) ++ [47]
      <+: asPosix (ndkPath ++ (directory ++ [name]))
        ↔ ∃ rest, rest ≠ [] ∧ directory ++ [name] = root ++ rest := by
    intro root
    rw [asPosix_prefix_iff (by simp [ndkPath_ne_nil]) (by simp)]
    simp only [List.append_assoc, List.append_cancel_left_eq]
  unfold isRebuiltNdkHostElfPath
  rw [hparent, Bool.or_eq_true, List.any_eq_true]
  simp only [decide_eq_true_eq, perm_prefixes.mem_iff, perm_directories.mem_iff, mem_rootTexts_iff]
  constructor
  · rintro (⟨above, ⟨root, hroot, hscope, rfl⟩, hstarts⟩ | ⟨root, hroot, hscope, heq⟩)
    · obtain ⟨rest, hrest, hpath⟩ := (hbelow root.1).mp hstarts
      exact ⟨root, hroot, rest, hrest, hpath, fun hshallow => nomatch hscope.symm.trans hshallow⟩
    · have hdirectory := asPosix_inj (by simp [ndkPath_ne_nil]) (by simp [ndkPath_ne_nil]) heq
      rw [List.append_cancel_left_eq] at hdirectory
      exact ⟨root, hroot, [name], List.cons_ne_nil _ _, by rw [hdirectory], fun _ => le_rfl⟩
  · rintro ⟨root, hroot, rest, hrest, hpath, hscope⟩
    cases hkind : root.2 with
    | recursive =>
        have hstarts := (hbelow root.1).mpr ⟨rest, hrest, hpath⟩
        exact Or.inl ⟨_, ⟨root, hroot, hkind, rfl⟩, hstarts⟩
    | shallow =>
        obtain ⟨last, rfl⟩ : ∃ last, rest = [last] :=
          List.length_eq_one_iff.mp (le_antisymm (hscope hkind) (List.length_pos_iff.mpr hrest))
        have hdirectory := (List.append_inj' hpath rfl).1
        exact Or.inr ⟨root, hroot, hkind, by rw [hdirectory]⟩

/-- **The comparison permits a rebuilt file exactly where the scan visits it**: a regular file of
the NDK. -/
theorem rebuilt_iff_visited (ndk : Tree) {path : Path} {mode : ℕ} {content : Bytes}
    (h : lookup ndk.children path = some (.regular mode content)) :
    isRebuiltNdkHostElfPath (asPosix (ndkPath ++ path)) = true ↔ Visited ndk (path, content) := by
  have hne : path ≠ [] := by
    rintro rfl
    cases h
  rw [isRebuiltNdkHostElfPath_iff hne, visited_iff]
  exact ⟨fun hscope => ⟨⟨mode, h⟩, hscope⟩, fun hvisited => hvisited.2⟩

/-- The program of the small NDK. -/
theorem rebuilt_iff_visited_tool :
    isRebuiltNdkHostElfPath (asPosix (ndkPath ++ pathOf (ndkToolchain ++ "/bin/tool"))) = true
      ↔ Visited smallNdk (pathOf (ndkToolchain ++ "/bin/tool"), [1]) :=
  have hfile : lookup smallNdk.children (pathOf (ndkToolchain ++ "/bin/tool"))
      = some (.regular 0o755 [1]) := by rfl
  rebuilt_iff_visited smallNdk hfile

/-- **A rebuilt ELF file has been checked**: where the comparison permits a change and both passes
succeed, the needed libraries of the file passed the check against the registered SONAMEs. -/
theorem checkClosure_of_rebuilt {tools : Toolset} {ndk : Tree} {count : ℕ}
    (hpasses : passes tools ndk = .ok count) {path : Path} {mode : ℕ} {content : Bytes}
    (hfile : lookup ndk.children path = some (.regular mode content))
    (helf : isElf tools content = true)
    (hrebuilt : isRebuiltNdkHostElfPath (asPosix (ndkPath ++ path)) = true) :
    ∃ sonames, ndkHostRoots.foldlM (registerSonames tools ndk) ∅ = .ok sonames
      ∧ checkClosure tools sonames (path, content) = .ok () := by
  obtain ⟨sonames, hregister, hscan⟩ := bind_eq_ok_iff.mp hpasses
  have hne : path ≠ [] := by
    rintro rfl
    cases hfile
  have hscope := (isRebuiltNdkHostElfPath_iff hne).mp hrebuilt
  have hvisited := (visited_iff ndk path content).mpr ⟨⟨mode, hfile⟩, hscope⟩
  exact ⟨sonames, hregister, checkClosure_of_scan hscan ⟨helf, hvisited⟩⟩

/-- The program of the small NDK has been checked. -/
theorem checkClosure_of_rebuilt_tool :
    ∃ sonames, ndkHostRoots.foldlM
        (registerSonames (toolsShowing programSection librarySection) smallNdk) ∅ = .ok sonames
      ∧ checkClosure (toolsShowing programSection librarySection) sonames
        (pathOf (ndkToolchain ++ "/bin/tool"), [1]) = .ok () :=
  have hfile : lookup smallNdk.children (pathOf (ndkToolchain ++ "/bin/tool"))
      = some (.regular 0o755 [1]) := by rfl
  checkClosure_of_rebuilt (show passes _ smallNdk = .ok 2 by decide +kernel) hfile
    (by decide +kernel) (by decide +kernel)

end AndroidSdk.Scripts
