import AndroidSdk.FileTree.ReferenceLayout
import AndroidSdk.Lib.Components

/-! # Renaming the components of a reference path

`normalize_reference_name` works on the text of a path. This file says what it does to the
components, and when it renames a directory as it renames the paths in it.

* **`mapParts`** — the renaming on components; `mapNdkHostName_intercalate` is the agreement.
* **`RenamedApart`** — the directories whose own name becomes another one than in the paths below.
* **`parent_normalizeReferenceName_iff`** — all other directories are renamed as their contents. -/

namespace AndroidSdk.FileTree.ReferenceLayout

open Lib

/-! ## The names -/

/-- The host directories, each with the components above it, its name and its new name. -/
def hostDirectories : List (List Bytes × Bytes × Bytes) :=
  [(paths ["toolchains", "llvm", "prebuilt"], encodeUtf8 "linux-x86_64", encodeUtf8 "linux-aarch64"),
   (paths ["prebuilt"], encodeUtf8 "linux-x86_64", encodeUtf8 "linux-aarch64"),
   (paths ["shader-tools"], encodeUtf8 "linux-x86_64", encodeUtf8 "linux-aarch64"),
   (paths ["simpleperf", "bin", "linux"], encodeUtf8 "x86_64", encodeUtf8 "aarch64")]

/-- The toolchain directory of the candidate. -/
def toolchain : List Bytes := paths ["toolchains", "llvm", "prebuilt", "linux-aarch64"]

/-- The component before the name of a host's libraries. -/
def lib : Bytes := encodeUtf8 "lib"

/-- The directory of the libraries of the reference host. -/
def oldTriple : Bytes := encodeUtf8 "x86_64-unknown-linux-gnu"

/-- The directory of the libraries of the candidate's host. -/
def newTriple : Bytes := encodeUtf8 "aarch64-unknown-linux-gnu"

/-- The reference host in the names of Python's files. -/
def oldGnu : Bytes := encodeUtf8 "x86_64-linux-gnu"

/-- The candidate's host in the names of Python's files. -/
def newGnu : Bytes := encodeUtf8 "aarch64-linux-gnu"

/-- The components that make a path one of Python: `python3`, or `python3.11` in `lib`. -/
def NamesPython (parts : List Bytes) : Prop :=
  [encodeUtf8 "python3"] <:+: parts ∨ [lib, encodeUtf8 "python3.11"] <:+: parts

instance (parts : List Bytes) : Decidable (NamesPython parts) :=
  inferInstanceAs (Decidable (_ ∨ _))

/-! ## The renaming of components -/

/-- The first host directory that is the path or holds it is renamed. -/
def renameHostParts : List (List Bytes × Bytes × Bytes) → List Bytes → List Bytes
  | [], parts => parts
  | (above, source, target) :: table, parts =>
      if above ++ [source] <+: parts then above ++ target :: parts.drop (above.length + 1)
      else renameHostParts table parts

/-- The library directory of the host at the end of a path. -/
def renameLast (above : List Bytes) (last : Bytes) : Bytes :=
  if pairsAtEnd lib oldTriple (last :: above) ≠ 0 then newTriple else last

/-- The host in the names of Python's files. -/
def renameGnu (part : Bytes) : Bytes := replaceAll oldGnu newGnu part

/-- The renaming below the toolchain directory; `below` are the components up to the last one. -/
def renameBelow (below : List Bytes) (last : Bytes) : List Bytes :=
  let parts := renameOdd lib oldTriple newTriple [] below ++ [renameLast below.reverse last]
  if NamesPython below then parts.map renameGnu else parts

/-- `map_ndk_host_name` on the components of a path. -/
def mapParts (parts : List Bytes) : List Bytes :=
  let parts := renameHostParts hostDirectories parts
  match (parts.drop toolchain.length).getLast? with
  | some last =>
      if toolchain <+: parts then
        toolchain ++ renameBelow (parts.drop toolchain.length).dropLast last
      else parts
  | none => parts

/-- `normalize_reference_name` on the components of a path. -/
def normalizeParts : List Bytes → List Bytes
  | first :: version :: part :: parts =>
      if first = encodeUtf8 "ndk" then first :: version :: mapParts (part :: parts)
      else first :: version :: part :: parts
  | parts => parts

/-! ## Agreement with the renaming of texts -/

/-- The text of components. -/
abbrev text (parts : List Bytes) : Bytes := List.intercalate [47] parts

/-- The table of the script in components. -/
theorem ndkHostPrefixes_eq : ndkHostPrefixes = hostDirectories.map fun d =>
    (text (d.1 ++ [d.2.1]), text (d.1 ++ [d.2.2])) := by decide

/-- The components of the table hold no slash. -/
theorem sepFree_hostDirectories :
    ∀ d ∈ hostDirectories, SepFree 47 (d.1 ++ [d.2.1]) := by
  have hall : hostDirectories.all (fun d => (d.1 ++ [d.2.1]).all fun part => !part.elem 47) = true :=
    by decide
  intro d hd part hpart
  have h := List.all_eq_true.mp (List.all_eq_true.mp hall d hd) part hpart
  simpa using h

/-- Renaming the host directory of a path. -/
theorem renameHost_text {table : List (List Bytes × Bytes × Bytes)}
    (htable : ∀ d ∈ table, SepFree 47 (d.1 ++ [d.2.1])) {parts : List Bytes}
    (hparts : SepFree 47 parts) (hne : parts ≠ []) :
    renameHost (table.map fun d => (text (d.1 ++ [d.2.1]), text (d.1 ++ [d.2.2]))) (text parts)
      = text (renameHostParts table parts) := by
  induction table with
  | nil => rfl
  | cons d table ih =>
      obtain ⟨above, source, target⟩ := d
      have hsource := htable _ List.mem_cons_self
      have hmatch : text parts = text (above ++ [source])
          ∨ text (above ++ [source]) ++ [47] <+: text parts ↔ above ++ [source] <+: parts := by
        rw [intercalate_inj hparts hsource hne (by simp),
          prefix_intercalate_iff hsource hparts (by simp) hne]
        constructor
        · rintro (rfl | ⟨rest, -, rfl⟩)
          · exact List.prefix_rfl
          · exact List.prefix_append _ rest
        · rintro ⟨rest, rfl⟩
          by_cases hrest : rest = []
          · exact .inl (by rw [hrest, List.append_nil])
          · exact .inr ⟨rest, hrest, rfl⟩
      rw [List.map_cons, renameHost, renameHostParts]
      by_cases hstarts : above ++ [source] <+: parts
      · rw [if_pos (hmatch.mpr hstarts), if_pos hstarts]
        obtain ⟨rest, rfl⟩ := hstarts
        have hdrop : (above ++ [source] ++ rest).drop (above.length + 1) = rest :=
          List.drop_left' (by simp)
        rw [hdrop]
        by_cases hrest : rest = []
        · simp [hrest]
        · have hold : text (above ++ [source] ++ rest) = text (above ++ [source]) ++ 47 :: text rest :=
            intercalate_append (by simp) hrest
          have hnew : text (above ++ target :: rest) = text (above ++ [target]) ++ 47 :: text rest := by
            rw [← List.singleton_append, ← List.append_assoc]
            exact intercalate_append (by simp) hrest
          rw [hold, List.drop_left, hnew]
      · rw [if_neg (mt hmatch.mp hstarts), if_neg hstarts,
          ih fun d hd => htable d (List.mem_cons_of_mem _ hd)]

/-- The names of the toolchain directory hold no slash, and none of them is `lib`. -/
theorem toolchain_names : SepFree 47 toolchain ∧ ∀ part ∈ toolchain, part ≠ lib := by
  have hall : toolchain.all (fun part => !part.elem 47 && part != lib) = true := by decide
  refine ⟨fun part hpart => ?_, fun part hpart => ?_⟩
  all_goals
    have h := List.all_eq_true.mp hall part hpart
    rw [Bool.and_eq_true] at h
  · simpa using h.1
  · simpa using h.2

theorem toolchain_ne_nil : toolchain ≠ [] := by decide

/-- The names of the library directory hold no slash. -/
theorem sepFree_pair : SepFree 47 [lib, oldTriple] := by
  have hall : [lib, oldTriple].all (fun part => !part.elem 47) = true := by decide
  exact fun part hpart => by simpa using List.all_eq_true.mp hall part hpart

/-- The library directory at the end of a path below the toolchain. -/
theorem renameLast_text {below : List Bytes} {last : Bytes} (hbelow : SepFree 47 below)
    (hlast : 47 ∉ last) :
    (if encodeUtf8 "/lib/x86_64-unknown-linux-gnu" <:+ text (toolchain ++ below ++ [last]) then
      (text (toolchain ++ below ++ [last])).take ((text (toolchain ++ below ++ [last])).length
        - (encodeUtf8 "x86_64-unknown-linux-gnu").length) ++ encodeUtf8 "aarch64-unknown-linux-gnu"
    else text (toolchain ++ below ++ [last]))
      = text (toolchain ++ below ++ [renameLast below.reverse last]) := by
  have hpattern : encodeUtf8 "/lib/x86_64-unknown-linux-gnu" = 47 :: text [lib, oldTriple] := by
    decide
  -- the text is read back component by component
  have hfree : SepFree 47 (toolchain ++ below ++ [last]) := by
    simp [toolchain_names.1, hbelow, hlast]
  have hsuffix : 47 :: text [lib, oldTriple] <:+ text (toolchain ++ below ++ [last]) ↔
      ∃ before, before ≠ [] ∧ toolchain ++ below ++ [last] = before ++ [lib, oldTriple] :=
    suffix_intercalate_iff sepFree_pair hfree (by simp) (by simp)
  rw [hpattern]
  -- the pair stands at the end
  by_cases hpair : last = oldTriple ∧ ∃ before, below = before ++ [lib]
  · obtain ⟨rfl, before, rfl⟩ := hpair
    have hsplit : toolchain ++ (before ++ [lib]) ++ [oldTriple]
        = toolchain ++ before ++ [lib, oldTriple] := by simp
    have htext : ∀ last, text (toolchain ++ (before ++ [lib]) ++ [last])
        = text (toolchain ++ (before ++ [lib])) ++ [47] ++ last := by
      intro last
      rw [text, intercalate_append (by simp) (by simp), List.intercalate_singleton]
      simp
    have hlast : renameLast (before ++ [lib]).reverse oldTriple = newTriple := by
      rw [List.reverse_append, List.reverse_singleton, List.singleton_append, renameLast,
        pairsAtEnd_pair, if_pos (Nat.succ_ne_zero _)]
    rw [if_pos (hsuffix.mpr ⟨_, by simp [toolchain_ne_nil], hsplit⟩), hlast, htext, htext, List.length_append,
      show (encodeUtf8 "x86_64-unknown-linux-gnu").length = oldTriple.length from rfl,
      Nat.add_sub_cancel, List.take_left]
    rfl
  -- it does not, and a suffix of the text would be a suffix of the components
  · have hno : ¬ ∃ before, before ≠ [] ∧ toolchain ++ below ++ [last] = before ++ [lib, oldTriple] := by
      rintro ⟨before, -, h⟩
      rw [show before ++ [lib, oldTriple] = before ++ [lib] ++ [oldTriple] by simp] at h
      obtain ⟨habove, hlast⟩ := List.append_inj' h rfl
      rcases List.eq_nil_or_concat below with rfl | ⟨below, x, rfl⟩
      · refine toolchain_names.2 lib ?_ rfl
        rw [← List.append_nil toolchain, habove]
        simp
      · rw [List.concat_eq_append, ← List.append_assoc] at habove
        obtain ⟨-, hx⟩ := List.append_inj' habove rfl
        exact hpair ⟨List.singleton_inj.mp hlast, below, by simpa using hx⟩
    have hnone : renameLast below.reverse last = last := by
      unfold renameLast
      refine if_neg (not_not.mpr ?_)
      by_cases hlast : last = oldTriple
      · rcases List.eq_nil_or_concat below with rfl | ⟨below, x, rfl⟩
        · rfl
        · rw [List.concat_eq_append, List.reverse_append, List.reverse_singleton,
            List.singleton_append]
          refine pairsAtEnd_cons_cons_of_ne (fun hx => hpair ⟨hlast, below, ?_⟩) last below.reverse
          rw [List.concat_eq_append, hx]
      · exact pairsAtEnd_cons_of_ne hlast _
    rw [if_neg (mt hsuffix.mp hno), hnone]

/-- The pairs before the last component of a path below the toolchain. -/
theorem replacePairs_text {below : List Bytes} {last : Bytes} (hbelow : SepFree 47 below)
    (hlast : 47 ∉ last) :
    replaceAll (encodeUtf8 "/lib/x86_64-unknown-linux-gnu/")
      (encodeUtf8 "/lib/aarch64-unknown-linux-gnu/") (text (toolchain ++ below ++ [last]))
      = text (toolchain ++ (renameOdd lib oldTriple newTriple [] below ++ [last])) := by
  have hold : encodeUtf8 "/lib/x86_64-unknown-linux-gnu/"
      = 47 :: (lib ++ 47 :: (oldTriple ++ [47])) := by decide
  have hnew : encodeUtf8 "/lib/aarch64-unknown-linux-gnu/"
      = 47 :: (lib ++ 47 :: (newTriple ++ [47])) := by decide
  obtain ⟨hlibFree, holdFree, -⟩ := by simpa only [sepFree_cons] using sepFree_pair
  have hne : lib ≠ oldTriple := by decide
  have hpairs : replacePairs lib oldTriple newTriple (below ++ [last])
      = renameOdd lib oldTriple newTriple [] below ++ [last] := by
    rw [replacePairs_eq_renameRuns newTriple hne [] rfl fun _ => rfl, renameRuns_concat]
  obtain ⟨part, others, htoolchain⟩ := List.exists_cons_of_ne_nil toolchain_ne_nil
  have hfree := toolchain_names.1
  have hlib := toolchain_names.2
  rw [htoolchain] at hfree hlib ⊢
  rw [sepFree_cons] at hfree
  rw [hold, hnew, ← hpairs, List.append_assoc, List.cons_append, List.cons_append,
    replaceAll_pair newTriple hlibFree holdFree hfree.1 (by simp [hfree.2, hbelow, hlast]),
    replacePairs_append_of_notMem newTriple fun hmem => hlib lib (List.mem_cons_of_mem _ hmem) rfl]

/-- Whole components are found in a path below the toolchain, if they are there before the last
one. -/
theorem infix_text_iff {source : List Bytes} {x : Bytes} (hhead : source.head? = some x)
    (hx : x ∉ toolchain) (hsource : SepFree 47 source) {below : List Bytes} {last : Bytes}
    (hbelow : SepFree 47 below) (hlast : 47 ∉ last) :
    47 :: text source ++ [47] <:+: text (toolchain ++ (below ++ [last])) ↔ source <:+: below := by
  obtain ⟨rest, rfl⟩ := List.head?_eq_some_iff.mp hhead
  rw [infix_intercalate_iff hsource (by simp [toolchain_names.1, hbelow, hlast]) (by simp)
    (by simp)]
  constructor
  · rintro ⟨before, after, -, hafter, h⟩
    obtain ⟨after, z, rfl⟩ := (List.eq_nil_or_concat after).resolve_left hafter
    rw [List.concat_eq_append, ← List.append_assoc, ← List.append_assoc] at h
    rw [← infix_append_iff hx, (List.append_inj' h rfl).1]
    exact ⟨before, after, rfl⟩
  · rintro ⟨before, after, rfl⟩
    exact ⟨toolchain ++ before, after ++ [last], by simp [toolchain_ne_nil], by simp, by simp⟩

/-- The names that only the renaming of triples distinguishes. -/
def forgetTriple (part : Bytes) : Bytes := if part = newTriple then oldTriple else part

/-- Components without the new triple stay. -/
theorem map_forgetTriple {parts : List Bytes} (h : newTriple ∉ parts) :
    parts.map forgetTriple = parts := by
  have hsame : ∀ part ∈ parts, forgetTriple part = id part := by
    intro part hpart
    exact if_neg fun heq : part = newTriple => h (heq ▸ hpart)
  rw [List.map_congr_left hsame, List.map_id]

/-- Components other than the triples are found before the renaming as after it. -/
theorem infix_renameOdd_iff {source : List Bytes} (hsource : oldTriple ∉ source)
    (hsource' : newTriple ∉ source) (below : List Bytes) :
    source <:+: renameOdd lib oldTriple newTriple [] below ↔ source <:+: below := by
  -- they are found if and only if they are found where the triples are one
  have hforget : ∀ parts : List Bytes, source <:+: parts ↔ source <:+: parts.map forgetTriple := by
    intro parts
    constructor
    · intro h
      rw [← map_forgetTriple hsource']
      exact h.map forgetTriple
    · intro h
      obtain ⟨found, hfound, hsame⟩ := List.infix_map_iff.mp h
      have hnew : newTriple ∉ found := fun hmem => hsource (by
        rw [hsame]
        exact List.mem_map.mpr ⟨newTriple, hmem, if_pos rfl⟩)
      rw [hsame, map_forgetTriple hnew]
      exact hfound
  rw [hforget, map_renameOdd newTriple (by decide), ← hforget]

/-- The test for a path of Python looks at the components before the last one. -/
theorem namesPython_text {below : List Bytes} {last : Bytes} (hbelow : SepFree 47 below)
    (hlast : 47 ∉ last) :
    (encodeUtf8 "/python3/" <:+: text (toolchain ++ (below ++ [last]))
      ∨ encodeUtf8 "/lib/python3.11/" <:+: text (toolchain ++ (below ++ [last])))
      ↔ NamesPython below := by
  have hpython : encodeUtf8 "/python3/" = 47 :: text [encodeUtf8 "python3"] ++ [47] := by
    decide
  have hlibPython : encodeUtf8 "/lib/python3.11/"
      = 47 :: text [lib, encodeUtf8 "python3.11"] ++ [47] := by decide
  have hfree : ∀ source : List Bytes, source.all (fun part => !part.elem 47) = true →
      SepFree 47 source := fun source hall part hpart => by
    simpa using List.all_eq_true.mp hall part hpart
  rw [hpython, hlibPython, NamesPython,
    infix_text_iff rfl (by decide) (hfree _ (by decide)) hbelow hlast,
    infix_text_iff rfl (by decide) (hfree _ (by decide)) hbelow hlast]

/-- A path below the toolchain directory. -/
theorem mapParts_of_eq {parts below : List Bytes} {last : Bytes}
    (h : renameHostParts hostDirectories parts = toolchain ++ (below ++ [last])) :
    mapParts parts = toolchain ++ renameBelow below last := by
  have hstarts : toolchain <+: toolchain ++ (below ++ [last]) := List.prefix_append _ _
  simp only [mapParts, h, List.drop_left, List.getLast?_concat, List.dropLast_concat]
  rw [if_pos hstarts]

/-- A path that is not below the toolchain directory. -/
theorem mapParts_of_ne {parts : List Bytes}
    (h : ∀ below last, renameHostParts hostDirectories parts ≠ toolchain ++ (below ++ [last])) :
    mapParts parts = renameHostParts hostDirectories parts := by
  unfold mapParts
  dsimp only
  cases hlast : ((renameHostParts hostDirectories parts).drop toolchain.length).getLast? with
  | none => rfl
  | some last =>
      dsimp only
      refine if_neg fun hstarts => ?_
      obtain ⟨rest, hrest⟩ := hstarts
      rw [← hrest, List.drop_left] at hlast
      obtain ⟨below, rfl⟩ := List.getLast?_eq_some_iff.mp hlast
      exact h below last hrest.symm

/-- Renaming a host directory brings no slash into the components. -/
theorem sepFree_renameHostParts {table : List (List Bytes × Bytes × Bytes)}
    (htable : ∀ d ∈ table, SepFree 47 (d.1 ++ [d.2.2])) {parts : List Bytes}
    (hparts : SepFree 47 parts) : SepFree 47 (renameHostParts table parts) := by
  induction table with
  | nil => exact hparts
  | cons d table ih =>
      obtain ⟨above, source, target⟩ := d
      have htarget := sepFree_append.mp (htable _ List.mem_cons_self)
      rw [renameHostParts]
      split_ifs
      · refine sepFree_append.mpr ⟨htarget.1, sepFree_cons.mpr ⟨?_, ?_⟩⟩
        · exact (sepFree_cons.mp htarget.2).1
        · exact fun part hpart => hparts part (List.mem_of_mem_drop hpart)
      · exact ih fun d hd => htable d (List.mem_cons_of_mem _ hd)

/-- Renaming a host directory keeps the number of components. -/
@[simp] theorem length_renameHostParts (table : List (List Bytes × Bytes × Bytes))
    (parts : List Bytes) : (renameHostParts table parts).length = parts.length := by
  induction table with
  | nil => rfl
  | cons d table ih =>
      obtain ⟨above, source, target⟩ := d
      rw [renameHostParts]
      split_ifs with hstarts
      · have hlength : above.length + 1 ≤ parts.length := by simpa using hstarts.length_le
        rw [List.length_append, List.length_cons, List.length_drop]
        omega
      · exact ih

/-- The renaming below the toolchain directory keeps the number of components. -/
@[simp] theorem length_renameBelow (below : List Bytes) (last : Bytes) :
    (renameBelow below last).length = below.length + 1 := by
  unfold renameBelow
  dsimp only
  split_ifs <;> simp

/-- **The renaming keeps the number of components.** -/
@[simp] theorem length_mapParts (parts : List Bytes) : (mapParts parts).length = parts.length := by
  by_cases h : ∃ below last, renameHostParts hostDirectories parts = toolchain ++ (below ++ [last])
  · obtain ⟨below, last, heq⟩ := h
    rw [mapParts_of_eq heq, ← length_renameHostParts hostDirectories parts, heq]
    simp
  · rw [mapParts_of_ne fun below last heq => h ⟨below, last, heq⟩, length_renameHostParts]

/-- A renamed path has components. -/
theorem renameHostParts_ne_nil (table : List (List Bytes × Bytes × Bytes)) {parts : List Bytes}
    (hne : parts ≠ []) : renameHostParts table parts ≠ [] := by
  rwa [← List.length_pos_iff, length_renameHostParts, List.length_pos_iff]

/-- A mapped path has components. -/
theorem mapParts_ne_nil {parts : List Bytes} (hne : parts ≠ []) : mapParts parts ≠ [] := by
  rwa [← List.length_pos_iff, length_mapParts, List.length_pos_iff]

/-- The new names of the host directories hold no slash. -/
theorem sepFree_newHostDirectories : ∀ d ∈ hostDirectories, SepFree 47 (d.1 ++ [d.2.2]) := by
  have hall : hostDirectories.all (fun d => (d.1 ++ [d.2.2]).all fun part => !part.elem 47) = true :=
    by decide
  intro d hd part hpart
  simpa using List.all_eq_true.mp (List.all_eq_true.mp hall d hd) part hpart

/-- The new triple holds no slash. -/
theorem newTriple_no_slash : 47 ∉ newTriple := by
  have h : newTriple.elem 47 = false := by decide
  simpa using h

/-- The renaming of triples before the last component brings no slash. -/
theorem sepFree_renameOdd {below : List Bytes} (hbelow : SepFree 47 below) :
    SepFree 47 (renameOdd lib oldTriple newTriple [] below) := by
  intro part hpart
  rcases mem_of_mem_renameOdd newTriple hpart with hmem | rfl
  · exact hbelow part hmem
  · exact newTriple_no_slash

/-- The renaming of the last component brings no slash. -/
theorem renameLast_no_slash (above : List Bytes) {last : Bytes} (hlast : 47 ∉ last) :
    47 ∉ renameLast above last := by
  unfold renameLast
  split_ifs
  · exact newTriple_no_slash
  · exact hlast

/-- The renaming of triples keeps the paths of Python. -/
theorem namesPython_renameOdd (below : List Bytes) :
    NamesPython (renameOdd lib oldTriple newTriple [] below) ↔ NamesPython below := by
  rw [NamesPython, NamesPython, infix_renameOdd_iff (by decide) (by decide),
    infix_renameOdd_iff (by decide) (by decide)]

/-- **`map_ndk_host_name` renames the components of a path.** -/
theorem mapNdkHostName_text {parts : List Bytes} (hparts : SepFree 47 parts) (hne : parts ≠ []) :
    mapNdkHostName (text parts) = text (mapParts parts) := by
  have hhost := renameHost_text sepFree_hostDirectories hparts hne
  rw [← ndkHostPrefixes_eq] at hhost
  have hfree := sepFree_renameHostParts sepFree_newHostDirectories hparts
  have hbelow : encodeUtf8 "toolchains/llvm/prebuilt/linux-aarch64/"
      <+: text (renameHostParts hostDirectories parts) ↔
        ∃ below last, renameHostParts hostDirectories parts = toolchain ++ (below ++ [last]) := by
    rw [show encodeUtf8 "toolchains/llvm/prebuilt/linux-aarch64/" = text toolchain ++ [47] by
      decide, prefix_intercalate_iff toolchain_names.1 hfree toolchain_ne_nil
        (renameHostParts_ne_nil _ hne)]
    constructor
    · rintro ⟨rest, hrest, h⟩
      obtain ⟨below, last, rfl⟩ := (List.eq_nil_or_concat rest).resolve_left hrest
      exact ⟨below, last, by rw [h, List.concat_eq_append]⟩
    · rintro ⟨below, last, h⟩
      exact ⟨below ++ [last], by simp, h⟩
  unfold mapNdkHostName
  rw [hhost]
  by_cases h : ∃ below last, renameHostParts hostDirectories parts = toolchain ++ (below ++ [last])
  · obtain ⟨below, last, heq⟩ := h
    dsimp only
    rw [if_pos (hbelow.mpr ⟨below, last, heq⟩), mapParts_of_eq heq, heq, ← List.append_assoc]
    rw [heq] at hfree
    simp only [sepFree_append, sepFree_cons] at hfree
    obtain ⟨-, hbelowFree, hlastFree, -⟩ := hfree
    have hlast := renameLast_no_slash below.reverse hlastFree
    have hpython := (namesPython_text (sepFree_renameOdd hbelowFree) hlast).trans
      (namesPython_renameOdd below)
    rw [renameLast_text hbelowFree hlastFree, replacePairs_text hbelowFree hlast, renameBelow]
    by_cases hnames : NamesPython below
    · have hgnu : toolchain.map (replaceAll oldGnu newGnu) = toolchain := by decide
      rw [if_pos (hpython.mpr hnames), if_pos hnames]
      change replaceAll oldGnu newGnu (text _) = _
      rw [text, replaceAll_intercalate newGnu (by decide) (by decide),
        List.map_append, hgnu]
      rfl
    · rw [if_neg (mt hpython.mp hnames), if_neg hnames]
  · rw [if_neg (mt hbelow.mp h), mapParts_of_ne fun below last heq => h ⟨below, last, heq⟩]

/-- **`normalize_reference_name` renames the components of a path.** -/
theorem normalizeReferenceName_text {parts : List Bytes} (hparts : SepFree 47 parts) :
    normalizeReferenceName (text parts) = text (normalizeParts parts) := by
  match parts, hparts with
  | [], _ => rfl
  | [first], hparts =>
      rw [text, List.intercalate_singleton, normalizeReferenceName,
        splitAtMost_of_notMem (sepFree_cons.mp hparts).1]
      simp [normalizeParts]
  | [first, version], hparts =>
      simp only [sepFree_cons] at hparts
      have htext : text [first, version] = first ++ 47 :: version := by simp
      rw [htext, normalizeReferenceName, splitAtMost_append hparts.1,
        splitAtMost_of_notMem hparts.2.1]
      simp [normalizeParts]
  | first :: version :: part :: parts, hparts =>
      simp only [sepFree_cons] at hparts
      have htext : ∀ {rest : List Bytes}, rest ≠ [] →
          text (first :: version :: rest) = first ++ 47 :: (version ++ 47 :: text rest) := by
        intro rest hrest
        rw [text, List.intercalate_cons_of_ne_nil (by simp),
          List.intercalate_cons_of_ne_nil hrest]
        simp
      rw [htext (by simp), normalizeReferenceName, splitAtMost_append hparts.1,
        splitAtMost_append hparts.2.1, splitAtMost]
      dsimp only
      rw [normalizeParts]
      split_ifs with hndk
      · rw [mapNdkHostName_text (by simpa using hparts.2.2) (by simp),
          htext (mapParts_ne_nil (by simp)), List.append_assoc, List.cons_append]
      · rw [htext (by simp)]

/-! ## A directory and its contents -/

/-- A path without host directory at its beginning stays. -/
theorem renameHostParts_of_none {table : List (List Bytes × Bytes × Bytes)} {parts : List Bytes}
    (h : ∀ d ∈ table, ¬ d.1 ++ [d.2.1] <+: parts) : renameHostParts table parts = parts := by
  induction table with
  | nil => rfl
  | cons d table ih =>
      obtain ⟨above, source, target⟩ := d
      rw [renameHostParts, if_neg (h _ List.mem_cons_self),
        ih fun d hd => h d (List.mem_cons_of_mem _ hd)]

/-- A longer path is renamed in its last component at most, where no host directory lies above one
that comes before it in the table. -/
theorem renameHostParts_concat {table : List (List Bytes × Bytes × Bytes)}
    (htable : table.Pairwise fun d e => ¬ e.1 ++ [e.2.1] <+: d.1) (parts : List Bytes)
    (part : Bytes) :
    ∃ part', renameHostParts table (parts ++ [part]) = renameHostParts table parts ++ [part'] := by
  induction table with
  | nil => exact ⟨part, rfl⟩
  | cons d table ih =>
      obtain ⟨above, source, target⟩ := d
      obtain ⟨hhead, htail⟩ := List.pairwise_cons.mp htable
      rw [renameHostParts, renameHostParts]
      by_cases hparts : above ++ [source] <+: parts
      · have hlength : above.length + 1 ≤ parts.length := by simpa using hparts.length_le
        refine ⟨part, ?_⟩
        rw [if_pos (hparts.trans (List.prefix_append parts [part])), if_pos hparts,
          List.drop_append_of_le_length hlength, List.append_assoc, List.cons_append]
      · by_cases hall : above ++ [source] <+: parts ++ [part]
        · -- the path is the host directory itself
          have heq : above ++ [source] = parts ++ [part] :=
            (List.prefix_concat_iff.mp hall).resolve_right hparts
          obtain ⟨rfl, -⟩ := List.append_inj' heq rfl
          refine ⟨target, ?_⟩
          rw [if_pos hall, if_neg hparts, renameHostParts_of_none hhead,
            List.drop_of_length_le (by simp)]
        · rw [if_neg hall, if_neg hparts]
          exact ih htail

/-- The host directories of the script lie beside each other. -/
theorem pairwise_hostDirectories :
    hostDirectories.Pairwise fun d e => ¬ e.1 ++ [e.2.1] <+: d.1 := by decide

/-- The library directory of the host inside a path. -/
def renameInside (above : List Bytes) (part : Bytes) : Bytes :=
  if pairsAtEnd lib oldTriple (part :: above) % 2 = 1 then newTriple else part

/-- Directories that end with an even number of host library directories in a row: the rule for the
end of a path renames the last of them, the rule for its inside does not. -/
def EvenRow (below : List Bytes) : Prop :=
  pairsAtEnd lib oldTriple below.reverse ≠ 0 ∧ pairsAtEnd lib oldTriple below.reverse % 2 = 0

/-- The directories of Python whose own path does not count as one of Python, with the host in the
name of one of their components. -/
def LatePython (below : List Bytes) : Prop :=
  NamesPython below ∧ ¬ NamesPython below.dropLast ∧ ∃ part ∈ below, oldGnu <:+: part

/-- A component changes if and only if it has the host in its name. -/
theorem renameGnu_eq_self_iff {part : Bytes} : renameGnu part = part ↔ ¬ oldGnu <:+: part :=
  replaceAll_eq_self_iff newGnu (by decide) (by decide)

/-- Where no pair ends, the name stays in either place. -/
theorem renamed_of_pairsAtEnd_eq_zero {above : List Bytes} {part : Bytes}
    (h : pairsAtEnd lib oldTriple (part :: above) = 0) :
    renameInside above part = part ∧ renameLast above part = part := by
  unfold renameInside renameLast
  rw [h]
  exact ⟨rfl, rfl⟩

/-- Where a pair ends, the name is the host's triple. -/
theorem eq_oldTriple {above : List Bytes} {part : Bytes}
    (h : pairsAtEnd lib oldTriple (part :: above) ≠ 0) : part = oldTriple :=
  Decidable.byContradiction fun hne => h (pairsAtEnd_cons_of_ne hne above)

/-- The two rules differ on an even number of pairs in a row. -/
theorem renameInside_eq_renameLast_iff {above : List Bytes} {part : Bytes} :
    renameInside above part = renameLast above part ↔
      ¬ (pairsAtEnd lib oldTriple (part :: above) ≠ 0
        ∧ pairsAtEnd lib oldTriple (part :: above) % 2 = 0) := by
  by_cases hzero : pairsAtEnd lib oldTriple (part :: above) = 0
  · obtain ⟨hinside, hlast⟩ := renamed_of_pairsAtEnd_eq_zero hzero
    simp [hinside, hlast, hzero]
  · have hne : oldTriple ≠ newTriple := by decide
    obtain rfl := eq_oldTriple hzero
    unfold renameInside renameLast
    rw [if_pos hzero, and_iff_right hzero]
    by_cases hodd : pairsAtEnd lib oldTriple (oldTriple :: above) % 2 = 1
    · simp [hodd]
    · simp [hodd, hne]

/-- A directory whose own path counts as one of Python counts so in the paths below. -/
theorem namesPython_append {below : List Bytes} (h : NamesPython below) (rest : List Bytes) :
    NamesPython (below ++ rest) :=
  h.imp (fun hpython => hpython.trans (List.prefix_append below rest).isInfix)
    fun hlib => hlib.trans (List.prefix_append below rest).isInfix

/-- The renaming of triples keeps the names with Python's host. -/
theorem exists_infix_renameOdd_iff {below : List Bytes} :
    (∃ part ∈ renameOdd lib oldTriple newTriple [] below, oldGnu <:+: part)
      ↔ ∃ part ∈ below, oldGnu <:+: part := by
  have hmap : (renameOdd lib oldTriple newTriple [] below).map (fun part => decide (oldGnu <:+: part))
      = below.map fun part => decide (oldGnu <:+: part) := map_renameOdd newTriple (by decide) [] below
  have hmem : ∀ parts : List Bytes, (∃ part ∈ parts, oldGnu <:+: part) ↔
      true ∈ parts.map fun part => decide (oldGnu <:+: part) := by simp
  rw [hmem, hmap, ← hmem]

/-- Components below the toolchain directory inside of two paths: renamed alike, unless one of the
paths is one of Python and some component has its host in the name. -/
theorem map_renameOdd_eq_iff (below : List Bytes) (p q : Prop) [Decidable p] [Decidable q] :
    (renameOdd lib oldTriple newTriple [] below).map (if p then renameGnu else id)
      = (renameOdd lib oldTriple newTriple [] below).map (if q then renameGnu else id) ↔
    (p ↔ q) ∨ ¬ ∃ part ∈ below, oldGnu <:+: part := by
  have hgnu : (renameOdd lib oldTriple newTriple [] below).map renameGnu
      = (renameOdd lib oldTriple newTriple [] below).map id ↔
        ¬ ∃ part ∈ below, oldGnu <:+: part := by
    rw [List.map_inj_left, ← exists_infix_renameOdd_iff, not_exists]
    refine forall_congr' fun part => ?_
    rw [not_and, id_eq, renameGnu_eq_self_iff]
  by_cases hp : p
  · by_cases hq : q
    · simp [hp, hq]
    · rw [if_pos hp, if_neg hq, hgnu, or_iff_right fun h => hq (h.mp hp)]
  · by_cases hq : q
    · rw [if_neg hp, if_pos hq, eq_comm, hgnu, or_iff_right fun h => hp (h.mpr hq)]
    · simp [hp, hq]

/-- Components below the toolchain directory at the end of one path and inside of another one. -/
theorem map_renameLast_eq_iff (below : List Bytes) (last : Bytes) (p q : Prop) [Decidable p]
    [Decidable q] :
    (renameOdd lib oldTriple newTriple [] below ++ [renameLast below.reverse last]).map
        (if p then renameGnu else id)
      = (renameOdd lib oldTriple newTriple [] (below ++ [last])).map (if q then renameGnu else id) ↔
    ¬ EvenRow (below ++ [last]) ∧ ((p ↔ q) ∨ ¬ ∃ part ∈ below ++ [last], oldGnu <:+: part) := by
  have hconcat : renameOdd lib oldTriple newTriple [] (below ++ [last])
      = renameOdd lib oldTriple newTriple [] below ++ [renameInside below.reverse last] := by
    rw [renameOdd_append, List.append_nil]
    rfl
  have hrow : renameInside below.reverse last = renameLast below.reverse last ↔
      ¬ EvenRow (below ++ [last]) := by
    rw [renameInside_eq_renameLast_iff, EvenRow, List.reverse_append, List.reverse_singleton,
      List.singleton_append]
  by_cases heven : EvenRow (below ++ [last])
  · refine iff_of_false (fun h => ?_) fun h => h.1 heven
    -- the two names of the last component stay apart, since Python's host is in neither of them
    have hold : ∀ (r : Prop) [Decidable r], (if r then renameGnu else id) oldTriple = oldTriple :=
      fun r _ => by split_ifs <;> decide
    have hnew : ∀ (r : Prop) [Decidable r], (if r then renameGnu else id) newTriple = newTriple :=
      fun r _ => by split_ifs <;> decide
    rw [EvenRow, List.reverse_append, List.reverse_singleton, List.singleton_append] at heven
    obtain rfl := eq_oldTriple heven.1
    rw [hconcat, List.map_append, List.map_append] at h
    have hlast := List.singleton_inj.mp (List.append_inj' h rfl).2
    have hnameLast : renameLast below.reverse oldTriple = newTriple := if_pos heven.1
    have hnameInside : renameInside below.reverse oldTriple = oldTriple := if_neg (by omega)
    rw [hnameLast, hnameInside, hold, hnew] at hlast
    revert hlast
    decide
  · rw [← hrow.mpr heven, ← hconcat, map_renameOdd_eq_iff, and_iff_right heven]

/-- The renaming below the toolchain directory, with the condition for Python's host apart. -/
theorem renameBelow_eq_map (below : List Bytes) (last : Bytes) : renameBelow below last
    = (renameOdd lib oldTriple newTriple [] below ++ [renameLast below.reverse last]).map
      (if NamesPython below then renameGnu else id) := by
  unfold renameBelow
  by_cases hnames : NamesPython below <;> simp [hnames]

/-- The components of a renamed path before its last one. -/
theorem dropLast_renameBelow (below : List Bytes) (last : Bytes) : (renameBelow below last).dropLast
    = (renameOdd lib oldTriple newTriple [] below).map
      (if NamesPython below then renameGnu else id) := by
  rw [renameBelow_eq_map, List.map_append, List.map_singleton, List.dropLast_concat]

/-- The renaming of a directory below the toolchain and of a path in it. -/
theorem dropLast_renameBelow_iff (below : List Bytes) (last part : Bytes) :
    (renameBelow (below ++ [last]) part).dropLast = renameBelow below last ↔
      ¬ (EvenRow (below ++ [last]) ∨ LatePython (below ++ [last])) := by
  have hwhole := fun h : NamesPython below => namesPython_append h [last]
  rw [dropLast_renameBelow, renameBelow_eq_map, eq_comm, map_renameLast_eq_iff, LatePython,
    List.dropLast_concat]
  generalize (∃ part ∈ below ++ [last], oldGnu <:+: part) = named
  tauto

/-- The paths that are below the toolchain directory after the renaming: it has the name of either
host before. -/
theorem renameHostParts_eq_toolchain_iff {parts below : List Bytes} :
    renameHostParts hostDirectories parts = toolchain ++ below ↔
      ∃ host, (host = encodeUtf8 "linux-x86_64" ∨ host = encodeUtf8 "linux-aarch64")
        ∧ parts = paths ["toolchains", "llvm", "prebuilt"] ++ host :: below := by
  have hprebuilt : encodeUtf8 "prebuilt" ≠ encodeUtf8 "toolchains" := by decide
  have hshader : encodeUtf8 "shader-tools" ≠ encodeUtf8 "toolchains" := by decide
  have hsimpleperf : encodeUtf8 "simpleperf" ≠ encodeUtf8 "toolchains" := by decide
  simp only [hostDirectories, renameHostParts, toolchain]
  split_ifs with hfirst hsecond hthird hfourth
  · obtain ⟨rest, rfl⟩ := hfirst
    simp [paths]
  · obtain ⟨rest, rfl⟩ := hsecond
    simp [paths, hprebuilt]
  · obtain ⟨rest, rfl⟩ := hthird
    simp [paths, hshader]
  · obtain ⟨rest, rfl⟩ := hfourth
    simp [paths, hsimpleperf]
  · constructor
    · rintro rfl
      exact ⟨encodeUtf8 "linux-aarch64", .inr rfl, rfl⟩
    · rintro ⟨host, rfl | rfl, rfl⟩
      · exact absurd (by simp [paths]) hfirst
      · rfl

/-- A directory whose own name becomes another one than in the paths of its contents, by its
components below an NDK version. -/
def PartsApart (parts : List Bytes) : Prop :=
  ∃ below, renameHostParts hostDirectories parts = toolchain ++ below
    ∧ (EvenRow below ∨ LatePython below)

/-- The renaming of a directory below an NDK version and of a path in it. -/
theorem dropLast_mapParts_iff (parts : List Bytes) (part : Bytes) :
    (mapParts (parts ++ [part])).dropLast = mapParts parts ↔ ¬ PartsApart parts := by
  obtain ⟨part', hconcat⟩ := renameHostParts_concat pairwise_hostDirectories parts part
  by_cases h : toolchain <+: renameHostParts hostDirectories parts
  · obtain ⟨below, hbelow⟩ := h
    have hapart : PartsApart parts ↔ EvenRow below ∨ LatePython below := by
      refine ⟨?_, fun hcase => ⟨below, hbelow.symm, hcase⟩⟩
      rintro ⟨below', heq, hcase⟩
      rw [← hbelow, List.append_right_inj] at heq
      exact heq ▸ hcase
    have hpath : mapParts (parts ++ [part]) = toolchain ++ renameBelow below part' :=
      mapParts_of_eq (by rw [hconcat, ← hbelow, List.append_assoc])
    have hne : ∀ below last, renameBelow below last ≠ [] := fun below last =>
      List.length_pos_iff.mp (by simp)
    rw [hapart, hpath, List.dropLast_append_of_ne_nil (hne below part')]
    rcases List.eq_nil_or_concat below with rfl | ⟨below, last, rfl⟩
    · -- the toolchain directory itself
      have hown : mapParts parts = toolchain := by
        rw [mapParts_of_ne, ← hbelow, List.append_nil]
        intro below last heq
        rw [← hbelow, List.append_right_inj] at heq
        simp at heq
      have hshort : (renameBelow [] part').dropLast = [] := by
        obtain ⟨last, hlast⟩ := List.length_eq_one_iff.mp (length_renameBelow [] part')
        rw [hlast, List.dropLast_singleton]
      have hnone : ¬ (EvenRow [] ∨ LatePython []) := by simp [EvenRow, LatePython, pairsAtEnd]
      simp [hown, hshort, hnone]
    · rw [List.concat_eq_append] at hbelow ⊢
      rw [mapParts_of_eq hbelow.symm, List.append_right_inj]
      exact dropLast_renameBelow_iff below last part'
  · have hnot : ∀ {rest : List Bytes}, renameHostParts hostDirectories parts ≠ toolchain ++ rest :=
      fun heq => h ⟨_, heq.symm⟩
    have hapart : ¬ PartsApart parts := by
      rintro ⟨below, heq, -⟩
      exact hnot heq
    have hpath : mapParts (parts ++ [part]) = renameHostParts hostDirectories parts ++ [part'] := by
      rw [mapParts_of_ne, hconcat]
      intro below last heq
      rw [hconcat, ← List.append_assoc] at heq
      exact hnot (List.append_inj' heq rfl).1
    rw [hpath, List.dropLast_concat, mapParts_of_ne fun below last heq => hnot heq]
    exact iff_of_true rfl hapart

/-- A directory whose own name becomes another one than in the paths of its contents: below the
toolchain directory of either host, with an even number of host library directories in a row at its
end, or the first directory of Python below one that has the host in its name. -/
def RenamedApart (directory : Path) : Prop :=
  ∃ version host below, directory.map Name.bytes
      = paths ["ndk"] ++ version :: paths ["toolchains", "llvm", "prebuilt"] ++ host :: below
    ∧ (host = encodeUtf8 "linux-x86_64" ∨ host = encodeUtf8 "linux-aarch64")
    ∧ (EvenRow below ∨ LatePython below)

/-- The components of a path. -/
theorem sepFree_names (path : Path) : SepFree 47 (path.map Name.bytes) := by
  intro part hpart
  obtain ⟨name, -, rfl⟩ := List.mem_map.mp hpart
  exact name.no_slash

/-- The parent directory of a path, in components. -/
theorem beforeLast_text {parts : List Bytes} {part : Bytes} (hpart : 47 ∉ part) (hne : parts ≠ []) :
    beforeLast 47 (text (parts ++ [part])) = some (text parts) := by
  rw [text, intercalate_append hne (by simp), List.intercalate_singleton, beforeLast_append hpart]

/-- Renaming Python's host brings no slash. -/
theorem renameGnu_no_slash {part : Bytes} (h : 47 ∉ part) : 47 ∉ renameGnu part := by
  intro hmem
  have hnew : 47 ∉ newGnu := by decide
  exact (mem_of_mem_replaceAfter newGnu hmem).elim h hnew

/-- Mapped components hold no slash. -/
theorem sepFree_mapParts {parts : List Bytes} (hparts : SepFree 47 parts) :
    SepFree 47 (mapParts parts) := by
  have hfree := sepFree_renameHostParts sepFree_newHostDirectories hparts
  by_cases h : ∃ below last, renameHostParts hostDirectories parts = toolchain ++ (below ++ [last])
  · obtain ⟨below, last, heq⟩ := h
    rw [heq] at hfree
    simp only [sepFree_append, sepFree_cons] at hfree
    obtain ⟨-, hbelow, hlast, -⟩ := hfree
    have hinner : SepFree 47 (renameOdd lib oldTriple newTriple [] below
        ++ [renameLast below.reverse last]) := by
      simp [sepFree_renameOdd hbelow, renameLast_no_slash _ hlast]
    rw [mapParts_of_eq heq, sepFree_append]
    refine ⟨toolchain_names.1, ?_⟩
    unfold renameBelow
    dsimp only
    split_ifs
    · intro part hpart
      obtain ⟨part', hpart', rfl⟩ := List.mem_map.mp hpart
      exact renameGnu_no_slash (hinner part' hpart')
    · exact hinner
  · rw [mapParts_of_ne fun below last heq => h ⟨below, last, heq⟩]
    exact hfree

/-- No path above the NDK versions is renamed. -/
theorem normalizeParts_of_ne {parts : List Bytes}
    (h : ∀ version rest, parts ≠ encodeUtf8 "ndk" :: version :: rest) :
    normalizeParts parts = parts := by
  match parts, h with
  | [], _ => rfl
  | [first], _ => rfl
  | [first, version], _ => rfl
  | first :: version :: part :: parts, h =>
      rw [normalizeParts, if_neg fun hndk => h version (part :: parts) (by rw [hndk])]

/-- The directory of an NDK version and the paths below it. -/
theorem normalizeParts_ndk (version : Bytes) (parts : List Bytes) :
    normalizeParts (encodeUtf8 "ndk" :: version :: parts)
      = encodeUtf8 "ndk" :: version :: mapParts parts := by
  cases parts with
  | nil => rfl
  | cons part parts => rw [normalizeParts, if_pos rfl]

/-- Normalised components hold no slash. -/
theorem sepFree_normalizeParts {parts : List Bytes} (hparts : SepFree 47 parts) :
    SepFree 47 (normalizeParts parts) := by
  by_cases h : ∃ version rest, parts = encodeUtf8 "ndk" :: version :: rest
  · obtain ⟨version, rest, rfl⟩ := h
    simp only [sepFree_cons] at hparts
    rw [normalizeParts_ndk, sepFree_cons, sepFree_cons]
    exact ⟨hparts.1, hparts.2.1, sepFree_mapParts hparts.2.2⟩
  · rwa [normalizeParts_of_ne fun version rest heq => h ⟨version, rest, heq⟩]

/-- Normalising keeps the number of components. -/
@[simp] theorem length_normalizeParts (parts : List Bytes) :
    (normalizeParts parts).length = parts.length := by
  by_cases h : ∃ version rest, parts = encodeUtf8 "ndk" :: version :: rest
  · obtain ⟨version, rest, rfl⟩ := h
    simp [normalizeParts_ndk]
  · rw [normalizeParts_of_ne fun version rest heq => h ⟨version, rest, heq⟩]

/-- The renaming of a directory and of a path in it. -/
theorem dropLast_normalizeParts_iff {parts : List Bytes} (hne : parts ≠ []) (part : Bytes) :
    (normalizeParts (parts ++ [part])).dropLast = normalizeParts parts ↔
      ¬ ∃ version rest, parts = encodeUtf8 "ndk" :: version :: rest ∧ PartsApart rest := by
  by_cases h : ∃ version rest, parts = encodeUtf8 "ndk" :: version :: rest
  · obtain ⟨version, rest, rfl⟩ := h
    rw [List.cons_append, List.cons_append, normalizeParts_ndk, normalizeParts_ndk,
      List.dropLast_cons_of_ne_nil (by simp),
      List.dropLast_cons_of_ne_nil (mapParts_ne_nil (by simp))]
    simp [dropLast_mapParts_iff]
  · -- a shorter path becomes one below an NDK version only if the version is added
    have hpath : (normalizeParts (parts ++ [part])).dropLast = parts := by
      by_cases hndk : ∃ version rest, parts ++ [part] = encodeUtf8 "ndk" :: version :: rest
      · obtain ⟨version, rest, heq⟩ := hndk
        rcases List.eq_nil_or_concat rest with rfl | ⟨rest, last, rfl⟩
        · have hlast : (parts ++ [part]).dropLast = parts := List.dropLast_concat
          rw [heq, normalizeParts_ndk, ← hlast, heq]
          rfl
        · rw [List.concat_eq_append, ← List.cons_append, ← List.cons_append] at heq
          exact absurd ⟨version, rest, (List.append_inj' heq rfl).1⟩ h
      · rw [normalizeParts_of_ne fun version rest heq => hndk ⟨version, rest, heq⟩,
          List.dropLast_concat]
    rw [hpath, normalizeParts_of_ne fun version rest heq => h ⟨version, rest, heq⟩]
    exact iff_of_true rfl fun ⟨version, rest, heq, _⟩ => h ⟨version, rest, heq⟩

/-- `RenamedApart` by the components below the NDK version. -/
theorem renamedApart_iff {directory : Path} : RenamedApart directory ↔ ∃ version rest,
    directory.map Name.bytes = encodeUtf8 "ndk" :: version :: rest ∧ PartsApart rest := by
  simp only [RenamedApart, PartsApart, renameHostParts_eq_toolchain_iff]
  constructor
  · rintro ⟨version, host, below, heq, hhost, hcase⟩
    exact ⟨version, _, heq, below, ⟨host, hhost, rfl⟩, hcase⟩
  · rintro ⟨version, rest, heq, below, ⟨host, hhost, rfl⟩, hcase⟩
    exact ⟨version, host, below, heq, hhost, hcase⟩

/-- **A directory is renamed as its contents are**, unless it is one of `RenamedApart`: the parent
of the renamed path is the renamed parent. -/
theorem parent_normalizeReferenceName_iff {directory : Path} (hne : directory ≠ []) (name : Name) :
    beforeLast 47 (normalizeReferenceName (asPosix (directory ++ [name])))
        = some (normalizeReferenceName (asPosix directory)) ↔ ¬ RenamedApart directory := by
  have hparts := sepFree_names directory
  have hpath := sepFree_names (directory ++ [name])
  have hne' : directory.map Name.bytes ≠ [] := by simpa using hne
  unfold asPosix
  rw [normalizeReferenceName_text hparts, normalizeReferenceName_text hpath, renamedApart_iff,
    ← dropLast_normalizeParts_iff hne' name.bytes, ← List.map_singleton, ← List.map_append]
  have hfree := sepFree_normalizeParts hparts
  have hfree' := sepFree_normalizeParts hpath
  have hlength := length_normalizeParts ((directory ++ [name]).map Name.bytes)
  have hnonempty : normalizeParts (directory.map Name.bytes) ≠ [] :=
    List.length_pos_iff.mp (by rw [length_normalizeParts]; exact List.length_pos_iff.mpr hne')
  obtain ⟨init, last, h⟩ := (List.eq_nil_or_concat (normalizeParts _)).resolve_left
    (List.length_pos_iff.mp (by rw [hlength]; simp))
  rw [h, List.concat_eq_append] at hfree' hlength ⊢
  have hinit : init ≠ [] := by
    rintro rfl
    simp at hlength
    exact hne hlength
  obtain ⟨hinitFree, hlastFree⟩ := sepFree_append.mp hfree'
  rw [List.dropLast_concat, beforeLast_text (sepFree_cons.mp hlastFree).1 hinit, Option.some_inj,
    intercalate_inj hinitFree hfree hinit hnonempty]

/-- A directory of host libraries, with its whole path. -/
theorem parent_normalizeReferenceName_hostLibraries :
    beforeLast 47 (normalizeReferenceName (asPosix
      (pathOf "ndk/30/toolchains/llvm/prebuilt/linux-x86_64/lib/x86_64-unknown-linux-gnu"
        ++ [nameOf "libc++.so" rfl])))
      = some (normalizeReferenceName (asPosix
        (pathOf "ndk/30/toolchains/llvm/prebuilt/linux-x86_64/lib/x86_64-unknown-linux-gnu"))) ↔
    ¬ RenamedApart
      (pathOf "ndk/30/toolchains/llvm/prebuilt/linux-x86_64/lib/x86_64-unknown-linux-gnu") :=
  parent_normalizeReferenceName_iff (by decide) (nameOf "libc++.so" rfl)

/-- Two host library directories in a row: the second one becomes another name as a directory than
in the path of a file in it. -/
theorem not_parent_normalizeReferenceName :
    ¬ ∀ (directory : Path) (name : Name), directory ≠ [] →
      beforeLast 47 (normalizeReferenceName (asPosix (directory ++ [name])))
        = some (normalizeReferenceName (asPosix directory)) := by
  intro h
  have hparent := h (pathOf ("ndk/30/toolchains/llvm/prebuilt/linux-x86_64/"
    ++ "lib/x86_64-unknown-linux-gnu/lib/x86_64-unknown-linux-gnu")) (nameOf "a" rfl)
  revert hparent
  decide +kernel

end AndroidSdk.FileTree.ReferenceLayout
