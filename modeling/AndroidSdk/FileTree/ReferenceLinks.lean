import Mathlib.Tactic.NthRewrite
import AndroidSdk.FileTree.ReferenceNames

/-! # Renaming the targets of reference links

`normalize_reference_link` replaces the names of the reference host wherever they stand in the text
of a link target, while `normalize_reference_name` renames components by their place in a path. This
file compares the two where a target is followed from the directory of its link.

* **`nameRule`** — the rule by which a component of a path is renamed, by its place.
* **`follow`**, **`resolveLink`** — the path that a relative target stands for.
* **`resolveLink_normalized_iff`** — when the renamed target leads to the renamed path. -/

namespace AndroidSdk.FileTree.ReferenceLayout

open Lib

/-! ## The rules by places -/

/-- How the name of a component is changed. -/
inductive NameRule where
  /-- The name of a host directory, with its new name. -/
  | host (target : Bytes)
  /-- The directory of the host's libraries. -/
  | triple
  /-- A component of a path of Python. -/
  | python
  /-- Any other component. -/
  | none

/-- The new name of a component. -/
def NameRule.apply : NameRule → Bytes → Bytes
  | .host target, _ => target
  | .triple, _ => newTriple
  | .python, part => renameGnu part
  | .none, part => part

/-- The rule for a component below the toolchain directory: the last component of a path is renamed
behind `lib`, another one if it ends an odd number of such pairs in a row. -/
def ruleInside (inner : List Bytes) (j : ℕ) : NameRule :=
  let pairs := pairsAtEnd lib oldTriple (inner.take (j + 1)).reverse
  if pairs ≠ 0 ∧ (j + 1 = inner.length ∨ pairs % 2 = 1) then .triple
  else if NamesPython inner.dropLast then .python
  else .none

/-- The rule for a component of a path below an NDK version. -/
def ruleBelow (parts : List Bytes) (j : ℕ) : NameRule :=
  match hostDirectories.find? fun d => d.1 ++ [d.2.1] = parts.take (j + 1) with
  | some d => .host d.2.2
  | none =>
      if toolchain <+: renameHostParts hostDirectories parts ∧ toolchain.length ≤ j then
        ruleInside (parts.drop toolchain.length) (j - toolchain.length)
      else .none

/-- The rule for a component of a path. -/
def nameRule : List Bytes → ℕ → NameRule
  | first :: _ :: parts, j + 2 => if first = encodeUtf8 "ndk" then ruleBelow parts j else .none
  | _, _ => .none

/-- No host directory of the script lies in another one. -/
theorem pairwise_incomparable : hostDirectories.Pairwise fun d e =>
    ¬ d.1 ++ [d.2.1] <+: e.1 ++ [e.2.1] ∧ ¬ e.1 ++ [e.2.1] <+: d.1 ++ [d.2.1] := by decide

/-- The components of a path with a renamed host directory. -/
theorem getElem?_renameHostParts {table : List (List Bytes × Bytes × Bytes)}
    (htable : table.Pairwise fun d e =>
      ¬ d.1 ++ [d.2.1] <+: e.1 ++ [e.2.1] ∧ ¬ e.1 ++ [e.2.1] <+: d.1 ++ [d.2.1])
    {parts : List Bytes} {j : ℕ} (hj : j < parts.length) :
    (renameHostParts table parts)[j]? =
      match table.find? fun d => d.1 ++ [d.2.1] = parts.take (j + 1) with
      | some d => some d.2.2
      | none => parts[j]? := by
  induction table with
  | nil => rfl
  | cons d table ih =>
      obtain ⟨above, source, target⟩ := d
      obtain ⟨hhead, htail⟩ := List.pairwise_cons.mp htable
      rw [renameHostParts]
      by_cases hstarts : above ++ [source] <+: parts
      · rw [if_pos hstarts]
        have hlength : above.length + 1 ≤ parts.length := by simpa using hstarts.length_le
        by_cases hmatch : above ++ [source] = parts.take (j + 1)
        · rw [List.find?_cons_of_pos (by simpa using hmatch)]
          have hj' := congrArg List.length hmatch
          rw [List.length_append, List.length_singleton, List.length_take] at hj'
          rw [List.getElem?_append_right (by omega), show j - above.length = 0 by omega]
          rfl
        · -- no other host directory stands in a path that starts with this one
          have hnone : table.find? (fun d => d.1 ++ [d.2.1] = parts.take (j + 1)) = none := by
            refine List.find?_eq_none.mpr fun e he heq => ?_
            have hother : e.1 ++ [e.2.1] <+: parts := by
              rw [of_decide_eq_true heq]
              exact List.take_prefix _ _
            rcases List.prefix_or_prefix_of_prefix hstarts hother with h | h
            · exact (hhead e he).1 h
            · exact (hhead e he).2 h
          rw [List.find?_cons_of_neg (by simpa using hmatch), hnone]
          rcases Nat.lt_trichotomy j above.length with hlt | heq | hgt
          · rw [List.getElem?_append_left hlt]
            obtain ⟨rest, rfl⟩ := hstarts
            rw [List.getElem?_append_left (by simp; omega), List.getElem?_append_left hlt]
          · refine absurd ?_ hmatch
            obtain ⟨rest, rfl⟩ := hstarts
            rw [heq, List.take_left' (by simp)]
          · rw [List.getElem?_append_right hgt.le]
            obtain ⟨n, rfl⟩ := Nat.exists_eq_add_of_lt hgt
            rw [show above.length + n + 1 - above.length = n + 1 by omega, List.getElem?_cons_succ,
              List.getElem?_drop]
            congr 1
            omega
      · have hmatch : ¬ above ++ [source] = parts.take (j + 1) := fun heq =>
          hstarts (heq ▸ List.take_prefix _ _)
        rw [if_neg hstarts, List.find?_cons_of_neg (by simpa using hmatch)]
        exact ih htail

/-- The components of a renamed path below the toolchain directory. -/
theorem getElem?_renameBelow (below : List Bytes) (last : Bytes) (j : ℕ) :
    (renameBelow below last)[j]? = (below ++ [last])[j]?.map (ruleInside (below ++ [last]) j).apply := by
  -- without the renaming of Python's host
  have hplain : (renameOdd lib oldTriple newTriple [] below ++ [renameLast below.reverse last])[j]?
      = (below ++ [last])[j]?.map fun part =>
        if pairsAtEnd lib oldTriple ((below ++ [last]).take (j + 1)).reverse ≠ 0
          ∧ (j + 1 = (below ++ [last]).length
            ∨ pairsAtEnd lib oldTriple ((below ++ [last]).take (j + 1)).reverse % 2 = 1) then newTriple
        else part := by
    rcases Nat.lt_trichotomy j below.length with hlt | rfl | hgt
    · have htake : (below ++ [last]).take (j + 1) = below.take j ++ [below[j]] := by
        rw [List.take_append_of_le_length (Nat.succ_le_of_lt hlt), List.take_succ_eq_append_getElem hlt]
      have hodd : ∀ n : ℕ, n ≠ 0 ∧ (j + 1 = (below ++ [last]).length ∨ n % 2 = 1) ↔ n % 2 = 1 := by
        intro n
        rw [List.length_append, List.length_singleton]
        omega
      simp only [hodd]
      rw [List.getElem?_append_left (by simpa using hlt), getElem?_renameOdd,
        List.getElem?_append_left hlt, List.getElem?_eq_getElem hlt, htake, List.reverse_append,
        List.append_nil]
      rfl
    · have htake : (below ++ [last]).take (below.length + 1) = below ++ [last] :=
        List.take_of_length_le (by simp)
      rw [List.getElem?_append_right (by simp), List.getElem?_append_right le_rfl, htake]
      simp [renameLast]
    · rw [List.getElem?_eq_none (by simp; omega), List.getElem?_eq_none (by simp; omega)]
      rfl
  have hgnu : renameGnu newTriple = newTriple := by decide
  unfold renameBelow ruleInside
  dsimp only
  rw [List.dropLast_concat]
  by_cases hnames : NamesPython below
  · rw [if_pos hnames, if_pos hnames, List.getElem?_map, hplain, Option.map_map]
    congr 1
    funext part
    rw [Function.comp_apply]
    split_ifs with htriple
    · exact hgnu
    · rfl
  · rw [if_neg hnames, if_neg hnames, hplain]
    congr 1
    funext part
    split_ifs <;> rfl

/-- No host directory has more components than the toolchain directory. -/
theorem length_hostDirectory {d : List Bytes × Bytes × Bytes} (hd : d ∈ hostDirectories) :
    (d.1 ++ [d.2.1]).length ≤ toolchain.length := by
  have hall : hostDirectories.all (fun d => (d.1 ++ [d.2.1]).length ≤ toolchain.length) = true := by
    decide
  simpa using List.all_eq_true.mp hall d hd

/-- A component outside the toolchain directory keeps its name or is the name of a host
directory. -/
theorem getElem?_renameHostParts_rule {parts : List Bytes} {j : ℕ} (hj : j < parts.length)
    (h : ¬ (toolchain <+: renameHostParts hostDirectories parts ∧ toolchain.length ≤ j)) :
    (renameHostParts hostDirectories parts)[j]? = parts[j]?.map (ruleBelow parts j).apply := by
  rw [getElem?_renameHostParts pairwise_incomparable hj, ruleBelow, List.getElem?_eq_getElem hj]
  cases hostDirectories.find? fun d => d.1 ++ [d.2.1] = parts.take (j + 1) with
  | some d => rfl
  | none => simp only [if_neg h]; rfl

/-- **The components of a mapped path** are renamed by their rules. -/
theorem getElem?_mapParts {parts : List Bytes} {j : ℕ} (hj : j < parts.length) :
    (mapParts parts)[j]? = parts[j]?.map (ruleBelow parts j).apply := by
  by_cases h : ∃ below last, renameHostParts hostDirectories parts = toolchain ++ (below ++ [last])
  · obtain ⟨below, last, heq⟩ := h
    rw [mapParts_of_eq heq]
    by_cases hplace : j < toolchain.length
    · rw [← getElem?_renameHostParts_rule hj fun hboth => hboth.2.not_gt hplace, heq,
        List.getElem?_append_left hplace, List.getElem?_append_left hplace]
    · obtain ⟨host, -, hparts⟩ := renameHostParts_eq_toolchain_iff.mp heq
      have hdrop : parts.drop toolchain.length = below ++ [last] := by rw [hparts]; rfl
      have hnone : hostDirectories.find? (fun d => d.1 ++ [d.2.1] = parts.take (j + 1)) = none := by
        refine List.find?_eq_none.mpr fun d hd hmatch => hplace ?_
        have hlength := length_hostDirectory hd
        rw [of_decide_eq_true hmatch, List.length_take] at hlength
        omega
      have hpart : parts[j]? = (below ++ [last])[j - toolchain.length]? := by
        rw [← hdrop, List.getElem?_drop, Nat.add_sub_cancel' (not_lt.mp hplace)]
      rw [List.getElem?_append_right (not_lt.mp hplace), getElem?_renameBelow, hpart, ruleBelow,
        hnone, hdrop, heq]
      simp only [if_pos (And.intro (List.prefix_append toolchain (below ++ [last]))
        (not_lt.mp hplace))]
  · rw [mapParts_of_ne fun below last heq => h ⟨below, last, heq⟩]
    refine getElem?_renameHostParts_rule hj fun ⟨⟨rest, hrest⟩, hplace⟩ => ?_
    have hlength := congrArg List.length hrest
    rw [List.length_append, length_renameHostParts] at hlength
    have hne : rest ≠ [] := List.length_pos_iff.mp (by omega)
    obtain ⟨below, last, rfl⟩ := (List.eq_nil_or_concat rest).resolve_left hne
    exact h ⟨below, last, by rw [← hrest, List.concat_eq_append]⟩

/-- **The components of a normalised path** are renamed by their rules. -/
theorem getElem?_normalizeParts (parts : List Bytes) (i : ℕ) :
    (normalizeParts parts)[i]? = parts[i]?.map (nameRule parts i).apply := by
  have hsame : ∀ l : List Bytes, l[i]? = l[i]?.map NameRule.none.apply := fun l => by
    change l[i]? = l[i]?.map id
    rw [Option.map_id, id_eq]
  by_cases h : ∃ version rest, parts = encodeUtf8 "ndk" :: version :: rest
  · obtain ⟨version, rest, rfl⟩ := h
    rw [normalizeParts_ndk]
    match i with
    | 0 => rfl
    | 1 => rfl
    | j + 2 =>
        rw [List.getElem?_cons_succ, List.getElem?_cons_succ, List.getElem?_cons_succ,
          List.getElem?_cons_succ, nameRule, if_pos rfl]
        by_cases hj : j < rest.length
        · exact getElem?_mapParts hj
        · rw [List.getElem?_eq_none (by simpa using hj), List.getElem?_eq_none (by simpa using hj)]
          rfl
  · have hrule : nameRule parts i = .none := by
      match parts, i, h with
      | [], _, _ => rfl
      | [_], _, _ => rfl
      | _ :: _ :: _, 0, _ => rfl
      | _ :: _ :: _, 1, _ => rfl
      | first :: version :: rest, j + 2, h =>
          rw [nameRule, if_neg fun hndk => h ⟨version, rest, by rw [hndk]⟩]
    rw [normalizeParts_of_ne fun version rest heq => h ⟨version, rest, heq⟩, hrule]
    exact hsame parts

/-! ## The replacement in the text of a target -/

/-- The name of the reference host's directories. -/
def oldHost : Bytes := encodeUtf8 "linux-x86_64"

/-- The name of the candidate host's directories. -/
def newHost : Bytes := encodeUtf8 "linux-aarch64"

/-- The replacements one after the other. -/
theorem normalizeReferenceLink_eq (value : Bytes) : normalizeReferenceLink value
    = replaceAll oldGnu newGnu (replaceAll oldTriple newTriple (replaceAll oldHost newHost value)) :=
  rfl

/-- A replacement of a target works on each of its components. -/
theorem normalizeReferenceLink_text (parts : List Bytes) :
    normalizeReferenceLink (text parts) = text (parts.map normalizeReferenceLink) := by
  have hfun : parts.map normalizeReferenceLink = ((parts.map (replaceAll oldHost newHost)).map
      (replaceAll oldTriple newTriple)).map (replaceAll oldGnu newGnu) := by
    rw [List.map_map, List.map_map]
    rfl
  rw [normalizeReferenceLink_eq, hfun, text,
    replaceAll_intercalate newHost (by decide) (by decide),
    replaceAll_intercalate newTriple (by decide) (by decide),
    replaceAll_intercalate newGnu (by decide) (by decide)]

/-- The replacement makes no component shorter. -/
theorem length_le_length_normalizeReferenceLink (part : Bytes) :
    part.length ≤ (normalizeReferenceLink part).length :=
  (length_le_length_replaceAfter newHost (by decide) (by decide) 0 part).trans <|
    (length_le_length_replaceAfter newTriple (by decide) (by decide) 0 _).trans
      (length_le_length_replaceAfter newGnu (by decide) (by decide) 0 _)

/-- A component stays if and only if it has none of the three names of the reference host. -/
theorem normalizeReferenceLink_eq_self_iff {part : Bytes} : normalizeReferenceLink part = part ↔
    ¬ oldHost <:+: part ∧ ¬ oldTriple <:+: part ∧ ¬ oldGnu <:+: part := by
  constructor
  · intro h
    -- a replacement with an effect would make the component longer, and none makes it shorter
    have hlength := congrArg List.length h
    rw [normalizeReferenceLink_eq] at hlength
    have hhost : ¬ oldHost <:+: part := by
      intro hinfix
      have h1 := length_lt_length_replaceAll newHost (by decide) (by decide) hinfix
      have h2 := (length_le_length_replaceAfter newTriple (by decide) (by decide) 0 _ :
        _ ≤ (replaceAfter oldTriple newTriple 0 (replaceAll oldHost newHost part)).length + 0)
      have h3 := (length_le_length_replaceAfter newGnu (by decide) (by decide) 0 _ :
        _ ≤ (replaceAfter oldGnu newGnu 0
          (replaceAll oldTriple newTriple (replaceAll oldHost newHost part))).length + 0)
      simp only [replaceAll] at *
      omega
    rw [replaceAll_of_not_contained newHost hhost] at hlength
    have htriple : ¬ oldTriple <:+: part := by
      intro hinfix
      have h2 := length_lt_length_replaceAll newTriple (by decide) (by decide) hinfix
      have h3 := (length_le_length_replaceAfter newGnu (by decide) (by decide) 0 _ :
        _ ≤ (replaceAfter oldGnu newGnu 0 (replaceAll oldTriple newTriple part)).length + 0)
      simp only [replaceAll] at *
      omega
    rw [replaceAll_of_not_contained newTriple htriple] at hlength
    refine ⟨hhost, htriple, fun hinfix => ?_⟩
    have h3 := length_lt_length_replaceAll newGnu (by decide) (by decide) hinfix
    omega
  · rintro ⟨hhost, htriple, hgnu⟩
    rw [normalizeReferenceLink_eq, replaceAll_of_not_contained newHost hhost,
      replaceAll_of_not_contained newTriple htriple, replaceAll_of_not_contained newGnu hgnu]

/-- A short component is not the replacement of another one. -/
theorem normalizeReferenceLink_eq_short_iff {part short : Bytes} (h : short.length ≤ 2) :
    normalizeReferenceLink part = short ↔ part = short := by
  have hstays : ∀ {part : Bytes}, part.length ≤ 2 → normalizeReferenceLink part = part := by
    intro part hpart
    have hlong : ∀ {old : Bytes}, 2 < old.length → ¬ old <:+: part := fun hold hinfix =>
      absurd hinfix.length_le (by omega)
    exact normalizeReferenceLink_eq_self_iff.mpr
      ⟨hlong (by decide), hlong (by decide), hlong (by decide)⟩
  constructor
  · rintro rfl
    exact (hstays ((length_le_length_normalizeReferenceLink part).trans h)).symm
  · rintro rfl
    exact hstays h

/-- The replacement brings no slash. -/
theorem normalizeReferenceLink_no_slash {part : Bytes} (h : 47 ∉ part) :
    47 ∉ normalizeReferenceLink part := by
  have hhost : 47 ∉ newHost := by decide
  have hgnu : 47 ∉ newGnu := by decide
  intro hmem
  rcases mem_of_mem_replaceAfter newGnu hmem with hmem | hmem
  · rcases mem_of_mem_replaceAfter newTriple hmem with hmem | hmem
    · rcases mem_of_mem_replaceAfter newHost hmem with hmem | hmem
      · exact h hmem
      · exact hhost hmem
    · exact newTriple_no_slash hmem
  · exact hgnu hmem

/-! ## Rules and replacement -/

/-- The rule for a component does what the replacement in the text of a target does. -/
def SameAsLink : NameRule → Bytes → Prop
  | .host _, part => part = oldHost
  | .triple, _ => True
  | .python, part => renameGnu part = normalizeReferenceLink part
  | .none, part => ¬ oldHost <:+: part ∧ ¬ oldTriple <:+: part ∧ ¬ oldGnu <:+: part

/-- The component that a rule for triples is about. -/
theorem eq_oldTriple_of_ruleInside {inner : List Bytes} {j : ℕ} {part : Bytes}
    (hpart : inner[j]? = some part) (h : ruleInside inner j = .triple) : part = oldTriple := by
  obtain ⟨hj, rfl⟩ := List.getElem?_eq_some_iff.mp hpart
  unfold ruleInside at h
  dsimp only at h
  rw [List.take_succ_eq_append_getElem hj, List.reverse_append, List.reverse_singleton,
    List.singleton_append] at h
  split_ifs at h with hpairs
  exact eq_oldTriple hpairs.1

/-- The component that a rule for host directories is about. -/
theorem exists_hostDirectory_of_find? {parts : List Bytes} {j : ℕ} {part : Bytes}
    {d : List Bytes × Bytes × Bytes} (hpart : parts[j]? = some part)
    (h : hostDirectories.find? (fun d => d.1 ++ [d.2.1] = parts.take (j + 1)) = some d) :
    d ∈ hostDirectories ∧ d.2.1 = part := by
  obtain ⟨hj, rfl⟩ := List.getElem?_eq_some_iff.mp hpart
  have hmatch : d.1 ++ [d.2.1] = parts.take (j + 1) := by simpa using List.find?_some h
  rw [List.take_succ_eq_append_getElem hj] at hmatch
  exact ⟨List.mem_of_find?_eq_some h, List.singleton_inj.mp (List.append_inj' hmatch rfl).2⟩

/-- The replacement in a target renames one of the host directories' names as the table does. -/
theorem normalizeReferenceLink_host_iff {d : List Bytes × Bytes × Bytes} (hd : d ∈ hostDirectories) :
    d.2.2 = normalizeReferenceLink d.2.1 ↔ d.2.1 = oldHost := by
  have hall : hostDirectories.all (fun d =>
      decide (d.2.2 = normalizeReferenceLink d.2.1) == decide (d.2.1 = oldHost)) = true := by decide
  simpa using List.all_eq_true.mp hall d hd

/-- **A component is renamed by its rule as in the text of a target** if and only if the rule is one
that agrees with the replacement. -/
theorem apply_nameRule_eq_iff {parts : List Bytes} {i : ℕ} {part : Bytes}
    (hpart : parts[i]? = some part) :
    (nameRule parts i).apply part = normalizeReferenceLink part ↔
      SameAsLink (nameRule parts i) part := by
  have hnone : NameRule.none.apply part = normalizeReferenceLink part ↔ SameAsLink .none part := by
    rw [eq_comm]
    exact normalizeReferenceLink_eq_self_iff
  have hinside : ∀ {inner : List Bytes} {j : ℕ}, inner[j]? = some part →
      ((ruleInside inner j).apply part = normalizeReferenceLink part ↔
        SameAsLink (ruleInside inner j) part) := by
    intro inner j hinner
    cases hrule : ruleInside inner j with
    | host target =>
        unfold ruleInside at hrule
        dsimp only at hrule
        split_ifs at hrule
    | triple =>
        obtain rfl := eq_oldTriple_of_ruleInside hinner hrule
        exact iff_of_true (by decide) trivial
    | python => exact Iff.rfl
    | none => exact hnone
  rcases parts with _ | ⟨first, _ | ⟨version, rest⟩⟩
  · exact hnone
  · exact hnone
  rcases i with _ | _ | j
  · exact hnone
  · exact hnone
  rw [List.getElem?_cons_succ, List.getElem?_cons_succ] at hpart
  rw [nameRule]
  split_ifs
  · unfold ruleBelow
    -- a rule for a host directory, or one for the place of the component
    cases hfind : hostDirectories.find? fun d => d.1 ++ [d.2.1] = rest.take (j + 1) with
    | some d =>
        obtain ⟨hd, rfl⟩ := exists_hostDirectory_of_find? hpart hfind
        exact normalizeReferenceLink_host_iff hd
    | none =>
        dsimp only
        split_ifs with hplace
        · refine hinside ?_
          rw [List.getElem?_drop, Nat.add_sub_cancel' hplace.2, hpart]
        · exact hnone
  · exact hnone

/-! ## Following a target -/

/-- Follow the components of a relative target from a directory: empty ones and `.` stay there, `..`
goes to the parent, which the root of the tree does not have. -/
def follow : List Bytes → List Bytes → Option (List Bytes)
  | directory, [] => some directory
  | directory, part :: parts =>
      if part = [] ∨ part = [46] then follow directory parts
      else if part = [46, 46] then
        if directory = [] then none else follow directory.dropLast parts
      else follow (directory ++ [part]) parts

/-- The path that a relative target stands for, followed lexically from the directory of its
link. -/
def resolveLink (link target : Bytes) : Option Bytes := do
  let directory ← beforeLast 47 link
  let parts ← follow (directory.splitOn 47) (target.splitOn 47)
  return text parts

/-- How far a target goes up, and the components it then spells. -/
def spell : ℕ → List Bytes → List Bytes → ℕ × List Bytes
  | up, spelled, [] => (up, spelled)
  | up, spelled, part :: parts =>
      if part = [] ∨ part = [46] then spell up spelled parts
      else if part = [46, 46] then
        if spelled = [] then spell (up + 1) [] parts else spell up spelled.dropLast parts
      else spell up (spelled ++ [part]) parts

/-- A target goes up at least as far as at its beginning. -/
theorem le_spell (up : ℕ) (spelled parts : List Bytes) : up ≤ (spell up spelled parts).1 := by
  induction parts generalizing up spelled with
  | nil => exact le_rfl
  | cons part parts ih =>
      rw [spell]
      split_ifs
      · exact ih up spelled
      · exact (Nat.le_succ up).trans (ih (up + 1) [])
      · exact ih up spelled.dropLast
      · exact ih up (spelled ++ [part])

/-- **Following a target** keeps the beginning of the directory and adds what the target spells. -/
theorem follow_eq (directory : List Bytes) {up : ℕ} (hup : up ≤ directory.length)
    (spelled parts : List Bytes) :
    follow (directory.take (directory.length - up) ++ spelled) parts
      = if (spell up spelled parts).1 ≤ directory.length then
          some (directory.take (directory.length - (spell up spelled parts).1)
            ++ (spell up spelled parts).2)
        else none := by
  induction parts generalizing up spelled with
  | nil => rw [follow, spell, if_pos hup]
  | cons part parts ih =>
      rw [follow, spell]
      by_cases hstay : part = [] ∨ part = [46]
      · rw [if_pos hstay, if_pos hstay, ih hup spelled]
      · rw [if_neg hstay, if_neg hstay]
        by_cases hparent : part = [46, 46]
        · rw [if_pos hparent, if_pos hparent]
          by_cases hspelled : spelled = []
          · subst hspelled
            rw [List.append_nil, if_pos rfl]
            by_cases hroot : directory.length - up = 0
            · have hfar := le_spell (up + 1) [] parts
              rw [if_pos (by rw [hroot, List.take_zero]), if_neg (by omega)]
            · have hne : directory.take (directory.length - up) ≠ [] := by
                rw [← List.length_pos_iff, List.length_take]
                omega
              have hup' : up + 1 ≤ directory.length := by omega
              have hparentTake : (directory.take (directory.length - up)).dropLast
                  = directory.take (directory.length - (up + 1)) := by
                rw [List.dropLast_eq_take, List.length_take, List.take_take]
                congr 1
                omega
              rw [if_neg hne, hparentTake, ← ih hup' [], List.append_nil]
          · rw [if_neg (by simp [hspelled]), if_neg hspelled,
              List.dropLast_append_of_ne_nil hspelled, ih hup spelled.dropLast]
        · rw [if_neg hparent, if_neg hparent, List.append_assoc, ih hup (spelled ++ [part])]

/-- Renaming the components of a target changes nothing of where it leads. -/
theorem spell_map_normalizeReferenceLink (up : ℕ) (spelled parts : List Bytes) :
    spell up (spelled.map normalizeReferenceLink) (parts.map normalizeReferenceLink)
      = ((spell up spelled parts).1, (spell up spelled parts).2.map normalizeReferenceLink) := by
  induction parts generalizing up spelled with
  | nil => rfl
  | cons part parts ih =>
      have hshort : ∀ short : Bytes, short.length ≤ 2 →
          (normalizeReferenceLink part = short ↔ part = short) := fun short =>
        normalizeReferenceLink_eq_short_iff
      have hnil := hshort [] (by simp)
      have hdot := hshort [46] (by simp)
      have hdots := hshort [46, 46] (by simp)
      rw [List.map_cons, spell, spell]
      simp only [hnil, hdot, hdots, List.map_eq_nil_iff]
      split_ifs
      · exact ih up spelled
      · exact ih (up + 1) []
      · rw [← List.map_dropLast, ih up spelled.dropLast]
      · rw [← ih up (spelled ++ [part]), List.map_append, List.map_singleton]

/-! ## The kept beginning of the directory -/

/-- The components that a link's path shares with the path of its target are renamed alike in both:
below the toolchain directory they must not end the target's path with an even number of host library
directories, and must not hold Python's host if only one of the paths is one of Python. -/
def KeptAlike (kept rest spelled : List Bytes) : Prop :=
  ∀ version host inner, kept
      = paths ["ndk"] ++ version :: paths ["toolchains", "llvm", "prebuilt"] ++ host :: inner →
    (host = encodeUtf8 "linux-x86_64" ∨ host = encodeUtf8 "linux-aarch64") →
    ¬ (spelled = [] ∧ EvenRow inner)
      ∧ ((NamesPython (inner ++ spelled).dropLast ↔ NamesPython (inner ++ rest).dropLast)
        ∨ ¬ ∃ part ∈ inner, oldGnu <:+: part)

/-- The components that a target spells are renamed in the path it leads to as in its own text. -/
def SpelledAlike (kept spelled : List Bytes) : Prop :=
  ∀ i part, spelled[i]? = some part → SameAsLink (nameRule (kept ++ spelled) (kept.length + i)) part

/-- Away from the toolchain directory the rule for a component depends on those up to it. -/
theorem ruleBelow_append {parts : List Bytes}
    (h : ∀ host inner, (host = encodeUtf8 "linux-x86_64" ∨ host = encodeUtf8 "linux-aarch64") →
      parts ≠ paths ["toolchains", "llvm", "prebuilt"] ++ host :: inner) {j : ℕ}
    (hj : j < parts.length) (rest rest' : List Bytes) :
    ruleBelow (parts ++ rest) j = ruleBelow (parts ++ rest') j := by
  have hnot : ∀ rest, ¬ (toolchain <+: renameHostParts hostDirectories (parts ++ rest)
      ∧ toolchain.length ≤ j) := by
    rintro rest ⟨⟨inner, hinner⟩, hplace⟩
    obtain ⟨host, hhost, heq⟩ := renameHostParts_eq_toolchain_iff.mp hinner.symm
    have htake := congrArg (List.take parts.length) heq
    have hlength : parts.length = (paths ["toolchains", "llvm", "prebuilt"]).length
        + (parts.length - toolchain.length + 1) := by
      have htoolchain : toolchain.length = (paths ["toolchains", "llvm", "prebuilt"]).length + 1 :=
        rfl
      omega
    rw [List.take_left, hlength, List.take_append, List.take_of_length_le (by omega),
      Nat.add_sub_cancel_left, List.take_succ_cons] at htake
    exact h host _ hhost htake
  have htake : ∀ rest, (parts ++ rest).take (j + 1) = parts.take (j + 1) := fun rest =>
    List.take_append_of_le_length hj
  unfold ruleBelow
  rw [htake, htake]
  simp only [if_neg (hnot rest), if_neg (hnot rest')]

/-- The first components of a renamed path below the toolchain directory, which goes on. -/
theorem take_renameBelow (inner others : List Bytes) (last : Bytes) :
    (renameBelow (inner ++ others) last).take inner.length
      = (renameOdd lib oldTriple newTriple [] inner).map
        (if NamesPython (inner ++ others) then renameGnu else id) := by
  rw [renameBelow_eq_map, ← List.map_take, renameOdd_append, List.append_assoc,
    List.take_left' (length_renameOdd newTriple [] inner)]

/-- The first components of a path that goes through the toolchain directory. -/
theorem take_mapParts_toolchain {host : Bytes}
    (hhost : host = encodeUtf8 "linux-x86_64" ∨ host = encodeUtf8 "linux-aarch64")
    {below : List Bytes} {last : Bytes} (n : ℕ) :
    (mapParts (paths ["toolchains", "llvm", "prebuilt"] ++ host :: (below ++ [last]))).take
        (toolchain.length + n) = toolchain ++ (renameBelow below last).take n := by
  rw [mapParts_of_eq (renameHostParts_eq_toolchain_iff.mpr ⟨host, hhost, rfl⟩), List.take_append,
    List.take_of_length_le (Nat.le_add_right _ _), Nat.add_sub_cancel_left]

/-- **The components that two paths share** are renamed alike in both if and only if they satisfy
`KeptAlike`. -/
theorem take_normalizeParts_iff {kept rest spelled : List Bytes} (hrest : rest ≠ []) :
    (normalizeParts (kept ++ rest)).take kept.length
      = (normalizeParts (kept ++ spelled)).take kept.length ↔ KeptAlike kept rest spelled := by
  by_cases h : ∃ version host inner, kept
      = paths ["ndk"] ++ version :: paths ["toolchains", "llvm", "prebuilt"] ++ host :: inner
    ∧ (host = encodeUtf8 "linux-x86_64" ∨ host = encodeUtf8 "linux-aarch64")
  · obtain ⟨version, host, inner, rfl, hhost⟩ := h
    have halike : KeptAlike (paths ["ndk"] ++ version :: paths ["toolchains", "llvm", "prebuilt"]
          ++ host :: inner) rest spelled ↔ ¬ (spelled = [] ∧ EvenRow inner)
        ∧ ((NamesPython (inner ++ spelled).dropLast ↔ NamesPython (inner ++ rest).dropLast)
          ∨ ¬ ∃ part ∈ inner, oldGnu <:+: part) := by
      refine ⟨fun h => h version host inner rfl hhost, fun h version' host' inner' heq _ => ?_⟩
      simp only [paths, List.map_cons, List.map_nil, List.cons_append, List.nil_append,
        List.cons.injEq] at heq
      obtain ⟨-, -, -, -, -, -, rfl⟩ := heq
      exact h
    have hnorm : ∀ x, (normalizeParts (paths ["ndk"] ++ version :: paths ["toolchains", "llvm",
        "prebuilt"] ++ host :: inner ++ x)).take (paths ["ndk"] ++ version :: paths ["toolchains",
          "llvm", "prebuilt"] ++ host :: inner).length
        = encodeUtf8 "ndk" :: version :: (mapParts (paths ["toolchains", "llvm", "prebuilt"]
          ++ host :: (inner ++ x))).take (toolchain.length + inner.length) := by
      intro x
      have hlength : (paths ["ndk"] ++ version :: paths ["toolchains", "llvm", "prebuilt"]
          ++ host :: inner).length = toolchain.length + inner.length + 2 := by
        simp [paths, toolchain]
        omega
      rw [hlength, ← List.take_succ_cons, ← List.take_succ_cons, ← normalizeParts_ndk]
      simp [paths]
    obtain ⟨others, last, rfl⟩ := (List.eq_nil_or_concat rest).resolve_left hrest
    rw [halike, hnorm, hnorm, List.cons_inj_right, List.cons_inj_right, List.concat_eq_append,
      ← List.append_assoc inner, take_mapParts_toolchain hhost, take_renameBelow,
      List.dropLast_concat, eq_comm]
    rcases List.eq_nil_or_concat spelled with rfl | ⟨others', last', rfl⟩
    · rw [List.append_nil, and_congr_left_iff.mpr fun _ => not_congr (and_iff_right rfl)]
      rcases List.eq_nil_or_concat inner with rfl | ⟨inner, w, rfl⟩
      · -- the target leads to the toolchain directory itself
        have hown : mapParts (paths ["toolchains", "llvm", "prebuilt"] ++ [host]) = toolchain := by
          have heq : renameHostParts hostDirectories (paths ["toolchains", "llvm", "prebuilt"]
              ++ [host]) = toolchain ++ [] :=
            renameHostParts_eq_toolchain_iff.mpr ⟨host, hhost, rfl⟩
          rw [List.append_nil] at heq
          rw [mapParts_of_ne fun below last hne => ?_, heq]
          rw [heq] at hne
          simpa using congrArg List.length hne
        have hrow : ¬ EvenRow [] := fun h => h.1 rfl
        rw [hown]
        simp [renameOdd, hrow, List.take_of_length_le]
      · rw [List.concat_eq_append, take_mapParts_toolchain hhost, List.append_right_inj,
          List.take_of_length_le (by simp), renameBelow_eq_map, map_renameLast_eq_iff,
          List.dropLast_concat]
    · rw [List.concat_eq_append, ← List.append_assoc inner, take_mapParts_toolchain hhost,
        take_renameBelow, List.append_right_inj, List.dropLast_concat, map_renameOdd_eq_iff]
      simp
  · have halike : KeptAlike kept rest spelled := fun version host inner heq hhost =>
      absurd ⟨version, host, inner, heq, hhost⟩ h
    refine iff_of_true (List.ext_getElem? fun i => ?_) halike
    rw [List.getElem?_take, List.getElem?_take]
    split_ifs with hi
    · rw [getElem?_normalizeParts, getElem?_normalizeParts, List.getElem?_append_left hi,
        List.getElem?_append_left hi]
      congr 2
      rcases kept with _ | ⟨first, _ | ⟨version, parts⟩⟩
      · exact absurd hi (Nat.not_lt_zero i)
      · obtain rfl : i = 0 := Nat.lt_one_iff.mp hi
        cases rest <;> cases spelled <;> rfl
      rcases i with _ | _ | j
      · rfl
      · rfl
      rw [List.cons_append, List.cons_append, List.cons_append, List.cons_append, nameRule,
        nameRule]
      split_ifs with hndk
      · refine ruleBelow_append (fun host inner hhost heq => h ⟨version, host, inner, ?_, hhost⟩)
          (by simpa using hi) rest spelled
        rw [hndk, heq]
        rfl
      · rfl
    · rfl

/-- **The components that a target spells** become those of the renamed path if and only if they
satisfy `SpelledAlike`. -/
theorem drop_normalizeParts_iff {kept spelled : List Bytes} :
    (normalizeParts (kept ++ spelled)).drop kept.length = spelled.map normalizeReferenceLink ↔
      SpelledAlike kept spelled := by
  have hplace : ∀ i, ((normalizeParts (kept ++ spelled)).drop kept.length)[i]?
      = spelled[i]?.map (nameRule (kept ++ spelled) (kept.length + i)).apply := by
    intro i
    rw [List.getElem?_drop, getElem?_normalizeParts, List.getElem?_append_right (by omega),
      Nat.add_sub_cancel_left]
  have hrule : ∀ {i part}, spelled[i]? = some part →
      ((nameRule (kept ++ spelled) (kept.length + i)).apply part = normalizeReferenceLink part ↔
        SameAsLink (nameRule (kept ++ spelled) (kept.length + i)) part) := by
    intro i part hpart
    refine apply_nameRule_eq_iff ?_
    rw [List.getElem?_append_right (by omega), Nat.add_sub_cancel_left, hpart]
  constructor
  · intro h i part hpart
    have hi := congrArg (·[i]?) h
    rw [hplace, List.getElem?_map, hpart, Option.map_some, Option.map_some, Option.some_inj] at hi
    exact (hrule hpart).mp hi
  · intro h
    refine List.ext_getElem? fun i => ?_
    rw [hplace, List.getElem?_map]
    cases hpart : spelled[i]? with
    | none => rfl
    | some part =>
        rw [Option.map_some, Option.map_some, (hrule hpart).mpr (h i part hpart)]

/-! ## Links and their targets -/

/-- A link whose renamed target leads to the renamed path, by the components of its path and its
target. -/
def LinkAlike (link : List Bytes) (target : Bytes) : Prop :=
  let (up, spelled) := spell 0 [] (target.splitOn 47)
  let kept := link.take (link.length - 1 - up)
  KeptAlike kept (link.drop kept.length) spelled ∧ SpelledAlike kept spelled

/-- The directory of a link and what its target stands for, in components. -/
theorem resolveLink_text {link : List Bytes} (hlink : SepFree 47 link) (hlong : 2 ≤ link.length)
    (target : Bytes) : resolveLink (text link) target
      = (follow link.dropLast (target.splitOn 47)).map text := by
  obtain ⟨directory, last, rfl⟩ := (List.eq_nil_or_concat link).resolve_left
    (List.length_pos_iff.mp (by omega))
  rw [List.concat_eq_append] at hlink hlong ⊢
  obtain ⟨hdirectory, hlast⟩ := sepFree_append.mp hlink
  have hne : directory ≠ [] := List.length_pos_iff.mp (by simp at hlong; omega)
  rw [resolveLink, beforeLast_text (sepFree_cons.mp hlast).1 hne, List.dropLast_concat]
  change (do
    let parts ← follow ((text directory).splitOn 47) (target.splitOn 47)
    return text parts) = _
  rw [List.splitOn_intercalate 47 hdirectory hne]
  cases follow directory (target.splitOn 47) <;> rfl

/-- The root of the tree is the directory of no resolved link. -/
theorem two_le_length_of_resolveLink {link : List Bytes} (hlink : SepFree 47 link)
    {target t : Bytes} (h : resolveLink (text link) target = some t) : 2 ≤ link.length := by
  match link, hlink, h with
  | [], _, h => cases h
  | [part], hlink, h =>
      rw [text, List.intercalate_singleton, resolveLink,
        beforeLast_of_notMem (sepFree_cons.mp hlink).1] at h
      cases h
  | _ :: _ :: rest, _, _ => simp

/-- What a target spells is part of it. -/
theorem mem_of_mem_spell {up : ℕ} {spelled parts : List Bytes} {part : Bytes}
    (h : part ∈ (spell up spelled parts).2) : part ∈ spelled ∨ part ∈ parts := by
  induction parts generalizing up spelled with
  | nil => exact .inl h
  | cons next parts ih =>
      rw [spell] at h
      split_ifs at h
      · exact (ih h).imp_right (List.mem_cons_of_mem next)
      · exact .inr (List.mem_cons_of_mem next ((ih h).resolve_left List.not_mem_nil))
      · exact (ih h).imp (fun hmem => List.mem_of_mem_dropLast hmem) (List.mem_cons_of_mem next)
      · rcases ih h with hmem | hmem
        · rcases List.mem_append.mp hmem with hmem | hmem
          · exact .inl hmem
          · exact .inr (List.mem_singleton.mp hmem ▸ List.mem_cons_self)
        · exact .inr (List.mem_cons_of_mem next hmem)

section

variable {kept rest spelled target : List Bytes}

/-- Following a target from the directory of its link. -/
theorem follow_dropLast (hrest : rest ≠ [])
    (hspell : spell 0 [] target = (rest.length - 1, spelled)) :
    follow (kept ++ rest).dropLast target = some (kept ++ spelled) := by
  have hpos : 0 < rest.length := List.length_pos_iff.mpr hrest
  have hlength : (kept ++ rest).dropLast.length = kept.length + rest.length - 1 := by
    rw [List.length_dropLast, List.length_append]
  have hfollow := follow_eq (kept ++ rest).dropLast (Nat.zero_le _) [] target
  rw [Nat.sub_zero, List.take_length, List.append_nil, hspell, hlength, if_pos (by omega)] at hfollow
  rw [hfollow, List.dropLast_eq_take, List.take_take, List.length_append,
    List.take_left' (by omega)]

/-- Following the renamed target from the directory of the renamed link. -/
theorem follow_normalized (hrest : rest ≠ [])
    (hspell : spell 0 [] target = (rest.length - 1, spelled)) :
    follow (normalizeParts (kept ++ rest)).dropLast (target.map normalizeReferenceLink)
      = some ((normalizeParts (kept ++ rest)).take kept.length
        ++ spelled.map normalizeReferenceLink) := by
  have hpos : 0 < rest.length := List.length_pos_iff.mpr hrest
  have hdrop : ((normalizeParts (kept ++ rest)).drop kept.length).length = rest.length := by
    rw [List.length_drop, length_normalizeParts, List.length_append, Nat.add_sub_cancel_left]
  have hspell' := spell_map_normalizeReferenceLink 0 [] target
  rw [List.map_nil, hspell] at hspell'
  nth_rewrite 1 [← List.take_append_drop kept.length (normalizeParts (kept ++ rest))]
  refine follow_dropLast (List.length_pos_iff.mp (by omega)) ?_
  rw [hdrop, hspell']

/-- The renamed target leads to the components of the renamed path if and only if the kept and the
spelled components are renamed alike. -/
theorem normalized_eq_iff (hrest : rest ≠ []) :
    (normalizeParts (kept ++ rest)).take kept.length ++ spelled.map normalizeReferenceLink
        = normalizeParts (kept ++ spelled) ↔
      KeptAlike kept rest spelled ∧ SpelledAlike kept spelled := by
  have hsame : ((normalizeParts (kept ++ rest)).take kept.length).length
      = ((normalizeParts (kept ++ spelled)).take kept.length).length := by
    simp
  rw [← take_normalizeParts_iff hrest, ← drop_normalizeParts_iff]
  nth_rewrite 1 [← List.take_append_drop kept.length (normalizeParts (kept ++ spelled))]
  constructor
  · intro h
    obtain ⟨htake, hdrop⟩ := List.append_inj h hsame
    exact ⟨htake, hdrop.symm⟩
  · rintro ⟨htake, hdrop⟩
    rw [htake, hdrop]

end

/-- **The renamed target of a link leads to the renamed path** if and only if the components that the
path shares with the link's are renamed alike in both, and those that the target spells are renamed
in the path as in the text of the target. -/
theorem resolveLink_normalized_iff {link : Path} {target t : Bytes}
    (h : resolveLink (asPosix link) target = some t) :
    resolveLink (normalizeReferenceName (asPosix link)) (normalizeReferenceLink target)
        = some (normalizeReferenceName t) ↔ LinkAlike (link.map Name.bytes) target := by
  have hfree := sepFree_names link
  have htarget := sepFree_splitOn 47 target
  have hlong := two_le_length_of_resolveLink hfree h
  unfold asPosix at h ⊢
  generalize link.map Name.bytes = parts at *
  rw [resolveLink_text hfree hlong] at h
  obtain ⟨up, spelled, hspell⟩ : ∃ up spelled, spell 0 [] (target.splitOn 47) = (up, spelled) :=
    ⟨_, _, rfl⟩
  have hup : up ≤ parts.length - 1 := by
    have hfollow := follow_eq parts.dropLast (Nat.zero_le _) [] (target.splitOn 47)
    rw [Nat.sub_zero, List.take_length, List.append_nil, hspell, List.length_dropLast] at hfollow
    by_contra hfar
    rw [hfollow, if_neg hfar] at h
    cases h
  -- the components of the link's path that its target keeps, and the others
  obtain ⟨kept, rest, hparts, hlength⟩ : ∃ kept rest, parts = kept ++ rest ∧ rest.length = up + 1 :=
    ⟨parts.take (parts.length - 1 - up), parts.drop (parts.length - 1 - up),
      (List.take_append_drop _ parts).symm, by rw [List.length_drop]; omega⟩
  have hrest : rest ≠ [] := List.length_pos_iff.mp (by omega)
  have hkept : parts.take (parts.length - 1 - up) = kept := by
    rw [hparts, List.take_left' (by rw [List.length_append]; omega)]
  have halike : LinkAlike parts target ↔ KeptAlike kept rest spelled ∧ SpelledAlike kept spelled := by
    unfold LinkAlike
    rw [hspell]
    dsimp only
    rw [hkept, hparts, List.drop_left]
  rw [halike, ← normalized_eq_iff hrest]
  subst hparts
  rw [← Nat.add_sub_cancel up 1, ← hlength] at hspell
  rw [follow_dropLast hrest hspell, Option.map_some, Option.some_inj] at h
  subst h
  have hspelledFree : SepFree 47 spelled := by
    intro part hpart
    have hmem : part ∈ [] ∨ part ∈ target.splitOn 47 := mem_of_mem_spell (by rwa [hspell])
    exact htarget part (hmem.resolve_left List.not_mem_nil)
  have hpath : SepFree 47 (kept ++ spelled) :=
    sepFree_append.mpr ⟨(sepFree_append.mp hfree).1, hspelledFree⟩
  have htargetFree : SepFree 47 ((target.splitOn 47).map normalizeReferenceLink) := by
    intro part hpart
    obtain ⟨part', hpart', rfl⟩ := List.mem_map.mp hpart
    exact normalizeReferenceLink_no_slash (htarget part' hpart')
  have hsplit : (normalizeReferenceLink target).splitOn 47
      = (target.splitOn 47).map normalizeReferenceLink := by
    have htext := normalizeReferenceLink_text (target.splitOn 47)
    rw [text, List.intercalate_splitOn] at htext
    rw [htext, text, List.splitOn_intercalate 47 htargetFree (by simp)]
  have hnormalizedFree := sepFree_normalizeParts hfree
  rw [normalizeReferenceName_text hfree, normalizeReferenceName_text hpath,
    resolveLink_text hnormalizedFree (by rwa [length_normalizeParts]), hsplit,
    follow_normalized hrest hspell, Option.map_some, Option.some_inj]
  -- the two lists have the same length, so that both are empty or neither is
  by_cases hnil : kept ++ spelled = []
  · obtain ⟨rfl, rfl⟩ := List.append_eq_nil_iff.mp hnil
    exact iff_of_true rfl rfl
  · have hleft : SepFree 47 ((normalizeParts (kept ++ rest)).take kept.length
        ++ spelled.map normalizeReferenceLink) := by
      refine sepFree_append.mpr ⟨fun part hpart => ?_, fun part hpart => ?_⟩
      · exact hnormalizedFree part (List.mem_of_mem_take hpart)
      · obtain ⟨part', hpart', rfl⟩ := List.mem_map.mp hpart
        exact normalizeReferenceLink_no_slash (hspelledFree part' hpart')
    have hpos : 0 < (kept ++ spelled).length := List.length_pos_iff.mpr hnil
    refine intercalate_inj hleft (sepFree_normalizeParts hpath) ?_ ?_
    · refine List.length_pos_iff.mp (lt_of_lt_of_eq hpos ?_)
      simp
    · exact List.length_pos_iff.mp (by rwa [length_normalizeParts])

/-- A link of the toolchain to a compiler beside it. -/
theorem resolveLink_normalized_clang :
    resolveLink (normalizeReferenceName
        (asPosix (pathOf "ndk/30/toolchains/llvm/prebuilt/linux-x86_64/bin/clang")))
        (normalizeReferenceLink (encodeUtf8 "../bin/clang-21"))
      = some (normalizeReferenceName
        (encodeUtf8 "ndk/30/toolchains/llvm/prebuilt/linux-x86_64/bin/clang-21")) ↔
    LinkAlike ((pathOf "ndk/30/toolchains/llvm/prebuilt/linux-x86_64/bin/clang").map Name.bytes)
      (encodeUtf8 "../bin/clang-21") :=
  resolveLink_normalized_iff (by decide +kernel)

/-- A target with the host in the name of a compiler: the replacement in the text of the target
changes it, the renaming of paths does not. -/
theorem not_resolveLink_normalized :
    ¬ ∀ (link : Path) (target t : Bytes), (∃ version below, link.map Name.bytes
        = encodeUtf8 "ndk" :: version :: below) → target.head? ≠ some 47 →
      encodeUtf8 "ndk/30/" <+: t → resolveLink (asPosix link) target = some t →
      resolveLink (normalizeReferenceName (asPosix link)) (normalizeReferenceLink target)
        = some (normalizeReferenceName t) := by
  intro h
  have hcompiler := h (pathOf "ndk/30/toolchains/llvm/prebuilt/linux-x86_64/bin/gcc")
    (encodeUtf8 "x86_64-linux-gnu-gcc")
    (encodeUtf8 "ndk/30/toolchains/llvm/prebuilt/linux-x86_64/bin/x86_64-linux-gnu-gcc")
    ⟨_, _, rfl⟩ (by decide) (by decide) (by decide +kernel)
  revert hcompiler
  decide +kernel

end AndroidSdk.FileTree.ReferenceLayout
