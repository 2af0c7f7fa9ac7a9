import AndroidSdk.Aapt2.Obfuscator
import Mathlib.Data.List.Dedup
import Mathlib.Data.List.TakeWhile
import Mathlib.Data.Finset.Card

/-! # Shortened paths and the order of the table

`PathComparator` (`Obfuscator.cpp`) is there "to ensure determinism of output for colliding files".
It holds of any two different paths, so the order in which the set is visited is that of no order on
paths, and may depend on the order in which the table has its references.

* **`shortenedPathAfter`** — the new path of a file, from the paths in the order of the visit.
* **`SameMaps`** — two tables get the same map, whatever the set does with their paths.
* **`sameMaps_iff`** — when that is so, for tables that refer to the same files. -/

namespace AndroidSdk.Aapt2

open Lib
open SplitSelect (ResTableConfig)

variable {α : Type}

/-! ## The map, from the paths in the order of the visit -/

/-- The paths that are inserted, in the order of the table. -/
def ResourceTable.shortenedPaths (exemptions : List ResourceName)
    (table : ResourceTable (Content α)) : List Bytes :=
  (table.shortenedRefs exemptions).map Prod.snd

/-- The paths that are renamed. -/
def renamedPaths (paths : List Bytes) : List Bytes := paths.filter fun path => !isColor path

/-- The new path of a file after a visit: it depends on the paths before its own. -/
def shortenedPathAfter (hash : Bytes → UInt64) (visited : List Bytes) (path : Bytes) :
    Option Bytes :=
  if path ∈ renamedPaths visited then
    some (shortenedAfter hash (optimalShortenedLength visited.length)
      ((renamedPaths visited).takeWhile fun q => q ≠ path) path)
  else none

/-- The first new path of a file that is visited after others. -/
theorem find?_assignedPaths (hash : Bytes → UInt64) (n : ℕ) (path : Bytes) (earlier : List Bytes)
    (refs : List (ℕ × Bytes)) :
    ((assignedPaths hash n earlier refs).find? fun a => a.1.2 = path).map Prod.snd
      = if path ∈ refs.map Prod.snd then
          some (shortenedAfter hash n
            (earlier ++ (refs.map Prod.snd).takeWhile fun q => q ≠ path) path)
        else none := by
  induction refs generalizing earlier with
  | nil => simp [assignedPaths]
  | cons ref refs ih =>
      rw [assignedPaths, List.map_cons]
      by_cases hpath : ref.2 = path
      · subst hpath
        simp
      · have hpath' : path ≠ ref.2 := fun h => hpath h.symm
        rw [List.find?_cons_of_neg (by simpa using hpath), ih,
          List.takeWhile_cons_of_pos (by simpa using hpath), List.append_assoc,
          List.singleton_append]
        simp only [List.mem_cons, hpath', false_or]

/-- The paths of the references that are renamed. -/
theorem map_snd_renamedRefs (refs : List (ℕ × Bytes)) :
    (renamedRefs refs).map Prod.snd = renamedPaths (refs.map Prod.snd) := by
  rw [renamedRefs, renamedPaths, List.filter_map]
  rfl

section

variable (hash : Bytes → UInt64) (set : FileRefSet) (exemptions : List ResourceName)

/-- **The map**: each path that is visited and renamed, with what its first visit makes of it. -/
theorem lookup_handleShortenFilePaths (table : ResourceTable (Content α)) (path : Bytes) :
    (handleShortenFilePaths hash set exemptions table).1.lookup path
      = shortenedPathAfter hash
        ((set.insertAll (table.shortenedRefs exemptions)).map Prod.snd) path := by
  obtain ⟨-, hmap, -⟩ := foldl_shortenStep hash
    (optimalShortenedLength (set.insertAll (table.shortenedRefs exemptions)).length)
    (set.insertAll (table.shortenedRefs exemptions))
  rw [handleShortenFilePaths_eq.1, shortenedPathAfter, ← map_snd_renamedRefs, List.length_map]
  exact (hmap path).trans (find?_assignedPaths hash _ path [] _)

end

/-! ## What a set may do -/

/-- The comparator reads paths: a set visits the same paths if the same are inserted. -/
def FileRefSet.ReadsPaths (set : FileRefSet) : Prop :=
  ∀ refs refs', refs.map Prod.snd = refs'.map Prod.snd →
    (set.insertAll refs).map Prod.snd = (set.insertAll refs').map Prod.snd

/-- The pointers to a path before all others. -/
def pathFirst (path : Bytes) (refs : List (ℕ × Bytes)) : List (ℕ × Bytes) :=
  (refs.filter fun ref => ref.2 = path) ++ refs.filter fun ref => ¬ ref.2 = path

/-- No pointer is lost. -/
theorem pathFirst_perm (path : Bytes) (refs : List (ℕ × Bytes)) :
    (pathFirst path refs).Perm refs := by
  have h := List.filter_append_perm (fun ref : ℕ × Bytes => decide (ref.2 = path)) refs
  simpa only [pathFirst, decide_not] using h

/-- A set that visits one path before all others, and keeps every pointer. -/
def FileRefSet.visitFirst (path : Bytes) : FileRefSet where
  insertAll := pathFirst path
  subperm refs := (pathFirst_perm path refs).subperm
  covers refs ref href := ⟨ref, (pathFirst_perm path refs).mem_iff.mpr href, rfl⟩

/-- A set that does one thing with some paths, and another with others. -/
def FileRefSet.choose (paths : List Bytes) (set set' : FileRefSet) : FileRefSet where
  insertAll refs := if refs.map Prod.snd = paths then set.insertAll refs else set'.insertAll refs
  subperm refs := by
    split_ifs
    · exact set.subperm refs
    · exact set'.subperm refs
  covers refs := by
    split_ifs
    · exact set.covers refs
    · exact set'.covers refs

/-- The paths after a path was put first. -/
theorem map_snd_pathFirst (path : Bytes) (refs : List (ℕ × Bytes)) :
    (pathFirst path refs).map Prod.snd
      = ((refs.map Prod.snd).filter fun q => q = path)
        ++ (refs.map Prod.snd).filter fun q => ¬ q = path := by
  rw [pathFirst, List.map_append, List.filter_map, List.filter_map]
  rfl

/-- A set that visits a path first reads paths alone. -/
theorem FileRefSet.readsPaths_visitFirst (path : Bytes) : (visitFirst path).ReadsPaths := by
  intro refs refs' h
  show (pathFirst path refs).map Prod.snd = (pathFirst path refs').map Prod.snd
  rw [map_snd_pathFirst, map_snd_pathFirst, h]

/-- The paths of the first pointers. -/
theorem map_snd_firstOfEachPath_cons (ref : ℕ × Bytes) (refs : List (ℕ × Bytes)) :
    (firstOfEachPath (ref :: refs)).map Prod.snd
      = ref.2 :: ((firstOfEachPath refs).map Prod.snd).filter fun q => decide (q ≠ ref.2) := by
  rw [firstOfEachPath, List.map_cons, List.filter_map]
  rfl

/-- A set that keeps the first pointer to each path reads paths alone. -/
theorem FileRefSet.readsPaths_keepFirst : FileRefSet.keepFirst.ReadsPaths := by
  intro refs refs' h
  show (firstOfEachPath refs).map Prod.snd = (firstOfEachPath refs').map Prod.snd
  induction refs generalizing refs' with
  | nil =>
      obtain rfl : refs' = [] := by simpa using h.symm
      rfl
  | cons ref refs ih =>
      cases refs' with
      | nil => simp at h
      | cons ref' refs' =>
          obtain ⟨hpath, hrest⟩ := List.cons.inj h
          rw [map_snd_firstOfEachPath_cons, map_snd_firstOfEachPath_cons, ih refs' hrest, hpath]

/-- The set that chooses between two reads what they read. -/
theorem FileRefSet.readsPaths_choose {paths : List Bytes} {set set' : FileRefSet}
    (h : set.ReadsPaths) (h' : set'.ReadsPaths) : (choose paths set set').ReadsPaths := by
  intro refs refs' heq
  show (if refs.map Prod.snd = paths then _ else _ : List (ℕ × Bytes)).map Prod.snd
    = (if refs'.map Prod.snd = paths then _ else _ : List (ℕ × Bytes)).map Prod.snd
  rw [heq]
  split_ifs
  · exact h refs refs' heq
  · exact h' refs refs' heq

/-- A set visits the paths that are inserted. -/
theorem FileRefSet.mem_visited_iff (set : FileRefSet) (refs : List (ℕ × Bytes)) (path : Bytes) :
    path ∈ (set.insertAll refs).map Prod.snd ↔ path ∈ refs.map Prod.snd := by
  constructor
  · intro h
    exact List.map_subset Prod.snd (set.subperm refs).subset h
  · intro h
    obtain ⟨ref, href, rfl⟩ := List.mem_map.mp h
    obtain ⟨ref', href', hpath⟩ := set.covers refs ref href
    exact List.mem_map.mpr ⟨ref', href', hpath⟩

/-- How many pointers a set keeps. -/
theorem FileRefSet.length_visited (set : FileRefSet) (refs : List (ℕ × Bytes)) :
    (refs.map Prod.snd).toFinset.card ≤ (set.insertAll refs).length
      ∧ (set.insertAll refs).length ≤ refs.length := by
  constructor
  · have hsame : (refs.map Prod.snd).toFinset = ((set.insertAll refs).map Prod.snd).toFinset := by
      ext path
      rw [List.mem_toFinset, List.mem_toFinset, set.mem_visited_iff]
    rw [hsame]
    exact (List.toFinset_card_le _).trans_eq (List.length_map _)
  · exact (set.subperm refs).length_le

/-- The first pointers are as many as there are paths. -/
theorem length_firstOfEachPath (refs : List (ℕ × Bytes)) :
    (firstOfEachPath refs).length = (refs.map Prod.snd).toFinset.card := by
  have hnodup : ((firstOfEachPath refs).map Prod.snd).Nodup := by
    induction refs with
    | nil => exact List.nodup_nil
    | cons ref refs ih =>
        rw [map_snd_firstOfEachPath_cons, List.nodup_cons]
        exact ⟨by simp, ih.filter _⟩
  have hsame : ((firstOfEachPath refs).map Prod.snd).toFinset = (refs.map Prod.snd).toFinset := by
    ext path
    rw [List.mem_toFinset, List.mem_toFinset]
    exact FileRefSet.keepFirst.mem_visited_iff refs path
  rw [← hsame, List.toFinset_card_of_nodup hnodup, List.length_map]

/-! ## Tables with the same files -/

/-- **Two tables get the same map**, whatever the set makes of the order of their paths. -/
def SameMaps (hash : Bytes → UInt64) (exemptions : List ResourceName)
    (table table' : ResourceTable (Content α)) : Prop :=
  ∀ set : FileRefSet, set.ReadsPaths → ∀ path,
    (handleShortenFilePaths hash set exemptions table).1.lookup path
      = (handleShortenFilePaths hash set exemptions table').1.lookup path

/-- The length of the short names, if a set keeps one pointer to each path. -/
def numCharsOf (paths : List Bytes) : ℕ := optimalShortenedLength paths.toFinset.card

/-- The length of the short names is the same if a set keeps all pointers. -/
def LengthFixed (paths : List Bytes) : Prop :=
  optimalShortenedLength paths.length = numCharsOf paths

/-- No two files have the same short name and extension. -/
def NoCollisions (hash : Bytes → UInt64) (paths : List Bytes) : Prop :=
  ∀ p ∈ renamedPaths paths, ∀ q ∈ renamedPaths paths,
    shortenedClass hash (numCharsOf paths) p = shortenedClass hash (numCharsOf paths) q → p = q

/-- **Nothing depends on the order**: it is the same, nothing is renamed, or no count of collisions
and no length of a name depends on it. -/
def OrderFree (hash : Bytes → UInt64) (paths paths' : List Bytes) : Prop :=
  paths = paths' ∨ renamedPaths paths = []
    ∨ (NoCollisions hash paths ∧ LengthFixed paths ∧ LengthFixed paths')

/-- Tables that get the same map do in either order. -/
theorem SameMaps.symm {hash : Bytes → UInt64} {exemptions : List ResourceName}
    {table table' : ResourceTable (Content α)} (h : SameMaps hash exemptions table table') :
    SameMaps hash exemptions table' table := fun set hset path => (h set hset path).symm

/-- The paths that are renamed are those of the visit. -/
theorem mem_renamedPaths_congr {paths paths' : List Bytes} (h : ∀ p, p ∈ paths ↔ p ∈ paths')
    (p : Bytes) : p ∈ renamedPaths paths ↔ p ∈ renamedPaths paths' := by
  rw [renamedPaths, renamedPaths, List.mem_filter, List.mem_filter, h p]

/-- The length of the short names depends on which paths there are. -/
theorem numCharsOf_congr {paths paths' : List Bytes} (h : ∀ p, p ∈ paths ↔ p ∈ paths') :
    numCharsOf paths = numCharsOf paths' := by
  have hsame : paths.toFinset = paths'.toFinset := by
    ext p
    rw [List.mem_toFinset, List.mem_toFinset, h p]
  rw [numCharsOf, numCharsOf, hsame]

/-- Short names get no shorter if there are more files. -/
theorem optimalShortenedLength_mono {m n : ℕ} (h : m ≤ n) :
    optimalShortenedLength m ≤ optimalShortenedLength n := by
  rw [optimalShortenedLength, optimalShortenedLength]
  split_ifs <;> omega

/-- **Without collisions the order does not matter**: each path that is renamed gets its short name,
with no number. -/
theorem shortenedPathAfter_of_noCollisions {hash : Bytes → UInt64} {paths visited : List Bytes}
    (hnone : NoCollisions hash paths) (hmem : ∀ p, p ∈ visited ↔ p ∈ paths)
    (hlength : optimalShortenedLength visited.length = numCharsOf paths) (path : Bytes) :
    shortenedPathAfter hash visited path
      = if path ∈ renamedPaths paths then
          some (shortenedAfter hash (numCharsOf paths) [] path)
        else none := by
  have hrenamed := mem_renamedPaths_congr hmem
  rw [shortenedPathAfter, hlength]
  by_cases hpath : path ∈ renamedPaths paths
  · rw [if_pos ((hrenamed path).mpr hpath), if_pos hpath, shortenedAfter, shortenedAfter]
    -- what comes before the first visit of the path has another short name
    have hcount : ((renamedPaths visited).takeWhile fun q => q ≠ path).countP (fun q =>
        shortenedClass hash (numCharsOf paths) q = shortenedClass hash (numCharsOf paths) path)
        = 0 := by
      rw [List.countP_eq_zero]
      intro q hq hclass
      have hne : q ≠ path := by simpa using List.mem_takeWhile_imp hq
      have hvisited := (List.takeWhile_sublist _).subset hq
      exact hne (hnone q ((hrenamed q).mp hvisited) path hpath (by simpa using hclass))
    rw [hcount, List.countP_nil]
  · rw [if_neg fun h => hpath ((hrenamed path).mp h), if_neg hpath]

/-- The set visits the paths of a table, and short names are as long as for one pointer to each. -/
theorem optimalShortenedLength_visited (set : FileRefSet) {refs : List (ℕ × Bytes)}
    (h : LengthFixed (refs.map Prod.snd)) :
    optimalShortenedLength ((set.insertAll refs).map Prod.snd).length
      = numCharsOf (refs.map Prod.snd) := by
  obtain ⟨hfew, hmany⟩ := set.length_visited refs
  rw [LengthFixed, List.length_map] at h
  rw [List.length_map]
  exact le_antisymm ((optimalShortenedLength_mono hmany).trans_eq h)
    (optimalShortenedLength_mono hfew)

/-! ## What depends on the order -/

/-- The first path that is visited and renamed gets its short name, with no number. -/
theorem shortenedPathAfter_head (hash : Bytes → UInt64) {visited rest : List Bytes} {path : Bytes}
    (h : renamedPaths visited = path :: rest) :
    shortenedPathAfter hash visited path
      = some (shortenedAfter hash (optimalShortenedLength visited.length) [] path) := by
  rw [shortenedPathAfter, if_pos (by rw [h]; exact List.mem_cons_self), h,
    List.takeWhile_cons_of_neg (by simp)]

/-- A path that is put first is the first one that is renamed. -/
theorem exists_renamedPaths_pathFirst (refs : List (ℕ × Bytes)) {path : Bytes}
    (h : path ∈ renamedPaths (refs.map Prod.snd)) :
    ∃ rest, renamedPaths ((pathFirst path refs).map Prod.snd) = path :: rest := by
  obtain ⟨hmem, hcolor⟩ := List.mem_filter.mp h
  rw [map_snd_pathFirst, renamedPaths, List.filter_append]
  set front := ((refs.map Prod.snd).filter fun q => q = path).filter fun q => !isColor q
    with hfront
  have hpath : path ∈ front :=
    List.mem_filter.mpr ⟨List.mem_filter.mpr ⟨hmem, by simp⟩, hcolor⟩
  obtain ⟨q, rest, hcons⟩ := List.exists_cons_of_ne_nil (List.ne_nil_of_mem hpath)
  have hq : q ∈ front := by
    rw [hcons]
    exact List.mem_cons_self
  obtain rfl : q = path := by simpa using (List.mem_filter.mp (List.mem_filter.mp hq).1).2
  exact ⟨_, by rw [hcons, List.cons_append]⟩

/-- A file that is renamed gets some short name. -/
theorem exists_shortenedPathAfter {visited : List Bytes} {path : Bytes} (hash : Bytes → UInt64)
    (h : path ∈ renamedPaths visited) :
    ∃ earlier, shortenedPathAfter hash visited path
      = some (shortenedAfter hash (optimalShortenedLength visited.length) earlier path) :=
  ⟨_, by rw [shortenedPathAfter, if_pos h]⟩

/-- A short name has at least as many characters as asked for. -/
theorem le_length_shortenedFilename (hash : Bytes → UInt64) (n : ℕ) (path : Bytes) :
    n ≤ (shortenedFilename hash n path).length := by
  rcases isShortName_shortenedFilename hash n path with h | ⟨h, -⟩ <;> omega

/-- A short name of two characters is never a reserved one. -/
theorem length_shortenedFilename_two (hash : Bytes → UInt64) (path : Bytes) :
    (shortenedFilename hash 2 path).length = 2 := by
  rw [shortenedFilename, renameDisallowedFileNames, shortenFileName, sextets, sextets, sextets,
    if_neg (by simp)]
  rfl

/-- **Names of different lengths are seen**, whatever comes before. -/
theorem shortenedAfter_ne_of_length {hash : Bytes → UInt64} {m n : ℕ} (hmn : m < n)
    (hm : ∃ k, m = optimalShortenedLength k) (hn : ∃ k, n = optimalShortenedLength k)
    (earlier : List Bytes) (path : Bytes) :
    shortenedAfter hash n earlier path ≠ shortenedAfter hash m [] path := by
  intro h
  obtain rfl : m = 2 := by
    obtain ⟨k, rfl⟩ := hm
    obtain ⟨k', rfl⟩ := hn
    revert hmn
    rw [optimalShortenedLength, optimalShortenedLength]
    split_ifs <;> omega
  have hlength := congrArg List.length h
  have hlong := le_length_shortenedFilename hash n path
  have hshort := length_shortenedFilename_two hash path
  simp only [shortenedAfter, getShortenedPath, List.countP_nil, collisionDigits, List.length_append]
    at hlength
  simp only [gt_iff_lt, Nat.lt_irrefl, if_false, List.length_nil] at hlength
  omega

section Differs

variable {hash : Bytes → UInt64} {exemptions : List ResourceName}
  {table table' : ResourceTable (Content α)}

/-- What two sets with their own order for two tables show, if the tables get the same map. -/
theorem SameMaps.choose (h : SameMaps hash exemptions table table')
    (hne : table.shortenedPaths exemptions ≠ table'.shortenedPaths exemptions)
    {set set' : FileRefSet} (hset : set.ReadsPaths) (hset' : set'.ReadsPaths) (path : Bytes) :
    shortenedPathAfter hash ((set.insertAll (table.shortenedRefs exemptions)).map Prod.snd) path
      = shortenedPathAfter hash
        ((set'.insertAll (table'.shortenedRefs exemptions)).map Prod.snd) path := by
  have hmaps := h (.choose (table.shortenedPaths exemptions) set set')
    (FileRefSet.readsPaths_choose hset hset') path
  rw [lookup_handleShortenFilePaths, lookup_handleShortenFilePaths] at hmaps
  have hfirst : (FileRefSet.choose (table.shortenedPaths exemptions) set set').insertAll
      (table.shortenedRefs exemptions) = set.insertAll (table.shortenedRefs exemptions) :=
    if_pos rfl
  have hsecond : (FileRefSet.choose (table.shortenedPaths exemptions) set set').insertAll
      (table'.shortenedRefs exemptions) = set'.insertAll (table'.shortenedRefs exemptions) :=
    if_neg fun heq => hne heq.symm
  rwa [hfirst, hsecond] at hmaps

/-- **The length of the names cannot depend on the pointers that are kept**: the set may keep all of
one table's, and one for each path of the other's. -/
theorem SameMaps.lengthFixed (h : SameMaps hash exemptions table table')
    (hsame : ∀ p, p ∈ table.shortenedPaths exemptions ↔ p ∈ table'.shortenedPaths exemptions)
    (hne : table.shortenedPaths exemptions ≠ table'.shortenedPaths exemptions)
    (hsome : renamedPaths (table.shortenedPaths exemptions) ≠ []) :
    LengthFixed (table.shortenedPaths exemptions) := by
  by_contra hlength
  set refs := table.shortenedRefs exemptions with hrefs
  set refs' := table'.shortenedRefs exemptions with hrefs'
  -- the first path that is renamed, when one pointer to each path of the other table is visited
  have hvisited : ∀ p, p ∈ (firstOfEachPath refs').map Prod.snd
      ↔ p ∈ table.shortenedPaths exemptions := fun p =>
    (FileRefSet.keepFirst.mem_visited_iff refs' p).trans (hsame p).symm
  obtain ⟨p, rest, hp⟩ : ∃ p rest,
      renamedPaths ((firstOfEachPath refs').map Prod.snd) = p :: rest := by
    obtain ⟨q, hq⟩ := List.exists_mem_of_ne_nil _ hsome
    exact List.exists_cons_of_ne_nil
      (List.ne_nil_of_mem ((mem_renamedPaths_congr hvisited q).mpr hq))
  have hfew := shortenedPathAfter_head hash hp
  have hmem : p ∈ renamedPaths ((pathFirst p refs).map Prod.snd) := by
    have hp' : p ∈ renamedPaths (table.shortenedPaths exemptions) :=
      (mem_renamedPaths_congr hvisited p).mp (by rw [hp]; exact List.mem_cons_self)
    exact (mem_renamedPaths_congr ((FileRefSet.visitFirst p).mem_visited_iff refs) p).mpr hp'
  obtain ⟨earlier, hall⟩ := exists_shortenedPathAfter hash hmem
  have heq := h.choose hne (FileRefSet.readsPaths_visitFirst p) FileRefSet.readsPaths_keepFirst p
  have heq' : shortenedAfter hash (optimalShortenedLength ((pathFirst p refs).map Prod.snd).length)
      earlier p = shortenedAfter hash
        (optimalShortenedLength ((firstOfEachPath refs').map Prod.snd).length) [] p :=
    Option.some.inj (hall.symm.trans (heq.trans hfew))
  have hmany : ((pathFirst p refs).map Prod.snd).length = refs.length := by
    rw [List.length_map, (pathFirst_perm p refs).length_eq]
  have hcard : optimalShortenedLength ((firstOfEachPath refs').map Prod.snd).length
      = numCharsOf (table.shortenedPaths exemptions) := by
    rw [List.length_map, length_firstOfEachPath, numCharsOf_congr hsame]
    rfl
  rw [hmany, hcard] at heq'
  refine shortenedAfter_ne_of_length ?_ ⟨_, rfl⟩ ⟨_, rfl⟩ earlier p heq'
  have hle : numCharsOf (table.shortenedPaths exemptions) ≤ optimalShortenedLength refs.length :=
    optimalShortenedLength_mono ((List.toFinset_card_le _).trans_eq (List.length_map _))
  refine lt_of_le_of_ne hle fun heq => hlength ?_
  rw [LengthFixed, ResourceTable.shortenedPaths, List.length_map]
  exact heq.symm

/-- **Files cannot share a short name**: each of the two could be visited first. -/
theorem SameMaps.noCollisions (h : SameMaps hash exemptions table table')
    (hsame : ∀ p, p ∈ table.shortenedPaths exemptions ↔ p ∈ table'.shortenedPaths exemptions)
    (hne : table.shortenedPaths exemptions ≠ table'.shortenedPaths exemptions)
    (hlength : LengthFixed (table.shortenedPaths exemptions))
    (hlength' : LengthFixed (table'.shortenedPaths exemptions)) :
    NoCollisions hash (table.shortenedPaths exemptions) := by
  intro p hp q hq hclass
  by_contra hpq
  set refs := table.shortenedRefs exemptions with hrefs
  set refs' := table'.shortenedRefs exemptions with hrefs'
  obtain ⟨rest, hfirst⟩ := exists_renamedPaths_pathFirst refs hp
  obtain ⟨rest', hsecond⟩ := exists_renamedPaths_pathFirst refs'
    ((mem_renamedPaths_congr hsame q).mp hq)
  have hmem : q ∈ renamedPaths ((pathFirst p refs).map Prod.snd) :=
    (mem_renamedPaths_congr ((FileRefSet.visitFirst p).mem_visited_iff refs) q).mpr hq
  -- after the other path, the file gets a number; before it, none
  have heq := h.choose hne (FileRefSet.readsPaths_visitFirst p)
    (FileRefSet.readsPaths_visitFirst q) q
  have hwithout : shortenedPathAfter hash ((pathFirst q refs').map Prod.snd) q
      = some (shortenedAfter hash (numCharsOf (table.shortenedPaths exemptions)) [] q) := by
    have hlong := optimalShortenedLength_visited (.visitFirst q) hlength'
    rw [shortenedPathAfter_head hash hsecond, numCharsOf_congr hsame]
    exact congrArg (fun n => some (shortenedAfter hash n [] q)) hlong
  have hwith : shortenedPathAfter hash ((pathFirst p refs).map Prod.snd) q
      = some (shortenedAfter hash (numCharsOf (table.shortenedPaths exemptions))
        (p :: rest.takeWhile fun r => r ≠ q) q) := by
    have hlong := optimalShortenedLength_visited (.visitFirst p) hlength
    rw [shortenedPathAfter, if_pos hmem, hfirst,
      List.takeWhile_cons_of_pos (by simpa using hpq)]
    exact congrArg (fun n => some (shortenedAfter hash n _ q)) hlong
  have hcount := (shortenedAfter_inj (Option.some.inj (hwith.symm.trans (heq.trans hwithout)))).2
  rw [List.countP_nil, List.countP_cons_of_pos (by simpa using hclass)] at hcount
  omega

end Differs

/-! ## The order of the table -/

/-- **The map does not depend on the order of the table exactly if nothing collides**: for tables
that refer to the same files under names that are not exempt, whatever the set does. -/
theorem sameMaps_iff (hash : Bytes → UInt64) (exemptions : List ResourceName)
    (table table' : ResourceTable (Content α))
    (h : ∀ p, p ∈ table.shortenedPaths exemptions ↔ p ∈ table'.shortenedPaths exemptions) :
    SameMaps hash exemptions table table'
      ↔ OrderFree hash (table.shortenedPaths exemptions) (table'.shortenedPaths exemptions) := by
  constructor
  · intro hmaps
    by_cases hne : table.shortenedPaths exemptions = table'.shortenedPaths exemptions
    · exact .inl hne
    by_cases hnone : renamedPaths (table.shortenedPaths exemptions) = []
    · exact .inr (.inl hnone)
    have hnone' : renamedPaths (table'.shortenedPaths exemptions) ≠ [] := by
      obtain ⟨q, hq⟩ := List.exists_mem_of_ne_nil _ hnone
      exact List.ne_nil_of_mem ((mem_renamedPaths_congr h q).mp hq)
    have hlength := hmaps.lengthFixed h hne hnone
    have hlength' := hmaps.symm.lengthFixed (fun p => (h p).symm) (Ne.symm hne) hnone'
    exact .inr (.inr ⟨hmaps.noCollisions h hne hlength hlength', hlength, hlength'⟩)
  · rintro (hsame | hnone | ⟨hcollide, hlength, hlength'⟩) set hset path
    · rw [lookup_handleShortenFilePaths, lookup_handleShortenFilePaths, hset _ _ hsame]
    · -- no path is in either map
      have hnot : ∀ refs : List (ℕ × Bytes),
          (∀ p, p ∈ refs.map Prod.snd ↔ p ∈ table.shortenedPaths exemptions) →
          path ∉ renamedPaths ((set.insertAll refs).map Prod.snd) := by
        intro refs hrefs hpath
        have hmem := (mem_renamedPaths_congr
          (fun p => (set.mem_visited_iff refs p).trans (hrefs p)) path).mp hpath
        rw [hnone] at hmem
        cases hmem
      rw [lookup_handleShortenFilePaths, lookup_handleShortenFilePaths, shortenedPathAfter,
        shortenedPathAfter, if_neg (hnot _ fun p => Iff.rfl), if_neg (hnot _ fun p => (h p).symm)]
    · rw [lookup_handleShortenFilePaths, lookup_handleShortenFilePaths,
        shortenedPathAfter_of_noCollisions hcollide (set.mem_visited_iff _)
          (optimalShortenedLength_visited set hlength),
        shortenedPathAfter_of_noCollisions hcollide
          (fun p => (set.mem_visited_iff _ p).trans (h p).symm)
          ((optimalShortenedLength_visited set hlength').trans (numCharsOf_congr h).symm)]

/-- A red-black tree with this comparator: each new path goes before those that are there. -/
def FileRefSet.newestFirst : FileRefSet where
  insertAll refs := (firstOfEachPath refs).reverse
  subperm refs := (List.reverse_perm _).subperm.trans (FileRefSet.keepFirst.subperm refs)
  covers refs ref href := by
    obtain ⟨ref', href', hpath⟩ := FileRefSet.keepFirst.covers refs ref href
    exact ⟨ref', List.mem_reverse.mpr href', hpath⟩

/-- A table with two drawables, each with its file. -/
def twoDrawables (path path' : String) : ResourceTable (Content Unit) :=
  ⟨[⟨[97], [⟨⟨[98], .kDrawable⟩, .kUndefined, [([99], path), ([100], path')].map fun entry =>
    { ResourceEntry.new entry.1 with
      values := [⟨ResTableConfig.defaultConfig, [], some ⟨.fileReference,
        .file ⟨bytes entry.2, .kPng, none⟩, false, true, none, .noFlag⟩, false⟩] }⟩]⟩]⟩

/-- Two tables with the same files, in either order, if the short names differ. -/
theorem sameMaps_iff_twoDrawables :
    SameMaps (fun path => path.length.toUInt64) []
      (twoDrawables "res/drawable/a.png" "res/drawable/bb.png")
      (twoDrawables "res/drawable/bb.png" "res/drawable/a.png") :=
  (sameMaps_iff _ _ _ _ fun p => List.Perm.mem_iff (by decide)).mpr
    (.inr (.inr ⟨by unfold NoCollisions; decide, by unfold LengthFixed; decide,
      by unfold LengthFixed; decide⟩))

/-- Two tables with the same files, in either order: the one that comes last has no number. -/
theorem not_sameMaps_collision :
    ¬ ((∀ p, p ∈ (twoDrawables "res/drawable/a.png" "res/drawable/b.png").shortenedPaths []
          ↔ p ∈ (twoDrawables "res/drawable/b.png" "res/drawable/a.png").shortenedPaths [])
      → SameMaps (fun _ => 0) [] (twoDrawables "res/drawable/a.png" "res/drawable/b.png")
          (twoDrawables "res/drawable/b.png" "res/drawable/a.png")) := by
  intro h
  have hreads : FileRefSet.newestFirst.ReadsPaths := by
    intro refs refs' heq
    show (firstOfEachPath refs).reverse.map Prod.snd = (firstOfEachPath refs').reverse.map Prod.snd
    rw [List.map_reverse, List.map_reverse]
    exact congrArg List.reverse (FileRefSet.readsPaths_keepFirst refs refs' heq)
  have hmaps := h (fun p => List.Perm.mem_iff (by decide)) .newestFirst hreads
    (bytes "res/drawable/a.png")
  exact absurd hmaps (by decide)

end AndroidSdk.Aapt2
