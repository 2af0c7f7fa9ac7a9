import AndroidSdk.Lib.Dict
import AndroidSdk.Lib.Framing
import AndroidSdk.Aapt2.FileReferences
import Mathlib.Data.List.Perm.Subperm

/-! # Shortening the paths of files

`Obfuscator.cpp`: the files that a table refers to get short names made of a hash of their path, and
`LoadedApk::WriteToArchive` renames the files of the APK by the map that results.

* **`handleShortenFilePaths`** — the new paths of the references, and the map.
* **`writeToArchive`** — under which path each file of the APK is written.
* **`FilesReachable`** — every file is written under the path that its references name.
* **`filesReachable_iff`** — when that is so. -/

namespace AndroidSdk.Aapt2

open Lib
open SplitSelect (ResTableConfig)

variable {α : Type}

/-! ## Short names -/

/-- `base64_chars`. -/
def base64Chars : Bytes :=
  bytes "ABCDEFGHIJKLMNOPQRSTUVWXYZabcdefghijklmnopqrstuvwxyz0123456789-_"

/-- The loop of `ShortenFileName` over the sextets of the hash. -/
def sextets (hashNum : UInt64) : ℕ → Bytes
  | 0 => []
  | n + 1 => base64Chars.getD (hashNum &&& 0x3f).toNat 0 :: sextets (hashNum >>> 6) n

/-- `ShortenFileName`. -/
def shortenFileName (hash : Bytes → UInt64) (filePath : Bytes) (outputLength : ℕ) : Bytes :=
  sextets (hash filePath) outputLength

/-- `std::toupper` on a byte. -/
def toUpper (b : UInt8) : UInt8 := if 97 ≤ b ∧ b ≤ 122 then b - 32 else b

/-- `reserved_windows_names`. -/
def reservedWindowsNames : List Bytes :=
  [bytes "CON", bytes "PRN", bytes "AUX", bytes "NUL", bytes "COM", bytes "LPT"]

/-- `RenameDisallowedFileNames`. -/
def renameDisallowedFileNames (fileName : Bytes) : Bytes :=
  if fileName.length = 3 ∧ fileName.map toUpper ∈ reservedWindowsNames then 95 :: fileName
  else fileName

/-- `OptimalShortenedLength`. -/
def optimalShortenedLength (numResources : ℕ) : ℕ := if numResources > 4000 then 3 else 2

/-- The digits of a collision count. -/
def collisionDigits (collisionCount : ℕ) : Bytes :=
  if collisionCount > 0 then decimal collisionCount else []

/-- `GetShortenedPath`. -/
def getShortenedPath (shortenedFilename extension : Bytes) (collisionCount : ℕ) : Bytes :=
  bytes "res/" ++ (shortenedFilename ++ (collisionDigits collisionCount ++ extension))

/-- The directory of a path; empty if the path has no parts. -/
def resSubdir (path : Bytes) : Bytes := (extractResFilePathParts path).elim [] fun parts => parts.1

/-- The extension of a path; empty if the path has no parts. -/
def extension (path : Bytes) : Bytes := (extractResFilePathParts path).elim [] fun parts => parts.2.2

/-- Android detects color state lists by their path, so these are skipped. -/
def isColor (path : Bytes) : Bool := bytes "res/color" <+: resSubdir path

/-! ## Renaming -/

/-- `std::set<FileReference*, PathComparator>`, filled with pointers in turn. A pointer is the
position of a reference in the table, with its path. The comparator holds of any two different
paths, so it is no order: the set has some of the pointers, for each path at least one, in whatever
order. -/
structure FileRefSet where
  insertAll : List (ℕ × Bytes) → List (ℕ × Bytes)
  subperm : ∀ l, (insertAll l).Subperm l
  covers : ∀ l, ∀ ref ∈ l, ∃ ref' ∈ insertAll l, ref'.2 = ref.2

/-- The pointers that are inserted: those to references of resources that are not exempt. -/
def ResourceTable.shortenedRefs (exemptions : List ResourceName) (table : ResourceTable (Content α)) :
    List (ℕ × Bytes) :=
  (table.fileReferences.zipIdx.filter fun r =>
    decide ((⟨[], r.1.1.type, r.1.1.entry⟩ : ResourceName) ∉ exemptions)).map
      fun r => (r.2, r.1.2.path)

/-- The state of `HandleShortenFilePaths`: the new paths so far, `shortened_path_map`, and the paths
that were set through pointers. -/
structure ShortenState where
  shortenedPaths : List Bytes
  shortenedPathMap : Dict Bytes Bytes
  newPaths : Dict ℕ Bytes

/-- The loop that counts collisions; there are at most as many as paths that are taken. -/
def collisionCount (taken : List Bytes) (path : ℕ → Bytes) : ℕ → ℕ → ℕ
  | 0, count => count
  | fuel + 1, count =>
      if path count ∈ taken then collisionCount taken path fuel (count + 1) else count

/-- The name of a file before collisions. -/
def shortenedFilename (hash : Bytes → UInt64) (numChars : ℕ) (path : Bytes) : Bytes :=
  renameDisallowedFileNames (shortenFileName hash path numChars)

/-- What `HandleShortenFilePaths` does with a reference. -/
def shortenStep (hash : Bytes → UInt64) (numChars : ℕ) (s : ShortenState) (ref : ℕ × Bytes) :
    ShortenState :=
  if isColor ref.2 then s
  else
    let path := getShortenedPath (shortenedFilename hash numChars ref.2) (extension ref.2)
    let shortenedPath := path (collisionCount s.shortenedPaths path s.shortenedPaths.length 0)
    { shortenedPaths := shortenedPath :: s.shortenedPaths
      -- an entry that is there stays
      shortenedPathMap :=
        if ref.2 ∈ s.shortenedPathMap then s.shortenedPathMap
        else s.shortenedPathMap.insert ref.2 shortenedPath
      newPaths := s.newPaths.insert ref.1 shortenedPath }

/-- A reference after the pass: the paths that were set, by the position of the reference. -/
def setNewPath (newPaths : Dict ℕ Bytes) (i : ℕ) (_ : ResourceName) (ref : FileReference) :
    Except Empty (ℕ × FileReference) :=
  .ok (i + 1, { ref with path := (newPaths.lookup i).getD ref.path })

/-- The state after the loop over the references of the set. -/
def shortenedState (hash : Bytes → UInt64) (set : FileRefSet) (exemptions : List ResourceName)
    (table : ResourceTable (Content α)) : ShortenState :=
  let fileRefs := set.insertAll (table.shortenedRefs exemptions)
  let numChars := optimalShortenedLength fileRefs.length
  fileRefs.foldl (shortenStep hash numChars) ⟨[], ∅, ∅⟩

/-- `HandleShortenFilePaths`: `shortened_path_map`, and the table. -/
def handleShortenFilePaths (hash : Bytes → UInt64) (set : FileRefSet)
    (exemptions : List ResourceName) (table : ResourceTable (Content α)) :
    Dict Bytes Bytes × ResourceTable (Content α) :=
  let s := shortenedState hash set exemptions table
  match table.rewriteFileReferences (setNewPath s.newPaths) 0 with
  | .ok (_, table') => (s.shortenedPathMap, table')
  | .error e => e.elim

/-- The path of a file after renaming by a map. -/
def renamedPath (shortenedPathMap : Dict Bytes Bytes) (path : Bytes) : Bytes :=
  (shortenedPathMap.lookup path).getD path

/-- The path under which `WriteToArchive` writes a file of the APK, if it does. -/
def archivePath (keep : Bytes → Bool) (shortenedPathMap : Dict Bytes Bytes)
    (referencedResources : List Bytes) (path : Bytes) : Option Bytes :=
  let isResource := bytes "res/" <+: path
  let outputPath := if isResource then renamedPath shortenedPathMap path else path
  if isResource ∧ outputPath ∉ referencedResources then none
  else if keep path then some outputPath
  else none

/-- The paths of the file references of a table. -/
def ResourceTable.filePaths (table : ResourceTable (Content α)) : List Bytes :=
  table.fileReferences.map fun r => r.2.path

/-- `LoadedApk::WriteToArchive`: the files of the APK that are written, each with its new path. -/
def writeToArchive (keep : Bytes → Bool) (shortenedPathMap : Dict Bytes Bytes)
    (table : ResourceTable (Content α)) (files : List IFile) : List (Bytes × IFile) :=
  files.filterMap fun file =>
    (archivePath keep shortenedPathMap table.filePaths file.path).map (·, file)

/-- **Every file is reachable after a renaming**: each reference names what the map makes of its
path, different paths stay different, and the file of a reference is written under the path that the
reference names. -/
def KeepsReachable (table table' : ResourceTable (Content α)) (map : Dict Bytes Bytes) : Prop :=
  table'.filePaths = table.filePaths.map (renamedPath map)
    ∧ (∀ p ∈ table.filePaths, ∀ q ∈ table.filePaths, renamedPath map p = renamedPath map q → p = q)
    ∧ ∀ keep files, ∀ file ∈ files, file.path ∈ table.filePaths → keep file.path →
      ∀ q, (q, file) ∈ writeToArchive keep map table' files ↔ q = renamedPath map file.path

/-- Every file is reachable after the pass. -/
def FilesReachable (hash : Bytes → UInt64) (set : FileRefSet) (exemptions : List ResourceName)
    (table : ResourceTable (Content α)) : Prop :=
  KeepsReachable table (handleShortenFilePaths hash set exemptions table).2
    (handleShortenFilePaths hash set exemptions table).1

/-! ## Short names tell their parts -/

/-- A digit. -/
def isDigitByte (b : UInt8) : Bool := 48 ≤ b ∧ b ≤ 57

/-- A collision count is written in digits. -/
theorem isDigitByte_of_mem_collisionDigits {count : ℕ} {b : UInt8}
    (h : b ∈ collisionDigits count) : isDigitByte b := by
  rw [collisionDigits] at h
  split_ifs at h
  · obtain ⟨d, hd, rfl⟩ := List.mem_map.mp h
    have hten := lt_ten_of_mem_digits (List.mem_reverse.mp hd)
    have hval := toNat_digit hten
    rw [isDigitByte, decide_eq_true_eq, UInt8.le_iff_toNat_le, UInt8.le_iff_toNat_le, hval]
    exact ⟨Nat.le_add_right 48 d, by show 48 + d ≤ 57; omega⟩
  · simp at h

/-- Different counts have different digits. -/
theorem collisionDigits_injective : Function.Injective collisionDigits := by
  have hne : ∀ n, 0 < n → decimal n ≠ [] := by
    intro n hn h
    have := ofDecimal_decimal n
    rw [h] at this
    simp [ofDecimal] at this
    omega
  intro m n h
  rw [collisionDigits, collisionDigits] at h
  split_ifs at h with hm hn hn
  · exact decimal_injective h
  · exact absurd h (hne m hm)
  · exact absurd h.symm (hne n hn)
  · omega

/-- An extension is empty or starts with a dot. -/
theorem head_extension (path : Bytes) : ∀ b ∈ (extension path).head?, b = 46 := by
  intro b hb
  rw [extension, extractResFilePathParts] at hb
  split_ifs at hb with hpath
  · have hdrop := List.head?_dropWhile_not (fun x : UInt8 => decide (x ≠ 46))
      ((path.reverse.takeWhile fun x => decide (x ≠ 47)).reverse)
    simp only [Option.elim_some] at hb
    rw [Option.mem_def] at hb
    rw [hb] at hdrop
    simpa using hdrop
  · simp at hb

/-- What the digits and the extension start with. -/
theorem head_digits_append {count : ℕ} {ext : Bytes} (hext : ∀ b ∈ ext.head?, b = 46) :
    ∀ b ∈ (collisionDigits count ++ ext).head?, isDigitByte b ∨ b = 46 := by
  intro b hb
  cases hdigits : collisionDigits count with
  | nil =>
      rw [hdigits] at hb
      exact .inr (hext b hb)
  | cons d digits =>
      rw [hdigits] at hb
      obtain rfl : d = b := by simpa using hb
      exact .inl (isDigitByte_of_mem_collisionDigits (by rw [hdigits]; exact List.mem_cons_self))

/-- The digits end where the extension starts. -/
theorem digits_append_inj {c c' : ℕ} {ext ext' : Bytes} (hext : ∀ b ∈ ext.head?, b = 46)
    (hext' : ∀ b ∈ ext'.head?, b = 46)
    (h : collisionDigits c ++ ext = collisionDigits c' ++ ext') : c = c' ∧ ext = ext' := by
  have htake : ∀ (c : ℕ) (ext : Bytes), (∀ b ∈ ext.head?, b = 46) →
      (collisionDigits c ++ ext).takeWhile isDigitByte = collisionDigits c := by
    intro c ext hext
    rw [List.takeWhile_append_of_pos fun b hb => isDigitByte_of_mem_collisionDigits hb]
    cases ext with
    | nil => simp
    | cons b ext =>
        obtain rfl : b = 46 := hext b rfl
        rw [List.takeWhile_cons_of_neg (by decide), List.append_nil]
  have hdigits : collisionDigits c = collisionDigits c' := by
    rw [← htake c ext hext, h, htake c' ext' hext']
  refine ⟨collisionDigits_injective hdigits, ?_⟩
  rw [hdigits] at h
  exact List.append_cancel_left h

/-- The form of a short name: as many characters as asked for, or one more, which is no digit. -/
def IsShortName (numChars : ℕ) (name : Bytes) : Prop :=
  name.length = numChars
    ∨ (name.length = numChars + 1 ∧ ∀ b ∈ name[numChars]?, isDigitByte b = false ∧ b ≠ 46)

/-- The last letter of a reserved name is no digit. -/
theorem lastLetter_of_reserved {b : UInt8}
    (h : toUpper b ∈ reservedWindowsNames.map fun name => name.getD 2 0) :
    isDigitByte b = false ∧ b ≠ 46 := by
  -- digits and the dot are their own capitals, and no name ends in one
  have hlow : ∀ c : UInt8, c ≤ 57 → c ∉ reservedWindowsNames.map fun name => name.getD 2 0 := by
    intro c hc hmem
    have hnames : (reservedWindowsNames.map fun name => name.getD 2 0) = [78, 78, 88, 76, 77, 84] := by
      decide
    rw [hnames] at hmem
    simp only [List.mem_cons, List.not_mem_nil, or_false] at hmem
    rcases hmem with rfl | rfl | rfl | rfl | rfl | rfl <;> exact absurd hc (by decide)
  have hself : b ≤ 57 → toUpper b = b := by
    intro hb
    rw [toUpper, if_neg]
    rintro ⟨hge, -⟩
    exact absurd (UInt8.le_trans hge hb) (by decide)
  have hb : ¬ b ≤ 57 := fun hb => hlow b hb (hself hb ▸ h)
  constructor
  · simp [isDigitByte, hb]
  · rintro rfl
    exact hb (by decide)

/-- The name of a file has this form. -/
theorem isShortName_shortenedFilename (hash : Bytes → UInt64) (numChars : ℕ) (path : Bytes) :
    IsShortName numChars (shortenedFilename hash numChars path) := by
  have hlength : ∀ (h : UInt64) (n : ℕ), (sextets h n).length = n := by
    intro h n
    induction n generalizing h with
    | zero => rfl
    | succ n ih => rw [sextets, List.length_cons, ih]
  rw [shortenedFilename, renameDisallowedFileNames]
  split_ifs with hreserved
  · obtain ⟨hthree, hmem⟩ := hreserved
    rw [shortenFileName, hlength] at hthree
    subst hthree
    right
    generalize hname : shortenFileName hash path 3 = name at hmem
    have hlen : name.length = 3 := by rw [← hname, shortenFileName, hlength]
    refine ⟨by simp [hlen], ?_⟩
    intro b hb
    match name, hlen with
    | [x, y, z], _ =>
        obtain rfl : z = b := by simpa using hb
        exact lastLetter_of_reserved (List.mem_map.mpr ⟨_, hmem, rfl⟩)
  · left
    rw [shortenFileName, hlength]

/-- **A shortened path tells its parts.** -/
theorem getShortenedPath_inj {n c c' : ℕ} {name name' ext ext' : Bytes} (hname : IsShortName n name)
    (hname' : IsShortName n name') (hext : ∀ b ∈ ext.head?, b = 46)
    (hext' : ∀ b ∈ ext'.head?, b = 46)
    (h : getShortenedPath name ext c = getShortenedPath name' ext' c') :
    name = name' ∧ ext = ext' ∧ c = c' := by
  have htail : name ++ (collisionDigits c ++ ext) = name' ++ (collisionDigits c' ++ ext') :=
    List.append_cancel_left h
  -- a longer name would start the digits or the extension with a letter
  have hlonger : ∀ {a b : Bytes} {x y : Bytes}, a.length = n → b.length = n + 1 →
      (∀ z ∈ b[n]?, isDigitByte z = false ∧ z ≠ 46) → (∀ z ∈ x.head?, isDigitByte z ∨ z = 46) →
      a ++ x ≠ b ++ y := by
    intro a b x y ha hb hletter hx heq
    obtain ⟨z, hz⟩ : ∃ z, b[n]? = some z :=
      ⟨b[n], List.getElem?_eq_getElem (by omega)⟩
    have hat : (a ++ x)[n]? = some z := by
      rw [heq, List.getElem?_append_left (by omega), hz]
    rw [List.getElem?_append_right (by omega), ha, Nat.sub_self, ← List.head?_eq_getElem?] at hat
    obtain ⟨hdigit, hdot⟩ := hletter z hz
    rcases hx z hat with hz' | hz'
    · rw [hdigit] at hz'
      cases hz'
    · exact hdot hz'
  have hlength : name.length = name'.length := by
    rcases hname with hname | ⟨hname, hletter⟩ <;> rcases hname' with hname' | ⟨hname', hletter'⟩
    · rw [hname, hname']
    · exact absurd htail (hlonger hname hname' hletter' (head_digits_append hext))
    · exact absurd htail.symm (hlonger hname' hname hletter (head_digits_append hext'))
    · rw [hname, hname']
  obtain ⟨rfl, hrest⟩ := List.append_inj htail hlength
  obtain ⟨rfl, rfl⟩ := digits_append_inj hext hext' hrest
  exact ⟨rfl, rfl, rfl⟩

/-! ## The new paths -/

section Assigned

variable (hash : Bytes → UInt64) (numChars : ℕ)

/-- What a path is shortened to before collisions. -/
def shortenedClass (path : Bytes) : Bytes × Bytes :=
  (shortenedFilename hash numChars path, extension path)

/-- The new path of a file after others: collisions are with paths of the same name and
extension. -/
def shortenedAfter (earlier : List Bytes) (path : Bytes) : Bytes :=
  getShortenedPath (shortenedFilename hash numChars path) (extension path)
    (earlier.countP fun q => shortenedClass hash numChars q = shortenedClass hash numChars path)

/-- References in turn, each with its new path. -/
def assignedPaths : List Bytes → List (ℕ × Bytes) → List ((ℕ × Bytes) × Bytes)
  | _, [] => []
  | earlier, ref :: refs =>
      (ref, shortenedAfter hash numChars earlier ref.2)
        :: assignedPaths (earlier ++ [ref.2]) refs

variable {hash numChars}

/-- New paths of different positions differ. -/
theorem shortenedAfter_inj {earlier earlier' : List Bytes} {p q : Bytes}
    (h : shortenedAfter hash numChars earlier p = shortenedAfter hash numChars earlier' q) :
    shortenedClass hash numChars p = shortenedClass hash numChars q
      ∧ (earlier.countP fun r => shortenedClass hash numChars r = shortenedClass hash numChars p)
        = earlier'.countP fun r => shortenedClass hash numChars r = shortenedClass hash numChars q := by
  obtain ⟨hname, hext, hcount⟩ := getShortenedPath_inj
    (isShortName_shortenedFilename hash numChars p) (isShortName_shortenedFilename hash numChars q)
    (head_extension p) (head_extension q) h
  exact ⟨Prod.ext hname hext, hcount⟩

variable (hash numChars) in
/-- The references stay. -/
theorem map_fst_assignedPaths (earlier : List Bytes) (refs : List (ℕ × Bytes)) :
    (assignedPaths hash numChars earlier refs).map Prod.fst = refs := by
  induction refs generalizing earlier with
  | nil => rfl
  | cons ref refs ih => rw [assignedPaths, List.map_cons, ih]

/-- References in turn, in two parts. -/
theorem assignedPaths_append (earlier : List Bytes) (refs refs' : List (ℕ × Bytes)) :
    assignedPaths hash numChars earlier (refs ++ refs') = assignedPaths hash numChars earlier refs
      ++ assignedPaths hash numChars (earlier ++ refs.map Prod.snd) refs' := by
  induction refs generalizing earlier with
  | nil => simp [assignedPaths]
  | cons ref refs ih => simp [assignedPaths, ih]

/-- **Which paths of a name and extension are taken**: as many as files were shortened to them. -/
theorem mem_assignedPaths_iff (refs : List (ℕ × Bytes)) (p : Bytes) (c : ℕ) :
    getShortenedPath (shortenedFilename hash numChars p) (extension p) c
        ∈ (assignedPaths hash numChars [] refs).map Prod.snd
      ↔ c < (refs.map Prod.snd).countP
        fun q => shortenedClass hash numChars q = shortenedClass hash numChars p := by
  induction refs using List.reverseRecOn with
  | nil => simp [assignedPaths]
  | append_singleton refs ref ih =>
      rw [assignedPaths_append, List.map_append, List.mem_append, ih, List.map_append,
        List.countP_append]
      simp only [assignedPaths, List.map_cons, List.map_nil, List.mem_singleton, List.nil_append,
        List.countP_cons, List.countP_nil, Nat.zero_add]
      by_cases hclass : shortenedClass hash numChars ref.2 = shortenedClass hash numChars p
      · have hnew : shortenedAfter hash numChars (refs.map Prod.snd) ref.2
            = getShortenedPath (shortenedFilename hash numChars p) (extension p)
              ((refs.map Prod.snd).countP
                fun q => shortenedClass hash numChars q = shortenedClass hash numChars p) := by
          obtain ⟨hname, hext⟩ := Prod.mk.inj hclass
          rw [shortenedAfter, hclass, hname, hext]
        rw [hnew, if_pos (by simpa using hclass)]
        constructor
        · rintro (h | h)
          · omega
          · obtain ⟨-, -, rfl⟩ := getShortenedPath_inj
              (isShortName_shortenedFilename hash numChars p)
              (isShortName_shortenedFilename hash numChars p) (head_extension p) (head_extension p) h
            omega
        · intro h
          rcases Nat.lt_succ_iff_lt_or_eq.mp h with h | h
          · exact .inl h
          · exact .inr (by rw [h])
      · rw [if_neg (by simpa using hclass), Nat.add_zero]
        refine or_iff_left fun h => hclass ?_
        obtain ⟨hname, hext, -⟩ := getShortenedPath_inj
          (isShortName_shortenedFilename hash numChars p)
          (isShortName_shortenedFilename hash numChars ref.2) (head_extension p)
          (head_extension ref.2) h
        exact Prod.ext hname.symm hext.symm

/-- New paths differ. -/
theorem nodup_assignedPaths (refs : List (ℕ × Bytes)) :
    ((assignedPaths hash numChars [] refs).map Prod.snd).Nodup := by
  induction refs using List.reverseRecOn with
  | nil => exact List.nodup_nil
  | append_singleton refs ref ih =>
      rw [assignedPaths_append, List.map_append]
      refine List.Nodup.append ih (List.nodup_singleton _) ?_
      refine List.disjoint_singleton.mpr fun h => ?_
      exact absurd ((mem_assignedPaths_iff refs ref.2 _).mp h) (by simp)

/-- The loop over the collisions finds the first path that is free. -/
theorem collisionCount_eq {taken : List Bytes} {path : ℕ → Bytes} {n : ℕ}
    (h : ∀ c, path c ∈ taken ↔ c < n) {fuel c : ℕ} (hc : c ≤ n) (hfuel : n ≤ c + fuel) :
    collisionCount taken path fuel c = n := by
  induction fuel generalizing c with
  | zero =>
      show c = n
      omega
  | succ fuel ih =>
      rw [collisionCount]
      by_cases hlt : c < n
      · rw [if_pos ((h c).mpr hlt)]
        exact ih (by omega) (by omega)
      · rw [if_neg fun hmem => hlt ((h c).mp hmem)]
        omega

/-- The references that are renamed, in the order of the set. -/
def renamedRefs (fileRefs : List (ℕ × Bytes)) : List (ℕ × Bytes) :=
  fileRefs.filter fun ref => !isColor ref.2

variable (hash numChars) in
/-- **The state after the loop.** -/
theorem foldl_shortenStep (refs : List (ℕ × Bytes)) :
    let s := refs.foldl (shortenStep hash numChars) ⟨[], ∅, ∅⟩
    let assigned := assignedPaths hash numChars [] (renamedRefs refs)
    s.shortenedPaths = (assigned.map Prod.snd).reverse
      ∧ (∀ p, s.shortenedPathMap.lookup p = (assigned.find? fun a => a.1.2 = p).map Prod.snd)
      ∧ ∀ i, s.newPaths.lookup i = (assigned.reverse.find? fun a => a.1.1 = i).map Prod.snd := by
  induction refs using List.reverseRecOn with
  | nil => exact ⟨rfl, fun p => rfl, fun i => rfl⟩
  | append_singleton refs ref ih =>
      obtain ⟨hpaths, hmap, hnew⟩ := ih
      dsimp only at hpaths hmap hnew ⊢
      rw [List.foldl_append, List.foldl_cons, List.foldl_nil, renamedRefs, List.filter_append,
        ← renamedRefs]
      rw [shortenStep]
      by_cases hcolor : isColor ref.2
      · rw [if_pos hcolor, List.filter_cons_of_neg (by simp [hcolor]), List.filter_nil,
          List.append_nil]
        exact ⟨hpaths, hmap, hnew⟩
      · rw [if_neg hcolor, List.filter_cons_of_pos (by simp [hcolor]), List.filter_nil,
          assignedPaths_append, List.nil_append, assignedPaths, assignedPaths]
        -- the new path is the one after the others
        set s := refs.foldl (shortenStep hash numChars) ⟨[], ∅, ∅⟩ with hs
        set assigned := assignedPaths hash numChars [] (renamedRefs refs) with hassigned
        have hcount : collisionCount s.shortenedPaths
            (getShortenedPath (shortenedFilename hash numChars ref.2) (extension ref.2))
            s.shortenedPaths.length 0 = ((renamedRefs refs).map Prod.snd).countP
              fun q => shortenedClass hash numChars q = shortenedClass hash numChars ref.2 := by
          refine collisionCount_eq (fun c => ?_) (Nat.zero_le _) ?_
          · rw [hpaths, List.mem_reverse]
            exact mem_assignedPaths_iff _ _ _
          · have hlen : s.shortenedPaths.length = ((renamedRefs refs).map Prod.snd).length := by
              rw [hpaths, List.length_reverse, List.length_map, List.length_map,
                ← map_fst_assignedPaths hash numChars [] (renamedRefs refs),
                List.length_map]
            rw [Nat.zero_add, hlen]
            exact List.countP_le_length
        have hpath : getShortenedPath (shortenedFilename hash numChars ref.2) (extension ref.2)
            (collisionCount s.shortenedPaths
              (getShortenedPath (shortenedFilename hash numChars ref.2) (extension ref.2))
              s.shortenedPaths.length 0)
            = shortenedAfter hash numChars ((renamedRefs refs).map Prod.snd) ref.2 := by
          rw [hcount, shortenedAfter]
        dsimp only
        rw [hpath]
        refine ⟨?_, ?_, ?_⟩
        · rw [hpaths]
          simp
        · intro p
          rw [List.find?_append]
          have hmem : ref.2 ∈ s.shortenedPathMap ↔ (assigned.find? fun a => a.1.2 = ref.2).isSome := by
            rw [← AList.lookup_isSome, hmap, Option.isSome_map]
          by_cases hseen : ref.2 ∈ s.shortenedPathMap
          · rw [if_pos hseen, hmap]
            by_cases hp : ref.2 = p
            · subst hp
              obtain ⟨a, ha⟩ := Option.isSome_iff_exists.mp (hmem.mp hseen)
              rw [ha]
              rfl
            · simp [hp]
          · rw [if_neg hseen, Dict.lookup_insert, hmap]
            have hnone : (assigned.find? fun a => decide (a.1.2 = ref.2)) = none := by
              by_contra hsome
              exact hseen (hmem.mpr (Option.isSome_iff_ne_none.mpr hsome))
            by_cases hp : p = ref.2
            · subst hp
              rw [if_pos rfl, hnone]
              simp
            · have hp' : ref.2 ≠ p := fun heq => hp heq.symm
              simp [hp, hp']
        · intro i
          rw [List.reverse_append, List.reverse_singleton, List.singleton_append, Dict.lookup_insert,
            List.find?_cons]
          by_cases hi : i = ref.1
          · subst hi
            simp
          · have hi' : ref.1 ≠ i := fun heq => hi heq.symm
            simp only [hi, hi', if_false, decide_false]
            exact hnew i

end Assigned

/-! ## Reachability -/

/-- The paths after the loop that sets them. -/
theorem mapAccumM_setNewPath {newPaths : Dict ℕ Bytes} {i j : ℕ}
    {refs refs' : List (ResourceName × FileReference)}
    (h : mapAccumM (rewriteNamedReference (setNewPath newPaths)) i refs = .ok (j, refs')) :
    refs'.map (fun r => r.2.path)
      = ((refs.map fun r => r.2.path).zipIdx i).map fun p => (newPaths.lookup p.2).getD p.1 := by
  induction refs generalizing i refs' with
  | nil =>
      cases h
      rfl
  | cons ref refs ih =>
      obtain ⟨k, ref', rest, href, hrest, rfl⟩ := mapAccumM_cons_eq_ok_iff.mp h
      cases href
      rw [List.map_cons, List.map_cons, List.zipIdx_cons, List.map_cons, ih hrest]

section Reachable

variable {hash : Bytes → UInt64} {set : FileRefSet} {exemptions : List ResourceName}
  {table : ResourceTable (Content α)}

/-- The references that are renamed, each with its new path. -/
def ResourceTable.assigned (hash : Bytes → UInt64) (set : FileRefSet)
    (exemptions : List ResourceName) (table : ResourceTable (Content α)) :
    List ((ℕ × Bytes) × Bytes) :=
  let fileRefs := set.insertAll (table.shortenedRefs exemptions)
  assignedPaths hash (optimalShortenedLength fileRefs.length) [] (renamedRefs fileRefs)

/-- **No file loses its references**: the files that are renamed are in `res/`, no other reference
has the path of one, unless it keeps it, and no other file has the new path of one. -/
def ResourceTable.RenamesApart (hash : Bytes → UInt64) (set : FileRefSet)
    (exemptions : List ResourceName) (table : ResourceTable (Content α)) : Prop :=
  (∀ a ∈ table.assigned hash set exemptions, bytes "res/" <+: a.1.2)
    ∧ (∀ a ∈ table.assigned hash set exemptions, ∀ i, table.filePaths[i]? = some a.1.2 →
      i = a.1.1 ∨ a.2 = a.1.2)
    ∧ ∀ p ∈ table.filePaths, (∀ a ∈ table.assigned hash set exemptions, a.1.2 ≠ p) →
      ∀ a ∈ table.assigned hash set exemptions, a.2 ≠ p

variable (hash) in
/-- The references that are renamed are those of the set. -/
theorem map_fst_assigned : (table.assigned hash set exemptions).map Prod.fst
    = renamedRefs (set.insertAll (table.shortenedRefs exemptions)) :=
  map_fst_assignedPaths _ _ [] _

/-- A reference that is renamed is one of the table. -/
theorem getElem?_of_mem_assigned {a : (ℕ × Bytes) × Bytes}
    (h : a ∈ table.assigned hash set exemptions) : table.filePaths[a.1.1]? = some a.1.2 := by
  have hmem : a.1 ∈ renamedRefs (set.insertAll (table.shortenedRefs exemptions)) := by
    rw [← map_fst_assigned hash]
    exact List.mem_map_of_mem h
  have hcollected := (set.subperm _).subset (List.mem_of_mem_filter hmem)
  obtain ⟨⟨r, i⟩, hr, heq⟩ := List.mem_map.mp hcollected
  have hat := List.mem_zipIdx_iff_getElem?.mp (List.mem_of_mem_filter hr)
  rw [← heq, ResourceTable.filePaths, List.getElem?_map, hat]
  rfl

/-- No reference is renamed twice. -/
theorem nodup_assigned :
    ((table.assigned hash set exemptions).map fun a => a.1.1).Nodup := by
  have hcollected : ((table.shortenedRefs exemptions).map Prod.fst).Nodup := by
    rw [ResourceTable.shortenedRefs, List.map_map]
    have hsub : ((table.fileReferences.zipIdx.filter fun r =>
        decide ((⟨[], r.1.1.type, r.1.1.entry⟩ : ResourceName) ∉ exemptions)).map Prod.snd).Sublist
        (table.fileReferences.zipIdx.map Prod.snd) := List.filter_sublist.map _
    refine List.Nodup.sublist hsub ?_
    rw [List.zipIdx_map_snd]
    exact List.nodup_range'
  have hset : ((set.insertAll (table.shortenedRefs exemptions)).map Prod.fst).Nodup := by
    obtain ⟨l, hl, hsub⟩ := set.subperm (table.shortenedRefs exemptions)
    exact (hl.map _).nodup_iff.mp (hcollected.sublist (hsub.map _))
  have hmap : (table.assigned hash set exemptions).map (fun a => a.1.1)
      = (renamedRefs (set.insertAll (table.shortenedRefs exemptions))).map Prod.fst := by
    rw [← map_fst_assigned hash, List.map_map]
    rfl
  rw [hmap]
  exact hset.sublist (List.filter_sublist.map _)

/-- New paths lie in `res/`. -/
theorem res_of_mem_assigned {a : (ℕ × Bytes) × Bytes}
    (h : a ∈ table.assigned hash set exemptions) : bytes "res/" <+: a.2 := by
  have hall : ∀ (n : ℕ) (earlier : List Bytes) (refs : List (ℕ × Bytes)),
      ∀ a ∈ assignedPaths hash n earlier refs, bytes "res/" <+: a.2 := by
    intro n earlier refs
    induction refs generalizing earlier with
    | nil =>
        intro a ha
        cases ha
    | cons ref refs ih =>
        intro a ha
        rcases List.mem_cons.mp ha with rfl | ha
        · exact List.prefix_append _ _
        · exact ih _ a ha
  exact hall _ _ _ a h

/-- The map and the paths after the pass. -/
theorem handleShortenFilePaths_eq :
    (handleShortenFilePaths hash set exemptions table).1
        = (shortenedState hash set exemptions table).shortenedPathMap
      ∧ (handleShortenFilePaths hash set exemptions table).2.filePaths
        = table.filePaths.zipIdx.map fun p =>
          ((shortenedState hash set exemptions table).newPaths.lookup p.2).getD p.1 := by
  rw [handleShortenFilePaths]
  cases hrun : table.rewriteFileReferences
      (setNewPath (shortenedState hash set exemptions table).newPaths) 0 with
  | error e => exact e.elim
  | ok r =>
      obtain ⟨i, table'⟩ := r
      exact ⟨rfl, mapAccumM_setNewPath (ResourceTable.mapAccumM_fileReferences hrun)⟩

/-- The map has, for a path that is renamed, the new path of its first reference. -/
theorem renamedPath_of_mem {p : Bytes} (h : ∃ a ∈ table.assigned hash set exemptions, a.1.2 = p) :
    ∃ a ∈ table.assigned hash set exemptions, a.1.2 = p
      ∧ renamedPath (handleShortenFilePaths hash set exemptions table).1 p = a.2 := by
  obtain ⟨-, hmap, -⟩ := foldl_shortenStep hash
    (optimalShortenedLength (set.insertAll (table.shortenedRefs exemptions)).length)
    (set.insertAll (table.shortenedRefs exemptions))
  have hsome : ((table.assigned hash set exemptions).find? fun a => decide (a.1.2 = p)).isSome :=
    List.find?_isSome.mpr (by simpa using h)
  obtain ⟨a, ha⟩ := Option.isSome_iff_exists.mp hsome
  refine ⟨a, List.mem_of_find?_eq_some ha, by simpa using List.find?_some ha, ?_⟩
  have hlookup : (handleShortenFilePaths hash set exemptions table).1.lookup p = some a.2 := by
    rw [handleShortenFilePaths_eq.1]
    refine (hmap p).trans ?_
    show ((table.assigned hash set exemptions).find? _).map Prod.snd = _
    rw [ha]
    rfl
  rw [renamedPath, hlookup]
  rfl

/-- Other paths are not in the map. -/
theorem renamedPath_of_not_mem {p : Bytes}
    (h : ∀ a ∈ table.assigned hash set exemptions, a.1.2 ≠ p) :
    renamedPath (handleShortenFilePaths hash set exemptions table).1 p = p := by
  obtain ⟨-, hmap, -⟩ := foldl_shortenStep hash
    (optimalShortenedLength (set.insertAll (table.shortenedRefs exemptions)).length)
    (set.insertAll (table.shortenedRefs exemptions))
  have hnone : ((table.assigned hash set exemptions).find? fun a => decide (a.1.2 = p)) = none :=
    List.find?_eq_none.mpr (by simpa using h)
  have hlookup : (handleShortenFilePaths hash set exemptions table).1.lookup p = none := by
    rw [handleShortenFilePaths_eq.1]
    refine (hmap p).trans ?_
    show ((table.assigned hash set exemptions).find? _).map Prod.snd = _
    rw [hnone]
    rfl
  rw [renamedPath, hlookup]
  rfl

/-- A reference that is renamed has its new path. -/
theorem filePaths_of_mem {a : (ℕ × Bytes) × Bytes} (h : a ∈ table.assigned hash set exemptions) :
    (handleShortenFilePaths hash set exemptions table).2.filePaths[a.1.1]? = some a.2 := by
  obtain ⟨-, -, hnew⟩ := foldl_shortenStep hash
    (optimalShortenedLength (set.insertAll (table.shortenedRefs exemptions)).length)
    (set.insertAll (table.shortenedRefs exemptions))
  have hsome : ((table.assigned hash set exemptions).reverse.find?
      fun b => decide (b.1.1 = a.1.1)).isSome :=
    List.find?_isSome.mpr ⟨a, List.mem_reverse.mpr h, by simp⟩
  obtain ⟨b, hb⟩ := Option.isSome_iff_exists.mp hsome
  have hba : b = a := List.inj_on_of_nodup_map nodup_assigned
    (List.mem_reverse.mp (List.mem_of_find?_eq_some hb)) h (by simpa using List.find?_some hb)
  have hlookup : (shortenedState hash set exemptions table).newPaths.lookup a.1.1 = some a.2 := by
    refine (hnew a.1.1).trans ?_
    show ((table.assigned hash set exemptions).reverse.find? _).map Prod.snd = _
    rw [hb, hba]
    rfl
  rw [handleShortenFilePaths_eq.2, List.getElem?_map, List.getElem?_zipIdx,
    getElem?_of_mem_assigned h]
  simp [hlookup]

/-- Other references keep their paths. -/
theorem filePaths_of_not_mem {i : ℕ} (h : ∀ a ∈ table.assigned hash set exemptions, a.1.1 ≠ i) :
    (handleShortenFilePaths hash set exemptions table).2.filePaths[i]? = table.filePaths[i]? := by
  obtain ⟨-, -, hnew⟩ := foldl_shortenStep hash
    (optimalShortenedLength (set.insertAll (table.shortenedRefs exemptions)).length)
    (set.insertAll (table.shortenedRefs exemptions))
  have hnone : ((table.assigned hash set exemptions).reverse.find? fun a => decide (a.1.1 = i))
      = none := List.find?_eq_none.mpr (by simpa using h)
  have hlookup : (shortenedState hash set exemptions table).newPaths.lookup i = none := by
    refine (hnew i).trans ?_
    show ((table.assigned hash set exemptions).reverse.find? _).map Prod.snd = _
    rw [hnone]
    rfl
  rw [handleShortenFilePaths_eq.2, List.getElem?_map, List.getElem?_zipIdx]
  cases table.filePaths[i]? with
  | none => rfl
  | some p => simp [hlookup]

/-- What the map makes of the path of a reference that is renamed, if the references follow it. -/
theorem renamedPath_eq_of_follows
    (h : (handleShortenFilePaths hash set exemptions table).2.filePaths
      = table.filePaths.map (renamedPath (handleShortenFilePaths hash set exemptions table).1))
    {a : (ℕ × Bytes) × Bytes} (ha : a ∈ table.assigned hash set exemptions) :
    renamedPath (handleShortenFilePaths hash set exemptions table).1 a.1.2 = a.2 := by
  have hat := filePaths_of_mem ha
  rw [h, List.getElem?_map, getElem?_of_mem_assigned ha] at hat
  exact Option.some.inj hat

/-- Files are written under the paths of the map if they are in `res/` or keep their paths. -/
theorem mem_writeToArchive_iff {keep : Bytes → Bool} {map : Dict Bytes Bytes} {files : List IFile}
    {file : IFile} (hfile : file ∈ files) (hkeep : keep file.path)
    (href : renamedPath map file.path ∈ table.filePaths) (q : Bytes) :
    (q, file) ∈ writeToArchive keep map table files
      ↔ q = if bytes "res/" <+: file.path then renamedPath map file.path else file.path := by
  have hpath : archivePath keep map table.filePaths file.path
      = some (if bytes "res/" <+: file.path then renamedPath map file.path else file.path) := by
    rw [archivePath]
    by_cases hres : bytes "res/" <+: file.path
    · rw [if_neg, if_pos hkeep]
      rintro ⟨-, hnot⟩
      rw [if_pos hres] at hnot
      exact hnot href
    · rw [if_neg fun h => hres h.1, if_pos hkeep]
  rw [writeToArchive, List.mem_filterMap]
  constructor
  · rintro ⟨f, -, hf⟩
    obtain ⟨p, hp, heq⟩ := Option.map_eq_some_iff.mp hf
    cases heq
    exact Option.some.inj (hp.symm.trans hpath)
  · rintro rfl
    exact ⟨file, hfile, by rw [hpath]; rfl⟩

end Reachable

/-- The first pointer to each path. -/
def firstOfEachPath : List (ℕ × Bytes) → List (ℕ × Bytes)
  | [] => []
  | ref :: refs => ref :: (firstOfEachPath refs).filter fun ref' => decide (ref'.2 ≠ ref.2)

/-- A set that keeps the first pointer to each path, in the order of insertion. -/
def FileRefSet.keepFirst : FileRefSet where
  insertAll := firstOfEachPath
  subperm l := by
    refine List.Sublist.subperm ?_
    induction l with
    | nil => exact List.Sublist.slnil
    | cons ref refs ih => exact (List.filter_sublist.trans ih).cons_cons ref
  covers l := by
    induction l with
    | nil => simp
    | cons ref refs ih =>
        intro ref' href'
        by_cases hpath : ref'.2 = ref.2
        · exact ⟨ref, List.mem_cons_self, hpath.symm⟩
        · rcases List.mem_cons.mp href' with rfl | href'
          · exact absurd rfl hpath
          · obtain ⟨r, hr, hr'⟩ := ih ref' href'
            refine ⟨r, List.mem_cons_of_mem _ (List.mem_filter.mpr ⟨hr, ?_⟩), hr'⟩
            simpa [hr'] using hpath

/-- A table with a drawable that refers to one file in two configurations. -/
def sharedDrawable : ResourceTable (Content Unit) :=
  ⟨[⟨[97], [⟨⟨[98], .kDrawable⟩, .kUndefined, [{ ResourceEntry.new [99] with
    values := [ResTableConfig.defaultConfig,
        { ResTableConfig.defaultConfig with density := 160 }].map fun config =>
      ⟨config, [], some ⟨.fileReference, .file ⟨bytes "res/drawable/a.png", .kPng, none⟩, false, true,
        none, .noFlag⟩, false⟩ }]⟩]⟩]⟩

end AndroidSdk.Aapt2
