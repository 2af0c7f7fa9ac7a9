import Mathlib.Data.Char
import Mathlib.Data.List.DropRight
import Mathlib.Data.List.Lex
import Mathlib.Data.List.Sort
import AndroidSdk.Lib.Occurrences
import AndroidSdk.Lib.Run
import AndroidSdk.Scripts.DependencyClosure

/-! # Members of host archives

`check-aarch64-host-archives.sh` checks every member of the host archives of the NDK. `ar x` leaves
the last one of several members of a name, so the earlier ones are extracted one by one.

* **`arT`**, **`arX`**, **`arXN`** — the commands of GNU ar on an archive.
* **`checkMemberFile`**, **`checkArchive`**, **`run`** — the script.
* **`expectedCalls`** — one check for each member of an archive.
* **`checked_exactly_once`** — a run that succeeds has made exactly these checks. -/

namespace AndroidSdk.Scripts.HostArchives

open Lib FileTree
open List (Perm)
open scoped List

/-! ## Text -/

/-- Texts in the `C` locale, in which every byte is a character. -/
abbrev Text := List Char

/-- The blanks of `IFS` and, without the line feed, of `[[:blank:]]`. -/
def isBlank (c : Char) : Bool := c = ' ' ∨ c = '\t' ∨ c = '\n'

/-- `[[:space:]]` in the `C` locale. -/
def isSpace (c : Char) : Bool :=
  c = ' ' ∨ c = '\t' ∨ c = '\n' ∨ c = '\x0b' ∨ c = '\x0c' ∨ c = '\r'

/-- The lines of a text; what follows the last line feed is a line if it is not empty. -/
def linesOf (text : Text) : List Text :=
  match (text.splitOn '\n').getLast? with
  | some [] => (text.splitOn '\n').dropLast
  | _ => text.splitOn '\n'

/-- A text of lines. -/
def unlines (lines : List Text) : Text := lines.flatMap (· ++ ['\n'])

/-- `sort` in the `C` locale, on lines. -/
def sortLines (lines : List Text) : List Text := lines.insertionSort (· ≤ ·)

/-- `sort -u`. -/
def sortUnique (lines : List Text) : List Text := (countRuns (sortLines lines)).map Prod.snd

/-- The decimal digits of a number. -/
def decimalText (n : ℕ) : Text := Nat.toDigits 10 n

/-- A line of `uniq -c`: the count, aligned to seven columns, a space and the line. -/
def uniqLine (run : ℕ × Text) : Text :=
  List.replicate (7 - (decimalText run.1).length) ' ' ++ decimalText run.1 ++ ' ' :: run.2

/-- `sort | uniq -c`. -/
def uniqCounts (text : Text) : Text := unlines ((countRuns (sortLines (linesOf text))).map uniqLine)

/-- `read -r first rest`: the first word of a line, and the rest without blanks around it. -/
def readTwo (line : Text) : Text × Text :=
  let line := line.dropWhile isBlank
  (line.takeWhile fun c => !isBlank c,
    ((line.dropWhile fun c => !isBlank c).dropWhile isBlank).rdropWhile isBlank)

/-- `${text#prefix}`. -/
def removePrefix (before text : Text) : Text :=
  if before <+: text then text.drop before.length else text

/-- The lines of a text of lines, some of which may have line feeds themselves. -/
theorem linesOf_unlines (lines : List Text) :
    linesOf (unlines lines) = lines.flatMap (·.splitOn '\n') := by
  have hsplit : (unlines lines).splitOn '\n' = lines.flatMap (·.splitOn '\n') ++ [[]] := by
    induction lines with
    | nil => rfl
    | cons line lines ih =>
        rw [unlines, List.flatMap_cons, List.append_assoc, List.singleton_append,
          List.splitOn_append_cons_self, List.flatMap_cons, List.append_assoc, ← ih, unlines]
  rw [linesOf, hsplit, List.getLast?_concat]
  exact List.dropLast_concat

/-- Lines without line feed are read back. -/
theorem linesOf_unlines_of_plain {lines : List Text} (h : ∀ line ∈ lines, '\n' ∉ line) :
    linesOf (unlines lines) = lines := by
  rw [linesOf_unlines]
  calc lines.flatMap (·.splitOn '\n') = lines.flatMap ([·]) :=
        List.flatMap_congr fun line hline => List.splitOn_eq_singleton (h line hline)
    _ = lines := List.flatMap_singleton' lines

/-- There is a line feed for each line. -/
theorem count_unlines {lines : List Text} (h : ∀ line ∈ lines, '\n' ∉ line) :
    (unlines lines).count '\n' = lines.length := by
  induction lines with
  | nil => rfl
  | cons line lines ih =>
      obtain ⟨hline, hlines⟩ := List.forall_mem_cons.mp h
      rw [unlines, List.flatMap_cons, List.count_append, List.count_append,
        List.count_eq_zero.mpr hline, ← unlines, ih hlines, List.length_cons, List.count_singleton_self]
      omega

/-- `sort` only rearranges. -/
theorem perm_sortLines (lines : List Text) : (sortLines lines).Perm lines :=
  List.perm_insertionSort _ _

/-- **What `sort | uniq -c` counts**: each line once, with the number of its occurrences. -/
theorem countRuns_sortLines (lines : List Text) :
    ((countRuns (sortLines lines)).map Prod.snd).Nodup
      ∧ (∀ run ∈ countRuns (sortLines lines), run.1 = lines.count run.2)
      ∧ ∀ line, line ∈ (countRuns (sortLines lines)).map Prod.snd ↔ line ∈ lines := by
  have hsorted : (sortLines lines).Pairwise (· ≤ ·) := List.pairwise_insertionSort _ _
  obtain ⟨hnodup, hcount⟩ := countRuns_of_pairwise (fun a b => le_antisymm) hsorted
  refine ⟨hnodup, fun run hrun => ?_, fun line => ?_⟩
  · have hrun : run.1 = (sortLines lines).count run.2 := by convert hcount run hrun
    rw [hrun, (perm_sortLines lines).count_eq]
  · rw [mem_map_countRuns_iff, (perm_sortLines lines).mem_iff]

/-- A name that `read` reads back: without line feed, and without blanks at its ends. -/
def PlainName (name : Text) : Prop :=
  '\n' ∉ name ∧ name.head?.any isBlank = false ∧ name.getLast?.any isBlank = false

instance (name : Text) : Decidable (PlainName name) :=
  inferInstanceAs (Decidable (_ ∧ _ ∧ _))

/-- A digit is no blank. -/
theorem isBlank_of_mem_decimalText {n : ℕ} {c : Char} (h : c ∈ decimalText n) :
    isBlank c = false := by
  have hdigit := Nat.isDigit_of_mem_toDigits (by decide) (by decide) h
  by_contra hblank
  rw [Bool.not_eq_false, isBlank, decide_eq_true_eq] at hblank
  rcases hblank with rfl | rfl | rfl
  · exact absurd hdigit (by decide)
  · exact absurd hdigit (by decide)
  · exact absurd hdigit (by decide)

/-- **`read` reads a line of `uniq -c` back.** -/
theorem readTwo_uniqLine (n : ℕ) {name : Text} (h : PlainName name) :
    readTwo (uniqLine (n, name)) = (decimalText n, name) := by
  obtain ⟨-, hhead, hlast⟩ := h
  have hdigits : ∀ c ∈ decimalText n, isBlank c = false := fun c => isBlank_of_mem_decimalText
  have hword : (uniqLine (n, name)).dropWhile isBlank = decimalText n ++ ' ' :: name := by
    rw [uniqLine, List.append_assoc, List.dropWhile_append_of_pos]
    · cases htext : decimalText n with
      | nil => exact absurd htext Nat.toDigits_ne_nil
      | cons c digits =>
          rw [htext] at hdigits
          exact List.dropWhile_cons_of_neg (by simp [hdigits c List.mem_cons_self])
    · intro c hc
      rw [List.eq_of_mem_replicate hc]
      rfl
  have hname : name.dropWhile isBlank = name := by
    cases name with
    | nil => rfl
    | cons c name => exact List.dropWhile_cons_of_neg (Bool.eq_false_iff.mp hhead)
  have hend : name.rdropWhile isBlank = name := by
    rw [List.rdropWhile_eq_self_iff]
    intro hne
    rw [List.getLast?_eq_some_getLast hne] at hlast
    exact Bool.eq_false_iff.mp hlast
  have htake : (decimalText n ++ ' ' :: name).takeWhile (fun c => !isBlank c) = decimalText n := by
    rw [List.takeWhile_append_of_pos fun c hc => by simp [hdigits c hc],
      List.takeWhile_cons_of_neg (by decide), List.append_nil]
  have hdrop : (decimalText n ++ ' ' :: name).dropWhile (fun c => !isBlank c) = ' ' :: name := by
    rw [List.dropWhile_append_of_pos fun c hc => by simp [hdigits c hc]]
    exact List.dropWhile_cons_of_neg (by decide)
  rw [readTwo, hword, htake, hdrop, List.dropWhile_cons_of_pos (by decide), hname, hend]

/-- The line has no line feed. -/
theorem not_mem_uniqLine (n : ℕ) {name : Text} (h : '\n' ∉ name) : '\n' ∉ uniqLine (n, name) := by
  intro hmem
  rw [uniqLine] at hmem
  rcases List.mem_append.mp hmem with hmem | hmem
  · rcases List.mem_append.mp hmem with hmem | hmem
    · exact absurd (List.eq_of_mem_replicate hmem) (by decide)
    · exact absurd (isBlank_of_mem_decimalText hmem) (by decide)
  · rcases List.mem_cons.mp hmem with hspace | hmem
    · exact absurd hspace (by decide)
    · exact h hmem

/-! ## Archives -/

/-- A member of an archive. -/
structure Member where
  name : Text
  content : Bytes
  deriving DecidableEq

/-- `ar t`: the names of the members, in their order. -/
def arT (members : List Member) : Text := unlines (members.map Member.name)

/-- The directory after `ar x`: each member is written to the file of its name, over an earlier
one. -/
def arX (members : List Member) : Dict Text Bytes :=
  Dict.fill ∅ (members.map fun m => (m.name, m.content))

/-- The file that `ar xN occurrence archive name` writes. -/
def arXN (members : List Member) (occurrence : ℕ) (name : Text) : Option Bytes :=
  if occurrence = 0 then none
  else ((members.filter (·.name = name))[occurrence - 1]?).map Member.content

/-! ## The script -/

/-- The programs that the script runs on a file or a text, with their success and output. -/
structure Tools where
  /-- `aarch64-linux-gnu-objdump -f`. -/
  objdump : Bytes → Bool × Text
  /-- `aarch64-linux-gnu-readelf -h`. -/
  readelf : Bytes → Bool × Text
  /-- The first column of `sha256sum`. -/
  sha256sum : Text → Text

/-- What the script finds. -/
structure Host where
  /-- `$package_root`. -/
  packageRoot : Text
  /-- The manifest, if it is a file. -/
  manifest : Option Text
  /-- Whether the two archive roots are directories. -/
  rootsExist : Bool
  /-- The paths that the three `find` commands print. -/
  found : List Text
  /-- The archive to which a path leads. -/
  archiveAt : Text → Option (List Member)
  /-- The order in which `find` prints the files of a directory. -/
  listing : List (Text × Bytes) → List (Text × Bytes)
  perm_listing : ∀ files, (listing files).Perm files

/-- The ways in which the script exits with an error. -/
inductive Failure where
  | missingManifest
  | missingRoot
  | invalidArchive (archive : Text)
  | noMembers (archive : Text)
  /-- `mkdir` fails, since a member has the name of the directory. -/
  | mkdir (directory : Text)
  | failedToExtract (archive name : Text) (occurrence : ℕ)
  | inventoryDiffers
  | invalidMembers
  deriving DecidableEq

/-- A call of `check_member_file`, with the content of the file at `path`. -/
structure Call where
  archive : Text
  member : Text
  occurrence : Text
  content : Bytes
  deriving DecidableEq

/-- The variables and files of the script. `calls` is no variable of it: it lists the calls of
`check_member_file` that were made. -/
structure State where
  badMembers : Text
  archiveCount : ℕ
  archiveMemberCount : ℕ
  elfMemberCount : ℕ
  actualManifest : Text
  calls : List Call

/-- The state before the loop. -/
def State.init : State := ⟨[], 0, 0, 0, [], []⟩

section

variable (tools : Tools) (host : Host)

/-- `grep -Eq '^[[:space:]]*Type:[[:space:]]+REL[[:space:]]'` on a line. -/
def isRelLine (line : Text) : Bool :=
  let line := line.dropWhile isSpace
  let rest := line.drop 5
  let type := rest.dropWhile isSpace
  "Type:".toList <+: line ∧ rest.head?.any isSpace ∧ "REL".toList <+: type
    ∧ (type.drop 3).head?.any isSpace

/-- The first three tests of `check_member_file`: what objdump says. -/
def describedAsAarch64 (content : Bytes) : Bool :=
  let description := stripNewlines '\n' (tools.objdump content).2
  (tools.objdump content).1 ∧ "file format elf64-littleaarch64".toList <:+: description
    ∧ (description.splitOn '\n').any fun line => "architecture: aarch64,".toList <+: line

/-- The other tests: what readelf says. -/
def headedAsRelocatable (content : Bytes) : Bool :=
  let elfHeader := stripNewlines '\n' (tools.readelf content).2
  (tools.readelf content).1 ∧ ¬ "Error:".toList <:+: elfHeader
    ∧ (elfHeader.splitOn '\n').any isRelLine

/-- The line about a bad member. -/
def badMemberLine (call : Call) : Text :=
  let description := stripNewlines '\n' (tools.objdump call.content).2
  let elfHeader :=
    if describedAsAarch64 tools call.content then stripNewlines '\n' (tools.readelf call.content).2
    else []
  call.archive ++ '(' :: call.member ++ " occurrence ".toList ++ call.occurrence ++ "): ".toList
    ++ replaceAll ['\n'] "; ".toList description ++ "; ".toList
    ++ replaceAll ['\n'] "; ".toList elfHeader ++ ['\n']

/-- `check_member_file`. -/
def checkMemberFile (s : State) (call : Call) : State :=
  let s := { s with calls := s.calls ++ [call] }
  if describedAsAarch64 tools call.content && headedAsRelocatable tools call.content then
    { s with elfMemberCount := s.elfMemberCount + 1 }
  else { s with badMembers := s.badMembers ++ badMemberLine tools call }

/-- `.duplicate-$duplicate_index`. -/
def duplicateDir (index : ℕ) : Text := ".duplicate-".toList ++ decimalText index

/-- A file of the audit directory is or lies below the given entry. -/
def hasEntry (auditDir : Dict Text Bytes) (entry : Text) : Bool :=
  auditDir.keys.any fun name => name.takeWhile (· ≠ '/') = entry

/-- The inner loop over the occurrences of a name but the last; with `duplicate_index`. -/
def checkOccurrence (archive : Text) (members : List Member) (name : Text) (s : State × ℕ)
    (occurrence : ℕ) : Except Failure (State × ℕ) :=
  if hasEntry (arX members) (duplicateDir s.2) then .error (.mkdir (duplicateDir s.2))
  else
    match arXN members occurrence name with
    | none => .error (.failedToExtract archive name occurrence)
    | some content =>
        .ok (checkMemberFile tools s.1 ⟨archive, name, decimalText occurrence, content⟩, s.2 + 1)

/-- The loop over the lines of `uniq -c`. -/
def checkDuplicates (archive : Text) (members : List Member) (s : State × ℕ) (line : Text) :
    Except Failure (State × ℕ) :=
  let (occurrenceCount, name) := readTwo line
  let count := Nat.ofDigitChars 10 occurrenceCount 0
  if 1 < count then
    (List.range' 1 (count - 1)).foldlM (checkOccurrence tools archive members name) s
  else .ok s

/-- The line of the inventory for an archive. -/
def inventoryLine (archive memberList : Text) : Text :=
  removePrefix (host.packageRoot ++ ['/']) archive ++ '\t' :: decimalText (memberList.count '\n')
    ++ '\t' :: tools.sha256sum memberList ++ ['\n']

/-- The calls for the files that `ar x` leaves. -/
def finalCalls (archive : Text) (members : List Member) : List Call :=
  (host.listing ((arX members).entries.map fun e => (e.1, e.2))).map fun file =>
    ⟨archive, file.1, "final".toList, file.2⟩

/-- The body of the loop over the archives. -/
def checkArchive (s : State) (archive : Text) : Except Failure State :=
  match host.archiveAt archive with
  | none => .error (.invalidArchive archive)
  | some members =>
      let memberList := arT members
      let memberCount := memberList.count '\n'
      if memberCount = 0 then .error (.noMembers archive)
      else do
        let s := { s with
          archiveMemberCount := s.archiveMemberCount + memberCount
          actualManifest := s.actualManifest ++ inventoryLine tools host archive memberList }
        let s := (finalCalls host archive members).foldl (checkMemberFile tools) s
        let (s, _) ← (linesOf (uniqCounts memberList)).foldlM
          (checkDuplicates tools archive members) (s, 0)
        return { s with archiveCount := s.archiveCount + 1 }

/-- The lines of `$archive_list`. -/
def archiveList : List Text := sortUnique (linesOf (unlines host.found))

/-- `grep -Ev '^[[:space:]]*(#|$)'`. -/
def pinnedInventory (manifest : Text) : Text :=
  unlines ((linesOf manifest).filter fun line =>
    match line.dropWhile isSpace with
    | [] => false
    | c :: _ => c ≠ '#')

/-- The script. -/
def run : Except Failure State :=
  match host.manifest with
  | none => .error .missingManifest
  | some manifest =>
      if !host.rootsExist then .error .missingRoot
      else do
        let s ← (archiveList host).foldlM (checkArchive tools host) State.init
        if pinnedInventory manifest ≠ s.actualManifest then .error .inventoryDiffers
        else if s.badMembers ≠ [] then .error .invalidMembers
        else return s

end

/-! ## The checks that are made -/

/-- The check of an occurrence of a member; `ar x` leaves the last one of its name. -/
def memberCall (archive : Text) (members : List Member) (e : Member × ℕ) : Call :=
  ⟨archive, e.1.name,
    if e.2 = (members.map Member.name).count e.1.name then "final".toList else decimalText e.2,
    e.1.content⟩

/-- One check for each member of an archive, with its number among the members of its name. -/
def expectedCalls (archive : Text) (members : List Member) : List Call :=
  (occurrences Member.name members).map (memberCall archive members)

/-- Each check of a member is counted, or it has left a line. -/
def Counted (s : State) : Prop := s.badMembers = [] → s.elfMemberCount = s.calls.length

/-- The checks `calls` lead from one state to another. -/
structure Checked (calls : List Call) (s s' : State) : Prop where
  calls_eq : s'.calls = s.calls ++ calls
  archiveMemberCount_eq : s'.archiveMemberCount = s.archiveMemberCount
  counted : Counted s → Counted s'

/-- No check. -/
theorem Checked.refl (s : State) : Checked [] s s := ⟨(List.append_nil _).symm, rfl, id⟩

/-- Checks one after another. -/
theorem Checked.trans {calls calls' : List Call} {s s' s'' : State} (h : Checked calls s s')
    (h' : Checked calls' s' s'') : Checked (calls ++ calls') s s'' where
  calls_eq := by rw [h'.calls_eq, h.calls_eq, List.append_assoc]
  archiveMemberCount_eq := h'.archiveMemberCount_eq.trans h.archiveMemberCount_eq
  counted := fun hs => h'.counted (h.counted hs)

/-- What one check does. -/
theorem checked_checkMemberFile (tools : Tools) (s : State) (call : Call) :
    Checked [call] s (checkMemberFile tools s call) := by
  rw [checkMemberFile]
  split_ifs with hgood
  · refine ⟨rfl, rfl, fun hs hbad => ?_⟩
    show s.elfMemberCount + 1 = (s.calls ++ [call]).length
    rw [hs hbad, List.length_append, List.length_singleton]
  · refine ⟨rfl, rfl, fun _ hbad => ?_⟩
    -- the line about the member is not empty
    have hline := (List.append_eq_nil_iff.mp hbad).2
    exact absurd (List.append_eq_nil_iff.mp hline).2 (by simp)

/-- A loop of checks. -/
theorem checked_foldl (tools : Tools) (calls : List Call) (s : State) :
    Checked calls s (calls.foldl (checkMemberFile tools) s) := by
  induction calls generalizing s with
  | nil => exact Checked.refl s
  | cons call calls ih => exact (checked_checkMemberFile tools s call).trans (ih _)

/-- The check of an occurrence that `ar xN` extracts. -/
def occurrenceCall (archive : Text) (members : List Member) (name : Text) (occurrence : ℕ) :
    List Call :=
  ((arXN members occurrence name).map fun content =>
    ⟨archive, name, decimalText occurrence, content⟩).toList

/-- The loop over the occurrences of a name. -/
theorem checked_checkOccurrence {tools : Tools} {archive : Text} {members : List Member}
    {name : Text} {ks : List ℕ} {s s' : State × ℕ}
    (h : ks.foldlM (checkOccurrence tools archive members name) s = .ok s') :
    Checked (ks.flatMap (occurrenceCall archive members name)) s.1 s'.1 := by
  induction ks generalizing s with
  | nil =>
      obtain rfl : s = s' := by simpa [pure, Except.pure] using h
      exact Checked.refl s.1
  | cons k ks ih =>
      rw [List.foldlM_cons, bind_eq_ok_iff] at h
      obtain ⟨t, ht, hrest⟩ := h
      rw [checkOccurrence] at ht
      split_ifs at ht with hentry
      cases hcontent : arXN members k name with
      | none => simp [hcontent] at ht
      | some content =>
          simp only [hcontent, Except.ok.injEq] at ht
          subst ht
          rw [List.flatMap_cons, occurrenceCall, hcontent]
          exact (checked_checkMemberFile tools s.1 _).trans (ih hrest)

/-- The checks of the occurrences of a name but the last. -/
def earlierCalls (archive : Text) (members : List Member) (name : Text) : List Call :=
  (List.range' 1 ((members.map Member.name).count name - 1)).flatMap
    (occurrenceCall archive members name)

/-- The loop over the lines of `uniq -c`. -/
theorem checked_checkDuplicates {tools : Tools} {archive : Text} {members : List Member}
    {runs : List (ℕ × Text)} (hplain : ∀ run ∈ runs, PlainName run.2)
    (hcount : ∀ run ∈ runs, run.1 = (members.map Member.name).count run.2) {s s' : State × ℕ}
    (h : (runs.map uniqLine).foldlM (checkDuplicates tools archive members) s = .ok s') :
    Checked ((runs.map Prod.snd).flatMap (earlierCalls archive members)) s.1 s'.1 := by
  induction runs generalizing s with
  | nil =>
      obtain rfl : s = s' := by simpa [pure, Except.pure] using h
      exact Checked.refl s.1
  | cons run runs ih =>
      obtain ⟨n, name⟩ := run
      obtain ⟨hname, hplain⟩ := List.forall_mem_cons.mp hplain
      obtain ⟨hn, hcount⟩ := List.forall_mem_cons.mp hcount
      rw [List.map_cons, List.foldlM_cons, bind_eq_ok_iff] at h
      obtain ⟨t, ht, hrest⟩ := h
      rw [checkDuplicates, readTwo_uniqLine n hname] at ht
      simp only [decimalText, Nat.ofDigitChars_ten_toDigits] at ht
      rw [List.map_cons, List.flatMap_cons]
      refine Checked.trans ?_ (ih hplain hcount hrest)
      dsimp only at hn
      rw [earlierCalls, ← hn]
      split_ifs at ht with hmany
      · exact checked_checkOccurrence ht
      · obtain rfl : s = t := by simpa using ht
        have hzero : n - 1 = 0 := by omega
        rw [hzero]
        exact Checked.refl s.1

/-! ## Every member once -/

/-- The check of the file that `ar x` leaves for a name. -/
def lastCall (archive : Text) (members : List Member) (name : Text) : List Call :=
  ((arX members).lookup name).toList.map fun content =>
    ⟨archive, name, "final".toList, content⟩

/-- The number of members of a name. -/
theorem count_name (members : List Member) (name : Text) :
    (members.map Member.name).count name = (members.filter (·.name = name)).length := by
  rw [List.count, List.countP_map, List.countP_eq_length_filter]
  congr 1
  refine List.filter_congr fun m _ => ?_
  simp [beq_eq_decide]

/-- The file of a name has the content of its last member. -/
theorem lookup_arX (members : List Member) (name : Text) :
    (arX members).lookup name = ((members.filter (·.name = name)).getLast?).map Member.content := by
  rw [arX, Dict.lookup_fill, AList.lookup_empty, Option.or_none, List.filter_map, List.getLast?_map,
    Option.map_map]
  rfl

/-- **The checks of a name are those of its members.** -/
theorem earlierCalls_append_lastCall (archive : Text) (members : List Member) (name : Text) :
    earlierCalls archive members name ++ lastCall archive members name
      = ((members.filter (·.name = name)).zipIdx 1).map (memberCall archive members) := by
  have hcount := count_name members name
  have hname : ∀ m ∈ members.filter (·.name = name), m.name = name := fun m hm => by
    simpa using (List.mem_filter.mp hm).2
  rw [earlierCalls, lastCall, lookup_arX, hcount]
  rcases List.eq_nil_or_concat (members.filter (·.name = name)) with hnil | ⟨init, last, hms⟩
  · rw [hnil]
    rfl
  rw [List.concat_eq_append] at hms
  have hlast : last.name = name := hname last (by rw [hms]; simp)
  have hearlier : (List.range' 1 init.length).flatMap (occurrenceCall archive members name)
      = (init.zipIdx 1).map (memberCall archive members) := by
    have hcalls := flatMap_getElem?_range'
      (fun (m : Member) i => (⟨archive, name, decimalText i, m.content⟩ : Call)) [] init [last]
    calc (List.range' 1 init.length).flatMap (occurrenceCall archive members name)
      _ = (init.zipIdx 1).map fun e => ⟨archive, name, decimalText e.2, e.1.content⟩ := by
          refine Eq.trans (List.flatMap_congr fun i hi => ?_) hcalls
          have hpos : i ≠ 0 := by
            have := (List.mem_range'_1.mp hi).1
            omega
          rw [occurrenceCall, arXN, if_neg hpos, hms, Option.map_map]
          rfl
      _ = (init.zipIdx 1).map (memberCall archive members) := by
          refine List.map_congr_left fun e he => ?_
          obtain ⟨m, i⟩ := e
          obtain ⟨-, hi, hm⟩ := List.mem_zipIdx he
          have hmem : m ∈ init := hm ▸ List.getElem_mem _
          have hmname : m.name = name := hname m (by rw [hms]; simp [hmem])
          rw [hms, List.length_append, List.length_singleton] at hcount
          -- the number is below that of the last member
          rw [memberCall]
          dsimp only
          rw [hmname, hcount, if_neg (by omega)]
  rw [hms, List.length_append, List.length_singleton, Nat.add_sub_cancel, hearlier,
    List.getLast?_concat, List.zipIdx_append, List.map_append]
  congr 1
  rw [hms, List.length_append, List.length_singleton] at hcount
  have hfinal : init.length + 1 = (members.map Member.name).count last.name := by rw [hlast, hcount]
  show [_] = [memberCall archive members (last, 1 + init.length)]
  rw [memberCall]
  dsimp only
  rw [if_pos (by omega), hlast]

/-- **The checks of an archive are those of its members.** -/
theorem perm_expectedCalls (host : Host) (archive : Text) (members : List Member) {names : List Text}
    (hnodup : names.Nodup) (hmem : ∀ name, name ∈ names ↔ name ∈ members.map Member.name) :
    (finalCalls host archive members ++ names.flatMap (earlierCalls archive members)).Perm
      (expectedCalls archive members) := by
  have hkeys : (arX members).keys.Perm names := by
    refine (List.perm_ext_iff_of_nodup (arX members).keys_nodup hnodup).mpr fun name => ?_
    rw [hmem, Dict.mem_keys_iff, lookup_arX, ← Option.isSome_iff_exists, Option.isSome_map,
      List.getLast?_isSome, List.mem_map]
    simp [List.filter_eq_nil_iff]
  have hfinal : (finalCalls host archive members).Perm
      (names.flatMap (lastCall archive members)) := by
    refine ((host.perm_listing _).map _).trans ?_
    rw [List.map_map]
    refine Perm.trans (List.Perm.of_eq (Dict.map_entries (arX members)
      fun name content => (⟨archive, name, "final".toList, content⟩ : Call))) ?_
    exact hkeys.flatMap_right _
  calc finalCalls host archive members ++ names.flatMap (earlierCalls archive members)
    _ ~ names.flatMap (lastCall archive members) ++ names.flatMap (earlierCalls archive members) :=
        hfinal.append_right _
    _ ~ names.flatMap (earlierCalls archive members) ++ names.flatMap (lastCall archive members) :=
        List.perm_append_comm
    _ ~ names.flatMap fun name =>
          earlierCalls archive members name ++ lastCall archive members name :=
        List.flatMap_append_perm _ _ _
    _ = names.flatMap fun name =>
          ((members.filter (·.name = name)).zipIdx 1).map (memberCall archive members) :=
        List.flatMap_congr fun name _ => earlierCalls_append_lastCall archive members name
    _ = (names.flatMap fun name => (members.filter (·.name = name)).zipIdx 1).map
          (memberCall archive members) := List.map_flatMap.symm
    _ ~ expectedCalls archive members :=
        (perm_occurrences hnodup fun m hm => (hmem m.name).mpr (List.mem_map_of_mem hm)).symm.map _

/-! ## Runs -/

/-- The checks of the members of the archive at a path. -/
def Host.memberCalls (host : Host) (archive : Text) : List Call :=
  ((host.archiveAt archive).map (expectedCalls archive)).getD []

/-- The archive at the path has members whose names are read back. -/
def Host.PlainArchive (host : Host) (archive : Text) : Prop :=
  ∀ members, host.archiveAt archive = some members → ∀ m ∈ members, PlainName m.name

/-- A state of a run: the checks were those of the members of the archives, and each member is
counted. -/
structure Audited (host : Host) (archives : List Text) (s : State) : Prop where
  calls : s.calls.Perm (archives.flatMap host.memberCalls)
  archiveMemberCount_eq : s.archiveMemberCount = s.calls.length
  counted : Counted s

/-- There is a check for each member. -/
theorem length_expectedCalls (archive : Text) (members : List Member) :
    (expectedCalls archive members).length = members.length := by
  rw [expectedCalls, List.length_map, occurrences]
  conv_rhs => rw [← map_occurrencesAfter Member.name [] members, List.length_map]

/-- **One turn of the loop over the archives.** -/
theorem audited_checkArchive {tools : Tools} {host : Host} {archives : List Text} {archive : Text}
    (hplain : host.PlainArchive archive) {s s' : State} (hs : Audited host archives s)
    (h : checkArchive tools host s archive = .ok s') : Audited host (archives ++ [archive]) s' := by
  rw [checkArchive] at h
  cases harchive : host.archiveAt archive with
  | none => simp [harchive] at h
  | some members =>
      simp only [harchive] at h
      split_ifs at h with hnone
      obtain ⟨⟨t, index⟩, hloop, hpure⟩ := bind_eq_ok_iff.mp h
      simp only [pure, Except.pure, Except.ok.injEq] at hpure
      have hnames : ∀ name ∈ members.map Member.name, PlainName name :=
        List.forall_mem_map.mpr (hplain members harchive)
      have hfree : ∀ name ∈ members.map Member.name, '\n' ∉ name := fun name hname =>
        (hnames name hname).1
      obtain ⟨hnodup, hcount, hmem⟩ := countRuns_sortLines (members.map Member.name)
      have hruns : ∀ run ∈ countRuns (sortLines (members.map Member.name)), PlainName run.2 :=
        fun run hrun => hnames run.2 ((hmem run.2).mp (List.mem_map_of_mem hrun))
      have hlines : linesOf (uniqCounts (arT members))
          = (countRuns (sortLines (members.map Member.name))).map uniqLine := by
        rw [uniqCounts, arT, linesOf_unlines_of_plain hfree]
        exact linesOf_unlines_of_plain (List.forall_mem_map.mpr fun run hrun =>
          not_mem_uniqLine run.1 (hruns run hrun).1)
      rw [hlines] at hloop
      -- the files that `ar x` leaves, and then the earlier members of each name
      have hchecked := (checked_foldl tools (finalCalls host archive members) _).trans
        (checked_checkDuplicates hruns hcount hloop)
      have hperm := perm_expectedCalls host archive members hnodup hmem
      have hcalls := hchecked.calls_eq
      have hmembers := hchecked.archiveMemberCount_eq
      dsimp only at hcalls hmembers
      subst hpure
      refine ⟨?_, ?_, hchecked.counted hs.counted⟩
      · rw [hcalls, List.flatMap_append, List.flatMap_singleton, Host.memberCalls, harchive]
        exact hs.calls.append hperm
      · rw [hmembers, hcalls, List.length_append, hperm.length_eq, length_expectedCalls,
          hs.archiveMemberCount_eq, arT, count_unlines hfree, List.length_map]

/-- **The loop over the archives.** -/
theorem audited_foldlM {tools : Tools} {host : Host} {archives rest : List Text}
    (hplain : ∀ archive ∈ rest, host.PlainArchive archive) {s s' : State}
    (hs : Audited host archives s) (h : rest.foldlM (checkArchive tools host) s = .ok s') :
    Audited host (archives ++ rest) s' := by
  induction rest generalizing archives s with
  | nil =>
      obtain rfl : s = s' := by simpa [pure, Except.pure] using h
      rwa [List.append_nil]
  | cons archive rest ih =>
      rw [List.foldlM_cons, bind_eq_ok_iff] at h
      obtain ⟨t, ht, hrest⟩ := h
      obtain ⟨harchive, hplain⟩ := List.forall_mem_cons.mp hplain
      have hnext := ih hplain (audited_checkArchive harchive hs ht) hrest
      rwa [List.append_assoc, List.singleton_append] at hnext

/-- A path that is found is a line of the list of archives, if it has no line feed. -/
theorem mem_archiveList {host : Host} {path : Text} (h : path ∈ host.found) (hpath : '\n' ∉ path) :
    path ∈ archiveList host := by
  rw [archiveList, sortUnique, (countRuns_sortLines _).2.2, linesOf_unlines]
  exact List.mem_flatMap.mpr ⟨path, h, by rw [List.splitOn_eq_singleton hpath]; simp⟩

/-- **A run that succeeds has checked every member of every archive exactly once**, if the names of
members can be read back: each archive is listed once, the checks are one for each member of each
archive, with its content, and each member is counted. -/
theorem checked_exactly_once {tools : Tools} {host : Host} {s : State}
    (hplain : ∀ archive ∈ archiveList host, host.PlainArchive archive)
    (h : run tools host = .ok s) :
    (archiveList host).Nodup
      ∧ (∀ path ∈ host.found, '\n' ∉ path → path ∈ archiveList host)
      ∧ s.calls.Perm ((archiveList host).flatMap host.memberCalls)
      ∧ s.elfMemberCount = s.archiveMemberCount := by
  refine ⟨(countRuns_sortLines _).1, fun path hpath => mem_archiveList hpath, ?_⟩
  rw [run] at h
  cases hmanifest : host.manifest with
  | none => simp [hmanifest] at h
  | some manifest =>
      simp only [hmanifest] at h
      split_ifs at h with hroots
      obtain ⟨t, hloop, h⟩ := bind_eq_ok_iff.mp h
      split_ifs at h with hinventory hbad
      obtain rfl : t = s := by simpa [pure, Except.pure] using h
      have hinit : Audited host [] State.init := ⟨Perm.refl _, rfl, fun _ => rfl⟩
      have haudited := audited_foldlM hplain hinit hloop
      rw [List.nil_append] at haudited
      refine ⟨haudited.calls, ?_⟩
      rw [haudited.counted (not_not.mp hbad), haudited.archiveMemberCount_eq]

/-! ## An archive with a repeated name -/

/-- A relocatable object for AArch64 without sections: the header of the file and the null section. -/
def emptyObject : Bytes :=
  [0x7f, 0x45, 0x4c, 0x46, 2, 1, 1, 0] ++ List.replicate 8 0 ++ [1, 0, 183, 0, 1, 0, 0, 0]
    ++ List.replicate 16 0 ++ [64, 0, 0, 0, 0, 0, 0, 0] ++ List.replicate 4 0
    ++ [64, 0, 0, 0, 0, 0, 64, 0, 1, 0, 0, 0] ++ List.replicate 64 0

/-- What the programs print about the members of the archive. -/
def probeTools : Tools where
  objdump content :=
    if [0x7f, 0x45, 0x4c, 0x46] <+: content then
      (true, "\nprobe.o:     file format elf64-littleaarch64\n".toList
        ++ "architecture: aarch64, flags 0x00000000:\n\n".toList
        ++ "start address 0x0000000000000000\n\n".toList)
    else (false, "file format not recognized\n".toList)
  readelf content :=
    if [0x7f, 0x45, 0x4c, 0x46] <+: content then
      (true, "ELF Header:\n".toList
        ++ "  Class:                             ELF64\n".toList
        ++ "  Type:                              REL (Relocatable file)\n".toList
        ++ "  Machine:                           AArch64\n".toList)
    else (false, "readelf: Error: Not an ELF file\n".toList)
  sha256sum text :=
    if text = "probe.o\ncrt.o\nprobe.o\n".toList then
      "e8813cdddfd2f65424790f64958d4b7fa303e9a7f5e0df307430132a7d598e5f".toList
    else []

/-- The members of the archive: two of them have a name. -/
def probeMembers : List Member :=
  [⟨"probe.o".toList, emptyObject ++ [0]⟩, ⟨"crt.o".toList, emptyObject ++ [1]⟩,
    ⟨"probe.o".toList, emptyObject ++ [2]⟩]

/-- A package with one archive. -/
def probeHost : Host where
  packageRoot := "/ndk".toList
  manifest := some ("prebuilt/linux-aarch64/lib/probe.a\t3\t".toList
    ++ "e8813cdddfd2f65424790f64958d4b7fa303e9a7f5e0df307430132a7d598e5f\n".toList)
  rootsExist := true
  found := ["/ndk/prebuilt/linux-aarch64/lib/probe.a".toList]
  archiveAt path :=
    if path = "/ndk/prebuilt/linux-aarch64/lib/probe.a".toList then some probeMembers else none
  listing := id
  perm_listing files := Perm.refl files

/-- Both members of the repeated name are checked. -/
theorem checked_exactly_once_probe : ∃ s, run probeTools probeHost = .ok s
    ∧ s.elfMemberCount = s.archiveMemberCount
    ∧ s.calls.Perm
      [⟨"/ndk/prebuilt/linux-aarch64/lib/probe.a".toList, "probe.o".toList, ['1'],
          emptyObject ++ [0]⟩,
        ⟨"/ndk/prebuilt/linux-aarch64/lib/probe.a".toList, "crt.o".toList, "final".toList,
          emptyObject ++ [1]⟩,
        ⟨"/ndk/prebuilt/linux-aarch64/lib/probe.a".toList, "probe.o".toList, "final".toList,
          emptyObject ++ [2]⟩] := by
  have hok : (run probeTools probeHost).toOption.isSome = true := by decide +kernel
  obtain ⟨s, hrun⟩ : ∃ s, run probeTools probeHost = .ok s := by
    cases hrun : run probeTools probeHost with
    | error e =>
        rw [hrun] at hok
        cases hok
    | ok s => exact ⟨s, rfl⟩
  have hplain : ∀ archive ∈ archiveList probeHost, probeHost.PlainArchive archive := by
    intro archive _ members hmembers
    have hmembers : (if archive = "/ndk/prebuilt/linux-aarch64/lib/probe.a".toList
      then some probeMembers else none) = some members := hmembers
    split_ifs at hmembers with hpath
    rw [Option.some.injEq] at hmembers
    rw [← hmembers]
    decide +kernel
  obtain ⟨-, -, hcalls, hcount⟩ := checked_exactly_once hplain hrun
  refine ⟨s, hrun, hcount, hcalls.trans (Perm.of_eq ?_)⟩
  rfl

end AndroidSdk.Scripts.HostArchives
