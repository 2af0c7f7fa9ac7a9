import Mathlib.Logic.Relation
import AndroidSdk.Lib.Run
import AndroidSdk.FileTree.Tree

/-! # Dependency closure of the NDK host files

`validate-sdk.sh` goes twice through the ELF files of nine host directories of the NDK. The first
pass registers their SONAMEs, the second one looks up every library they need. Both read the text
that `readelf -d` prints.

* **`registerSonames`**, **`checkClosure`**, **`scanElfs`**, **`passes`** — the two passes.
* **`DependencyClosed`** — no chain of needed libraries leaves the packaged files, apart from the
  permitted names.
* **`dependencyClosed_of_passes`** — the passes establish this where the names can be read back from
  the printed text.
* **`not_dependencyClosed_bracketed`** — with a closing bracket in a name they do not. -/

namespace AndroidSdk.Scripts

open Lib FileTree

/-- What the programs see a text as in the locale of the script. -/
inductive Symbol where
  /-- A character. -/
  | char (c : Char)
  /-- A byte that belongs to no character, such as `\xff` in a UTF-8 locale. -/
  | stray (byte : UInt8)
  deriving DecidableEq

/-- Texts that the script handles: names and outputs of programs. -/
abbrev Text := List Symbol

/-- A symbol that is a character. -/
def Symbol.isChar : Symbol → Bool
  | .char _ => true
  | .stray _ => false

/-- A text of characters. -/
def textOf (s : String) : Text := s.toList.map .char

/-- The line feed. -/
def newline : Symbol := .char '\n'

/-- The bracket behind a name. -/
def closeBracket : Symbol := .char ']'

/-! ## What `readelf` prints -/

/-- A line that `readelf -d` prints. -/
inductive DynamicLine where
  /-- A `DT_NEEDED` entry with the name of the library. -/
  | needed (name : Text)
  /-- A `DT_SONAME` entry with the name of the file itself. -/
  | soname (name : Text)
  /-- The head of the table, another entry or a warning. -/
  | other (text : Text)
  deriving DecidableEq

/-- What `readelf` prints before the name of a needed library. -/
def sharedLabel : Text := textOf "Shared library: ["

/-- What `readelf` prints before the SONAME. -/
def sonameLabel : Text := textOf "Library soname: ["

/-- The tag columns of a `DT_NEEDED` entry. -/
def neededColumns : Text := textOf " 0x0000000000000001 (NEEDED)             "

/-- The tag columns of a `DT_SONAME` entry. -/
def sonameColumns : Text := textOf " 0x000000000000000e (SONAME)             "

/-- The text of a line. -/
def DynamicLine.render : DynamicLine → Text
  | .needed name => neededColumns ++ (sharedLabel ++ name ++ [closeBracket])
  | .soname name => sonameColumns ++ (sonameLabel ++ name ++ [closeBracket])
  | .other text => text

/-- The name of a needed library. -/
def DynamicLine.needed? : DynamicLine → Option Text
  | .needed name => some name
  | _ => none

/-- The SONAME in a line. -/
def DynamicLine.soname? : DynamicLine → Option Text
  | .soname name => some name
  | _ => none

/-- The dynamic section of an ELF file as `readelf -d` shows it, with at most one SONAME. -/
structure DynamicSection where
  lines : List DynamicLine
  oneSoname : (lines.filterMap DynamicLine.soname?).length ≤ 1

/-- The output of `readelf -d`. -/
def DynamicSection.output (d : DynamicSection) : Text :=
  [newline].intercalate (d.lines.map DynamicLine.render)

/-- The programs that the script runs on a file, by its content. -/
structure Toolset where
  /-- The text that `file -b` prints. -/
  kind : Bytes → Text
  /-- Whether `check-aarch64-elf.sh` succeeds. -/
  isAarch64Elf : Bytes → Bool
  /-- What `readelf -d` prints, unless it fails. -/
  readelf : Bytes → Option DynamicSection

/-- The libraries that a file needs. -/
def Toolset.needed (tools : Toolset) (content : Bytes) : List Text :=
  match tools.readelf content with
  | some d => d.lines.filterMap DynamicLine.needed?
  | none => []

/-- The SONAME of a file. -/
def Toolset.soname (tools : Toolset) (content : Bytes) : Option Text :=
  match tools.readelf content with
  | some d => (d.lines.filterMap DynamicLine.soname?).head?
  | none => none

/-! ## The script -/

/-- The ways in which the passes die. -/
inductive Failure where
  /-- "required NDK host directory is missing". -/
  | missingDirectory (root : Path)
  /-- The file "is not a structurally valid AArch64 ELF". -/
  | notAarch64Elf (path : Path)
  /-- "cannot read NDK host ELF dynamic section". -/
  | unreadableDynamicSection (path : Path)
  /-- "unexpected external shared-library dependency". -/
  | unexpectedDependency (path : Path) (dependency : Text)
  /-- "NDK host ELF depends on an unpackaged shared library". -/
  | unpackagedLibrary (path : Path) (dependency : Text)
  deriving DecidableEq

/-- Whether a host directory is searched with `-maxdepth 1`. -/
inductive Scope where
  | recursive | shallow
  deriving DecidableEq

/-- `$ndk_toolchain` below `$ndk`. -/
def ndkToolchain : String := "toolchains/llvm/prebuilt/linux-aarch64"

/-- `ndk_recursive_host_roots` and then `ndk_shallow_host_roots`, below `$ndk`. -/
def ndkHostRoots : List (Path × Scope) :=
  [(pathOf (ndkToolchain ++ "/bin"), .recursive),
   (pathOf (ndkToolchain ++ "/python3"), .recursive),
   (pathOf (ndkToolchain ++ "/lib/python3.11"), .recursive),
   (pathOf "prebuilt/linux-aarch64/bin", .recursive),
   (pathOf "shader-tools/linux-aarch64", .recursive),
   (pathOf "simpleperf/bin/linux/aarch64", .recursive),
   (pathOf (ndkToolchain ++ "/lib"), .shallow),
   (pathOf (ndkToolchain ++ "/lib/aarch64-unknown-linux-gnu"), .shallow),
   (pathOf (ndkToolchain ++ "/musl/lib"), .shallow)]

/-- `nis_extension`, below `$ndk`. -/
def nisExtension : Path :=
  pathOf (ndkToolchain ++
    "/python3/lib/python3.11/lib-dynload/nis.cpython-311-aarch64-linux-gnu.so")

/-- The names that the first branch of the `case` lets pass. -/
def runtimeNames : List Text :=
  ["libc.so.6", "libm.so.6", "libdl.so.2", "libpthread.so.0", "librt.so.1",
    "ld-linux-aarch64.so.1"].map textOf

/-- The name that only the nis extension may need. -/
def nslName : Text := textOf "libnsl.so.1"

/-- `find root [-maxdepth 1] -type f` in a directory. -/
def findFiles (root : Path) (scope : Scope) (children : List (Name × Node)) : List (Path × Bytes) :=
  (walk asScanned children).filterMap fun e =>
    match e.2 with
    | .regular _ content =>
        if scope = .shallow ∧ 1 < e.1.length then none else some (root ++ e.1, content)
    | _ => none

/-- The files below a host directory; the script dies if it is missing. -/
def filesBelow (ndk : Tree) (root : Path × Scope) : Except Failure (List (Path × Bytes)) :=
  match lookup ndk.children root.1 with
  | some (.directory _ children) => .ok (findFiles root.1 root.2 children)
  | _ => .error (.missingDirectory root.1)

section

variable (tools : Toolset)

/-- `[[ "$kind" == ELF* ]]`. -/
def isElf (content : Bytes) : Bool := textOf "ELF" <+: tools.kind content

/-- `read_elf_dynamic_section`, as substituted into `dynamic_section`. -/
def readElfDynamicSection (content : Bytes) : Option Text :=
  match tools.readelf content with
  | some d => if textOf "Error:" <:+: d.output then none else some (stripNewlines newline d.output)
  | none => none

/-- The substitution in the rest of a line, behind the characters of a run. Neither `.` nor `[^]]`
matches a stray byte, so a match lies in one run of characters, and what surrounds the run stays. -/
def substituteFrom (label run : Text) : Text → Option Text
  | [] => captureLast label closeBracket run
  | .char c :: rest => substituteFrom label (run ++ [.char c]) rest
  | .stray byte :: rest =>
      match captureLast label closeBracket run with
      | some name => some (name ++ .stray byte :: rest)
      | none => (substituteFrom label [] rest).map (run ++ .stray byte :: ·)

/-- What `sed -n 's/.*label\([^]]*\)\].*/\1/p'` prints for a line. -/
def sedLine (label line : Text) : Option Text := substituteFrom label [] line

/-- The output lines of this `sed`. -/
def sedCaptures (label dynamicSection : Text) : List Text :=
  (dynamicSection.splitOn newline).filterMap (sedLine label)

/-- `soname`, as substituted from the output lines of `sed`. -/
def sonameOf (dynamicSection : Text) : Text :=
  stripNewlines newline ((sedCaptures sonameLabel dynamicSection).flatMap (· ++ [newline]))

/-- `ndk_packaged_host_sonames`. -/
abbrev Sonames := Dict Text Path

/-- The loop body of `register_ndk_packaged_host_sonames`. -/
def registerFile (sonames : Sonames) (file : Path × Bytes) : Except Failure Sonames :=
  if isElf tools file.2 then
    if tools.isAarch64Elf file.2 then
      match readElfDynamicSection tools file.2 with
      | some dynamicSection =>
          let soname := sonameOf dynamicSection
          if soname ≠ [] then .ok (sonames.insert soname file.1) else .ok sonames
      | none => .error (.unreadableDynamicSection file.1)
    else .error (.notAarch64Elf file.1)
  else .ok sonames

/-- `register_ndk_packaged_host_sonames`. -/
def registerSonames (ndk : Tree) (sonames : Sonames) (root : Path × Scope) :
    Except Failure Sonames := do
  (← filesBelow ndk root).foldlM (registerFile tools) sonames

/-- The loop body of `check_ndk_host_dependency_closure`. -/
def checkDependency (sonames : Sonames) (path : Path) (dependency : Text) : Except Failure Unit :=
  if dependency ∈ runtimeNames then .ok ()
  else if dependency = nslName then
    if path = nisExtension then .ok () else .error (.unexpectedDependency path dependency)
  else if dependency ∈ sonames then .ok ()
  else .error (.unpackagedLibrary path dependency)

/-- `check_ndk_host_dependency_closure`. -/
def checkClosure (sonames : Sonames) (file : Path × Bytes) : Except Failure Unit :=
  match readElfDynamicSection tools file.2 with
  | some dynamicSection =>
      (sedCaptures sharedLabel dynamicSection).forM (checkDependency sonames file.1)
  | none => .error (.unreadableDynamicSection file.1)

/-- The loop body of `scan_ndk_host_elfs`; the count is `ndk_host_elf_count`. -/
def scanFile (sonames : Sonames) (count : ℕ) (file : Path × Bytes) : Except Failure ℕ :=
  if isElf tools file.2 then do
    checkClosure tools sonames file
    return count + 1
  else return count

/-- `scan_ndk_host_elfs`. -/
def scanElfs (ndk : Tree) (sonames : Sonames) (count : ℕ) (root : Path × Scope) :
    Except Failure ℕ := do
  (← filesBelow ndk root).foldlM (scanFile tools sonames) count

/-- The registration pass and the scan pass over all host directories. -/
def passes (ndk : Tree) : Except Failure ℕ := do
  let sonames ← ndkHostRoots.foldlM (registerSonames tools ndk) ∅
  ndkHostRoots.foldlM (scanElfs tools ndk sonames) 0

end

/-! ## Chains of needed libraries -/

/-- A host ELF file: an ELF file that `find` meets below one of the host directories. -/
def IsHostElf (tools : Toolset) (ndk : Tree) (file : Path × Bytes) : Prop :=
  isElf tools file.2 = true ∧
    ∃ root ∈ ndkHostRoots, ∃ files, filesBelow ndk root = .ok files ∧ file ∈ files

/-- One step of a chain: from a file to a host ELF file under the SONAME that the first one
needs. -/
def Follows (tools : Toolset) (ndk : Tree) (file next : Path × Bytes) : Prop :=
  IsHostElf tools ndk next ∧ ∃ name ∈ tools.needed file.2, tools.soname next.2 = some name

/-- A file may need a runtime library, a packaged one or, for the nis extension, `libnsl.so.1`. -/
def Allowed (tools : Toolset) (ndk : Tree) (file : Path × Bytes) (name : Text) : Prop :=
  name ∈ runtimeNames
    ∨ (∃ packaged, IsHostElf tools ndk packaged ∧ tools.soname packaged.2 = some name)
    ∨ (name = nslName ∧ file.1 = nisExtension)

/-- No chain that starts at a host ELF file reaches a name that is not allowed. -/
def DependencyClosed (tools : Toolset) (ndk : Tree) : Prop :=
  ∀ file last, IsHostElf tools ndk file → Relation.ReflTransGen (Follows tools ndk) file last →
    ∀ name ∈ tools.needed last.2, Allowed tools ndk last name

/-- A name that can be read back from the text of `readelf`. -/
structure PlainName (name : Text) : Prop where
  isText : ∀ symbol ∈ name, symbol.isChar
  noClose : closeBracket ∉ name
  noNewline : newline ∉ name
  noShared : ¬ sharedLabel <:+: name
  noSoname : ¬ sonameLabel <:+: name

/-- A line whose names can be read back, and that shows no SONAME where there is none. -/
def PlainLine : DynamicLine → Prop
  | .needed name => PlainName name
  | .soname name => PlainName name
  | .other text => newline ∉ text ∧ ¬ sonameLabel <:+: text

instance (name : Text) : Decidable (PlainName name) :=
  decidable_of_iff
    ((∀ symbol ∈ name, symbol.isChar) ∧ closeBracket ∉ name ∧ newline ∉ name
      ∧ ¬ sharedLabel <:+: name ∧ ¬ sonameLabel <:+: name)
    ⟨fun h => ⟨h.1, h.2.1, h.2.2.1, h.2.2.2.1, h.2.2.2.2⟩,
      fun h => ⟨h.isText, h.noClose, h.noNewline, h.noShared, h.noSoname⟩⟩

instance (line : DynamicLine) : Decidable (PlainLine line) :=
  match line with
  | .needed name => inferInstanceAs (Decidable (PlainName name))
  | .soname name => inferInstanceAs (Decidable (PlainName name))
  | .other text => inferInstanceAs (Decidable (newline ∉ text ∧ ¬ sonameLabel <:+: text))

/-! ## Names read back from the text -/

/-- In a text of characters the substitution is the last capture. -/
theorem substituteFrom_eq_captureLast {label line : Text} (h : ∀ symbol ∈ line, symbol.isChar)
    (run : Text) :
    substituteFrom label run line = captureLast label closeBracket (run ++ line) := by
  induction line generalizing run with
  | nil => rw [substituteFrom, List.append_nil]
  | cons symbol line ih =>
      cases symbol with
      | char c =>
          rw [substituteFrom, ih fun s hs => h s (List.mem_cons_of_mem _ hs), List.append_assoc]
          rfl
      | stray byte => exact absurd (h _ List.mem_cons_self) Bool.false_ne_true

/-- Without the label nothing is substituted. -/
theorem substituteFrom_eq_none {label run line : Text} (h : ¬ label <:+: run ++ line) :
    substituteFrom label run line = none := by
  induction line generalizing run with
  | nil =>
      rw [List.append_nil] at h
      exact captureLast_eq_none h
  | cons symbol line ih =>
      cases symbol with
      | char c =>
          rw [List.append_cons] at h
          exact ih h
      | stray byte =>
          have hrun : ¬ label <:+: run := fun hin => h (hin.trans (List.prefix_append _ _).isInfix)
          have hline : ¬ label <:+: line := fun hin => h (hin.trans
            ((List.suffix_cons _ _).trans (List.suffix_append _ _)).isInfix)
          rw [substituteFrom, captureLast_eq_none hrun]
          dsimp only
          rw [ih (by simpa using hline), Option.map_none]

/-- Texts of characters have no stray byte. -/
theorem isChar_of_mem_textOf {s : String} {symbol : Symbol} (h : symbol ∈ textOf s) :
    symbol.isChar := by
  obtain ⟨c, -, rfl⟩ := List.mem_map.mp h
  rfl

/-- The labels end with an opening bracket, so that no closing one completes them. -/
theorem not_infix_concat_close {label name : Text} (hlabel : label.getLast? = some (.char '['))
    (h : ¬ label <:+: name) : ¬ label <:+: name ++ [closeBracket] := by
  intro hin
  rcases List.infix_concat_iff.mp hin with hsuffix | hin
  · obtain ⟨before, hbefore⟩ := hsuffix
    have hlast := congrArg List.getLast? hbefore
    have hne : label ≠ [] := fun hnil => by simp [hnil] at hlabel
    rw [List.getLast?_append, hlabel, List.getLast?_append] at hlast
    simp [closeBracket] at hlast
  · exact h hin

/-- The first character of the label of needed libraries. -/
theorem head_sharedLabel : sharedLabel.head? = some (.char 'S') := by decide +kernel

/-- The first character of the label of SONAMEs. -/
theorem head_sonameLabel : sonameLabel.head? = some (.char 'L') := by decide +kernel

/-- A name with a stray byte is not printed. -/
example : sedLine sharedLabel (DynamicLine.needed [.char 'a', .stray 0xff]).render = none := by
  decide +kernel

/-- A labelled name is captured from its line. -/
theorem sedLine_labelled {columns label : String} {first : Char} {name : Text}
    (hhead : (textOf label).head? = some (.char first))
    (hfirst : .char first ∉ (textOf label).tail)
    (hlast : (textOf label).getLast? = some (.char '['))
    (h : PlainName name) (hlabel : ¬ textOf label <:+: name) :
    sedLine (textOf label) (textOf columns ++ (textOf label ++ name ++ [closeBracket]))
      = some name := by
  rw [sedLine, substituteFrom_eq_captureLast, List.nil_append]
  · refine captureLast_append (captureLast_label hhead hfirst h.noClose ?_) _
    exact not_infix_concat_close hlast hlabel
  · intro symbol hsymbol
    simp only [List.mem_append, List.mem_singleton] at hsymbol
    rcases hsymbol with hcolumns | (hlabel | hname) | rfl
    · exact isChar_of_mem_textOf hcolumns
    · exact isChar_of_mem_textOf hlabel
    · exact h.isText symbol hname
    · rfl

/-- A needed name is captured from its line. -/
theorem sedLine_needed {name : Text} (h : PlainName name) :
    sedLine sharedLabel (DynamicLine.needed name).render = some name :=
  sedLine_labelled head_sharedLabel (by decide +kernel) (by decide +kernel) h h.noShared

/-- A SONAME is captured from its line. -/
theorem sedLine_soname {name : Text} (h : PlainName name) :
    sedLine sonameLabel (DynamicLine.soname name).render = some name :=
  sedLine_labelled head_sonameLabel (by decide +kernel) (by decide +kernel) h h.noSoname

/-- A text without the first character of a label completes no label behind it. -/
theorem not_infix_append {label before l : Text} {first : Symbol}
    (hlabel : label.head? = some first) (hbefore : first ∉ before) (h : ¬ label <:+: l) :
    ¬ label <:+: before ++ l := by
  induction before with
  | nil => exact h
  | cons symbol before ih =>
      rw [List.cons_append, List.infix_cons_iff]
      rintro (hstarts | hin)
      · obtain ⟨rest, rfl⟩ := List.head?_eq_some_iff.mp hlabel
        exact hbefore ((List.cons_prefix_cons.mp hstarts).1 ▸ List.mem_cons_self)
      · exact ih (fun hmem => hbefore (List.mem_cons_of_mem _ hmem)) hin

/-- Only SONAME lines show a SONAME. -/
theorem sedLine_sonameLabel {line : DynamicLine} (h : PlainLine line) :
    sedLine sonameLabel line.render = line.soname? := by
  cases line with
  | needed name =>
      have hcolumns : .char 'L' ∉ neededColumns := by decide +kernel
      have hlabel : .char 'L' ∉ sharedLabel := by decide +kernel
      refine substituteFrom_eq_none ?_
      rw [List.nil_append, DynamicLine.render, List.append_assoc]
      refine not_infix_append head_sonameLabel hcolumns ?_
      refine not_infix_append head_sonameLabel hlabel ?_
      exact not_infix_concat_close (by decide +kernel) h.noSoname
  | soname name => exact sedLine_soname h
  | other text => exact substituteFrom_eq_none h.2

/-- The text of a plain line is one line. -/
theorem newline_notMem_render {line : DynamicLine} (h : PlainLine line) :
    newline ∉ line.render := by
  cases line with
  | needed name =>
      have hname := h.noNewline
      simp only [DynamicLine.render, List.mem_append, not_or]
      exact ⟨by decide +kernel, ⟨by decide +kernel, hname⟩, by decide⟩
  | soname name =>
      have hname := h.noNewline
      simp only [DynamicLine.render, List.mem_append, not_or]
      exact ⟨by decide +kernel, ⟨by decide +kernel, hname⟩, by decide⟩
  | other text => exact h.1

/-- The lines that `sed` sees are the lines that `readelf` printed. -/
theorem sedCaptures_stripNewlines (label : Text) {d : DynamicSection}
    (h : ∀ line ∈ d.lines, PlainLine line) :
    sedCaptures label (stripNewlines newline d.output)
      = d.lines.filterMap fun line => sedLine label line.render := by
  rw [sedCaptures, filterMap_splitOn_stripNewlines rfl, DynamicSection.output]
  by_cases hnil : d.lines = []
  · simp [hnil, sedLine, substituteFrom, captureLast]
  · rw [List.splitOn_intercalate newline ?_ (by simpa using hnil), List.filterMap_map]
    · rfl
    · intro l hl
      obtain ⟨line, hmem, rfl⟩ := List.mem_map.mp hl
      exact newline_notMem_render (h line hmem)

variable {tools : Toolset} {ndk : Tree}

/-- The host ELF files whose dynamic sections can be read back. -/
def Readable (tools : Toolset) (ndk : Tree) : Prop :=
  ∀ file, IsHostElf tools ndk file → ∀ d, tools.readelf file.2 = some d →
    ∀ line ∈ d.lines, PlainLine line

/-- Every needed library of a readable file is among the captures. -/
theorem mem_sedCaptures_of_needed {d : DynamicSection} {name : Text}
    (hd : ∀ line ∈ d.lines, PlainLine line)
    (hname : name ∈ d.lines.filterMap DynamicLine.needed?) :
    name ∈ sedCaptures sharedLabel (stripNewlines newline d.output) := by
  rw [sedCaptures_stripNewlines sharedLabel hd]
  obtain ⟨line, hmem, hline⟩ := List.mem_filterMap.mp hname
  refine List.mem_filterMap.mpr ⟨line, hmem, ?_⟩
  cases line with
  | needed name' =>
      rw [sedLine_needed (hd _ hmem)]
      exact hline
  | soname name' => simp [DynamicLine.needed?] at hline
  | other text => simp [DynamicLine.needed?] at hline

/-- What is registered for a readable file is its SONAME. -/
theorem soname_of_sonameOf {d : DynamicSection} (hd : ∀ line ∈ d.lines, PlainLine line)
    (hne : sonameOf (stripNewlines newline d.output) ≠ []) :
    (d.lines.filterMap DynamicLine.soname?).head?
      = some (sonameOf (stripNewlines newline d.output)) := by
  have hcaptures : sedCaptures sonameLabel (stripNewlines newline d.output)
      = d.lines.filterMap DynamicLine.soname? := by
    rw [sedCaptures_stripNewlines sonameLabel hd]
    exact List.filterMap_congr fun line hmem => sedLine_sonameLabel (hd line hmem)
  rw [sonameOf, hcaptures] at hne ⊢
  match hlist : d.lines.filterMap DynamicLine.soname?, d.oneSoname with
  | [], _ => simp [hlist, stripNewlines] at hne
  | [name], _ =>
      -- the SONAME is one line without line feeds
      have hplain : newline ∉ name := by
        obtain ⟨line, hmem, hline⟩ := List.mem_filterMap.mp
          (show name ∈ d.lines.filterMap DynamicLine.soname? by simp [hlist])
        cases line with
        | needed name' => simp [DynamicLine.soname?] at hline
        | soname name' =>
            have heq : name' = name := by simpa [DynamicLine.soname?] using hline
            rw [← heq]
            exact (show PlainName name' from hd _ hmem).noNewline
        | other text => simp [DynamicLine.soname?] at hline
      have hstrip : stripNewlines newline (name ++ [newline]) = name := by
        rw [stripNewlines, List.reverse_append, List.reverse_singleton, List.singleton_append,
          List.dropWhile_cons_of_pos (by simp), List.dropWhile_eq_self_iff.mpr ?_,
          List.reverse_reverse]
        intro hlen
        simp only [decide_eq_true_eq]
        intro heq
        exact hplain (by rw [← heq]; exact List.mem_reverse.mp (List.getElem_mem hlen))
      simp [hstrip]
  | _ :: _ :: _, h => simp at h

/-! ## What the passes establish -/

/-- Every registered SONAME is that of a packaged host ELF file. -/
def SonamesPackaged (tools : Toolset) (ndk : Tree) (sonames : Sonames) : Prop :=
  ∀ name ∈ sonames, ∃ packaged, IsHostElf tools ndk packaged ∧ tools.soname packaged.2 = some name

/-- The text that is read is what `readelf` printed. -/
theorem exists_readelf {content : Bytes} {text : Text}
    (h : readElfDynamicSection tools content = some text) :
    ∃ d, tools.readelf content = some d ∧ text = stripNewlines newline d.output := by
  unfold readElfDynamicSection at h
  cases hread : tools.readelf content with
  | none => simp [hread] at h
  | some d =>
      rw [hread] at h
      dsimp only at h
      split_ifs at h
      exact ⟨d, rfl, (Option.some.inj h).symm⟩

/-- Registering a file keeps the SONAMEs packaged. -/
theorem sonamesPackaged_registerFile (hreadable : Readable tools ndk) {file : Path × Bytes}
    (hfile : isElf tools file.2 = true → IsHostElf tools ndk file) {sonames sonames' : Sonames}
    (h : registerFile tools sonames file = .ok sonames') (hs : SonamesPackaged tools ndk sonames) :
    SonamesPackaged tools ndk sonames' := by
  unfold registerFile at h
  by_cases helf : isElf tools file.2 = true
  · rw [if_pos helf] at h
    by_cases haarch : tools.isAarch64Elf file.2 = true
    · rw [if_pos haarch] at h
      cases htext : readElfDynamicSection tools file.2 with
      | none => simp [htext] at h
      | some text =>
          obtain ⟨d, hread, rfl⟩ := exists_readelf htext
          simp only [htext] at h
          by_cases hne : sonameOf (stripNewlines newline d.output) = []
          · rw [if_neg (not_not.mpr hne), Except.ok.injEq] at h
            rwa [← h]
          · rw [if_pos hne, Except.ok.injEq] at h
            subst h
            intro name hname
            rcases (AList.mem_insert sonames).mp hname with rfl | hname
            · refine ⟨file, hfile helf, ?_⟩
              rw [Toolset.soname, hread]
              exact soname_of_sonameOf (hreadable file (hfile helf) d hread) hne
            · exact hs name hname
    · simp [haarch] at h
  · rw [if_neg helf, Except.ok.injEq] at h
    rwa [← h]

/-- **The registration pass registers packaged SONAMEs only.** -/
theorem sonamesPackaged_of_register (hreadable : Readable tools ndk) {sonames : Sonames}
    (h : ndkHostRoots.foldlM (registerSonames tools ndk) ∅ = .ok sonames) :
    SonamesPackaged tools ndk sonames := by
  refine foldlM_invariant h (fun name hname => ?_) fun root hroot s s' hstep hs => ?_
  · exact absurd hname (AList.notMem_empty name)
  · obtain ⟨files, hfiles, hloop⟩ := bind_eq_ok_iff.mp hstep
    refine foldlM_invariant hloop hs fun file hfile t t' hstep' => ?_
    exact sonamesPackaged_registerFile hreadable
      (fun helf => ⟨helf, root, hroot, files, hfiles, hfile⟩) hstep'

/-- **The scan pass has checked every host ELF file.** -/
theorem checkClosure_of_scan {sonames : Sonames} {count : ℕ}
    (h : ndkHostRoots.foldlM (scanElfs tools ndk sonames) 0 = .ok count) {file : Path × Bytes}
    (hfile : IsHostElf tools ndk file) : checkClosure tools sonames file = .ok () := by
  obtain ⟨helf, root, hroot, files, hfiles, hmem⟩ := hfile
  obtain ⟨n, n', hscan⟩ := exists_step_of_foldlM h hroot
  obtain ⟨files', hfiles', hloop⟩ := bind_eq_ok_iff.mp hscan
  rw [hfiles, Except.ok.injEq] at hfiles'
  subst hfiles'
  obtain ⟨m, m', hstep⟩ := exists_step_of_foldlM hloop hmem
  rw [scanFile, if_pos helf] at hstep
  obtain ⟨⟨⟩, hcheck, -⟩ := bind_eq_ok_iff.mp hstep
  exact hcheck

/-- A dependency that passes the check is allowed. -/
theorem allowed_of_checkDependency {sonames : Sonames} (hs : SonamesPackaged tools ndk sonames)
    {file : Path × Bytes} {name : Text} (h : checkDependency sonames file.1 name = .ok ()) :
    Allowed tools ndk file name := by
  unfold checkDependency at h
  by_cases hruntime : name ∈ runtimeNames
  · exact .inl hruntime
  · rw [if_neg hruntime] at h
    by_cases hnsl : name = nslName
    · rw [if_pos hnsl] at h
      by_cases hnis : file.1 = nisExtension
      · exact .inr (.inr ⟨hnsl, hnis⟩)
      · simp [hnis] at h
    · rw [if_neg hnsl] at h
      by_cases hpackaged : name ∈ sonames
      · exact .inr (.inl (hs name hpackaged))
      · simp [hpackaged] at h

/-- The needed names of a checked file are allowed. -/
theorem allowed_of_checkClosure (hreadable : Readable tools ndk) {sonames : Sonames}
    (hs : SonamesPackaged tools ndk sonames) {file : Path × Bytes} (hfile : IsHostElf tools ndk file)
    (h : checkClosure tools sonames file = .ok ()) {name : Text}
    (hname : name ∈ tools.needed file.2) : Allowed tools ndk file name := by
  unfold checkClosure at h
  cases htext : readElfDynamicSection tools file.2 with
  | none => simp [htext] at h
  | some text =>
      obtain ⟨d, hread, rfl⟩ := exists_readelf htext
      rw [htext] at h
      rw [Toolset.needed, hread] at hname
      have hplain := hreadable file hfile d hread
      exact allowed_of_checkDependency hs
        (forM_eq_ok_iff.mp h name (mem_sedCaptures_of_needed hplain hname))

/-- A chain that starts at a host ELF file stays among the host ELF files. -/
theorem isHostElf_of_chain {file last : Path × Bytes} (hfile : IsHostElf tools ndk file)
    (h : Relation.ReflTransGen (Follows tools ndk) file last) : IsHostElf tools ndk last := by
  induction h with
  | refl => exact hfile
  | tail _ hstep _ => exact hstep.1

/-- **The passes establish the dependency closure**, where the dynamic sections can be read back
from the printed text: then no chain of needed libraries, followed through any packaged file with
the needed SONAME, reaches a name that is neither packaged nor permitted. -/
theorem dependencyClosed_of_passes (hreadable : Readable tools ndk) {count : ℕ}
    (h : passes tools ndk = .ok count) : DependencyClosed tools ndk := by
  obtain ⟨sonames, hregister, hscan⟩ := bind_eq_ok_iff.mp h
  have hs := sonamesPackaged_of_register hreadable hregister
  intro file last hfile hchain name hname
  have hlast := isHostElf_of_chain hfile hchain
  exact allowed_of_checkClosure hreadable hs hlast (checkClosure_of_scan hscan hlast) hname

/-! ## Small packages -/

/-- A directory entry. -/
def directoryOf (name : Name) (children : List (Name × Node)) : Name × Node :=
  (name, .directory 0o755 children)

/-- `bin` is a name. -/
theorem isName_bin : (Name.ofBytes? (Lib.encodeUtf8 "bin")).isSome := by decide +kernel

/-- The toolchain directory with the given programs and libraries. -/
def toolchainWith (programs libraries : List (Name × Node)) : List (Name × Node) :=
  [directoryOf (nameOf "bin" isName_bin) programs,
   directoryOf (nameOf "python3" (by decide +kernel)) [],
   directoryOf (nameOf "lib" (by decide +kernel))
    (directoryOf (nameOf "python3.11" (by decide +kernel)) []
      :: directoryOf (nameOf "aarch64-unknown-linux-gnu" (by decide +kernel)) [] :: libraries),
   directoryOf (nameOf "musl" (by decide +kernel)) [directoryOf (nameOf "lib" (by decide +kernel)) []]]

/-- `toolchains` is a name. -/
theorem isName_toolchains : (Name.ofBytes? (Lib.encodeUtf8 "toolchains")).isSome := by
  decide +kernel

/-- `llvm` is a name. -/
theorem isName_llvm : (Name.ofBytes? (Lib.encodeUtf8 "llvm")).isSome := by decide +kernel

/-- `prebuilt` is a name. -/
theorem isName_prebuilt : (Name.ofBytes? (Lib.encodeUtf8 "prebuilt")).isSome := by decide +kernel

/-- `linux-aarch64` is a name. -/
theorem isName_linuxAarch64 : (Name.ofBytes? (Lib.encodeUtf8 "linux-aarch64")).isSome := by
  decide +kernel

/-- An NDK with the given programs and libraries and no other file. -/
def ndkWith (programs libraries : List (Name × Node)) : List (Name × Node) :=
  [directoryOf (nameOf "toolchains" isName_toolchains)
    [directoryOf (nameOf "llvm" isName_llvm)
      [directoryOf (nameOf "prebuilt" isName_prebuilt)
        [directoryOf (nameOf "linux-aarch64" isName_linuxAarch64)
          (toolchainWith programs libraries)]]],
   directoryOf (nameOf "prebuilt" isName_prebuilt)
    [directoryOf (nameOf "linux-aarch64" isName_linuxAarch64)
      [directoryOf (nameOf "bin" isName_bin) []]],
   directoryOf (nameOf "shader-tools" (by decide +kernel))
    [directoryOf (nameOf "linux-aarch64" isName_linuxAarch64) []],
   directoryOf (nameOf "simpleperf" (by decide +kernel))
    [directoryOf (nameOf "bin" isName_bin)
      [directoryOf (nameOf "linux" (by decide +kernel))
        [directoryOf (nameOf "aarch64" (by decide +kernel)) []]]]]

/-- An NDK with a program and a library. -/
def smallNdk : Tree where
  children := ndkWith [(nameOf "tool" (by decide +kernel), .regular 0o755 [1])]
    [(nameOf "libtool.so" (by decide +kernel), .regular 0o755 [2])]
  distinct := distinctNames_of_nodup_paths (by decide +kernel)

/-- Tools that see AArch64 ELF files everywhere, with the given dynamic lines of the program and of
the library. -/
def toolsShowing (program library : DynamicSection) : Toolset where
  kind _ := textOf "ELF 64-bit LSB"
  isAarch64Elf _ := true
  readelf content := some (if content = [1] then program else library)

/-- The library names itself and needs the C library. -/
def librarySection : DynamicSection where
  lines := [.needed (textOf "libc.so.6"), .soname (textOf "libtool.so")]
  oneSoname := by decide

/-- The program needs the library. -/
def programSection : DynamicSection where
  lines := [.needed (textOf "libtool.so")]
  oneSoname := by decide

/-- The program needs a library whose name continues that of the C library behind a bracket. -/
def bracketedSection : DynamicSection where
  lines := [.needed (textOf "libc.so.6]extra")]
  oneSoname := by decide

/-- The passes establish the closure of the small NDK. -/
theorem dependencyClosed_smallNdk :
    DependencyClosed (toolsShowing programSection librarySection) smallNdk := by
  refine dependencyClosed_of_passes (fun file _ d hread line hline => ?_)
    (show passes _ smallNdk = .ok 2 by decide +kernel)
  have hd : (if file.2 = [1] then programSection else librarySection) = d := Option.some.inj hread
  have hplain : ∀ line ∈ programSection.lines ++ librarySection.lines, PlainLine line := by
    decide +kernel
  refine hplain line ?_
  by_cases hcontent : file.2 = [1]
  · rw [if_pos hcontent] at hd
    exact List.mem_append_left _ (by rwa [hd])
  · rw [if_neg hcontent] at hd
    exact List.mem_append_right _ (by rwa [hd])

/-- **A closing bracket in a name hides the rest of it**: both passes succeed on a program that
needs `libc.so.6]extra`, a name that is neither packaged nor permitted. -/
theorem not_dependencyClosed_bracketed :
    passes (toolsShowing bracketedSection librarySection) smallNdk = .ok 2
      ∧ ¬ DependencyClosed (toolsShowing bracketedSection librarySection) smallNdk := by
  refine ⟨by decide +kernel, fun hclosed => ?_⟩
  have hfiles : filesBelow smallNdk (pathOf (ndkToolchain ++ "/bin"), .recursive)
      = .ok [(pathOf (ndkToolchain ++ "/bin/tool"), [1])] := by decide +kernel
  have hfile : IsHostElf (toolsShowing bracketedSection librarySection) smallNdk
      (pathOf (ndkToolchain ++ "/bin/tool"), [1]) :=
    ⟨by decide +kernel, _, List.mem_cons_self, _, hfiles, List.mem_singleton_self _⟩
  have hneeded : textOf "libc.so.6]extra"
      ∈ (toolsShowing bracketedSection librarySection).needed [1] := by decide +kernel
  rcases hclosed _ _ hfile .refl _ hneeded with hruntime | ⟨packaged, -, hsoname⟩ | ⟨hnsl, -⟩
  · exact absurd hruntime (by decide +kernel)
  · -- the only SONAME of the package is that of the library
    have hsonames : (toolsShowing bracketedSection librarySection).soname packaged.2
        = if packaged.2 = [1] then none else some (textOf "libtool.so") := by
      have hread : (toolsShowing bracketedSection librarySection).readelf packaged.2
          = some (if packaged.2 = [1] then bracketedSection else librarySection) := rfl
      rw [Toolset.soname, hread]
      by_cases hcontent : packaged.2 = [1]
      · rw [if_pos hcontent, if_pos hcontent]
        rfl
      · rw [if_neg hcontent, if_neg hcontent]
        rfl
    rw [hsonames] at hsoname
    by_cases hcontent : packaged.2 = [1]
    · rw [if_pos hcontent] at hsoname
      exact absurd hsoname (by simp)
    · rw [if_neg hcontent] at hsoname
      exact absurd hsoname (by decide +kernel)
  · exact absurd hnsl (by decide +kernel)

end AndroidSdk.Scripts
