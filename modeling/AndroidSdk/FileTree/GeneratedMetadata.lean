import AndroidSdk.FileTree.ReferenceLayout
import AndroidSdk.Lib.Utf8

/-! # The generated package descriptions

`write_generic_package_xml` of the assembler renders the package template with `sed`, line by line,
and `generated_metadata_matches` of the comparison renders it again as a text, whose line ends it
translates, and compares the candidate as a text of the same kind.

* **`writeGenericPackageXml`** — what the assembler writes.
* **`SameLines`** — texts that only differ in their line ends.
* **`matches_iff_written_iff`** — when the comparison accepts exactly what the assembler writes. -/

namespace AndroidSdk.FileTree.ReferenceLayout

open Lib

/-! ## The assembler -/

/-- The `s|placeholder|value|g` commands of `write_generic_package_xml`, for values without line
feed, `|`, `&` and backslash. -/
def sedCommands (fields : PackageFields) : List (Bytes × Bytes) :=
  [(encodeUtf8 "@PATH@", encodeUtf8 fields.packagePath),
   (encodeUtf8 "@MAJOR@", encodeUtf8 fields.major),
   (encodeUtf8 "@MINOR@", encodeUtf8 fields.minor),
   (encodeUtf8 "@MICRO@", encodeUtf8 fields.micro),
   (encodeUtf8 "@DISPLAY@", encodeUtf8 fields.display)]

/-- The commands applied to one line, one after the other. -/
def sedLine (commands : List (Bytes × Bytes)) (line : Bytes) : Bytes :=
  commands.foldl (fun line command => replaceAll command.1 command.2 line) line

/-- `write_generic_package_xml`: `sed` applies its commands to each line of the template and keeps
the line feeds, also a missing one at the end. -/
def writeGenericPackageXml (fields : PackageFields) (template : Bytes) : Bytes :=
  List.intercalate [10] ((template.splitOn 10).map (sedLine (sedCommands fields)))

/-- Commands for texts without line feed change a file as they change its lines. -/
theorem intercalate_map_sedLine {commands : List (Bytes × Bytes)}
    (h : ∀ command ∈ commands, 10 ∉ command.1 ∧ command.1 ≠ []) (lines : List Bytes) :
    List.intercalate [10] (lines.map (sedLine commands))
      = sedLine commands (List.intercalate [10] lines) := by
  induction commands generalizing lines with
  | nil =>
      have hid : sedLine [] = id := rfl
      rw [hid, List.map_id, id_eq]
  | cons command commands ih =>
      obtain ⟨hfeed, hne⟩ := h command List.mem_cons_self
      have hfirst : lines.map (sedLine (command :: commands))
          = (lines.map (replaceAll command.1 command.2)).map (sedLine commands) := by
        rw [List.map_map]
        rfl
      rw [hfirst, ih fun c hc => h c (List.mem_cons_of_mem command hc),
        ← replaceAll_intercalate command.2 hfeed hne]
      rfl

/-! ## The comparison -/

/-- The values of a package can stand in the place of the placeholders: they are not empty and have
no line ends. -/
def PackageFields.Plain (fields : PackageFields) : Prop :=
  ∀ p ∈ placeholders fields, NoNewline p.2.toList ∧ p.2.toList ≠ []

/-- The values in the script are plain. -/
theorem plain_of_lookup {relative : Bytes} {fields : PackageFields}
    (h : genericMetadataFields.lookup relative = some fields) : fields.Plain := by
  have hall : genericMetadataFields.all (fun e => (placeholders e.2).all fun p =>
      decide (NoNewline p.2.toList) && decide (p.2.toList ≠ [])) = true := by decide
  have hmem : (relative, fields) ∈ genericMetadataFields :=
    (list_lookup_eq_some_iff (by decide +kernel) relative fields).mp h
  intro p hp
  have hchecked := List.all_eq_true.mp (List.all_eq_true.mp hall _ hmem) p hp
  rw [Bool.and_eq_true] at hchecked
  exact ⟨of_decide_eq_true hchecked.1, of_decide_eq_true hchecked.2⟩

/-- The placeholders are ASCII texts without line ends. -/
theorem placeholders_names (fields : PackageFields) : ∀ p ∈ placeholders fields,
    IsAscii p.1.toList ∧ NoNewline p.1.toList ∧ p.1.toList ≠ [] := by
  have hall : ["@PATH@", "@MAJOR@", "@MINOR@", "@MICRO@", "@DISPLAY@"].all (fun name =>
      decide (IsAscii name.toList ∧ NoNewline name.toList ∧ name.toList ≠ [])) = true := by decide
  intro p hp
  refine of_decide_eq_true (List.all_eq_true.mp hall p.1 ?_)
  have hnames : (placeholders fields).map Prod.fst
      = ["@PATH@", "@MAJOR@", "@MINOR@", "@MICRO@", "@DISPLAY@"] := rfl
  exact hnames ▸ List.mem_map_of_mem hp

/-- The commands of the assembler are the placeholders of the comparison, encoded. -/
theorem sedCommands_eq (fields : PackageFields) : sedCommands fields
    = (placeholders fields).map fun p => (encoded p.1.toList, encoded p.2.toList) := by
  simp only [sedCommands, placeholders, encodeUtf8_eq, List.map_cons, List.map_nil]

/-- An encoded text without line feed has none in its bytes. -/
theorem notMem_encoded {chars : List Char} (hascii : IsAscii chars) (h : '\n' ∉ chars) :
    10 ∉ encoded chars := by
  intro hmem
  obtain ⟨c, hc, hbyte⟩ := List.mem_flatMap.mp hmem
  rw [utf8EncodeChar_of_lt (hascii c hc), List.mem_singleton] at hbyte
  have hvalue : c.toNat = 10 := by
    have hnat := congrArg UInt8.toNat hbyte
    rw [UInt8.toNat_ofNat', Nat.mod_eq_of_lt (by have := hascii c hc; omega)] at hnat
    exact hnat.symm
  have hfeed : c = '\n' := Char.toNat_inj.mp hvalue
  exact h (hfeed ▸ hc)

/-- **The assembler and the comparison fill a template alike**, up to the encoding. -/
theorem writeGenericPackageXml_encoded (fields : PackageFields) (chars : List Char) :
    writeGenericPackageXml fields (encoded chars) = encoded (fillPlaceholders fields chars) := by
  have hnames := placeholders_names fields
  have hne : ∀ old : List Char, IsAscii old → old ≠ [] → encoded old ≠ [] := by
    intro old hold hne
    obtain ⟨c, rest, rfl⟩ := List.exists_cons_of_ne_nil hne
    rw [encoded_cons, utf8EncodeChar_of_lt (hold c List.mem_cons_self)]
    exact List.cons_ne_nil _ _
  unfold writeGenericPackageXml
  rw [sedCommands_eq, intercalate_map_sedLine, List.intercalate_splitOn]
  · unfold fillPlaceholders
    generalize placeholders fields = commands at hnames
    induction commands generalizing chars with
    | nil => rfl
    | cons p commands ih =>
        obtain ⟨hascii, -, hp⟩ := hnames p List.mem_cons_self
        rw [List.map_cons, sedLine, List.foldl_cons, List.foldl_cons, replaceAll_encoded hascii hp]
        exact ih _ fun p hp => hnames p (List.mem_cons_of_mem _ hp)
  · intro command hcommand
    obtain ⟨p, hp, rfl⟩ := List.mem_map.mp hcommand
    obtain ⟨hascii, hnewline, hp⟩ := hnames p hp
    exact ⟨notMem_encoded hascii hnewline.2, hne _ hascii hp⟩

/-- Filling a template and reading its lines do not disturb each other. -/
theorem universalNewlines_fillPlaceholders {fields : PackageFields} (h : fields.Plain)
    (chars : List Char) : universalNewlines (fillPlaceholders fields chars)
      = fillPlaceholders fields (universalNewlines chars) := by
  have hnames := placeholders_names fields
  unfold PackageFields.Plain at h
  unfold fillPlaceholders
  generalize placeholders fields = commands at h hnames
  induction commands generalizing chars with
  | nil => rfl
  | cons p commands ih =>
      obtain ⟨-, hnewline, hne⟩ := hnames p List.mem_cons_self
      obtain ⟨hvalue, hvalue'⟩ := h p List.mem_cons_self
      rw [List.foldl_cons, List.foldl_cons, ← universalNewlines_replaceAll hnewline hvalue hne hvalue']
      exact ih _ (fun p hp => h p (List.mem_cons_of_mem _ hp))
        fun p hp => hnames p (List.mem_cons_of_mem _ hp)

/-! ## What the comparison accepts -/

/-- Two files are texts that only differ in their line ends. -/
def SameLines (content other : Bytes) : Prop :=
  ∃ chars chars', decodeUtf8 content = some chars ∧ decodeUtf8 other = some chars'
    ∧ universalNewlines chars = universalNewlines chars'

section

variable {sha256 : Bytes → Bytes} {project : Project} {relative : Bytes} {fields : PackageFields}
  {template : Bytes}

/-- The text that is read from a file. -/
theorem readText_eq_ok_iff {content : Bytes} {text : List Char} :
    readText content = .ok text
      ↔ ∃ chars, decodeUtf8 content = some chars ∧ text = universalNewlines chars := by
  unfold readText
  cases decodeUtf8 content with
  | none => simp
  | some chars => simp [eq_comm]

/-- A body that returns `true` although failures mean `false` has not failed. -/
theorem tryExcept_eq_ok_true_iff {handled : List PyException} {body : Except PyException Bool} :
    tryExcept handled false body = .ok true ↔ body = .ok true := by
  cases body with
  | error e =>
      simp only [tryExcept]
      split_ifs <;> simp
  | ok b => exact Iff.rfl

/-- Matching generic metadata read as the filled template. -/
theorem genericMetadata_of_matches {relative candidate : Bytes} {fields : PackageFields}
    (hmem : (relative, fields) ∈ genericMetadataFields)
    (h : generatedMetadataMatches sha256 project relative candidate = .ok true) :
    ∃ template content, project.template (encodeUtf8 "package-generic.xml.in") = .ok template
      ∧ readText template = .ok content
      ∧ readText candidate = .ok (fillPlaceholders fields content) := by
  have hlookup : genericMetadataFields.lookup relative = some fields :=
    (list_lookup_eq_some_iff (by decide +kernel) relative fields).mpr hmem
  have hbody := tryExcept_eq_ok_true_iff.mp h
  rw [hlookup] at hbody
  simp only [bind, Except.bind, pure, Except.pure] at hbody
  cases ht : project.template (encodeUtf8 "package-generic.xml.in") with
  | error e => simp [ht] at hbody
  | ok template =>
      rw [ht] at hbody
      cases hc : readText template with
      | error e => simp [hc] at hbody
      | ok content =>
          cases hr : readText candidate with
          | error e => simp [hc, hr] at hbody
          | ok chars =>
              have heq : chars = fillPlaceholders fields content := by
                simpa [hc, hr] using hbody
              exact ⟨template, content, rfl, hc, by rw [heq]⟩

/-- **The comparison accepts the texts with the lines of the filled template**, if the template is
a text. -/
theorem generatedMetadataMatches_iff_sameLines
    (hlookup : genericMetadataFields.lookup relative = some fields)
    (htemplate : project.template (encodeUtf8 "package-generic.xml.in") = .ok template)
    (candidate : Bytes) :
    generatedMetadataMatches sha256 project relative candidate = .ok true
      ↔ decodeUtf8 template ≠ none
        ∧ SameLines candidate (writeGenericPackageXml fields template) := by
  have hplain := plain_of_lookup hlookup
  constructor
  · intro h
    have hmem : (relative, fields) ∈ genericMetadataFields :=
      (list_lookup_eq_some_iff (by decide +kernel) relative fields).mp hlookup
    obtain ⟨template', content, htemplate', hcontent, hcandidate⟩ := genericMetadata_of_matches hmem h
    rw [htemplate, Except.ok.injEq] at htemplate'
    subst htemplate'
    obtain ⟨chars, hchars, rfl⟩ := readText_eq_ok_iff.mp hcontent
    obtain ⟨read, hread, heq⟩ := readText_eq_ok_iff.mp hcandidate
    refine ⟨by rw [hchars]; exact Option.some_ne_none chars, read,
      fillPlaceholders fields chars, hread, ?_, ?_⟩
    · rw [decodeUtf8_eq_some_iff.mp hchars, writeGenericPackageXml_encoded, decodeUtf8_encoded]
    · rw [← heq, universalNewlines_fillPlaceholders hplain]
  · rintro ⟨hdecodes, read, filled, hread, hfilled, heq⟩
    obtain ⟨chars, hchars⟩ := Option.ne_none_iff_exists'.mp hdecodes
    rw [decodeUtf8_eq_some_iff.mp hchars, writeGenericPackageXml_encoded, decodeUtf8_encoded,
      Option.some_inj] at hfilled
    subst hfilled
    have hcontent : readText template = .ok (universalNewlines chars) :=
      readText_eq_ok_iff.mpr ⟨chars, hchars, rfl⟩
    have hcandidate : readText candidate
        = .ok (fillPlaceholders fields (universalNewlines chars)) :=
      readText_eq_ok_iff.mpr
        ⟨read, hread, by rw [heq, universalNewlines_fillPlaceholders hplain]⟩
    unfold generatedMetadataMatches
    simp only [hlookup, htemplate, hcontent, hcandidate, bind, Except.bind, pure, Except.pure,
      decide_true, tryExcept]

/-- **When the comparison accepts exactly what the assembler writes**: the template is a text and
the candidate no other spelling of the lines that the assembler writes, or the template is no text
and the candidate not what the assembler writes. -/
theorem matches_iff_written_iff (hlookup : genericMetadataFields.lookup relative = some fields)
    (htemplate : project.template (encodeUtf8 "package-generic.xml.in") = .ok template)
    (candidate : Bytes) :
    (generatedMetadataMatches sha256 project relative candidate = .ok true
        ↔ candidate = writeGenericPackageXml fields template)
      ↔ if decodeUtf8 template = none then candidate ≠ writeGenericPackageXml fields template
        else SameLines candidate (writeGenericPackageXml fields template) →
          candidate = writeGenericPackageXml fields template := by
  rw [generatedMetadataMatches_iff_sameLines hlookup htemplate]
  split_ifs with hdecodes
  · exact ⟨fun h heq => (h.mpr heq).1 hdecodes, fun h => ⟨fun hsame => absurd hdecodes hsame.1,
      fun heq => absurd heq h⟩⟩
  · refine ⟨fun h hsame => h.mp ⟨hdecodes, hsame⟩, fun h => ⟨fun hsame => h hsame.2, ?_⟩⟩
    rintro rfl
    obtain ⟨chars, hchars⟩ := Option.ne_none_iff_exists'.mp hdecodes
    have hwritten : decodeUtf8 (writeGenericPackageXml fields template)
        = some (fillPlaceholders fields chars) := by
      rw [decodeUtf8_eq_some_iff.mp hchars, writeGenericPackageXml_encoded, decodeUtf8_encoded]
    exact ⟨hdecodes, _, _, hwritten, hwritten, rfl⟩

end

/-! ## Another line end -/

/-- A project whose template is one line with a placeholder. -/
def pathProject : Project where
  template _ := .ok (encoded ['@', 'P', 'A', 'T', 'H', '@', '\n'])
  platformToolsReleaseArchive := .error .osError
  ndkReleaseArchive := .error .osError

/-- The values of the build tools. -/
def buildToolsFields : PackageFields :=
  ⟨"build-tools;36.0.0", "36", "0", "0", "Android SDK Build-Tools 36 Linux AArch64"⟩

/-- The build tools are a generic package. -/
theorem lookup_buildTools : genericMetadataFields.lookup
    (encodeUtf8 "build-tools/36.0.0/package.xml") = some buildToolsFields := by
  rfl

/-- What the assembler writes for the build tools in `pathProject`. -/
theorem writeGenericPackageXml_path :
    writeGenericPackageXml buildToolsFields (encoded ['@', 'P', 'A', 'T', 'H', '@', '\n'])
      = encoded "build-tools;36.0.0\n".toList := by
  have hfilled : fillPlaceholders buildToolsFields ['@', 'P', 'A', 'T', 'H', '@', '\n']
      = "build-tools;36.0.0\n".toList := by decide
  rw [writeGenericPackageXml_encoded, hfilled]

/-- `matches_iff_written_iff` for the candidate that the assembler writes. -/
theorem matches_iff_written_path :
    generatedMetadataMatches id pathProject (encodeUtf8 "build-tools/36.0.0/package.xml")
        (encoded "build-tools;36.0.0\n".toList) = .ok true
      ↔ encoded "build-tools;36.0.0\n".toList
        = writeGenericPackageXml buildToolsFields
            (encoded ['@', 'P', 'A', 'T', 'H', '@', '\n']) := by
  refine (matches_iff_written_iff lookup_buildTools rfl _).mpr ?_
  rw [if_neg (by rw [decodeUtf8_encoded]; exact Option.some_ne_none _)]
  exact fun _ => writeGenericPackageXml_path.symm

/-- **A carriage return at the end of a line is accepted**: the comparison accepts a file that the
assembler does not write. -/
theorem not_matches_iff_written :
    ¬ (generatedMetadataMatches id pathProject (encodeUtf8 "build-tools/36.0.0/package.xml")
          (encoded "build-tools;36.0.0\r\n".toList) = .ok true
        ↔ encoded "build-tools;36.0.0\r\n".toList
          = writeGenericPackageXml buildToolsFields
              (encoded ['@', 'P', 'A', 'T', 'H', '@', '\n'])) := by
  have haccepted : generatedMetadataMatches id pathProject
      (encodeUtf8 "build-tools/36.0.0/package.xml") (encoded "build-tools;36.0.0\r\n".toList)
        = .ok true := by
    refine (generatedMetadataMatches_iff_sameLines lookup_buildTools rfl _).mpr
      ⟨by rw [decodeUtf8_encoded]; exact Option.some_ne_none _, _, _, decodeUtf8_encoded _,
        by rw [writeGenericPackageXml_path, decodeUtf8_encoded], by decide⟩
  intro h
  have hlength := congrArg List.length ((h.mp haccepted).trans writeGenericPackageXml_path)
  exact absurd hlength (by decide)

end AndroidSdk.FileTree.ReferenceLayout
