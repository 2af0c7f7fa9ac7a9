import AndroidSdk.FileTree.GeneratedMetadata

/-! # What a successful layout comparison means

The verdict of `compare-reference-layout.py` is assembled from eight lists over two inventories.
This file says what the verdict promises about the two trees themselves.

* **`Comparison`** — two contents are compared byte by byte, or as the script does.
* **`Provenance`** — the rule for a listed position: an AArch64 ELF file in the place of an x86-64
  one, a checked-in template, or the single member of a Release archive.
* **`LayoutMatches`** — paths, kinds, modes, link targets and contents of two matching trees.
* **`succeeds_iff`** — status 0 means that the trees match as the script compares.
* **`layoutMatches_of_main_iff`** — when it means that they match byte by byte. -/

namespace AndroidSdk.FileTree.ReferenceLayout

open Lib

/-! ## The promise -/

/-- How a content is compared with the one that it has to equal. -/
structure Comparison where
  /-- With a filled template. -/
  text : Bytes → Bytes → Prop
  /-- With the member of an archive. -/
  member : Bytes → Bytes → Prop

/-- Byte by byte. -/
def Comparison.bytes : Comparison := ⟨(· = ·), (· = ·)⟩

/-- As the script compares: texts by their lines, members by their digests. -/
def Comparison.script (sha256 : Bytes → Bytes) : Comparison :=
  ⟨SameLines, fun content member => sha256 content = sha256 member⟩

section

variable (cmp : Comparison)

/-- The archive has exactly one member of the given name, it is not a directory, and its content is
this one. -/
def IsSingleMember (archive : Except PyException (List Member)) (member content : Bytes) : Prop :=
  ∃ infolist info stored, archive = .ok infolist
    ∧ infolist.filter (fun info => info.filename = member) = [info]
    ∧ info.isDir = false ∧ info.content = .ok stored ∧ cmp.member content stored

/-- The rules for the positions whose content has to come from a template or a Release archive, by
the table that lists the position. -/
structure ExplicitProvenance (project : Project) (relative candidate : Bytes) : Prop where
  /-- A host script equals its checked-in template. -/
  hostScript : ∀ template, (relative, template) ∈ hostScriptTemplates →
    project.template template = .ok candidate
  /-- NDK host scripts, Python configuration files and generated archives equal the single member of
  the NDK Release archive. -/
  ndkRelease : relative ∈ ndkHostScriptDifferences ∨ relative ∈ ndkPythonConfigFiles
      ∨ relative ∈ ndkHostGeneratedContentFiles →
    IsSingleMember cmp project.ndkReleaseArchive (ndkMember relative) candidate
  /-- Generic package metadata equal the checked-in template with its placeholders filled. -/
  genericMetadata : ∀ fields, (relative, fields) ∈ genericMetadataFields →
    ∃ template, project.template (encodeUtf8 "package-generic.xml.in") = .ok template
      ∧ decodeUtf8 template ≠ none ∧ cmp.text candidate (writeGenericPackageXml fields template)
  /-- Direct package metadata equal their checked-in template. -/
  directMetadata : ∀ template, (relative, template) ∈ directMetadataTemplates →
    project.template template = .ok candidate
  /-- Release metadata equal the single member of the platform-tools Release archive. -/
  releaseMetadata : ∀ member, (relative, member) ∈ releaseMetadata →
    IsSingleMember cmp project.platformToolsReleaseArchive member candidate

/-- An AArch64 ELF file replaces an x86-64 one. -/
structure ElfReplaced (reference candidate : Bytes) : Prop where
  reference : isValidElfMachine reference 62 = true
  candidate : isValidElfMachine candidate 183 = true

/-- The listed positions at which contents may differ, each with its own rule. -/
inductive Provenance (project : Project) (relative reference candidate : Bytes) : Prop
  | hostElf (listed : relative ∈ hostElfContentDifferences)
      (replaced : ElfReplaced reference candidate)
  | ndkHostElf (listed : isRebuiltNdkHostElfPath relative = true)
      (implicit : requiresExplicitContent relative = false)
      (replaced : ElfReplaced reference candidate)
  | explicit (listed : requiresExplicitContent relative = true)
      (provenance : ExplicitProvenance cmp project relative candidate)

/-- The entry of a tree under a key of its inventory. -/
def IsEntryAt (tree : Tree) (normalizeReference : Bool) (relative : Bytes) (node : Node) : Prop :=
  ∃ path, lookup tree.children path = some node ∧ relativeOf normalizeReference path = relative

/-- The keys of a tree: its paths, normalised for the reference. -/
def pathsOf (tree : Tree) (normalizeReference : Bool) : Set Bytes :=
  {relative | ∃ node, IsEntryAt tree normalizeReference relative node}

/-- What the comparison promises about a reference tree and a candidate tree. -/
structure LayoutMatches (project : Project) (reference candidate : Tree) : Prop where
  /-- The candidate has the normalised reference paths without those that are intentionally missing,
  and the compatibility link. -/
  paths : pathsOf candidate false = pathsOf reference true \ {p | p ∈ intentionalMissing}
    ∪ {p | p ∈ sdkCompatibilityLinks.map Prod.fst}
  /-- The compatibility link is a link to its target. -/
  compatibility : ∀ relative target, (relative, target) ∈ sdkCompatibilityLinks →
    ∃ mode, IsEntryAt candidate false relative (.symlink mode target)
  /-- Common paths have the same kind. -/
  kinds : ∀ relative r c, IsEntryAt reference true relative r →
    IsEntryAt candidate false relative c → kindOf r = kindOf c
  /-- Common paths have the same mode apart from the group-write bit. -/
  modes : ∀ relative r c, IsEntryAt reference true relative r →
    IsEntryAt candidate false relative c →
      ∀ bit ≠ 4, (modeOf r).testBit bit = (modeOf c).testBit bit
  /-- Common links have the same normalised target. -/
  links : ∀ relative mode mode' target target',
    IsEntryAt reference true relative (.symlink mode target) →
    IsEntryAt candidate false relative (.symlink mode' target') →
    normalizeReferenceLink target = target'
  /-- Common regular files are identical, or differ at a listed position that follows its rule. -/
  contents : ∀ relative mode mode' content content',
    IsEntryAt reference true relative (.regular mode content) →
    IsEntryAt candidate false relative (.regular mode' content') →
    content = content' ∨ Provenance cmp project relative content content'
  /-- Where the provenance is explicit, it holds of identical files too. -/
  explicit : ∀ relative mode mode' content content',
    IsEntryAt reference true relative (.regular mode content) →
    IsEntryAt candidate false relative (.regular mode' content') →
    requiresExplicitContent relative = true → ExplicitProvenance cmp project relative content'

end

/-! ## Contents -/

/-- The chunk loop compares the whole contents. -/
theorem chunksEqual_iff (left right : Bytes) (h : left.length = right.length) :
    chunksEqual left right = true ↔ left = right := by
  fun_induction chunksEqual left right with
  | case1 left right hne =>
      refine ⟨fun hfalse => absurd hfalse (by simp), fun heq => ?_⟩
      exact absurd (by rw [heq]) hne
  | case2 left right heq hnil =>
      have hpos : 0 < chunkSize := by decide
      have hleft : left = [] := by
        rcases List.take_eq_nil_iff.mp hnil with hzero | hleft
        · omega
        · exact hleft
      have hright : right = [] := List.length_eq_zero_iff.mp (by rw [← h, hleft]; rfl)
      simp [hleft, hright]
  | case3 left right heq hne ih =>
      rw [ih (by rw [List.length_drop, List.length_drop, h])]
      refine ⟨fun hdrop => ?_, fun heq' => by rw [heq']⟩
      rw [← List.take_append_drop chunkSize left, ← List.take_append_drop chunkSize right, hdrop,
        not_not.mp heq]

/-- `files_equal` compares contents. -/
theorem filesEqual_iff (left right : Bytes) : filesEqual left right = true ↔ left = right := by
  unfold filesEqual
  by_cases h : left.length = right.length
  · rw [if_neg (not_not.mpr h), chunksEqual_iff left right h]
  · rw [if_pos h]
    exact ⟨fun hfalse => absurd hfalse (by simp), fun heq => absurd (by rw [heq]) h⟩

variable {sha256 : Bytes → Bytes} {project : Project}

/-- The digests are compared with the single member of the archive. -/
theorem archiveMemberMatches_iff {archive : Except PyException (List Member)}
    {member candidate : Bytes} : archiveMemberMatches sha256 archive member candidate = .ok true
      ↔ IsSingleMember (.script sha256) archive member candidate := by
  rw [archiveMemberMatches, tryExcept_eq_ok_true_iff]
  constructor
  · intro hbody
    cases harchive : archive with
    | error e => simp [harchive, bind, Except.bind] at hbody
    | ok infolist =>
        simp only [harchive, bind, Except.bind] at hbody
        split at hbody
        · rename_i info hfilter
          by_cases hdir : info.isDir = true
          · simp [hdir, pure, Except.pure] at hbody
          · rw [if_neg hdir] at hbody
            cases hcontent : info.content with
            | error e => simp [hcontent] at hbody
            | ok content =>
                have hdigest : sha256 candidate = sha256 content := by
                  simpa [hcontent, pure, Except.pure] using hbody
                exact ⟨infolist, info, content, rfl, hfilter, by simpa using hdir, hcontent,
                  hdigest⟩
        · simp [pure, Except.pure] at hbody
  · rintro ⟨infolist, info, content, rfl, hfilter, hdir, hcontent, hdigest⟩
    have heq : sha256 candidate = sha256 content := hdigest
    simp only [bind, Except.bind, hfilter, hdir, Bool.false_eq_true, if_false, hcontent, pure,
      Except.pure, heq, decide_true]

/-- A file is compared with a template. -/
theorem filesEqual_template_iff {template candidate : Bytes} :
    (do return filesEqual (← project.template template) candidate) = Except.ok true
      ↔ project.template template = .ok candidate := by
  cases ht : project.template template with
  | error e => simp [bind, Except.bind]
  | ok content => simp [bind, Except.bind, pure, Except.pure, filesEqual_iff]

/-! ## The tables do not overlap -/

/-- No path is listed twice in the tables that `content_difference_is_expected` goes through. -/
theorem nodup_tables : (hostElfContentDifferences ++ (hostScriptContentDifferences
    ++ (ndkHostScriptDifferences ++ (generatedMetadata
    ++ (ndkPythonConfigFiles ++ ndkHostGeneratedContentFiles))))).Nodup := by
  decide +kernel

/-- Every host script has its template. -/
theorem map_fst_hostScriptTemplates :
    hostScriptTemplates.map Prod.fst = hostScriptContentDifferences := rfl

/-- A path of one of two tables without common entries is not in the other. -/
theorem notMem_of_mem_right {l l' : List Bytes} (h : (l ++ l').Nodup) {p : Bytes} (hp : p ∈ l') :
    p ∉ l := fun hl => (List.nodup_append.mp h).2.2 p hl p hp rfl

/-- The tables without the first one do not overlap. -/
theorem nodup_right {l l' : List Bytes} (h : (l ++ l').Nodup) : l'.Nodup :=
  (List.nodup_append.mp h).2.1

/-- At a host script, the difference is expected iff the file equals its template. -/
theorem expected_hostScript {relative template reference candidate : Bytes}
    (hmem : (relative, template) ∈ hostScriptTemplates) :
    contentDifferenceIsExpected sha256 project relative reference candidate
      = do return filesEqual (← project.template template) candidate := by
  have hscript : relative ∈ hostScriptContentDifferences := by
    rw [← map_fst_hostScriptTemplates]
    exact List.mem_map.mpr ⟨_, hmem, rfl⟩
  have hlookup : hostScriptTemplates.lookup relative = some template :=
    (list_lookup_eq_some_iff (by decide +kernel) relative template).mpr hmem
  unfold contentDifferenceIsExpected
  rw [if_neg (notMem_of_mem_right nodup_tables (by simp [hscript])), if_pos hscript, hlookup]

/-- At generated metadata, the difference is expected iff the metadata match. -/
theorem expected_generatedMetadata {relative reference candidate : Bytes}
    (hmem : relative ∈ generatedMetadata) :
    contentDifferenceIsExpected sha256 project relative reference candidate
      = generatedMetadataMatches sha256 project relative candidate := by
  have hnodup := nodup_right nodup_tables
  unfold contentDifferenceIsExpected
  rw [if_neg (notMem_of_mem_right nodup_tables (by simp [hmem])),
    if_neg (notMem_of_mem_right hnodup (by simp [hmem])),
    if_neg (notMem_of_mem_right (nodup_right hnodup) (by simp [hmem])), if_pos hmem]

/-- At the paths that come from the NDK Release, the difference is expected iff the file matches the
archive member. -/
theorem expected_ndkRelease {relative reference candidate : Bytes}
    (hmem : relative ∈ ndkHostScriptDifferences ∨ relative ∈ ndkPythonConfigFiles
      ∨ relative ∈ ndkHostGeneratedContentFiles) :
    contentDifferenceIsExpected sha256 project relative reference candidate
      = ndkReleaseFileMatches sha256 project relative candidate := by
  have hnodup := nodup_right nodup_tables
  have helf : relative ∉ hostElfContentDifferences :=
    notMem_of_mem_right nodup_tables (by rcases hmem with h | h | h <;> simp [h])
  have hscript : relative ∉ hostScriptContentDifferences :=
    notMem_of_mem_right hnodup (by rcases hmem with h | h | h <;> simp [h])
  unfold contentDifferenceIsExpected
  rw [if_neg helf, if_neg hscript]
  by_cases hndk : relative ∈ ndkHostScriptDifferences
  · rw [if_pos hndk]
  · have hrest := hmem.resolve_left hndk
    have hmeta : relative ∉ generatedMetadata :=
      notMem_of_mem_right (nodup_right (nodup_right hnodup))
        (by rcases hrest with h | h <;> simp [h])
    rw [if_neg hndk, if_neg hmeta]
    by_cases hpython : isNdkGeneratedTextPath relative = true
    · rw [if_pos hpython]
    · have hcontent := hrest.resolve_left fun h => hpython (by simp [isNdkGeneratedTextPath, h])
      rw [if_neg hpython, if_pos hcontent]

/-- The tables of generated metadata do not overlap. -/
theorem nodup_generatedMetadata : (genericMetadataFields.map Prod.fst
    ++ (directMetadataTemplates.map Prod.fst ++ releaseMetadata.map Prod.fst)).Nodup := by
  decide +kernel

/-- A table without a path has no value for it. -/
theorem lookup_eq_none {β : Type} {table : List (Bytes × β)} {relative : Bytes}
    (h : relative ∉ table.map Prod.fst) : table.lookup relative = none := by
  rw [List.lookup_eq_none_iff]
  intro e he
  have hne : relative ≠ e.1 := fun heq => h (List.mem_map.mpr ⟨e, he, heq.symm⟩)
  simpa using hne

/-- Direct metadata are compared with their template. -/
theorem directMetadata_matches_iff {relative candidate template : Bytes}
    (hmem : (relative, template) ∈ directMetadataTemplates) :
    generatedMetadataMatches sha256 project relative candidate = .ok true
      ↔ project.template template = .ok candidate := by
  have hrelative : relative ∈ directMetadataTemplates.map Prod.fst :=
    List.mem_map.mpr ⟨_, hmem, rfl⟩
  have hgeneric : genericMetadataFields.lookup relative = none :=
    lookup_eq_none (notMem_of_mem_right nodup_generatedMetadata
      (List.mem_append_left _ hrelative))
  have hlookup : directMetadataTemplates.lookup relative = some template :=
    (list_lookup_eq_some_iff (by decide +kernel) relative template).mpr hmem
  rw [generatedMetadataMatches, tryExcept_eq_ok_true_iff, hgeneric, hlookup]
  exact filesEqual_template_iff

/-- Release metadata are compared with the single member of the platform-tools archive. -/
theorem releaseMetadata_matches_iff {relative candidate member : Bytes}
    (hmem : (relative, member) ∈ releaseMetadata) :
    generatedMetadataMatches sha256 project relative candidate = .ok true
      ↔ IsSingleMember (.script sha256) project.platformToolsReleaseArchive member candidate := by
  have hrelative : relative ∈ releaseMetadata.map Prod.fst := List.mem_map.mpr ⟨_, hmem, rfl⟩
  have hgeneric : genericMetadataFields.lookup relative = none :=
    lookup_eq_none (notMem_of_mem_right nodup_generatedMetadata
      (List.mem_append_right _ hrelative))
  have hdirect : directMetadataTemplates.lookup relative = none :=
    lookup_eq_none (notMem_of_mem_right (nodup_right nodup_generatedMetadata) hrelative)
  have hlookup : releaseMetadata.lookup relative = some member :=
    (list_lookup_eq_some_iff (by decide +kernel) relative member).mpr hmem
  rw [generatedMetadataMatches, tryExcept_eq_ok_true_iff, hgeneric, hdirect, hlookup]
  exact archiveMemberMatches_iff

/-- Generic metadata are compared with the lines of the filled template. -/
theorem genericMetadata_matches_iff {relative candidate : Bytes} {fields : PackageFields}
    (hmem : (relative, fields) ∈ genericMetadataFields) :
    generatedMetadataMatches sha256 project relative candidate = .ok true
      ↔ ∃ template, project.template (encodeUtf8 "package-generic.xml.in") = .ok template
        ∧ decodeUtf8 template ≠ none
        ∧ SameLines candidate (writeGenericPackageXml fields template) := by
  have hlookup : genericMetadataFields.lookup relative = some fields :=
    (list_lookup_eq_some_iff (by decide +kernel) relative fields).mpr hmem
  constructor
  · intro h
    obtain ⟨template, -, htemplate, -⟩ := genericMetadata_of_matches hmem h
    exact ⟨template, htemplate,
      (generatedMetadataMatches_iff_sameLines hlookup htemplate candidate).mp h⟩
  · rintro ⟨template, htemplate, h⟩
    exact (generatedMetadataMatches_iff_sameLines hlookup htemplate candidate).mpr h

/-- **An expected difference follows the rules of every table that lists the position.** -/
theorem explicitProvenance_of_expected {relative reference candidate : Bytes}
    (h : contentDifferenceIsExpected sha256 project relative reference candidate = .ok true) :
    ExplicitProvenance (.script sha256) project relative candidate := by
  have hmetadata (hmem : relative ∈ generatedMetadata) :
      generatedMetadataMatches sha256 project relative candidate = .ok true := by
    rwa [expected_generatedMetadata hmem] at h
  constructor
  · intro template hmem
    rw [expected_hostScript hmem] at h
    exact filesEqual_template_iff.mp h
  · intro hmem
    rw [expected_ndkRelease hmem] at h
    exact archiveMemberMatches_iff.mp h
  · intro fields hmem
    refine (genericMetadata_matches_iff hmem).mp (hmetadata ?_)
    exact List.mem_append_left _ (List.mem_append_left _ (List.mem_map.mpr ⟨_, hmem, rfl⟩))
  · intro template hmem
    refine (directMetadata_matches_iff hmem).mp (hmetadata ?_)
    exact List.mem_append_left _ (List.mem_append_right _ (List.mem_map.mpr ⟨_, hmem, rfl⟩))
  · intro member hmem
    refine (releaseMetadata_matches_iff hmem).mp (hmetadata ?_)
    exact List.mem_append_right _ (List.mem_map.mpr ⟨_, hmem, rfl⟩)

/-- **A file that follows the rule of its table is expected.** -/
theorem expected_of_explicitProvenance {relative candidate : Bytes}
    (hexplicit : requiresExplicitContent relative = true)
    (h : ExplicitProvenance (.script sha256) project relative candidate) (reference : Bytes) :
    contentDifferenceIsExpected sha256 project relative reference candidate = .ok true := by
  simp only [requiresExplicitContent, isNdkGeneratedTextPath, Bool.or_eq_true, decide_eq_true_eq]
    at hexplicit
  rcases hexplicit with (((hscript | hndk) | hcontent) | hmeta) | hpython
  · rw [← map_fst_hostScriptTemplates] at hscript
    obtain ⟨⟨_, template⟩, hmem, rfl⟩ := List.mem_map.mp hscript
    rw [expected_hostScript hmem]
    exact filesEqual_template_iff.mpr (h.hostScript template hmem)
  · rw [expected_ndkRelease (.inl hndk)]
    exact archiveMemberMatches_iff.mpr (h.ndkRelease (.inl hndk))
  · rw [expected_ndkRelease (.inr (.inr hcontent))]
    exact archiveMemberMatches_iff.mpr (h.ndkRelease (.inr (.inr hcontent)))
  · rw [expected_generatedMetadata hmeta]
    rcases List.mem_append.mp hmeta with hmeta | hmeta
    · rcases List.mem_append.mp hmeta with hmeta | hmeta
      · obtain ⟨⟨_, fields⟩, hmem, rfl⟩ := List.mem_map.mp hmeta
        exact (genericMetadata_matches_iff hmem).mpr (h.genericMetadata fields hmem)
      · obtain ⟨⟨_, template⟩, hmem, rfl⟩ := List.mem_map.mp hmeta
        exact (directMetadata_matches_iff hmem).mpr (h.directMetadata template hmem)
    · obtain ⟨⟨_, member⟩, hmem, rfl⟩ := List.mem_map.mp hmeta
      exact (releaseMetadata_matches_iff hmem).mpr (h.releaseMetadata member hmem)
  · rw [expected_ndkRelease (.inr (.inl hpython))]
    exact archiveMemberMatches_iff.mpr (h.ndkRelease (.inr (.inl hpython)))

/-- **An expected difference has a provenance.** -/
theorem expected_iff {relative reference candidate : Bytes} :
    contentDifferenceIsExpected sha256 project relative reference candidate = .ok true
      ↔ Provenance (.script sha256) project relative reference candidate := by
  constructor
  · intro h
    by_cases hexplicit : requiresExplicitContent relative = true
    · exact .explicit hexplicit (explicitProvenance_of_expected h)
    · have hnot := hexplicit
      simp only [requiresExplicitContent, Bool.or_eq_true, decide_eq_true_eq, not_or] at hnot
      obtain ⟨⟨⟨⟨hscript, hndk⟩, hcontent⟩, hmeta⟩, hpython⟩ := hnot
      unfold contentDifferenceIsExpected at h
      by_cases helf : relative ∈ hostElfContentDifferences
      · rw [if_pos helf] at h
        have hboth : isValidElfMachine reference 62 = true
            ∧ isValidElfMachine candidate 183 = true := by
          simpa [pure, Except.pure] using h
        exact .hostElf helf ⟨hboth.1, hboth.2⟩
      · -- none of the tables lists the path, so only the last branch is left
        rw [if_neg helf, if_neg hscript, if_neg hndk, if_neg hmeta, if_neg hpython,
          if_neg hcontent] at h
        have hall : (isRebuiltNdkHostElfPath relative = true
            ∧ isValidElfMachine reference 62 = true)
            ∧ isValidElfMachine candidate 183 = true := by
          simpa [pure, Except.pure] using h
        exact .ndkHostElf hall.1.1 (by simpa using hexplicit) ⟨hall.1.2, hall.2⟩
  · intro h
    cases h with
    | hostElf listed replaced =>
        rw [contentDifferenceIsExpected, if_pos listed, replaced.reference, replaced.candidate]
        rfl
    | ndkHostElf listed implicit replaced =>
        simp only [requiresExplicitContent, Bool.or_eq_false_iff, decide_eq_false_iff_not]
          at implicit
        obtain ⟨⟨⟨⟨hscript, hndk⟩, hcontent⟩, hmeta⟩, hpython⟩ := implicit
        rw [contentDifferenceIsExpected, if_neg hscript, if_neg hndk, if_neg hmeta,
          if_neg (Bool.eq_false_iff.mp hpython), if_neg hcontent, listed, replaced.reference,
          replaced.candidate]
        split_ifs <;> rfl
    | explicit listed provenance => exact expected_of_explicitProvenance listed provenance reference

/-! ## Inventories and problem lists -/

/-- **The inventory of a tree, key by key**: the entry under a key is that of the path with this
key. -/
theorem lookup_inventory {tree : Tree} {normalizeReference : Bool} {entries : Inventory}
    (h : inventory tree normalizeReference = .ok entries) (relative : Bytes) (entry : Entry) :
    entries.lookup relative = some entry ↔ ∃ path node, lookup tree.children path = some node
      ∧ entryOf normalizeReference (path, node) = (relative, entry) := by
  obtain ⟨hnodup, -, rfl⟩ := Dict.foldlM_insertNew h
  rw [Dict.lookup_fill_eq_some_iff ∅ hnodup]
  simp only [AList.lookup_empty, reduceCtorEq, and_false, or_false, List.mem_map, Prod.exists]
  refine exists_congr fun path => exists_congr fun node => and_congr_left fun _ => ?_
  exact mem_walk_iff asScanned tree.distinct path node

/-- An entry of a tree is in the inventory under its key. -/
theorem exists_lookup_inventory {tree : Tree} {normalizeReference : Bool} {entries : Inventory}
    (h : inventory tree normalizeReference = .ok entries) {relative : Bytes} {node : Node}
    (hentry : IsEntryAt tree normalizeReference relative node) :
    ∃ entry, entries.lookup relative = some entry ∧ entry.source.2 = node
      ∧ entry.kind = kindOf node ∧ entry.mode = modeOf node
      ∧ entry.link = linkOf normalizeReference node := by
  obtain ⟨path, hlookup, rfl⟩ := hentry
  exact ⟨_, (lookup_inventory h _ _).mpr ⟨path, node, hlookup, rfl⟩, rfl, rfl, rfl, rfl⟩

/-- The keys of an inventory are the paths of the tree. -/
theorem mem_keys_inventory {tree : Tree} {normalizeReference : Bool} {entries : Inventory}
    (h : inventory tree normalizeReference = .ok entries) (relative : Bytes) :
    relative ∈ entries.keys ↔ relative ∈ pathsOf tree normalizeReference := by
  rw [Dict.mem_keys_iff]
  constructor
  · rintro ⟨entry, hentry⟩
    obtain ⟨path, node, hlookup, heq⟩ := (lookup_inventory h relative entry).mp hentry
    exact ⟨node, path, hlookup, congrArg Prod.fst heq⟩
  · rintro ⟨node, hentry⟩
    obtain ⟨entry, hlookup, -⟩ := exists_lookup_inventory h hentry
    exact ⟨entry, hlookup⟩

/-- Sorting keeps the members. -/
theorem mem_sorted {l : List Bytes} {p : Bytes} : p ∈ sorted l ↔ p ∈ l := by
  rw [sorted, List.mem_insertionSort]

/-- A sorted list is empty iff the list is. -/
theorem sorted_eq_nil_iff {l : List Bytes} : sorted l = [] ↔ ∀ p, p ∉ l := by
  rw [List.eq_nil_iff_forall_not_mem]
  exact forall_congr' fun p => not_congr mem_sorted

/-- The common keys with their entries. -/
theorem mem_common_iff {reference candidate : Inventory} {relative : Bytes} {r c : Entry} :
    (relative, r, c) ∈ common reference candidate
      ↔ reference.lookup relative = some r ∧ candidate.lookup relative = some c := by
  simp only [common, List.mem_filterMap, mem_sorted, List.mem_filter, decide_eq_true_eq]
  constructor
  · rintro ⟨p, -, hp⟩
    simp only [bind, Option.bind_eq_some_iff, pure, Option.some.injEq, Prod.mk.injEq] at hp
    obtain ⟨r', hr, c', hc, rfl, rfl, rfl⟩ := hp
    exact ⟨hr, hc⟩
  · rintro ⟨hr, hc⟩
    refine ⟨relative, ⟨?_, ?_⟩, by simp [hr, hc]⟩
    · exact (Dict.mem_keys_iff reference relative).mpr ⟨r, hr⟩
    · exact (Dict.mem_keys_iff candidate relative).mpr ⟨c, hc⟩

/-- A list of mismatches is empty iff no pair of common entries satisfies its test. -/
theorem commonWhere_eq_nil_iff {test : Entry → Entry → Bool} {reference candidate : Inventory} :
    commonWhere test reference candidate = [] ↔ ∀ relative r c,
      reference.lookup relative = some r → candidate.lookup relative = some c →
        test r c = false := by
  simp only [commonWhere, List.map_eq_nil_iff, List.filter_eq_nil_iff, Prod.forall, mem_common_iff,
    Bool.not_eq_true, and_imp]

/-- The loop over the contents appends nothing if it finds no mismatch. -/
theorem contentMismatches_eq_nil_iff {l : List (Bytes × Entry × Entry)} :
    contentMismatches sha256 project l = .ok []
      ↔ ∀ c ∈ l, isContentMismatch sha256 project c = .ok false := by
  induction l with
  | nil => simp [contentMismatches, pure, Except.pure]
  | cons c l ih =>
      rw [List.forall_mem_cons, ← ih, contentMismatches]
      cases isContentMismatch sha256 project c with
      | error e => simp [bind, Except.bind]
      | ok mismatch =>
          cases contentMismatches sha256 project l with
          | error e => simp [bind, Except.bind]
          | ok others => cases mismatch <;> simp [bind, Except.bind, pure, Except.pure]

/-- Clearing the group-write bit leaves the other bits as they are. -/
theorem testBit_withoutGroupWrite (mode bit : ℕ) :
    (withoutGroupWrite mode).testBit bit = (mode.testBit bit && bit ≠ 4) := by
  rw [withoutGroupWrite, Nat.testBit_xor, Nat.testBit_and]
  have hbit : Nat.testBit 0o020 bit = decide (bit = 4) := by
    rw [show (0o020 : ℕ) = 2 ^ 4 from rfl, Nat.testBit_two_pow]
    simp [eq_comm]
  rw [hbit]
  by_cases h : bit = 4 <;> cases mode.testBit bit <;> simp [h]

/-- Modes are equal without the group-write bit iff they agree in every other bit. -/
theorem withoutGroupWrite_eq_iff {mode mode' : ℕ} : withoutGroupWrite mode = withoutGroupWrite mode'
    ↔ ∀ bit ≠ 4, mode.testBit bit = mode'.testBit bit := by
  constructor
  · intro h bit hbit
    have hcongr := congrArg (fun m => m.testBit bit) h
    simpa [testBit_withoutGroupWrite, hbit] using hcongr
  · intro h
    refine Nat.eq_of_testBit_eq fun bit => ?_
    rw [testBit_withoutGroupWrite, testBit_withoutGroupWrite]
    by_cases hbit : bit = 4
    · simp [hbit]
    · rw [h bit hbit]

/-- A list of problems is empty iff each of its eight lists is. -/
theorem Problems.isEmpty_iff (p : Problems) : p.isEmpty = true ↔
    p.unexpectedMissing = [] ∧ p.expectedMissingNotObserved = [] ∧ p.unexpectedExtra = []
      ∧ p.compatibilityLinkMismatch = [] ∧ p.typeMismatch = [] ∧ p.linkMismatch = []
      ∧ p.modeMismatch = [] ∧ p.contentMismatch = [] := by
  simp only [Problems.isEmpty, Bool.and_eq_true, List.isEmpty_iff, and_assoc]

/-! ## The verdict -/

/-- **The loop finds no mismatch** between files that are equal or have a provenance, an explicit
one where it is required. -/
theorem isContentMismatch_eq_false_iff {relative : Bytes} {r c : Entry}
    (hr : r.kind = .file) (hc : c.kind = .file) :
    isContentMismatch sha256 project (relative, r, c) = .ok false
      ↔ (r.content = c.content
          ∨ Provenance (.script sha256) project relative r.content c.content)
        ∧ (requiresExplicitContent relative = true →
          ExplicitProvenance (.script sha256) project relative c.content) := by
  have hexpected : (do return !(← contentDifferenceIsExpected sha256 project relative
      r.content c.content)) = Except.ok false
        ↔ Provenance (.script sha256) project relative r.content c.content := by
    rw [← expected_iff]
    cases contentDifferenceIsExpected sha256 project relative r.content c.content with
    | error e => simp [bind, Except.bind]
    | ok b => simp [bind, Except.bind, pure, Except.pure]
  simp only [isContentMismatch, hr, hc, ne_eq, not_true, decide_false, Bool.or_false,
    Bool.false_eq_true, if_false]
  by_cases hexplicit : requiresExplicitContent relative = true
  · rw [if_pos hexplicit, hexpected]
    exact ⟨fun h => ⟨.inr h, fun _ => explicitProvenance_of_expected (expected_iff.mpr h)⟩,
      fun h => .explicit hexplicit (h.2 hexplicit)⟩
  · rw [if_neg hexplicit]
    by_cases hequal : r.content = c.content
    · rw [if_pos ((filesEqual_iff _ _).mpr hequal)]
      exact ⟨fun _ => ⟨.inl hequal, fun h => absurd h hexplicit⟩, fun _ => rfl⟩
    · rw [if_neg fun h => hequal ((filesEqual_iff _ _).mp h), hexpected]
      exact ⟨fun h => ⟨.inr h, fun h => absurd h hexplicit⟩, fun h => h.1.resolve_left hequal⟩

/-- What empty lists of problems say about the two inventories. -/
structure ProblemFree (sha256 : Bytes → Bytes) (project : Project) (followsToDir : Path → Bool)
    (r c : Inventory) : Prop where
  missing : ∀ p ∈ r.keys, p ∉ c.keys → p ∈ intentionalMissing
  observed : ∀ p ∈ intentionalMissing, p ∈ r.keys → p ∉ c.keys
  extra : ∀ p ∈ c.keys, p ∉ r.keys → p ∈ sdkCompatibilityLinks.map Prod.fst
  compatibility : ∀ relative target, (relative, target) ∈ sdkCompatibilityLinks →
    ∃ entry, c.lookup relative = some entry ∧ entry.kind = .link ∧ entry.link = some target
      ∧ followsToDir entry.source.1 = true
  kinds : ∀ relative a b, r.lookup relative = some a → c.lookup relative = some b → a.kind = b.kind
  links : ∀ relative a b, r.lookup relative = some a → c.lookup relative = some b →
    a.kind = .link → b.kind = .link → a.link = b.link
  modes : ∀ relative a b, r.lookup relative = some a → c.lookup relative = some b →
    withoutGroupWrite a.mode = withoutGroupWrite b.mode
  contents : ∀ relative a b, r.lookup relative = some a → c.lookup relative = some b →
    isContentMismatch sha256 project (relative, a, b) = .ok false

/-- The compatibility links are in the candidate. -/
theorem compatibilityLinkMismatches_eq_nil_iff {followsToDir : Path → Bool} {c : Inventory} :
    compatibilityLinkMismatches followsToDir c = []
      ↔ ∀ relative target, (relative, target) ∈ sdkCompatibilityLinks →
        ∃ entry, c.lookup relative = some entry ∧ entry.kind = .link ∧ entry.link = some target
          ∧ followsToDir entry.source.1 = true := by
  rw [compatibilityLinkMismatches, List.map_eq_nil_iff, List.filter_eq_nil_iff, Prod.forall]
  refine forall_congr' fun relative => forall_congr' fun target => imp_congr_right fun _ => ?_
  cases hl : c.lookup relative with
  | none => simp [hl]
  | some entry => simp [hl, and_assoc]

/-- **The eight lists**, read one by one. -/
theorem problems_isEmpty_iff {followsToDir : Path → Bool} {r c : Inventory} :
    (∃ p, problems sha256 project followsToDir r c = .ok p ∧ p.isEmpty = true)
      ↔ ProblemFree sha256 project followsToDir r c := by
  -- the contents are compared for the common paths only
  have hcontents : contentMismatches sha256 project (common r c) = .ok []
      ↔ ∀ relative a b, r.lookup relative = some a → c.lookup relative = some b →
        isContentMismatch sha256 project (relative, a, b) = .ok false := by
    rw [contentMismatches_eq_nil_iff]
    simp only [Prod.forall, mem_common_iff, and_imp]
  constructor
  · rintro ⟨p, h, hp⟩
    unfold problems at h
    cases hcontent : contentMismatches sha256 project (common r c) with
    | error e => simp [hcontent, bind, Except.bind] at h
    | ok mismatches =>
        simp only [hcontent, bind, Except.bind, pure, Except.pure, Except.ok.injEq] at h
        subst h
        -- each list of the report is empty
        rw [Problems.isEmpty_iff] at hp
        obtain ⟨hmissing, hobserved, hextra, hcompat, hkind, hlink, hmode, rfl⟩ := hp
        simp only [sorted_eq_nil_iff, List.mem_filter, mem_sorted, decide_eq_true_eq]
          at hmissing hobserved hextra
        rw [commonWhere_eq_nil_iff] at hkind hlink hmode
        -- the links and the modes are compared for entries of one kind
        have hkinds : ∀ relative a b, r.lookup relative = some a → c.lookup relative = some b →
            a.kind = b.kind := fun relative a b ha hb => by simpa using hkind relative a b ha hb
        refine ⟨fun q hr hc => ?_, fun q hi hr hc => ?_, fun q hc hr => ?_,
          compatibilityLinkMismatches_eq_nil_iff.mp hcompat, hkinds,
          fun relative a b ha hb hka hkb => ?_, fun relative a b ha hb => ?_,
          hcontents.mp hcontent⟩
        · by_contra hnot
          exact hmissing q ⟨⟨hr, hc⟩, fun hin => hnot hin.1⟩
        · exact hobserved q ⟨⟨hi, hr⟩, fun hin => hin.2 hc⟩
        · by_contra hnot
          exact hextra q ⟨⟨hc, hr⟩, hnot⟩
        · have hlinks := hlink relative a b ha hb
          simpa [hka, hkb] using hlinks
        · have hmodes := hmode relative a b ha hb
          simpa [hkinds relative a b ha hb] using hmodes
  · intro h
    -- with no error in the contents there is a report, whose lists are empty
    have hcontent := hcontents.mpr h.contents
    refine ⟨_, by rw [problems, hcontent]; rfl, (Problems.isEmpty_iff _).mpr ⟨?_, ?_, ?_,
      compatibilityLinkMismatches_eq_nil_iff.mpr h.compatibility, ?_, ?_, ?_, rfl⟩⟩
    · simp only [sorted_eq_nil_iff, List.mem_filter, mem_sorted, decide_eq_true_eq]
      exact fun q hq => hq.2 ⟨h.missing q hq.1.1 hq.1.2, hq.1.1⟩
    · simp only [sorted_eq_nil_iff, List.mem_filter, mem_sorted, decide_eq_true_eq]
      exact fun q hq => hq.2 ⟨hq.1.2, h.observed q hq.1.1 hq.1.2⟩
    · simp only [sorted_eq_nil_iff, List.mem_filter, mem_sorted, decide_eq_true_eq]
      exact fun q hq => hq.2 (h.extra q hq.1.1 hq.1.2)
    · dsimp only
      rw [commonWhere_eq_nil_iff]
      intro relative a b ha hb
      simp [h.kinds relative a b ha hb]
    · dsimp only
      rw [commonWhere_eq_nil_iff]
      intro relative a b ha hb
      have hkinds := h.kinds relative a b ha hb
      by_cases hlink : a.kind = .link
      · simp [h.links relative a b ha hb hlink (hkinds ▸ hlink)]
      · simp [hlink]
    · dsimp only
      rw [commonWhere_eq_nil_iff]
      intro relative a b ha hb
      simp [h.modes relative a b ha hb]

/-! ## The verdict -/

/-- No two paths of the reference are normalised to one. -/
def DistinctKeys (reference : Tree) : Prop :=
  ∀ path path' node node', lookup reference.children path = some node →
    lookup reference.children path' = some node' →
    relativeOf true path = relativeOf true path' → path = path'

/-- The compatibility links of the candidate lead to directories. -/
def LinksLead (followsToDir : Path → Bool) (candidate : Tree) : Prop :=
  ∀ path node, lookup candidate.children path = some node →
    relativeOf false path ∈ sdkCompatibilityLinks.map Prod.fst → followsToDir path = true

/-- An inventory exists if no two paths have one key. -/
theorem exists_inventory {tree : Tree} {normalizeReference : Bool}
    (h : ∀ path path' node node', lookup tree.children path = some node →
      lookup tree.children path' = some node' →
      relativeOf normalizeReference path = relativeOf normalizeReference path' → path = path') :
    ∃ entries, inventory tree normalizeReference = .ok entries := by
  refine Dict.exists_foldlM_insertNew ?_ (by simp)
  rw [List.map_map, show (Prod.fst ∘ entryOf normalizeReference)
    = relativeOf normalizeReference ∘ Prod.fst from rfl, ← List.map_map]
  refine List.Nodup.map_on (fun p hp q hq heq => ?_) (nodup_paths_walk asScanned tree.distinct)
  obtain ⟨⟨path, node⟩, hmem, rfl⟩ := List.mem_map.mp hp
  obtain ⟨⟨path', node'⟩, hmem', rfl⟩ := List.mem_map.mp hq
  exact h path path' node node' ((mem_walk_iff asScanned tree.distinct path node).mp hmem)
    ((mem_walk_iff asScanned tree.distinct path' node').mp hmem') heq

/-- No two paths of an inventory have one key. -/
theorem distinctKeys_of_inventory {reference : Tree} {entries : Inventory}
    (h : inventory reference true = .ok entries) : DistinctKeys reference := by
  intro path path' node node' hl hl' heq
  have hentry := (lookup_inventory h _ _).mpr ⟨path, node, hl, rfl⟩
  have hentry' := (lookup_inventory h _ _).mpr ⟨path', node', hl', rfl⟩
  rw [heq] at hentry
  have hsource := congrArg Entry.source (Option.some.inj (hentry.symm.trans hentry'))
  exact congrArg Prod.fst hsource

/-- What an inventory holds is in the tree. -/
theorem isEntryAt_of_lookup {tree : Tree} {normalizeReference : Bool} {entries : Inventory}
    (h : inventory tree normalizeReference = .ok entries) {relative : Bytes} {entry : Entry}
    (hentry : entries.lookup relative = some entry) :
    IsEntryAt tree normalizeReference relative entry.source.2 ∧ entry.kind = kindOf entry.source.2
      ∧ entry.mode = modeOf entry.source.2
      ∧ entry.link = linkOf normalizeReference entry.source.2 := by
  obtain ⟨path, node, hl, heq⟩ := (lookup_inventory h relative entry).mp hentry
  obtain ⟨hrelative, rfl⟩ := Prod.mk.inj heq
  exact ⟨⟨path, hl, hrelative⟩, rfl, rfl, rfl⟩

/-- An entry of the kind of a link. -/
theorem exists_symlink {node : Node} (h : kindOf node = .link) :
    ∃ mode target, node = .symlink mode target := by
  cases node with
  | symlink mode target => exact ⟨mode, target, rfl⟩
  | directory mode cs => cases h
  | regular mode content => cases h
  | other mode => cases h

/-- An entry of the kind of a file. -/
theorem exists_regular {node : Node} (h : kindOf node = .file) :
    ∃ mode content, node = .regular mode content := by
  cases node with
  | regular mode content => exact ⟨mode, content, rfl⟩
  | directory mode cs => cases h
  | symlink mode target => cases h
  | other mode => cases h

/-- Common files of inventories without problems. -/
theorem files_of_problemFree {followsToDir : Path → Bool} {reference candidate : Tree}
    {r c : Inventory} (hr : inventory reference true = .ok r)
    (hc : inventory candidate false = .ok c)
    (hfree : ProblemFree sha256 project followsToDir r c) {relative content content' : Bytes}
    {mode mode' : ℕ} (hentry : IsEntryAt reference true relative (.regular mode content))
    (hentry' : IsEntryAt candidate false relative (.regular mode' content')) :
    (content = content' ∨ Provenance (.script sha256) project relative content content')
      ∧ (requiresExplicitContent relative = true →
        ExplicitProvenance (.script sha256) project relative content') := by
  obtain ⟨a, ha, hsource, hkind, -⟩ := exists_lookup_inventory hr hentry
  obtain ⟨b, hb, hsource', hkind', -⟩ := exists_lookup_inventory hc hentry'
  have hmismatch := hfree.contents relative a b ha hb
  rw [isContentMismatch_eq_false_iff hkind hkind', Entry.content, Entry.content, hsource, hsource']
    at hmismatch
  exact hmismatch

/-- Status 0 means that both inventories exist and show no problems. -/
theorem main_eq_zero_iff_problemFree {followsToDir : Path → Bool} {reference candidate : Tree} :
    main sha256 project followsToDir reference candidate = .ok 0
      ↔ ∃ r c, inventory reference true = .ok r ∧ inventory candidate false = .ok c
        ∧ ProblemFree sha256 project followsToDir r c := by
  have hrejected : ∀ e : PyException, (if e = .osError ∨ e = .valueError then
      (return 1 : Except PyException ℕ) else throw e) ≠ .ok 0 := by
    intro e
    cases e <;> simp [pure, Except.pure, throw, throwThe, MonadExceptOf.throw]
  unfold main
  cases inventory reference true with
  | error e => simpa [bind, Except.bind] using hrejected e
  | ok r =>
      cases inventory candidate false with
      | error e => simpa [bind, Except.bind] using hrejected e
      | ok c =>
          simp only [bind, Except.bind, pure, Except.pure, Except.ok.injEq,
            ← problems_isEmpty_iff]
          cases hp : problems sha256 project followsToDir r c with
          | error e => simp [hp]
          | ok p => simp [hp]

/-- The paths of the candidate, by what is missing and what is extra. -/
theorem paths_eq_iff {links missing reference candidate : Set Bytes} (hlinks : links ⊆ candidate)
    (hdisjoint : ∀ p ∈ links, p ∉ missing) : candidate = reference \ missing ∪ links
      ↔ (∀ p ∈ reference, p ∉ candidate → p ∈ missing)
        ∧ (∀ p ∈ missing, p ∈ reference → p ∉ candidate)
        ∧ ∀ p ∈ candidate, p ∉ reference → p ∈ links := by
  constructor
  · rintro rfl
    refine ⟨fun p hr hc => ?_, fun p hm hr hc => ?_, fun p hc hr => ?_⟩
    · by_contra hm
      exact hc (.inl ⟨hr, hm⟩)
    · rcases hc with hc | hc
      · exact hc.2 hm
      · exact hdisjoint p hc hm
    · exact hc.resolve_left fun h => hr h.1
  · rintro ⟨hmissing, hobserved, hextra⟩
    ext p
    constructor
    · intro hc
      by_cases hr : p ∈ reference
      · exact .inl ⟨hr, fun hm => hobserved p hm hr hc⟩
      · exact .inr (hextra p hc hr)
    · rintro (⟨hr, hm⟩ | hl)
      · by_contra hc
        exact hm (hmissing p hr hc)
      · exact hlinks hl

/-- No compatibility link is intentionally missing. -/
theorem notMem_intentionalMissing : ∀ p ∈ sdkCompatibilityLinks.map Prod.fst,
    p ∉ intentionalMissing := by
  decide +kernel

section

variable {followsToDir : Path → Bool} {reference candidate : Tree} {r c : Inventory}

/-- The paths of two inventories, if the compatibility links are there. -/
theorem paths_inventory_iff (hr : inventory reference true = .ok r)
    (hc : inventory candidate false = .ok c)
    (hlinks : {p | p ∈ sdkCompatibilityLinks.map Prod.fst} ⊆ pathsOf candidate false) :
    pathsOf candidate false = pathsOf reference true \ {p | p ∈ intentionalMissing}
        ∪ {p | p ∈ sdkCompatibilityLinks.map Prod.fst}
      ↔ (∀ p ∈ r.keys, p ∉ c.keys → p ∈ intentionalMissing)
        ∧ (∀ p ∈ intentionalMissing, p ∈ r.keys → p ∉ c.keys)
        ∧ ∀ p ∈ c.keys, p ∉ r.keys → p ∈ sdkCompatibilityLinks.map Prod.fst := by
  simp only [mem_keys_inventory hr, mem_keys_inventory hc]
  exact paths_eq_iff hlinks notMem_intentionalMissing

/-- **Trees whose inventories show no problems match**, compared as the script does. -/
theorem layoutMatches_of_problemFree (hr : inventory reference true = .ok r)
    (hc : inventory candidate false = .ok c)
    (hfree : ProblemFree sha256 project followsToDir r c) :
    LinksLead followsToDir candidate
      ∧ LayoutMatches (.script sha256) project reference candidate := by
  -- the links are there, so that they are not reported as extra
  have hlinks : {p | p ∈ sdkCompatibilityLinks.map Prod.fst} ⊆ pathsOf candidate false := by
    intro p hp
    obtain ⟨⟨relative, target⟩, hmem, rfl⟩ := List.mem_map.mp hp
    obtain ⟨entry, hentry, -⟩ := hfree.compatibility relative target hmem
    exact ⟨_, (isEntryAt_of_lookup hc hentry).1⟩
  refine ⟨fun path node hl hmem => ?_, ?_⟩
  · obtain ⟨⟨relative, target⟩, hmem, hrelative⟩ := List.mem_map.mp hmem
    obtain ⟨entry, hentry, -, -, hleads⟩ := hfree.compatibility relative target hmem
    have hown := (lookup_inventory hc relative _).mpr
      ⟨path, node, hl, Prod.ext hrelative.symm rfl⟩
    rw [hentry, Option.some_inj] at hown
    rwa [hown] at hleads
  constructor
  case paths =>
    exact (paths_inventory_iff hr hc hlinks).mpr ⟨hfree.missing, hfree.observed, hfree.extra⟩
  case compatibility =>
    intro relative target hmem
    obtain ⟨entry, hentry, hkind, hlink, -⟩ := hfree.compatibility relative target hmem
    obtain ⟨hat, hkind', -, hlink'⟩ := isEntryAt_of_lookup hc hentry
    rw [hkind] at hkind'
    rw [hlink] at hlink'
    -- the inventory says that the entry is a link
    cases hnode : entry.source.2 with
    | symlink mode target' =>
        rw [hnode] at hat hlink'
        have htarget : target = target' := by simpa [linkOf] using hlink'
        exact ⟨mode, htarget ▸ hat⟩
    | directory mode cs => simp [hnode, kindOf] at hkind'
    | regular mode content => simp [hnode, kindOf] at hkind'
    | other mode => simp [hnode, kindOf] at hkind'
  case kinds =>
    intro relative a b hentry hentry'
    obtain ⟨e, he, -, hkind, -⟩ := exists_lookup_inventory hr hentry
    obtain ⟨e', he', -, hkind', -⟩ := exists_lookup_inventory hc hentry'
    rw [← hkind, ← hkind', hfree.kinds relative e e' he he']
  case modes =>
    intro relative a b hentry hentry' bit hbit
    obtain ⟨e, he, -, -, hmode, -⟩ := exists_lookup_inventory hr hentry
    obtain ⟨e', he', -, -, hmode', -⟩ := exists_lookup_inventory hc hentry'
    rw [← hmode, ← hmode']
    exact withoutGroupWrite_eq_iff.mp (hfree.modes relative e e' he he') bit hbit
  case links =>
    intro relative mode mode' target target' hentry hentry'
    obtain ⟨e, he, -, hkind, -, hlink⟩ := exists_lookup_inventory hr hentry
    obtain ⟨e', he', -, hkind', -, hlink'⟩ := exists_lookup_inventory hc hentry'
    have heq := hfree.links relative e e' he he' hkind hkind'
    rw [hlink, hlink'] at heq
    simpa [linkOf] using heq
  case contents =>
    intro relative mode mode' content content' hentry hentry'
    exact (files_of_problemFree hr hc hfree hentry hentry').1
  case explicit =>
    intro relative mode mode' content content' hentry hentry'
    exact (files_of_problemFree hr hc hfree hentry hentry').2

/-- **The inventories of matching trees show no problems.** -/
theorem problemFree_of_layoutMatches (hr : inventory reference true = .ok r)
    (hc : inventory candidate false = .ok c) (hleads : LinksLead followsToDir candidate)
    (hmatches : LayoutMatches (.script sha256) project reference candidate) :
    ProblemFree sha256 project followsToDir r c := by
  -- a compatibility link of the candidate is in its inventory
  have hcompatibility : ∀ relative target, (relative, target) ∈ sdkCompatibilityLinks →
      ∃ entry, c.lookup relative = some entry ∧ entry.kind = .link ∧ entry.link = some target
        ∧ followsToDir entry.source.1 = true := by
    intro relative target hmem
    obtain ⟨mode, path, hl, hrelative⟩ := hmatches.compatibility relative target hmem
    refine ⟨_, (lookup_inventory hc relative _).mpr ⟨path, _, hl, Prod.ext hrelative rfl⟩, rfl,
      rfl, hleads path _ hl ?_⟩
    exact List.mem_map.mpr ⟨_, hmem, hrelative.symm⟩
  have hlinks : {p | p ∈ sdkCompatibilityLinks.map Prod.fst} ⊆ pathsOf candidate false := by
    intro p hp
    obtain ⟨⟨relative, target⟩, hmem, rfl⟩ := List.mem_map.mp hp
    obtain ⟨mode, hentry⟩ := hmatches.compatibility relative target hmem
    exact ⟨_, hentry⟩
  obtain ⟨hmissing, hobserved, hextra⟩ := (paths_inventory_iff hr hc hlinks).mp hmatches.paths
  refine ⟨hmissing, hobserved, hextra, hcompatibility, fun relative a b ha hb => ?_,
    fun relative a b ha hb hka hkb => ?_, fun relative a b ha hb => ?_,
    fun relative a b ha hb => ?_⟩
  -- what is compared of two entries is that of the nodes
  all_goals
    obtain ⟨hata, hkinda, hmodea, hlinka⟩ := isEntryAt_of_lookup hr ha
    obtain ⟨hatb, hkindb, hmodeb, hlinkb⟩ := isEntryAt_of_lookup hc hb
  · rw [hkinda, hkindb, hmatches.kinds relative _ _ hata hatb]
  · rw [hka] at hkinda
    rw [hkb] at hkindb
    obtain ⟨mode, target, hnode⟩ := exists_symlink hkinda.symm
    obtain ⟨mode', target', hnode'⟩ := exists_symlink hkindb.symm
    rw [hnode] at hata hlinka
    rw [hnode'] at hatb hlinkb
    rw [hlinka, hlinkb, linkOf, linkOf, if_pos rfl, if_neg Bool.false_ne_true,
      hmatches.links relative mode mode' target target' hata hatb]
  · rw [hmodea, hmodeb, withoutGroupWrite_eq_iff]
    exact hmatches.modes relative _ _ hata hatb
  · by_cases hfile : a.kind = .file ∧ b.kind = .file
    -- the contents of two files
    · obtain ⟨mode, content, hnode⟩ := exists_regular (hkinda.symm.trans hfile.1)
      obtain ⟨mode', content', hnode'⟩ := exists_regular (hkindb.symm.trans hfile.2)
      rw [hnode] at hata
      rw [hnode'] at hatb
      rw [isContentMismatch_eq_false_iff hfile.1 hfile.2, Entry.content, Entry.content, hnode,
        hnode']
      exact ⟨hmatches.contents relative mode mode' content content' hata hatb,
        hmatches.explicit relative mode mode' content content' hata hatb⟩
    -- anything else is skipped by the loop
    · have hskip : (decide (a.kind ≠ b.kind) || decide (a.kind ≠ .file)) = true := by
        rw [Bool.or_eq_true, decide_eq_true_eq, decide_eq_true_eq]
        by_contra hnot
        rw [not_or, not_not, not_not] at hnot
        exact hfile ⟨hnot.2, hnot.1 ▸ hnot.2⟩
      simp only [isContentMismatch, hskip, if_true]
      rfl

end

/-- **When the comparison succeeds**: no two reference paths are normalised to one, the
compatibility links lead to directories, and the trees match as the script compares. -/
theorem succeeds_iff {followsToDir : Path → Bool} {reference candidate : Tree} :
    main sha256 project followsToDir reference candidate = .ok 0
      ↔ DistinctKeys reference ∧ LinksLead followsToDir candidate
        ∧ LayoutMatches (.script sha256) project reference candidate := by
  rw [main_eq_zero_iff_problemFree]
  constructor
  · rintro ⟨r, c, hr, hc, hfree⟩
    exact ⟨distinctKeys_of_inventory hr, layoutMatches_of_problemFree hr hc hfree⟩
  · rintro ⟨hkeys, hleads, hmatches⟩
    obtain ⟨r, hr⟩ := exists_inventory hkeys
    obtain ⟨c, hc⟩ := @exists_inventory candidate false fun path path' node node' hl hl' heq => by
      refine asPosix_inj ?_ ?_ heq
      · rintro rfl
        simp [lookup] at hl
      · rintro rfl
        simp [lookup] at hl'
    exact ⟨r, c, hr, hc, problemFree_of_layoutMatches hr hc hleads hmatches⟩

/-! ## Byte by byte -/

/-- A position of the candidate with a regular file, as in the reference. -/
def IsCommonFile (reference candidate : Tree) (relative content : Bytes) : Prop :=
  ∃ mode mode' content', IsEntryAt reference true relative (.regular mode content')
    ∧ IsEntryAt candidate false relative (.regular mode' content)

/-- The archive member that a position is compared with. -/
def IsComparedWith (project : Project) (relative : Bytes)
    (archive : Except PyException (List Member)) (member : Bytes) : Prop :=
  ((relative ∈ ndkHostScriptDifferences ∨ relative ∈ ndkPythonConfigFiles
      ∨ relative ∈ ndkHostGeneratedContentFiles)
      ∧ archive = project.ndkReleaseArchive ∧ member = ndkMember relative)
    ∨ ((relative, member) ∈ releaseMetadata ∧ archive = project.platformToolsReleaseArchive)

/-- The comparisons of the script tell the contents apart: no generic package metadata of the
candidate have the lines of the filled template but other line ends, and no file has the digest of
another content that it is compared with. -/
structure Distinguishes (sha256 : Bytes → Bytes) (project : Project) (reference candidate : Tree) :
    Prop where
  text : ∀ relative fields template content, (relative, fields) ∈ genericMetadataFields →
    project.template (encodeUtf8 "package-generic.xml.in") = .ok template →
    IsCommonFile reference candidate relative content →
    SameLines content (writeGenericPackageXml fields template) →
      content = writeGenericPackageXml fields template
  member : ∀ relative content archive member stored,
    IsComparedWith project relative archive member →
    IsCommonFile reference candidate relative content →
    IsSingleMember .bytes archive member stored → sha256 content = sha256 stored → content = stored

/-- Members that are told apart. -/
theorem isSingleMember_bytes {reference candidate : Tree}
    (h : Distinguishes sha256 project reference candidate) {relative content : Bytes}
    {archive : Except PyException (List Member)} {member : Bytes}
    (hcompared : IsComparedWith project relative archive member)
    (hfile : IsCommonFile reference candidate relative content)
    (hmember : IsSingleMember (.script sha256) archive member content) :
    IsSingleMember .bytes archive member content := by
  obtain ⟨infolist, info, stored, harchive, hfilter, hdir, hcontent, hdigest⟩ := hmember
  refine ⟨infolist, info, stored, harchive, hfilter, hdir, hcontent, ?_⟩
  exact h.member relative content archive member stored hcompared hfile
    ⟨infolist, info, stored, harchive, hfilter, hdir, hcontent, rfl⟩ hdigest

/-- Contents that are told apart follow the rules byte by byte. -/
theorem explicitProvenance_bytes {reference candidate : Tree}
    (h : Distinguishes sha256 project reference candidate) {relative content : Bytes}
    (hfile : IsCommonFile reference candidate relative content)
    (hprovenance : ExplicitProvenance (.script sha256) project relative content) :
    ExplicitProvenance .bytes project relative content where
  hostScript := hprovenance.hostScript
  ndkRelease hmem := isSingleMember_bytes h (.inl ⟨hmem, rfl, rfl⟩) hfile
    (hprovenance.ndkRelease hmem)
  genericMetadata fields hmem := by
    obtain ⟨template, htemplate, hdecodes, hlines⟩ := hprovenance.genericMetadata fields hmem
    exact ⟨template, htemplate, hdecodes,
      h.text relative fields template content hmem htemplate hfile hlines⟩
  directMetadata := hprovenance.directMetadata
  releaseMetadata member hmem := isSingleMember_bytes h (.inr ⟨hmem, rfl⟩) hfile
    (hprovenance.releaseMetadata member hmem)

/-- Trees that match byte by byte are told apart. -/
theorem LayoutMatches.distinguishes {reference candidate : Tree}
    (h : LayoutMatches .bytes project reference candidate) :
    Distinguishes sha256 project reference candidate := by
  have hexplicit {relative content : Bytes} (hlisted : requiresExplicitContent relative = true)
      (hfile : IsCommonFile reference candidate relative content) :
      ExplicitProvenance .bytes project relative content := by
    obtain ⟨mode, mode', content', hentry, hentry'⟩ := hfile
    exact h.explicit relative mode mode' content' content hentry hentry' hlisted
  have hgenerated {relative : Bytes} (hmem : relative ∈ generatedMetadata) :
      requiresExplicitContent relative = true := by
    simp [requiresExplicitContent, hmem]
  constructor
  · intro relative fields template content hmem htemplate hfile _
    have hlisted : relative ∈ generatedMetadata :=
      List.mem_append_left _ (List.mem_append_left _ (List.mem_map.mpr ⟨_, hmem, rfl⟩))
    obtain ⟨template', htemplate', -, heq⟩ :=
      (hexplicit (hgenerated hlisted) hfile).genericMetadata fields hmem
    rw [htemplate, Except.ok.injEq] at htemplate'
    rw [htemplate']
    exact heq
  · intro relative content archive member stored hcompared hfile hstored _
    have hmember : IsSingleMember .bytes archive member content := by
      rcases hcompared with ⟨hmem, rfl, rfl⟩ | ⟨hmem, rfl⟩
      · refine (hexplicit ?_ hfile).ndkRelease hmem
        rcases hmem with h | h | h <;> simp [requiresExplicitContent, isNdkGeneratedTextPath, h]
      · refine (hexplicit (hgenerated ?_) hfile).releaseMetadata member hmem
        exact List.mem_append_right _ (List.mem_map.mpr ⟨_, hmem, rfl⟩)
    obtain ⟨infolist, info, stored', harchive, hfilter, -, hcontent, heq⟩ := hmember
    obtain ⟨infolist', info', stored'', harchive', hfilter', -, hcontent', heq'⟩ := hstored
    have hcontents : content = stored' ∧ stored = stored'' := ⟨heq, heq'⟩
    rw [harchive, Except.ok.injEq] at harchive'
    subst harchive'
    rw [hfilter, List.cons.injEq] at hfilter'
    rw [← hfilter'.1, hcontent, Except.ok.injEq] at hcontent'
    rw [hcontents.1, hcontents.2, hcontent']

/-- **When a successful comparison promises matching layouts**, byte by byte: if the trees match as
the script compares, then its comparisons tell their contents apart. -/
theorem layoutMatches_of_main_iff {followsToDir : Path → Bool} {reference candidate : Tree} :
    (main sha256 project followsToDir reference candidate = .ok 0 →
        LayoutMatches .bytes project reference candidate)
      ↔ (DistinctKeys reference → LinksLead followsToDir candidate →
        LayoutMatches (.script sha256) project reference candidate →
          Distinguishes sha256 project reference candidate) := by
  rw [succeeds_iff]
  constructor
  · exact fun h hkeys hleads hmatches => (h ⟨hkeys, hleads, hmatches⟩).distinguishes
  · rintro h ⟨hkeys, hleads, hmatches⟩
    have hdistinguishes := h hkeys hleads hmatches
    refine { hmatches with contents := ?_, explicit := ?_ }
    · intro relative mode mode' content content' hentry hentry'
      refine (hmatches.contents relative mode mode' content content' hentry hentry').imp_right ?_
      intro hprovenance
      cases hprovenance with
      | hostElf listed replaced => exact .hostElf listed replaced
      | ndkHostElf listed implicit replaced => exact .ndkHostElf listed implicit replaced
      | explicit listed provenance =>
          exact .explicit listed (explicitProvenance_bytes hdistinguishes
            ⟨mode, mode', content, hentry, hentry'⟩ provenance)
    · intro relative mode mode' content content' hentry hentry' hlisted
      exact explicitProvenance_bytes hdistinguishes ⟨mode, mode', content, hentry, hentry'⟩
        (hmatches.explicit relative mode mode' content content' hentry hentry' hlisted)

/-! ## Another line end -/

/-- A directory with one directory in it. -/
def oneDirectory (name : Name) (children : List (Name × Node)) : List (Name × Node) :=
  [(name, .directory 0o755 children)]

/-- The build tools with the given package description. -/
def buildToolsWith (description : Bytes) : List (Name × Node) :=
  oneDirectory (nameOf "build-tools" (by decide +kernel)) <|
  oneDirectory (nameOf "36.0.0" (by decide +kernel))
    [(nameOf "package.xml" (by decide +kernel), .regular 0o644 description)]

/-- An SDK with the given entries in the directory of the NDK hosts. -/
def sdkWithHosts (hosts : List (Name × Node)) : List (Name × Node) :=
  oneDirectory (nameOf "ndk" (by decide +kernel)) <|
  oneDirectory (nameOf "30.0.16248370" (by decide +kernel)) <|
  oneDirectory (nameOf "toolchains" (by decide +kernel)) <|
  oneDirectory (nameOf "llvm" (by decide +kernel)) <|
  oneDirectory (nameOf "prebuilt" (by decide +kernel)) hosts

/-- The file of a host directory. -/
def hostFiles : List (Name × Node) :=
  [(nameOf "NOTICE" (by decide +kernel), .regular 0o644 (encodeUtf8 "notice"))]

/-- A reference SDK with one host directory and the build tools. -/
def smallReference : Tree where
  children := buildToolsWith (encodeUtf8 "reference") ++
    sdkWithHosts (oneDirectory (nameOf "linux-x86_64" (by decide +kernel)) hostFiles)
  distinct := distinctNames_of_nodup_paths (by decide +kernel)

/-- A candidate SDK: the renamed directory, writable by its group, the compatibility link, and a
package description with a carriage return. -/
def smallCandidate : Tree where
  children := buildToolsWith (encoded "build-tools;36.0.0\r\n".toList) ++ sdkWithHosts
    [(nameOf "linux-aarch64" (by decide +kernel), .directory 0o775 hostFiles),
     (nameOf "linux-x86_64" (by decide +kernel), .symlink 0o777 (encodeUtf8 "linux-aarch64"))]
  distinct := distinctNames_of_nodup_paths (by decide +kernel)

/-- **A carriage return in a package description is not noticed**: the comparison succeeds although
the file is neither that of the reference nor the filled template. -/
theorem not_layoutMatches_carriageReturn :
    main id pathProject (fun _ => true) smallReference smallCandidate = .ok 0
      ∧ ¬ LayoutMatches .bytes pathProject smallReference smallCandidate := by
  refine ⟨by decide +kernel, fun h => ?_⟩
  let path : Path := [nameOf "build-tools" (by decide +kernel), nameOf "36.0.0" (by decide +kernel),
    nameOf "package.xml" (by decide +kernel)]
  have hreference : IsEntryAt smallReference true (encodeUtf8 "build-tools/36.0.0/package.xml")
      (.regular 0o644 (encodeUtf8 "reference")) := ⟨path, by rfl, by decide +kernel⟩
  have hcandidate : IsEntryAt smallCandidate false (encodeUtf8 "build-tools/36.0.0/package.xml")
      (.regular 0o644 (encoded "build-tools;36.0.0\r\n".toList)) :=
    ⟨path, by rfl, by decide +kernel⟩
  have hprovenance := h.explicit _ _ _ _ _ hreference hcandidate (by decide +kernel)
  obtain ⟨template, htemplate, -, heq⟩ := hprovenance.genericMetadata buildToolsFields
    ((list_lookup_eq_some_iff (by decide +kernel) _ _).mp lookup_buildTools)
  cases htemplate
  have hlength := congrArg List.length (Eq.trans heq writeGenericPackageXml_path)
  exact absurd hlength (by decide)

end AndroidSdk.FileTree.ReferenceLayout
