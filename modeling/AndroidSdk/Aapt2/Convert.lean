import AndroidSdk.Aapt2.FileReferences

/-! # Converting an APK

`aapt2 convert` (`Convert.cpp`): the files that the resource table refers to are written in the
other format, then the table, then all other files. The archive is modelled as the list of the
entries that were written.

* **`fileReferenceOf`** — a file reference as it is loaded from a binary APK.
* **`convert`** — the conversion with a serializer; `protoApkSerializer` is `ProtoApkSerializer`.
* **`ConsistentFiles`** — the types of the written references tell which files are proto XML.
* **`consistentFiles_iff`** — when they do. -/

namespace AndroidSdk.Aapt2

open Lib (mapAccumM bind_eq_ok_iff)
open SplitSelect (ResTableConfig)

variable {α X : Type}

/-! ## Loading -/

/-- `ZipFileCollection::FindFile`: of several files with one path the last is found. -/
def findFile (files : List IFile) (path : Bytes) : Option IFile :=
  files.reverse.find? fun file => file.path = path

/-- `ParseBinaryResValue` for a string, and the file that `ParseValue` attaches: the value is a file
reference if it is one of a resource that is no string and starts with `res/`. -/
def fileReferenceOf (files : List IFile) (type : ResourceType) (str : Bytes) :
    Option FileReference :=
  if type ≠ .kString ∧ bytes "res/" <+: str then
    some {
      path := str
      type :=
        if type = .kRaw then .kUnknown
        else if bytes ".xml" <:+ str then .kBinaryXml
        else if bytes ".png" <:+ str then .kPng
        else .kUnknown
      file := findFile files str }
  else none

/-- `LoadedApk`. -/
structure LoadedApk (α X : Type) where
  files : List IFile
  table : Option (ResourceTable (Content α))
  manifest : X

/-- The file references of a table, among the items of values too. -/
def ResourceTable.allReferences (table : ResourceTable (Content α)) : List FileReference :=
  table.fileReferences.map Prod.snd ++ table.itemReferences

/-- The file references of a binary APK are those that `ParseBinaryResValue` makes for the type of
their resource, and no value is behind a disabled flag. -/
def LoadedApk.IsBinary (apk : LoadedApk α X) : Prop :=
  ∀ table, apk.table = some table → ∀ e ∈ table.namedEntries,
    e.2.flagDisabledValues = [] ∧ ∀ v ∈ e.2.values,
      ∀ ref ∈ v.fileReference.toList ++ v.itemReferences,
        fileReferenceOf apk.files e.1.type.type ref.path = some ref

/-! ## Writing -/

/-- `pb::FileReference::Type`. -/
inductive PbFileType where
  | UNKNOWN | PNG | BINARY_XML | PROTO_XML
  deriving DecidableEq

/-- `SerializeFileReferenceTypeToPb`. -/
def ResourceFileType.toPb : ResourceFileType → PbFileType
  | .kBinaryXml => .BINARY_XML
  | .kProtoXml => .PROTO_XML
  | .kPng => .PNG
  | .kUnknown => .UNKNOWN

/-- What is written under a path: a serialised proto XML node, a copy of a file, or the table with
its file references. -/
inductive EntryContent (X : Type) where
  | protoXml (xml : X)
  | copied (file : IFile)
  | protoTable (refs : List (Bytes × PbFileType))
  deriving DecidableEq

/-- `ArchiveEntry`. -/
structure ArchiveEntry (X : Type) where
  path : Bytes
  flags : UInt32
  content : EntryContent X
  deriving DecidableEq

/-- `ArchiveEntry::kCompress`. -/
def kCompress : UInt32 := 0x01

/-- `kAndroidManifestPath`. -/
def kAndroidManifestPath : Bytes := bytes "AndroidManifest.xml"

/-- `kApkResourceTablePath`. -/
def kApkResourceTablePath : Bytes := bytes "resources.arsc"

/-- `kProtoResourceTablePath`. -/
def kProtoResourceTablePath : Bytes := bytes "resources.pb"

/-- What the conversion is given: how binary XML is inflated, and whether the writer can write an
entry after those it has written. -/
structure ConvertContext (X : Type) where
  inflate : Bytes → Option X
  accepts : List (ArchiveEntry X) → ArchiveEntry X → Bool

/-- What `Convert` reports before it returns 1. -/
inductive ConvertError where
  /-- "failed to serialize AndroidManifest.xml" -/
  | manifest
  /-- "no file associated with …" -/
  | noFile (ref : FileReference)
  /-- "failed to serialize file …" -/
  | file (path : Bytes)
  /-- "failed to serialize the resource table" -/
  | table
  /-- "failed to copy file …" -/
  | copy (path : Bytes)
  deriving DecidableEq

/-- An entry is written, if the writer can. -/
def ConvertContext.write (ctx : ConvertContext X) (archive : List (ArchiveEntry X))
    (entry : ArchiveEntry X) : Option (List (ArchiveEntry X)) :=
  if ctx.accepts archive entry then some (archive ++ [entry]) else none

/-- The flags of an entry that is compressed as the file was. -/
def IFile.flags (file : IFile) : UInt32 := if file.wasCompressed then kCompress else 0

/-- `CopyFileToArchivePreserveCompression`. -/
def ConvertContext.copyFile (ctx : ConvertContext X) (file : IFile) (path : Bytes)
    (archive : List (ArchiveEntry X)) : Option (List (ArchiveEntry X)) :=
  file.data.bind fun _ => ctx.write archive ⟨path, file.flags, .copied file⟩

/-- `IApkSerializer`. -/
structure IApkSerializer (α X : Type) where
  serializeXml : X → Bytes → UInt32 → List (ArchiveEntry X) → Option (List (ArchiveEntry X))
  serializeTable :
    ResourceTable (Content α) → List (ArchiveEntry X) → Option (List (ArchiveEntry X))
  /-- A reference, whose file is known, may get another type. -/
  serializeFile : FileReference → IFile → List (ArchiveEntry X) →
    Option (List (ArchiveEntry X) × FileReference)

/-- `ProtoApkSerializer::SerializeFile`. -/
def protoSerializeFile (ctx : ConvertContext X) (ref : FileReference) (file : IFile)
    (archive : List (ArchiveEntry X)) : Option (List (ArchiveEntry X) × FileReference) :=
  if ref.type = .kBinaryXml then do
    let xml ← file.data.bind ctx.inflate
    let archive ← ctx.write archive ⟨ref.path, file.flags, .protoXml xml⟩
    return (archive, { ref with type := .kProtoXml })
  else do
    let archive ← ctx.copyFile file ref.path archive
    return (archive, ref)

/-- `ProtoApkSerializer`. -/
def protoApkSerializer (ctx : ConvertContext X) : IApkSerializer α X where
  serializeXml xml path flags archive := ctx.write archive ⟨path, flags, .protoXml xml⟩
  serializeTable table archive := ctx.write archive ⟨kProtoResourceTablePath, kCompress,
    .protoTable (table.allReferences.map fun ref => (ref.path, ref.type.toPb))⟩
  serializeFile := protoSerializeFile ctx

/-! ## Converting -/

/-- What `Convert` does with a file reference; the state holds the paths that were written. -/
def convertReference (serializer : IApkSerializer α X) (s : List Bytes × List (ArchiveEntry X))
    (_ : ResourceName) (ref : FileReference) :
    Except ConvertError ((List Bytes × List (ArchiveEntry X)) × FileReference) :=
  match ref.file with
  | none => .error (.noFile ref)
  | some file =>
      -- only serialize if the file was not seen before
      if ref.path ∈ s.1 then .ok (s, ref)
      else
        match serializer.serializeFile ref file s.2 with
        | none => .error (.file ref.path)
        | some (archive, ref') => .ok ((ref.path :: s.1, archive), ref')

/-- What `Convert` does with a file of the APK after the resources. -/
def copyOtherFile (ctx : ConvertContext X) (archive : List (ArchiveEntry X)) (file : IFile) :
    Except ConvertError (List (ArchiveEntry X)) :=
  if file.path = kAndroidManifestPath ∨ file.path = kApkResourceTablePath
      ∨ file.path = kProtoResourceTablePath ∨ bytes "res/" <+: file.path then .ok archive
  else
    match ctx.copyFile file file.path archive with
    | none => .error (.copy file.path)
    | some archive => .ok archive

/-- What `Convert` does with the table. -/
def convertTable (serializer : IApkSerializer α X) (table : ResourceTable (Content α))
    (archive : List (ArchiveEntry X)) : Except ConvertError (List (ArchiveEntry X)) := do
  let ((_, archive), table) ← table.rewriteFileReferences (convertReference serializer)
    ([], archive)
  match serializer.serializeTable table archive with
  | none => .error .table
  | some archive => .ok archive

/-- `Convert`; it returns 0 with the archive. -/
def convert (ctx : ConvertContext X) (serializer : IApkSerializer α X) (apk : LoadedApk α X) :
    Except ConvertError (List (ArchiveEntry X)) := do
  let flags := (findFile apk.files kAndroidManifestPath).elim 0 IFile.flags
  match serializer.serializeXml apk.manifest kAndroidManifestPath flags [] with
  | none => .error .manifest
  | some archive => do
      let archive ← match apk.table with
        | none => pure archive
        | some table => convertTable serializer table archive
      apk.files.foldlM (copyOtherFile ctx) archive

/-! ## What the loop over the references writes -/

/-- The first item with a property stands in one place only. -/
theorem first_split_unique {β : Type} {P : β → Prop} {pre pre' post post' : List β} {x x' : β}
    (h : pre ++ x :: post = pre' ++ x' :: post') (hx : P x) (hx' : P x')
    (hpre : ∀ y ∈ pre, ¬ P y) (hpre' : ∀ y ∈ pre', ¬ P y) : pre = pre' ∧ x = x' ∧ post = post' := by
  induction pre generalizing pre' with
  | nil =>
      cases pre' with
      | nil =>
          obtain ⟨rfl, rfl⟩ := List.cons.inj h
          exact ⟨rfl, rfl, rfl⟩
      | cons y pre' =>
          obtain ⟨rfl, -⟩ := List.cons.inj h
          exact absurd hx (hpre' x List.mem_cons_self)
  | cons y pre ih =>
      cases pre' with
      | nil =>
          obtain ⟨rfl, -⟩ := List.cons.inj h
          exact absurd hx' (hpre y List.mem_cons_self)
      | cons z pre' =>
          obtain ⟨rfl, htail⟩ := List.cons.inj h
          obtain ⟨rfl, rest⟩ := ih htail (fun w hw => hpre w (List.mem_cons_of_mem _ hw))
            fun w hw => hpre' w (List.mem_cons_of_mem _ hw)
          exact ⟨rfl, rest⟩

/-- Of the items with a property there is a first one. -/
theorem exists_first {β : Type} {P : β → Prop} {l : List β} (h : ∃ x ∈ l, P x) :
    ∃ pre x post, l = pre ++ x :: post ∧ P x ∧ ∀ y ∈ pre, ¬ P y := by
  classical
  obtain ⟨x, hx, hP⟩ := h
  have hsome : (l.find? fun y => decide (P y)).isSome :=
    List.find?_isSome.mpr ⟨x, hx, decide_eq_true hP⟩
  obtain ⟨y, hy⟩ := Option.isSome_iff_exists.mp hsome
  obtain ⟨hPy, pre, post, hl, hpre⟩ := List.find?_eq_some_iff_append.mp hy
  exact ⟨pre, y, post, hl, of_decide_eq_true hPy, fun z hz => by simpa using hpre z hz⟩

/-- The references after the loop: the first one of each path to binary XML is one to proto XML. -/
def convertedReferences : List Bytes → List FileReference → List FileReference
  | _, [] => []
  | seen, ref :: refs =>
      (if ref.path ∉ seen ∧ ref.type = .kBinaryXml then { ref with type := .kProtoXml } else ref)
        :: convertedReferences (ref.path :: seen) refs

/-- The paths that the loop writes, and whether proto XML is written. -/
def writtenPaths : List Bytes → List FileReference → List (Bytes × Bool)
  | _, [] => []
  | seen, ref :: refs =>
      if ref.path ∈ seen then writtenPaths (ref.path :: seen) refs
      else (ref.path, decide (ref.type = .kBinaryXml)) :: writtenPaths (ref.path :: seen) refs

/-- Whether an entry of the archive is a serialised proto XML node. -/
def ArchiveEntry.isProtoXml (entry : ArchiveEntry X) : Bool :=
  match entry.content with
  | .protoXml _ => true
  | _ => false

/-- The paths that were seen matter as a set. -/
theorem convertedReferences_congr {seen seen' : List Bytes} (h : ∀ p, p ∈ seen ↔ p ∈ seen')
    (refs : List FileReference) :
    convertedReferences seen refs = convertedReferences seen' refs := by
  induction refs generalizing seen seen' with
  | nil => rfl
  | cons ref refs ih =>
      have hcons : ∀ p, p ∈ ref.path :: seen ↔ p ∈ ref.path :: seen' := fun p => by simp [h p]
      simp only [convertedReferences, h ref.path, ih hcons]

/-- The paths that were seen matter as a set. -/
theorem writtenPaths_congr {seen seen' : List Bytes} (h : ∀ p, p ∈ seen ↔ p ∈ seen')
    (refs : List FileReference) : writtenPaths seen refs = writtenPaths seen' refs := by
  induction refs generalizing seen seen' with
  | nil => rfl
  | cons ref refs ih =>
      have hcons : ∀ p, p ∈ ref.path :: seen ↔ p ∈ ref.path :: seen' := fun p => by simp [h p]
      simp only [writtenPaths, h ref.path, ih hcons]

/-- An archive that accepts an entry gets it at its end. -/
theorem ConvertContext.write_eq_some {ctx : ConvertContext X}
    {archive archive' : List (ArchiveEntry X)} {entry : ArchiveEntry X} (h : ctx.write archive entry = some archive') :
    archive' = archive ++ [entry] := by
  rw [ConvertContext.write] at h
  split_ifs at h
  cases h
  rfl

/-- **What `SerializeFile` does**: the archive gets an entry at the path of the reference, and a file
that is binary XML becomes one that is proto XML. -/
theorem protoSerializeFile_eq_some {ctx : ConvertContext X} {ref ref' : FileReference} {file : IFile}
    {archive archive' : List (ArchiveEntry X)}
    (h : protoSerializeFile ctx ref file archive = some (archive', ref')) :
    ref' = (if ref.type = .kBinaryXml then { ref with type := .kProtoXml } else ref)
      ∧ ∃ entry, archive' = archive ++ [entry] ∧ entry.path = ref.path
        ∧ entry.isProtoXml = decide (ref.type = .kBinaryXml)
        ∧ ∀ refs, entry.content ≠ .protoTable refs := by
  rw [protoSerializeFile] at h
  by_cases htype : ref.type = .kBinaryXml
  · rw [if_pos htype] at h ⊢
    obtain ⟨xml, -, h⟩ := Option.bind_eq_some_iff.mp h
    obtain ⟨archive₁, hwrite, h⟩ := Option.bind_eq_some_iff.mp h
    cases h
    exact ⟨rfl, _, ConvertContext.write_eq_some hwrite, rfl,
      by simp [ArchiveEntry.isProtoXml, htype], by simp⟩
  · rw [if_neg htype] at h ⊢
    obtain ⟨archive₁, hcopy, h⟩ := Option.bind_eq_some_iff.mp h
    obtain ⟨data, -, hwrite⟩ := Option.bind_eq_some_iff.mp hcopy
    cases h
    exact ⟨rfl, _, ConvertContext.write_eq_some hwrite, rfl,
      by simp [ArchiveEntry.isProtoXml, htype], by simp⟩

/-- One step of the loop. -/
theorem convertReference_eq_ok {ctx : ConvertContext X} {name : ResourceName}
    {s s' : List Bytes × List (ArchiveEntry X)} {ref ref' : FileReference}
    (h : convertReference (protoApkSerializer ctx : IApkSerializer α X) s name ref
      = .ok (s', ref')) :
    ref' = (if ref.path ∉ s.1 ∧ ref.type = .kBinaryXml then { ref with type := .kProtoXml }
        else ref)
      ∧ (∀ p, p ∈ s'.1 ↔ p ∈ ref.path :: s.1)
      ∧ ∃ entries, s'.2 = s.2 ++ entries ∧ (∀ e ∈ entries, ∀ refs, e.content ≠ .protoTable refs)
        ∧ entries.map (fun e => (e.path, e.isProtoXml))
          = if ref.path ∈ s.1 then [] else [(ref.path, decide (ref.type = .kBinaryXml))] := by
  rw [convertReference] at h
  cases hfile : ref.file with
  | none =>
      rw [hfile] at h
      cases h
  | some file =>
      rw [hfile] at h
      dsimp only at h
      by_cases hseen : ref.path ∈ s.1
      · rw [if_pos hseen] at h
        cases h
        -- the file was written under the path before
        refine ⟨by simp [hseen], fun p => ?_, [], by simp, by simp, by simp [hseen]⟩
        rw [List.mem_cons]
        constructor
        · exact .inr
        · rintro (rfl | hp)
          · exact hseen
          · exact hp
      · rw [if_neg hseen] at h
        cases hwrite : protoSerializeFile ctx ref file s.2 with
        | none =>
            simp only [protoApkSerializer, hwrite] at h
            cases h
        | some r =>
            simp only [protoApkSerializer, hwrite] at h
            cases h
            obtain ⟨href, entry, harchive, hpath, hproto, hcontent⟩ :=
              protoSerializeFile_eq_some hwrite
            refine ⟨?_, fun p => Iff.rfl, [entry], harchive, ?_, ?_⟩
            · rw [href, hfile]
              simp [hseen]
            · intro e he
              rw [List.mem_singleton.mp he]
              exact hcontent
            · rw [if_neg hseen, List.map_singleton, hpath, hproto]

/-- **The whole loop.** -/
theorem mapAccumM_convertReference {ctx : ConvertContext X}
    {s s' : List Bytes × List (ArchiveEntry X)} {refs refs' : List (ResourceName × FileReference)}
    (h : mapAccumM (rewriteNamedReference
      (convertReference (protoApkSerializer ctx : IApkSerializer α X))) s refs = .ok (s', refs')) :
    refs'.map Prod.snd = convertedReferences s.1 (refs.map Prod.snd)
      ∧ ∃ entries, s'.2 = s.2 ++ entries ∧ (∀ e ∈ entries, ∀ refs, e.content ≠ .protoTable refs)
        ∧ entries.map (fun e => (e.path, e.isProtoXml)) = writtenPaths s.1 (refs.map Prod.snd) := by
  induction refs generalizing s refs' with
  | nil =>
      cases h
      exact ⟨rfl, [], by simp, by simp, rfl⟩
  | cons ref refs ih =>
      obtain ⟨t, ref', rest, href, hrest, rfl⟩ := Lib.mapAccumM_cons_eq_ok_iff.mp h
      obtain ⟨⟨t', r⟩, hstep, href⟩ := bind_eq_ok_iff.mp href
      cases href
      obtain ⟨hr, hseen, entries, harchive, hfiles, hentries⟩ := convertReference_eq_ok hstep
      obtain ⟨hrest', entries', harchive', hfiles', hentries'⟩ := ih hrest
      constructor
      · rw [List.map_cons, List.map_cons, convertedReferences, ← hr, hrest',
          convertedReferences_congr hseen]
      · refine ⟨entries ++ entries', by rw [harchive', harchive, List.append_assoc], ?_, ?_⟩
        · intro e he
          rcases List.mem_append.mp he with he | he
          · exact hfiles e he
          · exact hfiles' e he
        rw [List.map_append, hentries, hentries', writtenPaths_congr hseen, List.map_cons,
          writtenPaths]
        split_ifs <;> rfl

/-- What the references are after the loop. -/
theorem mem_convertedReferences_iff {seen : List Bytes} {refs : List FileReference}
    {ref' : FileReference} :
    ref' ∈ convertedReferences seen refs ↔ ∃ pre ref post, refs = pre ++ ref :: post
      ∧ ref' = if (ref.path ∉ seen ∧ ∀ q ∈ pre, q.path ≠ ref.path) ∧ ref.type = .kBinaryXml then
          { ref with type := .kProtoXml } else ref := by
  induction refs generalizing seen with
  | nil => simp [convertedReferences]
  | cons first refs ih =>
      rw [convertedReferences, List.mem_cons, ih]
      constructor
      · rintro (rfl | ⟨pre, ref, post, rfl, rfl⟩)
        · exact ⟨[], first, refs, rfl, by simp⟩
        · refine ⟨first :: pre, ref, post, rfl, if_congr ?_ rfl rfl⟩
          simp only [List.mem_cons, not_or, forall_eq_or_imp]
          constructor
          · rintro ⟨⟨⟨hne, hseen⟩, hpre⟩, htype⟩
            exact ⟨⟨hseen, Ne.symm hne, hpre⟩, htype⟩
          · rintro ⟨⟨hseen, hne, hpre⟩, htype⟩
            exact ⟨⟨⟨Ne.symm hne, hseen⟩, hpre⟩, htype⟩
      · rintro ⟨pre, ref, post, hrefs, rfl⟩
        cases pre with
        | nil =>
            obtain ⟨rfl, rfl⟩ := List.cons.inj hrefs
            left
            simp
        | cons x pre =>
            obtain ⟨rfl, rfl⟩ := List.cons.inj hrefs
            refine .inr ⟨pre, ref, post, rfl, if_congr ?_ rfl rfl⟩
            simp only [List.mem_cons, not_or, forall_eq_or_imp]
            constructor
            · rintro ⟨⟨hseen, hne, hpre⟩, htype⟩
              exact ⟨⟨⟨Ne.symm hne, hseen⟩, hpre⟩, htype⟩
            · rintro ⟨⟨⟨hne, hseen⟩, hpre⟩, htype⟩
              exact ⟨⟨hseen, Ne.symm hne, hpre⟩, htype⟩

/-- What is written under a path is decided by the first reference to it. -/
theorem mem_writtenPaths_iff {seen : List Bytes} {refs : List FileReference} {p : Bytes} {b : Bool} :
    (p, b) ∈ writtenPaths seen refs ↔ p ∉ seen ∧ ∃ pre ref post, refs = pre ++ ref :: post
      ∧ ref.path = p ∧ (∀ q ∈ pre, q.path ≠ p) ∧ b = decide (ref.type = .kBinaryXml) := by
  induction refs generalizing seen with
  | nil => simp [writtenPaths]
  | cons first refs ih =>
      -- what the rest writes does not have the path of the first reference
      have htail : (p, b) ∈ writtenPaths (first.path :: seen) refs ↔ p ∉ seen ∧ first.path ≠ p
          ∧ ∃ pre ref post, refs = pre ++ ref :: post
            ∧ ref.path = p ∧ (∀ q ∈ pre, q.path ≠ p) ∧ b = decide (ref.type = .kBinaryXml) := by
        rw [ih, List.mem_cons, not_or, and_comm (a := ¬ p = first.path), and_assoc, ne_comm]
      -- the first reference with the path is this one, or one of the rest
      have hsplit : (∃ pre ref post, first :: refs = pre ++ ref :: post
            ∧ ref.path = p ∧ (∀ q ∈ pre, q.path ≠ p) ∧ b = decide (ref.type = .kBinaryXml))
          ↔ (first.path = p ∧ b = decide (first.type = .kBinaryXml)) ∨ (first.path ≠ p
            ∧ ∃ pre ref post, refs = pre ++ ref :: post
              ∧ ref.path = p ∧ (∀ q ∈ pre, q.path ≠ p) ∧ b = decide (ref.type = .kBinaryXml)) := by
        constructor
        · rintro ⟨pre, ref, post, hrefs, hpath, hpre, hb⟩
          cases pre with
          | nil =>
              obtain ⟨rfl, rfl⟩ := List.cons.inj hrefs
              exact .inl ⟨hpath, hb⟩
          | cons x pre =>
              obtain ⟨rfl, rfl⟩ := List.cons.inj hrefs
              exact .inr ⟨hpre _ List.mem_cons_self, pre, ref, post, rfl, hpath,
                fun q hq => hpre q (List.mem_cons_of_mem _ hq), hb⟩
        · rintro (⟨hpath, hb⟩ | ⟨hne, pre, ref, post, rfl, hpath, hpre, hb⟩)
          · exact ⟨[], first, refs, rfl, hpath, by simp, hb⟩
          · exact ⟨first :: pre, ref, post, rfl, hpath, List.forall_mem_cons.mpr ⟨hne, hpre⟩, hb⟩
      rw [writtenPaths, hsplit]
      -- a path that was seen before is not written again
      by_cases hseen : first.path ∈ seen
      · rw [if_pos hseen, htail]
        refine and_congr_right fun hp => ?_
        have hne : first.path ≠ p := fun heq => hp (heq ▸ hseen)
        simp [hne]
      · rw [if_neg hseen, List.mem_cons, htail, Prod.mk.injEq]
        constructor
        · rintro (⟨rfl, rfl⟩ | ⟨hp, hne, htail⟩)
          · exact ⟨hseen, .inl ⟨rfl, rfl⟩⟩
          · exact ⟨hp, .inr ⟨hne, htail⟩⟩
        · rintro ⟨hp, ⟨rfl, rfl⟩ | htail⟩
          · exact .inl ⟨rfl, rfl⟩
          · exact .inr ⟨hp, htail⟩

/-- Each path is written once. -/
theorem nodup_writtenPaths (seen : List Bytes) (refs : List FileReference) :
    ((writtenPaths seen refs).map Prod.fst).Nodup := by
  induction refs generalizing seen with
  | nil => exact List.nodup_nil
  | cons first refs ih =>
      rw [writtenPaths]
      split_ifs with hseen
      · exact ih _
      · rw [List.map_cons, List.nodup_cons]
        refine ⟨fun hmem => ?_, ih _⟩
        obtain ⟨⟨p, b⟩, hp, hpath⟩ := List.mem_map.mp hmem
        have hpath : p = first.path := hpath
        exact (mem_writtenPaths_iff.mp hp).1 (by simp [hpath])

/-- A path is written iff there is a reference to it. -/
theorem count_writtenPaths (refs : List FileReference) (p : Bytes) :
    ((writtenPaths [] refs).map Prod.fst).count p = 1 ↔ ∃ ref ∈ refs, ref.path = p := by
  have hmem : p ∈ (writtenPaths [] refs).map Prod.fst ↔ ∃ ref ∈ refs, ref.path = p := by
    constructor
    · intro hp
      obtain ⟨⟨p', b⟩, hmem, rfl⟩ := List.mem_map.mp hp
      obtain ⟨-, pre, ref, post, rfl, hpath, -⟩ := mem_writtenPaths_iff.mp hmem
      exact ⟨ref, by simp, hpath⟩
    · intro href
      obtain ⟨pre, ref, post, hrefs, hpath, hpre⟩ :=
        exists_first (P := fun ref : FileReference => ref.path = p) href
      exact List.mem_map.mpr ⟨(p, _),
        mem_writtenPaths_iff.mpr ⟨by simp, pre, ref, post, hrefs, hpath, hpre, rfl⟩, rfl⟩
  rw [(nodup_writtenPaths [] refs).count, ← hmem]
  split_ifs with hp <;> simp [hp]

/-! ## Consistency -/

/-- **The written table tells which files are proto XML**, and each referenced path is written
once. -/
def ConsistentFiles (archive : List (ArchiveEntry X)) : Prop :=
  ∀ entry ∈ archive, ∀ refs, entry.content = .protoTable refs → ∀ ref ∈ refs,
    (ref.2 = .PROTO_XML ↔ ∃ e ∈ archive, e.path = ref.1 ∧ e.isProtoXml)
      ∧ archive.countP (fun e => e.path = ref.1) = 1

/-- No reference shares its path with the one whose file is converted, and no item refers to a file
that no value refers to. -/
def ResourceTable.ConvertsAlone (table : ResourceTable (Content α)) : Prop :=
  (∀ pre ref post, table.fileReferences.map Prod.snd = pre ++ ref :: post →
    ref.type = .kBinaryXml → (∀ q ∈ pre, q.path ≠ ref.path) →
      (∀ q ∈ post, q.path ≠ ref.path) ∧ ∀ q ∈ table.itemReferences, q.path ≠ ref.path)
  ∧ ∀ q ∈ table.itemReferences, ∃ ref ∈ table.fileReferences, ref.2.path = q.path

section Loaded

variable {apk : LoadedApk α X} {table : ResourceTable (Content α)}

/-- What a loaded file reference is. -/
theorem fileReferenceOf_eq_some {files : List IFile} {type : ResourceType} {ref : FileReference}
    (h : fileReferenceOf files type ref.path = some ref) :
    bytes "res/" <+: ref.path ∧ ref.type ≠ .kProtoXml := by
  rw [fileReferenceOf] at h
  by_cases hres : type ≠ .kString ∧ bytes "res/" <+: ref.path
  · rw [if_pos hres] at h
    refine ⟨hres.2, ?_⟩
    have htype := congrArg FileReference.type (Option.some.inj h)
    rw [← htype]
    dsimp only
    split_ifs <;> simp
  · rw [if_neg hres] at h
    cases h

/-- The references of a loaded table are to files of `res/`, and none to proto XML. -/
theorem LoadedApk.IsBinary.reference (h : apk.IsBinary) (htable : apk.table = some table)
    {ref : FileReference} (href : ref ∈ table.allReferences) :
    bytes "res/" <+: ref.path ∧ ref.type ≠ .kProtoXml := by
  rw [ResourceTable.allReferences, List.mem_append] at href
  rcases href with href | href
  · obtain ⟨⟨name, ref⟩, hmem, rfl⟩ := List.mem_map.mp href
    obtain ⟨e, he, hmem⟩ := List.mem_flatMap.mp hmem
    obtain ⟨v, hv, hmem⟩ := List.mem_filterMap.mp hmem
    obtain ⟨ref', href', heq⟩ := Option.map_eq_some_iff.mp hmem
    cases heq
    refine fileReferenceOf_eq_some (((h table htable e he).2 v hv) ref ?_)
    rw [List.mem_append, Option.mem_toList]
    exact .inl href'
  · obtain ⟨e, he, hmem⟩ := List.mem_flatMap.mp href
    obtain ⟨v, hv, hmem⟩ := List.mem_flatMap.mp hmem
    exact fileReferenceOf_eq_some (((h table htable e he).2 v hv) ref (List.mem_append_right _ hmem))

end Loaded

/-- What the files after the resources add to the archive. -/
theorem foldlM_copyOtherFile {ctx : ConvertContext X} {files : List IFile}
    {archive archive' : List (ArchiveEntry X)}
    (h : files.foldlM (copyOtherFile ctx) archive = .ok archive') :
    ∃ others, archive' = archive ++ others ∧ ∀ e ∈ others, ¬ bytes "res/" <+: e.path
      ∧ ∃ file, e.content = .copied file := by
  induction files generalizing archive with
  | nil =>
      cases h
      exact ⟨[], by simp, by simp⟩
  | cons file files ih =>
      rw [List.foldlM_cons, bind_eq_ok_iff] at h
      obtain ⟨next, hstep, hrest⟩ := h
      obtain ⟨others, hothers, hall⟩ := ih hrest
      rw [copyOtherFile] at hstep
      split_ifs at hstep with hskip
      · cases hstep
        exact ⟨others, hothers, hall⟩
      · cases hcopy : ctx.copyFile file file.path archive with
        | none =>
            rw [hcopy] at hstep
            cases hstep
        | some copied =>
            rw [hcopy] at hstep
            cases hstep
            obtain ⟨data, -, hwrite⟩ := Option.bind_eq_some_iff.mp hcopy
            rw [ConvertContext.write] at hwrite
            split_ifs at hwrite
            cases hwrite
            refine ⟨⟨file.path, file.flags, .copied file⟩ :: others, by rw [hothers]; simp, ?_⟩
            intro e he
            rcases List.mem_cons.mp he with rfl | he
            · exact ⟨fun hres => hskip (.inr (.inr (.inr hres))), file, rfl⟩
            · exact hall e he

/-- The archive after a conversion that returns 0. -/
theorem convert_eq_ok {ctx : ConvertContext X} {apk : LoadedApk α X}
    {table : ResourceTable (Content α)} {archive : List (ArchiveEntry X)}
    (h : convert ctx (protoApkSerializer ctx) apk = .ok archive) (htable : apk.table = some table) :
    ∃ (flags : UInt32) (entries others : List (ArchiveEntry X)),
      archive = ⟨kAndroidManifestPath, flags, .protoXml apk.manifest⟩ :: (entries
        ++ ⟨kProtoResourceTablePath, kCompress, .protoTable
          ((convertedReferences [] (table.fileReferences.map Prod.snd) ++ table.itemReferences).map
            fun ref => (ref.path, ref.type.toPb))⟩ :: others)
      ∧ (∀ e ∈ entries, ∀ refs, e.content ≠ .protoTable refs)
      ∧ entries.map (fun e => (e.path, e.isProtoXml))
        = writtenPaths [] (table.fileReferences.map Prod.snd)
      ∧ ∀ e ∈ others, ¬ bytes "res/" <+: e.path ∧ ∃ file, e.content = .copied file := by
  rw [convert, htable] at h
  dsimp only [protoApkSerializer] at h
  rw [ConvertContext.write] at h
  split at h
  · cases h
  next first hfirst =>
    split_ifs at hfirst
    cases hfirst
    obtain ⟨written, hconvert, hothers⟩ := bind_eq_ok_iff.mp h
    obtain ⟨others, hothers, hall⟩ := foldlM_copyOtherFile hothers
    obtain ⟨⟨⟨seen, next⟩, table'⟩, hloop, hwrite⟩ := bind_eq_ok_iff.mp hconvert
    obtain ⟨hrefs, entries, hnext, hfiles, hentries⟩ :=
      mapAccumM_convertReference (ResourceTable.mapAccumM_fileReferences hloop)
    have hitems := ResourceTable.itemReferences_rewriteFileReferences hloop
    dsimp only at hwrite hrefs hnext
    rw [ConvertContext.write] at hwrite
    split at hwrite
    · cases hwrite
    next last hlast =>
      split_ifs at hlast
      cases hlast
      cases hwrite
      refine ⟨(findFile apk.files kAndroidManifestPath).elim 0 IFile.flags, entries, others, ?_,
        hfiles, hentries, hall⟩
      rw [hothers, hnext, ResourceTable.allReferences, hrefs, hitems]
      simp

/-- **When the references agree with the files.** -/
theorem consistent_iff_convertsAlone {table : ResourceTable (Content α)}
    (htypes : ∀ ref ∈ table.allReferences, ref.type ≠ .kProtoXml) :
    (∀ ref ∈ convertedReferences [] (table.fileReferences.map Prod.snd) ++ table.itemReferences,
      (ref.type = .kProtoXml
        ↔ (ref.path, true) ∈ writtenPaths [] (table.fileReferences.map Prod.snd))
      ∧ ∃ r ∈ table.fileReferences, r.2.path = ref.path) ↔ table.ConvertsAlone := by
  have hvalues : ∀ ref ∈ table.fileReferences.map Prod.snd, ref.type ≠ .kProtoXml :=
    fun ref href => htypes ref (List.mem_append_left _ href)
  have hitems : ∀ ref ∈ table.itemReferences, ref.type ≠ .kProtoXml :=
    fun ref href => htypes ref (List.mem_append_right _ href)
  have hpaths : ∀ ref ∈ table.fileReferences.map Prod.snd,
      ∃ r ∈ table.fileReferences, r.2.path = ref.path := by
    intro ref href
    obtain ⟨r, hr, rfl⟩ := List.mem_map.mp href
    exact ⟨r, hr, rfl⟩
  rw [ResourceTable.ConvertsAlone]
  generalize table.fileReferences.map Prod.snd = refs at hvalues hpaths ⊢
  constructor
  · intro h
    refine ⟨?_, fun q hq => (h q (List.mem_append_right _ hq)).2⟩
    intro pre ref post hrefs htype hpre
    -- the file of the reference is converted
    have hproto : (ref.path, true) ∈ writtenPaths [] refs :=
      mem_writtenPaths_iff.mpr ⟨by simp, pre, ref, post, hrefs, rfl, hpre, by simp [htype]⟩
    constructor
    · intro q hq hpath
      obtain ⟨mid, rest, rfl⟩ := List.append_of_mem hq
      have hmem : q ∈ convertedReferences [] refs := by
        refine mem_convertedReferences_iff.mpr ⟨pre ++ ref :: mid, q, rest, by simp [hrefs], ?_⟩
        rw [if_neg]
        rintro ⟨⟨-, hfirst⟩, -⟩
        exact hfirst ref (by simp) hpath.symm
      refine hvalues q (by simp [hrefs]) ((h q (List.mem_append_left _ hmem)).1.mpr ?_)
      rwa [hpath]
    · intro q hq hpath
      refine hitems q hq ((h q (List.mem_append_right _ hq)).1.mpr ?_)
      rwa [hpath]
  · rintro ⟨halone, hcovered⟩ ref href
    rcases List.mem_append.mp href with href | href
    · obtain ⟨pre, r, post, hrefs, rfl⟩ := mem_convertedReferences_iff.mp href
      have hr : r ∈ refs := by simp [hrefs]
      by_cases hfirst : ∀ q ∈ pre, q.path ≠ r.path
      · by_cases htype : r.type = .kBinaryXml
        · rw [if_pos ⟨⟨by simp, hfirst⟩, htype⟩]
          refine ⟨?_, hpaths r hr⟩
          simp only [true_iff]
          exact mem_writtenPaths_iff.mpr ⟨by simp, pre, r, post, hrefs, rfl, hfirst, by simp [htype]⟩
        · rw [if_neg fun h => htype h.2]
          refine ⟨iff_of_false (hvalues r hr) fun hmem => ?_, hpaths r hr⟩
          -- the first reference to the path is the one that decides
          obtain ⟨-, pre', r', post', hrefs', hpath, hpre', hb⟩ := mem_writtenPaths_iff.mp hmem
          have heq : r' = r := (first_split_unique (P := fun q : FileReference => q.path = r.path)
            (hrefs'.symm.trans hrefs) hpath rfl hpre' hfirst).2.1
          rw [heq] at hb
          exact htype (by simpa using hb.symm)
      · rw [if_neg fun h => hfirst h.1.2]
        refine ⟨iff_of_false (hvalues r hr) fun hmem => ?_, hpaths r hr⟩
        obtain ⟨-, pre', r', post', hrefs', hpath, hpre', hb⟩ := mem_writtenPaths_iff.mp hmem
        have htype : r'.type = .kBinaryXml := by simpa using hb.symm
        obtain ⟨hpost', -⟩ := halone pre' r' post' hrefs' htype (by simpa [hpath] using hpre')
        -- the first reference to the path comes before this one, which is then another one
        push Not at hfirst
        obtain ⟨a, f, b, rfl, hfpath, ha⟩ := exists_first (P := fun q : FileReference => q.path = r.path) hfirst
        rw [List.append_assoc, List.cons_append] at hrefs
        obtain ⟨-, -, rfl⟩ := first_split_unique (P := fun q : FileReference => q.path = r.path)
          (hrefs'.symm.trans hrefs) hpath hfpath hpre' ha
        exact hpost' r (by simp) hpath.symm
    · refine ⟨iff_of_false (hitems ref href) fun hmem => ?_, hcovered ref href⟩
      obtain ⟨-, pre, r, post, hrefs, hpath, hpre, hb⟩ := mem_writtenPaths_iff.mp hmem
      have htype : r.type = .kBinaryXml := by simpa using hb.symm
      exact (halone pre r post hrefs htype (by simpa [hpath] using hpre)).2 ref href hpath.symm

/-- The entries under a path of `res/` are those of the loop over the references. -/
theorem archive_at_res {manifest tableEntry : ArchiveEntry X} {entries others : List (ArchiveEntry X)}
    {written : List (Bytes × Bool)} {p : Bytes} (hp : bytes "res/" <+: p)
    (hmanifest : manifest.path = kAndroidManifestPath)
    (htable : tableEntry.path = kProtoResourceTablePath)
    (hentries : entries.map (fun e => (e.path, e.isProtoXml)) = written)
    (hothers : ∀ e ∈ others, ¬ bytes "res/" <+: e.path) :
    ((∃ e ∈ manifest :: (entries ++ tableEntry :: others), e.path = p ∧ e.isProtoXml)
        ↔ (p, true) ∈ written)
      ∧ (manifest :: (entries ++ tableEntry :: others)).countP (fun e => e.path = p)
        = (written.map Prod.fst).count p := by
  have hm : manifest.path ≠ p := by
    rintro rfl
    rw [hmanifest] at hp
    revert hp
    decide
  have ht : tableEntry.path ≠ p := by
    rintro rfl
    rw [htable] at hp
    revert hp
    decide
  have ho : ∀ e ∈ others, e.path ≠ p := fun e he heq => hothers e he (heq ▸ hp)
  constructor
  · rw [← hentries, List.mem_map]
    constructor
    · rintro ⟨e, he, hpath, hproto⟩
      refine ⟨e, ?_, by rw [hpath, hproto]⟩
      simp only [List.mem_cons, List.mem_append] at he
      rcases he with rfl | he | rfl | he
      · exact absurd hpath hm
      · exact he
      · exact absurd hpath ht
      · exact absurd hpath (ho e he)
    · rintro ⟨e, he, heq⟩
      obtain ⟨hpath, hproto⟩ := Prod.mk.inj heq
      exact ⟨e, by simp [he], hpath, hproto⟩
  · have hzero : others.countP (fun e => decide (e.path = p)) = 0 :=
      List.countP_eq_zero.mpr (by simpa using ho)
    rw [List.countP_cons, List.countP_append, List.countP_cons, hzero, ← hentries, List.map_map,
      List.count, List.countP_map]
    simp only [hm, ht, decide_false, Bool.false_eq_true, if_false, Nat.add_zero]
    apply List.countP_congr
    intro e _
    simp

/-- The references of an APK with a table agree with the files exactly if each is converted
alone. -/
theorem consistentFiles_iff_convertsAlone {ctx : ConvertContext X} {apk : LoadedApk α X}
    {archive : List (ArchiveEntry X)} (hload : apk.IsBinary)
    (h : convert ctx (protoApkSerializer ctx) apk = .ok archive)
    {table : ResourceTable (Content α)} (htable : apk.table = some table) :
    ConsistentFiles archive ↔ table.ConvertsAlone := by
  obtain ⟨flags, entries, others, rfl, hfiles, hentries, hothers⟩ := convert_eq_ok h htable
  rw [← consistent_iff_convertsAlone fun ref href => (hload.reference htable href).2]
  -- the paths of the references are in `res/`
  have hres : ∀ ref ∈ convertedReferences [] (table.fileReferences.map Prod.snd)
      ++ table.itemReferences, bytes "res/" <+: ref.path := by
    intro ref href
    rcases List.mem_append.mp href with href | href
    · obtain ⟨pre, r, post, hrefs, rfl⟩ := mem_convertedReferences_iff.mp href
      have hr : r ∈ table.allReferences :=
        List.mem_append_left _ (by rw [hrefs]; simp)
      have hpath := (hload.reference htable hr).1
      split_ifs <;> exact hpath
    · exact (hload.reference htable (List.mem_append_right _ href)).1
  let manifest : ArchiveEntry X := ⟨kAndroidManifestPath, flags, .protoXml apk.manifest⟩
  let tableEntry : ArchiveEntry X := ⟨kProtoResourceTablePath, kCompress, .protoTable
    ((convertedReferences [] (table.fileReferences.map Prod.snd) ++ table.itemReferences).map
      fun ref => (ref.path, ref.type.toPb))⟩
  have hmanifest : manifest.path = kAndroidManifestPath := rfl
  have htableEntry : tableEntry.path = kProtoResourceTablePath := rfl
  have hat := fun p (hp : bytes "res/" <+: p) =>
    archive_at_res hp hmanifest htableEntry hentries fun e he => (hothers e he).1
  have hcount : ∀ p, ((writtenPaths [] (table.fileReferences.map Prod.snd)).map Prod.fst).count p = 1
      ↔ ∃ r ∈ table.fileReferences, r.2.path = p := by
    intro p
    rw [count_writtenPaths]
    constructor
    · rintro ⟨ref, href, hpath⟩
      obtain ⟨r, hr, rfl⟩ := List.mem_map.mp href
      exact ⟨r, hr, hpath⟩
    · rintro ⟨r, hr, hpath⟩
      exact ⟨r.2, List.mem_map_of_mem hr, hpath⟩
  constructor
  · intro hconsistent ref href
    obtain ⟨htype, honce⟩ := hconsistent _ (List.mem_cons_of_mem _ (List.mem_append_right _
      List.mem_cons_self)) _ rfl _ (List.mem_map_of_mem href)
    rw [(hat ref.path (hres ref href)).1] at htype
    rw [(hat ref.path (hres ref href)).2, hcount] at honce
    refine ⟨?_, honce⟩
    rw [← htype]
    cases ref.type <;> simp [ResourceFileType.toPb]
  · intro hrefs entry hentry pbRefs hcontent pbRef hpbRef
    -- the only table of the archive is the one that was written
    have hpb : pbRefs = (convertedReferences [] (table.fileReferences.map Prod.snd)
        ++ table.itemReferences).map fun ref => (ref.path, ref.type.toPb) := by
      simp only [List.mem_cons, List.mem_append] at hentry
      rcases hentry with rfl | hentry | rfl | hentry
      · cases hcontent
      · exact absurd hcontent (hfiles entry hentry pbRefs)
      · cases hcontent
        rfl
      · obtain ⟨file, hfile⟩ := (hothers entry hentry).2
        rw [hfile] at hcontent
        cases hcontent
    rw [hpb] at hpbRef
    obtain ⟨ref, href, rfl⟩ := List.mem_map.mp hpbRef
    obtain ⟨htype, honce⟩ := hrefs ref href
    refine ⟨?_, ?_⟩
    · rw [(hat ref.path (hres ref href)).1, ← htype]
      cases ref.type <;> simp [ResourceFileType.toPb]
    · rw [(hat ref.path (hres ref href)).2, hcount]
      exact honce

/-- Without a table no table is written. -/
theorem consistentFiles_of_no_table {ctx : ConvertContext X} {apk : LoadedApk α X}
    {archive : List (ArchiveEntry X)} (h : convert ctx (protoApkSerializer ctx) apk = .ok archive)
    (htable : apk.table = none) : ConsistentFiles archive := by
  rw [convert, htable] at h
  dsimp only [protoApkSerializer] at h
  rw [ConvertContext.write] at h
  split at h
  · cases h
  next first hfirst =>
    split_ifs at hfirst
    cases hfirst
    obtain ⟨written, hpure, hothers⟩ := bind_eq_ok_iff.mp h
    cases hpure
    obtain ⟨others, rfl, hall⟩ := foldlM_copyOtherFile hothers
    intro entry hentry refs hcontent
    rcases List.mem_append.mp hentry with hentry | hentry
    · rw [List.mem_singleton.mp hentry] at hcontent
      cases hcontent
    · obtain ⟨file, hfile⟩ := (hall entry hentry).2
      rw [hfile] at hcontent
      cases hcontent

/-- **The written table and the files agree exactly if no reference shares a converted file**: after
a conversion to the proto format the references of type `PROTO_XML` are those to proto XML, and each
referenced path was written once, iff the file of a first reference to binary XML has no other
reference and every item refers to a file that a value refers to. -/
theorem consistentFiles_iff {ctx : ConvertContext X} {apk : LoadedApk α X}
    {archive : List (ArchiveEntry X)} (hload : apk.IsBinary)
    (h : convert ctx (protoApkSerializer ctx) apk = .ok archive) :
    ConsistentFiles archive ↔ ∀ table, apk.table = some table → table.ConvertsAlone := by
  cases htable : apk.table with
  | none =>
      refine iff_of_true (consistentFiles_of_no_table h htable) ?_
      intro table heq
      cases heq
  | some table =>
      rw [consistentFiles_iff_convertsAlone hload h htable]
      constructor
      · rintro halone _ ⟨rfl⟩
        exact halone
      · intro hall
        exact hall table rfl

/-- The file of a layout. -/
def sampleFile : IFile := ⟨bytes "res/a.xml", false, some []⟩

/-- A value that refers to the layout. -/
def sampleFileValue (config : ResTableConfig) : ResourceConfigValue (Content Unit) :=
  ⟨config, [], some ⟨.fileReference, .file ⟨bytes "res/a.xml", .kBinaryXml, some sampleFile⟩, false,
    true, none, .noFlag⟩, false⟩

/-- An APK with one layout, to which the given configurations refer. -/
def sampleApk (configs : List ResTableConfig) : LoadedApk Unit Unit where
  files := [sampleFile]
  table := some ⟨[⟨[97], [⟨⟨[98], .kLayout⟩, .kUndefined,
    [{ ResourceEntry.new [99] with values := configs.map sampleFileValue }]⟩]⟩]⟩
  manifest := ()

/-- A context in which every file inflates and every entry is written. -/
def sampleContext : ConvertContext Unit := ⟨fun _ => some (), fun _ _ => true⟩

/-- The sample is one that is loaded from a binary APK. -/
theorem isBinary_sampleApk (configs : List ResTableConfig) : (sampleApk configs).IsBinary := by
  intro table htable e he
  cases htable
  obtain rfl : e = (⟨[97], ⟨[98], .kLayout⟩, [99]⟩,
      { ResourceEntry.new [99] with values := configs.map sampleFileValue }) := by
    simpa [ResourceTable.namedEntries, ResourceTablePackage.namedEntries,
      ResourceTableType.namedEntries, ResourceEntry.new] using he
  refine ⟨rfl, ?_⟩
  intro v hv ref href
  obtain ⟨config, -, rfl⟩ := List.mem_map.mp hv
  obtain rfl : ref = ⟨bytes "res/a.xml", .kBinaryXml, some sampleFile⟩ := by
    simpa [ResourceConfigValue.fileReference, ResourceConfigValue.itemReferences, sampleFileValue]
      using href
  show fileReferenceOf [sampleFile] .kLayout (bytes "res/a.xml") = _
  decide

/-- What is written for the sample. -/
def sampleArchive (types : List PbFileType) : List (ArchiveEntry Unit) :=
  [⟨kAndroidManifestPath, 0, .protoXml ()⟩, ⟨bytes "res/a.xml", 0, .protoXml ()⟩,
    ⟨kProtoResourceTablePath, kCompress, .protoTable (types.map fun t => (bytes "res/a.xml", t))⟩]

theorem consistentFiles_sample :
    convert sampleContext (protoApkSerializer sampleContext)
        (sampleApk [ResTableConfig.defaultConfig]) = .ok (sampleArchive [.PROTO_XML])
      ∧ ConsistentFiles (sampleArchive [.PROTO_XML]) := by
  have hrun : convert sampleContext (protoApkSerializer sampleContext)
      (sampleApk [ResTableConfig.defaultConfig]) = .ok (sampleArchive [.PROTO_XML]) := by rfl
  refine ⟨hrun, (consistentFiles_iff (isBinary_sampleApk _) hrun).mpr ?_⟩
  rintro _ ⟨rfl⟩
  refine ⟨?_, by decide⟩
  intro pre ref post hrefs htype hpre
  have hlen := congrArg List.length hrefs
  have hpost : post = [] := by
    simp [ResourceTable.fileReferences, ResourceTable.namedEntries,
      ResourceTablePackage.namedEntries, ResourceTableType.namedEntries,
      ResourceEntry.fileReferences, ResourceConfigValue.fileReference, sampleFileValue] at hlen
    exact List.length_eq_zero_iff.mp (by omega)
  refine ⟨by simp [hpost], fun q hq => ?_⟩
  cases hq

/-- Two configurations that share a layout: the second reference keeps its type. -/
theorem not_consistentFiles_shared :
    (sampleApk [ResTableConfig.defaultConfig,
        { ResTableConfig.defaultConfig with density := 160 }]).IsBinary
      ∧ convert sampleContext (protoApkSerializer sampleContext)
        (sampleApk [ResTableConfig.defaultConfig,
          { ResTableConfig.defaultConfig with density := 160 }])
        = .ok (sampleArchive [.PROTO_XML, .BINARY_XML])
      ∧ ¬ ConsistentFiles (sampleArchive [.PROTO_XML, .BINARY_XML]) := by
  refine ⟨isBinary_sampleApk _, rfl, ?_⟩
  intro h
  have hlast := (h _ (List.mem_cons_of_mem _ (List.mem_cons_of_mem _ List.mem_cons_self)) _ rfl
    (bytes "res/a.xml", .BINARY_XML) (by decide)).1
  have hproto : ∃ e ∈ sampleArchive [.PROTO_XML, .BINARY_XML],
      e.path = bytes "res/a.xml" ∧ e.isProtoXml :=
    ⟨⟨bytes "res/a.xml", 0, .protoXml ()⟩, by decide, rfl, rfl⟩
  exact absurd (hlast.mpr hproto) (by decide)

end AndroidSdk.Aapt2
