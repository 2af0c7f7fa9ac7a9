import AndroidSdk.FileTree.ElfValidation
import AndroidSdk.FileTree.Tree

/-! # Comparing the SDK with the reference layout

`compare-reference-layout.py` compares an assembled AArch64 SDK with the reference SDK for x86-64
hosts. The reference paths and link targets are normalised first; then eight lists of problems are
computed over the two inventories, and the comparison succeeds if all of them are empty.

* **`normalizeReferenceName`**, **`normalizeReferenceLink`** — the renaming of host directories.
* **`contentDifferenceIsExpected`** — the rule for each listed position.
* **`problems`**, **`main`** — the verdict. -/

namespace AndroidSdk.FileTree.ReferenceLayout

open Lib

/-! ## Tables -/

/-- The relative paths or names of a table of the script. -/
def paths (table : List String) : List Bytes := table.map encodeUtf8

/-- `SDK_COMPATIBILITY_LINKS`: link paths with their targets. -/
def sdkCompatibilityLinks : List (Bytes × Bytes) :=
  [(encodeUtf8 "ndk/30.0.16248370/toolchains/llvm/prebuilt/linux-x86_64",
    encodeUtf8 "linux-aarch64")]

/-- `HOST_ELF_CONTENT_DIFFERENCES`. -/
def hostElfContentDifferences : List Bytes := paths
  ["build-tools/36.0.0/aapt",
   "build-tools/36.0.0/aapt2",
   "build-tools/36.0.0/aidl",
   "build-tools/36.0.0/dexdump",
   "build-tools/36.0.0/split-select",
   "build-tools/36.0.0/zipalign",
   "build-tools/36.0.0/lib64/libc++.so",
   "build-tools/36.0.0/lib64/libc++.so.1",
   "cmake/3.22.1/bin/cmake",
   "cmake/3.22.1/bin/cpack",
   "cmake/3.22.1/bin/ctest",
   "cmake/3.22.1/bin/ninja",
   "cmake/4.1.2/bin/cmake",
   "cmake/4.1.2/bin/cpack",
   "cmake/4.1.2/bin/ctest",
   "cmake/4.1.2/bin/ninja",
   "platform-tools/adb",
   "platform-tools/etc1tool",
   "platform-tools/fastboot",
   "platform-tools/hprof-conv",
   "platform-tools/make_f2fs",
   "platform-tools/make_f2fs_casefold",
   "platform-tools/mke2fs",
   "platform-tools/sqlite3",
   "platform-tools/lib64/libc++.so"]

/-- `HOST_SCRIPT_CONTENT_DIFFERENCES`. -/
def hostScriptContentDifferences : List Bytes := paths
  ["build-tools/36.0.0/bcc_compat",
   "build-tools/36.0.0/llvm-rs-cc",
   "build-tools/36.0.0/lld-bin/lld",
   "cmdline-tools/latest/bin/android"]

/-- `HOST_SCRIPT_TEMPLATES`: the template of each host script. -/
def hostScriptTemplates : List (Bytes × Bytes) :=
  [(encodeUtf8 "build-tools/36.0.0/bcc_compat", encodeUtf8 "renderscript-unsupported"),
   (encodeUtf8 "build-tools/36.0.0/llvm-rs-cc", encodeUtf8 "renderscript-unsupported"),
   (encodeUtf8 "build-tools/36.0.0/lld-bin/lld", encodeUtf8 "build-tools-lld"),
   (encodeUtf8 "cmdline-tools/latest/bin/android", encodeUtf8 "android-offline")]

/-- The values of a package for the placeholders of the generic template. -/
structure PackageFields where
  packagePath : String
  major : String
  minor : String
  micro : String
  display : String

/-- `GENERIC_METADATA_FIELDS`. -/
def genericMetadataFields : List (Bytes × PackageFields) :=
  [(encodeUtf8 "build-tools/36.0.0/package.xml",
    ⟨"build-tools;36.0.0", "36", "0", "0", "Android SDK Build-Tools 36 Linux AArch64"⟩),
   (encodeUtf8 "cmake/3.22.1/package.xml",
    ⟨"cmake;3.22.1", "3", "22", "1", "CMake 3.22.1 Linux AArch64"⟩),
   (encodeUtf8 "cmake/4.1.2/package.xml",
    ⟨"cmake;4.1.2", "4", "1", "2", "CMake 4.1.2 Linux AArch64"⟩),
   (encodeUtf8 "ndk/30.0.16248370/package.xml",
    ⟨"ndk;30.0.16248370", "30", "0", "16248370",
      "NDK (Side by side) 30.0.16248370 Linux AArch64"⟩)]

/-- `DIRECT_METADATA_TEMPLATES`. -/
def directMetadataTemplates : List (Bytes × Bytes) :=
  [(encodeUtf8 "platforms/android-36/package.xml", encodeUtf8 "package-platform.xml.in")]

/-- `RELEASE_METADATA`: the member of the platform-tools Release for each path. -/
def releaseMetadata : List (Bytes × Bytes) :=
  [(encodeUtf8 "platform-tools/package.xml", encodeUtf8 "platform-tools/package.xml")]

/-- `GENERATED_METADATA`. -/
def generatedMetadata : List Bytes :=
  genericMetadataFields.map Prod.fst ++ directMetadataTemplates.map Prod.fst
    ++ releaseMetadata.map Prod.fst

/-- `INTENTIONAL_MISSING`. -/
def intentionalMissing : List Bytes := paths
  [".knownPackages",
   "build-tools/36.0.0/lib64/libLLVM_android.so",
   "build-tools/36.0.0/lib64/libbcc.so",
   "build-tools/36.0.0/lib64/libbcinfo.so",
   "build-tools/36.0.0/lib64/libclang_android.so"]

/-- `NDK_HOST_PREFIXES`: host directories of the NDK with their names in the candidate. -/
def ndkHostPrefixes : List (Bytes × Bytes) :=
  [(encodeUtf8 "toolchains/llvm/prebuilt/linux-x86_64",
    encodeUtf8 "toolchains/llvm/prebuilt/linux-aarch64"),
   (encodeUtf8 "prebuilt/linux-x86_64", encodeUtf8 "prebuilt/linux-aarch64"),
   (encodeUtf8 "shader-tools/linux-x86_64", encodeUtf8 "shader-tools/linux-aarch64"),
   (encodeUtf8 "simpleperf/bin/linux/x86_64", encodeUtf8 "simpleperf/bin/linux/aarch64")]

/-- `NDK_HOST_GENERATED_CONTENT_FILES`. -/
def ndkHostGeneratedContentFiles : List Bytes := paths
  ["ndk/30.0.16248370/prebuilt/linux-aarch64/lib/libyasm.a",
   "ndk/30.0.16248370/toolchains/llvm/prebuilt/linux-aarch64/lib/libbolt_rt_instr.a",
   "ndk/30.0.16248370/toolchains/llvm/prebuilt/linux-aarch64/" ++
     "lib/aarch64-unknown-linux-gnu/libc++.a",
   "ndk/30.0.16248370/toolchains/llvm/prebuilt/linux-aarch64/" ++
     "lib/aarch64-unknown-linux-gnu/libc++abi.a",
   "ndk/30.0.16248370/toolchains/llvm/prebuilt/linux-aarch64/" ++
     "lib/aarch64-unknown-linux-gnu/libc++experimental.a",
   "ndk/30.0.16248370/toolchains/llvm/prebuilt/linux-aarch64/" ++
     "lib/aarch64-unknown-linux-gnu/libunwind.a",
   "ndk/30.0.16248370/toolchains/llvm/prebuilt/linux-aarch64/" ++
     "lib/aarch64-unknown-linux-gnu/libsimpleperf_readelf.a"]

/-- `NDK_PYTHON_CONFIG_FILES`. -/
def ndkPythonConfigFiles : List Bytes := paths
  ["ndk/30.0.16248370/toolchains/llvm/prebuilt/linux-aarch64/" ++
     "python3/include/python3.11/pyconfig.h",
   "ndk/30.0.16248370/toolchains/llvm/prebuilt/linux-aarch64/" ++
     "python3/lib/pkgconfig/python-3.11-embed.pc",
   "ndk/30.0.16248370/toolchains/llvm/prebuilt/linux-aarch64/" ++
     "python3/lib/pkgconfig/python-3.11.pc",
   "ndk/30.0.16248370/toolchains/llvm/prebuilt/linux-aarch64/" ++
     "python3/lib/python3.11/_sysconfigdata__linux_aarch64-linux-gnu.py"]

/-- `NDK_HOST_ELF_CONTENT_PREFIXES`. -/
def ndkHostElfContentPrefixes : List Bytes := paths
  ["ndk/30.0.16248370/prebuilt/linux-aarch64/bin",
   "ndk/30.0.16248370/shader-tools/linux-aarch64",
   "ndk/30.0.16248370/simpleperf/bin/linux/aarch64",
   "ndk/30.0.16248370/toolchains/llvm/prebuilt/linux-aarch64/bin",
   "ndk/30.0.16248370/toolchains/llvm/prebuilt/linux-aarch64/python3",
   "ndk/30.0.16248370/toolchains/llvm/prebuilt/linux-aarch64/lib/python3.11"]

/-- `NDK_HOST_ELF_CONTENT_DIRECTORIES`. -/
def ndkHostElfContentDirectories : List Bytes := paths
  ["ndk/30.0.16248370/toolchains/llvm/prebuilt/linux-aarch64/lib/aarch64-unknown-linux-gnu",
   "ndk/30.0.16248370/toolchains/llvm/prebuilt/linux-aarch64/lib",
   "ndk/30.0.16248370/toolchains/llvm/prebuilt/linux-aarch64/musl/lib"]

/-- `NDK_HOST_SCRIPT_DIFFERENCES`. -/
def ndkHostScriptDifferences : List Bytes := paths
  ["ndk/30.0.16248370/build/cmake/android-legacy.toolchain.cmake",
   "ndk/30.0.16248370/build/cmake/android.toolchain.cmake",
   "ndk/30.0.16248370/build/ndk-build",
   "ndk/30.0.16248370/build/tools/make_standalone_toolchain.py",
   "ndk/30.0.16248370/build/tools/ndk_bin_common.sh",
   "ndk/30.0.16248370/ndk-gdb",
   "ndk/30.0.16248370/ndk-lldb",
   "ndk/30.0.16248370/ndk-stack",
   "ndk/30.0.16248370/ndk-which",
   "ndk/30.0.16248370/simpleperf/simpleperf_utils.py",
   "ndk/30.0.16248370/prebuilt/linux-aarch64/bin/ndkgdb.pyz",
   "ndk/30.0.16248370/prebuilt/linux-aarch64/bin/ndk-which",
   "ndk/30.0.16248370/build/cmake/hooks/post/Android-Determine.cmake"]

/-- `NDK_ROOT_PREFIX`. -/
def ndkRoot : Bytes := encodeUtf8 "ndk/30.0.16248370/"

/-! ## Names -/

/-- The first loop of `map_ndk_host_name`: the first host directory that is the path or holds it is
renamed. -/
def renameHost : List (Bytes × Bytes) → Bytes → Bytes
  | [], value => value
  | (source, target) :: table, value =>
      if value = source ∨ source ++ [47] <+: value then target ++ value.drop source.length
      else renameHost table value

/-- `map_ndk_host_name` on a path below an NDK version. -/
def mapNdkHostName (value : Bytes) : Bytes :=
  let value := renameHost ndkHostPrefixes value
  if encodeUtf8 "toolchains/llvm/prebuilt/linux-aarch64/" <+: value then
    let value :=
      if encodeUtf8 "/lib/x86_64-unknown-linux-gnu" <:+ value then
        value.take (value.length - (encodeUtf8 "x86_64-unknown-linux-gnu").length)
          ++ encodeUtf8 "aarch64-unknown-linux-gnu"
      else value
    let value := replaceAll (encodeUtf8 "/lib/x86_64-unknown-linux-gnu/")
      (encodeUtf8 "/lib/aarch64-unknown-linux-gnu/") value
    if encodeUtf8 "/python3/" <:+: value ∨ encodeUtf8 "/lib/python3.11/" <:+: value then
      replaceAll (encodeUtf8 "x86_64-linux-gnu") (encodeUtf8 "aarch64-linux-gnu") value
    else value
  else value

/-- `normalize_reference_name`. -/
def normalizeReferenceName (relative : Bytes) : Bytes :=
  match splitAtMost 47 2 relative with
  | [first, version, rest] =>
      if first = encodeUtf8 "ndk" then first ++ 47 :: version ++ 47 :: mapNdkHostName rest
      else relative
  | _ => relative

/-- `normalize_reference_link`. -/
def normalizeReferenceLink (value : Bytes) : Bytes :=
  replaceAll (encodeUtf8 "x86_64-linux-gnu") (encodeUtf8 "aarch64-linux-gnu")
    (replaceAll (encodeUtf8 "x86_64-unknown-linux-gnu") (encodeUtf8 "aarch64-unknown-linux-gnu")
      (replaceAll (encodeUtf8 "linux-x86_64") (encodeUtf8 "linux-aarch64") value))

/-- `is_rebuilt_ndk_host_elf_path`. -/
def isRebuiltNdkHostElfPath (relative : Bytes) : Bool :=
  ndkHostElfContentPrefixes.any (fun above => above ++ [47] <+: relative)
    || match beforeLast 47 relative with
      | some parent => parent ∈ ndkHostElfContentDirectories
      | none => false

/-! ## File contents -/

/-- The exceptions that the script distinguishes; `other` are those it nowhere handles. -/
inductive PyException where
  | osError | badZipFile | unicodeError | valueError | other
  deriving DecidableEq

/-- `try: ... except handled: return default`. -/
def tryExcept {α : Type} (handled : List PyException) (default : α) (body : Except PyException α) :
    Except PyException α :=
  match body with
  | .error e => if e ∈ handled then .ok default else .error e
  | .ok a => .ok a

/-- The size of the chunks in which files are read. -/
def chunkSize : ℕ := 1024 * 1024

/-- The loop of `files_equal`. -/
def chunksEqual (left right : Bytes) : Bool :=
  if left.take chunkSize ≠ right.take chunkSize then false
  else if left.take chunkSize = [] then true
  else chunksEqual (left.drop chunkSize) (right.drop chunkSize)
termination_by left.length
decreasing_by
  rename_i hne
  have hpos : 0 < left.length := List.length_pos_iff.mpr fun h => hne (by simp [h])
  rw [List.length_drop]
  have : 0 < chunkSize := by decide
  omega

/-- `files_equal` on the contents of two files. -/
def filesEqual (left right : Bytes) : Bool :=
  if left.length ≠ right.length then false else chunksEqual left right

/-- A member of a zip archive: its name, and its content or the exception that reading it raises. -/
structure Member where
  filename : Bytes
  content : Except PyException Bytes

/-- `ZipInfo.is_dir`. -/
def Member.isDir (info : Member) : Bool := info.filename.getLast? = some 47

/-- What the script finds outside the two trees: the checked-in templates and the two Release
archives in the cache, or the exceptions that opening them raises. -/
structure Project where
  template : Bytes → Except PyException Bytes
  platformToolsReleaseArchive : Except PyException (List Member)
  ndkReleaseArchive : Except PyException (List Member)

section

variable (sha256 : Bytes → Bytes)

/-- `archive_member_matches` on the content of the candidate. -/
def archiveMemberMatches (archive : Except PyException (List Member)) (member candidate : Bytes) :
    Except PyException Bool :=
  tryExcept [.osError, .badZipFile] false do
    let infolist ← archive
    match infolist.filter fun info => info.filename = member with
    | [info] =>
        if info.isDir then return false
        else
          let content ← info.content
          return sha256 candidate = sha256 content
    | _ => return false

/-- `Path.read_text(encoding="utf-8")` on the content of a file. -/
def readText (content : Bytes) : Except PyException (List Char) :=
  match decodeUtf8 content with
  | some chars => .ok (universalNewlines chars)
  | none => .error .unicodeError

/-- The placeholders of the generic package template with the values of a package. -/
def placeholders (fields : PackageFields) : List (String × String) :=
  [("@PATH@", fields.packagePath), ("@MAJOR@", fields.major), ("@MINOR@", fields.minor),
   ("@MICRO@", fields.micro), ("@DISPLAY@", fields.display)]

/-- The template text with the placeholders replaced one after the other. -/
def fillPlaceholders (fields : PackageFields) (content : List Char) : List Char :=
  (placeholders fields).foldl (fun content p => replaceAll p.1.toList p.2.toList content) content

/-- `generated_metadata_matches` on the content of the candidate. -/
def generatedMetadataMatches (project : Project) (relative candidate : Bytes) :
    Except PyException Bool :=
  tryExcept [.osError, .unicodeError] false do
    match genericMetadataFields.lookup relative with
    | some fields =>
        let content ← readText (← project.template (encodeUtf8 "package-generic.xml.in"))
        return (← readText candidate) = fillPlaceholders fields content
    | none =>
        match directMetadataTemplates.lookup relative with
        | some template => return filesEqual (← project.template template) candidate
        | none =>
            match releaseMetadata.lookup relative with
            | some member =>
                archiveMemberMatches sha256 project.platformToolsReleaseArchive member candidate
            | none => return false

/-- The member of the NDK Release archive for a path of the candidate. -/
def ndkMember (relative : Bytes) : Bytes :=
  encodeUtf8 "android-ndk-r30/"
    ++ if ndkRoot <+: relative then relative.drop ndkRoot.length else relative

/-- `ndk_release_file_matches` on the content of the candidate. -/
def ndkReleaseFileMatches (project : Project) (relative candidate : Bytes) :
    Except PyException Bool :=
  archiveMemberMatches sha256 project.ndkReleaseArchive (ndkMember relative) candidate

/-- `is_ndk_generated_text_path`. -/
def isNdkGeneratedTextPath (relative : Bytes) : Bool := relative ∈ ndkPythonConfigFiles

/-- `content_difference_is_expected` on the contents of the reference and candidate files. A host
script whose template cannot be read raises, as does one without template. -/
def contentDifferenceIsExpected (project : Project) (relative reference candidate : Bytes) :
    Except PyException Bool :=
  if relative ∈ hostElfContentDifferences then
    return isValidElfMachine reference 62 && isValidElfMachine candidate 183
  else if relative ∈ hostScriptContentDifferences then do
    match hostScriptTemplates.lookup relative with
    | some template => return filesEqual (← project.template template) candidate
    | none => throw .other
  else if relative ∈ ndkHostScriptDifferences then
    ndkReleaseFileMatches sha256 project relative candidate
  else if relative ∈ generatedMetadata then
    generatedMetadataMatches sha256 project relative candidate
  else if isNdkGeneratedTextPath relative then
    ndkReleaseFileMatches sha256 project relative candidate
  else if relative ∈ ndkHostGeneratedContentFiles then
    ndkReleaseFileMatches sha256 project relative candidate
  else
    return isRebuiltNdkHostElfPath relative && isValidElfMachine reference 62
      && isValidElfMachine candidate 183

end

/-! ## Inventories -/

/-- `Entry.kind`. -/
inductive Kind where
  | link | dir | file | other
  deriving DecidableEq

/-- `Entry`, with the entry of the tree in the place of the path to it. -/
structure Entry where
  kind : Kind
  source : Path × Node
  mode : ℕ
  link : Option Bytes

/-- The content that opening the source of an entry gives; only used for regular files. -/
def Entry.content (entry : Entry) : Bytes :=
  match entry.source.2 with
  | .regular _ content => content
  | _ => []

/-- The permission bits of an entry, `S_IMODE(lstat(path).st_mode)`. -/
def modeOf : Node → ℕ
  | .symlink mode _ | .directory mode _ | .regular mode _ | .other mode => mode

/-- The kind of an entry, as `is_symlink`, `is_dir` and `is_file` tell it. -/
def kindOf : Node → Kind
  | .symlink _ _ => .link
  | .directory _ _ => .dir
  | .regular _ _ => .file
  | .other _ => .other

/-- The target of a link, normalised for the reference. -/
def linkOf (normalizeReference : Bool) : Node → Option Bytes
  | .symlink _ target => some (if normalizeReference then normalizeReferenceLink target else target)
  | _ => none

/-- The key of a path in an inventory, normalised for the reference. -/
def relativeOf (normalizeReference : Bool) (path : Path) : Bytes :=
  if normalizeReference then normalizeReferenceName (asPosix path) else asPosix path

/-- The key and the entry that the loop of `inventory` computes. -/
def entryOf (normalizeReference : Bool) (e : Path × Node) : Bytes × Entry :=
  (relativeOf normalizeReference e.1,
    { kind := kindOf e.2, source := e, mode := modeOf e.2, link := linkOf normalizeReference e.2 })

/-- The dictionaries of the script. -/
abbrev Inventory := Dict Bytes Entry

/-- `inventory`: a second entry under one key raises `ValueError`. -/
def inventory (tree : Tree) (normalizeReference : Bool) : Except PyException Inventory :=
  ((walk asScanned tree.children).map (entryOf normalizeReference)).foldlM
    (Dict.insertNew fun _ => .valueError) ∅

/-! ## The verdict -/

/-- `sorted` on paths. -/
def sorted (l : List Bytes) : List Bytes :=
  l.insertionSort fun a b => a.map UInt8.toNat ≤ b.map UInt8.toNat

/-- `mode & ~stat.S_IWGRP`. -/
def withoutGroupWrite (mode : ℕ) : ℕ := mode ^^^ (mode &&& 0o020)

/-- The keys of both inventories with their entries. -/
def common (reference candidate : Inventory) : List (Bytes × Entry × Entry) :=
  (sorted (reference.keys.filter (· ∈ candidate.keys))).filterMap fun relative => do
    return (relative, ← reference.lookup relative, ← candidate.lookup relative)

/-- The keys whose two entries satisfy a test. -/
def commonWhere (test : Entry → Entry → Bool) (reference candidate : Inventory) : List Bytes :=
  ((common reference candidate).filter fun c => test c.2.1 c.2.2).map Prod.fst

/-- The entries of `SDK_COMPATIBILITY_LINKS` that the candidate lacks. -/
def compatibilityLinkMismatches (followsToDir : Path → Bool) (candidate : Inventory) : List Bytes :=
  (sdkCompatibilityLinks.filter fun (relative, target) =>
    match candidate.lookup relative with
    | none => true
    | some entry =>
        entry.kind ≠ .link || entry.link ≠ some target || !followsToDir entry.source.1).map Prod.fst

/-- `requires_explicit_content`. -/
def requiresExplicitContent (relative : Bytes) : Bool :=
  relative ∈ hostScriptContentDifferences || relative ∈ ndkHostScriptDifferences
    || relative ∈ ndkHostGeneratedContentFiles || relative ∈ generatedMetadata
    || isNdkGeneratedTextPath relative

/-- The lists that decide the verdict. -/
structure Problems where
  unexpectedMissing : List Bytes
  expectedMissingNotObserved : List Bytes
  unexpectedExtra : List Bytes
  compatibilityLinkMismatch : List Bytes
  typeMismatch : List Bytes
  linkMismatch : List Bytes
  modeMismatch : List Bytes
  contentMismatch : List Bytes

/-- No list of problems has an entry. -/
def Problems.isEmpty (p : Problems) : Bool :=
  p.unexpectedMissing.isEmpty && p.expectedMissingNotObserved.isEmpty && p.unexpectedExtra.isEmpty
    && p.compatibilityLinkMismatch.isEmpty && p.typeMismatch.isEmpty && p.linkMismatch.isEmpty
    && p.modeMismatch.isEmpty && p.contentMismatch.isEmpty

section

variable (sha256 : Bytes → Bytes) (project : Project)

/-- Whether the loop over the common entries appends a path to `content_mismatches`. -/
def isContentMismatch (c : Bytes × Entry × Entry) : Except PyException Bool :=
  let (relative, reference, candidate) := c
  if reference.kind ≠ candidate.kind || reference.kind ≠ .file then return false
  else do
    let left := reference.content
    let right := candidate.content
    if requiresExplicitContent relative then
      return !(← contentDifferenceIsExpected sha256 project relative left right)
    else if filesEqual left right then return false
    else return !(← contentDifferenceIsExpected sha256 project relative left right)

/-- The loop that fills `content_mismatches`. -/
def contentMismatches : List (Bytes × Entry × Entry) → Except PyException (List Bytes)
  | [] => return []
  | c :: rest => do
      let mismatch ← isContentMismatch sha256 project c
      let others ← contentMismatches rest
      return if mismatch then c.1 :: others else others

/-- The lists of problems of two inventories. -/
def problems (followsToDir : Path → Bool) (reference candidate : Inventory) :
    Except PyException Problems := do
  let missing := sorted (reference.keys.filter (· ∉ candidate.keys))
  let extra := sorted (candidate.keys.filter (· ∉ reference.keys))
  let expectedMissing := sorted (intentionalMissing.filter (· ∈ reference.keys))
  let contentMismatch ← contentMismatches sha256 project (common reference candidate)
  return {
    unexpectedMissing := sorted (missing.filter (· ∉ expectedMissing))
    expectedMissingNotObserved := sorted (expectedMissing.filter (· ∉ missing))
    unexpectedExtra := sorted (extra.filter (· ∉ sdkCompatibilityLinks.map Prod.fst))
    compatibilityLinkMismatch := compatibilityLinkMismatches followsToDir candidate
    typeMismatch := commonWhere (fun r c => r.kind ≠ c.kind) reference candidate
    linkMismatch := commonWhere
      (fun r c => r.kind = c.kind && r.kind = .link && r.link ≠ c.link) reference candidate
    modeMismatch := commonWhere
      (fun r c => r.kind = c.kind && withoutGroupWrite r.mode ≠ withoutGroupWrite c.mode)
      reference candidate
    contentMismatch }

/-- `main` on two directories: the exit status, or the exception that ends the program;
`followsToDir` is `Path.is_dir` on the paths of the candidate, which follows links. -/
def main (followsToDir : Path → Bool) (reference candidate : Tree) : Except PyException ℕ :=
  match (do return (← inventory reference true, ← inventory candidate false)) with
  | .error e => if e = .osError ∨ e = .valueError then return 1 else throw e
  | .ok (reference, candidate) => do
      return if (← problems sha256 project followsToDir reference candidate).isEmpty then 0 else 1

end

end AndroidSdk.FileTree.ReferenceLayout
