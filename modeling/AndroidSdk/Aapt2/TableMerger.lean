import AndroidSdk.Aapt2.ResourceTable
import AndroidSdk.Lib.KeyedRun

/-! # Merging resource tables

`TableMerger.cpp`: the packages of a table are merged into the package that is built, entry by
entry. Errors are reported, and the merge goes on. What the merger asks of the contents of values —
comments, paths of files, and the merging of styles — is `ContentOps`; a null value aborts.

* **`ResourceEntry.mergeEntry`**, **`mergeConfigValue`** — the properties of an entry, and a value
  that is there in both tables.
* **`TableMerger.doMerge`** — the loops over types, entries and values.
* **`MergeCall.run`** — `Merge` and `MergeAndMangle`. -/

namespace AndroidSdk.Aapt2

open AndroidSdk.Lib SplitSelect

variable {ι : Type}

/-! ## Names and contents -/

/-- `NameMangler::MangleEntry`. -/
def mangleEntry (package name : Bytes) : Bytes := package ++ bytes "$" ++ name

/-- What the merger does with the contents of values. -/
structure ContentOps (ι : Type) where
  /-- `Value::GetComment`. -/
  comment : ι → Bytes
  /-- `Value::SetComment`. -/
  setComment : Bytes → ι → ι
  /-- `FileReference::path`. -/
  path : ι → Bytes
  /-- A file reference of the given path, and the comment, source, type and file of another. -/
  setPath : Bytes → ι → ι
  /-- `Styleable::MergeWith`. -/
  mergeStyleable : ι → ι → ι
  /-- `Style::MergeWith`. -/
  mergeStyle : ι → ι → ι
  /-- What `CloningValueTransformer` makes of the contents: it copies the items in them as well. -/
  clone : ι → ι

/-- `TableMergerOptions`. -/
structure TableMergerOptions where
  autoAddOverlay : Bool
  strictVisibility : Bool
  overrideStylesInsteadOfOverlaying : Bool

/-- The errors that the merger reports. -/
inductive MergeError where
  /-- "cannot merge resource … with conflicting visibilities: public and private" -/
  | conflictingVisibilities (name : Bytes)
  /-- "cannot merge entry …: conflicting public IDs" -/
  | conflictingPublicIds (name : Bytes)
  /-- "duplicate overlayable declaration for resource …", "previous declaration here" -/
  | duplicateOverlayable (name : Bytes)
  /-- "conflicting staged id declaration for resource …", "previous declaration here" -/
  | conflictingStagedId (name : Bytes)
  /-- "resource … does not override an existing resource" -/
  | notOverriding (name : ResourceName)
  /-- "resource … has a conflicting value for configuration (…)" -/
  | conflictingValue (name : ResourceName) (config : ResTableConfig)
  /-- "duplicate value for resource … with config … and flag …" -/
  | duplicateFlagValue (name : Bytes) (config : ResTableConfig) (flag : FeatureFlagAttribute)
  deriving DecidableEq

/-! ## Entries -/

/-- The staged identifier of the source is another one. -/
def stagedIdConflict (dst src : Option StagedId) : Bool :=
  match dst, src with
  | some d, some s => d.id ≠ s.id
  | _, _ => false

/-- Both entries are public, the visibility stays, and the identifiers differ. -/
def publicIdConflict (dst src : ResourceEntry ι) : Bool :=
  src.visibility.level = .kPublic && dst.visibility.level = .kPublic && dst.id.isSome && src.id.isSome &&
    src.id ≠ dst.id

/-- The overlayable declaration is redefined; `overlayable` stands for its name and actor. -/
def overlayableConflict (dst src : Option OverlayableItem) : Bool :=
  match dst, src with
  | some d, some s => s.overlayable ≠ d.overlayable || s.policies ≠ d.policies
  | _, _ => false

/-- Copy over the strongest visibility. -/
def ResourceEntry.takeVisibility (src dst : ResourceEntry ι) : ResourceEntry ι :=
  if dst.visibility.level.toNat < src.visibility.level.toNat then
    { dst with
      -- only copy the ID if the source is public, or else the ID is meaningless
      id := if src.visibility.level = .kPublic then src.id else dst.id
      visibility := src.visibility }
  else dst

/-- `MergeEntry`: the errors, whether it succeeds, and the entry. The staged identifier is taken
over even where it conflicts. -/
def ResourceEntry.mergeEntry (strictVisibility : Bool) (src dst : ResourceEntry ι) :
    List MergeError × Bool × ResourceEntry ι :=
  if strictVisibility && dst.visibility.level ≠ .kUndefined &&
      src.visibility.level ≠ dst.visibility.level then
    ([.conflictingVisibilities dst.name], false, dst)
  else if publicIdConflict dst src then ([.conflictingPublicIds src.name], false, dst)
  else
    let dst := { src.takeVisibility dst with allowNew := src.allowNew.or dst.allowNew }
    if overlayableConflict dst.overlayableItem src.overlayableItem then
      ([.duplicateOverlayable src.name], false, dst)
    else
      (if stagedIdConflict dst.stagedId src.stagedId then [.conflictingStagedId src.name] else [], true,
        { dst with
          overlayableItem := src.overlayableItem.or dst.overlayableItem
          stagedId := src.stagedId.or dst.stagedId })

/-! ## Values -/

section Merger

variable (ops : ContentOps ι) (options : TableMergerOptions)

/-- `ResolveMergeCollision`: styleables and styles are merged into the existing value. -/
def resolveMergeCollision (existing incoming : Value ι) : CollisionResult × Value ι :=
  match existing.kind, incoming.kind with
  | .styleable, .styleable =>
      (.kKeepOriginal,
        { existing with content := ops.mergeStyleable existing.content incoming.content })
  | .style, .style =>
      if options.overrideStylesInsteadOfOverlaying then
        (resolveValueCollision existing incoming, existing)
      else
        (.kKeepOriginal, { existing with content := ops.mergeStyle existing.content incoming.content })
  | _, _ => (resolveValueCollision existing incoming, existing)

/-- `MergeConfigValue`, up to the error: how the collision is resolved, and the existing value after
it. -/
def mergeConfigValue (overlay : Bool) (existing incoming : Value ι) : CollisionResult × Value ι :=
  let resolved : CollisionResult × Value ι :=
    match resolveFlagCollision existing.flagStatus incoming.flagStatus with
    | .kConflict =>
        if overlay then resolveMergeCollision ops options existing incoming
        else (resolveValueCollision existing incoming, existing)
    | result => (result, existing)
  if resolved.1 = .kConflict ∧ overlay then (.kTakeNew, resolved.2) else resolved

/-- `Transform` with a `CloningValueTransformer`. -/
def ContentOps.cloneValue (v : Value ι) : Value ι := { v.clone with content := ops.clone v.content }

/-- `CloneAndMangleFile`. -/
def cloneAndMangleFile (package : Bytes) (fileRef : Value ι) : Value ι :=
  match extractResFilePathParts (ops.path fileRef.content) with
  | some (dir, entry, suffix) =>
      ⟨.fileReference, ops.setPath (dir ++ mangleEntry package entry ++ suffix) fileRef.content, false,
        true, none, .noFlag⟩
  | none => ops.cloneValue fileRef

/-- How the entries of a package are merged: the package whose name mangles them, and whether they
overlay. -/
structure MergeMode where
  mangledBy : Option Bytes
  overlay : Bool

/-- Keep the comment from the original resource and ignore all comments from overlaying resources. -/
def keepComment (mode : MergeMode) (original : Option (Value ι)) (content : ι) : ι :=
  match mode.overlay, original with
  | true, some value => ops.setComment (ops.comment value.content) content
  | _, _ => content

/-- The value that the main table takes, given the one that it replaces. -/
def takenValue (mode : MergeMode) (original : Option (Value ι)) (incoming : Value ι) : Value ι :=
  match incoming.kind with
  | .fileReference =>
      match mode.mangledBy with
      | some package => cloneAndMangleFile ops package incoming
      | none => ops.cloneValue incoming
  | _ =>
      let clone := ops.cloneValue incoming
      { clone with content := keepComment ops mode original clone.content }

/-- The loop over `values`: one value of the source entry. -/
def ResourceEntry.mergeValue (mode : MergeMode) (name : ResourceName) (src : ResourceConfigValue ι)
    (dst_entry : ResourceEntry ι) : Option (Report MergeError × ResourceEntry ι) :=
  src.value.bind fun incoming =>
    let take (original : Option (Value ι)) (dst : ResourceConfigValue ι) :
        Option (Report MergeError × ResourceConfigValue ι) :=
      some (.clean,
        { dst with
          value := some (takenValue ops mode original incoming)
          usesReadwriteFeatureFlags :=
            dst.usesReadwriteFeatureFlags || src.usesReadwriteFeatureFlags })
    match dst_entry.findValue src.config src.product with
    | none => dst_entry.onValue src.config src.product (take none)
    | some dst => dst.value.bind fun existing =>
        let merged := mergeConfigValue ops options mode.overlay existing incoming
        match merged.1 with
        | .kConflict => some (⟨[.conflictingValue name src.config], true⟩, dst_entry)
        | .kKeepOriginal => dst_entry.onValue src.config src.product fun dst =>
            some (.clean, { dst with value := some merged.2 })
        | .kTakeNew | .kKeepBoth =>
            dst_entry.onValue src.config src.product (take (some merged.2))

/-- The loop over `flag_disabled_values`: one value of the source entry. -/
def ResourceEntry.mergeFlagDisabledValue (name : Bytes) (src : ResourceConfigValue ι)
    (dst_entry : ResourceEntry ι) : Option (Report MergeError × ResourceEntry ι) :=
  src.value.bind fun incoming => incoming.flag.bind fun flag =>
    dst_entry.onFlagDisabledValue flag src.config src.product fun dst =>
      match dst.value with
      | none => some (.clean, { dst with value := some (ops.cloneValue incoming) })
      | some _ => some (⟨[.duplicateFlagValue name src.config flag], true⟩, dst)

/-- An entry of the source is merged into one of the main table. -/
def ResourceEntry.mergeWith (mode : MergeMode) (name : ResourceName) (src dst : ResourceEntry ι) :
    Option (Report MergeError × ResourceEntry ι) :=
  let merged := src.mergeEntry options.strictVisibility dst
  if merged.2.1 then
    (runSteps (ResourceEntry.mergeValue ops options mode name) src.values merged.2.2).bind fun values =>
      (runSteps (ResourceEntry.mergeFlagDisabledValue ops src.name) src.flagDisabledValues values.2).map
        fun flagged =>
          ((Report.mk merged.1 false).andThen (values.1.andThen flagged.1), flagged.2)
  else some (⟨merged.1, true⟩, merged.2.2)

/-! ## Tables -/

/-- The name under which an entry of the source is merged. -/
def MergeMode.entryName (mode : MergeMode) (name : Bytes) : Bytes :=
  match mode.mangledBy with
  | some package => mangleEntry package name
  | none => name

/-- The loop over the entries of a type: one entry of the source. -/
def ResourceTableType.mergeResource (mode : MergeMode) (allowNewResources : Bool) (package : Bytes)
    (src_entry : ResourceEntry ι) (dst_type : ResourceTableType ι) :
    Option (Report MergeError × ResourceTableType ι) :=
  let entryName := mode.entryName src_entry.name
  let name : ResourceName := ⟨package, dst_type.namedType, src_entry.name⟩
  if (allowNewResources || src_entry.allowNew.isSome) || (dst_type.findEntry entryName).isSome then
    (onFoundOrCreated compare ResourceEntry.name entryName (.new entryName)
      (src_entry.mergeWith ops options mode name) dst_type.entries).map fun r =>
        (r.1, { dst_type with entries := r.2 })
  else some (⟨[.notOverriding name], true⟩, dst_type)

/-- `MergeType`: the stronger visibility. -/
def ResourceTableType.mergeType (src_type dst_type : ResourceTableType ι) : ResourceTableType ι :=
  if dst_type.visibilityLevel.toNat ≤ src_type.visibilityLevel.toNat then
    { dst_type with visibilityLevel := src_type.visibilityLevel }
  else dst_type

/-- The loop over the types of a package: one type of the source. -/
def ResourceTablePackage.mergeTypeOf (mode : MergeMode) (allowNewResources : Bool) (package : Bytes)
    (src_type : ResourceTableType ι) (main_package : ResourceTablePackage ι) :
    Option (Report MergeError × ResourceTablePackage ι) :=
  main_package.onType src_type.namedType fun dst_type =>
    runSteps (ResourceTableType.mergeResource ops options mode allowNewResources package)
      src_type.entries (src_type.mergeType dst_type)

/-- `DoMerge`. -/
def doMerge (mode : MergeMode) (allowNewResources : Bool) (src_package main_package :
    ResourceTablePackage ι) : Option (Report MergeError × ResourceTablePackage ι) :=
  runSteps (ResourceTablePackage.mergeTypeOf ops options mode allowNewResources src_package.name)
    src_package.types main_package

/-- The two ways to merge a table. -/
inductive MergeCall where
  /-- `Merge`: local sources, of the same or empty package. -/
  | merge (overlay : Bool)
  /-- `MergeAndMangle`: the package of a static library. -/
  | mergeAndMangle (packageName : Bytes)

/-- The packages that are merged; others are skipped. -/
def MergeCall.selects (call : MergeCall) (compilationPackage : Bytes)
    (package : ResourceTablePackage ι) : Bool :=
  match call with
  | .merge _ => package.name = [] || compilationPackage = package.name
  | .mergeAndMangle packageName => packageName = package.name

/-- How they are merged. -/
def MergeCall.mode (call : MergeCall) (compilationPackage : Bytes) (package : ResourceTablePackage ι) :
    MergeMode :=
  match call with
  | .merge overlay => ⟨none, overlay⟩
  | .mergeAndMangle packageName =>
      ⟨if packageName ≠ compilationPackage then some package.name else none, false⟩

/-- Whether they may add resources. -/
def MergeCall.allowNew (call : MergeCall) : Bool :=
  match call with
  | .merge overlay => options.autoAddOverlay || !overlay
  | .mergeAndMangle _ => true

/-- `Merge` and `MergeAndMangle`: the result is true unless there was an error. -/
def MergeCall.run (call : MergeCall) (compilationPackage : Bytes) (table : ResourceTable ι)
    (main_package : ResourceTablePackage ι) : Option (Report MergeError × ResourceTablePackage ι) :=
  runSteps
    (fun package => doMerge ops options (call.mode compilationPackage package) (call.allowNew options)
      package)
    (table.packages.filter (call.selects compilationPackage)) main_package

end Merger

end AndroidSdk.Aapt2
