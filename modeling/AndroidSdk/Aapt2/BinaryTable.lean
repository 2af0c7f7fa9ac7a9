import AndroidSdk.Lib.Framing
import AndroidSdk.Lib.SortedVector
import AndroidSdk.Aapt2.TableView

/-! # The binary form of a table

`TableFlattener` writes the packages of the partitioned view as chunks, and `BinaryResourceParser`
builds a table from them (`TableFlattener.cpp`, `BinaryResourceParser.cpp`). The chunks are modelled
as the data they carry: how strings, offsets and values are laid out in bytes is left out, and so is
the library chunk, from which no entry is made.

* **`PackageChunk`**, **`PackageData`** — the chunks of a package.
* **`flattenTable`** — `TableFlattener::Consume`.
* **`parseTable`** — `BinaryResourceParser::Parse`. -/

namespace AndroidSdk.Aapt2

open Lib SplitSelect

variable {ι : Type}

/-! ## Names of types -/

/-- `to_string(ResourceType)`. -/
def ResourceType.toBytes : ResourceType → Bytes
  | .kAnim => bytes "anim"
  | .kAnimator => bytes "animator"
  | .kArray => bytes "array"
  | .kAttr => bytes "attr"
  | .kAttrPrivate => bytes "^attr-private"
  | .kBool => bytes "bool"
  | .kColor => bytes "color"
  | .kConfigVarying => bytes "configVarying"
  | .kDimen => bytes "dimen"
  | .kDrawable => bytes "drawable"
  | .kFont => bytes "font"
  | .kFraction => bytes "fraction"
  | .kId => bytes "id"
  | .kInteger => bytes "integer"
  | .kInterpolator => bytes "interpolator"
  | .kLayout => bytes "layout"
  | .kMacro => bytes "macro"
  | .kMenu => bytes "menu"
  | .kMipmap => bytes "mipmap"
  | .kNavigation => bytes "navigation"
  | .kPlurals => bytes "plurals"
  | .kRaw => bytes "raw"
  | .kString => bytes "string"
  | .kStyle => bytes "style"
  | .kStyleable => bytes "styleable"
  | .kTransition => bytes "transition"
  | .kXml => bytes "xml"

/-- `ParseResourceType`. -/
def parseResourceType (s : Bytes) : Option ResourceType :=
  ResourceType.all.find? fun t => t.toBytes = s

/-- `ParseResourceNamedType`: the type is named by what precedes the first dot. -/
def parseResourceNamedType (s : Bytes) : Option ResourceNamedType :=
  let dot := s.idxOf 46
  let type := if dot ≠ s.length ∧ dot + 1 ≠ s.length then s.take dot else s
  (parseResourceType type).map fun t => ⟨s, t⟩

/-! ## Chunks -/

/-- The flags of `ResTable_typeSpec` that are read back. -/
structure SpecFlags where
  specPublic : Bool
  specStagedApi : Bool
  deriving DecidableEq

/-- `ResTable_entry` with its value; the key is an index into the key strings. -/
structure ResEntry (ι : Type) where
  key : ℕ
  flagPublic : Bool
  usesFeatureFlags : Bool
  value : Value ι
  deriving DecidableEq

/-- The chunks of a package behind its string pools. -/
inductive PackageChunk (ι : Type) where
  /-- `ResTable_typeSpec`. -/
  | typeSpec (id : BitVec 8) (flags : List SpecFlags)
  /-- `ResTable_type`: an entry, or none, for each entry identifier. -/
  | type (id : BitVec 8) (config : ResTableConfig) (entries : List (Option (ResEntry ι)))
  /-- `ResTable_overlayable_header`, with identifiers for each policy. -/
  | overlayable (name actor : Bytes) (policies : List (UInt32 × List ResourceId))
  /-- `ResTable_staged_alias_header`: staged and finalized identifiers. -/
  | stagedAlias (aliases : List (ResourceId × ResourceId))
  deriving DecidableEq

/-- `ResTable_package`. -/
structure PackageData (ι : Type) where
  id : BitVec 8
  name : Bytes
  typeStrings : List Bytes
  keyStrings : List Bytes
  chunks : List (PackageChunk ι)
  deriving DecidableEq

/-! ## Writing -/

/-- `PackageType`. -/
inductive PackageType where
  | kApp | kSharedLib | kStaticLib
  deriving DecidableEq

/-- `Overlayable`. -/
structure Overlayable where
  name : Bytes
  actor : Bytes
  source : Bytes
  deriving DecidableEq

/-- What the flattener is given besides the table: the context, its options, what the shared
pointers to overlayables point to, and what remains of a package name in 128 UTF-16 units. -/
structure FlattenContext where
  packageType : PackageType
  includedPackages : Dict (BitVec 8) Bytes
  collapseKeyStringpool : Bool
  nameCollapseExemptions : List ResourceName
  overlayables : Bytes → Overlayable
  packageName : Bytes → Bytes

/-- What `TableFlattener` reports, or that it aborts. -/
inductive FlattenError where
  /-- A check fails, or an identifier or a value is missing. -/
  | aborted
  /-- "package name … is too long. …" -/
  | packageNameTooLong (name : Bytes)
  /-- "can't map package ID … to …. Already mapped to …" -/
  | packageIdMapped (id : BitVec 8) (name existing : Bytes)
  /-- "duplicate overlayable name…" -/
  | duplicateOverlayableName (name : Bytes)
  /-- "overlayable … does not specify policy" -/
  | noPolicy (entry : Bytes)
  /-- "overlayable name … exceeds maximum length …" -/
  | overlayableTooLong (name : Bytes)
  deriving DecidableEq

/-- `std::optional::value`: aborts when there is none. -/
def valueOrAbort {α : Type} (x : Option α) : Except FlattenError α :=
  match x with
  | some a => .ok a
  | none => .error .aborted

/-- `StringPool::MakeRef(…).index()`: a string is added when it is not there yet. -/
def makeRef (pool : List Bytes) (s : Bytes) : List Bytes × ℕ :=
  if s ∈ pool then (pool, pool.idxOf s) else (pool ++ [s], pool.length)

/-- A gap in the type identifiers is filled with strings that name no type, until the expected
identifier is reached. -/
def fillTypePool (pool : List Bytes) (expectedTypeId typeId : ℕ) : List Bytes :=
  (List.range' expectedTypeId (typeId - expectedTypeId)).foldl
    (fun pool n => (makeRef pool (63 :: decimal n)).1) pool

/-- `Obfuscator::ObfuscateResourceName` and what the flattener does with its result: the key of an
entry. -/
def FlattenContext.keyString (ctx : FlattenContext) (type : ResourceNamedType)
    (entry : ResourceTableEntryView ι) : Bytes :=
  if !ctx.collapseKeyStringpool ∨ ⟨[], type, entry.name⟩ ∈ ctx.nameCollapseExemptions then entry.name
  else if entry.overlayableItem.isSome then entry.name
  else bytes "0_resource_name_obfuscated"

/-- The number of entry identifiers of a type. The entries are sorted by their identifiers. -/
def ResourceTableTypeView.numEntries (type : ResourceTableTypeView ι) : Except FlattenError ℕ :=
  valueOrAbort ((type.entries.getLast?.bind ResourceTableEntryView.id).map (·.toNat + 1))

/-- `FlattenTypeSpec`. -/
def flattenTypeSpec (typeId : BitVec 8) (type : ResourceTableTypeView ι) :
    Except FlattenError (PackageChunk ι) := do
  let numEntries ← type.numEntries
  let flags ← type.entries.foldlM (fun (flags : List SpecFlags) entry => do
    let id ← valueOrAbort entry.id
    return flags.set id.toNat ⟨entry.visibility.level = .kPublic, entry.visibility.stagedApi⟩)
    (List.replicate numEntries ⟨false, false⟩)
  return .typeSpec typeId flags

/-- `FlatEntry`. -/
structure FlatEntry (ι : Type) where
  entry : ResourceTableEntryView ι
  value : Option (Value ι)
  entryKey : ℕ
  usesReadwriteFeatureFlags : Bool

/-- `FlattenConfig`: the entries are placed by their identifiers. -/
def flattenConfig (typeId : BitVec 8) (numTotalEntries : ℕ)
    (config : ResTableConfig × List (FlatEntry ι)) : Except FlattenError (PackageChunk ι) := do
  if numTotalEntries > 65535 then throw .aborted
  let entries ← config.2.foldlM (fun (entries : List (Option (ResEntry ι))) flat => do
    let id ← valueOrAbort flat.entry.id
    let value ← valueOrAbort flat.value
    if id.toNat < numTotalEntries then
      return entries.set id.toNat (some ⟨flat.entryKey, flat.entry.visibility.level = .kPublic,
        flat.usesReadwriteFeatureFlags, value⟩)
    else throw .aborted) (List.replicate numTotalEntries none)
  return .type typeId config.1 entries

/-- The state of `PackageFlattener`. -/
structure FlattenState (ι : Type) where
  expectedTypeId : ℕ
  typePool : List Bytes
  keyPool : List Bytes
  aliases : List (ResourceId × ResourceId)
  chunks : List (PackageChunk ι)

/-- What is done with an entry: its alias is noted, its key is put into the pool, and its values are
grouped by configuration. -/
def flattenEntry (ctx : FlattenContext) (packageId typeId : BitVec 8) (type : ResourceNamedType)
    (s : FlattenState ι × List (ResTableConfig × List (FlatEntry ι)))
    (entry : ResourceTableEntryView ι) :
    Except FlattenError (FlattenState ι × List (ResTableConfig × List (FlatEntry ι))) := do
  let aliases ← match entry.stagedId with
    | none => pure s.1.aliases
    | some stagedId => do
        let id ← valueOrAbort entry.id
        -- an alias that is there already stays
        pure (KeyedVector.alter (compareOn fun r : ResourceId => r.id.toNat) stagedId.id
          (fun old => old.getD (.ofParts packageId typeId id)) s.1.aliases)
  let (keyPool, localKeyIndex) := makeRef s.1.keyPool (ctx.keyString type entry)
  return ({ s.1 with aliases, keyPool }, entry.values.foldl (fun map v =>
    KeyedVector.alter ResTableConfig.compare v.config (fun list => list.getD []
      ++ [⟨entry, v.value, localKeyIndex, v.usesReadwriteFeatureFlags⟩]) map) s.2)

/-- What `FlattenTypes` does with a type. Styleables and macros are not real resource types. -/
def flattenType (ctx : FlattenContext) (packageId : BitVec 8) (s : FlattenState ι)
    (type : ResourceTableTypeView ι) : Except FlattenError (FlattenState ι) := do
  if type.namedType.type = .kStyleable ∨ type.namedType.type = .kMacro then return s
  let typeId ← valueOrAbort type.id
  let typePool := fillTypePool s.typePool s.expectedTypeId typeId.toNat
  let expectedTypeId := max s.expectedTypeId typeId.toNat + 1
  let typePool := (makeRef typePool type.namedType.name).1
  let typeSpec ← flattenTypeSpec typeId type
  let numEntries ← type.numEntries
  let (s, configToEntryListMap) ← type.entries.foldlM
    (flattenEntry ctx packageId typeId type.namedType) ({ s with expectedTypeId, typePool }, [])
  let chunks ← configToEntryListMap.mapM (flattenConfig typeId numEntries)
  return { s with chunks := s.chunks ++ typeSpec :: chunks }

/-- `OverlayableChunk`. -/
structure OverlayableChunk where
  actor : Bytes
  source : Bytes
  policyIds : List (UInt32 × List ResourceId)

/-- The identifiers with an overlayable item of a package, in the order of types and entries. -/
def ResourceTablePackageView.overlayableItems (package : ResourceTablePackageView ι) :
    List (Option ResourceId × Bytes × OverlayableItem) :=
  package.types.flatMap fun type => type.entries.filterMap fun entry =>
    entry.overlayableItem.map fun item => (fullId package.id type.id entry.id, entry.name, item)

/-- What `FlattenOverlayable` does with an item. -/
def addOverlayable (ctx : FlattenContext) (s : List ResourceId × List (Bytes × OverlayableChunk))
    (x : Option ResourceId × Bytes × OverlayableItem) :
    Except FlattenError (List ResourceId × List (Bytes × OverlayableChunk)) := do
  let id ← valueOrAbort x.1
  let overlayable := ctx.overlayables x.2.2.overlayable
  -- an identifier appears only once
  if id ∈ s.1 then throw .aborted
  match KeyedVector.find compare overlayable.name s.2 with
  | none => pure ()
  | some chunk =>
      if chunk.source ≠ overlayable.source then throw (.duplicateOverlayableName overlayable.name)
      if chunk.actor ≠ overlayable.actor then throw .aborted
  if x.2.2.policies = 0 then throw (.noPolicy x.2.1)
  return (id :: s.1, KeyedVector.alter compare overlayable.name (fun chunk =>
    let chunk := chunk.getD ⟨overlayable.actor, overlayable.source, []⟩
    { chunk with
      policyIds := KeyedVector.alter (compareOn UInt32.toNat) x.2.2.policies
        (fun ids => ids.getD [] ++ [id]) chunk.policyIds }) s.2)

/-- `FlattenOverlayable`. -/
def flattenOverlayable (ctx : FlattenContext) (package : ResourceTablePackageView ι) :
    Except FlattenError (List (PackageChunk ι)) := do
  let (_, chunks) ← package.overlayableItems.foldlM (addOverlayable ctx) ([], [])
  chunks.mapM fun chunk => do
    if chunk.1.length ≥ 256 then throw (.overlayableTooLong chunk.1)
    if chunk.2.actor.length ≥ 256 then throw (.overlayableTooLong chunk.2.actor)
    return .overlayable chunk.1 chunk.2.actor chunk.2.policyIds

/-- `FlattenAliases`. -/
def flattenAliases (aliases : List (ResourceId × ResourceId)) : List (PackageChunk ι) :=
  if aliases = [] then [] else [.stagedAlias aliases]

/-- `FlattenPackage`. -/
def flattenPackage (ctx : FlattenContext) (package : ResourceTablePackageView ι) :
    Except FlattenError (PackageData ι) := do
  let packageId ← valueOrAbort package.id
  if ctx.packageType ≠ .kApp ∧ package.name.length ≥ 128 then
    throw (.packageNameTooLong package.name)
  let s ← package.types.foldlM (flattenType ctx packageId) ⟨1, [], [], [], []⟩
  let overlayables ← flattenOverlayable ctx package
  return ⟨packageId, ctx.packageName package.name, s.typePool, s.keyPool,
    s.chunks ++ overlayables ++ flattenAliases s.aliases⟩

/-- What `Consume` does with a package: in an application a package identifier other than those of
the framework and of applications is mapped to the package, and then the package is written. -/
def consumePackage (ctx : FlattenContext) (s : Dict (BitVec 8) Bytes × List (PackageData ι))
    (package : ResourceTablePackageView ι) :
    Except FlattenError (Dict (BitVec 8) Bytes × List (PackageData ι)) := do
  let included ← if ctx.packageType ≠ .kApp then pure s.1 else do
    let packageId ← valueOrAbort package.id
    if packageId = 0x01#8 ∨ packageId = 0x7f#8 then pure s.1
    else match s.1.lookup packageId with
      | none => pure (s.1.insert packageId package.name)
      | some existing =>
          if existing ≠ package.name then
            throw (.packageIdMapped packageId package.name existing)
          else pure s.1
  let data ← flattenPackage ctx package
  return (included, s.2 ++ [data])

/-- `TableFlattener::Consume`: the packages of the partitioned view are written in turn. -/
def flattenTable (ctx : FlattenContext) (table : ResourceTable ι) :
    Except FlattenError (List (PackageData ι)) := do
  let (_, packages) ← (table.getPartitionedView true).packages.foldlM (consumePackage ctx)
    (ctx.includedPackages, [])
  return packages

/-! ## Reading -/

/-- What `BinaryResourceParser` reports, or that it aborts. -/
inductive ParseError where
  | aborted
  /-- "ResTable_typeSpec has invalid id: …", "ResTable_type has invalid id: …" -/
  | invalidTypeId
  /-- "ResTable_typeSpec has too many entries …" -/
  | tooManyEntries (n : ℕ)
  /-- "failed to parse value for resource …" -/
  | value (name : ResourceName) (id : ResourceId) (config : ResTableConfig)
  /-- What `AddResource` has reported. -/
  | addResource (error : AddError)
  /-- "failed to find resource name for overlayable resource …" -/
  | overlayableName (id : ResourceId)
  /-- "failed to find resource name for finalized resource ID …" -/
  | finalizedName (id : ResourceId)
  /-- "didn't find … original staged resources" -/
  | stagedNotFound (n : ℕ)
  deriving DecidableEq

/-- What the parser is given besides the chunks: how values are read, as what is left of a value of
the table for a name and a configuration, and the validation of the table. -/
structure ParseContext (ι : Type) where
  readValue : ResourceName → ResTableConfig → Value ι → Option (ValueKind × ι × Bool)
  validation : Validation
  isValidResourceEntryName : Bytes → Bool

/-- The state of `BinaryResourceParser`. -/
structure ParserState (ι : Type) where
  table : ResourceTable ι
  idIndex : Dict ResourceId ResourceName
  entryTypeSpecFlags : Dict ResourceId SpecFlags
  stagedEntriesToRemove : List (ResourceName × ResourceId)

section Parse

variable (ctx : ParseContext ι)

/-- A call of `AddResource`, whose errors are passed on. -/
def ParserState.addResource (res : NewResource ι) (s : ParserState ι) :
    Except ParseError (ParserState ι) :=
  match s.table.addResource ctx.isValidResourceEntryName ctx.validation res with
  | none => .error .aborted
  | some (some error, _) => .error (.addResource error)
  | some (none, table) => .ok { s with table }

/-- A resource with a name and an identifier, and nothing else yet. -/
def newResource (name : ResourceName) (id : ResourceId) : NewResource ι where
  name := name
  value := none
  config := ResTableConfig.defaultConfig
  product := []
  id := some (id, .createEntry)
  visibility := none
  overlayable := none
  allowNew := none
  stagedId := none
  allowMangled := true
  usesReadwriteFeatureFlags := false

/-- `ParseTypeSpec`. -/
def parseTypeSpec (packageId typeId : BitVec 8) (flags : List SpecFlags) (s : ParserState ι) :
    Except ParseError (ParserState ι) :=
  if typeId = 0 then .error .invalidTypeId
  else if flags.length > 65535 then .error (.tooManyEntries flags.length)
  else .ok { s with
    entryTypeSpecFlags := s.entryTypeSpecFlags.fill (flags.zipIdx.map fun p =>
      (.ofParts packageId typeId (BitVec.ofNat 16 p.2), p.1)) }

/-- What `ParseType` does with an entry. -/
def parseEntry (name : ResourceName) (id : ResourceId) (config : ResTableConfig)
    (entry : ResEntry ι) (s : ParserState ι) : Except ParseError (ParserState ι) :=
  match ctx.readValue name config entry.value with
  | none => .error (.value name id config)
  | some (kind, content, weak) =>
      if (name, id) ∈ s.stagedEntriesToRemove then
        -- the first copy of a staged entry is skipped, and forgotten
        .ok { s with stagedEntriesToRemove := s.stagedEntriesToRemove.erase (name, id) }
      else
        let visibility : Option Visibility :=
          if entry.flagPublic then
            some ⟨.kPublic, (s.entryTypeSpecFlags.lookup id).elim false SpecFlags.specStagedApi⟩
          else none
        let s := { s with
          entryTypeSpecFlags :=
            if entry.flagPublic then s.entryTypeSpecFlags.erase id else s.entryTypeSpecFlags
          idIndex := if id ∈ s.idIndex then s.idIndex else s.idIndex.insert id name }
        s.addResource ctx { (newResource name id : NewResource ι) with
          value := some ⟨kind, content, weak, true, none, .noFlag⟩
          config
          visibility
          usesReadwriteFeatureFlags := entry.usesFeatureFlags }

/-- `ParseType`. A type whose name is not known is skipped. -/
def parseType (package : PackageData ι) (typeId : BitVec 8) (config : ResTableConfig)
    (entries : List (Option (ResEntry ι))) (s : ParserState ι) :
    Except ParseError (ParserState ι) :=
  if typeId = 0 then .error .invalidTypeId
  else
    match parseResourceNamedType (package.typeStrings[typeId.toNat - 1]?.getD []) with
    | none => .ok s
    | some type => entries.zipIdx.foldlM (fun s p =>
        match p.1 with
        | none => .ok s
        | some entry => parseEntry ctx ⟨package.name, type, package.keyStrings[entry.key]?.getD []⟩
            (.ofParts package.id typeId (BitVec.ofNat 16 p.2)) config entry s) s

/-- What `ParseOverlayable` does with an identifier. -/
def parseOverlayableId (name : Bytes) (policies : UInt32) (s : ParserState ι) (id : ResourceId) :
    Except ParseError (ParserState ι) :=
  match s.idIndex.lookup id with
  | none => .error (.overlayableName id)
  | some resourceName =>
      s.addResource ctx { (newResource resourceName id : NewResource ι) with
        overlayable := some ⟨name, policies, []⟩ }

/-- `ParseOverlayable`. -/
def parseOverlayable (name : Bytes) (policies : List (UInt32 × List ResourceId))
    (s : ParserState ι) : Except ParseError (ParserState ι) :=
  policies.foldlM (fun s policy => policy.2.foldlM (parseOverlayableId ctx name policy.1) s) s

/-- What `ParseStagedAliases` does with an alias: the staged identifier of the finalized resource is
set, and the entry under the staged identifier is removed, or will be skipped. -/
def parseStagedAlias (s : ParserState ι) (ref : ResourceId × ResourceId) :
    Except ParseError (ParserState ι) := do
  let (stagedId, finalizedId) := ref
  match s.idIndex.lookup finalizedId with
  | none => throw (.finalizedName finalizedId)
  | some resourceName =>
      let s ← s.addResource ctx { (newResource resourceName finalizedId : NewResource ι) with
        stagedId := some ⟨stagedId⟩ }
      match s.table.removeResource resourceName stagedId with
      | (true, table) => return { s with table }
      | (false, table) => return { s with
          table
          stagedEntriesToRemove := s.stagedEntriesToRemove.insert (resourceName, stagedId) }

/-- What `ParsePackage` does with a chunk. -/
def parseChunk (package : PackageData ι) (s : ParserState ι) :
    PackageChunk ι → Except ParseError (ParserState ι)
  | .typeSpec id flags => parseTypeSpec package.id id flags s
  | .type id config entries => parseType ctx package id config entries s
  | .overlayable name _ policies => parseOverlayable ctx name policies s
  | .stagedAlias aliases => aliases.foldlM (parseStagedAlias ctx) s

/-- `ParsePackage`. That references become symbolic changes no entry. -/
def parsePackage (s : ParserState ι) (package : PackageData ι) :
    Except ParseError (ParserState ι) :=
  package.chunks.foldlM (parseChunk ctx package)
    { s with table := s.table.findOrCreatePackage package.name }

/-- `Parse`, for a table that is empty at first. -/
def parseTable (packages : List (PackageData ι)) : Except ParseError (ResourceTable ι) := do
  let s ← packages.foldlM (parsePackage ctx) ⟨⟨[]⟩, ∅, ∅, []⟩
  if s.stagedEntriesToRemove.length ≠ 0 then
    throw (.stagedNotFound s.stagedEntriesToRemove.length)
  return s.table

end Parse

end AndroidSdk.Aapt2
