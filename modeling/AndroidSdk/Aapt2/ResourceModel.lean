import AndroidSdk.Lib.Run
import AndroidSdk.SplitSelect.Config

/-! # The data model of the resource compiler

Names, identifiers and configurations of resources (`Resource.h`, `ResTable_config::compare`), and
the containers of a resource table (`ResourceTable.h`): packages of types of entries of values.
Strings are byte strings and compare as `std::string` does.

* **`ResourceId`** — a 32-bit identifier `0xPPTTEEEE` and its parts.
* **`ResourceName`** — package, named type and entry of a resource.
* **`ResTableConfig.compare`** — the order of the configurations of an entry.
* **`ResourceTable`** — the containers; `ResourceTable.namedEntries` lists the entries with their
  names. -/

namespace AndroidSdk

/-- `std::string`. -/
abbrev Bytes := List UInt8

/-- Texts are compared by their bytes. -/
scoped instance lawfulBEq_bytes : LawfulBEq Bytes := inferInstance

/-- The bytes of a text. -/
def bytes (s : String) : Bytes := s.toUTF8.data.toList

namespace SplitSelect.ResTableConfig

/-- `ResTable_config::compare`; the operators of `ConfigDescription` are defined by it. -/
protected def compare : ResTableConfig → ResTableConfig → Ordering :=
  compareLex (compareOn imsi) <|
  compareLex compareLocales <|
  compareLex (compareOn grammaticalInflection) <|
  compareLex (compareOn screenType) <|
  compareLex (compareOn input) <|
  compareLex (compareOn screenSize) <|
  compareLex (compareOn version) <|
  compareLex (compareOn screenLayout) <|
  compareLex (compareOn screenLayout2) <|
  compareLex (compareOn colorMode) <|
  compareLex (compareOn uiMode) <|
  compareLex (compareOn smallestScreenWidthDp)
    (compareOn screenSizeDp)

instance : Std.TransCmp ResTableConfig.compare := by
  unfold ResTableConfig.compare compareLocales
  infer_instance

/-- Equal operators have equal fields. -/
theorem imsi_eq_iff (c o : ResTableConfig) : c.imsi = o.imsi ↔ c.mcc = o.mcc ∧ c.mnc = o.mnc := by
  have h₁ := c.mcc.toNat_lt
  have h₂ := o.mcc.toNat_lt
  simp only [imsi, ← UInt16.toNat_inj]
  omega

/-- Equal screen types have equal fields. -/
theorem screenType_eq_iff (c o : ResTableConfig) : c.screenType = o.screenType ↔
    c.orientation = o.orientation ∧ c.touchscreen = o.touchscreen ∧ c.density = o.density := by
  have h₁ := c.orientation.toNat_lt
  have h₂ := o.orientation.toNat_lt
  have h₃ := c.touchscreen.toNat_lt
  have h₄ := o.touchscreen.toNat_lt
  simp only [screenType, ← UInt8.toNat_inj, ← UInt16.toNat_inj]
  omega

/-- Equal sizes have equal fields. -/
theorem screenSize_eq_iff (c o : ResTableConfig) : c.screenSize = o.screenSize ↔
    c.screenWidth = o.screenWidth ∧ c.screenHeight = o.screenHeight := by
  have h₁ := c.screenWidth.toNat_lt
  have h₂ := o.screenWidth.toNat_lt
  simp only [screenSize, ← UInt16.toNat_inj]
  omega

/-- Equal sizes in dp have equal fields. -/
theorem screenSizeDp_eq_iff (c o : ResTableConfig) : c.screenSizeDp = o.screenSizeDp ↔
    c.screenWidthDp = o.screenWidthDp ∧ c.screenHeightDp = o.screenHeightDp := by
  have h₁ := c.screenWidthDp.toNat_lt
  have h₂ := o.screenWidthDp.toNat_lt
  simp only [screenSizeDp, ← UInt16.toNat_inj]
  omega

/-- **What the order does not tell apart**: configurations with the same qualifiers, density and
version. -/
theorem compare_eq_iff (c o : ResTableConfig) : c.compare o = .eq ↔
    SameQualifiers c o ∧ c.density = o.density ∧ c.sdkVersion = o.sdkVersion := by
  simp only [ResTableConfig.compare, compareLocales, compareLex_eq_eq, compareOn,
    Std.LawfulEqCmp.compare_eq_iff_eq, locale_eq_iff, input_eq_iff, version_eq_iff, imsi_eq_iff,
    screenType_eq_iff, screenSize_eq_iff, screenSizeDp_eq_iff, SameQualifiers, Vector.toList_inj]
  constructor
  · rintro ⟨⟨hmcc, hmnc⟩, ⟨⟨hlanguage, hcountry⟩, hlocale⟩, hrest⟩
    simp_all
  · rintro ⟨hqualifiers, hdensity, hsdk⟩
    simp_all

/-- Configurations without computed scripts that are not told apart are the same, up to padding. -/
theorem eq_of_compare_eq {c o : ResTableConfig} (h : c.compare o = .eq)
    (hc : c.localeScriptWasComputed = false) (ho : o.localeScriptWasComputed = false) :
    c = { o with screenConfigPad2 := c.screenConfigPad2 } := by
  obtain ⟨hqualifiers, hdensity, hsdk⟩ := (compare_eq_iff c o).mp h
  simp only [SameQualifiers, providedScript, hc, ho, Bool.false_eq_true, if_false,
    Vector.toList_inj] at hqualifiers
  cases c
  cases o
  simp_all

end SplitSelect.ResTableConfig

namespace Aapt2

open SplitSelect (ResTableConfig)

/-! ## Types -/

/-- `ResourceType`. -/
inductive ResourceType where
  | kAnim | kAnimator | kArray | kAttr | kAttrPrivate | kBool | kColor
  /-- Not really a type, but it shows up in some CTS tests. -/
  | kConfigVarying
  | kDimen | kDrawable | kFont | kFraction | kId | kInteger | kInterpolator | kLayout | kMacro | kMenu
  | kMipmap | kNavigation | kPlurals | kRaw | kString | kStyle | kStyleable | kTransition | kXml
  deriving DecidableEq

/-- The enumerators in the order of their declaration. -/
def ResourceType.all : List ResourceType :=
  [.kAnim, .kAnimator, .kArray, .kAttr, .kAttrPrivate, .kBool, .kColor, .kConfigVarying, .kDimen, .kDrawable,
    .kFont, .kFraction, .kId, .kInteger, .kInterpolator, .kLayout, .kMacro, .kMenu, .kMipmap, .kNavigation,
    .kPlurals, .kRaw, .kString, .kStyle, .kStyleable, .kTransition, .kXml]

/-- The number of an enumerator. -/
def ResourceType.toNat (t : ResourceType) : ℕ := ResourceType.all.idxOf t

/-- The number tells types apart. -/
theorem ResourceType.toNat_injective {t u : ResourceType} (h : t.toNat = u.toNat) : t = u := by
  have hat : ∀ v : ResourceType, all[v.toNat]? = some v := fun v => by cases v <;> rfl
  exact Option.some.inj ((hat t).symm.trans (h ▸ hat u))

/-- `ResourceNamedType`. -/
structure ResourceNamedType where
  name : Bytes
  type : ResourceType
  deriving DecidableEq

/-- `ResourceNamedType::compare`. -/
def ResourceNamedType.compare : ResourceNamedType → ResourceNamedType → Ordering :=
  compareLex (compareOn fun t => t.type.toNat) (compareOn ResourceNamedType.name)

instance : Std.TransCmp ResourceNamedType.compare := by
  unfold ResourceNamedType.compare
  infer_instance

/-- Named types that compare equal are equal. -/
theorem ResourceNamedType.compare_eq_iff (t u : ResourceNamedType) :
    t.compare u = .eq ↔ t = u := by
  obtain ⟨n, t⟩ := t
  obtain ⟨m, u⟩ := u
  simp only [ResourceNamedType.compare, compareLex_eq_eq, compareOn,
    Std.LawfulEqCmp.compare_eq_iff_eq, ResourceNamedType.mk.injEq]
  constructor
  · rintro ⟨htype, hname⟩
    exact ⟨hname, ResourceType.toNat_injective htype⟩
  · rintro ⟨rfl, rfl⟩
    exact ⟨rfl, rfl⟩

/-- `ResourceName`. -/
structure ResourceName where
  package : Bytes
  type : ResourceNamedType
  entry : Bytes
  deriving DecidableEq

/-! ## Identifiers -/

/-- `ResourceId`: `0xPPTTEEEE`. -/
structure ResourceId where
  id : BitVec 32
  deriving DecidableEq

namespace ResourceId

/-- The constructor from the three parts. -/
def ofParts (p t : BitVec 8) (e : BitVec 16) : ResourceId := ⟨p ++ t ++ e⟩

/-- `package_id`. -/
def packageId (r : ResourceId) : BitVec 8 := r.id.extractLsb' 24 8

/-- `type_id`. -/
def typeId (r : ResourceId) : BitVec 8 := r.id.extractLsb' 16 8

/-- `entry_id`. -/
def entryId (r : ResourceId) : BitVec 16 := r.id.extractLsb' 0 16

/-- `is_valid`: the type identifier 0 is invalid. -/
def isValid (r : ResourceId) : Bool := r.id &&& 0x00ff0000#32 ≠ 0#32

@[simp]
theorem packageId_ofParts (p t : BitVec 8) (e : BitVec 16) : (ofParts p t e).packageId = p := by
  apply BitVec.eq_of_toNat_eq
  have hp := p.isLt
  have ht := t.isLt
  have he := e.isLt
  simp only [ofParts, packageId, BitVec.extractLsb'_toNat, BitVec.toNat_append]
  rw [← Nat.shiftLeft_add_eq_or_of_lt he, ← Nat.shiftLeft_add_eq_or_of_lt ht]
  omega

@[simp]
theorem typeId_ofParts (p t : BitVec 8) (e : BitVec 16) : (ofParts p t e).typeId = t := by
  apply BitVec.eq_of_toNat_eq
  have ht := t.isLt
  have he := e.isLt
  simp only [ofParts, typeId, BitVec.extractLsb'_toNat, BitVec.toNat_append]
  rw [← Nat.shiftLeft_add_eq_or_of_lt he, ← Nat.shiftLeft_add_eq_or_of_lt ht]
  omega

@[simp]
theorem entryId_ofParts (p t : BitVec 8) (e : BitVec 16) : (ofParts p t e).entryId = e := by
  apply BitVec.eq_of_toNat_eq
  have ht := t.isLt
  have he := e.isLt
  simp only [ofParts, entryId, BitVec.extractLsb'_toNat, BitVec.toNat_append]
  rw [← Nat.shiftLeft_add_eq_or_of_lt he, ← Nat.shiftLeft_add_eq_or_of_lt ht]
  omega

/-- The parts tell identifiers apart. -/
theorem eq_of_parts {r s : ResourceId} (hp : r.packageId = s.packageId) (ht : r.typeId = s.typeId)
    (he : r.entryId = s.entryId) : r = s := by
  obtain ⟨r⟩ := r
  obtain ⟨s⟩ := s
  congr 1
  apply BitVec.eq_of_toNat_eq
  have hr := r.isLt
  have hs := s.isLt
  have hp := congrArg BitVec.toNat hp
  have ht := congrArg BitVec.toNat ht
  have he := congrArg BitVec.toNat he
  simp only [packageId, typeId, entryId, BitVec.extractLsb'_toNat, Nat.shiftRight_eq_div_pow]
    at hp ht he
  omega

end ResourceId

/-! ## Values -/

/-- `FlagStatus`. -/
inductive FlagStatus where
  | noFlag | disabled | enabled
  deriving DecidableEq

/-- `FeatureFlagAttribute`. -/
structure FeatureFlagAttribute where
  name : Bytes
  negated : Bool
  deriving DecidableEq

/-- The subclasses of `Value`; of an attribute, its `type_mask`. -/
inductive ValueKind where
  | reference | id | rawString | string | styledString | fileReference | binaryPrimitive
  | attribute (typeMask : UInt32)
  | style | array | plural | styleable | kMacro
  deriving DecidableEq

/-- `Value`. What else a subclass holds is its content. -/
structure Value (ι : Type) where
  kind : ValueKind
  content : ι
  weak : Bool
  translatable : Bool
  flag : Option FeatureFlagAttribute
  flagStatus : FlagStatus
  deriving DecidableEq

/-- `ResourceConfigValue`. -/
structure ResourceConfigValue (ι : Type) where
  config : ResTableConfig
  product : Bytes
  value : Option (Value ι)
  usesReadwriteFeatureFlags : Bool
  deriving DecidableEq

/-! ## Containers -/

/-- `Visibility::Level`. -/
inductive VisibilityLevel where
  | kUndefined | kPrivate | kPublic
  deriving DecidableEq

/-- `Visibility`. -/
structure Visibility where
  level : VisibilityLevel
  stagedApi : Bool
  deriving DecidableEq

/-- The default `Visibility`. -/
def Visibility.default : Visibility := ⟨.kUndefined, false⟩

/-- `AllowNew`. -/
structure AllowNew where
  comment : Bytes
  deriving DecidableEq

/-- `StagedId`. -/
structure StagedId where
  id : ResourceId
  deriving DecidableEq

/-- `OverlayableItem`. -/
structure OverlayableItem where
  overlayable : Bytes
  policies : UInt32
  comment : Bytes
  deriving DecidableEq

/-- `ResourceEntry`. -/
structure ResourceEntry (ι : Type) where
  name : Bytes
  id : Option ResourceId
  visibility : Visibility
  allowNew : Option AllowNew
  overlayableItem : Option OverlayableItem
  stagedId : Option StagedId
  values : List (ResourceConfigValue ι)
  flagDisabledValues : List (ResourceConfigValue ι)
  deriving DecidableEq

/-- The constructor of `ResourceEntry`. -/
def ResourceEntry.new {ι : Type} (name : Bytes) : ResourceEntry ι :=
  ⟨name, none, .default, none, none, none, [], []⟩

/-- `ResourceTableType`. -/
structure ResourceTableType (ι : Type) where
  namedType : ResourceNamedType
  visibilityLevel : VisibilityLevel
  entries : List (ResourceEntry ι)
  deriving DecidableEq

/-- `ResourceTablePackage`. -/
structure ResourceTablePackage (ι : Type) where
  name : Bytes
  types : List (ResourceTableType ι)
  deriving DecidableEq

/-- `ResourceTable`. -/
structure ResourceTable (ι : Type) where
  packages : List (ResourceTablePackage ι)
  deriving DecidableEq

/-! ## Paths of files -/

/-- `ExtractResFilePathParts`: directory, name and extension of a file in a directory of `res/`. -/
def extractResFilePathParts (path : Bytes) : Option (Bytes × Bytes × Bytes) :=
  if bytes "res/" <+: path ∧ (47 : UInt8) ∈ path.drop 4 then
    let last := (path.reverse.takeWhile (· ≠ 47)).reverse
    some (path.take (path.length - last.length), last.takeWhile (· ≠ 46), last.dropWhile (· ≠ 46))
  else none

/-! ## Traversal -/

section Traversal

variable {ι : Type}

/-- The entries of a type of the given package, each with its resource name. -/
def ResourceTableType.namedEntries (package : Bytes) (type : ResourceTableType ι) :
    List (ResourceName × ResourceEntry ι) :=
  type.entries.map fun entry => (⟨package, type.namedType, entry.name⟩, entry)

/-- The entries of a package, each with its resource name. -/
def ResourceTablePackage.namedEntries (package : ResourceTablePackage ι) :
    List (ResourceName × ResourceEntry ι) :=
  package.types.flatMap (·.namedEntries package.name)

/-- The entries of a table, each with its resource name, in the order of the nested loops over
packages, types and entries. -/
def ResourceTable.namedEntries (table : ResourceTable ι) :
    List (ResourceName × ResourceEntry ι) :=
  table.packages.flatMap ResourceTablePackage.namedEntries

/-- The nested loops over packages, types and entries of a pass that changes each entry alone. -/
def ResourceTable.mapEntries (f : ResourceEntry ι → ResourceEntry ι) (table : ResourceTable ι) :
    ResourceTable ι :=
  { table with packages := table.packages.map fun package =>
      { package with types := package.types.map fun type =>
          { type with entries := type.entries.map f } } }

/-- The entries after such a pass. -/
theorem ResourceTable.namedEntries_mapEntries {f : ResourceEntry ι → ResourceEntry ι}
    (hname : ∀ entry, (f entry).name = entry.name) (table : ResourceTable ι) :
    (table.mapEntries f).namedEntries = table.namedEntries.map fun e => (e.1, f e.2) := by
  simp only [ResourceTable.namedEntries, ResourceTable.mapEntries, List.flatMap_map,
    ResourceTablePackage.namedEntries, ResourceTableType.namedEntries, List.map_flatMap,
    List.map_map]
  simp only [Function.comp_def, hname]

open Lib (mapAccumM)

section Rewrite

variable {σ ε : Type}
  (f : σ → ResourceName → ResourceEntry ι → Except ε (σ × ResourceEntry ι))

/-- The loop over the entries of a type. -/
def ResourceTableType.rewriteEntries (package : Bytes) (s : σ) (type : ResourceTableType ι) :
    Except ε (σ × ResourceTableType ι) := do
  let (s, entries) ← mapAccumM
    (fun s entry => f s ⟨package, type.namedType, entry.name⟩ entry) s type.entries
  return (s, { type with entries })

/-- The loop over the types of a package. -/
def ResourceTablePackage.rewriteEntries (s : σ) (package : ResourceTablePackage ι) :
    Except ε (σ × ResourceTablePackage ι) := do
  let (s, types) ← mapAccumM (ResourceTableType.rewriteEntries f package.name) s package.types
  return (s, { package with types })

/-- The nested loops over packages, types and entries that rewrite the entries and carry a state. -/
def ResourceTable.rewriteEntries (s : σ) (table : ResourceTable ι) :
    Except ε (σ × ResourceTable ι) := do
  let (s, packages) ← mapAccumM (ResourceTablePackage.rewriteEntries f) s table.packages
  return (s, { table with packages })

/-- The same step on an entry with its name. -/
def rewriteNamed (s : σ) (e : ResourceName × ResourceEntry ι) :
    Except ε (σ × ResourceName × ResourceEntry ι) := do
  let (s, entry) ← f s e.1 e.2
  return (s, e.1, entry)

variable {f} (hname : ∀ s s' n e e', f s n e = .ok (s', e') → e'.name = e.name)

include hname in
/-- The loop over a type seen as a loop over named entries. -/
theorem ResourceTableType.mapAccumM_namedEntries {package : Bytes} {s s' : σ}
    {type type' : ResourceTableType ι}
    (h : ResourceTableType.rewriteEntries f package s type = .ok (s', type')) :
    mapAccumM (rewriteNamed f) s (type.namedEntries package)
      = .ok (s', type'.namedEntries package) := by
  obtain ⟨⟨t, entries⟩, hentries, h⟩ := Lib.bind_eq_ok_iff.mp h
  cases h
  refine Lib.mapAccumM_map ?_ hentries
  intro s s' e e' he
  refine Lib.bind_eq_ok_iff.mpr ⟨(s', e'), he, ?_⟩
  show Except.ok (s', (⟨package, type.namedType, e.name⟩ : ResourceName), e') = _
  rw [← hname s s' _ e e' he]

include hname in
/-- **The nested loops are one loop** over the named entries of the table. -/
theorem ResourceTable.mapAccumM_namedEntries {s s' : σ} {table table' : ResourceTable ι}
    (h : table.rewriteEntries f s = .ok (s', table')) :
    mapAccumM (rewriteNamed f) s table.namedEntries = .ok (s', table'.namedEntries) := by
  obtain ⟨⟨t, packages⟩, hpackages, h⟩ := Lib.bind_eq_ok_iff.mp h
  cases h
  refine Lib.mapAccumM_flatMap ?_ hpackages
  intro s s' p p' hp
  obtain ⟨⟨t, types⟩, htypes, hp⟩ := Lib.bind_eq_ok_iff.mp hp
  cases hp
  refine Lib.mapAccumM_flatMap ?_ htypes
  intro s s' t t' ht
  exact ResourceTableType.mapAccumM_namedEntries hname ht

end Rewrite

end Traversal

end Aapt2

end AndroidSdk
