import AndroidSdk.Aapt2.ResourceModel
import AndroidSdk.Lib.BinarySearch

/-! # Compatibility of interface definitions

The comparison of two API dumps at the `COMPATIBLE` level (`aidl_checkapi.cpp`), over the
declarations it reads (`aidl_language.h`). Values of constants are of an arbitrary type with a
function that prints a value at a type, `AidlConstantValue::ValueString`; the diagnostics are left
out, and where the comparison aborts nothing is accepted.

* **`TypeSpecifier`**, **`DefinedType`**, **`Typenames`** — the declarations.
* **`areCompatibleInterfaces`**, **`areCompatibleParcelables`**, **`areCompatibleEnums`** — the
  comparisons of two declarations of one kind.
* **`checkApi`** — the comparison of two dumps. -/

namespace AndroidSdk.Aidl

open Lib

/-! ## Annotations -/

/-- `AidlAnnotation::Type`. -/
inductive AnnotationType where
  | backing | javaStableParcelable | ndkStableParcelable | rustStableParcelable
  | unsupportedAppUsage | vintfStability | nullable | utf8InCpp | sensitiveData | javaPassthrough
  | javaDerive | javaDefault | javaDelegator | javaOnlyImmutable | javaSuppressLint | fixedSize
  | descriptor | rustDerive | suppressWarnings | permissionEnforce | permissionNone
  | permissionManual | propagateAllowBlocking
  deriving DecidableEq

namespace AnnotationType

/-- The names of the schemas of annotations. -/
def name : AnnotationType → Bytes
  | .backing => bytes "Backing"
  | .javaStableParcelable => bytes "JavaOnlyStableParcelable"
  | .ndkStableParcelable => bytes "NdkOnlyStableParcelable"
  | .rustStableParcelable => bytes "RustOnlyStableParcelable"
  | .unsupportedAppUsage => bytes "UnsupportedAppUsage"
  | .vintfStability => bytes "VintfStability"
  | .nullable => bytes "nullable"
  | .utf8InCpp => bytes "utf8InCpp"
  | .sensitiveData => bytes "SensitiveData"
  | .javaPassthrough => bytes "JavaPassthrough"
  | .javaDerive => bytes "JavaDerive"
  | .javaDefault => bytes "JavaDefault"
  | .javaDelegator => bytes "JavaDelegator"
  | .javaOnlyImmutable => bytes "JavaOnlyImmutable"
  | .javaSuppressLint => bytes "JavaSuppressLint"
  | .fixedSize => bytes "FixedSize"
  | .descriptor => bytes "Descriptor"
  | .rustDerive => bytes "RustDerive"
  | .suppressWarnings => bytes "SuppressWarnings"
  | .permissionEnforce => bytes "EnforcePermission"
  | .permissionNone => bytes "RequiresNoPermission"
  | .permissionManual => bytes "PermissionManuallyEnforced"
  | .propagateAllowBlocking => bytes "PropagateAllowBlocking"

/-- `kIgnoreAnnotations`. -/
def ignored : List AnnotationType :=
  [.nullable, .sensitiveData, .javaDerive, .javaDefault, .javaDelegator, .javaOnlyImmutable,
    .javaPassthrough, .javaSuppressLint, .rustDerive, .suppressWarnings]

end AnnotationType

/-- `AidlAnnotation`, with its evaluated parameters in the order of their names. -/
structure Annotation where
  type : AnnotationType
  params : List (Bytes × Bytes)

/-- `AidlAnnotation::ToString`. -/
def Annotation.toString (a : Annotation) : Bytes :=
  if a.params = [] then bytes "@" ++ a.type.name
  else bytes "@" ++ a.type.name ++ bytes "(" ++
    (bytes ", ").intercalate (a.params.map fun p => p.1 ++ bytes "=" ++ p.2) ++ bytes ")"

/-- `GetAnnotation`: there is an annotation of a type. -/
def isAnnotated (type : AnnotationType) (annotations : List Annotation) : Bool :=
  annotations.any (·.type = type)

/-- `get_strict_annotations`. -/
def getStrictAnnotations (annotations : List Annotation) : List Bytes :=
  ((annotations.filter (·.type ∉ AnnotationType.ignored)).map Annotation.toString).filter fun s =>
    -- adding @Deprecated (with optional args) is okay
    !(bytes "@JavaPassthrough(annotation=\"@Deprecated").isPrefixOf s

/-- `have_compatible_annotations`. -/
def haveCompatibleAnnotations (older newer : List Annotation) : Bool :=
  sortBy compare id (getStrictAnnotations older) = sortBy compare id (getStrictAnnotations newer)

/-! ## Declarations -/

/-- `ArrayType`: a dynamic array, or one of fixed dimensions. -/
inductive ArrayType where
  | dynamic
  | fixedSize (dimensions : List ℤ)

/-- `AidlTypeSpecifier`. A specifier without type parameters is not generic. -/
inductive TypeSpecifier where
  | mk (annotations : List Annotation) (name : Bytes) (typeParameters : List TypeSpecifier)
      (array : Option ArrayType)

namespace TypeSpecifier

/-- `GetAnnotations`. -/
def annotations : TypeSpecifier → List Annotation
  | mk annotations _ _ _ => annotations

/-- `GetName`. -/
def name : TypeSpecifier → Bytes
  | mk _ name _ _ => name

/-- The dimensions at the end of a signature. -/
def arraySignature : Option ArrayType → Bytes
  | none => []
  | some .dynamic => bytes "[]"
  | some (.fixedSize dimensions) =>
      dimensions.flatMap fun dim => bytes "[" ++ bytes (ToString.toString dim) ++ bytes "]"

mutual

/-- `AidlTypeSpecifier::Signature`. -/
def signature : TypeSpecifier → Bytes
  | mk _ name typeParameters array =>
      name ++
        (if typeParameters = [] then []
        else bytes "<" ++ (bytes ",").intercalate (signatures typeParameters) ++ bytes ">") ++
        arraySignature array

/-- The signatures of the type parameters. -/
def signatures : List TypeSpecifier → List Bytes
  | [] => []
  | type :: types => signature type :: signatures types

end

/-- `IsNullable`. -/
def isNullable (type : TypeSpecifier) : Bool := isAnnotated .nullable type.annotations

end TypeSpecifier

/-- `AidlArgument::Direction`. -/
inductive Direction where
  | inDir | outDir | inoutDir
  deriving DecidableEq

/-- `AidlArgument`. -/
structure Argument where
  type : TypeSpecifier
  direction : Direction

/-- `AidlMethod`. -/
structure Method where
  type : TypeSpecifier
  name : Bytes
  oneway : Bool
  id : ℤ
  arguments : List Argument

/-- `AidlMethod::Signature`. -/
def Method.signature (m : Method) : Bytes :=
  m.name ++ bytes "(" ++ (bytes ", ").intercalate (m.arguments.map (·.type.signature)) ++ bytes ")"

section Values

variable {ν : Type}

/-- `AidlVariableDeclaration`: a field; fields of primitive types have an implicit default value. -/
structure Field (ν : Type) where
  type : TypeSpecifier
  name : Bytes
  defaultValue : Option ν

/-- `AidlConstantDeclaration`. -/
structure ConstantDeclaration (ν : Type) where
  type : TypeSpecifier
  name : Bytes
  value : ν

/-- `AidlEnumerator`. -/
structure Enumerator (ν : Type) where
  name : Bytes
  value : ν

/-- `AidlEnumDeclaration`. -/
structure EnumDeclaration (ν : Type) where
  backingType : TypeSpecifier
  enumerators : List (Enumerator ν)

/-- The five kinds of defined types with their own members. -/
inductive Declaration (ν : Type) where
  | interface (methods : List Method)
  | structuredParcelable (fields : List (Field ν))
  | unstructuredParcelable
  | union (fields : List (Field ν))
  | enum (decl : EnumDeclaration ν)

/-- `AidlDefinedType`, with the file of its location. -/
structure DefinedType (ν : Type) where
  canonicalName : Bytes
  file : Bytes
  annotations : List Annotation
  constants : List (ConstantDeclaration ν)
  declaration : Declaration ν

/-- `AidlTypenames`: the defined types of all documents, the nested ones included. -/
structure Typenames (ν : Type) where
  allDefinedTypes : List (DefinedType ν)

/-- `AidlTypenames::GetEnumDeclaration`. -/
def Typenames.getEnumDeclaration (tns : Typenames ν) (type : TypeSpecifier) :
    Option (EnumDeclaration ν) :=
  match tns.allDefinedTypes.find? (·.canonicalName = type.name) with
  | some ⟨_, _, _, _, .enum decl⟩ => some decl
  | _ => none

/-! ## The comparisons -/

/-- `are_compatible_types`. -/
def areCompatibleTypes (older newer : TypeSpecifier) : Bool :=
  older.signature = newer.signature && haveCompatibleAnnotations older.annotations newer.annotations

variable (printed : ν → TypeSpecifier → Bytes)

/-- `AidlConstantDeclaration::ValueString`. -/
def ConstantDeclaration.valueString (c : ConstantDeclaration ν) : Bytes := printed c.value c.type

/-- `AidlVariableDeclaration::ValueString`. -/
def Field.valueString (f : Field ν) : Bytes :=
  match f.defaultValue with
  | some v => printed v f.type
  | none => []

/-- `AidlVariableDeclaration::HasUsefulDefaultValue`. -/
def Field.hasUsefulDefaultValue (f : Field ν) : Bool := f.defaultValue.isSome || f.type.isNullable

/-- `are_compatible_constants`; of two constants of one name the map keeps the last. -/
def areCompatibleConstants (older newer : List (ConstantDeclaration ν)) : Bool :=
  older.all fun old_c =>
    match newer.findRev? (·.name = old_c.name) with
    | none => false
    | some new_c =>
        areCompatibleTypes old_c.type new_c.type &&
          old_c.valueString printed = new_c.valueString printed

/-- The comparison of two arguments of a method. -/
def areCompatibleArguments (older newer : Argument) : Bool :=
  areCompatibleTypes older.type newer.type && older.direction = newer.direction

/-- The comparison of a method with the one of its signature; another number of arguments aborts. -/
def areCompatibleMethods (old_m new_m : Method) : Bool :=
  -- Adding oneway is an incompatible change, but removing oneway is not.
  !(!old_m.oneway && new_m.oneway) &&
  old_m.id = new_m.id &&
  areCompatibleTypes old_m.type new_m.type &&
  old_m.arguments.length = new_m.arguments.length &&
  (old_m.arguments.zip new_m.arguments).all fun p => areCompatibleArguments p.1 p.2

/-- The loop over the methods of `are_compatible_interfaces`; of two methods of one signature
`emplace` keeps the first. -/
def areCompatibleInterfaces (older newer : List Method) : Bool :=
  older.all fun old_m =>
    match newer.find? (·.signature = old_m.signature) with
    | none => false
    | some new_m => areCompatibleMethods old_m new_m

/-- `HasZeroEnumerator`. -/
def hasZeroEnumerator (decl : EnumDeclaration ν) : Bool :=
  decl.enumerators.any fun e => printed e.value decl.backingType = bytes "0"

/-- `EvaluatesToZero`. -/
def evaluatesToZero (decl : EnumDeclaration ν) (value : Option ν) : Bool :=
  match value with
  | none => true
  | some v => printed v decl.backingType = bytes "0"

/-- A field of the older type against the field at its place: the types are compatible and the
default value is the same, or is the zero of an enum where there was none. -/
def areCompatibleFields (new_types : Typenames ν) (old_field new_field : Field ν) : Bool :=
  areCompatibleTypes old_field.type new_field.type &&
  (old_field.valueString printed = new_field.valueString printed ||
    (old_field.valueString printed = [] &&
      match new_types.getEnumDeclaration new_field.type with
      | some decl => evaluatesToZero printed decl new_field.defaultValue
      | none => false))

/-- Reordering of fields is an incompatible change: the first old field of the name of a new one has
the same place. -/
def keepsOrder (old_fields new_fields : List (Field ν)) : Bool :=
  new_fields.zipIdx.all fun (new_field, i) =>
    match old_fields.findIdx? (new_field.name = ·.name) with
    | some old_index => old_index = i
    | none => true

/-- The fields that old API versions added without a default. -/
def historicalExceptions : List (Bytes × Bytes) :=
  [(bytes "android.net.DhcpResultsParcelable", bytes "serverHostName"),
    (bytes "android.net.ResolverParamsParcel", bytes "resolverOptions")]

/-- New fields must have default values: a useful default, an enum with a zero, or a historical
exception. -/
def newFieldHasDefault (new_types : Typenames ν) (canonicalName : Bytes) (new_field : Field ν) : Bool :=
  new_field.hasUsefulDefaultValue ||
  match new_types.getEnumDeclaration new_field.type with
  | some decl => hasZeroEnumerator printed decl
  | none => (canonicalName, new_field.name) ∈ historicalExceptions

/-- `are_compatible_parcelables` up to the constants, for structured parcelables and for unions. -/
def areCompatibleParcelables (isUnion : Bool) (canonicalName : Bytes) (new_types : Typenames ν)
    (newerFixedSize : Bool) (old_fields new_fields : List (Field ν)) : Bool :=
  -- you can add new fields only at the end
  !(old_fields.length > new_fields.length) &&
  !(newerFixedSize && old_fields.length ≠ new_fields.length) &&
  -- android.net.UidRangeParcel should be frozen to prevent breakage in legacy
  !(canonicalName = bytes "android.net.UidRangeParcel" && old_fields.length ≠ new_fields.length) &&
  (old_fields.zip new_fields).all (fun p => areCompatibleFields printed new_types p.1 p.2) &&
  keepsOrder old_fields new_fields &&
  (isUnion ||
    (new_fields.drop old_fields.length).all (newFieldHasDefault printed new_types canonicalName))

/-- `are_compatible_enums`; of two enumerators of one name the maps keep the last. -/
def areCompatibleEnums (older newer : EnumDeclaration ν) : Bool :=
  older.enumerators.all fun e =>
    match older.enumerators.findRev? (·.name = e.name), newer.enumerators.findRev? (·.name = e.name)
      with
    | some o, some n => printed o.value older.backingType = printed n.value newer.backingType
    | _, _ => false

/-- The comparison of a type with the type of its canonical name, by the kind of the old one. -/
def areCompatibleDefinedTypes (new_types : Typenames ν) (older newer : DefinedType ν) : Bool :=
  haveCompatibleAnnotations older.annotations newer.annotations &&
  match older.declaration, newer.declaration with
  | .interface old_methods, .interface new_methods =>
      areCompatibleInterfaces old_methods new_methods &&
        areCompatibleConstants printed older.constants newer.constants
  | .structuredParcelable old_fields, .structuredParcelable new_fields =>
      areCompatibleParcelables printed false older.canonicalName new_types
        (isAnnotated .fixedSize newer.annotations) old_fields new_fields &&
        areCompatibleConstants printed older.constants newer.constants
  -- ignore, do nothing
  | .unstructuredParcelable, _ => true
  | .union old_fields, .union new_fields =>
      areCompatibleParcelables printed true older.canonicalName new_types
        (isAnnotated .fixedSize newer.annotations) old_fields new_fields &&
        areCompatibleConstants printed older.constants newer.constants
  | .enum old_decl, .enum new_decl => areCompatibleEnums printed old_decl new_decl
  | _, _ => false

/-! ## The comparison of dumps -/

/-- What `AidlDefinedType::CheckValid` and `AidlInterface::CheckValid` say of the names of the
members of a type. Names are identifiers. -/
structure DefinedType.ValidNames (t : DefinedType ν) : Prop where
  constants : (t.constants.map (·.name)).Nodup
  fields : ∀ fields, t.declaration = .structuredParcelable fields ∨ t.declaration = .union fields →
    (fields.map (·.name)).Nodup
  methods : ∀ methods, t.declaration = .interface methods → (methods.map (·.name)).Nodup
  methodNames : ∀ methods, t.declaration = .interface methods → ∀ m ∈ methods, 40 ∉ m.name

/-- The types whose file is in a directory. -/
def getTypesIn (tns : Typenames ν) (location : Bytes) : List (DefinedType ν) :=
  tns.allDefinedTypes.filter fun t => location.isPrefixOf t.file

/-- A dump that was loaded from a directory: the types of the directory, which are compared, and all
types, which field types are looked up in. -/
structure ApiDump (ν : Type) where
  dir : Bytes
  typenames : Typenames ν
  valid : ∀ t ∈ getTypesIn typenames dir, t.ValidNames

/-- The types that are compared. -/
def ApiDump.types (dump : ApiDump ν) : List (DefinedType ν) := getTypesIn dump.typenames dump.dir

/-- `new_map`: of two types of one canonical name `emplace` keeps the first. -/
def ApiDump.find (dump : ApiDump ν) (canonicalName : Bytes) : Option (DefinedType ν) :=
  dump.types.find? (·.canonicalName = canonicalName)

/-- `check_api` at the `COMPATIBLE` level. -/
def checkApi (older newer : ApiDump ν) : Bool :=
  older.types.all fun old_type =>
    match newer.find old_type.canonicalName with
    | none => false
    | some new_type => areCompatibleDefinedTypes printed newer.typenames old_type new_type

end Values

end AndroidSdk.Aidl
