import Mathlib.Data.List.Infix
import AndroidSdk.Aapt2.ResourceTable
import AndroidSdk.Aapt2.ResourceValues
import AndroidSdk.Aapt2.XmlFlattener

/-! # Generating R.java and R.txt

`JavaClassGenerator` (`java/JavaClassGenerator.cpp`): the members of the class `R` and the lines of
`R.txt`, which one pass over the resource table makes together. A comment is held as the pieces that
are appended to it; how `AnnotationProcessor` lays them out and how `WriteJavaFile` prints the class
is left out.

* **`ClassDefinition`** — a class with its members.
* **`Outputs`** — what `ProcessType` writes to, where what is not asked for is null.
* **`processStyleable`**, **`processResource`** — an entry.
* **`generate`** — the whole table. -/

namespace AndroidSdk.Aapt2.JavaClass

open Lib Values
open XmlFlattener (trimWhitespace)

/-! ## Classes -/

/-- A call of an `AnnotationProcessor`. -/
inductive DocPiece where
  | comment (text : Bytes) (addApiAnnotations : Bool)
  | newLine
  deriving DecidableEq

/-- `AppendComment`. -/
def appendComment (text : Bytes) : DocPiece := .comment text true

/-- An element of a `ResourceArrayMember`: an identifier, or the text of a `FieldReference`. -/
inductive ArrayElement where
  | resource (id : ResourceId)
  | field (ref : Bytes)
  deriving DecidableEq

/-- The members of a type class: `ResourceMember`, `ResourceArrayMember` and `IntMember`. -/
inductive MemberValue where
  | resource (id : ResourceId) (stagedApi : Bool)
  | array (elements : List ArrayElement)
  | int (value : ℕ)
  deriving DecidableEq

/-- A member of a type class. -/
structure Member where
  name : Bytes
  value : MemberValue
  doc : List DocPiece
  deriving DecidableEq

/-- The members of a class, where those that were overridden are null. -/
abbrev Members (μ : Type) := List (Option μ)

/-- `AddMember`: a member with the same name is overridden. -/
def addMember {μ : Type} (name : μ → Bytes) (member : μ) (members : Members μ) : Members μ :=
  members.map (Option.filter fun m => name m ≠ name member) ++ [some member]

/-- `ClassDefinition` of a type. -/
structure ClassDefinition where
  name : Bytes
  createIfEmpty : Bool
  members : Members Member
  doc : List DocPiece
  deriving DecidableEq

/-- `AddMember`. -/
def ClassDefinition.addMember (member : Member) (c : ClassDefinition) : ClassDefinition :=
  { c with members := JavaClass.addMember Member.name member c.members }

/-- `MethodDefinition`. -/
structure MethodDefinition where
  signature : Bytes
  statements : List Bytes
  deriving DecidableEq

/-- `AppendStatement`. -/
def MethodDefinition.appendStatement (statement : Bytes) (m : MethodDefinition) :
    MethodDefinition := { m with statements := m.statements ++ [statement] }

/-- The members of the class `R`. -/
inductive RMember where
  | type (c : ClassDefinition)
  | method (m : MethodDefinition)
  deriving DecidableEq

/-- `GetName`. -/
def RMember.name : RMember → Bytes
  | type c => c.name
  | method m => m.signature

/-! ## Symbols and options -/

/-- `Attribute`. -/
structure Attribute where
  typeMask : UInt32
  symbols : List AttributeSymbol
  comment : Bytes
  deriving DecidableEq

/-- `SymbolTable::Symbol`. -/
structure Symbol where
  attr : Option Attribute
  isPublic : Bool
  isDynamic : Bool
  deriving DecidableEq

/-- A symbol that has an attribute. -/
structure AttrSymbol where
  attr : Attribute
  isPublic : Bool
  isDynamic : Bool
  deriving DecidableEq

/-- `SymbolTypes`. -/
inductive SymbolTypes where
  | kAll | kPublicPrivate | kPublic
  deriving DecidableEq

/-- `JavaClassGeneratorOptions`. -/
structure JavaClassGeneratorOptions where
  useFinal : Bool
  packagesToCallback : Option (List Bytes)
  types : SymbolTypes
  javadocAnnotations : List Bytes
  deriving DecidableEq

/-- `SkipSymbol` of a level. -/
def skipLevel : SymbolTypes → VisibilityLevel → Bool
  | .kAll, _ => false
  | .kPublicPrivate, level => level = .kUndefined
  | .kPublic, level => level ≠ .kPublic

/-- `SkipSymbol` of a symbol. -/
def skipSymbol (types : SymbolTypes) : Option AttrSymbol → Bool
  | none => true
  | some symbol => types = .kPublic && !symbol.isPublic

/-- `JavaClassGenerator`, with the lookup of symbols, the comments of the `<public>` tags of
entries, `ExtractFirstSentence` and the sorting algorithm. -/
structure JavaClassGenerator where
  minSdkVersion : ℤ
  findByReference : Reference → Option Symbol
  table : ResourceTable Values.Value
  publicComment : ResourceEntry Values.Value → Bytes
  extractFirstSentence : Bytes → Bytes
  std : StdSort
  options : JavaClassGeneratorOptions

/-- What ends the generation: an error, for which `Generate` returns false, or a failure. -/
inductive Failure where
  | error (text : Bytes)
  | checkFailed (text : String)
  | badOptionalAccess
  | nullPointer
  | notAStyleable
  deriving DecidableEq

/-! ## Names -/

/-- `sJavaIdentifiers`. -/
def sJavaIdentifiers : List String :=
  ["abstract", "assert", "boolean", "break", "byte", "case", "catch", "char", "class", "const",
    "continue", "default", "do", "double", "else", "enum", "extends", "final", "finally", "float",
    "for", "goto", "if", "implements", "import", "instanceof", "int", "interface", "long", "native",
    "new", "package", "private", "protected", "public", "return", "short", "static", "strictfp",
    "super", "switch", "synchronized", "this", "throw", "throws", "transient", "try", "void",
    "volatile", "while", "true", "false", "null"]

/-- `IsValidSymbol`. -/
def isValidSymbol (symbol : Bytes) : Bool := symbol ∉ sJavaIdentifiers.map bytes

/-- `TransformToFieldName`: dots and dashes become underscores. -/
def transformToFieldName (symbol : Bytes) : Bytes :=
  symbol.map fun c => if c = 0x2e ∨ c = 0x2d then 0x5f else c

/-- `TransformNestedAttr`. -/
def transformNestedAttr (attrName : ResourceName)
    (styleableClassName packageNameToGenerate : Bytes) : Bytes :=
  styleableClassName
    ++ (if attrName.package ≠ [] ∧ packageNameToGenerate ≠ attrName.package then
        bytes "_" ++ transformToFieldName attrName.package
      else [])
    ++ bytes "_" ++ transformToFieldName attrName.entry

/-- The hexadecimal digits of a number. -/
def hexText (n : ℕ) : Bytes := bytes (String.ofList (Nat.toDigits 16 n))

/-- `ResourceId::to_string`. -/
def idText (id : ResourceId) : Bytes :=
  let digits := hexText id.id.toNat
  bytes "0x" ++ List.replicate (8 - digits.length) 0x30 ++ digits

/-- `ToString` of an element. -/
def ArrayElement.text : ArrayElement → Bytes
  | .resource id => idText id
  | .field ref => ref

/-- `ResourceName::to_string`. -/
def nameText (name : ResourceName) : Bytes :=
  (if name.package ≠ [] then name.package ++ bytes ":" else []) ++ name.type.name ++ bytes "/"
    ++ name.entry

/-- `to_string` of a type. -/
def typeText : ResourceType → String
  | .kAnim => "anim"
  | .kAnimator => "animator"
  | .kArray => "array"
  | .kAttr => "attr"
  | .kAttrPrivate => "^attr-private"
  | .kBool => "bool"
  | .kColor => "color"
  | .kConfigVarying => "configVarying"
  | .kDimen => "dimen"
  | .kDrawable => "drawable"
  | .kFont => "font"
  | .kFraction => "fraction"
  | .kId => "id"
  | .kInteger => "integer"
  | .kInterpolator => "interpolator"
  | .kLayout => "layout"
  | .kMacro => "macro"
  | .kMenu => "menu"
  | .kMipmap => "mipmap"
  | .kNavigation => "navigation"
  | .kPlurals => "plurals"
  | .kRaw => "raw"
  | .kString => "string"
  | .kStyle => "style"
  | .kStyleable => "styleable"
  | .kTransition => "transition"
  | .kXml => "xml"

/-- `ResourceNamedTypeWithDefaultName`. -/
def resourceNamedTypeWithDefaultName (t : ResourceType) : ResourceNamedType :=
  ⟨bytes (typeText t), t⟩

/-- `Unmangle`: the package and the name before and behind the first `$`. -/
def unmangle (name : Bytes) : Option (Bytes × Bytes) :=
  if 0x24 ∈ name then some (name.takeWhile (· ≠ 0x24), (name.dropWhile (· ≠ 0x24)).tail) else none

/-- `UnmangleResource`. -/
def unmangleResource (types : SymbolTypes) (packageName packageNameToGenerate : Bytes)
    (entry : ResourceEntry Values.Value) : Option Bytes :=
  if skipLevel types entry.visibility.level then none
  else
    match unmangle entry.name with
    | some (unmangledPackage, unmangledName) =>
        if packageNameToGenerate ≠ unmangledPackage then none else some unmangledName
    | none => if packageNameToGenerate ≠ packageName then none else some entry.name

/-! ## The formats of attributes -/

/-- The comments of `AddAttributeFormatDoc` about the bits of a mask that are not an enumeration. -/
def formatTexts : List (UInt32 × String) :=
  [(0x01, "<p>May be a reference to another resource, in the form\n"
      ++ "\"<code>@[+][<i>package</i>:]<i>type</i>/<i>name</i></code>\" or a theme\n"
      ++ "attribute in the form\n"
      ++ "\"<code>?[<i>package</i>:]<i>type</i>/<i>name</i></code>\"."),
    (0x02, "<p>May be a string value, using '\\\\;' to escape characters such as\n"
      ++ "'\\\\n' or '\\\\uxxxx' for a unicode character;"),
    (0x04, "<p>May be an integer value, such as \"<code>100</code>\"."),
    (0x08, "<p>May be a boolean value, such as \"<code>true</code>\" or\n"
      ++ "\"<code>false</code>\"."),
    (0x10, "<p>May be a color value, in the form of \"<code>#<i>rgb</i></code>\",\n"
      ++ "\"<code>#<i>argb</i></code>\", \"<code>#<i>rrggbb</i></code>\", or \n"
      ++ "\"<code>#<i>aarrggbb</i></code>\"."),
    (0x20, "<p>May be a floating point value, such as \"<code>1.2</code>\"."),
    (0x40, "<p>May be a dimension value, which is a floating point number appended with a\n"
      ++ "unit such as \"<code>14.5sp</code>\".\n"
      ++ "Available units are: px (pixels), dp (density-independent pixels),\n"
      ++ "sp (scaled pixels based on preferred font size), in (inches), and\n"
      ++ "mm (millimeters)."),
    (0x80, "<p>May be a fractional value, which is a floating point number appended with\n"
      ++ "either % or %p, such as \"<code>14.5%</code>\".\n"
      ++ "The % suffix always means a percentage of the base size;\n"
      ++ "the optional %p suffix provides a size relative to some parent container.")]

/-- `TYPE_ENUM`. -/
def typeEnum : UInt32 := 0x10000

/-- `TYPE_FLAGS`. -/
def typeFlags : UInt32 := 0x20000

/-- The row of a symbol in the table of `AddAttributeFormatDoc`. -/
def symbolRow (symbol : AttributeSymbol) : Except Failure DocPiece :=
  match symbol.symbol.name with
  | none => .error .badOptionalAccess
  | some name => .ok (.comment (bytes "<tr><td>" ++ name.entry ++ bytes "</td>" ++ bytes "<td>"
      ++ hexText symbol.value.toNat ++ bytes "</td>" ++ bytes "<td>"
      ++ trimWhitespace symbol.symbol.metadata.comment ++ bytes "</td></tr>") false)

/-- `AddAttributeFormatDoc`. -/
def addAttributeFormatDoc (attr : Attribute) : Except Failure (List DocPiece) := do
  let formats := (formatTexts.filter fun format => attr.typeMask &&& format.1 ≠ 0).map
    fun format => appendComment (bytes format.2)
  if attr.typeMask &&& (typeFlags ||| typeEnum) ≠ 0 then
    let intro :=
      if attr.typeMask &&& typeFlags ≠ 0 then
        "<p>Must be one or more (separated by '|') of the following constant values.</p>"
      else "<p>Must be one of the following constant values.</p>"
    let header := "<table>\n<colgroup align=\"left\" />\n<colgroup align=\"left\" />\n"
      ++ "<colgroup align=\"left\" />\n"
      ++ "<tr><th>Constant</th><th>Value</th><th>Description</th></tr>\n"
    let rows ← attr.symbols.mapM symbolRow
    return formats ++ [appendComment (bytes intro), appendComment (bytes header)] ++ rows
      ++ [appendComment (bytes "</table>")]
  else return formats

/-! ## Writing -/

/-- What an entry is written to; an output that is not asked for is null. -/
structure Outputs where
  classDef : Option ClassDefinition
  rewriteMethod : Option MethodDefinition
  rTxt : Option Bytes
  deriving DecidableEq

namespace Outputs

/-- `Print` of the printer of `R.txt`. -/
def print (text : Bytes) (out : Outputs) : Outputs :=
  { out with rTxt := out.rTxt.map (· ++ text) }

/-- `Println`. -/
def println (text : Bytes) (out : Outputs) : Outputs := (out.print text).print (bytes "\n")

/-- `AddMember` of the class. -/
def addMember (member : Member) (out : Outputs) : Outputs :=
  { out with classDef := out.classDef.map (ClassDefinition.addMember member) }

end Outputs

/-! ## Styleables -/

/-- `StyleableAttr`, of a reference that has a name, as it has been checked; the test for a name
behind that check always succeeds. -/
structure StyleableAttr where
  attrRef : Reference
  name : ResourceName
  name_eq : attrRef.name = some name
  fieldName : Bytes
  symbol : Option AttrSymbol

/-- `cmp_ids_dynamic_after_framework`. -/
def cmpIdsDynamicAfterFramework (a b : ResourceId) : Bool :=
  if (a.packageId = 0x01 ∧ b.packageId = 0x00) ∨ (a.packageId = 0x00 ∧ b.packageId = 0x01) then
    b.id < a.id
  else a.id < b.id

namespace StyleableAttr

/-- The identifier of an attribute, or 0. -/
def attrId (attr : StyleableAttr) : ResourceId := attr.attrRef.id.getD ⟨0⟩

/-- `operator<`. -/
def lt (lhs rhs : StyleableAttr) : Bool :=
  if lhs.attrId = rhs.attrId then compare lhs.name rhs.name = .lt
  else cmpIdsDynamicAfterFramework lhs.attrId rhs.attrId

end StyleableAttr

/-- `GetRFieldReference`. -/
def getRFieldReference (name : ResourceName) (fallbackPackageName : Bytes) : Bytes :=
  (if name.package = [] then fallbackPackageName else name.package) ++ bytes ".R." ++ name.type.name
    ++ bytes "." ++ transformToFieldName name.entry

/-- The symbol of a reference, if it has an attribute. -/
def attrSymbol (symbol : Option Symbol) : Option AttrSymbol := do
  let symbol ← symbol
  let attr ← symbol.attr
  return ⟨attr, symbol.isPublic, symbol.isDynamic⟩

namespace JavaClassGenerator

variable (g : JavaClassGenerator)

/-- The loop over the entries of a styleable that collects its attributes. -/
def styleableAttr (arrayFieldName packageNameToGenerate : Bytes) (attr : Reference) :
    Except Failure StyleableAttr :=
  if g.options.useFinal ∧ attr.id = none then
    .error (.checkFailed "no ID set for Styleable entry")
  else
    match h : attr.name with
    | none => .error (.checkFailed "no name set for Styleable entry")
    | some name =>
        -- an attribute without a package is one of the package of the styleable
        let ref :=
          if name.package = [] then
            { attr with name := some ⟨packageNameToGenerate, name.type, name.entry⟩ }
          else attr
        .ok {
          attrRef := attr
          name := name
          name_eq := h
          fieldName := transformNestedAttr name arrayFieldName packageNameToGenerate
          symbol := attrSymbol (g.findByReference ref) }

/-- Whether an attribute is left out of the documentation of its styleable. -/
def skipDocumentation (attr : StyleableAttr) : Bool :=
  match attr.symbol with
  | none => true
  | some symbol => skipSymbol g.options.types (some symbol)
      || bytes "@removed" <:+: symbol.attr.comment
      || bytes "@hide" <:+: symbol.attr.comment

/-- The row of an attribute in the table of a styleable. -/
def attrRow (packageNameToGenerate : Bytes) (attr : StyleableAttr) : Bytes :=
  bytes "<tr><td><code>\x7b@link #" ++ attr.fieldName ++ bytes " "
    ++ (if attr.name.package ≠ [] then attr.name.package else packageNameToGenerate) ++ bytes ":"
    ++ attr.name.entry ++ bytes "\x7d</code></td>" ++ bytes "<td>"
    ++ g.extractFirstSentence (attr.symbol.elim [] fun symbol => symbol.attr.comment)
    ++ bytes "</td></tr>\n"

/-- The comment of a styleable. -/
def styleableComment (arrayFieldName packageNameToGenerate comment : Bytes)
    (attrs : List StyleableAttr) : Bytes :=
  let intro :=
    if comment ≠ [] then comment ++ bytes "\n"
    else bytes "Attributes that can be used with a " ++ arrayFieldName ++ bytes ".\n"
  let header := "<p>Includes the following attributes:</p>\n<table>\n"
    ++ "<colgroup align=\"left\" />\n<colgroup align=\"left\" />\n"
    ++ "<tr><th>Attribute</th><th>Description</th></tr>\n"
  let documentationAttrs := attrs.filter fun attr => !g.skipDocumentation attr
  intro ++ bytes header ++ documentationAttrs.flatMap (g.attrRow packageNameToGenerate)
    ++ bytes "</table>\n"
    ++ documentationAttrs.flatMap fun attr => bytes "@see #" ++ attr.fieldName ++ bytes "\n"

/-- The element of an attribute in the array of its styleable. -/
def arrayElement (packageNameToGenerate : Bytes) (attr : StyleableAttr) : ArrayElement :=
  match attr.symbol with
  | none => .resource attr.attrId
  | some symbol =>
      if symbol.isDynamic then .field (getRFieldReference attr.name packageNameToGenerate)
      else .resource attr.attrId

/-- The loop that adds the elements to the array, from a position on. -/
def arrayLoop (packageNameToGenerate : Bytes) :
    List StyleableAttr → ℕ → List ArrayElement → Outputs → List ArrayElement × Outputs
  | [], _, elements, out => (elements, out)
  | attr :: rest, i, elements, out =>
      let element := arrayElement packageNameToGenerate attr
      let out := if i ≠ 0 then out.print (bytes ",") else out
      let out := (out.print (bytes " ")).print element.text
      arrayLoop packageNameToGenerate rest (i + 1) (elements ++ [element]) out

/-- The comment of an attribute in its styleable, or of the attribute itself. -/
def indexComment (attr : StyleableAttr) (symbol : AttrSymbol) : Bytes :=
  if attr.attrRef.metadata.comment = [] then symbol.attr.comment else attr.attrRef.metadata.comment

/-- Whether an attribute has been removed. -/
def removed (attr : StyleableAttr) (symbol : AttrSymbol) : Bool :=
  bytes "@removed" <:+: indexComment attr symbol

/-- The documentation of the index of an attribute. -/
def indexDoc (arrayFieldName packageNameToGenerate : Bytes) (attr : StyleableAttr)
    (symbol : AttrSymbol) : Except Failure (List DocPiece) := do
  let packageName :=
    if attr.name.package = [] then packageNameToGenerate else attr.name.package
  let comment := indexComment attr symbol
  let description :=
    if comment ≠ [] then
      [appendComment (bytes "<p>\n@attr description"), appendComment comment]
    else
      [appendComment (bytes "<p>This symbol is the offset where the " ++ bytes "\x7b@link "
        ++ packageName ++ bytes ".R.attr#" ++ transformToFieldName attr.name.entry
        ++ bytes "\x7d\nattribute's value can be found in the " ++ bytes "\x7b@link #"
        ++ arrayFieldName ++ bytes "\x7d array.")]
  let format ← addAttributeFormatDoc symbol.attr
  return description ++ [.newLine] ++ format ++ [.newLine]
    ++ [appendComment (bytes "@attr name " ++ packageName ++ bytes ":" ++ attr.name.entry)]

/-- The line of the index of an attribute. -/
def indexText (attr : StyleableAttr) (i : ℕ) : Bytes :=
  bytes "int styleable " ++ attr.fieldName ++ bytes " " ++ bytes (toString i)

/-- A turn of the loop that emits the indices into the array. -/
def indexTurn (arrayFieldName packageNameToGenerate : Bytes) (out : Outputs)
    (p : StyleableAttr × ℕ) : Except Failure Outputs :=
  match p.1.symbol with
  | none => pure out
  | some symbol =>
      if skipSymbol g.options.types (some symbol) then pure out
      else if out.classDef.isSome then
        -- the line of `R.txt` is skipped as well
        if removed p.1 symbol then pure out
        else do
          let doc ← indexDoc arrayFieldName packageNameToGenerate p.1 symbol
          return (out.addMember ⟨p.1.fieldName, .int p.2, doc⟩).println (indexText p.1 p.2)
      else pure (out.println (indexText p.1 p.2))

/-- `ProcessStyleable`, for the entries and the comment of the styleable. -/
def processStyleable (name : ResourceName) (entries : List Reference) (comment : Bytes)
    (packageNameToGenerate : Bytes) (out : Outputs) : Except Failure Outputs := do
  let arrayFieldName := transformToFieldName name.entry
  let attrs ← entries.mapM (g.styleableAttr arrayFieldName packageNameToGenerate)
  let sortedAttributes := g.std.sort StyleableAttr.lt attrs
  let doc :=
    if sortedAttributes ≠ [] then
      [appendComment (g.styleableComment arrayFieldName packageNameToGenerate comment
        sortedAttributes)]
    else []
  let out := ((out.print (bytes "int[] styleable ")).print arrayFieldName).print (bytes " \x7b")
  let (elements, out) := arrayLoop packageNameToGenerate sortedAttributes 0 [] out
  let out := out.println (bytes " \x7d")
  let out := out.addMember ⟨arrayFieldName, .array elements, doc⟩
  sortedAttributes.zipIdx.foldlM (g.indexTurn arrayFieldName packageNameToGenerate) out

/-! ## Other resources -/

/-- `ValueCast<Attribute>`. -/
def asAttribute : Values.Value → Option Attribute
  | .attr typeMask _ _ symbols metadata => some ⟨typeMask, symbols, metadata.comment⟩
  | _ => none

/-- `GetComment`. -/
def commentOf : Values.Value → Bytes
  | .item value => value.metadata.comment
  | .style value => value.metadata.comment
  | .attr _ _ _ _ metadata | .array _ metadata | .plural _ metadata | .styleable _ metadata
  | .kMacro _ _ _ _ metadata => metadata.comment

/-- The comment of a value, which must not be null. -/
def valueComment (value : ResourceConfigValue Values.Value) : Except Failure DocPiece :=
  match value.value with
  | none => .error .nullPointer
  | some value => .ok (appendComment (commentOf value.content))

/-- The attribute that the first value of an entry is, if it is one. -/
def firstAttribute (entry : ResourceEntry Values.Value) : Option Attribute := do
  let value ← entry.values.head?
  let value ← value.value
  asAttribute value.content

/-- The documentation of a resource. -/
def resourceDoc (entry : ResourceEntry Values.Value) : Except Failure (List DocPiece) := do
  let publicDoc :=
    if entry.visibility.level ≠ .kUndefined then [appendComment (g.publicComment entry)] else []
  let valueDocs ← entry.values.mapM valueComment
  let format ← match firstAttribute entry with
    | none => pure []
    | some attr => addAttributeFormatDoc attr
  return publicDoc ++ valueDocs ++ format

/-- The identifier that is written for a resource: feature splits have package identifiers beyond
`0x7f`. -/
def realId (name : ResourceName) (id : ResourceId) : ResourceId :=
  if g.minSdkVersion < 26 ∧ name.type.type = .kId ∧ id.packageId > 0x7f then
    .ofParts 0x7f id.packageId id.entryId
  else id

/-- The statement of the rewrite method for a resource. -/
def rewriteText (typeStr fieldName : Bytes) : Bytes :=
  typeStr ++ bytes "." ++ fieldName ++ bytes " = (" ++ typeStr ++ bytes "." ++ fieldName
    ++ bytes " & 0x00ffffff) | packageIdBits;"

/-- `ProcessResource`. -/
def processResource (name : ResourceName) (id : ResourceId) (entry : ResourceEntry Values.Value)
    (out : Outputs) : Except Failure Outputs := do
  let realId := g.realId name id
  let fieldName := transformToFieldName name.entry
  let out ←
    if out.classDef.isSome then do
      let doc ← g.resourceDoc entry
      pure (out.addMember ⟨fieldName, .resource realId entry.visibility.stagedApi, doc⟩)
    else pure out
  let out := ((((out.print (bytes "int ")).print name.type.name).print (bytes " ")).print
    fieldName).print (bytes " ")
  let out := out.println (idText realId)
  let statement := rewriteText name.type.name fieldName
  return { out with rewriteMethod := out.rewriteMethod.map (·.appendStatement statement) }

/-! ## The table -/

/-- The text of the error about a name that is a Java keyword. -/
def invalidSymbolMsg (name : ResourceName) : Bytes :=
  bytes "invalid symbol name '" ++ nameText name ++ bytes "'"

/-- The references and the comment of the styleable that the first value of an entry is. -/
def firstStyleable (entry : ResourceEntry Values.Value) :
    Except Failure (List Reference × Bytes) :=
  match entry.values with
  | [] => .error (.checkFailed "!entry->values.empty()")
  | value :: _ =>
      match value.value.map Value.content with
      | some (.styleable entries metadata) => .ok (entries, metadata.comment)
      | _ => .error .notAStyleable

/-- An entry in the loop of `ProcessType`, by its unmangled name. -/
def processEntry (name : ResourceName) (packageNameToGenerate : Bytes)
    (entry : ResourceEntry Values.Value) (out : Outputs) : Except Failure Outputs :=
  if !isValidSymbol name.entry then .error (.error (invalidSymbolMsg name))
  else if name.type.type = .kStyleable then do
    let (entries, comment) ← firstStyleable entry
    g.processStyleable name entries comment packageNameToGenerate out
  else g.processResource name (entry.id.getD ⟨0⟩) entry out

/-- The type that the entries of a type are written as. -/
def targetType (namedType : ResourceNamedType) : ResourceNamedType :=
  if namedType.type = .kAttrPrivate then resourceNamedTypeWithDefaultName .kAttr else namedType

/-- `ProcessType`. -/
def processType (packageNameToGenerate packageName : Bytes) (type : ResourceTableType Values.Value)
    (out : Outputs) : Except Failure Outputs :=
  type.entries.foldlM (fun out entry =>
    match unmangleResource g.options.types packageName packageNameToGenerate entry with
    | none => pure out
    | some unmangledName =>
        g.processEntry ⟨packageNameToGenerate, targetType type.namedType, unmangledName⟩
          packageNameToGenerate entry out) out

/-- What `Generate` has made so far. -/
structure State where
  doc : List DocPiece
  members : Members RMember
  rewriteMethod : Option MethodDefinition
  rTxt : Option Bytes
  deriving DecidableEq

/-- `AppendJavaDocAnnotations`. -/
def javaDocAnnotations : List DocPiece :=
  g.options.javadocAnnotations.map fun annotation => appendComment (bytes "@" ++ annotation)

/-- `ProcessType` for the private attributes, which are written into the class of the others. -/
def processPrivateAttrs (packageNameToGenerate : Bytes)
    (package : ResourceTablePackage Values.Value) (type : ResourceTableType Values.Value)
    (out : Outputs) : Except Failure Outputs :=
  if type.namedType.type = .kAttr then
    match package.findType (resourceNamedTypeWithDefaultName .kAttrPrivate) with
    | some privType => g.processType packageNameToGenerate package.name privType out
    | none => pure out
  else pure out

/-- The end of a turn of the loops of `Generate`: the class of the type is added. -/
def addTypeClass (type : ResourceTableType Values.Value) (s : State) (out : Outputs) : State :=
  let docOnly :=
    if type.namedType.type = .kStyleable ∧ g.options.types = .kPublic then
      [appendComment (bytes "@doconly")]
    else []
  let members := match out.classDef with
    | none => s.members
    | some c => addMember RMember.name
        (.type { c with doc := c.doc ++ docOnly ++ g.javaDocAnnotations }) s.members
  { s with members, rewriteMethod := out.rewriteMethod, rTxt := out.rTxt }

/-- A type in the loops of `Generate`. -/
def generateType (packageNameToGenerate : Bytes) (writeJava : Bool)
    (package : ResourceTablePackage Values.Value) (s : State)
    (type : ResourceTableType Values.Value) : Except Failure State :=
  if type.namedType.type = .kAttrPrivate ∨ type.namedType.type = .kMacro then pure s
  else do
    let classDef : Option ClassDefinition :=
      if writeJava then
        some ⟨bytes (typeText type.namedType.type), g.options.types = .kPublic, [], []⟩
      else none
    let out ← g.processType packageNameToGenerate package.name type
      ⟨classDef, s.rewriteMethod, s.rTxt⟩
    let out ← g.processPrivateAttrs packageNameToGenerate package type out
    return g.addTypeClass type s out

/-- The rewrite method, if it is requested. -/
def rewriteMethod (packagesToCallback : List Bytes) : MethodDefinition :=
  ⟨bytes "public static void onResourcesLoaded(int p)",
    packagesToCallback.map (· ++ bytes ".R.onResourcesLoaded(p);")
      ++ [bytes "final int packageIdBits = p << 24;"]⟩

/-- The end of `Generate`: the rewrite method is added. -/
def addRewriteMethod (s : State) : State :=
  match s.rewriteMethod with
  | none => s
  | some method => { s with members := addMember RMember.name (.method method) s.members }

/-- `Generate`: the members of the class `R` and the text of `R.txt`, each if it is asked for. -/
def generate (packageNameToGenerate : Bytes) (writeJava writeRTxt : Bool) :
    Except Failure State := do
  let start : State := {
    doc := if writeJava then g.javaDocAnnotations else []
    members := []
    rewriteMethod := if writeJava then g.options.packagesToCallback.map rewriteMethod else none
    rTxt := if writeRTxt then some [] else none }
  let s ← g.table.packages.foldlM (fun s package =>
    package.types.foldlM (g.generateType packageNameToGenerate writeJava package) s) start
  return addRewriteMethod s

end JavaClassGenerator

end AndroidSdk.Aapt2.JavaClass
