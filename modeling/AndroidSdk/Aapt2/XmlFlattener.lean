import Mathlib.Data.List.DropRight
import AndroidSdk.Aapt2.StringPool
import AndroidSdk.Aapt2.XmlDom
import AndroidSdk.Androidfw.PoolFormat
import AndroidSdk.Lib.LittleEndian
import AndroidSdk.Lib.Run
import AndroidSdk.Lib.SortedVector

/-! # Flattening XML documents

`XmlFlattener` writes an XML document in binary form (`format/binary/XmlFlattener.cpp`). Strings are
pooled while the nodes are written; what refers to them is filled in when the pool is merged and
sorted, so that the names of attributes with identifiers come first.

* **`Field`**, **`XmlChunk`** — what is written for a node, with fields that wait for indices.
* **`Pools`**, **`Pools.addString`**, **`Pools.addName`** — the strings.
* **`visit`** — the visitor.
* **`flatten`** — `Flatten`, to bytes; `flattenDocument` keeps what the bytes are made of. -/

namespace AndroidSdk.Aapt2.XmlFlattener

open Lib Xml StringPool
open Androidfw (chunkHeader flattenPool)

/-! ## Chunks -/

/-- `XmlFlattenerOptions`. -/
structure XmlFlattenerOptions where
  keepRawValues : Bool
  useUtf16 : Bool

/-- What values and strings are turned into by code outside the flattener. -/
structure ValueCode (ν : Type) where
  /-- `ValueCast<String>`: the text of a value that is a string. -/
  stringValue : ν → Option Bytes
  /-- `Flatten`: the type and the data of another value, if it succeeds. -/
  flattenValue : ν → Option (BitVec 8 × BitVec 32)
  /-- `StringBuilder`, with its spaces preserved. -/
  processText : Bytes → Bytes
  /-- `EncodeString`, as UTF-8 or not. -/
  encodeString : Bool → Bytes → Bytes

/-- A field of 32 bits: it is written, or waits for the index of a string. -/
inductive Field where
  | literal (value : BitVec 32)
  | ref (address : ℕ)
  deriving DecidableEq

/-- `ResXMLTree_attribute`, with the type and the data of its value. -/
structure FlatAttribute (ρ : Type) where
  ns : ρ
  name : ρ
  rawValue : ρ
  dataType : BitVec 8
  data : ρ
  deriving DecidableEq

/-- `idIndex`, `classIndex`, `styleIndex`, with the counter of the loop that assigns them. -/
structure SpecialIndices where
  idIndex : BitVec 16
  classIndex : BitVec 16
  styleIndex : BitVec 16
  attributeIndex : BitVec 16
  deriving DecidableEq

/-- The chunk for a node: `ResXMLTree_node` and what extends it. -/
inductive XmlChunk (ρ : Type) where
  | startNamespace (lineNumber : BitVec 32) (nsPrefix uri : ρ)
  | endNamespace (lineNumber : BitVec 32) (nsPrefix uri : ρ)
  | startElement (lineNumber : BitVec 32) (ns name : ρ) (indices : SpecialIndices)
      (attributes : List (FlatAttribute ρ))
  | endElement (lineNumber : BitVec 32) (ns name : ρ)
  | cdata (lineNumber : BitVec 32) (data : ρ)
  deriving DecidableEq

/-- An attribute with other fields. -/
def FlatAttribute.map {ρ ρ' : Type} (f : ρ → ρ') (attr : FlatAttribute ρ) : FlatAttribute ρ' :=
  ⟨f attr.ns, f attr.name, f attr.rawValue, attr.dataType, f attr.data⟩

/-- A chunk with other fields. -/
def XmlChunk.map {ρ ρ' : Type} (f : ρ → ρ') : XmlChunk ρ → XmlChunk ρ'
  | .startNamespace lineNumber nsPrefix uri => .startNamespace lineNumber (f nsPrefix) (f uri)
  | .endNamespace lineNumber nsPrefix uri => .endNamespace lineNumber (f nsPrefix) (f uri)
  | .startElement lineNumber ns name indices attributes =>
      .startElement lineNumber (f ns) (f name) indices (attributes.map (FlatAttribute.map f))
  | .endElement lineNumber ns name => .endElement lineNumber (f ns) (f name)
  | .cdata lineNumber data => .cdata lineNumber (f data)

/-! ## Strings -/

/-- `pool` and `package_pools`, with their entries. -/
structure Pools where
  heap : PoolHeap
  pool : List ℕ
  packagePools : List (BitVec 8 × List ℕ)

/-- No strings. -/
def Pools.empty : Pools := ⟨[], [], []⟩

/-- The index of a string that is missing. -/
def noString : BitVec 32 := 0xffffffff

/-- `AddString`; every string that it makes a reference to has the low priority. -/
def Pools.addString (p : Pools) (str : Bytes) (treatEmptyStringAsNull : Bool) : Field × Pools :=
  if str = [] ∧ treatEmptyStringAsNull then (.literal noString, p)
  else
    let (ref, pool, heap) := StringPool.makeRef str kLowPriority p.pool p.heap
    (.ref ref, { p with pool, heap })

/-- The reference to the name of an attribute with an identifier, in the pool of its package. -/
def Pools.addName (p : Pools) (name : Bytes) (id : ResourceId) : Field × Pools :=
  let packagePool :=
    (KeyedVector.find (compareOn BitVec.toNat) id.packageId p.packagePools).getD []
  let (ref, packagePool, heap) := StringPool.makeRef name id.id packagePool p.heap
  (.ref ref, { p with
    heap
    packagePools :=
      KeyedVector.add (compareOn BitVec.toNat) id.packageId packagePool p.packagePools })

/-! ## Attributes -/

section Visitor

variable {α ν : Type}

/-- `cmp_xml_attribute_by_id`. -/
def cmpXmlAttributeById (a b : Attribute α ν) : Bool :=
  match a.resourceId? with
  | some aId =>
      match b.resourceId? with
      | some bId => aId.id.toNat < bId.id.toNat
      | none => true
  | none =>
      if b.compiledAttribute.isNone then
        (compare a.namespaceUri b.namespaceUri).then (compare a.name b.name) = .lt
      else false

/-- `kIdAttr`. -/
def kIdAttr : ResourceId := ⟨0x010100d0⟩

/-- Assign the indices for specific attributes. -/
def assignIndices (s : SpecialIndices) (attr : Attribute α ν) : SpecialIndices :=
  let s' :=
    if attr.resourceId? = some kIdAttr then { s with idIndex := s.attributeIndex }
    else if attr.namespaceUri = [] then
      if attr.name = bytes "class" then { s with classIndex := s.attributeIndex }
      else if attr.name = bytes "style" then { s with styleIndex := s.attributeIndex }
      else s
    else s
  { s' with attributeIndex := s.attributeIndex + 1 }

/-- The value of an attribute: a text, or a type and data. -/
inductive CompiledValue where
  | text (text : Bytes)
  | typed (dataType : BitVec 8) (data : BitVec 32)

/-- `Res_value::TYPE_STRING`. -/
def typeString : BitVec 8 := 0x03

variable (code : ValueCode ν) (options : XmlFlattenerOptions) (std : StdSort)

/-- The value of an attribute; nothing if a `CHECK` fails. -/
def compileValue (attr : Attribute α ν) : Option CompiledValue :=
  match attr.compiledValue with
  | some value =>
      match code.stringValue value with
      | some text => some (.text text)
      | none => (code.flattenValue value).map fun typed => .typed typed.1 typed.2
  | none => some (.text (code.processText attr.value))

/-- The body of the loop over the attributes. -/
def writeAttribute (attr : Attribute α ν) (p : Pools) : Option (FlatAttribute Field × Pools) := do
  let (ns, p) := p.addString attr.namespaceUri true
  let (name, p) :=
    match attr.resourceId? with
    | none => p.addString attr.name false
    | some id => p.addName attr.name id
  match ← compileValue code attr with
  | .text text =>
      let (data, p) := p.addString text false
      let (rawValue, p) := p.addString (if options.keepRawValues then attr.value else text) false
      return ({ ns, name, rawValue, dataType := typeString, data }, p)
  | .typed dataType data =>
      let (rawValue, p) :=
        if options.keepRawValues ∧ attr.value ≠ [] then p.addString attr.value false
        else (.literal noString, p)
      return ({ ns, name, rawValue, dataType, data := .literal data }, p)

/-- The loop over the attributes. -/
def writeAttributeList :
    List (Attribute α ν) → Pools → Option (List (FlatAttribute Field) × Pools)
  | [], p => return ([], p)
  | attr :: attrs, p => do
      let (flatAttr, p) ← writeAttribute code options attr p
      let (flatAttrs, p) ← writeAttributeList attrs p
      return (flatAttr :: flatAttrs, p)

/-- The attributes that are not dropped, in the order in which they are written. -/
def sortedAttributes (head : ElementHead α ν) : List (Attribute α ν) :=
  std.sort cmpXmlAttributeById (head.attributes.filter (·.namespaceUri ≠ kSchemaTools))

/-- `WriteAttributes`, if there are any. -/
def writeAttributes (head : ElementHead α ν) (p : Pools) :
    Option (SpecialIndices × List (FlatAttribute Field) × Pools) := do
  let filteredAttrs := sortedAttributes std head
  let (flatAttrs, p) ← writeAttributeList code options filteredAttrs p
  return (filteredAttrs.foldl assignIndices ⟨0, 0, 0, 1⟩, flatAttrs, p)

/-! ## Nodes -/

/-- `isspace` in the `C` locale. -/
def isspace (c : UInt8) : Bool := c.toNat ∈ [0x09, 0x0a, 0x0b, 0x0c, 0x0d, 0x20]

/-- `util::TrimWhitespace`. -/
def trimWhitespace (str : Bytes) : Bytes := (str.dropWhile isspace).rdropWhile isspace

/-- `Visit` of a text: leading and trailing whitespace is compacted into single spaces. -/
def visitText (info : NodeInfo) (nodeText : Bytes) (p : Pools) : List (XmlChunk Field) × Pools :=
  let text := trimWhitespace nodeText
  if text = [] then ([], p)
  else
    let text := if nodeText.head?.any isspace then 0x20 :: text else text
    let text := if nodeText.getLast?.any isspace then text ++ [0x20] else text
    let (data, p) := p.addString text false
    ([.cdata (.ofNat 32 info.lineNumber) data], p)

/-- The declarations that are not dropped. -/
def keptDecls (head : ElementHead α ν) : List NamespaceDecl :=
  head.namespaceDecls.filter (·.uri ≠ kSchemaTools)

/-- `WriteNamespace`, for the kind of chunk that `make` makes. -/
def writeNamespace (make : BitVec 32 → Field → Field → XmlChunk Field) (p : Pools)
    (decl : NamespaceDecl) : Pools × XmlChunk Field :=
  let (nsPrefix, p) := p.addString decl.nsPrefix false
  let (uri, p) := p.addString decl.uri false
  (p, make (.ofNat 32 decl.lineNumber) nsPrefix uri)

/-- The chunk for the start of an element. -/
def writeStartElement (head : ElementHead α ν) (p : Pools) :
    Option (XmlChunk Field × Pools) := do
  let (ns, p) := p.addString head.namespaceUri true
  let (name, p) := p.addString head.name true
  let (indices, attributes, p) ← writeAttributes code options std head p
  return (.startElement (.ofNat 32 head.info.lineNumber) ns name indices attributes, p)

/-- The chunk for the end of an element. -/
def writeEndElement (head : ElementHead α ν) (p : Pools) : XmlChunk Field × Pools :=
  let (ns, p) := p.addString head.namespaceUri true
  let (name, p) := p.addString head.name false
  (.endElement (.ofNat 32 head.info.lineNumber) ns name, p)

mutual

/-- `Visit`: the chunks for a node. -/
def visit : Node α ν → Pools → Option (List (XmlChunk Field) × Pools)
  | .text info t, p => some (visitText info t p)
  | .element head children, p => do
      let (p, starts) := mapAccum (writeNamespace .startNamespace) p (keptDecls head)
      let (startElement, p) ← writeStartElement code options std head p
      let (content, p) ← visitAll children p
      let (endElement, p) := writeEndElement head p
      let (p, ends) := mapAccum (writeNamespace .endNamespace) p (keptDecls head).reverse
      return (starts ++ (startElement :: (content ++ [endElement])) ++ ends, p)

/-- The visit of the children. -/
def visitAll : List (Node α ν) → Pools → Option (List (XmlChunk Field) × Pools)
  | [], p => return ([], p)
  | child :: children, p => do
      let (first, p) ← visit child p
      let (rest, p) ← visitAll children p
      return (first ++ rest, p)

end

end Visitor

/-! ## Documents -/

/-- What a field is when the indices are known. -/
def Field.patch (heap : PoolHeap) : Field → BitVec 32
  | .literal value => value
  | .ref a => .ofNat 32 (heap.entryAt a).index

/-- A document whose pool is in order: the strings, the resource map and the chunks of the nodes. -/
structure FlatDocument where
  strings : List Bytes
  resourceMap : List (BitVec 32)
  chunks : List (XmlChunk (BitVec 32))
  deriving DecidableEq

/-- The loop that writes the resource map: when it sees the first string without identifier, it is
done. -/
def resourceMap (heap : PoolHeap) (strings : List ℕ) : List (BitVec 32) :=
  (strings.map fun a => (heap.entryAt a).priority).takeWhile fun priority =>
    priority ≠ kLowPriority ∧ (ResourceId.mk priority).isValid

/-- `Flatten`, up to what the bytes are made of. -/
def flattenDocument {α ν : Type} (code : ValueCode ν) (options : XmlFlattenerOptions)
    (std : StdSort) (node : Node α ν) : Option FlatDocument := do
  let (chunks, p) ← visit code options std node Pools.empty
  -- Merge the package pools into the main pool, and sort it.
  let (strings, heap) := p.packagePools.foldl (fun s e => merge s.1 e.2 s.2) (p.pool, p.heap)
  let (strings, heap) := sortStrings std strings heap
  return {
    strings := strings.map fun a => (heap.entryAt a).value
    resourceMap := resourceMap heap strings
    chunks := chunks.map (XmlChunk.map (Field.patch heap)) }

/-! ## Bytes -/

/-- The chunk of the resource map. -/
def flattenResourceMap (resourceMap : List (BitVec 32)) : Bytes :=
  chunkHeader 0x0180 8 (8 + 4 * resourceMap.length)
    ++ resourceMap.flatMap fun id => leBytes 4 id.toNat

/-- A `ResStringPool_ref`. -/
def encodeRef (ref : BitVec 32) : Bytes := leBytes 4 ref.toNat

/-- `ResXMLTree_attribute`. -/
def FlatAttribute.encode (attr : FlatAttribute (BitVec 32)) : Bytes :=
  encodeRef attr.ns ++ encodeRef attr.name ++ encodeRef attr.rawValue ++ leBytes 2 8
    ++ leBytes 1 0 ++ leBytes 1 attr.dataType.toNat ++ leBytes 4 attr.data.toNat

/-- The type of a chunk. -/
def XmlChunk.type {ρ : Type} : XmlChunk ρ → ℕ
  | .startNamespace .. => 0x0100
  | .endNamespace .. => 0x0101
  | .startElement .. => 0x0102
  | .endElement .. => 0x0103
  | .cdata .. => 0x0104

/-- The line of a chunk. -/
def XmlChunk.lineNumber {ρ : Type} : XmlChunk ρ → BitVec 32
  | .startNamespace lineNumber .. => lineNumber
  | .endNamespace lineNumber .. => lineNumber
  | .startElement lineNumber .. => lineNumber
  | .endElement lineNumber .. => lineNumber
  | .cdata lineNumber .. => lineNumber

/-- What extends the node. -/
def XmlChunk.ext : XmlChunk (BitVec 32) → Bytes
  | .startNamespace _ nsPrefix uri => encodeRef nsPrefix ++ encodeRef uri
  | .endNamespace _ nsPrefix uri => encodeRef nsPrefix ++ encodeRef uri
  | .startElement _ ns name indices attributes =>
      encodeRef ns ++ encodeRef name ++ leBytes 2 20 ++ leBytes 2 20
        ++ leBytes 2 attributes.length ++ leBytes 2 indices.idIndex.toNat
        ++ leBytes 2 indices.classIndex.toNat ++ leBytes 2 indices.styleIndex.toNat
        ++ attributes.flatMap FlatAttribute.encode
  | .endElement _ ns name => encodeRef ns ++ encodeRef name
  | .cdata _ data => encodeRef data ++ leBytes 8 0

/-- A node in bytes. -/
def XmlChunk.encode (chunk : XmlChunk (BitVec 32)) : Bytes :=
  chunkHeader chunk.type 16 (16 + chunk.ext.length) ++ leBytes 4 chunk.lineNumber.toNat
    ++ encodeRef noString ++ chunk.ext

/-- A document in bytes. -/
def FlatDocument.encode (utf8 : Bool) (encodeString : Bytes → Bytes) (doc : FlatDocument) : Bytes :=
  let body := flattenPool utf8 (doc.strings.map encodeString)
    ++ flattenResourceMap doc.resourceMap ++ doc.chunks.flatMap XmlChunk.encode
  chunkHeader 0x0003 8 (8 + body.length) ++ body

/-- `Flatten`. -/
def flatten {α ν : Type} (code : ValueCode ν) (options : XmlFlattenerOptions) (std : StdSort)
    (node : Node α ν) : Option Bytes :=
  (flattenDocument code options std node).map
    (FlatDocument.encode (!options.useUtf16) (code.encodeString (!options.useUtf16)))

end AndroidSdk.Aapt2.XmlFlattener
