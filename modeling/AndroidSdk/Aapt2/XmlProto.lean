import AndroidSdk.Aapt2.XmlFlattener

/-! # XML documents as messages

XML documents are kept as `XmlNode` messages (`Resources.proto`) in proto form, written by
`format/proto/ProtoSerialize.cpp` and read by `format/proto/ProtoDeserialize.cpp`.

* **`serializeXmlToPb`** — `SerializeXmlToPb`; the children of an element are written with the
  default options.
* **`deserializeXmlFromPb`** — `DeserializeXmlFromPb`.
* **`strip`** — a node without the texts that are only white space.
* **`serializeChildren_eq_iff`** — when the option removes them all.
* **`deserialize_serialize_iff`** — which nodes come back.
* **`whitespaceRemoved_iff`** — both for elements. -/

namespace AndroidSdk.Aapt2.XmlProto

open Lib Xml
open XmlFlattener (trimWhitespace)

/-! ## Messages -/

/-- `SourcePosition`. -/
structure PbSourcePosition where
  lineNumber : BitVec 32
  columnNumber : BitVec 32
  deriving DecidableEq

/-- `XmlNamespace`. -/
structure PbXmlNamespace where
  nsPrefix : Bytes
  uri : Bytes
  source : PbSourcePosition
  deriving DecidableEq

/-- `XmlAttribute`, with the messages of compiled items as a parameter. -/
structure PbXmlAttribute (π : Type) where
  namespaceUri : Bytes
  name : Bytes
  value : Bytes
  source : PbSourcePosition
  resourceId : BitVec 32
  compiledItem : Option π
  deriving DecidableEq

/-- `XmlElement` without its children. -/
structure PbXmlElement (π : Type) where
  namespaceDeclaration : List PbXmlNamespace
  namespaceUri : Bytes
  name : Bytes
  attributes : List (PbXmlAttribute π)
  deriving DecidableEq

/-- `XmlNode`. -/
inductive PbXmlNode (π : Type) where
  | element (source : PbSourcePosition) (el : PbXmlElement π) (child : List (PbXmlNode π))
  | text (source : PbSourcePosition) (text : Bytes)
  | notSet (source : PbSourcePosition)

/-! ## Writing -/

/-- An item and the line of its source. -/
structure CompiledItem (ι : Type) where
  item : ι
  line : Option ℕ
  deriving DecidableEq

/-- `SerializeItemToPb` and `DeserializeItemFromPb`. -/
structure ItemCode (ι π : Type) where
  serializeItem : ι → π
  deserializeItem : π → Option ι

/-- `SerializeXmlOptions`. -/
structure SerializeXmlOptions where
  removeEmptyTextNodes : Bool := false

variable {α ι π : Type} (code : ItemCode ι π)

/-- A position in a message. -/
def serializeSource (lineNumber columnNumber : ℕ) : PbSourcePosition :=
  ⟨.ofNat 32 lineNumber, .ofNat 32 columnNumber⟩

/-- `SerializeXmlCommon`. -/
def serializeXmlCommon (info : NodeInfo) : PbSourcePosition :=
  serializeSource info.lineNumber info.columnNumber

/-- The message of a namespace declaration. -/
def serializeNamespace (ns : NamespaceDecl) : PbXmlNamespace :=
  ⟨ns.nsPrefix, ns.uri, serializeSource ns.lineNumber ns.columnNumber⟩

/-- The identifier of a compiled attribute, or 0. -/
def attrId (compiled : Option (AaptAttribute α)) : BitVec 32 :=
  compiled.elim 0 fun compiled => (compiled.id.getD ⟨0⟩).id

/-- The message of an attribute. -/
def serializeAttribute (attr : Attribute α (CompiledItem ι)) : PbXmlAttribute π where
  namespaceUri := attr.namespaceUri
  name := attr.name
  value := attr.value
  source := serializeSource (attr.compiledValue.elim 0 fun v => v.line.getD 0) 0
  resourceId := attrId attr.compiledAttribute
  compiledItem := attr.compiledValue.map fun v => code.serializeItem v.item

/-- The message of an element, without its children. -/
def serializeHead (head : ElementHead α (CompiledItem ι)) : PbXmlElement π where
  namespaceDeclaration := head.namespaceDecls.map serializeNamespace
  namespaceUri := head.namespaceUri
  name := head.name
  attributes := head.attributes.map (serializeAttribute code)

/-- A text that is only white space. -/
def isBlank (text : Bytes) : Bool := trimWhitespace text = []

mutual

/-- `SerializeXmlToPb`, and the message of a text. -/
def serializeXmlToPb (options : SerializeXmlOptions) : Node α (CompiledItem ι) → PbXmlNode π
  | .element head children =>
      .element (serializeXmlCommon head.info) (serializeHead code head)
        (serializeChildren options children)
  | .text info text => .text (serializeXmlCommon info) text

/-- The loop over the children. An element among them is written with the default options. -/
def serializeChildren (options : SerializeXmlOptions) :
    List (Node α (CompiledItem ι)) → List (PbXmlNode π)
  | [] => []
  | .element head children :: rest =>
      serializeXmlToPb {} (.element head children) :: serializeChildren options rest
  | .text info text :: rest =>
      if options.removeEmptyTextNodes && isBlank text then serializeChildren options rest
      else serializeXmlToPb options (.text info text) :: serializeChildren options rest

end

/-! ## Reading -/

/-- A namespace declaration from its message. -/
def deserializeNamespace (ns : PbXmlNamespace) : NamespaceDecl :=
  ⟨ns.nsPrefix, ns.uri, ns.source.lineNumber.toNat, ns.source.columnNumber.toNat⟩

/-- A compiled attribute with an identifier, and none if it is 0. -/
def compiledOf [Inhabited α] (resourceId : BitVec 32) : Option (AaptAttribute α) :=
  if resourceId ≠ 0 then some ⟨default, some ⟨resourceId⟩⟩ else none

/-- An attribute from its message. -/
def deserializeAttribute [Inhabited α] (pb : PbXmlAttribute π) :
    Option (Attribute α (CompiledItem ι)) := do
  let compiledAttribute := compiledOf pb.resourceId
  match pb.compiledItem with
  | none => return ⟨pb.namespaceUri, pb.name, pb.value, compiledAttribute, none⟩
  | some item =>
      let item ← code.deserializeItem item
      return ⟨pb.namespaceUri, pb.name, pb.value, compiledAttribute,
        some ⟨item, some pb.source.lineNumber.toNat⟩⟩

/-- Where a node is, from its message. -/
def deserializeSource (source : PbSourcePosition) : NodeInfo :=
  ⟨source.lineNumber.toNat, source.columnNumber.toNat, []⟩

/-- An element from its message, without its children. -/
def deserializeHead [Inhabited α] (source : PbSourcePosition) (el : PbXmlElement π) :
    Option (ElementHead α (CompiledItem ι)) := do
  let attributes ← el.attributes.mapM (deserializeAttribute code)
  return {
    info := deserializeSource source
    namespaceDecls := el.namespaceDeclaration.map deserializeNamespace
    namespaceUri := el.namespaceUri
    name := el.name
    attributes }

mutual

/-- `DeserializeXmlFromPb`, and a text from its message: nothing if it fails. -/
def deserializeXmlFromPb [Inhabited α] : PbXmlNode π → Option (Node α (CompiledItem ι))
  | .element source el child => do
      let head ← deserializeHead code source el
      let children ← deserializeChildren child
      return .element head children
  | .text source text => some (.text (deserializeSource source) text)
  | .notSet _ => none

/-- The loop over the children. -/
def deserializeChildren [Inhabited α] :
    List (PbXmlNode π) → Option (List (Node α (CompiledItem ι)))
  | [] => some []
  | child :: rest => do
      let node ← deserializeXmlFromPb child
      let nodes ← deserializeChildren rest
      return node :: nodes

end

/-! ## What a message keeps -/

/-- What is seen of an attribute: its identifier instead of its definition, and the line of its
value. -/
def seenAttribute (attr : Attribute α (CompiledItem ι)) : Attribute Unit (ι × ℕ) where
  namespaceUri := attr.namespaceUri
  name := attr.name
  value := attr.value
  compiledAttribute := attr.resourceId?.map fun id => ⟨(), some id⟩
  compiledValue := attr.compiledValue.map fun v => (v.item, v.line.getD 0)

/-- What is seen of an element: everything but its comment. -/
def seenHead (head : ElementHead α (CompiledItem ι)) : ElementHead Unit (ι × ℕ) where
  info := { head.info with comment := [] }
  namespaceDecls := head.namespaceDecls
  namespaceUri := head.namespaceUri
  name := head.name
  attributes := head.attributes.map seenAttribute

/-- What is seen of a node. -/
def seen : Node α (CompiledItem ι) → Node Unit (ι × ℕ)
  | .element head children => .element (seenHead head) (children.map seen)
  | .text info text => .text { info with comment := [] } text

@[simp] theorem seen_element (head : ElementHead α (CompiledItem ι))
    (children : List (Node α (CompiledItem ι))) :
    seen (.element head children) = .element (seenHead head) (children.map seen) := by
  rw [seen]

@[simp] theorem seen_text (info : NodeInfo) (text : Bytes) :
    seen (.text info text : Node α (CompiledItem ι)) = .text { info with comment := [] } text := by
  rw [seen]

/-- An attribute that a message can hold. -/
def AttributeFits (attr : Attribute α (CompiledItem ι)) : Prop :=
  attr.resourceId? ≠ some ⟨0⟩ ∧ ∀ v, attr.compiledValue = some v →
    code.deserializeItem (code.serializeItem v.item) = some v.item ∧ v.line.getD 0 < 2 ^ 32

/-- A position that a message can hold. -/
def PositionFits (lineNumber columnNumber : ℕ) : Prop :=
  lineNumber < 2 ^ 32 ∧ columnNumber < 2 ^ 32

/-- An element that a message can hold, apart from its children. -/
def HeadFits (head : ElementHead α (CompiledItem ι)) : Prop :=
  PositionFits head.info.lineNumber head.info.columnNumber
    ∧ (∀ ns ∈ head.namespaceDecls, PositionFits ns.lineNumber ns.columnNumber)
    ∧ ∀ attr ∈ head.attributes, AttributeFits code attr

/-- **A node that a message can hold.** -/
def Fits : Node α (CompiledItem ι) → Prop
  | .element head children => HeadFits code head ∧ ∀ c ∈ children, Fits c
  | .text info _ => PositionFits info.lineNumber info.columnNumber

/-- The children fit as well. -/
theorem fits_element (head : ElementHead α (CompiledItem ι))
    (children : List (Node α (CompiledItem ι))) :
    Fits code (.element head children) ↔ HeadFits code head ∧ ∀ c ∈ children, Fits code c := by
  rw [Fits]

/-- A text needs only its position. -/
theorem fits_text (info : NodeInfo) (text : Bytes) :
    Fits code (.text info text : Node α (CompiledItem ι))
      ↔ PositionFits info.lineNumber info.columnNumber := by
  rw [Fits]

/-! ## Nodes that come back -/

/-- **A list comes back** if and only if every element does. -/
theorem mapM_restores_iff {β δ ζ : Type} {write : β → δ} {read : δ → Option β} {view : β → ζ}
    {P : β → Prop} {l : List β}
    (h : ∀ x ∈ l, (∃ y, read (write x) = some y ∧ view y = view x) ↔ P x) :
    (∃ ys, (l.map write).mapM read = some ys ∧ ys.map view = l.map view) ↔ ∀ x ∈ l, P x := by
  induction l with
  | nil => exact iff_of_true ⟨[], rfl, rfl⟩ fun x hx => absurd hx List.not_mem_nil
  | cons x l ih =>
      obtain ⟨hx, hl⟩ := List.forall_mem_cons.mp h
      rw [List.forall_mem_cons, ← hx, ← ih hl]
      constructor
      · rintro ⟨ys, hread, hview⟩
        rw [List.map_cons, List.mapM_cons] at hread
        obtain ⟨y, hy, hread⟩ := Option.bind_eq_some_iff.mp hread
        obtain ⟨ys, hys, hread⟩ := Option.bind_eq_some_iff.mp hread
        cases hread
        rw [List.map_cons, List.map_cons, List.cons.injEq] at hview
        exact ⟨⟨y, hy, hview.1⟩, ys, hys, hview.2⟩
      · rintro ⟨⟨y, hy, hyview⟩, ys, hys, hview⟩
        refine ⟨y :: ys, ?_, ?_⟩
        · rw [List.map_cons, List.mapM_cons, hy, hys]
          rfl
        · rw [List.map_cons, List.map_cons, hyview, hview]

/-- A number comes back from 32 bits. -/
theorem toNat_ofNat_eq_iff (n : ℕ) : (BitVec.ofNat 32 n).toNat = n ↔ n < 2 ^ 32 := by
  rw [BitVec.toNat_ofNat]
  omega

/-- A position comes back. -/
theorem deserializeSource_eq_iff (info : NodeInfo) :
    deserializeSource (serializeXmlCommon info) = { info with comment := [] }
      ↔ PositionFits info.lineNumber info.columnNumber := by
  rw [serializeXmlCommon, serializeSource, deserializeSource, PositionFits, NodeInfo.mk.injEq,
    toNat_ofNat_eq_iff, toNat_ofNat_eq_iff, and_iff_left rfl]

/-- A namespace declaration comes back. -/
theorem deserializeNamespace_eq_iff (ns : NamespaceDecl) :
    deserializeNamespace (serializeNamespace ns) = ns
      ↔ PositionFits ns.lineNumber ns.columnNumber := by
  obtain ⟨nsPrefix, uri, lineNumber, columnNumber⟩ := ns
  rw [serializeNamespace, serializeSource, deserializeNamespace, PositionFits,
    NamespaceDecl.mk.injEq, toNat_ofNat_eq_iff, toNat_ofNat_eq_iff, and_iff_right rfl,
    and_iff_right rfl]

/-- All namespace declarations come back. -/
theorem map_deserializeNamespace_eq_iff (decls : List NamespaceDecl) :
    (decls.map serializeNamespace).map deserializeNamespace = decls
      ↔ ∀ ns ∈ decls, PositionFits ns.lineNumber ns.columnNumber := by
  induction decls with
  | nil => exact iff_of_true rfl fun ns hns => absurd hns List.not_mem_nil
  | cons ns decls ih =>
      rw [List.map_cons, List.map_cons, List.cons.injEq, deserializeNamespace_eq_iff, ih,
        List.forall_mem_cons]

section Reading

variable [Inhabited α]

/-- The identifier of an attribute comes back if it is not zero. -/
theorem compiledOf_attrId_iff (compiled : Option (AaptAttribute α)) :
    (compiledOf (attrId compiled) : Option (AaptAttribute α)).bind AaptAttribute.id
        = compiled.bind AaptAttribute.id
      ↔ compiled.bind AaptAttribute.id ≠ some ⟨0⟩ := by
  cases compiled with
  | none => exact iff_of_true rfl (by simp)
  | some c =>
      obtain ⟨attr, id⟩ := c
      cases id with
      | none => exact iff_of_true rfl (by simp)
      | some id =>
          obtain ⟨r⟩ := id
          by_cases hr : r = 0
          · subst hr
            exact iff_of_false (by simp [compiledOf, attrId]) (by simp)
          · have hback : (compiledOf r : Option (AaptAttribute α)) = some ⟨default, some ⟨r⟩⟩ :=
              if_pos hr
            refine iff_of_true ?_ (by simpa using hr)
            show (compiledOf r : Option (AaptAttribute α)).bind AaptAttribute.id = some ⟨r⟩
            rw [hback]
            rfl

/-- **An attribute comes back**: its identifier is not zero, and its item comes back. -/
theorem deserializeAttribute_iff (attr : Attribute α (CompiledItem ι)) :
    (∃ attr' : Attribute α (CompiledItem ι),
        deserializeAttribute code (serializeAttribute code attr) = some attr'
          ∧ seenAttribute attr' = seenAttribute attr)
      ↔ AttributeFits code attr := by
  obtain ⟨ns, name, value, compiled, item⟩ := attr
  have hid := compiledOf_attrId_iff compiled
  have hinj : Function.Injective (Option.map fun id : ResourceId =>
      (⟨(), some id⟩ : AaptAttribute Unit)) :=
    Option.map_injective fun a b h => by simpa using h
  cases item with
  | none =>
      rw [AttributeFits, deserializeAttribute, serializeAttribute]
      simp only [Option.map_none, Option.pure_def, Option.some.injEq, exists_eq_left', seenAttribute,
        Attribute.resourceId?, Attribute.mk.injEq, true_and, and_true, hinj.eq_iff, hid,
        reduceCtorEq, false_implies, implies_true]
  | some v =>
      obtain ⟨item, line⟩ := v
      rw [AttributeFits, deserializeAttribute, serializeAttribute]
      cases hitem : code.deserializeItem (code.serializeItem item) with
      | none => simp [hitem]
      | some item' =>
          simp only [Option.map_some, hitem, Option.bind_eq_bind, Option.bind_some, Option.pure_def,
            Option.some.injEq, exists_eq_left', seenAttribute, Attribute.resourceId?,
            Attribute.mk.injEq, true_and, hinj.eq_iff, hid, Prod.mk.injEq, Option.elim_some,
            serializeSource, Option.getD_some, toNat_ofNat_eq_iff, forall_eq', ne_eq]

/-- **An element comes back**, apart from its children. -/
theorem deserializeHead_iff (head : ElementHead α (CompiledItem ι)) :
    (∃ head' : ElementHead α (CompiledItem ι),
        deserializeHead code (serializeXmlCommon head.info) (serializeHead code head) = some head'
          ∧ seenHead head' = seenHead head)
      ↔ HeadFits code head := by
  have hattributes := mapM_restores_iff (l := head.attributes) fun attr _ =>
    deserializeAttribute_iff code attr
  rw [HeadFits, ← deserializeSource_eq_iff, ← map_deserializeNamespace_eq_iff, ← hattributes]
  constructor
  · rintro ⟨head', hread, hview⟩
    obtain ⟨attributes, hmapM, hread⟩ := Option.bind_eq_some_iff.mp hread
    cases hread
    simp only [seenHead, ElementHead.mk.injEq] at hview
    exact ⟨hview.1, hview.2.1, attributes, hmapM, hview.2.2.2.2⟩
  · rintro ⟨hsource, hdecls, attributes, hmapM, hview⟩
    refine ⟨{
      info := deserializeSource (serializeXmlCommon head.info)
      namespaceDecls := (head.namespaceDecls.map serializeNamespace).map deserializeNamespace
      namespaceUri := head.namespaceUri
      name := head.name
      attributes }, ?_, ?_⟩
    · rw [deserializeHead, serializeHead, hmapM]
      rfl
    · simp only [seenHead, ElementHead.mk.injEq]
      exact ⟨hsource, hdecls, trivial, trivial, hview⟩

/-- The children are read one after the other. -/
theorem deserializeChildren_eq (children : List (PbXmlNode π)) :
    (deserializeChildren code children : Option (List (Node α (CompiledItem ι))))
      = children.mapM (deserializeXmlFromPb code) := by
  induction children with
  | nil => rw [deserializeChildren, List.mapM_nil, Option.pure_def]
  | cons c children ih =>
      rw [deserializeChildren, ih, List.mapM_cons]

omit [Inhabited α] in
/-- Without the option, the children are written one after the other. -/
theorem serializeChildren_eq (children : List (Node α (CompiledItem ι))) :
    serializeChildren code {} children = children.map (serializeXmlToPb code {}) := by
  induction children with
  | nil => rw [serializeChildren, List.map_nil]
  | cons c children ih =>
      cases c with
      | element head below => rw [serializeChildren, ih, List.map_cons]
      | text info t =>
          rw [serializeChildren, ih, List.map_cons]
          exact if_neg (by simp)

/-- **A node comes back** if and only if its message can hold it. -/
theorem deserialize_serialize_iff (node : Node α (CompiledItem ι)) :
    (∃ node' : Node α (CompiledItem ι),
        deserializeXmlFromPb code (serializeXmlToPb code {} node) = some node'
          ∧ seen node' = seen node)
      ↔ Fits code node := by
  induction node using Node.ind with
  | text info t =>
      rw [fits_text, ← deserializeSource_eq_iff, serializeXmlToPb, deserializeXmlFromPb]
      simp only [Option.some.injEq, exists_eq_left', seen_text, Node.text.injEq, and_true]
      exact Iff.rfl
  | element head children ih =>
      have hchildren := mapM_restores_iff (l := children) ih
      rw [fits_element, ← deserializeHead_iff, ← hchildren, serializeXmlToPb, deserializeXmlFromPb,
        deserializeChildren_eq, serializeChildren_eq]
      constructor
      · rintro ⟨node', hread, hview⟩
        obtain ⟨head', hhead, hread⟩ := Option.bind_eq_some_iff.mp hread
        obtain ⟨children', hbelow, hread⟩ := Option.bind_eq_some_iff.mp hread
        cases hread
        rw [seen_element, seen_element, Node.element.injEq] at hview
        exact ⟨⟨head', hhead, hview.1⟩, children', hbelow, hview.2⟩
      · rintro ⟨⟨head', hhead, hview⟩, children', hbelow, hview'⟩
        refine ⟨.element head' children', ?_, ?_⟩
        · rw [hhead, hbelow]
          rfl
        · rw [seen_element, seen_element, hview, hview']

end Reading

/-! ## Texts that are only white space -/

mutual

/-- **A node without the texts below it that are only white space.** -/
def strip {ν : Type} : Node α ν → Node α ν
  | .element head children => .element head (stripAll children)
  | .text info text => .text info text

/-- The nodes that stay. -/
def stripAll {ν : Type} : List (Node α ν) → List (Node α ν)
  | [] => []
  | .element head children :: rest => strip (.element head children) :: stripAll rest
  | .text info text :: rest =>
      if isBlank text then stripAll rest else .text info text :: stripAll rest

end

/-- No text of a node is only white space. -/
def NoBlank {ν : Type} : Node α ν → Prop
  | .element _ children => ∀ c ∈ children, NoBlank c
  | .text _ text => isBlank text = false

/-- How many nodes there are. -/
def size {ν : Type} : Node α ν → ℕ
  | .element _ children => 1 + (children.map size).sum
  | .text _ _ => 1

/-- How many nodes a message has. -/
def PbXmlNode.size {π : Type} : PbXmlNode π → ℕ
  | .element _ _ child => 1 + (child.map size).sum
  | .text _ _ => 1
  | .notSet _ => 1

section Stripping

variable {ν : Type}

/-- The texts of an element are below it. -/
theorem noBlank_element (head : ElementHead α ν) (children : List (Node α ν)) :
    NoBlank (.element head children) ↔ ∀ c ∈ children, NoBlank c := by
  rw [NoBlank]

/-- The nodes of an element are itself and those below it. -/
theorem size_element (head : ElementHead α ν) (children : List (Node α ν)) :
    size (.element head children) = 1 + (children.map size).sum := by
  rw [size]

/-- A node is one at least. -/
theorem size_pos (node : Node α ν) : 0 < size node := by
  cases node with
  | element head children => rw [size_element]; omega
  | text info t => rw [size]; omega

/-- An element is stripped below. -/
theorem strip_element (head : ElementHead α ν) (children : List (Node α ν)) :
    strip (.element head children) = .element head (stripAll children) := by
  rw [strip]

/-- An element stays. -/
theorem stripAll_element (head : ElementHead α ν) (below rest : List (Node α ν)) :
    stripAll (.element head below :: rest) = strip (.element head below) :: stripAll rest := by
  rw [stripAll]

/-- A text that is only white space does not stay. -/
theorem stripAll_text_of_isBlank (info : NodeInfo) {text : Bytes} (rest : List (Node α ν))
    (h : isBlank text = true) : stripAll (.text info text :: rest) = stripAll rest := by
  rw [stripAll, if_pos h]

/-- Another text stays. -/
theorem stripAll_text_of_not_isBlank (info : NodeInfo) {text : Bytes} (rest : List (Node α ν))
    (h : isBlank text = false) :
    stripAll (.text info text :: rest) = .text info text :: stripAll rest := by
  rw [stripAll, if_neg (by simp [h])]

/-- **What stays is stripped.** -/
theorem mem_stripAll {c : Node α ν} {children : List (Node α ν)} (h : c ∈ stripAll children) :
    ∃ d ∈ children, c = strip d := by
  induction children with
  | nil => rw [stripAll] at h; exact absurd h List.not_mem_nil
  | cons d rest ih =>
      have hrest : c ∈ stripAll rest → ∃ e ∈ d :: rest, c = strip e := fun h => by
        obtain ⟨e, he, rfl⟩ := ih h
        exact ⟨e, List.mem_cons_of_mem d he, rfl⟩
      cases d with
      | element head below =>
          rw [stripAll_element] at h
          rcases List.mem_cons.mp h with rfl | h
          · exact ⟨_, List.mem_cons_self, rfl⟩
          · exact hrest h
      | text info t =>
          cases hblank : isBlank t with
          | true =>
              rw [stripAll_text_of_isBlank info rest hblank] at h
              exact hrest h
          | false =>
              rw [stripAll_text_of_not_isBlank info rest hblank] at h
              rcases List.mem_cons.mp h with rfl | h
              · exact ⟨_, List.mem_cons_self, by rw [strip]⟩
              · exact hrest h

/-- Where there is nothing to remove, stripping keeps the nodes. -/
theorem stripAll_eq_self {children : List (Node α ν)}
    (hstrip : ∀ c ∈ children, strip c = c) (hblank : ∀ c ∈ children, NoBlank c) :
    stripAll children = children := by
  induction children with
  | nil => rw [stripAll]
  | cons c rest ih =>
      obtain ⟨hc, hrest⟩ := List.forall_mem_cons.mp hstrip
      obtain ⟨hcblank, hrestblank⟩ := List.forall_mem_cons.mp hblank
      cases c with
      | element head below => rw [stripAll_element, hc, ih hrest hrestblank]
      | text info t =>
          rw [NoBlank] at hcblank
          rw [stripAll_text_of_not_isBlank info rest hcblank, ih hrest hrestblank]

/-- **A node without blank texts is not changed.** -/
theorem strip_eq_self {node : Node α ν} (h : NoBlank node) : strip node = node := by
  induction node using Node.ind with
  | text info t => rw [strip]
  | element head children ih =>
      rw [noBlank_element] at h
      rw [strip_element, stripAll_eq_self (fun c hc => ih c hc (h c hc)) h]

/-- No more nodes stay than there are. -/
theorem sum_size_stripAll_le (children : List (Node α ν))
    (h : ∀ c ∈ children, size (strip c) ≤ size c) :
    ((stripAll children).map size).sum ≤ (children.map size).sum := by
  induction children with
  | nil => rw [stripAll]
  | cons c rest ih =>
      obtain ⟨hc, hrest⟩ := List.forall_mem_cons.mp h
      have hsum := ih hrest
      rw [List.map_cons, List.sum_cons]
      cases c with
      | element head below =>
          rw [stripAll_element, List.map_cons, List.sum_cons]
          omega
      | text info t =>
          cases hblank : isBlank t with
          | true => rw [stripAll_text_of_isBlank info rest hblank]; omega
          | false =>
              rw [stripAll_text_of_not_isBlank info rest hblank, List.map_cons, List.sum_cons]
              omega

/-- Stripping adds no nodes. -/
theorem size_strip_le (node : Node α ν) : size (strip node) ≤ size node := by
  induction node using Node.ind with
  | text info t => rw [strip]
  | element head children ih =>
      have hsum := sum_size_stripAll_le _ ih
      rw [strip_element, size_element, size_element]
      omega

/-- Where a blank text is among the nodes or below one of them, fewer nodes stay. -/
theorem sum_size_stripAll_lt {children : List (Node α ν)}
    (hlt : ∀ head below, .element head below ∈ children → ¬ NoBlank (.element head below) →
      size (strip (.element head below)) < size (.element head below))
    (hblank : ¬ ∀ c ∈ children, NoBlank c) :
    ((stripAll children).map size).sum < (children.map size).sum := by
  induction children with
  | nil => exact absurd (fun c hc => absurd hc List.not_mem_nil) hblank
  | cons c rest ih =>
      have hle := sum_size_stripAll_le rest fun c _ => size_strip_le c
      have hcons : NoBlank c → ((stripAll rest).map size).sum < (rest.map size).sum := fun hc =>
        ih (fun head below hmem => hlt head below (List.mem_cons_of_mem c hmem))
          fun h => hblank (List.forall_mem_cons.mpr ⟨hc, h⟩)
      rw [List.map_cons, List.sum_cons]
      cases c with
      | element head below =>
          have hhead := size_strip_le (.element head below)
          rw [stripAll_element, List.map_cons, List.sum_cons]
          by_cases hc : NoBlank (.element head below)
          · have hrest := hcons hc
            omega
          · have hhere := hlt head below List.mem_cons_self hc
            omega
      | text info t =>
          have hpos := size_pos (.text info t : Node α ν)
          cases hb : isBlank t with
          | true => rw [stripAll_text_of_isBlank info rest hb]; omega
          | false =>
              have hrest := hcons (by rw [NoBlank]; exact hb)
              rw [stripAll_text_of_not_isBlank info rest hb, List.map_cons, List.sum_cons]
              omega

/-- **An element with a blank text below it loses a node.** -/
theorem size_strip_lt {node : Node α ν} :
    ∀ head below, node = .element head below → ¬ NoBlank node → size (strip node) < size node := by
  induction node using Node.ind with
  | text info t => rintro head below ⟨⟩
  | element head children ih =>
      rintro _ _ - hblank
      rw [noBlank_element] at hblank
      have hsum := sum_size_stripAll_lt
        (fun head' below hmem hc => ih _ hmem head' below rfl hc) hblank
      rw [strip_element, size_element, size_element]
      omega

end Stripping

/-- What is stripped fits where the node did. -/
theorem Fits.strip {node : Node α (CompiledItem ι)} (h : Fits code node) :
    Fits code (strip node) := by
  induction node using Node.ind with
  | text info t => rw [XmlProto.strip]; exact h
  | element head children ih =>
      rw [fits_element] at h
      rw [strip_element, fits_element]
      refine ⟨h.1, fun c hc => ?_⟩
      obtain ⟨d, hd, rfl⟩ := mem_stripAll hc
      exact ih d hd (h.2 d hd)

/-- The message of a node has as many nodes. -/
theorem size_serializeXmlToPb (node : Node α (CompiledItem ι)) :
    (serializeXmlToPb code {} node).size = size node := by
  induction node using Node.ind with
  | text info t => rw [serializeXmlToPb, PbXmlNode.size, size]
  | element head children ih =>
      have hmap : children.map (PbXmlNode.size ∘ serializeXmlToPb code {}) = children.map size :=
        List.map_congr_left ih
      rw [serializeXmlToPb, PbXmlNode.size, size_element, serializeChildren_eq, List.map_map, hmap]

/-- **An element is written as the stripped one** if and only if it has no blank text. -/
theorem serialize_strip_eq_iff (head : ElementHead α (CompiledItem ι))
    (below : List (Node α (CompiledItem ι))) :
    serializeXmlToPb code {} (.element head below)
        = serializeXmlToPb code {} (strip (.element head below))
      ↔ NoBlank (.element head below) := by
  refine ⟨fun h => ?_, fun h => by rw [strip_eq_self h]⟩
  by_contra hblank
  have hsize := congrArg PbXmlNode.size h
  rw [size_serializeXmlToPb, size_serializeXmlToPb] at hsize
  exact absurd hsize (size_strip_lt head below rfl hblank).ne'

/-- **The option removes every blank text** if and only if none is below a child: it is not
passed on to the children. -/
theorem serializeChildren_eq_iff (children : List (Node α (CompiledItem ι))) :
    serializeChildren code ⟨true⟩ children = serializeChildren code {} (stripAll children)
      ↔ ∀ head below, .element head below ∈ children → NoBlank (.element head below) := by
  induction children with
  | nil => exact iff_of_true (by rw [stripAll]; rfl) fun _ _ h => absurd h List.not_mem_nil
  | cons c rest ih =>
      cases c with
      | element head below =>
          rw [stripAll_element, serializeChildren, serializeChildren_eq, List.map_cons,
            ← serializeChildren_eq, List.cons.injEq, serialize_strip_eq_iff, ih]
          constructor
          · rintro ⟨hhead, hrest⟩ head' below' hmem
            rcases List.mem_cons.mp hmem with heq | hmem
            · rw [heq]
              exact hhead
            · exact hrest head' below' hmem
          · intro h
            exact ⟨h head below List.mem_cons_self, fun head' below' hmem =>
              h head' below' (List.mem_cons_of_mem _ hmem)⟩
      | text info t =>
          have hmem : ∀ head below, (.element head below : Node α (CompiledItem ι))
              ∈ .text info t :: rest ↔ .element head below ∈ rest := fun head below => by
            rw [List.mem_cons, or_iff_right (by rintro ⟨⟩)]
          simp only [hmem]
          rw [← ih, serializeChildren]
          cases hblank : isBlank t with
          | true => rw [stripAll_text_of_isBlank info rest hblank]; rfl
          | false =>
              rw [stripAll_text_of_not_isBlank info rest hblank, serializeChildren_eq,
                List.map_cons, ← serializeChildren_eq, Bool.and_false, if_neg Bool.false_ne_true,
                serializeXmlToPb, serializeXmlToPb, List.cons.injEq, and_iff_right rfl]

/-! ## Both together -/

variable [Inhabited α]

/-- **White space is removed at every level**, and what was written comes back. -/
def WhitespaceRemoved (el : Element α (CompiledItem ι)) : Prop :=
  serializeXmlToPb code ⟨true⟩ el.node = serializeXmlToPb code {} (strip el.node)
    ∧ (∃ node : Node α (CompiledItem ι),
        deserializeXmlFromPb code (serializeXmlToPb code ⟨true⟩ el.node) = some node
          ∧ seen node = seen (strip el.node))
    ∧ ∃ node : Node α (CompiledItem ι),
        deserializeXmlFromPb code (serializeXmlToPb code {} el.node) = some node
          ∧ seen node = seen el.node

/-- **White space is removed at every level** if and only if there is none below the children, and
what was written comes back if the message can hold it. -/
theorem whitespaceRemoved_iff (el : Element α (CompiledItem ι)) :
    WhitespaceRemoved code el
      ↔ (∀ head below, .element head below ∈ el.children → NoBlank (.element head below))
        ∧ Fits code el.node := by
  have hwrite : serializeXmlToPb code ⟨true⟩ el.node = serializeXmlToPb code {} (strip el.node)
      ↔ ∀ head below, .element head below ∈ el.children → NoBlank (.element head below) := by
    rw [← serializeChildren_eq_iff code, Element.node, strip_element, serializeXmlToPb,
      serializeXmlToPb, PbXmlNode.element.injEq, and_iff_right rfl, and_iff_right rfl]
  rw [WhitespaceRemoved, hwrite, deserialize_serialize_iff]
  constructor
  · rintro ⟨hblank, -, hfits⟩
    exact ⟨hblank, hfits⟩
  · rintro ⟨hblank, hfits⟩
    refine ⟨hblank, ?_, hfits⟩
    rw [hwrite.mpr hblank, deserialize_serialize_iff]
    exact hfits.strip

/-- The head of an element without attributes. -/
def plainHead (name : Bytes) : ElementHead Unit (CompiledItem Unit) where
  info := ⟨1, 1, []⟩
  namespaceDecls := []
  namespaceUri := []
  name
  attributes := []

/-- A blank text in an element of the root stays. -/
theorem not_whitespaceRemoved_nested :
    ¬ WhitespaceRemoved (⟨id, some⟩ : ItemCode Unit Unit)
      ⟨plainHead (bytes "a"), [.element (plainHead (bytes "b")) [.text ⟨1, 1, []⟩ (bytes " ")]]⟩ := by
  rintro ⟨h, -⟩
  rw [Element.node, strip_element, serializeXmlToPb, serializeXmlToPb, PbXmlNode.element.injEq,
    serializeChildren_eq_iff] at h
  have hchild := (noBlank_element _ _).mp (h.2.2 _ _ List.mem_cons_self) _ List.mem_cons_self
  rw [NoBlank] at hchild
  exact absurd hchild (by decide)

end AndroidSdk.Aapt2.XmlProto
