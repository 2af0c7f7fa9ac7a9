import AndroidSdk.Aapt2.ResourceModel

/-! # XML documents

The nodes of an XML document (`xml/XmlDom.h`), without their links to parents.

* **`Node`** — elements and texts; `Node.ind` is induction over them.
* **`Node.clone`**, **`Element.clone`** — `Clone` with a function that fills the new elements.
* **`Node.mapAttributes`** — a change of every element by itself; `Node.clone_eq` is what a clone
  is when the function does so. -/

namespace AndroidSdk.Aapt2.Xml

open Lib

/-! ## Nodes -/

/-- `NamespaceDecl`. -/
structure NamespaceDecl where
  nsPrefix : Bytes
  uri : Bytes
  lineNumber : ℕ
  columnNumber : ℕ
  deriving DecidableEq

/-- `AaptAttribute`: the definition of an attribute, and its identifier if it has one. -/
structure AaptAttribute (α : Type) where
  attr : α
  id : Option ResourceId
  deriving DecidableEq

/-- `xml::Attribute`. -/
structure Attribute (α ν : Type) where
  namespaceUri : Bytes
  name : Bytes
  value : Bytes
  compiledAttribute : Option (AaptAttribute α)
  compiledValue : Option ν
  deriving DecidableEq

/-- What elements and texts have in common. -/
structure NodeInfo where
  lineNumber : ℕ
  columnNumber : ℕ
  comment : Bytes
  deriving DecidableEq

/-- An element without its children. -/
structure ElementHead (α ν : Type) where
  info : NodeInfo
  namespaceDecls : List NamespaceDecl
  namespaceUri : Bytes
  name : Bytes
  attributes : List (Attribute α ν)
  deriving DecidableEq

/-- A node. -/
inductive Node (α ν : Type) where
  | element (head : ElementHead α ν) (children : List (Node α ν))
  | text (info : NodeInfo) (text : Bytes)

/-- `xml::Element`. -/
structure Element (α ν : Type) where
  head : ElementHead α ν
  children : List (Node α ν)

/-- `kSchemaTools`. -/
def kSchemaTools : Bytes := bytes "http://schemas.android.com/tools"

/-- `kSchemaAndroid`. -/
def kSchemaAndroid : Bytes := bytes "http://schemas.android.com/apk/res/android"

variable {α ν ε σ : Type}

/-- The element as a node. -/
def Element.node (el : Element α ν) : Node α ν := .element el.head el.children

/-- The identifier of an attribute, if it is compiled and has one. -/
def Attribute.resourceId? (attr : Attribute α ν) : Option ResourceId :=
  attr.compiledAttribute.bind AaptAttribute.id

/-- `FindAttribute`: whether the attribute has the namespace and the name. -/
def Attribute.named (ns name : Bytes) (attr : Attribute α ν) : Bool :=
  ns = attr.namespaceUri ∧ name = attr.name

/-- **Induction over nodes**, with the statement for all children. -/
theorem Node.ind {motive : Node α ν → Prop}
    (element : ∀ head children, (∀ c ∈ children, motive c) → motive (.element head children))
    (text : ∀ info t, motive (.text info t)) (node : Node α ν) : motive node := by
  match node with
  | .element head children => exact element head children fun c hc => ind element text c
  | .text info t => exact text info t
termination_by sizeOf node
decreasing_by
  have hlt := List.sizeOf_lt_of_mem hc
  simp only [Node.element.sizeOf_spec]
  omega

/-- The elements of a node, each before those below it. -/
def Node.heads : Node α ν → List (ElementHead α ν)
  | .element head children => head :: children.flatMap heads
  | .text _ _ => []

@[simp] theorem Node.heads_element (head : ElementHead α ν) (children : List (Node α ν)) :
    heads (.element head children) = head :: children.flatMap heads := by
  rw [heads]

@[simp] theorem Node.heads_text (info : NodeInfo) (t : Bytes) :
    heads (.text info t : Node α ν) = [] := by
  rw [heads]

/-! ## Clones -/

/-- `ElementCloneFunc`: fills the attributes of a new element, and carries a state along. -/
abbrev ElementCloneFunc (ε σ α ν : Type) :=
  ElementHead α ν → σ → Except ε (List (Attribute α ν) × σ)

mutual

/-- `Clone`. -/
def Node.clone (elCloner : ElementCloneFunc ε σ α ν) : Node α ν → σ → Except ε (Node α ν × σ)
  | .element head children, s => do
      let (attributes, s) ← elCloner head s
      let (children, s) ← Node.cloneAll elCloner children s
      return (.element { head with attributes } children, s)
  | .text info t, s => return (.text info t, s)

/-- The loop over the children. -/
def Node.cloneAll (elCloner : ElementCloneFunc ε σ α ν) :
    List (Node α ν) → σ → Except ε (List (Node α ν) × σ)
  | [], s => return ([], s)
  | child :: children, s => do
      let (child, s) ← Node.clone elCloner child s
      let (children, s) ← Node.cloneAll elCloner children s
      return (child :: children, s)

end

/-- `CloneElement`. -/
def Element.clone (elCloner : ElementCloneFunc ε σ α ν) (el : Element α ν) (s : σ) :
    Except ε (Element α ν × σ) := do
  let (attributes, s) ← elCloner el.head s
  let (children, s) ← Node.cloneAll elCloner el.children s
  return ({ head := { el.head with attributes }, children }, s)

/-- A node with other attributes, and everything else as it was. -/
def Node.mapAttributes (f : List (Attribute α ν) → List (Attribute α ν)) : Node α ν → Node α ν
  | .element head children =>
      .element { head with attributes := f head.attributes } (children.map (mapAttributes f))
  | .text info t => .text info t

@[simp] theorem Node.mapAttributes_element (f : List (Attribute α ν) → List (Attribute α ν))
    (head : ElementHead α ν) (children : List (Node α ν)) :
    mapAttributes f (.element head children)
      = .element { head with attributes := f head.attributes } (children.map (mapAttributes f)) := by
  rw [mapAttributes]

@[simp] theorem Node.mapAttributes_text (f : List (Attribute α ν) → List (Attribute α ν))
    (info : NodeInfo) (t : Bytes) : mapAttributes f (.text info t) = .text info t := by
  rw [mapAttributes]

/-- An element with other attributes. -/
def Element.mapAttributes (f : List (Attribute α ν) → List (Attribute α ν)) (el : Element α ν) :
    Element α ν where
  head := { el.head with attributes := f el.head.attributes }
  children := el.children.map (Node.mapAttributes f)

/-- The elements of an element, each before those below it. -/
def Element.heads (el : Element α ν) : List (ElementHead α ν) :=
  el.head :: el.children.flatMap Node.heads

section

variable {elCloner : ElementCloneFunc ε σ α ν} {f : List (Attribute α ν) → List (Attribute α ν)}
  {g : σ → ElementHead α ν → σ}

/-- A clone of the children, if each child is cloned so. -/
theorem Node.cloneAll_eq_of_forall {children : List (Node α ν)}
    (h : ∀ c ∈ children, ∀ s, c.clone elCloner s = .ok (c.mapAttributes f, c.heads.foldl g s))
    (s : σ) : Node.cloneAll elCloner children s
      = .ok (children.map (Node.mapAttributes f), (children.flatMap Node.heads).foldl g s) := by
  induction children generalizing s with
  | nil => rw [Node.cloneAll]; rfl
  | cons c children ih =>
      obtain ⟨hc, hrest⟩ := List.forall_mem_cons.mp h
      rw [Node.cloneAll, hc]
      show (Node.cloneAll elCloner children (c.heads.foldl g s) >>= _) = _
      rw [ih hrest, List.flatMap_cons, List.foldl_append]
      rfl

/-- **What a clone is**, if the function that fills the elements only looks at their attributes. -/
theorem Node.clone_eq (node : Node α ν)
    (h : ∀ head ∈ node.heads, ∀ s, elCloner head s = .ok (f head.attributes, g s head)) (s : σ) :
    node.clone elCloner s = .ok (node.mapAttributes f, node.heads.foldl g s) := by
  induction node using Node.ind generalizing s with
  | text info t =>
      rw [Node.clone, Node.mapAttributes_text, Node.heads_text]
      rfl
  | element head children ih =>
      rw [Node.heads_element] at h ⊢
      obtain ⟨hhead, hchildren⟩ := List.forall_mem_cons.mp h
      have hall := Node.cloneAll_eq_of_forall (fun c hc s => ih c hc
        (fun head hmem => hchildren head (List.mem_flatMap.mpr ⟨c, hc, hmem⟩)) s) (g s head)
      rw [Node.clone, hhead, Node.mapAttributes_element, List.foldl_cons]
      show (Node.cloneAll elCloner children (g s head) >>= _) = _
      rw [hall]
      rfl

/-- What a clone of an element is. -/
theorem Element.clone_eq (el : Element α ν)
    (h : ∀ head ∈ el.heads, ∀ s, elCloner head s = .ok (f head.attributes, g s head)) (s : σ) :
    el.clone elCloner s = .ok (el.mapAttributes f, el.heads.foldl g s) := by
  obtain ⟨hhead, hchildren⟩ := List.forall_mem_cons.mp h
  have hall := Node.cloneAll_eq_of_forall (fun c hc s => Node.clone_eq c
    (fun head hmem => hchildren head (List.mem_flatMap.mpr ⟨c, hc, hmem⟩)) s) (g s el.head)
  rw [Element.clone, hhead]
  show (Node.cloneAll elCloner el.children (g s el.head) >>= _) = _
  rw [hall]
  rfl

end

end AndroidSdk.Aapt2.Xml
