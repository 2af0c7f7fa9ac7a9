import AndroidSdk.Lib.Forest
import AndroidSdk.Aapt2.StringBuilder

/-! # Flattening the content of a string element

`ResourceParser::FlattenXmlSubtree` (`ResourceParser.cpp`): the events behind the start of a string
element are made into a tree of nodes, and the tree is built into a string with spans and
untranslatable sections.

* **`Event`** — the events of the parser, up to the first one that is not good.
* **`step`**, **`loop`** — the event loop, with its stack of nodes.
* **`build`** — `Build` of the nodes.
* **`flattenXmlSubtree`** — the function, which ends the program if a check fails.

A node is put into its parent when it is taken from the stack; the nodes of texts are numbered in the
order in which they are made, and their texts are kept apart. -/

namespace AndroidSdk.Aapt2.FlattenXml

open Lib

/-! ## Events and nodes -/

/-- A good event of `XmlPullParser`, with what is read of it. -/
inductive Event where
  | text (text : List Char)
  | startElement (nsUri name : List Char) (attributes : List (List Char × List Char))
  | endElement
  | other
  deriving DecidableEq

/-- The classes of nodes with children: `Node`, `SpanNode` and `UntranslatableNode`. -/
inductive NodeKind where
  | node
  | span (name : List Char)
  | untranslatable
  deriving DecidableEq

/-- Nodes with their children, of which the texts have a type of their own. -/
abbrev Nodes (α : Type) := Forest NodeKind α

/-- `sXliffNamespaceUri`. -/
def sXliffNamespaceUri : List Char := "urn:oasis:names:tc:xliff:document:1.2".toList

/-- The name of a span: that of the element, and its attributes. -/
def spanName (name : List Char) (attributes : List (List Char × List Char)) : List Char :=
  attributes.foldl (fun name attr => name ++ ';' :: attr.1 ++ '=' :: attr.2) name

/-- The node of an element: HTML tags are spans, and of the others only the `g` tag of XLIFF is not
ignored. -/
def nodeKind (nsUri name : List Char) (attributes : List (List Char × List Char)) : NodeKind :=
  if nsUri = [] then .span (spanName name attributes)
  else if nsUri = sXliffNamespaceUri then if name = ['g'] then .untranslatable else .node
  else .node

/-! ## The event loop -/

/-- The variables of the loop. The stack has its top first. -/
structure LoopState where
  rawString : List Char
  currentText : List Char
  untranslatableStartDepth : Option ℕ
  nodeStack : List (NodeKind × Nodes ℕ)
  segments : List (List Char)
  sawSpanNode : Bool
  firstSegment : Option ℕ
  lastSegment : Option ℕ
  depth : ℕ

namespace LoopState

/-- Before the first event. -/
def init : LoopState where
  rawString := []
  currentText := []
  untranslatableStartDepth := none
  nodeStack := [(.node, .nil)]
  segments := []
  sawSpanNode := false
  firstSegment := none
  lastSegment := none
  depth := 1

variable (s : LoopState)

/-- `AddChild` to the node on top of the stack. -/
def addChild (child : Nodes ℕ) : List (NodeKind × Nodes ℕ) :=
  match s.nodeStack with
  | [] => []
  | (kind, children) :: stack => (kind, children.append child) :: stack

/-- The segment that is made in front of a tag, if there is text. -/
def addSegment : LoopState :=
  if s.currentText = [] then s
  else
    let segment := s.segments.length
    { s with
      nodeStack := s.addChild (.leaf segment .nil)
      segments := s.segments ++ [s.currentText]
      lastSegment := some segment
      firstSegment := s.firstSegment.or (some segment)
      currentText := [] }

/-- A node for an element is put on the stack. -/
def push (kind : NodeKind) : LoopState :=
  { s with nodeStack := (kind, .nil) :: s.nodeStack, depth := s.depth + 1 }

/-- The node on top of the stack is complete. -/
def pop : LoopState :=
  match s.nodeStack with
  | (kind, children) :: (parent, siblings) :: stack =>
      { s with nodeStack := (parent, siblings.append (.element kind children .nil)) :: stack }
  | _ => { s with nodeStack := [] }

end LoopState

/-- The turn of the loop for a start tag; nothing if a `g` tag of XLIFF is nested in another. -/
def stepStart (s : LoopState) (kind : NodeKind) : Option LoopState :=
  match kind with
  | .span _ => some { s.push kind with sawSpanNode := true }
  | .untranslatable =>
      if s.untranslatableStartDepth.isSome then none
      else some { s.push kind with untranslatableStartDepth := some s.depth }
  | .node => some (s.push kind)

/-- The turn of the loop for an end tag. -/
def stepEnd (s : LoopState) : LoopState :=
  let s := { s with depth := s.depth - 1 }
  if s.depth = 0 then s
  else
    let s := s.pop
    if s.untranslatableStartDepth = some s.depth then { s with untranslatableStartDepth := none }
    else s

/-- One turn of the loop. -/
def step (s : LoopState) : Event → Option LoopState
  | .text text =>
      some { s with currentText := s.currentText ++ text, rawString := s.rawString ++ text }
  | .startElement nsUri name attributes => stepStart s.addSegment (nodeKind nsUri name attributes)
  | .endElement => some (stepEnd s.addSegment)
  | .other => some s

/-- **The event loop**, up to the end of the element or to an event that is not good. -/
def loop : LoopState → List Event → Option LoopState
  | s, [] => some s
  | s, e :: events =>
      match step s e with
      | none => none
      | some s => if s.depth = 0 then some s else loop s events

/-! ## Building -/

/-- `util::TrimLeadingWhitespace`. -/
def trimLeadingWhitespace (text : List Char) : List Char := text.dropWhile isspace

/-- `util::TrimTrailingWhitespace`. -/
def trimTrailingWhitespace (text : List Char) : List Char :=
  (text.reverse.dropWhile isspace).reverse

/-- The texts of the segments after the loop: if there were no spans, the first and the last one are
stripped. -/
def strippedSegments (s : LoopState) : List (List Char) :=
  if s.sawSpanNode then s.segments
  else
    let segments := match s.firstSegment with
      | some i => s.segments.modify i trimLeadingWhitespace
      | none => s.segments
    match s.lastSegment with
    | some i => segments.modify i trimTrailingWhitespace
    | none => segments

/-- **`Build`** of nodes one after another. -/
def build : Nodes (List Char) → StringBuilder → StringBuilder
  | .nil, b => b
  | .leaf data rest, b => build rest (b.appendText data)
  | .element .node children rest, b => build rest (build children b)
  | .element (.span name) children rest, b =>
      let r := b.startSpan name
      build rest ((build children r.1).endSpan r.2)
  | .element .untranslatable children rest, b =>
      let r := b.startUntranslatable
      build rest ((build children r.1).endUntranslatable r.2)

/-- How the function ends: a check fails, it returns false, or it returns true with the raw and the
flattened string. -/
inductive Outcome where
  | abort
  | failed
  | flattened (rawString : List Char) (out : FlattenedXmlString)
  deriving DecidableEq

/-- **`FlattenXmlSubtree`**, for the good events behind the start of the element. If the last of them
does not end the element, the next event is a bad document. -/
def flattenXmlSubtree (events : List Event) : Outcome :=
  match loop .init events with
  | none => .failed
  | some s =>
      -- the only node on a stack of size 1 is the root
      match s.nodeStack with
      | [(_, root)] =>
          let data := strippedSegments s
          let builder := build (root.map fun i => data.getD i []) (.new false)
          if builder.error.isSome then .failed else .flattened s.rawString builder.xmlString
      | _ => .abort

end AndroidSdk.Aapt2.FlattenXml
