import AndroidSdk.Lib.Run
import AndroidSdk.Lib.Sorting
import AndroidSdk.Aapt2.ResourceModel

/-! # The values of resources and their copies

The subclasses of `Value` with all their members (`ResourceValues.h`), `Equals` of each, and the
transformer that copies a value into another string pool (`ResourceValues.cpp`). Some subclasses are
copied as a whole; of the others the copy is built anew, and `CopyValueFields` takes over some of the
members of `Value`.

* **`Pool.makeRef`**, **`Pool.makeStyleRef`** — references to the strings of another pool.
* **`Item`**, **`Value`** — the subclasses; the items are those that others hold.
* **`Value.equals`** — `Equals`; the entries of styles and attributes are compared in the order of
  their names.
* **`Value.transform`** — `CloningValueTransformer`.
* **`equals_transform`** — a copy is equal to its value.
* **`isCopy_transform_iff`** — when it also has the same members of `Value` everywhere. -/

namespace AndroidSdk.Aapt2.Values

open Lib SplitSelect

/-! ## String pools -/

/-- `StringPool::Context`. -/
structure Context where
  priority : BitVec 32
  config : ResTableConfig
  deriving DecidableEq

/-- The default `Context`, with `kNormalPriority`. -/
def Context.default : Context := ⟨0x7fffffff, ResTableConfig.defaultConfig⟩

/-- `StringPool::Ref`: the string that it leads to, and the pool that owns it. -/
structure Ref where
  pool : ℕ
  value : Bytes
  context : Context
  deriving DecidableEq

/-- `StringPool::Span`. -/
structure Span where
  name : Ref
  firstChar : UInt32
  lastChar : UInt32
  deriving DecidableEq

/-- `StringPool::StyleRef`: the styled string that it leads to. -/
structure StyleRef where
  value : Bytes
  context : Context
  spans : List Span
  deriving DecidableEq

/-- `StringPool`. -/
structure Pool where
  id : ℕ
  strings : List Ref
  styles : List StyleRef

namespace Pool

/-- `MakeRefImpl` for a unique string. -/
def makeRefImpl (pool : Pool) (str : Bytes) (context : Context) : Pool × Ref :=
  match pool.strings.find? fun e => e.value = str ∧ e.context.priority = context.priority with
  | some e => (pool, e)
  | none =>
      let e : Ref := ⟨pool.id, str, context⟩
      ({ pool with strings := pool.strings ++ [e] }, e)

/-- `MakeRef` of a reference. -/
def makeRef (pool : Pool) (ref : Ref) : Pool × Ref :=
  if ref.pool = pool.id then (pool, ref) else pool.makeRefImpl ref.value ref.context

/-- What `MakeRef` of a styled string does with a span. -/
def makeSpan (pool : Pool) (span : Span) : Pool × Span :=
  let name := pool.makeRefImpl span.name.value .default
  (name.1, { span with name := name.2 })

/-- `MakeRef` of a styled string, which is never reused. -/
def makeStyleRef (pool : Pool) (ref : StyleRef) : Pool × StyleRef :=
  let spans := mapAccum makeSpan pool ref.spans
  let e : StyleRef := { ref with spans := spans.2 }
  ({ spans.1 with styles := spans.1.styles ++ [e] }, e)

/-- The reference leads to the string. -/
@[simp]
theorem value_makeRefImpl (pool : Pool) (str : Bytes) (context : Context) :
    (pool.makeRefImpl str context).2.value = str := by
  rw [makeRefImpl]
  split
  next e he =>
      have hentry := List.find?_some he
      rw [decide_eq_true_iff] at hentry
      exact hentry.1
  next => rfl

/-- The reference leads to the same string. -/
@[simp]
theorem value_makeRef (pool : Pool) (ref : Ref) : (pool.makeRef ref).2.value = ref.value := by
  rw [makeRef]
  split_ifs
  · rfl
  · exact value_makeRefImpl pool ref.value ref.context

end Pool

/-! ## Subclasses of `Value` -/

/-- `Source`. -/
structure Source where
  path : Bytes
  line : Option ℕ
  archive : Option Bytes
  deriving DecidableEq

/-- The members of `Value`. -/
structure Metadata where
  source : Source
  comment : Bytes
  weak : Bool
  translatable : Bool
  flag : Option FeatureFlagAttribute
  flagStatus : FlagStatus
  deriving DecidableEq

/-- The members of a new value. -/
def Metadata.default : Metadata := ⟨⟨[], none, none⟩, [], false, true, none, .noFlag⟩

/-- `Reference::Type`. -/
inductive ReferenceType where
  | kResource | kAttribute
  deriving DecidableEq

/-- `Reference`. -/
structure Reference where
  name : Option ResourceName
  id : Option ResourceId
  typeFlags : Option UInt32
  referenceType : ReferenceType
  privateReference : Bool
  isDynamic : Bool
  allowRaw : Bool
  metadata : Metadata
  deriving DecidableEq

/-- `UntranslatableSection`. -/
structure UntranslatableSection where
  start : ℕ
  last : ℕ
  deriving DecidableEq

/-- `ResourceFile::Type`. -/
inductive FileType where
  | kUnknown | kPng | kBinaryXml | kProtoXml
  deriving DecidableEq

/-- The subclasses of `Item`. -/
inductive Item where
  | reference (value : Reference)
  | id (metadata : Metadata)
  | rawString (value : Ref) (metadata : Metadata)
  | string (value : Ref) (sections : List UntranslatableSection) (metadata : Metadata)
  | styledString (value : StyleRef) (sections : List UntranslatableSection) (metadata : Metadata)
  | fileReference (path : Ref) (file : Option ℕ) (type : FileType) (metadata : Metadata)
  | binaryPrimitive (dataType : UInt8) (data : UInt32) (metadata : Metadata)
  deriving DecidableEq

/-- `Attribute::Symbol`. -/
structure AttributeSymbol where
  symbol : Reference
  value : UInt32
  type : UInt8
  deriving DecidableEq

/-- `Style::Entry`, with the values of the given type. -/
structure StyleEntry (ν : Type) where
  key : Reference
  value : ν
  deriving DecidableEq

/-- `Style`. -/
structure Style (ν : Type) where
  parent : Option Reference
  parentInferred : Bool
  entries : List (StyleEntry ν)
  metadata : Metadata
  deriving DecidableEq

/-- `Span` of a `StyleString`. -/
structure StringSpan where
  name : Bytes
  firstChar : UInt32
  lastChar : UInt32
  deriving DecidableEq

/-- `StyleString`. -/
structure StyleString where
  str : Bytes
  spans : List StringSpan
  deriving DecidableEq

/-- `Macro::Namespace`. -/
structure MacroNamespace where
  aliasName : Bytes
  packageName : Bytes
  isPrivate : Bool
  deriving DecidableEq

/-- The subclasses of `Value`. The values of a plural are one for each quantity, or null. -/
inductive Value where
  | item (value : Item)
  | attr (typeMask : UInt32) (minInt maxInt : Int32) (symbols : List AttributeSymbol)
      (metadata : Metadata)
  | style (value : Style Item)
  | array (elements : List Item) (metadata : Metadata)
  | plural (values : List (Option Item)) (metadata : Metadata)
  | styleable (entries : List Reference) (metadata : Metadata)
  | kMacro (rawValue : Bytes) (styleString : StyleString) (sections : List UntranslatableSection)
      (aliasNamespaces : List MacroNamespace) (metadata : Metadata)
  deriving DecidableEq

/-! ## Names -/

/-- `ResourceName::compare`; a name that is missing comes first. -/
instance : Ord ResourceName where
  compare :=
    compareLex (compareOn ResourceName.package) <|
    compareLex (fun a b => a.type.compare b.type)
      (compareOn ResourceName.entry)

instance : Std.TransOrd ResourceName := by
  have : Std.TransCmp fun a b : ResourceName => a.type.compare b.type :=
    { eq_swap := Std.OrientedCmp.eq_swap, isLE_trans := Std.TransCmp.isLE_trans }
  exact inferInstanceAs (Std.TransCmp (compareLex (compareOn ResourceName.package)
    (compareLex (fun a b => a.type.compare b.type) (compareOn ResourceName.entry))))

instance : Std.LawfulEqOrd ResourceName where
  compare_self := Std.ReflCmp.compare_self
  eq_of_compare {a b} h := by
    have hpackage : compare a.package b.package = .eq ↔ a.package = b.package :=
      Std.LawfulEqCmp.compare_eq_iff_eq
    have hentry : compare a.entry b.entry = .eq ↔ a.entry = b.entry :=
      Std.LawfulEqCmp.compare_eq_iff_eq
    replace h : compareLex (compareOn ResourceName.package) (compareLex
      (fun a b => a.type.compare b.type) (compareOn ResourceName.entry)) a b = .eq := h
    rw [compareLex_eq_eq, compareLex_eq_eq, compareOn, compareOn, hpackage, hentry,
      ResourceNamedType.compare_eq_iff] at h
    obtain ⟨hp, ht, he⟩ := h
    cases a
    cases b
    simp_all

/-! ## `Equals` -/

/-- `Ref::operator==`. -/
def Ref.equals (a b : Ref) : Bool := a.value = b.value

/-- `std::equal`, of lists that have been found to be of one length. -/
def allEqual {α : Type} (equals : α → α → Bool) (l m : List α) : Bool :=
  (l.zip m).all fun p => equals p.1 p.2

/-- `StyleRef::operator==`. -/
def StyleRef.equals (a b : StyleRef) : Bool :=
  a.value = b.value && a.spans.length = b.spans.length
    && allEqual (fun s t => s.firstChar = t.firstChar && s.lastChar = t.lastChar
      && s.name.equals t.name) a.spans b.spans

/-- `Reference::Equals`. -/
def Reference.equals (a b : Reference) : Bool :=
  a.referenceType = b.referenceType && a.privateReference = b.privateReference && a.id = b.id
    && a.name = b.name && a.typeFlags = b.typeFlags

/-- `Equals` of the subclasses of `Item`. -/
def Item.equals : Item → Item → Bool
  | .reference a, .reference b => a.equals b
  | .id _, .id _ => true
  | .rawString a _, .rawString b _ => a.equals b
  | .string a s _, .string b t _ => a.equals b && s = t
  | .styledString a s _, .styledString b t _ => a.equals b && s = t
  | .fileReference a _ _ _, .fileReference b _ _ _ => a.equals b
  | .binaryPrimitive a x _, .binaryPrimitive b y _ => a = b && x = y
  | _, _ => false

/-- The positions of the items of a vector in the order of their names: the sorted vector of
pointers to them. -/
def sortedByName {α : Type} (std : StdSort) (name : α → Option ResourceName) (l : List α) : List ℕ :=
  std.sort (fun i j => compare (l[i]?.bind name) (l[j]?.bind name) = .lt) (List.range l.length)

/-- Vectors of one length are compared item by item, in the order of the names. -/
def equalsByName {α : Type} (std : StdSort) (name : α → Option ResourceName)
    (equals : α → α → Bool) (l m : List α) : Bool :=
  ((sortedByName std name l).zip (sortedByName std name m)).all fun p =>
    match l[p.1]?, m[p.2]? with
    | some a, some b => equals a b
    | _, _ => false

/-- `Style::Equals`. -/
def Style.equals {ν : Type} (std : StdSort) (equals : ν → ν → Bool) (a b : Style ν) : Bool :=
  (match a.parent, b.parent with
    | none, none => true
    | some p, some q => p.equals q
    | _, _ => false)
    && a.entries.length = b.entries.length
    && equalsByName std (fun e => e.key.name)
      (fun d e => d.key.equals e.key && equals d.value e.value) a.entries b.entries

/-- The comparison of two values of a plural. -/
def equalsOrNull : Option Item → Option Item → Bool
  | some a, some b => a.equals b
  | none, none => true
  | _, _ => false

/-- `Equals` of the subclasses of `Value`. -/
def Value.equals (std : StdSort) : Value → Value → Bool
  | .item a, .item b => a.equals b
  | .attr mask lo hi symbols _, .attr mask' lo' hi' symbols' _ =>
      symbols.length = symbols'.length && mask = mask' && lo = lo' && hi = hi'
        && equalsByName std (fun s => s.symbol.name)
          (fun s t => s.symbol.equals t.symbol && s.value = t.value) symbols symbols'
  | .style a, .style b => a.equals std Item.equals b
  | .array l _, .array m _ => l.length = m.length && allEqual Item.equals l m
  | .plural l _, .plural m _ => allEqual equalsOrNull l m
  | .styleable l _, .styleable m _ => l.length = m.length && allEqual Reference.equals l m
  | .kMacro raw str sections spaces _, .kMacro raw' str' sections' spaces' _ =>
      raw = raw' && str.spans = str'.spans && str.str = str'.str && sections = sections'
        && spaces = spaces'
  | _, _ => false

/-! ## Copies -/

/-- `CopyValueFields`. -/
def copyValueFields (new old : Metadata) : Metadata :=
  { new with
    source := old.source
    comment := old.comment
    flag := old.flag
    flagStatus := old.flagStatus }

/-- `TransformDerived` of the subclasses of `Item`. -/
def Item.transform (pool : Pool) : Item → Pool × Item
  | .reference value => (pool, .reference value)
  | .id metadata => (pool, .id metadata)
  | .rawString value metadata =>
      let ref := pool.makeRef value
      (ref.1, .rawString ref.2 (copyValueFields .default metadata))
  | .string value sections metadata =>
      let ref := pool.makeRef value
      (ref.1, .string ref.2 sections (copyValueFields .default metadata))
  | .styledString value sections metadata =>
      let ref := pool.makeStyleRef value
      (ref.1, .styledString ref.2 sections (copyValueFields .default metadata))
  | .fileReference path file type metadata =>
      let ref := pool.makeRef path
      (ref.1, .fileReference ref.2 file type (copyValueFields .default metadata))
  | .binaryPrimitive dataType data metadata => (pool, .binaryPrimitive dataType data metadata)

/-- `TransformDerived` of `Reference`, which is copied. -/
def Reference.transform (value : Reference) : Reference := value

/-- `TransformDerived` of `Style`, with what is done with the values of its entries. -/
def Style.transform {ν : Type} (transform : Pool → ν → Pool × ν) (pool : Pool) (style : Style ν) :
    Pool × Style ν :=
  let entries := mapAccum (fun pool (entry : StyleEntry ν) =>
    let value := transform pool entry.value
    (value.1, { entry with value := value.2 })) pool style.entries
  (entries.1, { style with
    entries := entries.2
    metadata := copyValueFields .default style.metadata })

/-- The copy of a value of a plural. -/
def transformOrNull (pool : Pool) : Option Item → Pool × Option Item
  | none => (pool, none)
  | some item =>
      let item := item.transform pool
      (item.1, some item.2)

/-- `TransformDerived` of the subclasses of `Value`: the pool and the copy. -/
def Value.transform (pool : Pool) : Value → Pool × Value
  | .item value =>
      let value := value.transform pool
      (value.1, .item value.2)
  | .attr typeMask minInt maxInt symbols metadata =>
      (pool, .attr typeMask minInt maxInt
        (symbols.map fun s => { s with symbol := s.symbol.transform })
        (copyValueFields .default metadata))
  | .style value =>
      let value := value.transform Item.transform pool
      (value.1, .style value.2)
  | .array elements metadata =>
      let elements := mapAccum Item.transform pool elements
      (elements.1, .array elements.2 (copyValueFields .default metadata))
  | .plural values metadata =>
      let values := mapAccum transformOrNull pool values
      (values.1, .plural values.2 (copyValueFields .default metadata))
  | .styleable entries metadata =>
      (pool, .styleable (entries.map Reference.transform) (copyValueFields .default metadata))
  | .kMacro rawValue styleString sections aliasNamespaces metadata =>
      -- the macro is copied as a whole first
      (pool, .kMacro rawValue styleString sections aliasNamespaces
        (copyValueFields metadata metadata))

/-! ## A copy is equal to its value -/

/-- Items that are equal place by place are equal as vectors. -/
theorem allEqual_of_forall₂ {α : Type} {equals : α → α → Bool} {l m : List α}
    (h : List.Forall₂ (fun a b => equals a b = true) l m) : allEqual equals l m = true := by
  induction h with
  | nil => rfl
  | cons hab _ ih =>
      rw [allEqual, List.zip_cons_cons, List.all_cons, hab, Bool.true_and]
      exact ih

/-- Vectors with the same names in the same places, whose items are equal place by place, are equal
in the order of their names. -/
theorem equalsByName_of_forall₂ {α : Type} (std : StdSort) {name : α → Option ResourceName}
    {equals : α → α → Bool} {l m : List α}
    (h : List.Forall₂ (fun a b => name a = name b ∧ equals a b = true) l m) :
    equalsByName std name equals l m = true := by
  have hat : ∀ i : ℕ, (l[i]?.bind name) = m[i]?.bind name
      ∧ ∀ a, l[i]? = some a → ∃ b, m[i]? = some b ∧ equals a b = true := by
    induction h with
    | nil => exact fun i => ⟨rfl, fun a ha => nomatch ha⟩
    | cons hab _ ih =>
        intro i
        cases i with
        | zero => exact ⟨hab.1, fun a ha => ⟨_, rfl, by cases ha; exact hab.2⟩⟩
        | succ i => exact ih i
  -- the two vectors of pointers are sorted alike
  have hsorted : sortedByName std name l = sortedByName std name m := by
    rw [sortedByName, sortedByName, h.length_eq]
    simp only [(hat _).1]
  have hperm : (sortedByName std name m).Perm (List.range m.length) :=
    std.perm (strictWeakOn_of_compare fun i _ j _ => decide_eq_true_iff)
  rw [equalsByName, hsorted, List.zip_eq_zipWith, List.zipWith_self, List.all_map, List.all_eq_true]
  intro i hi
  have hlt : i < l.length := by
    rw [h.length_eq]
    exact List.mem_range.mp (hperm.mem_iff.mp hi)
  obtain ⟨b, hb, hequal⟩ := (hat i).2 l[i] (List.getElem?_eq_getElem hlt)
  simp [hb, hlt, hequal]

/-- A reference to a string is equal to one that leads to the same string. -/
theorem Ref.equals_of_value_eq {a b : Ref} (h : a.value = b.value) : a.equals b = true :=
  decide_eq_true h

/-- A reference is equal to itself. -/
@[simp]
theorem Reference.equals_self (a : Reference) : a.equals a = true := by simp [Reference.equals]

/-- A styled string of another pool is equal. -/
theorem StyleRef.equals_makeStyleRef (pool : Pool) (ref : StyleRef) :
    (pool.makeStyleRef ref).2.equals ref = true := by
  have hspans : List.Forall₂ (fun s t : Span => s.name.value = t.name.value
      ∧ s.firstChar = t.firstChar ∧ s.lastChar = t.lastChar)
      (mapAccum Pool.makeSpan pool ref.spans).2 ref.spans :=
    forall₂_mapAccum (fun pool span => ⟨Pool.value_makeRefImpl _ _ _, rfl, rfl⟩) pool ref.spans
  have hall := allEqual_of_forall₂ (hspans.imp fun s t h => show
    (decide (s.firstChar = t.firstChar) && decide (s.lastChar = t.lastChar)
      && s.name.equals t.name) = true by
    simp [h.2.1, h.2.2, Ref.equals_of_value_eq h.1])
  simp only [StyleRef.equals, Pool.makeStyleRef, hspans.length_eq, hall, decide_true,
    Bool.and_self]

/-- The copy of an item is equal to it. -/
theorem Item.equals_transform (pool : Pool) (item : Item) :
    (item.transform pool).2.equals item = true := by
  cases item with
  | reference value => exact value.equals_self
  | id metadata => rfl
  | rawString value metadata => exact Ref.equals_of_value_eq (pool.value_makeRef value)
  | string value sections metadata =>
      simp [transform, equals, Ref.equals_of_value_eq (pool.value_makeRef value)]
  | styledString value sections metadata =>
      simp [transform, equals, StyleRef.equals_makeStyleRef]
  | fileReference path file type metadata => exact Ref.equals_of_value_eq (pool.value_makeRef path)
  | binaryPrimitive dataType data metadata => simp [transform, equals]

/-- The copy of a style is equal to it if the copies of its values are. -/
theorem Style.equals_transform {ν : Type} (std : StdSort) {equals : ν → ν → Bool}
    {transform : Pool → ν → Pool × ν} (h : ∀ pool v, equals (transform pool v).2 v = true)
    (pool : Pool) (style : Style ν) :
    (style.transform transform pool).2.equals std equals style = true := by
  have hentries : List.Forall₂ (fun d e : StyleEntry ν => d.key = e.key
      ∧ equals d.value e.value = true) (style.transform transform pool).2.entries style.entries :=
    forall₂_mapAccum (fun pool entry => ⟨rfl, h pool entry.value⟩) pool style.entries
  have hbyName : equalsByName std (fun e : StyleEntry ν => e.key.name)
      (fun d e => d.key.equals e.key && equals d.value e.value)
      (style.transform transform pool).2.entries style.entries = true :=
    equalsByName_of_forall₂ std (hentries.imp fun d e h => ⟨by rw [h.1], by simp [h.1, h.2]⟩)
  have hparent : (style.transform transform pool).2.parent = style.parent := rfl
  rw [Style.equals, hentries.length_eq, hbyName, hparent]
  cases style.parent with
  | none => simp
  | some parent => simp

/-- **A copy is equal to its value.** -/
theorem Value.equals_transform (std : StdSort) (pool : Pool) (v : Value) :
    (v.transform pool).2.equals std v = true := by
  cases v with
  | item value => exact value.equals_transform pool
  | attr typeMask minInt maxInt symbols metadata =>
      have hsymbols : List.Forall₂ (fun s t : AttributeSymbol => s.symbol.name = t.symbol.name
          ∧ (s.symbol.equals t.symbol && decide (s.value = t.value)) = true)
          (symbols.map fun s => { s with symbol := s.symbol.transform }) symbols :=
        List.forall₂_map_left_iff.mpr (List.forall₂_same.mpr fun s _ => ⟨rfl, by
          simp [Reference.transform]⟩)
      simp [transform, equals, equalsByName_of_forall₂ std hsymbols]
  | style value => exact Style.equals_transform std Item.equals_transform pool value
  | array elements metadata =>
      have helements : List.Forall₂ (fun a b => a.equals b = true)
          (mapAccum Item.transform pool elements).2 elements :=
        forall₂_mapAccum Item.equals_transform pool elements
      simp [transform, equals, helements.length_eq, allEqual_of_forall₂ helements]
  | plural values metadata =>
      have hvalues : List.Forall₂ (fun a b => equalsOrNull a b = true)
          (mapAccum transformOrNull pool values).2 values := by
        refine forall₂_mapAccum (fun pool value => ?_) pool values
        cases value with
        | none => rfl
        | some item => exact item.equals_transform pool
      exact allEqual_of_forall₂ hvalues
  | styleable entries metadata =>
      have hentries : List.Forall₂ (fun a b => a.equals b = true)
          (entries.map Reference.transform) entries :=
        List.forall₂_map_left_iff.mpr (List.forall₂_same.mpr fun e _ => e.equals_self)
      simp [transform, equals, allEqual_of_forall₂ hentries]
  | kMacro rawValue styleString sections aliasNamespaces metadata => simp [transform, equals]

/-! ## What a copy keeps of the members of `Value` -/

/-- The members of `Value` of an item. -/
def Item.metadata : Item → Metadata
  | .reference value => value.metadata
  | .id metadata | .rawString _ metadata | .string _ _ metadata | .styledString _ _ metadata
  | .fileReference _ _ _ metadata | .binaryPrimitive _ _ metadata => metadata

/-- The members of `Value`, of the value and of everything that it holds. -/
def Value.allMetadata : Value → List Metadata
  | .item value => [value.metadata]
  | .attr _ _ _ symbols metadata => metadata :: symbols.map fun s => s.symbol.metadata
  | .style value => value.metadata :: (value.parent.toList.map Reference.metadata
      ++ value.entries.flatMap fun e => [e.key.metadata, e.value.metadata])
  | .array elements metadata => metadata :: elements.map Item.metadata
  | .plural values metadata => metadata :: values.flatMap fun v => v.toList.map Item.metadata
  | .styleable entries metadata => metadata :: entries.map Reference.metadata
  | .kMacro _ _ _ _ metadata => [metadata]

/-- Those of an item whose copy is built anew. -/
def Item.rebuilt : Item → List Metadata
  | .reference _ | .id _ | .binaryPrimitive _ _ _ => []
  | .rawString _ metadata | .string _ _ metadata | .styledString _ _ metadata
  | .fileReference _ _ _ metadata => [metadata]

/-- Those of the parts of a value whose copies are built anew. -/
def Value.rebuilt : Value → List Metadata
  | .item value => value.rebuilt
  | .attr _ _ _ _ metadata => [metadata]
  | .style value => value.metadata :: value.entries.flatMap fun e => e.value.rebuilt
  | .array elements metadata => metadata :: elements.flatMap Item.rebuilt
  | .plural values metadata => metadata :: values.flatMap fun v => v.toList.flatMap Item.rebuilt
  | .styleable _ metadata => [metadata]
  | .kMacro _ _ _ _ _ => []

/-- A copy is equal to its value, and has the same members of `Value` everywhere. -/
def Value.IsCopy (std : StdSort) (copy v : Value) : Prop :=
  copy.equals std v = true ∧ copy.allMetadata = v.allMetadata

/-- The members that `CopyValueFields` does not take over have their defaults. -/
def Metadata.Plain (m : Metadata) : Prop := m.weak = false ∧ m.translatable = true

/-- A new value has the members of the old one iff the others have their defaults. -/
theorem copyValueFields_default_eq_iff (m : Metadata) :
    copyValueFields .default m = m ↔ m.Plain := by
  obtain ⟨source, comment, weak, translatable, flag, flagStatus⟩ := m
  simp [copyValueFields, Metadata.default, Metadata.Plain, eq_comm]

/-- What the copy of an item has of the members of `Value`. -/
def Item.copied : Item → Metadata
  | .reference value => value.metadata
  | .id metadata | .binaryPrimitive _ _ metadata => metadata
  | .rawString _ metadata | .string _ _ metadata | .styledString _ _ metadata
  | .fileReference _ _ _ metadata => copyValueFields .default metadata

/-- What the copy of an item has does not depend on the pool. -/
theorem Item.metadata_transform (pool : Pool) (item : Item) :
    (item.transform pool).2.metadata = item.copied := by
  cases item <;> rfl

/-- When the copy of an item has the members of `Value` that the item has. -/
theorem Item.copied_eq_iff (item : Item) :
    item.copied = item.metadata ↔ ∀ m ∈ item.rebuilt, m.Plain := by
  cases item <;> simp [copied, metadata, rebuilt, copyValueFields_default_eq_iff]

/-- **When a copy changes nothing but its pool**: all parts that are built anew have the default
weakness and translatability. -/
theorem Value.isCopy_transform_iff (std : StdSort) (pool : Pool) (v : Value) :
    (v.transform pool).2.IsCopy std v
      ↔ ∀ m ∈ v.rebuilt, m.weak = false ∧ m.translatable = true := by
  rw [IsCopy, and_iff_right (equals_transform std pool v)]
  show _ ↔ ∀ m ∈ v.rebuilt, m.Plain
  cases v with
  | item value =>
      simp only [transform, allMetadata, rebuilt, Item.metadata_transform, List.cons.injEq, and_true]
      exact value.copied_eq_iff
  | attr typeMask minInt maxInt symbols metadata =>
      simp [transform, allMetadata, rebuilt, Reference.transform, copyValueFields_default_eq_iff]
  | style value =>
      have hentries : (value.transform Item.transform pool).2.entries.flatMap
          (fun e => [e.key.metadata, e.value.metadata])
          = value.entries.flatMap fun e => [e.key.metadata, e.value.copied] :=
        flatMap_mapAccum (fun pool e => by simp [Item.metadata_transform]) pool value.entries
      have hparent : (value.transform Item.transform pool).2.parent = value.parent := rfl
      have hmetadata : (value.transform Item.transform pool).2.metadata
        = copyValueFields .default value.metadata := rfl
      simp only [transform, allMetadata, rebuilt, hentries, hparent, hmetadata, List.cons.injEq,
        List.append_cancel_left_eq, copyValueFields_default_eq_iff, List.forall_mem_cons,
        List.forall_mem_flatMap]
      rw [flatMap_eq_flatMap_iff (fun e => by simp)]
      simp only [List.cons.injEq, true_and, and_true, Item.copied_eq_iff]
  | array elements metadata =>
      simp only [transform, allMetadata, rebuilt, map_mapAccum Item.metadata_transform,
        List.cons.injEq, copyValueFields_default_eq_iff, List.forall_mem_cons, List.forall_mem_flatMap,
        List.map_inj_left, Item.copied_eq_iff]
  | plural values metadata =>
      have hvalues : (mapAccum transformOrNull pool values).2.flatMap
          (fun v => v.toList.map Item.metadata)
          = values.flatMap fun v => v.toList.map Item.copied := by
        refine flatMap_mapAccum (fun pool v => ?_) pool values
        cases v with
        | none => rfl
        | some item => exact congrArg (fun m => [m]) (item.metadata_transform pool)
      simp only [transform, allMetadata, rebuilt, hvalues, List.cons.injEq,
        copyValueFields_default_eq_iff, List.forall_mem_cons, List.forall_mem_flatMap]
      rw [flatMap_eq_flatMap_iff (fun v => by simp)]
      simp only [List.map_inj_left, Item.copied_eq_iff]
  | styleable entries metadata =>
      simp [transform, allMetadata, rebuilt, Reference.transform, copyValueFields_default_eq_iff]
  | kMacro rawValue styleString sections aliasNamespaces metadata =>
      simp [transform, allMetadata, rebuilt, copyValueFields]

/-- A string that must not be translated. -/
def sampleString : Value :=
  .item (.string ⟨1, [97], .default⟩ [] { Metadata.default with translatable := false })

/-- Its copy may be translated. -/
theorem not_isCopy_transform_sampleString :
    ¬ (sampleString.transform ⟨2, [], []⟩).2.IsCopy StdSort.insertion sampleString :=
  fun h => absurd h.2 (by decide)

end AndroidSdk.Aapt2.Values
