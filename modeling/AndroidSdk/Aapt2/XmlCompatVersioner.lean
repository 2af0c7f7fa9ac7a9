import AndroidSdk.Aapt2.AutoVersioner
import AndroidSdk.Aapt2.XmlDom

/-! # Versioning XML documents

`XmlCompatVersioner` makes copies of an XML document for later versions of the platform, without the
attributes that a version does not know (`link/XmlCompatVersioner.cpp`). Rules may degrade such an
attribute to others.

* **`copyAttribute`**, **`processRule`**, **`processDoc`**, **`process`** — the pass; rules may lead
  to rules without end, so `processRule` counts them.
* **`kept`** — the attributes that a copy without rules has.
* **`process_eq`** — what the pass returns without rules.
* **`process_serves_levels`** — devices of every level find the attributes that they know. -/

namespace AndroidSdk.Aapt2.XmlCompatVersioner

open Lib Xml

/-! ## Degrading -/

/-- `util::Range<ApiVersion>`; an `ApiVersion` is an `int`. -/
structure Range where
  start : ℤ
  stop : ℤ

/-- `XmlResource`: a document, with its configuration and the other data about its file. -/
structure XmlResource (φ α ν : Type) where
  config : SplitSelect.ResTableConfig
  file : φ
  root : Element α ν

/-- `IDegradeRule`: what `Degrade` returns for an attribute of an element. -/
abbrev DegradeRule (α ν : Type) := ElementHead α ν → Attribute α ν → List (Attribute α ν)

/-- `XmlCompatVersioner::Rules`. -/
abbrev Rules (α ν : Type) := ResourceId → Option (DegradeRule α ν)

/-- `ReplacementAttr`. -/
structure ReplacementAttr (α : Type) where
  name : Bytes
  id : ResourceId
  attr : α

/-- `DegradeToManyRule::Degrade`. -/
def degradeToMany {α ν : Type} (attrs : List (ReplacementAttr α)) : DegradeRule α ν :=
  fun _ srcAttr => attrs.map fun attr =>
    { namespaceUri := kSchemaAndroid, name := attr.name, value := srcAttr.value
      compiledAttribute := some ⟨attr.attr, some attr.id⟩, compiledValue := srcAttr.compiledValue }

/-- The ways in which the pass does not return. -/
inductive VersionerError where
  /-- `std::optional::value` on a compiled attribute without identifier. -/
  | badOptionalAccess
  /-- The rules lead to more rules than were counted. -/
  | outOfFuel
  deriving DecidableEq

section Pass

variable {φ α ν : Type}

/-- The loop of `CopyAttribute` over the attributes of the new element: the first one of the name
takes the values of a generated attribute. -/
def overwriteFirst (srcAttr : Attribute α ν) : List (Attribute α ν) → List (Attribute α ν)
  | [] => []
  | dstAttr :: rest =>
      if dstAttr.named srcAttr.namespaceUri srcAttr.name then
        { dstAttr with
          value := srcAttr.value
          compiledAttribute := srcAttr.compiledAttribute
          compiledValue := srcAttr.compiledValue.or dstAttr.compiledValue } :: rest
      else dstAttr :: overwriteFirst srcAttr rest

/-- `CopyAttribute`. -/
def copyAttribute (srcAttr : Attribute α ν) (generated : Bool) (dst : List (Attribute α ν)) :
    Bool × List (Attribute α ν) :=
  if dst.any (·.named srcAttr.namespaceUri srcAttr.name) then
    if generated then (true, overwriteFirst srcAttr dst) else (false, dst)
  else (true, dst ++ [srcAttr])

variable (findAttributeSdkLevel : ResourceId → ℤ) (rules : Rules α ν)

/-- `ProcessRule`, with the attributes of the new element and the versions that are referenced. -/
def processRule (srcEl : ElementHead α ν) (apiRange : Range) :
    ℕ → Attribute α ν → ℤ → Option (DegradeRule α ν) → Bool →
      List (Attribute α ν) × List ℤ →
        Except VersionerError (List (Attribute α ν) × List ℤ)
  | 0, _, _, _, _, _ => .error .outOfFuel
  | fuel + 1, srcAttr, srcAttrVersion, rule, generated, (dst, apis) =>
      -- The API is compatible, so don't check the rule and just copy.
      if srcAttrVersion ≤ apiRange.start then .ok ((copyAttribute srcAttr generated dst).2, apis)
      else
        let (dst, apis) :=
          if sdkLollipopMr1 ≤ apiRange.start then ((copyAttribute srcAttr generated dst).2, apis)
          else if srcAttrVersion < apiRange.stop then
            (dst, SortedVector.add compare (min srcAttrVersion sdkLollipopMr1) apis)
          else (dst, apis)
        match rule with
        | none => .ok (dst, apis)
        | some degrade =>
            (degrade srcEl srcAttr).foldlM
              (fun s attr =>
                match attr.resourceId? with
                | none => .error .badOptionalAccess
                | some attrResid =>
                    processRule srcEl apiRange fuel attr (findAttributeSdkLevel attrResid)
                      (rules attrResid) true s)
              (dst, apis)

/-- The body of the loop of `ProcessDoc` over the attributes of an element. -/
def processAttribute (fuel : ℕ) (apiRange : Range) (el : ElementHead α ν)
    (s : List (Attribute α ν) × List ℤ) (attr : Attribute α ν) :
    Except VersionerError (List (Attribute α ν) × List ℤ) :=
  match attr.compiledAttribute with
  -- Just copy if this isn't a compiled attribute.
  | none => .ok (s.1 ++ [attr], s.2)
  | some compiled =>
      match compiled.id with
      | none => .error .badOptionalAccess
      | some attrResid =>
          processRule findAttributeSdkLevel rules el apiRange fuel attr
            (findAttributeSdkLevel attrResid) (rules attrResid) false s

/-- `static_cast<uint16_t>`. -/
def toUInt16 (api : ℤ) : UInt16 := UInt16.ofNat (api % 65536).toNat

/-- `ProcessDoc`. -/
def processDoc (fuel : ℕ) (targetApi maxApi : ℤ) (doc : XmlResource φ α ν)
    (apisReferenced : List ℤ) :
    Except VersionerError (XmlResource φ α ν × List ℤ) := do
  let (root, apisReferenced) ← doc.root.clone
    (fun el apis => el.attributes.foldlM
      (processAttribute findAttributeSdkLevel rules fuel ⟨targetApi, maxApi⟩ el) ([], apis))
    apisReferenced
  return ({ doc with config := doc.config.withSdkVersion (toUInt16 targetApi), root },
    apisReferenced)

/-- The start of the range after this document and after `minSdkVersion`. -/
def adjustedStart (minSdkVersion : ℤ) (doc : XmlResource φ α ν) (apiRange : Range) :
    ℤ :=
  max (max apiRange.start minSdkVersion) doc.config.sdkVersion.toNat

/-- `Process`. -/
def process (fuel : ℕ) (minSdkVersion : ℤ) (doc : XmlResource φ α ν) (apiRange : Range) :
    Except VersionerError (List (XmlResource φ α ν)) := do
  let start := adjustedStart minSdkVersion doc apiRange
  let (first, apisReferenced) ←
    processDoc findAttributeSdkLevel rules fuel start apiRange.stop doc []
  let first := { first with config := first.config.withSdkVersion doc.config.sdkVersion }
  let others ← apisReferenced.mapM fun api => do
    let (cloned, _) ← processDoc findAttributeSdkLevel rules fuel api apiRange.stop doc []
    return cloned
  return first :: others

end Pass

/-! ## Copies without rules -/

section NoRules

variable {φ α ν : Type} (findAttributeSdkLevel : ResourceId → ℤ)

/-- No rules. -/
def noRules : Rules α ν := fun _ => none

/-- A document whose compiled attributes have identifiers, and in whose elements no two attributes
have the same namespace and name. -/
structure Versionable (root : Element α ν) : Prop where
  compiled : ∀ head ∈ root.heads, ∀ attr ∈ head.attributes, ∀ c,
    attr.compiledAttribute = some c → c.id ≠ none
  distinct : ∀ head ∈ root.heads, head.attributes.Pairwise fun a b =>
    ¬(a.namespaceUri = b.namespaceUri ∧ a.name = b.name)

/-- Whether a copy for a version has an attribute: it is not compiled, or the version knows it or
ignores those that it does not know. -/
def kept (target : ℤ) (attr : Attribute α ν) : Bool :=
  attr.compiledAttribute.all fun compiled =>
    compiled.id.any fun id => findAttributeSdkLevel id ≤ target ∨ sdkLollipopMr1 ≤ target

/-- The version for which an attribute needs a copy. -/
def referenced (apiRange : Range) (attr : Attribute α ν) : Option ℤ :=
  attr.resourceId?.bind fun id =>
    if apiRange.start < findAttributeSdkLevel id ∧ apiRange.start < sdkLollipopMr1
      ∧ findAttributeSdkLevel id < apiRange.stop then some (min (findAttributeSdkLevel id) sdkLollipopMr1)
    else none

/-- The versions that are referenced, after those of an element. -/
def referencedApis (apiRange : Range) (apis : List ℤ) (head : ElementHead α ν) :
    List ℤ :=
  head.attributes.foldl
    (fun apis attr =>
      (referenced findAttributeSdkLevel apiRange attr).elim apis (SortedVector.add compare · apis))
    apis

/-- One attribute, if the new element has none of its name. -/
theorem processAttribute_eq {fuel : ℕ} {apiRange : Range} {el : ElementHead α ν}
    {attr : Attribute α ν} {dst : List (Attribute α ν)} {apis : List ℤ}
    (hid : ∀ c, attr.compiledAttribute = some c → c.id ≠ none)
    (hnew : ∀ a ∈ dst, ¬(a.namespaceUri = attr.namespaceUri ∧ a.name = attr.name)) :
    processAttribute findAttributeSdkLevel noRules (fuel + 1) apiRange el (dst, apis) attr
      = .ok (dst ++ [attr].filter (kept findAttributeSdkLevel apiRange.start),
          (referenced findAttributeSdkLevel apiRange attr).elim apis
            (SortedVector.add compare · apis)) := by
  have hcopy : (copyAttribute attr false dst).2 = dst ++ [attr] := by
    have hnot : dst.any (·.named attr.namespaceUri attr.name) = false := by
      rw [List.any_eq_false]
      intro a ha hnamed
      rw [Attribute.named, decide_eq_true_eq] at hnamed
      exact hnew a ha ⟨hnamed.1.symm, hnamed.2.symm⟩
    rw [copyAttribute, hnot]
    rfl
  cases hcompiled : attr.compiledAttribute with
  | none =>
      have hkept : kept findAttributeSdkLevel apiRange.start attr = true := by
        rw [kept, hcompiled]
        rfl
      have hnone : referenced findAttributeSdkLevel apiRange attr = none := by
        rw [referenced, Attribute.resourceId?, hcompiled]
        rfl
      simp only [processAttribute, hcompiled]
      rw [List.filter_cons_of_pos hkept, List.filter_nil, hnone]
      rfl
  | some c =>
      cases hc : c.id with
      | none => exact absurd hc (hid c hcompiled)
      | some id =>
          have hid : attr.resourceId? = some id := by rw [Attribute.resourceId?, hcompiled]; exact hc
          have hkept : kept findAttributeSdkLevel apiRange.start attr = true ↔
              findAttributeSdkLevel id ≤ apiRange.start ∨ sdkLollipopMr1 ≤ apiRange.start := by
            rw [kept, hcompiled, Option.all_some, hc, Option.any_some, decide_eq_true_iff]
          simp only [processAttribute, hcompiled, hc]
          rw [processRule, referenced, hid, Option.bind_some, hcopy]
          by_cases hknown : findAttributeSdkLevel id ≤ apiRange.start
          · rw [if_pos hknown, List.filter_cons_of_pos (hkept.mpr (.inl hknown)),
              if_neg fun h => absurd h.1 (not_lt.mpr hknown)]
            rfl
          rw [if_neg hknown]
          by_cases hignored : sdkLollipopMr1 ≤ apiRange.start
          · rw [if_pos hignored, List.filter_cons_of_pos (hkept.mpr (.inr hignored)),
              if_neg fun h => absurd h.2.1 (not_lt.mpr hignored)]
            rfl
          -- the attribute is erased
          rw [if_neg hignored, List.filter_cons_of_neg fun h => (hkept.mp h).elim hknown hignored,
            List.filter_nil, List.append_nil]
          by_cases hroom : findAttributeSdkLevel id < apiRange.stop
          · rw [if_pos hroom, if_pos ⟨not_le.mp hknown, not_le.mp hignored, hroom⟩]
            rfl
          · rw [if_neg hroom, if_neg fun h => hroom h.2.2]
            rfl

/-- The loop over the attributes of an element. -/
theorem foldlM_processAttribute {fuel : ℕ} {apiRange : Range} {el : ElementHead α ν}
    {attrs dst : List (Attribute α ν)} {apis : List ℤ}
    (hid : ∀ attr ∈ attrs, ∀ c, attr.compiledAttribute = some c → c.id ≠ none)
    (hdistinct : (dst ++ attrs).Pairwise fun a b =>
      ¬(a.namespaceUri = b.namespaceUri ∧ a.name = b.name)) :
    attrs.foldlM (processAttribute findAttributeSdkLevel noRules (fuel + 1) apiRange el) (dst, apis)
      = .ok (dst ++ attrs.filter (kept findAttributeSdkLevel apiRange.start),
          attrs.foldl (fun apis attr => (referenced findAttributeSdkLevel apiRange attr).elim apis
            (SortedVector.add compare · apis)) apis) := by
  induction attrs generalizing dst apis with
  | nil =>
      rw [List.filter_nil, List.append_nil]
      rfl
  | cons attr attrs ih =>
      obtain ⟨hattr, hattrs⟩ := List.forall_mem_cons.mp hid
      obtain ⟨hdst, hrest, hbetween⟩ := List.pairwise_append.mp hdistinct
      obtain ⟨hfirst, hrest⟩ := List.pairwise_cons.mp hrest
      rw [List.foldlM_cons, processAttribute_eq findAttributeSdkLevel hattr
        fun a ha => hbetween a ha attr List.mem_cons_self]
      have hsub : ∀ a ∈ [attr].filter (kept findAttributeSdkLevel apiRange.start), a = attr :=
        fun a ha => List.mem_singleton.mp (List.mem_of_mem_filter ha)
      refine (ih hattrs ?_).trans ?_
      · refine List.pairwise_append.mpr ⟨List.pairwise_append.mpr ⟨hdst, ?_, ?_⟩, hrest, ?_⟩
        · exact (List.pairwise_singleton _ attr).filter _
        · intro a ha b hb
          rw [hsub b hb]
          exact hbetween a ha attr List.mem_cons_self
        · intro a ha b hb
          rcases List.mem_append.mp ha with ha | ha
          · exact hbetween a ha b (List.mem_cons_of_mem attr hb)
          · rw [hsub a ha]
            exact hfirst b hb
      · rw [List.append_assoc, ← List.filter_append, List.singleton_append, List.foldl_cons]

/-- The copy of a document for a version. -/
def copyFor (doc : XmlResource φ α ν) (target : ℤ) : XmlResource φ α ν :=
  { doc with
    config := doc.config.withSdkVersion (toUInt16 target)
    root := doc.root.mapAttributes (List.filter (kept findAttributeSdkLevel target)) }

/-- **What `ProcessDoc` does** without rules. -/
theorem processDoc_eq {doc : XmlResource φ α ν} (h : Versionable doc.root) (fuel : ℕ)
    (targetApi maxApi : ℤ) (apis : List ℤ) :
    processDoc findAttributeSdkLevel noRules (fuel + 1) targetApi maxApi doc apis
      = .ok (copyFor findAttributeSdkLevel doc targetApi,
          doc.root.heads.foldl (referencedApis findAttributeSdkLevel ⟨targetApi, maxApi⟩) apis) := by
  have hclone := @Element.clone_eq α ν VersionerError (List ℤ)
    (fun el apis => el.attributes.foldlM
      (processAttribute findAttributeSdkLevel noRules (fuel + 1) ⟨targetApi, maxApi⟩ el) ([], apis))
    (List.filter (kept findAttributeSdkLevel targetApi))
    (referencedApis findAttributeSdkLevel ⟨targetApi, maxApi⟩) doc.root
    (fun head hhead apis => @foldlM_processAttribute α ν findAttributeSdkLevel fuel
      ⟨targetApi, maxApi⟩ head head.attributes [] apis (h.compiled head hhead)
      (h.distinct head hhead)) apis
  rw [processDoc, hclone]
  rfl

/-- The versions for which `Process` makes copies besides the first. -/
def copiedApis (doc : XmlResource φ α ν) (start stop : ℤ) : List ℤ :=
  doc.root.heads.foldl (referencedApis findAttributeSdkLevel ⟨start, stop⟩) []

/-- **What `Process` returns** without rules. -/
theorem process_eq {doc : XmlResource φ α ν} (h : Versionable doc.root) (fuel : ℕ)
    (minSdkVersion : ℤ) (apiRange : Range) :
    process findAttributeSdkLevel noRules (fuel + 1) minSdkVersion doc apiRange
      = .ok ({ copyFor findAttributeSdkLevel doc (adjustedStart minSdkVersion doc apiRange) with
            config := doc.config } ::
          (copiedApis findAttributeSdkLevel doc (adjustedStart minSdkVersion doc apiRange)
            apiRange.stop).map (copyFor findAttributeSdkLevel doc)) := by
  have hothers : ∀ apis : List ℤ, (apis.mapM fun api => do
      let (cloned, _) ← processDoc findAttributeSdkLevel noRules (fuel + 1) api apiRange.stop doc []
      return cloned) = .ok (apis.map (copyFor findAttributeSdkLevel doc)) := by
    intro apis
    rw [mapM_eq_ok_iff, List.forall₂_map_right_iff, List.forall₂_same]
    intro api _
    rw [processDoc_eq findAttributeSdkLevel h]
    rfl
  rw [process]
  refine bind_eq_ok_iff.mpr ⟨_, processDoc_eq findAttributeSdkLevel h fuel _ _ _, ?_⟩
  exact bind_eq_ok_iff.mpr ⟨_, hothers _, rfl⟩

/-- A version has a copy iff an attribute needs one. -/
theorem mem_copiedApis_iff {doc : XmlResource φ α ν} {start stop api : ℤ} :
    api ∈ copiedApis findAttributeSdkLevel doc start stop ↔ ∃ head ∈ doc.root.heads,
      ∃ attr ∈ head.attributes, referenced findAttributeSdkLevel ⟨start, stop⟩ attr = some api := by
  have hattrs : ∀ (attrs : List (Attribute α ν)) (apis : List ℤ),
      api ∈ attrs.foldl (fun apis attr => (referenced findAttributeSdkLevel ⟨start, stop⟩ attr).elim
        apis (SortedVector.add compare · apis)) apis
      ↔ api ∈ apis ∨ ∃ attr ∈ attrs,
        referenced findAttributeSdkLevel ⟨start, stop⟩ attr = some api := by
    intro attrs
    induction attrs with
    | nil => simp
    | cons attr attrs ih =>
        intro apis
        rw [List.foldl_cons, ih, List.exists_mem_cons_iff]
        cases referenced findAttributeSdkLevel ⟨start, stop⟩ attr with
        | none => simp
        | some other =>
            rw [Option.elim_some, SortedVector.mem_add_iff, Option.some.injEq, eq_comm, or_assoc,
              or_left_comm]
  have hheads : ∀ (heads : List (ElementHead α ν)) (apis : List ℤ),
      api ∈ heads.foldl (referencedApis findAttributeSdkLevel ⟨start, stop⟩) apis
      ↔ api ∈ apis ∨ ∃ head ∈ heads, ∃ attr ∈ head.attributes,
        referenced findAttributeSdkLevel ⟨start, stop⟩ attr = some api := by
    intro heads
    induction heads with
    | nil => simp
    | cons head heads ih =>
        intro apis
        rw [List.foldl_cons, ih, referencedApis, hattrs, List.exists_mem_cons_iff, or_assoc]
  rw [copiedApis, hheads]
  simp

/-- The version of a document. -/
def XmlResource.version (doc : XmlResource φ α ν) : ℕ := doc.config.sdkVersion.toNat

/-- A document is another one without some of its compiled attributes. -/
structure Trimmed (doc made : XmlResource φ α ν) (keep : Attribute α ν → Bool) : Prop where
  root_eq : made.root = doc.root.mapAttributes (List.filter keep)
  uncompiled : ∀ attr, attr.compiledAttribute = none → keep attr = true

/-- A document serves the devices of a level: it was made for a version up to the level, has the
attributes that the devices know, and for versions below 22 none that the version does not know. -/
def Serves (fuel : ℕ) (maxApi : ℤ) (doc made : XmlResource φ α ν) (s : ℕ) : Prop :=
  ∃ target ≤ (s : ℤ),
    (∃ copy apis, processDoc findAttributeSdkLevel noRules fuel target maxApi doc []
      = .ok (copy, apis) ∧ made.root = copy.root)
    ∧ ∃ keep, Trimmed doc made keep
      ∧ (∀ head ∈ doc.root.heads, ∀ attr ∈ head.attributes, ∀ id, attr.resourceId? = some id →
          findAttributeSdkLevel id ≤ s → keep attr = true)
      ∧ (target < sdkLollipopMr1 → ∀ attr id, attr.resourceId? = some id → keep attr = true →
          findAttributeSdkLevel id ≤ target)

/-- A copy keeps the attributes that are not compiled. -/
theorem trimmed_copyFor (doc : XmlResource φ α ν) (target : ℤ) :
    Trimmed doc (copyFor findAttributeSdkLevel doc target) (kept findAttributeSdkLevel target) where
  root_eq := rfl
  uncompiled := fun attr hattr => by rw [kept, hattr, Option.all_none]

/-- Whether a copy has a compiled attribute. -/
theorem kept_eq_true_iff {target : ℤ} {attr : Attribute α ν} {id : ResourceId}
    (hid : attr.resourceId? = some id) : kept findAttributeSdkLevel target attr = true ↔
      findAttributeSdkLevel id ≤ target ∨ sdkLollipopMr1 ≤ target := by
  obtain ⟨c, hc, hcid⟩ := Option.bind_eq_some_iff.mp hid
  rw [kept, hc, Option.all_some, hcid, Option.any_some, decide_eq_true_iff]

/-- What is referenced lies after the start, and up to 22. -/
theorem lt_of_mem_copiedApis {doc : XmlResource φ α ν} {start stop api : ℤ}
    (h : api ∈ copiedApis findAttributeSdkLevel doc start stop) :
    start < api ∧ api ≤ sdkLollipopMr1 := by
  obtain ⟨head, -, attr, -, href⟩ := (mem_copiedApis_iff findAttributeSdkLevel).mp h
  obtain ⟨id, -, hid⟩ := Option.bind_eq_some_iff.mp href
  split_ifs at hid with hcond
  rw [Option.some.injEq] at hid
  rw [← hid]
  exact ⟨lt_min hcond.1 hcond.2.1, min_le_right _ _⟩

/-- An attribute of a version in the range that a copy for an earlier version below 22 lacks has a
copy of its own. -/
theorem exists_mem_copiedApis {doc : XmlResource φ α ν} {start stop : ℤ}
    {head : ElementHead α ν} (hhead : head ∈ doc.root.heads) {attr : Attribute α ν}
    (hattr : attr ∈ head.attributes) {id : ResourceId} (hid : attr.resourceId? = some id)
    (hstart : start < findAttributeSdkLevel id) (hlollipop : start < sdkLollipopMr1)
    (hstop : findAttributeSdkLevel id < stop) :
    min (findAttributeSdkLevel id) sdkLollipopMr1
      ∈ copiedApis findAttributeSdkLevel doc start stop := by
  refine (mem_copiedApis_iff findAttributeSdkLevel).mpr ⟨head, hhead, attr, hattr, ?_⟩
  rw [referenced, hid, Option.bind_some]
  exact if_pos ⟨hstart, hlollipop, hstop⟩

/-- The version of a copy. -/
theorem version_copyFor (doc : XmlResource φ α ν) {api : ℤ} (hpos : 0 ≤ api)
    (hle : api ≤ sdkLollipopMr1) :
    ((copyFor findAttributeSdkLevel doc api).version : ℤ) = api := by
  have hsmall : (sdkLollipopMr1 : ℤ) = 22 := rfl
  show (((toUInt16 api).toNat : ℕ) : ℤ) = api
  rw [toUInt16, UInt16.toNat_ofNat']
  omega

/-- **Devices of every level find what they know.** Every document that is returned is the original
without some compiled attributes. At a level of the adjusted range one of the documents is in force,
and the document in force has every attribute of the original of that level; if it was made for a
version below 22, it has no compiled attribute of a later one. -/
theorem process_serves_levels {doc : XmlResource φ α ν} (h : Versionable doc.root) (fuel : ℕ)
    (minSdkVersion : ℤ) (apiRange : Range) :
    ∃ docs, process findAttributeSdkLevel noRules (fuel + 1) minSdkVersion doc apiRange = .ok docs
      ∧ (∀ made ∈ docs, ∃ keep, Trimmed doc made keep)
      ∧ ∀ s : ℕ, adjustedStart minSdkVersion doc apiRange ≤ s → s < apiRange.stop →
        (∃ made, InForce (fun _ => True) XmlResource.version docs s made)
          ∧ ∀ made, InForce (fun _ => True) XmlResource.version docs s made →
            Serves findAttributeSdkLevel (fuel + 1) apiRange.stop doc made s := by
  refine ⟨_, process_eq findAttributeSdkLevel h fuel minSdkVersion apiRange, ?_, ?_⟩
  · refine List.forall_mem_cons.mpr ⟨?_, List.forall_mem_map.mpr fun api _ => ?_⟩
    · exact ⟨_, (trimmed_copyFor findAttributeSdkLevel doc _).root_eq,
        (trimmed_copyFor findAttributeSdkLevel doc _).uncompiled⟩
    · exact ⟨_, trimmed_copyFor findAttributeSdkLevel doc api⟩
  intro s hs hstop
  have hdoc : (doc.version : ℤ) ≤ adjustedStart minSdkVersion doc apiRange :=
    le_max_right _ _
  generalize adjustedStart minSdkVersion doc apiRange = start at hs hdoc ⊢
  -- a copy up to the level is not in force only if a later one is
  have hcopy : ∀ made, InForce (fun _ => True) XmlResource.version
      ({ copyFor findAttributeSdkLevel doc start with config := doc.config } ::
        (copiedApis findAttributeSdkLevel doc start apiRange.stop).map
          (copyFor findAttributeSdkLevel doc)) s made →
      ∀ api ∈ copiedApis findAttributeSdkLevel doc start apiRange.stop, api ≤ s →
        api ≤ made.version := by
    intro made hmade api hapi hle
    obtain ⟨hlt, hmax⟩ := lt_of_mem_copiedApis findAttributeSdkLevel hapi
    have hversion := version_copyFor findAttributeSdkLevel doc (by omega) hmax
    have hhighest := hmade.highest _
      (List.mem_cons_of_mem _ (List.mem_map_of_mem (f := copyFor findAttributeSdkLevel doc) hapi))
      trivial (by omega)
    omega
  refine ⟨exists_inForce_iff.mpr ⟨_, List.mem_cons_self, trivial, ?_⟩, fun made hmade => ?_⟩
  · show doc.version ≤ s
    omega
  rcases List.mem_cons.mp hmade.mem with hfirst | hother
  · -- the first document
    subst hfirst
    have htrim := trimmed_copyFor findAttributeSdkLevel doc start
    refine ⟨start, hs, ⟨_, _, processDoc_eq findAttributeSdkLevel h fuel start apiRange.stop [], rfl⟩,
      kept findAttributeSdkLevel start, ⟨htrim.root_eq, htrim.uncompiled⟩, ?_, ?_⟩
    · intro head hhead attr hattr id hid hlevel
      rw [kept_eq_true_iff findAttributeSdkLevel hid]
      by_contra hnot
      obtain ⟨hlate, hlow⟩ := not_or.mp hnot
      have hapi := exists_mem_copiedApis findAttributeSdkLevel hhead hattr hid (not_le.mp hlate)
        (not_le.mp hlow) (lt_of_le_of_lt hlevel hstop)
      have hle := hcopy _ hmade _ hapi (le_trans (min_le_left _ _) hlevel)
      have hlt := (lt_of_mem_copiedApis findAttributeSdkLevel hapi).1
      have hversion : ((({ copyFor findAttributeSdkLevel doc start with
        config := doc.config } : XmlResource φ α ν).version : ℕ) : ℤ) = doc.version := rfl
      omega
    · intro htarget attr id hid hkeep
      exact ((kept_eq_true_iff findAttributeSdkLevel hid).mp hkeep).resolve_right
        (not_le.mpr htarget)
  · -- a copy for a later version
    obtain ⟨api, hapi, rfl⟩ := List.mem_map.mp hother
    obtain ⟨hlt, hmax⟩ := lt_of_mem_copiedApis findAttributeSdkLevel hapi
    have hversion := version_copyFor findAttributeSdkLevel doc (by omega) hmax
    have hle : api ≤ s := by
      have := hmade.le
      omega
    refine ⟨api, hle, ⟨_, _, processDoc_eq findAttributeSdkLevel h fuel api apiRange.stop [], rfl⟩,
      kept findAttributeSdkLevel api, trimmed_copyFor findAttributeSdkLevel doc api, ?_, ?_⟩
    · intro head hhead attr hattr id hid hlevel
      rw [kept_eq_true_iff findAttributeSdkLevel hid]
      by_contra hnot
      obtain ⟨hlate, hlow⟩ := not_or.mp hnot
      have hnext := exists_mem_copiedApis findAttributeSdkLevel hhead hattr hid
        (lt_trans hlt (not_le.mp hlate)) (lt_of_lt_of_le hlt hmax) (lt_of_le_of_lt hlevel hstop)
      have hnextle := hcopy _ hmade _ hnext (le_trans (min_le_left _ _) hlevel)
      rw [hversion] at hnextle
      exact absurd (lt_min (not_le.mp hlate) (not_le.mp hlow)) (not_lt.mpr hnextle)
    · intro htarget attr id hid hkeep
      exact ((kept_eq_true_iff findAttributeSdkLevel hid).mp hkeep).resolve_right
        (not_le.mpr htarget)

end NoRules

/-! ## A view with later attributes -/

/-- A compiled attribute of the platform. -/
def platformAttribute (name : String) (entryId : BitVec 16) : Attribute Unit Unit where
  namespaceUri := kSchemaAndroid
  name := bytes name
  value := bytes "24dp"
  compiledAttribute := some ⟨(), some (.ofParts 0x01 0x01 entryId)⟩
  compiledValue := some ()

/-- A view with attributes of the versions 26 and 11, and one that is not compiled. -/
def paddedView : XmlResource Unit Unit Unit where
  config := SplitSelect.ResTableConfig.defaultConfig
  file := ()
  root :=
    { head :=
        { info := ⟨1, 1, []⟩, namespaceDecls := [⟨bytes "android", kSchemaAndroid, 1, 1⟩]
          namespaceUri := [], name := bytes "View"
          attributes := [platformAttribute "paddingHorizontal" 0x053d,
            platformAttribute "progressBarPadding" 0x0319,
            ⟨[], bytes "foo", bytes "16dp", none, none⟩] }
      children := [] }

/-- Copies of the view for the versions 11 and 22, of which the first serves devices of version
21. -/
theorem process_serves_levels_paddedView :
    ∃ docs, process (fun id => findAttributeSdkLevel id) noRules 1 4 paddedView ⟨9, 27⟩ = .ok docs
      ∧ docs.map (fun made => (made.version, made.root.head.attributes.map Attribute.name))
        = [(0, [bytes "foo"]), (11, [bytes "progressBarPadding", bytes "foo"]),
          (22, [bytes "paddingHorizontal", bytes "progressBarPadding", bytes "foo"])]
      ∧ ∃ made, InForce (fun _ => True) XmlResource.version docs 21 made
        ∧ Serves (fun id => findAttributeSdkLevel id) 1 27 paddedView made 21 := by
  have hdoc : Versionable paddedView.root :=
    { compiled := by
        intro head hhead attr hattr c hc
        rw [List.mem_singleton.mp hhead] at hattr
        rcases List.mem_cons.mp hattr with rfl | hattr
        · cases hc
          simp
        rcases List.mem_cons.mp hattr with rfl | hattr
        · cases hc
          simp
        · rw [List.mem_singleton.mp hattr] at hc
          cases hc
      distinct := by
        intro head hhead
        rw [List.mem_singleton.mp hhead]
        decide }
  obtain ⟨docs, hdocs, -, hserves⟩ :=
    process_serves_levels (fun id => findAttributeSdkLevel id) hdoc 0 4 ⟨9, 27⟩
  obtain ⟨⟨made, hmade⟩, hall⟩ := hserves 21 (by decide) (by decide)
  refine ⟨docs, hdocs, ?_, made, hmade, hall made hmade⟩
  have hrun : (process (fun id => findAttributeSdkLevel id) noRules 1 4 paddedView ⟨9, 27⟩).map
      (List.map fun made => (made.version, made.root.head.attributes.map Attribute.name))
      = .ok [(0, [bytes "foo"]), (11, [bytes "progressBarPadding", bytes "foo"]),
          (22, [bytes "paddingHorizontal", bytes "progressBarPadding", bytes "foo"])] := by
    decide +kernel
  rw [hdocs] at hrun
  exact Except.ok.inj hrun

end AndroidSdk.Aapt2.XmlCompatVersioner
