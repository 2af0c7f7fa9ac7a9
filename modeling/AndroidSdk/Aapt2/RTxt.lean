import AndroidSdk.Aapt2.JavaClassGenerator
import AndroidSdk.Lib.Emission
import AndroidSdk.Lib.Run

/-! # The text of R.txt

What `Generate` writes to `R.txt`, with and without the class `R`.

* **`RTxtLine`** — a line of `R.txt`.
* **`written`** — the entries that are written, in their order.
* **`entryText`** — what an entry adds to `R.txt`.
* **`map_rTxt_generate`** — the text of a whole run is what the entries add. -/

namespace AndroidSdk.Aapt2.JavaClass

open Lib Values

/-! ## Lines -/

/-- A line of `R.txt`. -/
inductive RTxtLine where
  | resource (type field : Bytes) (id : ResourceId)
  | styleable (field : Bytes) (items : List Bytes)
  | index (field : Bytes) (i : ℕ)
  deriving DecidableEq

/-- The items of an array. -/
def itemsText : List Bytes → Bytes
  | [] => []
  | item :: items => bytes " " ++ item ++ items.flatMap fun item => bytes "," ++ bytes " " ++ item

/-- The text of a line. -/
def RTxtLine.text : RTxtLine → Bytes
  | resource type field id =>
      bytes "int " ++ type ++ bytes " " ++ field ++ bytes " " ++ idText id ++ bytes "\n"
  | styleable field items =>
      bytes "int[] styleable " ++ field ++ bytes " \x7b" ++ itemsText items ++ bytes " \x7d"
        ++ bytes "\n"
  | index field i =>
      bytes "int styleable " ++ field ++ bytes " " ++ bytes (toString i) ++ bytes "\n"

/-- The text of some lines. -/
def linesText (lines : List RTxtLine) : Bytes := lines.flatMap RTxtLine.text

/-! ## The order of attributes -/

/-- The place of an identifier in the order of `cmp_ids_dynamic_after_framework`, in which the
packages 0 and 1 are exchanged. -/
def idRank (id : ResourceId) : ℕ :=
  if id.id.toNat < 2 ^ 24 then id.id.toNat + 2 ^ 24
  else if id.id.toNat < 2 ^ 25 then id.id.toNat - 2 ^ 24
  else id.id.toNat

/-- The number of the package of an identifier. -/
theorem toNat_packageId (id : ResourceId) : id.packageId.toNat = id.id.toNat / 2 ^ 24 := by
  have hlt := id.id.isLt
  rw [ResourceId.packageId, BitVec.extractLsb'_toNat, Nat.shiftRight_eq_div_pow]
  omega

/-- The order of identifiers is that of their places. -/
theorem cmpIds_iff (a b : ResourceId) :
    cmpIdsDynamicAfterFramework a b = true ↔ idRank a < idRank b := by
  have ha := toNat_packageId a
  have hb := toNat_packageId b
  have hone (id : ResourceId) : id.packageId = 0x01 ↔ id.packageId.toNat = 1 :=
    BitVec.toNat_inj.symm
  have hzero (id : ResourceId) : id.packageId = 0x00 ↔ id.packageId.toNat = 0 :=
    BitVec.toNat_inj.symm
  simp only [cmpIdsDynamicAfterFramework, hone, hzero, ha, hb, idRank]
  have hlta := a.id.isLt
  have hltb := b.id.isLt
  split_ifs <;> rw [decide_eq_true_iff, BitVec.lt_def] <;> omega

/-- The places tell identifiers apart. -/
theorem idRank_injective {a b : ResourceId} (h : idRank a = idRank b) : a = b := by
  obtain ⟨a⟩ := a
  obtain ⟨b⟩ := b
  rw [idRank, idRank] at h
  congr 1
  apply BitVec.eq_of_toNat_eq
  simp only at h
  split_ifs at h <;> omega

/-- **Attributes are in a strict weak order.** -/
theorem StyleableAttr.lt_strictWeakOn (l : List StyleableAttr) :
    StrictWeakOn StyleableAttr.lt l := by
  refine @strictWeakOn_of_compare _ _ (compareLex (compareOn Prod.fst) (compareOn Prod.snd)) _
    (fun a : StyleableAttr => (idRank a.attrId, a.name)) StyleableAttr.lt l fun a _ b _ => ?_
  rw [StyleableAttr.lt, compareLex, compareOn, compareOn]
  split_ifs with heq
  · rw [heq, show compare (idRank b.attrId) (idRank b.attrId) = .eq from
      Std.ReflCmp.compare_self]
    exact decide_eq_true_iff
  · rw [cmpIds_iff]
    have hne : idRank a.attrId ≠ idRank b.attrId := fun h => heq (idRank_injective h)
    rw [← Nat.compare_eq_lt]
    cases hcmp : compare (idRank a.attrId) (idRank b.attrId) with
    | lt => exact iff_of_true rfl rfl
    | eq => exact absurd (Nat.compare_eq_eq.mp hcmp) hne
    | gt => exact iff_of_false (fun h => nomatch h) fun h => nomatch h

namespace JavaClassGenerator

variable (g : JavaClassGenerator) (packageNameToGenerate : Bytes)

/-! ## Entries -/

/-- An entry with the name that it is written by. -/
abbrev NamedEntry := ResourceName × ResourceEntry Values.Value

/-- The entries of a type that are written. -/
def writtenOfType (packageName : Bytes) (type : ResourceTableType Values.Value) : List NamedEntry :=
  type.entries.filterMap fun entry =>
    (unmangleResource g.options.types packageName packageNameToGenerate entry).map
      fun name => (⟨packageNameToGenerate, targetType type.namedType, name⟩, entry)

/-- The types that are written into the class of a type. -/
def typesOfClass (package : ResourceTablePackage Values.Value)
    (type : ResourceTableType Values.Value) : List (ResourceTableType Values.Value) :=
  if type.namedType.type = .kAttrPrivate ∨ type.namedType.type = .kMacro then []
  else type :: if type.namedType.type = .kAttr then
    (package.findType (resourceNamedTypeWithDefaultName .kAttrPrivate)).toList
  else []

/-- The entries that are written, in their order. -/
def written : List NamedEntry :=
  g.table.packages.flatMap fun package => package.types.flatMap fun type =>
    (typesOfClass package type).flatMap (g.writtenOfType packageNameToGenerate package.name)

/-- The attributes of a styleable. -/
def attrsOf (e : NamedEntry) : Except Failure (List StyleableAttr) := do
  let (refs, _) ← firstStyleable e.2
  refs.mapM (g.styleableAttr (transformToFieldName e.1.entry) packageNameToGenerate)

/-- The enumerators and flags of an attribute have names. -/
def NamedSymbols (attr : Attribute) : Prop :=
  attr.typeMask &&& (JavaClass.typeFlags ||| typeEnum) ≠ 0 →
    ∀ symbol ∈ attr.symbols, symbol.symbol.name.isSome

/-! ## What an entry adds -/

/-- What the index of an attribute at a position adds, with or without the class. -/
def indexLine (java : Bool) (p : StyleableAttr × ℕ) : Except Failure Bytes :=
  match p.1.symbol with
  | none => .ok []
  | some symbol =>
      if skipSymbol g.options.types (some symbol) then .ok []
      else if java then
        if removed p.1 symbol then .ok []
        else (addAttributeFormatDoc symbol.attr).map fun _ =>
          (RTxtLine.index p.1.fieldName p.2).text
      else .ok (RTxtLine.index p.1.fieldName p.2).text

/-- The line of the array of a styleable. -/
def arrayLine (e : NamedEntry) (attrs : List StyleableAttr) : RTxtLine :=
  .styleable (transformToFieldName e.1.entry)
    (attrs.map fun attr => (arrayElement packageNameToGenerate attr).text)

/-- The line of another resource. -/
def resourceLine (e : NamedEntry) : RTxtLine :=
  .resource e.1.type.name (transformToFieldName e.1.entry) (g.realId e.1 (e.2.id.getD ⟨0⟩))

/-- What an entry adds, with or without the class. -/
def entryText (java : Bool) (e : NamedEntry) : Except Failure Bytes :=
  if !isValidSymbol e.1.entry then .error (.error (invalidSymbolMsg e.1))
  else if e.1.type.type = .kStyleable then do
    let attrs ← g.attrsOf packageNameToGenerate e
    let sorted := g.std.sort StyleableAttr.lt attrs
    let line := arrayLine packageNameToGenerate e sorted
    (emitAll (g.indexLine java) sorted.zipIdx).map (line.text ++ ·)
  else if java then (g.resourceDoc e.2).map fun _ => (g.resourceLine e).text
  else .ok (g.resourceLine e).text

/-! ## The steps of `Generate` -/

/-- What is asked of the outputs of a run. -/
def HasClass (java : Bool) (out : Outputs) : Prop := out.classDef.isSome = java

section Steps

variable {java : Bool} {out : Outputs}

/-- What is printed comes behind what has been printed. -/
theorem print_print (out : Outputs) (t u : Bytes) : (out.print t).print u = out.print (t ++ u) := by
  simp only [Outputs.print, Option.map_map, Function.comp_def, List.append_assoc]

/-- Printing nothing. -/
theorem print_nil (out : Outputs) : out.print [] = out := by
  simp only [Outputs.print, List.append_nil, Option.map_id_fun', id_eq]

/-- Printing leaves the class. -/
theorem hasClass_print (h : HasClass java out) (t : Bytes) : HasClass java (out.print t) := h

/-- A new member leaves what has been printed. -/
theorem hasClass_addMember (h : HasClass java out) (member : Member) :
    HasClass java (out.addMember member) := Option.isSome_map.trans h

/-- The row of a symbol. -/
theorem symbolRow_cases (attr : Attribute) :
    (∀ symbol ∈ attr.symbols, symbol.symbol.name.isSome)
        ∧ (∃ rows, attr.symbols.mapM symbolRow = .ok rows)
      ∨ (¬ ∀ symbol ∈ attr.symbols, symbol.symbol.name.isSome)
        ∧ attr.symbols.mapM symbolRow = .error .badOptionalAccess := by
  refine mapM_cases (p := fun symbol => symbol.symbol.name.isSome) (fun symbol hsymbol => ?_)
    (fun symbol hsymbol => ?_) attr.symbols
  · obtain ⟨name, hname⟩ := Option.isSome_iff_exists.mp hsymbol
    exact ⟨_, by rw [symbolRow, hname]⟩
  · rw [symbolRow, Option.not_isSome_iff_eq_none.mp hsymbol]

/-- The documentation of an attribute with named symbols. -/
theorem addAttributeFormatDoc_ok {attr : Attribute} (h : NamedSymbols attr) :
    ∃ doc, addAttributeFormatDoc attr = .ok doc := by
  rw [addAttributeFormatDoc]
  dsimp only
  by_cases hmask : attr.typeMask &&& (JavaClass.typeFlags ||| typeEnum) ≠ 0
  · rcases symbolRow_cases attr with ⟨_, rows, hrows⟩ | ⟨hnot, _⟩
    · rw [if_pos hmask, hrows]
      exact ⟨_, rfl⟩
    · exact absurd (h hmask) hnot
  · rw [if_neg hmask]
    exact ⟨_, rfl⟩

/-- The documentation of another attribute. -/
theorem addAttributeFormatDoc_error {attr : Attribute} (h : ¬ NamedSymbols attr) :
    addAttributeFormatDoc attr = .error .badOptionalAccess := by
  rw [NamedSymbols, Classical.not_imp] at h
  rcases symbolRow_cases attr with ⟨hall, _⟩ | ⟨_, herror⟩
  · exact absurd hall h.2
  · rw [addAttributeFormatDoc]
    dsimp only
    rw [if_pos h.1, herror]
    rfl

/-- The loop that adds the elements prints the items of the array. -/
theorem arrayLoop_eq (attrs : List StyleableAttr) (i : ℕ) (elements : List ArrayElement)
    (out : Outputs) :
    arrayLoop packageNameToGenerate attrs (i + 1) elements out
      = (elements ++ attrs.map (arrayElement packageNameToGenerate),
        out.print ((attrs.map fun attr => (arrayElement packageNameToGenerate attr).text).flatMap
          fun item => bytes "," ++ bytes " " ++ item)) := by
  induction attrs generalizing i elements out with
  | nil =>
      rw [arrayLoop, List.map_nil, List.map_nil, List.flatMap_nil, print_nil, List.append_nil]
  | cons attr attrs ih =>
      rw [arrayLoop, if_pos (Nat.succ_ne_zero i), ih, print_print, print_print, print_print,
        List.map_cons, List.map_cons, List.flatMap_cons]
      refine Prod.ext (List.append_assoc _ _ _) ?_
      simp only [List.append_assoc]

/-- The whole loop that adds the elements. -/
theorem arrayLoop_zero (attrs : List StyleableAttr) (out : Outputs) :
    arrayLoop packageNameToGenerate attrs 0 [] out
      = (attrs.map (arrayElement packageNameToGenerate),
        out.print (itemsText (attrs.map fun attr =>
          (arrayElement packageNameToGenerate attr).text))) := by
  cases attrs with
  | nil =>
      rw [arrayLoop, List.map_nil, List.map_nil, itemsText, print_nil]
  | cons attr attrs =>
      rw [arrayLoop, if_neg (not_not.mpr rfl), arrayLoop_eq, print_print, print_print]
      refine Prod.ext rfl ?_
      simp only [itemsText, List.map_cons, List.append_assoc]

/-- A line is printed. -/
theorem emits_print (h : HasClass java out) (t : Bytes) :
    Emits Outputs.rTxt (HasClass java) out.rTxt (.ok (out.print t) : Except Failure Outputs)
      (.ok t) :=
  ⟨_, rfl, h, rfl⟩

/-- **A turn of the loop that emits the indices.** -/
theorem emits_indexTurn (arrayFieldName : Bytes) (p : StyleableAttr × ℕ)
    (h : HasClass java out) :
    Emits Outputs.rTxt (HasClass java) out.rTxt
      (g.indexTurn arrayFieldName packageNameToGenerate out p) (g.indexLine java p) := by
  have htext : (indexText p.1 p.2) ++ bytes "\n" = (RTxtLine.index p.1.fieldName p.2).text := rfl
  have hprint (out : Outputs) : out.println (indexText p.1 p.2)
      = out.print (RTxtLine.index p.1.fieldName p.2).text := by
    rw [Outputs.println, print_print, htext]
  rw [indexTurn, indexLine]
  cases hsymbol : p.1.symbol with
  | none => exact Emits.of_ok h
  | some symbol =>
      dsimp only
      by_cases hskip : skipSymbol g.options.types (some symbol) = true
      · rw [if_pos hskip, if_pos hskip]
        exact Emits.of_ok h
      rw [if_neg hskip, if_neg hskip]
      cases java with
      | false =>
          rw [if_neg (Bool.eq_false_iff.mp h), if_neg Bool.false_ne_true, hprint]
          exact emits_print h _
      | true =>
          have hclass : out.classDef.isSome = true := h
          rw [if_pos hclass, if_pos rfl]
          by_cases hremoved : removed p.1 symbol = true
          · rw [if_pos hremoved, if_pos hremoved]
            exact Emits.of_ok h
          rw [if_neg hremoved, if_neg hremoved]
          by_cases hnamed : NamedSymbols symbol.attr
          · obtain ⟨doc, hdoc⟩ := addAttributeFormatDoc_ok hnamed
            simp only [indexDoc, hdoc]
            refine ⟨_, rfl, hasClass_addMember h _, ?_⟩
            rw [hprint]
            rfl
          · simp only [indexDoc, addAttributeFormatDoc_error hnamed]
            rfl

/-- The turns of the loop that emits the indices. -/
theorem emits_indexLoop (arrayFieldName : Bytes) (l : List (StyleableAttr × ℕ))
    (h : HasClass java out) :
    Emits Outputs.rTxt (HasClass java) out.rTxt
      (l.foldlM (g.indexTurn arrayFieldName packageNameToGenerate) out)
      (emitAll (g.indexLine java) l) := by
  have hloop : Emits Outputs.rTxt (HasClass java) out.rTxt
      (l.foldlM (g.indexTurn arrayFieldName packageNameToGenerate) out)
      (emitAll (g.indexLine java) (l.flatMap fun p => [p])) :=
    Emits.foldlM (fun out p hout => (emitAll_singleton (g.indexLine java) p).symm ▸
      emits_indexTurn g packageNameToGenerate arrayFieldName p hout) h l
  rwa [List.flatMap_singleton'] at hloop

/-- **A styleable.** -/
theorem emits_processStyleable (e : NamedEntry) (refs : List Reference) (comment : Bytes)
    (h : HasClass java out) :
    Emits Outputs.rTxt (HasClass java) out.rTxt
      (g.processStyleable e.1 refs comment packageNameToGenerate out)
      (refs.mapM (g.styleableAttr (transformToFieldName e.1.entry) packageNameToGenerate) >>=
        fun attrs =>
          let sorted := g.std.sort StyleableAttr.lt attrs
          (emitAll (g.indexLine java) sorted.zipIdx).map
            ((arrayLine packageNameToGenerate e sorted).text ++ ·)) := by
  rw [processStyleable]
  cases refs.mapM (g.styleableAttr (transformToFieldName e.1.entry) packageNameToGenerate) with
  | error failure => rfl
  | ok attrs =>
      simp only [bind_ok, arrayLoop_zero, Outputs.println, print_print]
      have hline : (arrayLine packageNameToGenerate e (g.std.sort StyleableAttr.lt attrs)).text
          = bytes "int[] styleable " ++ transformToFieldName e.1.entry ++ bytes " \x7b"
            ++ itemsText ((g.std.sort StyleableAttr.lt attrs).map fun attr =>
              (arrayElement packageNameToGenerate attr).text) ++ bytes " \x7d" ++ bytes "\n" := rfl
      rw [hline]
      exact Emits.after (emits_indexLoop g _ _ _ (hasClass_addMember (hasClass_print h _) _))

/-- The comments of the values of an entry. -/
theorem valueComment_cases (values : List (ResourceConfigValue Values.Value)) :
    (∀ value ∈ values, value.value.isSome) ∧ (∃ docs, values.mapM valueComment = .ok docs)
      ∨ (¬ ∀ value ∈ values, value.value.isSome)
        ∧ values.mapM valueComment = .error .nullPointer := by
  refine mapM_cases (p := fun value => value.value.isSome) (fun value hvalue => ?_)
    (fun value hvalue => ?_) values
  · obtain ⟨v, hv⟩ := Option.isSome_iff_exists.mp hvalue
    exact ⟨_, by rw [valueComment, hv]⟩
  · rw [valueComment, Option.not_isSome_iff_eq_none.mp hvalue]

/-- The documentation of a resource. -/
theorem resourceDoc_ok {entry : ResourceEntry Values.Value}
    (hvalues : ∀ value ∈ entry.values, value.value.isSome)
    (hattr : ∀ attr, firstAttribute entry = some attr → NamedSymbols attr) :
    ∃ doc, g.resourceDoc entry = .ok doc := by
  rw [resourceDoc]
  rcases valueComment_cases entry.values with ⟨_, docs, hdocs⟩ | ⟨hnot, _⟩
  case inr => exact absurd hvalues hnot
  rw [hdocs]
  cases hfirst : firstAttribute entry with
  | none => exact ⟨_, rfl⟩
  | some attr =>
      obtain ⟨format, hformat⟩ := addAttributeFormatDoc_ok (hattr attr hfirst)
      dsimp only
      rw [hformat]
      exact ⟨_, rfl⟩

/-- A resource whose documentation cannot be read. -/
theorem resourceDoc_error {entry : ResourceEntry Values.Value}
    (h : ¬ ((∀ value ∈ entry.values, value.value.isSome)
      ∧ ∀ attr, firstAttribute entry = some attr → NamedSymbols attr)) :
    g.resourceDoc entry = .error .nullPointer
      ∨ g.resourceDoc entry = .error .badOptionalAccess := by
  rw [resourceDoc]
  rcases valueComment_cases entry.values with ⟨hvalues, docs, hdocs⟩ | ⟨_, herror⟩
  · rw [hdocs]
    cases hfirst : firstAttribute entry with
    | none => exact absurd ⟨hvalues, fun attr hattr => nomatch hfirst ▸ hattr⟩ h
    | some attr =>
        have hnamed : ¬ NamedSymbols attr := fun hnamed => h ⟨hvalues, fun attr' hattr =>
          Option.some.inj (hfirst.symm.trans hattr) ▸ hnamed⟩
        refine .inr ?_
        dsimp only
        rw [addAttributeFormatDoc_error hnamed]
        rfl
  · rw [herror]
    exact .inl rfl

/-- **Another resource.** -/
theorem emits_processResource (e : NamedEntry) (h : HasClass java out) :
    Emits Outputs.rTxt (HasClass java) out.rTxt
      (g.processResource e.1 (e.2.id.getD ⟨0⟩) e.2 out)
      (if java then (g.resourceDoc e.2).map fun _ => (g.resourceLine e).text
        else .ok (g.resourceLine e).text) := by
  have hline : (g.resourceLine e).text = bytes "int " ++ e.1.type.name ++ bytes " "
      ++ transformToFieldName e.1.entry ++ bytes " " ++ idText (g.realId e.1 (e.2.id.getD ⟨0⟩))
      ++ bytes "\n" := rfl
  rw [processResource]
  cases java with
  | false =>
      have hclass : out.classDef.isSome ≠ true := Bool.eq_false_iff.mp h
      simp only [if_neg hclass, if_neg Bool.false_ne_true, hline]
      refine ⟨_, rfl, h, ?_⟩
      simp only [Outputs.println, print_print]
      rfl
  | true =>
      have hclass : out.classDef.isSome = true := h
      simp only [if_pos hclass, if_true, hline]
      cases g.resourceDoc e.2 with
      | error failure => rfl
      | ok doc =>
          refine ⟨_, rfl, hasClass_addMember h _, ?_⟩
          simp only [Outputs.println, print_print]
          rfl

/-- **An entry.** -/
theorem emits_processEntry (e : NamedEntry) (h : HasClass java out) :
    Emits Outputs.rTxt (HasClass java) out.rTxt
      (g.processEntry e.1 packageNameToGenerate e.2 out)
      (g.entryText packageNameToGenerate java e) := by
  rw [processEntry, entryText]
  by_cases hvalid : (!isValidSymbol e.1.entry) = true
  · rw [if_pos hvalid, if_pos hvalid]
    rfl
  rw [if_neg hvalid, if_neg hvalid]
  by_cases htype : e.1.type.type = .kStyleable
  · rw [if_pos htype, if_pos htype, attrsOf]
    cases firstStyleable e.2 with
    | error failure => rfl
    | ok refs => exact emits_processStyleable g packageNameToGenerate e refs.1 refs.2 h
  · rw [if_neg htype, if_neg htype]
    exact emits_processResource g e h

/-- **A type.** -/
theorem emits_processType (packageName : Bytes) (type : ResourceTableType Values.Value)
    (h : HasClass java out) :
    Emits Outputs.rTxt (HasClass java) out.rTxt
      (g.processType packageNameToGenerate packageName type out)
      (emitAll (g.entryText packageNameToGenerate java)
        (g.writtenOfType packageNameToGenerate packageName type)) := by
  rw [processType, writtenOfType, List.filterMap_eq_flatMap_toList]
  refine Emits.foldlM (fun out entry hout => ?_) h type.entries
  cases unmangleResource g.options.types packageName packageNameToGenerate entry with
  | none => exact Emits.of_ok hout
  | some name =>
      have hentry := emits_processEntry g packageNameToGenerate
        (⟨packageNameToGenerate, targetType type.namedType, name⟩, entry) hout
      rwa [← emitAll_singleton (g.entryText packageNameToGenerate java)] at hentry

/-- **The private attributes.** -/
theorem emits_processPrivateAttrs (package : ResourceTablePackage Values.Value)
    (type : ResourceTableType Values.Value) (h : HasClass java out) :
    Emits Outputs.rTxt (HasClass java) out.rTxt
      (g.processPrivateAttrs packageNameToGenerate package type out)
      (emitAll (g.entryText packageNameToGenerate java)
        ((if type.namedType.type = .kAttr then
            (package.findType (resourceNamedTypeWithDefaultName .kAttrPrivate)).toList
          else []).flatMap (g.writtenOfType packageNameToGenerate package.name))) := by
  rw [processPrivateAttrs]
  split_ifs
  · cases package.findType (resourceNamedTypeWithDefaultName .kAttrPrivate) with
    | none => exact Emits.of_ok h
    | some privType =>
        rw [Option.toList_some, List.flatMap_singleton]
        exact emits_processType g packageNameToGenerate package.name privType h
  · exact Emits.of_ok h

/-- **A type of the class `R`.** -/
theorem emits_generateType (package : ResourceTablePackage Values.Value) (s : State)
    (type : ResourceTableType Values.Value) :
    Emits State.rTxt (fun _ => True) s.rTxt
      (g.generateType packageNameToGenerate java package s type)
      (emitAll (g.entryText packageNameToGenerate java)
        ((typesOfClass package type).flatMap
          (g.writtenOfType packageNameToGenerate package.name))) := by
  rw [generateType, typesOfClass]
  by_cases hskipped : type.namedType.type = .kAttrPrivate ∨ type.namedType.type = .kMacro
  · rw [if_pos hskipped, if_pos hskipped]
    exact Emits.of_ok trivial
  rw [if_neg hskipped, if_neg hskipped, List.flatMap_cons, emitAll_append]
  have hstart : HasClass java ⟨if java then some ⟨bytes (typeText type.namedType.type),
      g.options.types = .kPublic, [], []⟩ else none, s.rewriteMethod, s.rTxt⟩ := by
    cases java <;> rfl
  exact (emits_processType g packageNameToGenerate package.name type hstart).bind
    fun out hout => (emits_processPrivateAttrs g packageNameToGenerate package type hout).map
      fun out hout => ⟨trivial, rfl⟩

/-- **The text of a whole run** is what the entries add. -/
theorem map_rTxt_generate (java : Bool) :
    (g.generate packageNameToGenerate java true).map State.rTxt
      = (emitAll (g.entryText packageNameToGenerate java)
          (g.written packageNameToGenerate)).map some := by
  have hrun (start : State) : Emits State.rTxt (fun _ => True) start.rTxt
      (g.table.packages.foldlM (fun s package =>
        package.types.foldlM (g.generateType packageNameToGenerate java package) s) start)
      (emitAll (g.entryText packageNameToGenerate java) (g.written packageNameToGenerate)) :=
    Emits.foldlM (fun s package _ => Emits.foldlM
      (fun s type _ => emits_generateType g packageNameToGenerate package s type)
      trivial package.types) trivial g.table.packages
  have hview (s : State) : (addRewriteMethod s).rTxt = s.rTxt := by
    rw [addRewriteMethod]
    cases s.rewriteMethod <;> rfl
  exact Emits.map_view (P := fun _ => True) ((hrun _).map fun s _ => ⟨trivial, hview s⟩)

end Steps

end JavaClassGenerator

end AndroidSdk.Aapt2.JavaClass
