import AndroidSdk.Aapt2.RTxt

/-! # R.txt alone

Whether `R.txt` depends on the class `R` being made, and what its indices name. An index whose
attribute has been removed is lost when the class is made, and the class may fail to be documented.

* **`entryText_ok`**, **`entryText_error`** — what an entry adds, and when it fails.
* **`twoRuns`** — the runs with and without the class.
* **`RTxtAlone`** — `R.txt` does not depend on the class, and its indices name positions.
* **`rTxtAlone_iff`** — when this is so. -/

namespace AndroidSdk.Aapt2.JavaClass

open Lib Values

namespace JavaClassGenerator

variable (g : JavaClassGenerator) (packageNameToGenerate : Bytes)

/-! ## Conditions on entries -/

/-- The entry has a name that is no Java keyword; a styleable has a value, and its references have
names and, if fields are final, identifiers. -/
def writable (e : NamedEntry) : Bool :=
  isValidSymbol e.1.entry && (e.1.type.type ≠ .kStyleable
    || match firstStyleable e.2 with
      | .error _ => false
      | .ok (refs, _) => refs.all fun attr =>
          attr.name.isSome && !(g.options.useFinal && attr.id.isNone))

/-- The attributes of a styleable, if it is writable. -/
def attrs (e : NamedEntry) : List StyleableAttr :=
  (g.attrsOf packageNameToGenerate e).toOption.getD []

/-- An index is emitted for the attribute. -/
def isShown (attr : StyleableAttr) : Bool := !skipSymbol g.options.types attr.symbol

/-- The comment of the attribute says that it has been removed. -/
def isRemoved (attr : StyleableAttr) : Bool := attr.symbol.any (removed attr)

/-- What is read for the documentation of an entry is there. -/
def Documentable (e : NamedEntry) : Prop :=
  if e.1.type.type = .kStyleable then
    ∀ attr ∈ g.attrs packageNameToGenerate e, g.isShown attr → ¬ isRemoved attr →
      ∀ symbol, attr.symbol = some symbol → NamedSymbols symbol.attr
  else (∀ value ∈ e.2.values, value.value.isSome)
    ∧ ∀ attr, firstAttribute e.2 = some attr → NamedSymbols attr

/-- A styleable with an index for an attribute that has been removed. -/
def HasRemoved (e : NamedEntry) : Prop :=
  e.1.type.type = .kStyleable
    ∧ ∃ attr ∈ g.attrs packageNameToGenerate e, g.isShown attr ∧ isRemoved attr

/-! ## What an entry adds, by cases -/

section Entries

/-- What the index of an attribute at a position adds if it is added. -/
def indexItem (java : Bool) (p : StyleableAttr × ℕ) : Bytes :=
  if g.isShown p.1 && !(java && isRemoved p.1) then (RTxtLine.index p.1.fieldName p.2).text else []

variable {g packageNameToGenerate}

/-- What is read for the documentation of an index is there. -/
def CanIndex (g : JavaClassGenerator) (attr : StyleableAttr) : Prop :=
  g.isShown attr → ¬ isRemoved attr → ∀ symbol, attr.symbol = some symbol → NamedSymbols symbol.attr

/-- The line of an index. -/
theorem indexLine_ok {java : Bool} {p : StyleableAttr × ℕ} (h : java = true → CanIndex g p.1) :
    g.indexLine java p = .ok (g.indexItem java p) := by
  rw [CanIndex] at h
  rw [indexLine, indexItem]
  rw [isShown, isRemoved] at *
  cases hsymbol : p.1.symbol with
  | none => rfl
  | some symbol =>
      rw [hsymbol] at h
      dsimp only
      cases hskip : skipSymbol g.options.types (some symbol) with
      | true => rfl
      | false =>
          cases java with
          | false => rfl
          | true =>
              cases hremoved : removed p.1 symbol with
              | true => simp [hremoved]
              | false =>
                  have hnamed := h rfl (by rw [hskip]; rfl) (by simp [hremoved]) symbol rfl
                  obtain ⟨doc, hdoc⟩ := addAttributeFormatDoc_ok hnamed
                  simp [hremoved, hdoc, Except.map]

/-- The index of an attribute that cannot be documented. -/
theorem indexLine_error {p : StyleableAttr × ℕ} (h : ¬ CanIndex g p.1) :
    g.indexLine true p = .error .badOptionalAccess := by
  rw [CanIndex] at h
  push Not at h
  obtain ⟨hshown, hremoved, symbol, hsymbol, hnamed⟩ := h
  rw [isShown, hsymbol, Bool.not_eq_true'] at hshown
  rw [isRemoved, hsymbol] at hremoved
  have hremoved : removed p.1 symbol = false := Bool.eq_false_iff.mpr hremoved
  rw [indexLine, hsymbol]
  simp only [hshown, Bool.false_eq_true, if_false, if_true, hremoved,
    addAttributeFormatDoc_error hnamed]
  rfl

/-- A run with the class adds no index that a run without it does not add. -/
theorem indexItem_true (p : StyleableAttr × ℕ) :
    g.indexItem true p = if g.isShown p.1 ∧ isRemoved p.1 then [] else g.indexItem false p := by
  rw [indexItem, indexItem]
  cases g.isShown p.1 <;> cases isRemoved p.1 <;> rfl

/-- The text of a line is not empty. -/
theorem indexText_ne (field : Bytes) (i : ℕ) : (RTxtLine.index field i).text ≠ [] := by
  rw [RTxtLine.text]
  exact List.append_ne_nil_of_right_ne_nil _ (by decide)

/-- An index is lost just if its attribute has been removed. -/
theorem indexItem_eq_iff (p : StyleableAttr × ℕ) :
    g.indexItem true p = g.indexItem false p ↔ ¬ (g.isShown p.1 ∧ isRemoved p.1) := by
  rw [indexItem_true]
  split_ifs with hlost
  · refine iff_of_false (fun heq => ?_) (not_not.mpr hlost)
    rw [indexItem, hlost.1] at heq
    exact indexText_ne _ _ heq.symm
  · exact iff_of_true rfl hlost

/-- The positions of the sorted attributes. -/
theorem mem_attrs_of_mem_zipIdx {attrs : List StyleableAttr} {p : StyleableAttr × ℕ}
    (h : p ∈ (g.std.sort StyleableAttr.lt attrs).zipIdx) :
    p.1 ∈ attrs ∧ (g.std.sort StyleableAttr.lt attrs)[p.2]? = some p.1 := by
  have hget := List.mem_zipIdx_iff_getElem?.mp h
  refine ⟨?_, hget⟩
  exact (g.std.perm (StyleableAttr.lt_strictWeakOn attrs)).subset (List.mem_of_getElem? hget)

/-- Every attribute has a position. -/
theorem exists_mem_zipIdx {attrs : List StyleableAttr} {attr : StyleableAttr} (h : attr ∈ attrs) :
    ∃ i, (attr, i) ∈ (g.std.sort StyleableAttr.lt attrs).zipIdx := by
  have hsorted := (g.std.perm (StyleableAttr.lt_strictWeakOn attrs)).symm.subset h
  obtain ⟨i, hi⟩ := List.mem_iff_getElem?.mp hsorted
  exact ⟨i, List.mem_zipIdx_iff_getElem?.mpr hi⟩

/-- The indices of a styleable that can all be documented. -/
theorem emitAll_indexLine_ok {java : Bool} {attrs : List StyleableAttr}
    (h : java = true → ∀ attr ∈ attrs, CanIndex g attr) :
    emitAll (g.indexLine java) (g.std.sort StyleableAttr.lt attrs).zipIdx
      = .ok ((g.std.sort StyleableAttr.lt attrs).zipIdx.flatMap (g.indexItem java)) :=
  emitAll_of_ok fun p hp => indexLine_ok fun hjava => h hjava p.1 (mem_attrs_of_mem_zipIdx hp).1

/-- The indices of another styleable. -/
theorem emitAll_indexLine_error {attrs : List StyleableAttr}
    (h : ¬ ∀ attr ∈ attrs, CanIndex g attr) :
    emitAll (g.indexLine true) (g.std.sort StyleableAttr.lt attrs).zipIdx
      = .error .badOptionalAccess := by
  push Not at h
  obtain ⟨attr, hattr, hnot⟩ := h
  obtain ⟨i, hi⟩ := exists_mem_zipIdx (g := g) hattr
  refine emitAll_of_error (fun p _ => ?_) ⟨(attr, i), hi, indexLine_error hnot⟩
  by_cases hp : CanIndex g p.1
  · exact .inr ⟨_, indexLine_ok fun _ => hp⟩
  · exact .inl (indexLine_error hp)

/-- The references whose attributes are collected. -/
theorem styleableAttr_cases (arrayFieldName : Bytes) (ref : Reference) :
    (ref.name.isSome && !(g.options.useFinal && ref.id.isNone)) = true
        ∧ (∃ attr, g.styleableAttr arrayFieldName packageNameToGenerate ref = .ok attr)
      ∨ (ref.name.isSome && !(g.options.useFinal && ref.id.isNone)) = false
        ∧ ∃ text, g.styleableAttr arrayFieldName packageNameToGenerate ref
          = .error (.checkFailed text) := by
  rw [styleableAttr]
  by_cases hfinal : g.options.useFinal ∧ ref.id = none
  · rw [if_pos hfinal]
    refine .inr ⟨?_, _, rfl⟩
    rw [hfinal.1, hfinal.2]
    exact Bool.and_false _
  · rw [if_neg hfinal]
    have hid : (!(g.options.useFinal && ref.id.isNone)) = true := by
      rw [Bool.not_eq_true', Bool.eq_false_iff, ne_eq, Bool.and_eq_true, Option.isNone_iff_eq_none]
      exact hfinal
    split
    next hname => exact .inr ⟨by rw [hname]; rfl, _, rfl⟩
    next name hname => exact .inl ⟨by rw [hname, hid]; rfl, _, rfl⟩

/-- A styleable whose attributes are not collected. -/
theorem attrsOf_error {e : NamedEntry} {failure : Failure}
    (h : g.attrsOf packageNameToGenerate e = .error failure) :
    (∃ text, failure = .checkFailed text) ∨ failure = .notAStyleable := by
  rw [attrsOf] at h
  rcases bind_eq_error_iff.mp h with h | ⟨⟨refs, comment⟩, _, h⟩
  · rw [firstStyleable] at h
    split at h
    · exact .inl ⟨_, (Except.error.inj h).symm⟩
    · split at h
      · cases h
      · exact .inr (Except.error.inj h).symm
  · obtain ⟨ref, _, href⟩ := exists_error_of_mapM h
    rcases @styleableAttr_cases g packageNameToGenerate
      (transformToFieldName e.1.entry) ref with ⟨_, attr, hattr⟩ | ⟨_, text, htext⟩
    · rw [hattr] at href
      cases href
    · rw [htext] at href
      exact .inl ⟨text, (Except.error.inj href).symm⟩

/-- **The styleables that are writable** are those whose attributes are collected. -/
theorem writable_iff_attrsOf {e : NamedEntry} (hvalid : isValidSymbol e.1.entry = true)
    (htype : e.1.type.type = .kStyleable) :
    g.writable e = true ↔ ∃ attrs, g.attrsOf packageNameToGenerate e = .ok attrs := by
  rw [writable, attrsOf, hvalid, htype]
  cases firstStyleable e.2 with
  | error failure =>
      refine iff_of_false Bool.false_ne_true ?_
      rintro ⟨attrs, hattrs⟩
      cases hattrs
  | ok first =>
      simp only [bind_ok, ne_eq, not_true_eq_false, decide_false, Bool.false_or, Bool.true_and]
      rw [List.all_eq_true]
      constructor
      · intro hall
        cases hattrs : first.1.mapM (g.styleableAttr (transformToFieldName e.1.entry)
          packageNameToGenerate) with
        | ok attrs => exact ⟨attrs, rfl⟩
        | error failure =>
            obtain ⟨ref, href, herror⟩ := exists_error_of_mapM hattrs
            rcases @styleableAttr_cases g packageNameToGenerate
              (transformToFieldName e.1.entry) ref with ⟨_, attr, hattr⟩ | ⟨hnot, _⟩
            · rw [hattr] at herror
              cases herror
            · rw [hall ref href] at hnot
              cases hnot
      · rintro ⟨attrs, hattrs⟩ ref href
        obtain ⟨attr, _, hattr⟩ := exists_of_mapM hattrs href
        rcases @styleableAttr_cases g packageNameToGenerate
          (transformToFieldName e.1.entry) ref with ⟨hgood, _⟩ | ⟨_, text, htext⟩
        · exact hgood
        · rw [htext] at hattr
          cases hattr

/-- The text of a writable styleable. -/
theorem entryText_styleable {java : Bool} {e : NamedEntry} {attrs : List StyleableAttr}
    (hvalid : isValidSymbol e.1.entry = true) (htype : e.1.type.type = .kStyleable)
    (hattrs : g.attrsOf packageNameToGenerate e = .ok attrs) :
    g.entryText packageNameToGenerate java e
      = (emitAll (g.indexLine java) (g.std.sort StyleableAttr.lt attrs).zipIdx).map
        ((arrayLine packageNameToGenerate e (g.std.sort StyleableAttr.lt attrs)).text ++ ·) := by
  rw [entryText, hvalid, if_neg (by decide), if_pos htype, hattrs]
  rfl

/-- The attributes of a writable styleable. -/
theorem attrs_eq {e : NamedEntry} {attrs : List StyleableAttr}
    (hattrs : g.attrsOf packageNameToGenerate e = .ok attrs) :
    g.attrs packageNameToGenerate e = attrs := by
  rw [JavaClassGenerator.attrs, hattrs]
  rfl

/-- The text of another writable resource. -/
theorem entryText_resource {java : Bool} {e : NamedEntry}
    (hvalid : isValidSymbol e.1.entry = true) (htype : e.1.type.type ≠ .kStyleable) :
    g.entryText packageNameToGenerate java e
      = if java then (g.resourceDoc e.2).map fun _ => (g.resourceLine e).text
        else .ok (g.resourceLine e).text := by
  rw [entryText, hvalid, if_neg (by decide), if_neg htype]

/-- An entry that is not writable fails alike with and without the class. -/
theorem entryText_of_not_writable {e : NamedEntry} (h : g.writable e = false) :
    ∃ failure, g.entryText packageNameToGenerate true e = .error failure
      ∧ g.entryText packageNameToGenerate false e = .error failure := by
  cases hvalid : isValidSymbol e.1.entry with
  | false =>
      refine ⟨.error (invalidSymbolMsg e.1), ?_, ?_⟩
      · rw [entryText, hvalid]
        rfl
      · rw [entryText, hvalid]
        rfl
  | true =>
      by_cases htype : e.1.type.type = .kStyleable
      · have hnot := (@writable_iff_attrsOf g packageNameToGenerate e hvalid htype).not.mp
          (Bool.eq_false_iff.mp h)
        cases hattrs : g.attrsOf packageNameToGenerate e with
        | ok attrs => exact absurd ⟨attrs, hattrs⟩ hnot
        | error failure =>
            refine ⟨failure, ?_, ?_⟩
            · rw [entryText, hvalid, if_neg (by decide), if_pos htype, hattrs]
              rfl
            · rw [entryText, hvalid, if_neg (by decide), if_pos htype, hattrs]
              rfl
      · rw [writable, hvalid, Bool.true_and, Bool.or_eq_false_iff] at h
        exact absurd (of_decide_eq_false h.1) (not_not.mpr htype)

/-- A failure without the class is not about its documentation. -/
theorem entryText_false_ne {e : NamedEntry} {failure : Failure}
    (h : g.entryText packageNameToGenerate false e = .error failure) :
    failure ≠ .badOptionalAccess ∧ failure ≠ .nullPointer := by
  cases hvalid : isValidSymbol e.1.entry with
  | false =>
      rw [entryText, hvalid] at h
      obtain rfl := (Except.error.inj h).symm
      exact ⟨by simp, by simp⟩
  | true =>
      by_cases htype : e.1.type.type = .kStyleable
      · cases hattrs : g.attrsOf packageNameToGenerate e with
        | ok attrs =>
            rw [entryText_styleable hvalid htype hattrs,
              emitAll_indexLine_ok fun hjava => absurd hjava Bool.false_ne_true] at h
            cases h
        | error failure' =>
            rw [entryText, hvalid, if_neg (by decide), if_pos htype, hattrs] at h
            obtain rfl := Except.error.inj h
            rcases attrsOf_error hattrs with ⟨text, rfl⟩ | rfl
            · exact ⟨by simp, by simp⟩
            · exact ⟨by simp, by simp⟩
      · rw [entryText_resource hvalid htype] at h
        cases h

/-- The first line of a writable entry. -/
def firstLine (g : JavaClassGenerator) (packageNameToGenerate : Bytes) (e : NamedEntry) :
    RTxtLine :=
  if e.1.type.type = .kStyleable then
    arrayLine packageNameToGenerate e
      (g.std.sort StyleableAttr.lt (g.attrs packageNameToGenerate e))
  else g.resourceLine e

/-- The attributes of a writable styleable with their positions. -/
def positions (g : JavaClassGenerator) (packageNameToGenerate : Bytes) (e : NamedEntry) :
    List (StyleableAttr × ℕ) :=
  if e.1.type.type = .kStyleable then
    (g.std.sort StyleableAttr.lt (g.attrs packageNameToGenerate e)).zipIdx
  else []

/-- **What a writable entry adds** that can be documented, if that is done. -/
theorem entryText_ok {java : Bool} {e : NamedEntry} (hready : g.writable e = true)
    (h : java = true → g.Documentable packageNameToGenerate e) :
    g.entryText packageNameToGenerate java e
      = .ok ((g.firstLine packageNameToGenerate e).text
        ++ (g.positions packageNameToGenerate e).flatMap (g.indexItem java)) := by
  have hvalid : isValidSymbol e.1.entry = true := by
    rw [writable, Bool.and_eq_true] at hready
    exact hready.1
  rw [Documentable] at h
  rw [firstLine, positions]
  by_cases htype : e.1.type.type = .kStyleable
  · rw [if_pos htype] at h
    obtain ⟨attrs, hattrs⟩ := (writable_iff_attrsOf hvalid htype).mp hready
    rw [attrs_eq hattrs] at h ⊢
    rw [entryText_styleable hvalid htype hattrs, emitAll_indexLine_ok h, if_pos htype, if_pos htype]
    rfl
  · rw [if_neg htype] at h
    rw [entryText_resource hvalid htype, if_neg htype, if_neg htype, List.flatMap_nil,
      List.append_nil]
    cases java with
    | false => rfl
    | true =>
        obtain ⟨hvalues, hattr⟩ := h rfl
        obtain ⟨doc, hdoc⟩ := resourceDoc_ok g hvalues hattr
        rw [if_pos rfl, hdoc]
        rfl

/-- A writable entry that cannot be documented. -/
theorem entryText_error {e : NamedEntry} (hready : g.writable e = true)
    (h : ¬ g.Documentable packageNameToGenerate e) :
    g.entryText packageNameToGenerate true e = .error .badOptionalAccess
      ∨ g.entryText packageNameToGenerate true e = .error .nullPointer := by
  have hvalid : isValidSymbol e.1.entry = true := by
    rw [writable, Bool.and_eq_true] at hready
    exact hready.1
  rw [Documentable] at h
  by_cases htype : e.1.type.type = .kStyleable
  · rw [if_pos htype] at h
    obtain ⟨attrs, hattrs⟩ := (writable_iff_attrsOf hvalid htype).mp hready
    rw [attrs_eq hattrs] at h
    rw [entryText_styleable hvalid htype hattrs, emitAll_indexLine_error h]
    exact .inl rfl
  · rw [if_neg htype] at h
    rw [entryText_resource hvalid htype, if_pos rfl]
    rcases resourceDoc_error g h with herror | herror
    · rw [herror]
      exact .inr rfl
    · rw [herror]
      exact .inl rfl

/-- An index adds at most as much with the class. -/
theorem length_indexItem_le (p : StyleableAttr × ℕ) :
    (g.indexItem true p).length ≤ (g.indexItem false p).length := by
  rw [indexItem_true]
  split_ifs
  · exact Nat.zero_le _
  · exact le_rfl

/-- The texts with and without the class are the same iff no removed attribute has an index. -/
theorem entryText_eq_iff {e : NamedEntry} (hready : g.writable e = true)
    (h : g.Documentable packageNameToGenerate e) :
    g.entryText packageNameToGenerate true e = g.entryText packageNameToGenerate false e
      ↔ ¬ g.HasRemoved packageNameToGenerate e := by
  have hvalid : isValidSymbol e.1.entry = true := by
    rw [writable, Bool.and_eq_true] at hready
    exact hready.1
  rw [entryText_ok hready fun _ => h,
    entryText_ok hready fun hjava => absurd hjava Bool.false_ne_true, Except.ok.injEq,
    List.append_cancel_left_eq, flatMap_eq_iff_of_length_le fun p _ => length_indexItem_le p,
    HasRemoved, positions]
  by_cases htype : e.1.type.type = .kStyleable
  · obtain ⟨attrs, hattrs⟩ :=
      (@writable_iff_attrsOf g packageNameToGenerate e hvalid htype).mp hready
    rw [if_pos htype, attrs_eq hattrs, and_iff_right htype]
    constructor
    · rintro hall ⟨attr, hattr, hlost⟩
      obtain ⟨i, hi⟩ := exists_mem_zipIdx (g := g) hattr
      exact (indexItem_eq_iff (attr, i)).mp (hall _ hi) hlost
    · exact fun hnot p hp => (indexItem_eq_iff p).mpr fun hlost =>
        hnot ⟨p.1, (mem_attrs_of_mem_zipIdx hp).1, hlost⟩
  · rw [if_neg htype]
    exact iff_of_true (fun _ h => nomatch h) fun h => htype h.1

/-- **The two runs.** -/
theorem twoRuns : TwoRuns (g.entryText packageNameToGenerate true)
    (g.entryText packageNameToGenerate false) g.writable
    (g.Documentable packageNameToGenerate) where
  alike _ h := entryText_of_not_writable h
  emitted _ h := ⟨_, entryText_ok h fun hjava => absurd hjava Bool.false_ne_true⟩
  shorter e h hdoc := by
    refine ⟨_, _, entryText_ok h fun _ => hdoc,
      entryText_ok h fun hjava => absurd hjava Bool.false_ne_true, ?_⟩
    rw [List.length_append, List.length_append]
    exact Nat.add_le_add_left (length_flatMap_le fun p _ => length_indexItem_le p) _
  apart e e' h hdoc := by
    rcases entryText_error h hdoc with herror | herror
    · exact ⟨_, herror, fun h => (entryText_false_ne h).1 rfl⟩
    · exact ⟨_, herror, fun h => (entryText_false_ne h).2 rfl⟩

end Entries

/-! ## R.txt alone -/

/-- The lines of an entry. Every index line of a styleable names the position at which the
identifier of its attribute, or the field that holds it, stands in the array line. -/
def Describes (e : NamedEntry) (lines : List RTxtLine) : Prop :=
  if e.1.type.type = .kStyleable then
    ∃ items indices, lines = .styleable (transformToFieldName e.1.entry) items :: indices
      ∧ ∀ line ∈ indices, ∃ attr ∈ g.attrs packageNameToGenerate e, ∃ i,
        line = .index attr.fieldName i
          ∧ items[i]? = some (arrayElement packageNameToGenerate attr).text
  else lines = [g.resourceLine e]

/-- `R.txt` is the same with and without the class, and its lines are those of the entries. -/
structure RTxtAlone : Prop where
  same : (g.generate packageNameToGenerate true true).map State.rTxt
    = (g.generate packageNameToGenerate false true).map State.rTxt
  described : ∀ java s, g.generate packageNameToGenerate java true = .ok s →
    ∃ blocks, List.Forall₂ (g.Describes packageNameToGenerate) (g.written packageNameToGenerate)
      blocks ∧ s.rTxt = some (linesText blocks.flatten)

variable {g packageNameToGenerate}

/-- The indices that are added are lines of indices. -/
theorem flatMap_indexItem (java : Bool) (l : List (StyleableAttr × ℕ)) :
    l.flatMap (g.indexItem java)
      = linesText ((l.filter fun p => g.isShown p.1 && !(java && isRemoved p.1)).map
        fun p => .index p.1.fieldName p.2) := by
  induction l with
  | nil => rfl
  | cons p l ih =>
      rw [List.flatMap_cons, ih, List.filter_cons, indexItem]
      split_ifs
      · rw [List.map_cons]
        rfl
      · rfl

/-- **The lines of an entry.** -/
theorem exists_describes {java : Bool} {e : NamedEntry} {t : Bytes}
    (h : g.entryText packageNameToGenerate java e = .ok t) :
    ∃ lines, g.Describes packageNameToGenerate e lines ∧ t = linesText lines := by
  have hready : g.writable e = true := by
    by_contra hnot
    obtain ⟨failure, htrue, hfalse⟩ := @entryText_of_not_writable g
      packageNameToGenerate e (Bool.eq_false_iff.mpr hnot)
    cases java
    · rw [hfalse] at h
      cases h
    · rw [htrue] at h
      cases h
  have hdoc (hjava : java = true) : g.Documentable packageNameToGenerate e := by
    subst hjava
    by_contra hnot
    rcases entryText_error hready hnot with herror | herror
    · rw [herror] at h
      cases h
    · rw [herror] at h
      cases h
  obtain rfl := Except.ok.inj ((entryText_ok hready hdoc).symm.trans h)
  refine ⟨firstLine g packageNameToGenerate e :: _, ?_, by rw [flatMap_indexItem java]; rfl⟩
  rw [Describes, firstLine, positions]
  split_ifs
  · refine ⟨_, _, rfl, fun line hline => ?_⟩
    obtain ⟨p, hp, rfl⟩ := List.mem_map.mp hline
    obtain ⟨hmem, hget⟩ := mem_attrs_of_mem_zipIdx (List.mem_filter.mp hp).1
    refine ⟨p.1, hmem, p.2, rfl, ?_⟩
    rw [List.getElem?_map, hget]
    rfl
  · rfl

/-- Results that are the same as options are the same. -/
theorem map_some_injective {ε α : Type} {x y : Except ε α} (h : x.map some = y.map some) :
    x = y := by
  cases x with
  | error e =>
      cases y with
      | error e' => exact congrArg Except.error (Except.error.inj h)
      | ok b => cases h
  | ok a =>
      cases y with
      | error e' => cases h
      | ok b => exact congrArg Except.ok (Option.some.inj (Except.ok.inj h))

/-- The lines of a run. -/
theorem described_generate {java : Bool} {s : State}
    (h : g.generate packageNameToGenerate java true = .ok s) :
    ∃ blocks, List.Forall₂ (g.Describes packageNameToGenerate) (g.written packageNameToGenerate)
      blocks ∧ s.rTxt = some (linesText blocks.flatten) := by
  have hrun := map_rTxt_generate g packageNameToGenerate java
  rw [h] at hrun
  cases hall : emitAll (g.entryText packageNameToGenerate java)
    (g.written packageNameToGenerate) with
  | error failure =>
      rw [hall] at hrun
      cases hrun
  | ok t =>
      rw [hall] at hrun
      obtain ⟨blocks, hblocks, rfl⟩ := exists_parts hall fun e _ u hu => exists_describes hu
      exact ⟨blocks, hblocks, Except.ok.inj hrun⟩

variable (g packageNameToGenerate)

/-- **When `R.txt` does not depend on the class**: every entry before the first one that is not
writable can be documented, and if all are writable, no index has an attribute that is removed. -/
theorem rTxtAlone_iff :
    g.RTxtAlone packageNameToGenerate
      ↔ (∀ e ∈ (g.written packageNameToGenerate).takeWhile g.writable,
          g.Documentable packageNameToGenerate e)
        ∧ ((∀ e ∈ g.written packageNameToGenerate, g.writable e = true) →
          ∀ e ∈ g.written packageNameToGenerate, ¬ g.HasRemoved packageNameToGenerate e) := by
  have hsame : g.RTxtAlone packageNameToGenerate
      ↔ emitAll (g.entryText packageNameToGenerate true) (g.written packageNameToGenerate)
        = emitAll (g.entryText packageNameToGenerate false) (g.written packageNameToGenerate) := by
    constructor
    · intro h
      have hsame := h.same
      rw [map_rTxt_generate, map_rTxt_generate] at hsame
      exact map_some_injective hsame
    · intro h
      refine ⟨?_, fun java s => described_generate⟩
      rw [map_rTxt_generate, map_rTxt_generate, h]
  rw [hsame, twoRuns.emitAll_eq_iff]
  refine and_congr_right fun hdoc => forall_congr' fun hready => ?_
  have hall : (g.written packageNameToGenerate).takeWhile g.writable
      = g.written packageNameToGenerate := List.takeWhile_eq_self_iff.mpr hready
  rw [hall] at hdoc
  exact forall₂_congr fun e he => entryText_eq_iff (hready e he) (hdoc e he)

/-- A generator for the styleable `S` with the attribute `a`, whose comment is `@removed`. -/
def removedStyleable : JavaClassGenerator where
  minSdkVersion := 26
  findByReference _ := some ⟨some ⟨1, [], bytes "@removed"⟩, true, false⟩
  table := ⟨[⟨bytes "app", [⟨⟨bytes "styleable", .kStyleable⟩, .kPublic, [{
    ResourceEntry.new (bytes "S") with
    values := [⟨SplitSelect.ResTableConfig.defaultConfig, [], some ⟨.styleable, .styleable
      [⟨some ⟨[], ⟨bytes "attr", .kAttr⟩, bytes "a"⟩, some ⟨0x7f010000⟩, none, .kAttribute, false,
        false, false, .default⟩] .default, false, true, none, .noFlag⟩, false⟩] }]⟩]⟩]⟩
  publicComment _ := []
  extractFirstSentence comment := comment
  std := .insertion
  options := ⟨true, none, .kAll, []⟩

/-- The index of the attribute is lost when the class is made. -/
theorem not_rTxtAlone_removedStyleable :
    (removedStyleable.generate (bytes "app") true true).map State.rTxt
        = .ok (some (bytes "int[] styleable S \x7b 0x7f010000 \x7d\n"))
      ∧ (removedStyleable.generate (bytes "app") false true).map State.rTxt
        = .ok (some (bytes "int[] styleable S \x7b 0x7f010000 \x7d\nint styleable S_a 0\n"))
      ∧ ¬ removedStyleable.RTxtAlone (bytes "app") := by
  have htrue : (removedStyleable.generate (bytes "app") true true).map State.rTxt
      = .ok (some (bytes "int[] styleable S \x7b 0x7f010000 \x7d\n")) := by rfl
  have hfalse : (removedStyleable.generate (bytes "app") false true).map State.rTxt
      = .ok (some (bytes "int[] styleable S \x7b 0x7f010000 \x7d\nint styleable S_a 0\n")) := by rfl
  refine ⟨htrue, hfalse, fun h => ?_⟩
  have hsame := h.same
  rw [htrue, hfalse] at hsame
  exact absurd (Option.some.inj (Except.ok.inj hsame)) (by decide)

end JavaClassGenerator

end AndroidSdk.Aapt2.JavaClass
