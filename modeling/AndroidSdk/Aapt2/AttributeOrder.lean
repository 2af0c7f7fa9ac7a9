import AndroidSdk.Aapt2.XmlFlattener
import AndroidSdk.Lib.Sorting

/-! # The order of attributes

`WriteAttributes` (`XmlFlattener.cpp`) sorts the attributes of each element with
`cmp_xml_attribute_by_id`: those with identifiers first, the others by namespace and name. An
attribute that is compiled but has no identifier, as in a static library, is compared by name with
one that is not compiled, but never the other way round.

* **`cmpXmlAttributeById_irrefl`**, **`cmpXmlAttributeById_trans`** — what holds of all attributes.
* **`SortsAlike`** — the comparison is a strict weak order on some attributes, so that they are
  sorted alike whatever order they come in.
* **`sortsAlike_iff`** — when it is. -/

namespace AndroidSdk.Aapt2.XmlFlattener

open Lib Xml

variable {α ν : Type}

/-! ## The comparison by cases -/

/-- Whether an attribute comes first by its namespace and its name. -/
def nameBefore (a b : Attribute α ν) : Bool :=
  (compare a.namespaceUri b.namespaceUri).then (compare a.name b.name) = .lt

/-- An attribute that is compiled, but has no identifier. -/
def CompiledOnly (a : Attribute α ν) : Prop :=
  a.compiledAttribute.isSome ∧ a.resourceId? = none

instance (a : Attribute α ν) : Decidable (CompiledOnly a) := inferInstanceAs (Decidable (_ ∧ _))

section Cases

variable {a b c : Attribute α ν}

/-- An attribute that is not compiled has no identifier. -/
theorem resourceId?_of_not_compiled (h : a.compiledAttribute = none) : a.resourceId? = none := by
  rw [Attribute.resourceId?, h]
  rfl

/-- The kinds of attributes without identifiers. -/
theorem not_compiled_or_compiledOnly (h : a.resourceId? = none) :
    a.compiledAttribute = none ∨ CompiledOnly a := by
  cases hcompiled : a.compiledAttribute with
  | none => exact .inl rfl
  | some compiled => exact .inr ⟨by rw [hcompiled]; rfl, h⟩

/-- Attributes with identifiers are compared by them. -/
theorem cmp_of_ids {i j : ResourceId} (ha : a.resourceId? = some i) (hb : b.resourceId? = some j) :
    cmpXmlAttributeById a b = decide (i.id.toNat < j.id.toNat) := by
  rw [cmpXmlAttributeById, ha, hb]

/-- An attribute with an identifier comes before one without. -/
theorem cmp_of_id_left {i : ResourceId} (ha : a.resourceId? = some i) (hb : b.resourceId? = none) :
    cmpXmlAttributeById a b = true := by
  rw [cmpXmlAttributeById, ha, hb]

/-- An attribute without an identifier does not come before one that is compiled. -/
theorem cmp_of_compiled_right (ha : a.resourceId? = none) (hb : b.compiledAttribute ≠ none) :
    cmpXmlAttributeById a b = false := by
  rw [cmpXmlAttributeById, ha]
  exact if_neg fun hnone => hb (Option.isNone_iff_eq_none.mp hnone)

/-- An attribute without an identifier is compared by name with one that is not compiled. -/
theorem cmp_of_not_compiled_right (ha : a.resourceId? = none) (hb : b.compiledAttribute = none) :
    cmpXmlAttributeById a b = nameBefore a b := by
  rw [cmpXmlAttributeById, ha]
  exact if_pos (Option.isNone_iff_eq_none.mpr hb)

/-- What comes before an attribute without an identifier, if that is not compiled. -/
theorem compiledAttribute_of_cmp (ha : a.resourceId? = none)
    (h : cmpXmlAttributeById a b = true) : b.compiledAttribute = none := by
  by_contra hb
  rw [cmp_of_compiled_right ha hb] at h
  cases h

/-- Names are in a strict weak order. -/
theorem nameBefore_strictWeakOn (l : List (Attribute α ν)) : StrictWeakOn nameBefore l :=
  @strictWeakOn_of_compare _ _ (compareLex (compareOn Prod.fst) (compareOn Prod.snd)) _
    (fun a : Attribute α ν => (a.namespaceUri, a.name)) nameBefore l
    fun _ _ _ _ => decide_eq_true_iff

end Cases

/-! ## What holds of all attributes -/

/-- No attribute comes before itself. -/
theorem cmpXmlAttributeById_irrefl (a : Attribute α ν) : cmpXmlAttributeById a a = false := by
  cases hid : a.resourceId? with
  | some i =>
      rw [cmp_of_ids hid hid]
      exact decide_eq_false (lt_irrefl _)
  | none =>
      by_cases hcompiled : a.compiledAttribute = none
      · rw [cmp_of_not_compiled_right hid hcompiled]
        exact (nameBefore_strictWeakOn [a]).irrefl a List.mem_cons_self
      · exact cmp_of_compiled_right hid hcompiled

/-- **Coming before is transitive.** -/
theorem cmpXmlAttributeById_trans {a b c : Attribute α ν} (hab : cmpXmlAttributeById a b = true)
    (hbc : cmpXmlAttributeById b c = true) : cmpXmlAttributeById a c = true := by
  cases ha : a.resourceId? with
  | some i =>
      cases hc : c.resourceId? with
      | none => exact cmp_of_id_left ha hc
      | some k =>
          cases hb : b.resourceId? with
          | none =>
              -- only attributes with identifiers come before one with an identifier
              rw [resourceId?_of_not_compiled (compiledAttribute_of_cmp hb hbc)] at hc
              cases hc
          | some j =>
              rw [cmp_of_ids ha hb, decide_eq_true_iff] at hab
              rw [cmp_of_ids hb hc, decide_eq_true_iff] at hbc
              rw [cmp_of_ids ha hc, decide_eq_true_iff]
              exact hab.trans hbc
  | none =>
      have hb := compiledAttribute_of_cmp ha hab
      have hbid := resourceId?_of_not_compiled hb
      have hc := compiledAttribute_of_cmp hbid hbc
      rw [cmp_of_not_compiled_right ha hb] at hab
      rw [cmp_of_not_compiled_right hbid hc] at hbc
      rw [cmp_of_not_compiled_right ha hc]
      exact (nameBefore_strictWeakOn [a, b, c]).trans a (by simp) b (by simp) c (by simp) hab hbc

/-! ## When attributes are sorted alike -/

/-- **The attributes are sorted alike**: the comparison is a strict weak order on them (irreflexive
and transitive, and so is not being ordered), and sorting them in any two orders gives the same, up
to attributes that are not ordered. -/
def SortsAlike (l : List (Attribute α ν)) : Prop :=
  (∀ a ∈ l, cmpXmlAttributeById a a = false)
    ∧ (∀ a ∈ l, ∀ b ∈ l, ∀ c ∈ l, cmpXmlAttributeById a b = true →
      cmpXmlAttributeById b c = true → cmpXmlAttributeById a c = true)
    ∧ (∀ a ∈ l, ∀ b ∈ l, ∀ c ∈ l, Incomparable cmpXmlAttributeById a b →
      Incomparable cmpXmlAttributeById b c → Incomparable cmpXmlAttributeById a c)
    ∧ ∀ (std : StdSort) (l' : List (Attribute α ν)), l'.Perm l →
      List.Forall₂ (Incomparable cmpXmlAttributeById) (std.sort cmpXmlAttributeById l')
        (std.sort cmpXmlAttributeById l)

/-- **Every attribute that is not compiled keeps apart those without identifiers**: by their names,
all those that are compiled come before it, or none of the others does. -/
def NamesApart (l : List (Attribute α ν)) : Prop :=
  ∀ n ∈ l, n.compiledAttribute = none →
    (∀ a ∈ l, CompiledOnly a → nameBefore a n = true)
      ∨ ∀ a ∈ l, a.resourceId? = none → nameBefore a n = false

section NamesApart

variable {l : List (Attribute α ν)}

/-- What an attribute with an identifier does not come before has one, too, which is no greater. -/
theorem exists_id_of_not_cmp {a b : Attribute α ν} {i : ResourceId} (ha : a.resourceId? = some i)
    (h : cmpXmlAttributeById a b = false) :
    ∃ j, b.resourceId? = some j ∧ j.id.toNat ≤ i.id.toNat := by
  cases hb : b.resourceId? with
  | none =>
      rw [cmp_of_id_left ha hb] at h
      cases h
  | some j =>
      rw [cmp_of_ids ha hb, decide_eq_false_iff_not, not_lt] at h
      exact ⟨j, rfl, h⟩

/-- Not coming before is transitive where the names are apart. -/
theorem not_cmp_trans (h : NamesApart l) {a b c : Attribute α ν} (ha : a ∈ l) (hb : b ∈ l)
    (hc : c ∈ l) (hab : cmpXmlAttributeById a b = false) (hbc : cmpXmlAttributeById b c = false) :
    cmpXmlAttributeById a c = false := by
  cases haid : a.resourceId? with
  | some i =>
      obtain ⟨j, hbid, hji⟩ := exists_id_of_not_cmp haid hab
      obtain ⟨k, hcid, hkj⟩ := exists_id_of_not_cmp hbid hbc
      rw [cmp_of_ids haid hcid, decide_eq_false_iff_not, not_lt]
      exact hkj.trans hji
  | none =>
      by_cases hcompiled : c.compiledAttribute = none
      · rw [cmp_of_not_compiled_right haid hcompiled]
        cases hbid : b.resourceId? with
        | some j =>
            rw [cmp_of_id_left hbid (resourceId?_of_not_compiled hcompiled)] at hbc
            cases hbc
        | none =>
            rw [cmp_of_not_compiled_right hbid hcompiled] at hbc
            rcases not_compiled_or_compiledOnly hbid with hbcompiled | hbcompiled
            · rw [cmp_of_not_compiled_right haid hbcompiled] at hab
              exact (nameBefore_strictWeakOn l).not_lt_trans a ha b hb c hc hab hbc
            · -- one that is compiled does not come before the last, so nothing does
              rcases h c hc hcompiled with hall | hnone
              · rw [hall b hb hbcompiled] at hbc
                cases hbc
              · exact hnone a ha haid
      · exact cmp_of_compiled_right haid hcompiled

/-- Where the names are apart, the comparison is a strict weak order. -/
theorem NamesApart.strictWeakOn (h : NamesApart l) : StrictWeakOn cmpXmlAttributeById l where
  irrefl a _ := cmpXmlAttributeById_irrefl a
  trans _ _ _ _ _ _ hab hbc := cmpXmlAttributeById_trans hab hbc
  not_lt_trans _ ha _ hb _ hc hab hbc := not_cmp_trans h ha hb hc hab hbc

/-- Where the comparison is a strict weak order, the names are apart. -/
theorem namesApart_of_strictWeakOn (h : StrictWeakOn cmpXmlAttributeById l) : NamesApart l := by
  intro n hn hcompiled
  by_cases hall : ∀ a ∈ l, CompiledOnly a → nameBefore a n = true
  · exact .inl hall
  right
  push Not at hall
  obtain ⟨c, hc, hcompiledOnly, hnot⟩ := hall
  intro a ha haid
  -- neither does the one come before the compiled one, nor that before the other
  have hac : cmpXmlAttributeById a c = false :=
    cmp_of_compiled_right haid (Option.isSome_iff_ne_none.mp hcompiledOnly.1)
  have hcn : cmpXmlAttributeById c n = false := by
    rw [cmp_of_not_compiled_right hcompiledOnly.2 hcompiled]
    simpa using hnot
  rw [← cmp_of_not_compiled_right haid hcompiled]
  exact h.not_lt_trans a ha c hc n hn hac hcn

/-- **Attributes are sorted alike exactly where the names are apart.** -/
theorem sortsAlike_iff (l : List (Attribute α ν)) : SortsAlike l ↔ NamesApart l := by
  constructor
  · rintro ⟨hirrefl, htrans, hincomparable, -⟩
    exact namesApart_of_strictWeakOn (strictWeakOn_iff.mpr ⟨hirrefl, htrans, hincomparable⟩)
  · intro h
    have hweak := h.strictWeakOn
    obtain ⟨hirrefl, htrans, hincomparable⟩ := strictWeakOn_iff.mp hweak
    refine ⟨hirrefl, htrans, hincomparable, fun std l' hperm => ?_⟩
    have hweak' := hweak.of_subset hperm.subset
    exact hweak.forall₂_incomparable ((std.perm hweak').trans hperm) (std.perm hweak)
      (std.sorted hweak') (std.sorted hweak)

end NamesApart

/-- An attribute of a static library with the given name, compiled or not. -/
def libraryAttribute (name : String) (compiled : Bool) : Attribute Unit Unit where
  namespaceUri := []
  name := bytes name
  value := []
  compiledAttribute := if compiled then some ⟨(), none⟩ else none
  compiledValue := none

/-- An attribute that is not compiled comes between two that are compiled, which are not ordered. -/
theorem not_sortsAlike_libraryAttribute :
    ¬ SortsAlike [libraryAttribute "alpha" true, libraryAttribute "layout" false,
      libraryAttribute "title" true] := by
  intro h
  have hnot := h.2.2.1 (libraryAttribute "alpha" true) (by simp) (libraryAttribute "title" true)
    (by simp) (libraryAttribute "layout" false) (by simp) ⟨by decide, by decide⟩
    ⟨by decide, by decide⟩
  exact absurd hnot.1 (by decide)

end AndroidSdk.Aapt2.XmlFlattener
