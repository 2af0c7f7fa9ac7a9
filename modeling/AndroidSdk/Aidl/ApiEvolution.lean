import AndroidSdk.Aidl.CheckApi
import AndroidSdk.Lib.KeyedMatch

/-! # Evolution of interface definitions

Every rule of the comparison of two API dumps holds from a dump to itself, and every rule but three
composes over two steps. The three are rules on fields: a field may be renamed, so that its name is
free to come back at another place; an added field may lose its `@nullable`; and the zero of an enum
is taken from the types of the newer dump.

* **`FieldsEvolve`** — the three rules.
* **`DefinitionKept`** — all others, which compose (`DefinitionKept.trans`).
* **`checkApi_evolution`** — two accepted steps make an accepted step exactly where the three rules
  hold between the ends. -/

namespace AndroidSdk.Aidl

open Lib

/-! ## Annotations and types -/

theorem haveCompatibleAnnotations_iff {a b : List Annotation} : haveCompatibleAnnotations a b = true ↔
    sortBy compare id (getStrictAnnotations a) = sortBy compare id (getStrictAnnotations b) := by
  simp [haveCompatibleAnnotations]

theorem haveCompatibleAnnotations_refl (a : List Annotation) : haveCompatibleAnnotations a a = true := by
  rw [haveCompatibleAnnotations_iff]

theorem haveCompatibleAnnotations_trans {a b c : List Annotation}
    (h₁ : haveCompatibleAnnotations a b = true) (h₂ : haveCompatibleAnnotations b c = true) :
    haveCompatibleAnnotations a c = true := by
  rw [haveCompatibleAnnotations_iff] at *
  exact h₁.trans h₂

/-- Compatible annotations have the same strict ones. -/
theorem mem_getStrictAnnotations_iff {a b : List Annotation} (h : haveCompatibleAnnotations a b = true)
    (s : Bytes) : s ∈ getStrictAnnotations a ↔ s ∈ getStrictAnnotations b := by
  rw [haveCompatibleAnnotations_iff] at h
  have hsort (l : List Bytes) : s ∈ sortBy compare id l ↔ s ∈ l := (sortBy_perm l).mem_iff
  rw [← hsort, h, hsort]

/-- The name of an annotation has no parenthesis. -/
theorem AnnotationType.paren_notMem_name (type : AnnotationType) : 40 ∉ type.name := by
  cases type <;> decide

/-- Only one type of annotations has the name of `@FixedSize`. -/
theorem AnnotationType.eq_fixedSize {type : AnnotationType}
    (h : type.name = AnnotationType.fixedSize.name) : type = .fixedSize := by
  cases type <;> first | rfl | exact absurd h (by decide)

/-- The text of an annotation up to a parenthesis is its name. -/
theorem Annotation.takeWhile_toString (a : Annotation) :
    a.toString.takeWhile (· ≠ 40) = bytes "@" ++ a.type.name := by
  have hname : ∀ x ∈ bytes "@" ++ a.type.name, decide (x ≠ 40) = true := by
    intro x hx
    rcases List.mem_append.mp hx with hx | hx
    · have hat : x = 64 := List.mem_singleton.mp hx
      rw [hat]
      decide
    · exact decide_eq_true fun h => a.type.paren_notMem_name (h ▸ hx)
  unfold Annotation.toString
  split
  · exact List.takeWhile_eq_self_iff.mpr hname
  · rw [List.append_assoc, List.append_assoc, List.takeWhile_append_of_pos hname]
    exact List.append_nil _

/-- An annotation `@FixedSize` is strict, whatever its parameters are. -/
theorem toString_mem_getStrictAnnotations {annotations : List Annotation} {a : Annotation}
    (ha : a ∈ annotations) (htype : a.type = .fixedSize) :
    a.toString ∈ getStrictAnnotations annotations := by
  refine List.mem_filter.mpr ⟨List.mem_map_of_mem (List.mem_filter.mpr ⟨ha, ?_⟩), ?_⟩
  · rw [htype]
    decide
  · unfold Annotation.toString
    rw [htype]
    split <;> rfl

/-- Compatible annotations agree on `@FixedSize`. -/
theorem isAnnotated_fixedSize_of_compatible {a b : List Annotation}
    (h : haveCompatibleAnnotations a b = true) (hb : isAnnotated .fixedSize b = true) :
    isAnnotated .fixedSize a = true := by
  obtain ⟨y, hy, htype⟩ := List.any_eq_true.mp hb
  have hstrict := toString_mem_getStrictAnnotations hy (by simpa using htype)
  rw [← mem_getStrictAnnotations_iff h] at hstrict
  obtain ⟨x, hx, hxy⟩ := List.mem_map.mp (List.mem_filter.mp hstrict).1
  refine List.any_eq_true.mpr ⟨x, (List.mem_filter.mp hx).1, decide_eq_true ?_⟩
  -- the texts agree, and so do the names in them
  have hnames := congrArg (List.takeWhile (· ≠ 40)) hxy
  rw [x.takeWhile_toString, y.takeWhile_toString] at hnames
  apply AnnotationType.eq_fixedSize
  rw [List.append_cancel_left hnames, show y.type = .fixedSize by simpa using htype]

theorem areCompatibleTypes_refl (t : TypeSpecifier) : areCompatibleTypes t t = true := by
  simp [areCompatibleTypes, haveCompatibleAnnotations_refl]

theorem areCompatibleTypes_trans {t u v : TypeSpecifier} (h₁ : areCompatibleTypes t u = true)
    (h₂ : areCompatibleTypes u v = true) : areCompatibleTypes t v = true := by
  simp only [areCompatibleTypes, Bool.and_eq_true, decide_eq_true_eq] at *
  exact ⟨h₁.1.trans h₂.1, haveCompatibleAnnotations_trans h₁.2 h₂.2⟩

/-! ## Methods -/

/-- What the comparison of two methods asks for. -/
theorem areCompatibleMethods_iff {m n : Method} : areCompatibleMethods m n = true ↔
    (n.oneway = true → m.oneway = true) ∧ m.id = n.id ∧ areCompatibleTypes m.type n.type = true ∧
    m.arguments.length = n.arguments.length ∧
    ∀ (i : ℕ) (a b : Argument), m.arguments[i]? = some a → n.arguments[i]? = some b →
      areCompatibleTypes a.type b.type = true ∧ a.direction = b.direction := by
  rw [areCompatibleMethods]
  simp only [Bool.and_eq_true, zip_all_eq_true_iff, areCompatibleArguments, decide_eq_true_eq,
    and_assoc]
  cases m.oneway <;> cases n.oneway <;> simp

theorem areCompatibleMethods_refl (m : Method) : areCompatibleMethods m m = true := by
  refine areCompatibleMethods_iff.mpr ⟨id, rfl, areCompatibleTypes_refl _, rfl, ?_⟩
  intro i a b ha hb
  obtain rfl : a = b := by simpa [ha] using hb
  exact ⟨areCompatibleTypes_refl _, rfl⟩

theorem areCompatibleMethods_trans {m n o : Method} (h₁ : areCompatibleMethods m n = true)
    (h₂ : areCompatibleMethods n o = true) : areCompatibleMethods m o = true := by
  rw [areCompatibleMethods_iff] at *
  obtain ⟨honeway₁, hid₁, htype₁, hlength₁, harguments₁⟩ := h₁
  obtain ⟨honeway₂, hid₂, htype₂, hlength₂, harguments₂⟩ := h₂
  refine ⟨honeway₁ ∘ honeway₂, hid₁.trans hid₂, areCompatibleTypes_trans htype₁ htype₂,
    hlength₁.trans hlength₂, ?_⟩
  intro i a c ha hc
  -- the method in between has as many arguments
  have hi : i < n.arguments.length := hlength₁ ▸ (List.getElem?_eq_some_iff.mp ha).1
  have hb := List.getElem?_eq_getElem hi
  obtain ⟨hab, hdirection₁⟩ := harguments₁ i a _ ha hb
  obtain ⟨hbc, hdirection₂⟩ := harguments₂ i _ c hb hc
  exact ⟨areCompatibleTypes_trans hab hbc, hdirection₁.trans hdirection₂⟩

/-- Methods are matched by their signature. -/
theorem areCompatibleInterfaces_iff {older newer : List Method} :
    areCompatibleInterfaces older newer = true ↔
    Matches Method.signature (fun l s => l.find? fun m => m.signature = s)
      (fun m n => areCompatibleMethods m n = true) older newer := by
  rw [areCompatibleInterfaces, List.all_eq_true]
  refine forall₂_congr fun m _ => ?_
  show _ ↔ ∃ n, newer.find? (fun n => n.signature = m.signature) = some n ∧ _
  cases newer.find? fun n => n.signature = m.signature <;> simp

theorem areCompatibleInterfaces_trans {a b c : List Method}
    (h₁ : areCompatibleInterfaces a b = true) (h₂ : areCompatibleInterfaces b c = true) :
    areCompatibleInterfaces a c = true := by
  rw [areCompatibleInterfaces_iff] at *
  exact h₁.comp (isLookup_find? _) h₂ fun _ _ _ _ => areCompatibleMethods_trans

/-- The signature of a method up to the parenthesis is its name. -/
theorem Method.takeWhile_signature {m : Method} (h : 40 ∉ m.name) :
    m.signature.takeWhile (· ≠ 40) = m.name := by
  have hname : ∀ x ∈ m.name, decide (x ≠ 40) = true := by
    intro x hx
    exact decide_eq_true fun heq => h (heq ▸ hx)
  rw [Method.signature, List.append_assoc, List.append_assoc, List.takeWhile_append_of_pos hname]
  exact List.append_nil _

/-- Methods of distinct names have distinct signatures. -/
theorem nodup_signature {methods : List Method} (hnodup : (methods.map (·.name)).Nodup)
    (hnames : ∀ m ∈ methods, 40 ∉ m.name) : (methods.map Method.signature).Nodup := by
  refine List.Nodup.of_map (List.takeWhile (· ≠ 40)) ?_
  rw [List.map_map]
  convert hnodup using 1
  refine List.map_congr_left fun m hm => ?_
  exact Method.takeWhile_signature (hnames m hm)

theorem areCompatibleInterfaces_refl {methods : List Method}
    (hnodup : (methods.map (·.name)).Nodup) (hnames : ∀ m ∈ methods, 40 ∉ m.name) :
    areCompatibleInterfaces methods methods = true := by
  rw [areCompatibleInterfaces_iff]
  exact Matches.refl (isLookup_find? _) (nodup_signature hnodup hnames) fun m _ =>
    areCompatibleMethods_refl m

section Values

variable {ν : Type} {printed : ν → TypeSpecifier → Bytes}

/-! ## Constants and enumerators -/

/-- Constants are matched by their name. -/
theorem areCompatibleConstants_iff {older newer : List (ConstantDeclaration ν)} :
    areCompatibleConstants printed older newer = true ↔
    Matches ConstantDeclaration.name (fun l s => l.findRev? fun c => c.name = s)
      (fun c d => areCompatibleTypes c.type d.type = true ∧
        c.valueString printed = d.valueString printed) older newer := by
  rw [areCompatibleConstants, List.all_eq_true]
  refine forall₂_congr fun c _ => ?_
  show _ ↔ ∃ d, newer.findRev? (fun d => d.name = c.name) = some d ∧ _
  cases newer.findRev? fun d => d.name = c.name <;> simp

theorem areCompatibleConstants_refl {constants : List (ConstantDeclaration ν)}
    (hnodup : (constants.map (·.name)).Nodup) :
    areCompatibleConstants printed constants constants = true := by
  rw [areCompatibleConstants_iff]
  exact Matches.refl (isLookup_findRev? _) hnodup fun c _ => ⟨areCompatibleTypes_refl _, rfl⟩

theorem areCompatibleConstants_trans {a b c : List (ConstantDeclaration ν)}
    (h₁ : areCompatibleConstants printed a b = true)
    (h₂ : areCompatibleConstants printed b c = true) :
    areCompatibleConstants printed a c = true := by
  rw [areCompatibleConstants_iff] at *
  refine h₁.comp (isLookup_findRev? _) h₂ fun x y z _ hxy hyz => ?_
  exact ⟨areCompatibleTypes_trans hxy.1 hyz.1, hxy.2.trans hyz.2⟩

/-- Every name of an enumerator is kept with the last value it has. -/
theorem areCompatibleEnums_iff {older newer : EnumDeclaration ν} :
    areCompatibleEnums printed older newer = true ↔
    ∀ e ∈ older.enumerators, ∃ o n,
      older.enumerators.findRev? (fun x => x.name = e.name) = some o ∧
      newer.enumerators.findRev? (fun x => x.name = e.name) = some n ∧
      printed o.value older.backingType = printed n.value newer.backingType := by
  rw [areCompatibleEnums, List.all_eq_true]
  refine forall₂_congr fun e _ => ?_
  cases older.enumerators.findRev? fun x => x.name = e.name <;>
    cases newer.enumerators.findRev? fun x => x.name = e.name <;> simp

theorem areCompatibleEnums_refl (decl : EnumDeclaration ν) :
    areCompatibleEnums printed decl decl = true := by
  rw [areCompatibleEnums_iff]
  intro e he
  obtain ⟨o, ho⟩ := (isLookup_findRev? Enumerator.name).found he
  exact ⟨o, o, ho, ho, rfl⟩

theorem areCompatibleEnums_trans {a b c : EnumDeclaration ν}
    (h₁ : areCompatibleEnums printed a b = true) (h₂ : areCompatibleEnums printed b c = true) :
    areCompatibleEnums printed a c = true := by
  rw [areCompatibleEnums_iff] at *
  intro e he
  obtain ⟨o, n, ho, hn, hvalue₁⟩ := h₁ e he
  -- the enumerator found in the second enum is looked up under the same name
  obtain ⟨hmem, hname⟩ := (isLookup_findRev? Enumerator.name).mem hn
  obtain ⟨n', p, hn', hp, hvalue₂⟩ := h₂ n hmem
  rw [hname] at hn' hp
  rw [hn, Option.some.injEq] at hn'
  exact ⟨o, p, ho, hp, hvalue₁.trans (hn' ▸ hvalue₂)⟩

/-! ## Fields -/

variable (printed) in
/-- The rules on the fields of two types that compose: fields are added at the end and not to fixed
types, and the fields that were there keep their types and their explicit defaults. -/
structure FieldsKept (canonicalName : Bytes) (fixedSize : Bool) (old_fields new_fields : List (Field ν)) :
    Prop where
  length_le : old_fields.length ≤ new_fields.length
  fixedSize : fixedSize = true → old_fields.length = new_fields.length
  frozen : canonicalName = bytes "android.net.UidRangeParcel" → old_fields.length = new_fields.length
  types : ∀ (i : ℕ) (f g : Field ν), old_fields[i]? = some f → new_fields[i]? = some g →
    areCompatibleTypes f.type g.type = true
  values : ∀ (i : ℕ) (f g : Field ν), old_fields[i]? = some f → new_fields[i]? = some g →
    f.valueString printed ≠ [] → f.valueString printed = g.valueString printed

variable (printed) in
/-- The rules on the fields of two types that do not: a field without a default has none or the zero
of its enum, a name stays at its place, and added fields have defaults. -/
structure FieldsEvolve (isUnion : Bool) (new_types : Typenames ν) (canonicalName : Bytes)
    (old_fields new_fields : List (Field ν)) : Prop where
  defaults : ∀ (i : ℕ) (f g : Field ν), old_fields[i]? = some f → new_fields[i]? = some g →
    f.valueString printed = [] → g.valueString printed = [] ∨
      ∃ decl, new_types.getEnumDeclaration g.type = some decl ∧
        evaluatesToZero printed decl g.defaultValue = true
  places : ∀ (i j : ℕ) (f g : Field ν), old_fields[i]? = some f → new_fields[j]? = some g →
    f.name = g.name → i = j
  added : isUnion = false → ∀ g ∈ new_fields.drop old_fields.length,
    newFieldHasDefault printed new_types canonicalName g = true

/-- The comparison of two fields at one place. -/
theorem areCompatibleFields_iff {new_types : Typenames ν} {f g : Field ν} :
    areCompatibleFields printed new_types f g = true ↔
    areCompatibleTypes f.type g.type = true ∧
    (f.valueString printed ≠ [] → f.valueString printed = g.valueString printed) ∧
    (f.valueString printed = [] → g.valueString printed = [] ∨
      ∃ decl, new_types.getEnumDeclaration g.type = some decl ∧
        evaluatesToZero printed decl g.defaultValue = true) := by
  rw [areCompatibleFields, Bool.and_eq_true]
  refine and_congr_right fun _ => ?_
  by_cases h : f.valueString printed = []
  · simp only [h, ne_eq, not_true_eq_false, false_imp_iff, true_and, true_imp_iff, decide_true,
      Bool.true_and, Bool.or_eq_true, decide_eq_true_eq]
    refine or_congr eq_comm ?_
    cases new_types.getEnumDeclaration g.type <;> simp
  · simp [h]

/-- With distinct names, the search for a moved name is a comparison of all places. -/
theorem keepsOrder_iff {old_fields new_fields : List (Field ν)}
    (hnodup : (old_fields.map (·.name)).Nodup) : keepsOrder old_fields new_fields = true ↔
    ∀ (i j : ℕ) (f g : Field ν), old_fields[i]? = some f → new_fields[j]? = some g →
      f.name = g.name → i = j := by
  -- the search finds the only place of a name
  have hfind : ∀ (i : ℕ) (f g : Field ν), old_fields[i]? = some f → f.name = g.name →
      old_fields.findIdx? (g.name = ·.name) = some i := by
    intro i f g hf hname
    obtain ⟨hi, rfl⟩ := List.getElem?_eq_some_iff.mp hf
    refine List.findIdx?_eq_some_iff_getElem.mpr ⟨hi, decide_eq_true hname.symm, ?_⟩
    intro k hk heq
    have hsame : (old_fields.map (·.name))[k]? = (old_fields.map (·.name))[i]? := by
      rw [List.getElem?_map, List.getElem?_map, List.getElem?_eq_getElem hi,
        List.getElem?_eq_getElem (hk.trans hi)]
      simpa using (of_decide_eq_true heq).symm.trans hname.symm
    have hlt : k < (old_fields.map (·.name)).length := by
      rw [List.length_map]
      exact hk.trans hi
    exact hk.ne ((List.getElem?_inj hlt hnodup).mp hsame)
  rw [keepsOrder, List.all_eq_true]
  constructor
  · intro h i j f g hf hg hname
    have hj := h (g, j) (List.mem_zipIdx_iff_getElem?.mpr hg)
    simp only [hfind i f g hf hname] at hj
    exact of_decide_eq_true hj
  · rintro h ⟨g, j⟩ hmem
    have hg := List.mem_zipIdx_iff_getElem?.mp hmem
    cases hsearch : old_fields.findIdx? (g.name = ·.name) with
    | none => simp [hsearch]
    | some i =>
      simp only [hsearch]
      obtain ⟨hi, hname, -⟩ := List.findIdx?_eq_some_iff_getElem.mp hsearch
      have hij := h i j _ g (List.getElem?_eq_getElem hi) hg (of_decide_eq_true hname).symm
      exact decide_eq_true hij

/-- The comparison of the fields of two types. -/
theorem areCompatibleParcelables_iff {isUnion fixedSize : Bool} {canonicalName : Bytes}
    {new_types : Typenames ν} {old_fields new_fields : List (Field ν)}
    (hnodup : (old_fields.map (·.name)).Nodup) :
    areCompatibleParcelables printed isUnion canonicalName new_types fixedSize old_fields new_fields
      = true ↔
    FieldsKept printed canonicalName fixedSize old_fields new_fields ∧
    FieldsEvolve printed isUnion new_types canonicalName old_fields new_fields := by
  have hguard : ∀ {a b : Bool}, (!(a && b)) = true ↔ (a = true → b = false) := by decide
  simp only [areCompatibleParcelables, Bool.and_eq_true, hguard, zip_all_eq_true_iff,
    areCompatibleFields_iff, keepsOrder_iff hnodup, decide_eq_true_eq, decide_eq_false_iff_not, ne_eq,
    not_not, Bool.not_eq_true', not_lt, Bool.or_eq_true]
  rw [List.all_eq_true]
  constructor
  · rintro ⟨⟨⟨⟨⟨hle, hfixed⟩, hfrozen⟩, hfields⟩, hplaces⟩, hadded⟩
    refine ⟨⟨hle, hfixed, hfrozen, ?_, ?_⟩, ?_, hplaces, ?_⟩
    · exact fun i f g hf hg => (hfields i f g hf hg).1
    · exact fun i f g hf hg => (hfields i f g hf hg).2.1
    · exact fun i f g hf hg => (hfields i f g hf hg).2.2
    · exact fun hunion => hadded.resolve_left (by simp [hunion])
  · rintro ⟨hkept, hevolve⟩
    refine ⟨⟨⟨⟨⟨hkept.length_le, hkept.fixedSize⟩, hkept.frozen⟩, ?_⟩, hevolve.places⟩, ?_⟩
    · exact fun i f g hf hg => ⟨hkept.types i f g hf hg, hkept.values i f g hf hg,
        hevolve.defaults i f g hf hg⟩
    · cases isUnion with
      | true => exact Or.inl rfl
      | false => exact Or.inr (hevolve.added rfl)

theorem FieldsKept.refl (canonicalName : Bytes) (fixedSize : Bool) (fields : List (Field ν)) :
    FieldsKept printed canonicalName fixedSize fields fields where
  length_le := le_rfl
  fixedSize _ := rfl
  frozen _ := rfl
  types i f g hf hg := by
    obtain rfl : f = g := by simpa [hf] using hg
    exact areCompatibleTypes_refl _
  values i f g hf hg _ := by
    obtain rfl : f = g := by simpa [hf] using hg
    rfl

theorem FieldsKept.trans {canonicalName : Bytes} {fixed₁ fixed₂ : Bool} {a b c : List (Field ν)}
    (h₁ : FieldsKept printed canonicalName fixed₁ a b) (h₂ : FieldsKept printed canonicalName fixed₂ b c)
    (hfixed : fixed₂ = true → fixed₁ = true) : FieldsKept printed canonicalName fixed₂ a c := by
  -- a place of the first fields is one of the fields in between
  have hbetween : ∀ (i : ℕ) (f : Field ν), a[i]? = some f → ∃ g, b[i]? = some g := by
    intro i f hf
    have hi : i < b.length := (List.getElem?_eq_some_iff.mp hf).1.trans_le h₁.length_le
    exact ⟨_, List.getElem?_eq_getElem hi⟩
  refine ⟨h₁.length_le.trans h₂.length_le, ?_, ?_, ?_, ?_⟩
  · exact fun hf => (h₁.fixedSize (hfixed hf)).trans (h₂.fixedSize hf)
  · exact fun hname => (h₁.frozen hname).trans (h₂.frozen hname)
  · intro i f h hf hh
    obtain ⟨g, hg⟩ := hbetween i f hf
    exact areCompatibleTypes_trans (h₁.types i f g hf hg) (h₂.types i g h hg hh)
  · intro i f h hf hh hne
    obtain ⟨g, hg⟩ := hbetween i f hf
    have hfg := h₁.values i f g hf hg hne
    exact hfg.trans (h₂.values i g h hg hh (hfg ▸ hne))

theorem FieldsEvolve.refl (isUnion : Bool) (new_types : Typenames ν) (canonicalName : Bytes)
    {fields : List (Field ν)} (hnodup : (fields.map (·.name)).Nodup) :
    FieldsEvolve printed isUnion new_types canonicalName fields fields where
  defaults i f g hf hg hvalue := by
    obtain rfl : f = g := by simpa [hf] using hg
    exact Or.inl hvalue
  places i j f g hf hg hname := by
    obtain ⟨hi, rfl⟩ := List.getElem?_eq_some_iff.mp hf
    have hlt : i < (fields.map (·.name)).length := by simpa using hi
    apply (List.getElem?_inj hlt hnodup).mp
    rw [List.getElem?_map, List.getElem?_map, hf, hg]
    simpa using hname
  added _ g hg := by simp at hg

/-! ## Types -/

variable (printed) in
/-- The rules on two types that compose. -/
def DefinitionKept (older newer : DefinedType ν) : Prop :=
  haveCompatibleAnnotations older.annotations newer.annotations = true ∧
  match older.declaration, newer.declaration with
  | .interface old_methods, .interface new_methods =>
      areCompatibleInterfaces old_methods new_methods = true ∧
        areCompatibleConstants printed older.constants newer.constants = true
  | .structuredParcelable old_fields, .structuredParcelable new_fields
  | .union old_fields, .union new_fields =>
      FieldsKept printed older.canonicalName (isAnnotated .fixedSize newer.annotations) old_fields
        new_fields ∧
        areCompatibleConstants printed older.constants newer.constants = true
  | .unstructuredParcelable, _ => True
  | .enum old_decl, .enum new_decl => areCompatibleEnums printed old_decl new_decl = true
  | _, _ => False

variable (printed) in
/-- The rules on two types that do not compose, for types with fields. -/
def FieldsOfTypeEvolve (new_types : Typenames ν) (older newer : DefinedType ν) : Prop :=
  match older.declaration, newer.declaration with
  | .structuredParcelable old_fields, .structuredParcelable new_fields =>
      FieldsEvolve printed false new_types older.canonicalName old_fields new_fields
  | .union old_fields, .union new_fields =>
      FieldsEvolve printed true new_types older.canonicalName old_fields new_fields
  | _, _ => True

/-- The comparison of two types. -/
theorem areCompatibleDefinedTypes_iff {new_types : Typenames ν} {older newer : DefinedType ν}
    (hvalid : older.ValidNames) :
    areCompatibleDefinedTypes printed new_types older newer = true ↔
    DefinitionKept printed older newer ∧ FieldsOfTypeEvolve printed new_types older newer := by
  obtain ⟨name, file, annotations, constants, declaration⟩ := older
  obtain ⟨name', file', annotations', constants', declaration'⟩ := newer
  have hfields := hvalid.fields
  rw [areCompatibleDefinedTypes, Bool.and_eq_true, DefinitionKept, FieldsOfTypeEvolve, and_assoc]
  refine and_congr_right fun _ => ?_
  cases declaration with
  | structuredParcelable fields =>
    cases declaration' with
    | structuredParcelable fields' =>
      simp only [Bool.and_eq_true, areCompatibleParcelables_iff (hfields fields (Or.inl rfl))]
      tauto
    | _ => simp
  | union fields =>
    cases declaration' with
    | union fields' =>
      simp only [Bool.and_eq_true, areCompatibleParcelables_iff (hfields fields (Or.inr rfl))]
      tauto
    | _ => simp
  | _ => cases declaration' <;> simp

/-- A valid type is kept from itself to itself. -/
theorem areCompatibleDefinedTypes_refl (new_types : Typenames ν) {t : DefinedType ν}
    (hvalid : t.ValidNames) : areCompatibleDefinedTypes printed new_types t t = true := by
  rw [areCompatibleDefinedTypes_iff hvalid, DefinitionKept, FieldsOfTypeEvolve]
  have hconstants : areCompatibleConstants printed t.constants t.constants = true :=
    areCompatibleConstants_refl hvalid.constants
  have hannotations := haveCompatibleAnnotations_refl t.annotations
  cases h : t.declaration with
  | interface methods =>
    exact ⟨⟨hannotations, areCompatibleInterfaces_refl (hvalid.methods _ h) (hvalid.methodNames _ h),
      hconstants⟩, trivial⟩
  | structuredParcelable fields =>
    exact ⟨⟨hannotations, FieldsKept.refl _ _ _, hconstants⟩,
      FieldsEvolve.refl _ _ _ (hvalid.fields _ (Or.inl h))⟩
  | unstructuredParcelable => exact ⟨⟨hannotations, trivial⟩, trivial⟩
  | union fields =>
    exact ⟨⟨hannotations, FieldsKept.refl _ _ _, hconstants⟩,
      FieldsEvolve.refl _ _ _ (hvalid.fields _ (Or.inr h))⟩
  | enum decl => exact ⟨⟨hannotations, areCompatibleEnums_refl decl⟩, trivial⟩

/-- What composes, composes. -/
theorem DefinitionKept.trans {a b c : DefinedType ν} (hname : a.canonicalName = b.canonicalName)
    (h₁ : DefinitionKept printed a b) (h₂ : DefinitionKept printed b c) :
    DefinitionKept printed a c := by
  obtain ⟨name, file, annotations, constants, declaration⟩ := a
  obtain ⟨name', file', annotations', constants', declaration'⟩ := b
  obtain ⟨name'', file'', annotations'', constants'', declaration''⟩ := c
  obtain rfl : name = name' := hname
  obtain ⟨hannotations₁, hdeclaration₁⟩ := h₁
  obtain ⟨hannotations₂, hdeclaration₂⟩ := h₂
  refine ⟨haveCompatibleAnnotations_trans hannotations₁ hannotations₂, ?_⟩
  have hfixed := isAnnotated_fixedSize_of_compatible hannotations₂
  -- the kind of the first type decides the kind of the other two
  cases declaration with
  | interface methods =>
    cases declaration' with
    | interface methods' =>
      cases declaration'' with
      | interface methods'' =>
        exact ⟨areCompatibleInterfaces_trans hdeclaration₁.1 hdeclaration₂.1,
          areCompatibleConstants_trans hdeclaration₁.2 hdeclaration₂.2⟩
      | _ => exact hdeclaration₂.elim
    | _ => exact hdeclaration₁.elim
  | structuredParcelable fields =>
    cases declaration' with
    | structuredParcelable fields' =>
      cases declaration'' with
      | structuredParcelable fields'' =>
        exact ⟨hdeclaration₁.1.trans hdeclaration₂.1 hfixed,
          areCompatibleConstants_trans hdeclaration₁.2 hdeclaration₂.2⟩
      | _ => exact hdeclaration₂.elim
    | _ => exact hdeclaration₁.elim
  | unstructuredParcelable => trivial
  | union fields =>
    cases declaration' with
    | union fields' =>
      cases declaration'' with
      | union fields'' =>
        exact ⟨hdeclaration₁.1.trans hdeclaration₂.1 hfixed,
          areCompatibleConstants_trans hdeclaration₁.2 hdeclaration₂.2⟩
      | _ => exact hdeclaration₂.elim
    | _ => exact hdeclaration₁.elim
  | enum decl =>
    cases declaration' with
    | enum decl' =>
      cases declaration'' with
      | enum decl'' => exact areCompatibleEnums_trans hdeclaration₁ hdeclaration₂
      | _ => exact hdeclaration₂.elim
    | _ => exact hdeclaration₁.elim

/-! ## Dumps -/

/-- Types are matched by their canonical name. -/
theorem checkApi_iff {older newer : ApiDump ν} : checkApi printed older newer = true ↔
    Matches DefinedType.canonicalName (fun l s => l.find? fun t => t.canonicalName = s)
      (DefinitionKept printed) older.types newer.types ∧
    ∀ a ∈ older.types, ∀ c, newer.find a.canonicalName = some c →
      FieldsOfTypeEvolve printed newer.typenames a c := by
  refine Iff.trans ?_ matches_and_iff
  rw [checkApi, List.all_eq_true]
  refine forall₂_congr fun a ha => ?_
  show _ ↔ ∃ c, newer.find a.canonicalName = some c ∧ _
  cases newer.find a.canonicalName with
  | none => simp
  | some c => simp [areCompatibleDefinedTypes_iff (older.valid a ha)]

/-- A dump that defines no name twice is accepted against itself, and of two accepted steps the step
from the first dump to the last is accepted exactly where the rules on fields that do not compose
hold between the two. -/
theorem checkApi_evolution (printed : ν → TypeSpecifier → Bytes) :
    (∀ A : ApiDump ν, (A.types.map (·.canonicalName)).Nodup → checkApi printed A A = true) ∧
    ∀ A B C : ApiDump ν, checkApi printed A B = true → checkApi printed B C = true →
      (checkApi printed A C = true ↔ ∀ a ∈ A.types, ∀ c, C.find a.canonicalName = some c →
        FieldsOfTypeEvolve printed C.typenames a c) := by
  refine ⟨fun A hnodup => ?_, fun A B C hAB hBC => ?_⟩
  · refine checkApi_iff.mpr (matches_and_iff.mp ?_)
    refine Matches.refl (isLookup_find? _) hnodup fun a ha => ?_
    exact (areCompatibleDefinedTypes_iff (A.valid a ha)).mp
      (areCompatibleDefinedTypes_refl A.typenames (A.valid a ha))
  · rw [checkApi_iff] at *
    refine and_iff_right (hAB.1.comp (isLookup_find? _) hBC.1 ?_)
    exact fun a b c hname hab hbc => hab.trans hname hbc

end Values

/-- A field of type `int` without an explicit default value. -/
def intField (name : String) : Field Bytes := ⟨.mk [] (bytes "int") [] none, bytes name, some (bytes "0")⟩

/-- A parcelable `P` with such fields. -/
def intParcelable (names : List String) : DefinedType Bytes :=
  ⟨bytes "P", bytes "api/P.aidl", [], [], .structuredParcelable (names.map intField)⟩

theorem validNames_intParcelable {names : List String} (h : (names.map bytes).Nodup) :
    (intParcelable names).ValidNames where
  constants := List.nodup_nil
  fields := by
    rintro fields (hfields | hfields)
    · obtain rfl : names.map intField = fields := Declaration.structuredParcelable.inj hfields
      rw [List.map_map]
      exact h
    · cases hfields
  methods := by
    intro methods hmethods
    cases hmethods
  methodNames := by
    intro methods hmethods
    cases hmethods

/-- The dump that defines `P`. -/
def intDump (names : List String) (h : (names.map bytes).Nodup) : ApiDump Bytes where
  dir := bytes "api/"
  typenames := ⟨[intParcelable names]⟩
  valid := by
    intro t ht
    obtain rfl := List.mem_singleton.mp (List.mem_filter.mp ht).1
    exact validNames_intParcelable h

/-- A field `x` may be renamed to `y`, and then a new field `x` may be added behind it, but not both
at once. -/
theorem not_checkApi_trans_intDump :
    ¬ ∀ A B C : ApiDump Bytes, checkApi (fun v _ => v) A B = true → checkApi (fun v _ => v) B C = true →
      checkApi (fun v _ => v) A C = true := by
  intro h
  have hsteps := h (intDump ["x"] (by decide)) (intDump ["y"] (by decide))
    (intDump ["y", "x"] (by decide)) (by decide) (by decide)
  exact absurd hsteps (by decide)

/-- Adding `y` and then `z` to `P` adds both. -/
theorem checkApi_evolution_intDump :
    checkApi (fun v _ => v) (intDump ["x"] (by decide)) (intDump ["x"] (by decide)) = true ∧
    checkApi (fun v _ => v) (intDump ["x"] (by decide)) (intDump ["x", "y", "z"] (by decide)) = true := by
  obtain ⟨hrefl, htrans⟩ := checkApi_evolution fun (v : Bytes) (_ : TypeSpecifier) => v
  refine ⟨hrefl _ (by decide), (htrans _ (intDump ["x", "y"] (by decide)) _ (by decide) (by decide)).mpr ?_⟩
  intro a ha c hc
  obtain rfl : a = intParcelable ["x"] := List.mem_singleton.mp ha
  obtain rfl : intParcelable ["x", "y", "z"] = c := Option.some.inj hc
  exact ((areCompatibleDefinedTypes_iff (validNames_intParcelable (by decide))).mp (by decide)).2

end AndroidSdk.Aidl
