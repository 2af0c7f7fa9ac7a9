import AndroidSdk.Lib.MergeSorted
import AndroidSdk.Aapt2.ResourceValues

/-! # Merging styles

`Style::MergeWith` (`ResourceValues.cpp`) sorts the entries of both styles by the names of their
keys and merges them: the entries of the other style take precedence and are copied into the string
pool.

* **`Style.mergeWith`** — the merge.
* **`Item.equals_iff`**, **`SameStyleEntry`** — what `Equals` compares: it is an equivalence.
* **`findEntry_mergeWith`** — the entry under a name: a copy of the other style's, or the style's.
* **`mergeWith_rightBiased`** — the merge is a right-biased union; it is associative, and merging a
  style with an equal one changes only the order of its entries. -/

namespace AndroidSdk.Aapt2.Values

open Lib

/-! ## The merge -/

/-- `KeyNameComparator`. -/
def keyNameComparator {ν : Type} (a b : StyleEntry ν) : Bool := compare a.key.name b.key.name = .lt

/-- `CloneEntry`; the value may be null. -/
def cloneEntry (pool : Pool) (entry : StyleEntry (Option Item)) :
    Pool × StyleEntry (Option Item) :=
  let value := transformOrNull pool entry.value
  (value.1, { entry with value := value.2 })

/-- The name of the key of an entry. -/
def StyleEntry.keyName {ν : Type} (entry : StyleEntry ν) : Option ResourceName := entry.key.name

/-- `MergeWith`: the pool and the style. -/
def Style.mergeWith (std : StdSort) (pool : Pool) (style other : Style (Option Item)) :
    Pool × Style (Option Item) :=
  let thisSorted := std.sort keyNameComparator style.entries
  let otherSorted := std.sort keyNameComparator other.entries
  let merged := mergeSorted compare StyleEntry.keyName cloneEntry pool thisSorted otherSorted
  (merged.1, { style with
    parent := if other.parent.isSome then other.parent else style.parent
    entries := merged.2 })

/-! ## What `Equals` compares -/

/-- What is compared of a string. -/
def Ref.compared (a : Ref) : Ref := ⟨0, a.value, .default⟩

/-- What is compared of a styled string. -/
def StyleRef.compared (a : StyleRef) : StyleRef :=
  ⟨a.value, .default, a.spans.map fun s => { s with name := s.name.compared }⟩

/-- What is compared of a reference. -/
def Reference.compared (a : Reference) : Reference :=
  { a with isDynamic := false, allowRaw := false, metadata := .default }

/-- What is compared of an item. -/
def Item.compared : Item → Item
  | .reference value => .reference value.compared
  | .id _ => .id .default
  | .rawString value _ => .rawString value.compared .default
  | .string value sections _ => .string value.compared sections .default
  | .styledString value sections _ => .styledString value.compared sections .default
  | .fileReference path _ _ _ => .fileReference path.compared none .kUnknown .default
  | .binaryPrimitive dataType data _ => .binaryPrimitive dataType data .default

/-- References are equal iff what is compared is the same. -/
theorem Reference.equals_iff (a b : Reference) : a.equals b = true ↔ a.compared = b.compared := by
  simp only [equals, compared, Bool.and_eq_true, decide_eq_true_eq, Reference.mk.injEq, and_true]
  tauto

/-- References to strings are equal iff the strings are. -/
theorem Ref.equals_iff (a b : Ref) : a.equals b = true ↔ a.compared = b.compared := by
  simp [equals, compared]

/-- Vectors of one length are equal item by item iff what is compared of the items is the same. -/
theorem allEqual_iff {α β : Type} {equals : α → α → Bool} {f : α → β}
    (h : ∀ a b, equals a b = true ↔ f a = f b) {l m : List α} :
    (l.length = m.length ∧ allEqual equals l m = true) ↔ l.map f = m.map f := by
  induction l generalizing m with
  | nil => cases m <;> simp [allEqual]
  | cons a l ih =>
      cases m with
      | nil => simp
      | cons b m =>
          rw [List.map_cons, List.map_cons, List.cons.injEq, ← h a b, ← ih]
          simp only [allEqual, List.length_cons, List.zip_cons_cons, List.all_cons,
            Bool.and_eq_true, Nat.add_right_cancel_iff]
          exact and_left_comm

/-- Styled strings are equal iff what is compared is the same. -/
theorem StyleRef.equals_iff (a b : StyleRef) : a.equals b = true ↔ a.compared = b.compared := by
  have hspan : ∀ s t : Span, (decide (s.firstChar = t.firstChar) && decide (s.lastChar = t.lastChar)
      && s.name.equals t.name) = true
      ↔ { s with name := s.name.compared } = { t with name := t.name.compared } := by
    intro s t
    simp only [Bool.and_eq_true, decide_eq_true_eq, Ref.equals_iff, Span.mk.injEq]
    tauto
  simp only [equals, compared, Bool.and_eq_true, decide_eq_true_eq, StyleRef.mk.injEq, true_and,
    ← allEqual_iff hspan, and_assoc]

/-- **Items are equal iff what is compared is the same.** -/
theorem Item.equals_iff (a b : Item) : a.equals b = true ↔ a.compared = b.compared := by
  cases a <;> cases b <;>
    simp [equals, compared, Reference.equals_iff, Ref.equals_iff, StyleRef.equals_iff]

/-- Values of style entries are equal iff both are null or what is compared is the same. -/
theorem equalsOrNull_iff (a b : Option Item) :
    equalsOrNull a b = true ↔ a.map Item.compared = b.map Item.compared := by
  cases a <;> cases b <;> simp [equalsOrNull, Item.equals_iff]

/-- The same key, and equal values. -/
def SameStyleEntry (a b : StyleEntry (Option Item)) : Prop :=
  a.key = b.key ∧ equalsOrNull a.value b.value = true

/-- Equal keys and equal values, as `Style::Equals` compares entries. -/
def EqualEntry (a b : StyleEntry (Option Item)) : Prop :=
  a.key.equals b.key = true ∧ equalsOrNull a.value b.value = true

/-- What the same entries share. -/
def StyleEntry.content (entry : StyleEntry (Option Item)) : Reference × Option Item :=
  (entry.key, entry.value.map Item.compared)

/-- What equal entries share. -/
def StyleEntry.compared (entry : StyleEntry (Option Item)) : Reference × Option Item :=
  (entry.key.compared, entry.value.map Item.compared)

/-- Entries are the same iff they share their content. -/
theorem sameStyleEntry_iff (a b : StyleEntry (Option Item)) :
    SameStyleEntry a b ↔ a.content = b.content := by
  rw [SameStyleEntry, equalsOrNull_iff, StyleEntry.content, StyleEntry.content, Prod.mk.injEq]

/-- Entries are equal iff what is compared of them is the same. -/
theorem equalEntry_iff (a b : StyleEntry (Option Item)) :
    EqualEntry a b ↔ a.compared = b.compared := by
  rw [EqualEntry, equalsOrNull_iff, Reference.equals_iff, StyleEntry.compared, StyleEntry.compared,
    Prod.mk.injEq]

/-! ## The entry under a name -/

/-- The names of the keys. -/
def Style.keyNames (style : Style (Option Item)) : List (Option ResourceName) :=
  style.entries.map StyleEntry.keyName

/-- The entry under a name. -/
def Style.findEntry (name : Option ResourceName) (style : Style (Option Item)) :
    Option (StyleEntry (Option Item)) :=
  findKey compare StyleEntry.keyName name style.entries

/-- The vector of pointers to the entries of a style whose keys have distinct names. -/
theorem sorted_entries (std : StdSort) {style : Style (Option Item)} (h : style.keyNames.Nodup) :
    StrictlySortedBy compare StyleEntry.keyName (std.sort keyNameComparator style.entries)
      ∧ (std.sort keyNameComparator style.entries).Perm style.entries := by
  have hcompare : ∀ a ∈ style.entries, ∀ b ∈ style.entries,
      (keyNameComparator a b = true ↔ compare a.keyName b.keyName = .lt) :=
    fun a _ b _ => decide_eq_true_iff
  have hperm := std.perm (strictWeakOn_of_compare hcompare)
  have hsorted : SortedBy compare StyleEntry.keyName (std.sort keyNameComparator style.entries) :=
    std.sorted_of_compare hcompare
  have hnames : ((std.sort keyNameComparator style.entries).map StyleEntry.keyName).Nodup :=
    (hperm.map StyleEntry.keyName).nodup_iff.mpr h
  refine ⟨hsorted.strictly ((List.pairwise_map.mp hnames).imp fun hne heq => ?_), hperm⟩
  exact hne (Std.LawfulEqCmp.compare_eq_iff_eq.mp heq)

/-- The keys of the entries of a style whose keys have distinct names. -/
theorem pairwise_keyName {style : Style (Option Item)} (h : style.keyNames.Nodup) :
    style.entries.Pairwise fun a b => compare a.keyName b.keyName ≠ .eq :=
  (List.pairwise_map.mp h).imp fun hne heq => hne (Std.LawfulEqCmp.compare_eq_iff_eq.mp heq)

section Merge

variable (std : StdSort) {a b : Style (Option Item)}

/-- The entries that are merged are sorted. -/
theorem sorted_mergeWith (ha : a.keyNames.Nodup) (hb : b.keyNames.Nodup) (pool : Pool) :
    StrictlySortedBy compare StyleEntry.keyName (a.mergeWith std pool b).2.entries :=
  strictlySortedBy_mergeSorted (fun _ _ => rfl) pool (sorted_entries std ha).1
    (sorted_entries std hb).1

/-- The copy of an entry is the same. -/
theorem content_cloneEntry (pool : Pool) (entry : StyleEntry (Option Item)) :
    (cloneEntry pool entry).2.content = entry.content := by
  rw [← sameStyleEntry_iff]
  refine ⟨rfl, ?_⟩
  cases hvalue : entry.value with
  | none => simp [cloneEntry, hvalue, transformOrNull, equalsOrNull]
  | some item =>
      simp [cloneEntry, hvalue, transformOrNull, equalsOrNull, Item.equals_transform]

/-- **The entry under a name after the merge**: a copy of the other style's, or the style's. -/
theorem findEntry_mergeWith (ha : a.keyNames.Nodup) (hb : b.keyNames.Nodup) (pool : Pool)
    (name : Option ResourceName) :
    ∃ copy : Option (StyleEntry (Option Item)),
      copy.map StyleEntry.content = (b.findEntry name).map StyleEntry.content
        ∧ (a.mergeWith std pool b).2.findEntry name = copy.or (a.findEntry name) := by
  obtain ⟨hsa, hpa⟩ := sorted_entries std ha
  obtain ⟨hsb, hpb⟩ := sorted_entries std hb
  rw [Style.findEntry, Style.findEntry, Style.findEntry, ← findKey_perm hpa (pairwise_keyName ha),
    ← findKey_perm hpb (pairwise_keyName hb)]
  exact findKey_mergeSorted (fun pool e => ⟨rfl, content_cloneEntry pool e⟩) pool hsb name

/-- The names of the keys are those under which there is an entry. -/
theorem mem_keyNames_iff (style : Style (Option Item)) (name : Option ResourceName) :
    name ∈ style.keyNames ↔ (style.findEntry name).isSome := by
  rw [Option.isSome_iff_ne_none, ne_eq, Style.findEntry, findKey_eq_none_iff, Style.keyNames,
    List.mem_map]
  push Not
  simp only [Std.LawfulEqCmp.compare_eq_iff_eq]

/-- What is found under the name of an entry. -/
theorem findEntry_keyName {style : Style (Option Item)} (h : style.keyNames.Nodup)
    {entry : StyleEntry (Option Item)} (hentry : entry ∈ style.entries) :
    style.findEntry entry.keyName = some entry :=
  (findKey_eq_some_iff (pairwise_keyName h)).mpr ⟨hentry, Std.ReflCmp.compare_self⟩

/-- The names of the keys after the merge are distinct. -/
theorem nodup_mergeWith (ha : a.keyNames.Nodup) (hb : b.keyNames.Nodup) (pool : Pool) :
    (a.mergeWith std pool b).2.keyNames.Nodup := by
  refine List.pairwise_map.mpr ((sorted_mergeWith std ha hb pool).imp fun {d e} hlt heq => ?_)
  have hself : compare e.keyName e.keyName = .eq := Std.ReflCmp.compare_self
  rw [heq, hself] at hlt
  cases hlt

/-- The names of the keys after the merge. -/
theorem mem_keyNames_mergeWith (ha : a.keyNames.Nodup) (hb : b.keyNames.Nodup) (pool : Pool)
    (name : Option ResourceName) :
    name ∈ (a.mergeWith std pool b).2.keyNames ↔ name ∈ a.keyNames ∨ name ∈ b.keyNames := by
  obtain ⟨copy, hcopy, hfind⟩ := findEntry_mergeWith std ha hb pool name
  have hsome := congrArg Option.isSome hcopy
  rw [Option.isSome_map, Option.isSome_map] at hsome
  rw [mem_keyNames_iff, mem_keyNames_iff, mem_keyNames_iff, hfind, Option.isSome_or, hsome,
    Bool.or_eq_true, or_comm]

/-- The entries of the other style are there. -/
theorem exists_sameEntry_mergeWith (ha : a.keyNames.Nodup) (hb : b.keyNames.Nodup) (pool : Pool)
    {d : StyleEntry (Option Item)} (hd : d ∈ b.entries) :
    ∃ e ∈ (a.mergeWith std pool b).2.entries, SameStyleEntry e d := by
  obtain ⟨copy, hcopy, hfind⟩ := findEntry_mergeWith std ha hb pool d.keyName
  rw [findEntry_keyName hb hd] at hcopy
  obtain ⟨e, rfl, hcontent⟩ := Option.map_eq_some_iff.mp hcopy
  exact ⟨e, (mem_of_findKey hfind).1, (sameStyleEntry_iff e d).mpr hcontent⟩

/-- The entries of the style whose names the other does not have are there. -/
theorem mem_mergeWith (ha : a.keyNames.Nodup) (hb : b.keyNames.Nodup) (pool : Pool)
    {e : StyleEntry (Option Item)} (he : e ∈ a.entries) (hname : e.keyName ∉ b.keyNames) :
    e ∈ (a.mergeWith std pool b).2.entries := by
  obtain ⟨copy, hcopy, hfind⟩ := findEntry_mergeWith std ha hb pool e.keyName
  rw [mem_keyNames_iff, Bool.not_eq_true, Option.isSome_eq_false_iff, Option.isNone_iff_eq_none]
    at hname
  rw [hname] at hcopy
  rw [Option.map_eq_none_iff.mp hcopy, Option.none_or, findEntry_keyName ha he] at hfind
  exact (mem_of_findKey hfind).1

/-- What is found under a name after the merge, up to the pool. -/
theorem map_findEntry_mergeWith (ha : a.keyNames.Nodup) (hb : b.keyNames.Nodup) (pool : Pool)
    (name : Option ResourceName) :
    ((a.mergeWith std pool b).2.findEntry name).map StyleEntry.content
      = ((b.findEntry name).map StyleEntry.content).or
        ((a.findEntry name).map StyleEntry.content) := by
  obtain ⟨copy, hcopy, hfind⟩ := findEntry_mergeWith std ha hb pool name
  rw [hfind, Option.map_or, hcopy]

/-- The parent, the inference of the parent and the members of `Value` are the same, and so are the
entries. -/
structure SameStyle (a b : Style (Option Item)) : Prop where
  parent : a.parent = b.parent
  parentInferred : a.parentInferred = b.parentInferred
  metadata : a.metadata = b.metadata
  entries : List.Forall₂ SameStyleEntry a.entries b.entries

/-- **Merging is associative**, whatever the pools are. -/
theorem mergeWith_assoc {c : Style (Option Item)} (ha : a.keyNames.Nodup) (hb : b.keyNames.Nodup)
    (hc : c.keyNames.Nodup) (p q r s : Pool) :
    SameStyle ((a.mergeWith std p b).2.mergeWith std q c).2
      (a.mergeWith std r (b.mergeWith std s c).2).2 where
  parent := by
    simp only [Style.mergeWith]
    by_cases hc : c.parent.isSome
    · simp [hc]
    · simp [hc]
  parentInferred := rfl
  metadata := rfl
  entries := by
    have hab := nodup_mergeWith std ha hb p
    have hbc := nodup_mergeWith std hb hc s
    refine (forall₂_of_map_eq_map ?_).imp fun d e h => (sameStyleEntry_iff d e).mpr h
    refine map_eq_map_of_findKey (sorted_mergeWith std hab hc q) (sorted_mergeWith std ha hbc r)
      fun name => ?_
    calc (((a.mergeWith std p b).2.mergeWith std q c).2.findEntry name).map StyleEntry.content
        = ((c.findEntry name).map StyleEntry.content).or
            (((b.findEntry name).map StyleEntry.content).or
              ((a.findEntry name).map StyleEntry.content)) := by
          rw [map_findEntry_mergeWith std hab hc, map_findEntry_mergeWith std ha hb]
      _ = (((c.findEntry name).map StyleEntry.content).or
            ((b.findEntry name).map StyleEntry.content)).or
              ((a.findEntry name).map StyleEntry.content) := Option.or_assoc.symm
      _ = ((a.mergeWith std r (b.mergeWith std s c).2).2.findEntry name).map
            StyleEntry.content := by
          rw [map_findEntry_mergeWith std ha hbc, map_findEntry_mergeWith std hb hc]

/-! ## Equal styles -/

/-- The items at positions that are compared place by place. -/
theorem forall₂_filterMap {α : Type} {equals : α → α → Bool} {l m : List α} {is js : List ℕ}
    (hlength : is.length = js.length)
    (h : ((is.zip js).all fun p => match l[p.1]?, m[p.2]? with
      | some a, some b => equals a b
      | _, _ => false) = true) :
    List.Forall₂ (fun a b => equals a b = true) (is.filterMap fun i => l[i]?)
      (js.filterMap fun i => m[i]?) := by
  induction is generalizing js with
  | nil =>
      obtain rfl := List.length_eq_zero_iff.mp hlength.symm
      exact .nil
  | cons i is ih =>
      cases js with
      | nil => cases hlength
      | cons j js =>
          rw [List.zip_cons_cons, List.all_cons, Bool.and_eq_true] at h
          obtain ⟨hhead, htail⟩ := h
          have hrest := ih (Nat.succ.inj hlength) htail
          cases hi : l[i]? with
          | none => simp [hi] at hhead
          | some x =>
              cases hj : m[j]? with
              | none => simp [hi, hj] at hhead
              | some y =>
                  rw [List.filterMap_cons_some hi, List.filterMap_cons_some hj]
                  exact .cons (by simpa [hi, hj] using hhead) hrest

/-- The items at all positions in some order. -/
theorem filterMap_perm {α : Type} {l : List α} {is : List ℕ} (h : is.Perm (List.range l.length)) :
    (is.filterMap fun i => l[i]?).Perm l := by
  have hrange : ((List.range l.length).filterMap fun i => l[i]?) = l := by
    clear h
    induction l with
    | nil => rfl
    | cons x l ih =>
        have hhead : (x :: l)[0]? = some x := rfl
        rw [List.length_cons, List.range_succ_eq_map, List.filterMap_cons_some hhead,
          List.filterMap_map]
        exact congrArg (x :: ·) ih
  exact (h.filterMap fun i => l[i]?).trans (by rw [hrange])

/-- Vectors of one length that are equal in the order of their names have orders in which they are
equal item by item. -/
theorem exists_perm_of_equalsByName {α : Type} {name : α → Option ResourceName}
    {equals : α → α → Bool} {l m : List α} (hlength : l.length = m.length)
    (h : equalsByName std name equals l m = true) :
    ∃ l' m', l'.Perm l ∧ m'.Perm m ∧ List.Forall₂ (fun a b => equals a b = true) l' m' := by
  have hperm : ∀ l : List α, (sortedByName std name l).Perm (List.range l.length) := fun l =>
    std.perm (strictWeakOn_of_compare fun i _ j _ => decide_eq_true_iff)
  refine ⟨_, _, filterMap_perm (hperm l), filterMap_perm (hperm m), forall₂_filterMap ?_ h⟩
  rw [(hperm l).length_eq, (hperm m).length_eq, List.length_range, List.length_range, hlength]

/-- Equal entries have the same name. -/
theorem EqualEntry.keyName_eq {d e : StyleEntry (Option Item)} (h : EqualEntry d e) :
    d.keyName = e.keyName := by
  have hname : d.key.compared.name = e.key.compared.name :=
    congrArg Reference.name ((Reference.equals_iff d.key e.key).mp h.1)
  exact hname

/-- Under a name equal styles have equal entries. -/
theorem map_findEntry_of_equals (ha : a.keyNames.Nodup) (hb : b.keyNames.Nodup)
    (h : a.equals std equalsOrNull b = true) (name : Option ResourceName) :
    (a.findEntry name).map StyleEntry.compared = (b.findEntry name).map StyleEntry.compared := by
  rw [Style.equals, Bool.and_eq_true, Bool.and_eq_true, decide_eq_true_eq] at h
  obtain ⟨l, m, hl, hm, hall⟩ := exists_perm_of_equalsByName std h.1.2 h.2
  have hequal : List.Forall₂ (fun d e : StyleEntry (Option Item) => d.keyName = e.keyName
      ∧ d.compared = e.compared) l m := by
    refine hall.imp fun d e hde => ?_
    rw [Bool.and_eq_true] at hde
    exact ⟨EqualEntry.keyName_eq hde, (equalEntry_iff d e).mp hde⟩
  rw [Style.findEntry, Style.findEntry, ← findKey_perm hl (pairwise_keyName ha),
    ← findKey_perm hm (pairwise_keyName hb)]
  exact map_findKey_of_forall₂ hequal name

/-- The parents of equal styles are equal. -/
theorem rel_parent_of_equals (h : a.equals std equalsOrNull b = true) :
    Option.Rel (fun p q => p.equals q = true) a.parent b.parent := by
  rw [Style.equals, Bool.and_eq_true, Bool.and_eq_true] at h
  have hparent := h.1.1
  cases ha : a.parent with
  | none =>
      cases hb : b.parent with
      | none => exact .none
      | some q => simp [ha, hb] at hparent
  | some p =>
      cases hb : b.parent with
      | none => simp [ha, hb] at hparent
      | some q => exact .some (by simpa [ha, hb] using hparent)

/-- **Merging a style with an equal one** changes only the order of its entries. -/
theorem mergeWith_of_equals (ha : a.keyNames.Nodup) (hb : b.keyNames.Nodup) (pool : Pool)
    (h : a.equals std equalsOrNull b = true) :
    Option.Rel (fun p q => p.equals q = true) a.parent (a.mergeWith std pool b).2.parent
      ∧ ∃ l, l.Perm a.entries
        ∧ List.Forall₂ EqualEntry (a.mergeWith std pool b).2.entries l := by
  obtain ⟨hsorted, hperm⟩ := sorted_entries std ha
  refine ⟨?_, _, hperm, (forall₂_of_map_eq_map ?_).imp fun d e h => (equalEntry_iff d e).mpr h⟩
  · have hparent := rel_parent_of_equals std h
    simp only [Style.mergeWith]
    split_ifs with hb
    · exact hparent
    · rw [Bool.not_eq_true, Option.isSome_eq_false_iff, Option.isNone_iff_eq_none] at hb
      rw [hb] at hparent
      cases ha : a.parent with
      | none => exact .none
      | some p =>
          rw [ha] at hparent
          cases hparent
  · refine map_eq_map_of_findKey (sorted_mergeWith std ha hb pool) hsorted fun name => ?_
    obtain ⟨copy, hcopy, hfind⟩ := findEntry_mergeWith std ha hb pool name
    have hcompared := congrArg (Option.map fun c : Reference × Option Item => (c.1.compared, c.2))
      hcopy
    rw [Option.map_map, Option.map_map] at hcompared
    replace hcompared : copy.map StyleEntry.compared = (b.findEntry name).map StyleEntry.compared :=
      hcompared
    rw [findKey_perm hperm (pairwise_keyName ha)]
    show ((a.mergeWith std pool b).2.findEntry name).map StyleEntry.compared
      = (a.findEntry name).map StyleEntry.compared
    rw [hfind, Option.map_or, hcompared, ← map_findEntry_of_equals std ha hb h, Option.or_self]

/-- **Merging is a right-biased union**: the entries are sorted by the names of their keys, which
are those of both styles; the other style's entries are there, and the style's entries under other
names; so is the other style's parent, or the style's. Merging is associative, and merging a style
with an equal one changes only the order of the entries. -/
theorem mergeWith_rightBiased (ha : a.keyNames.Nodup) (hb : b.keyNames.Nodup) (pool : Pool) :
    StrictlySortedBy compare StyleEntry.keyName (a.mergeWith std pool b).2.entries
      ∧ (∀ name, name ∈ (a.mergeWith std pool b).2.keyNames
        ↔ name ∈ a.keyNames ∨ name ∈ b.keyNames)
      ∧ (∀ d ∈ b.entries, ∃ e ∈ (a.mergeWith std pool b).2.entries, SameStyleEntry e d)
      ∧ (∀ e ∈ a.entries, e.keyName ∉ b.keyNames → e ∈ (a.mergeWith std pool b).2.entries)
      ∧ ((a.mergeWith std pool b).2.parent = if b.parent.isSome then b.parent else a.parent)
      ∧ (∀ c : Style (Option Item), c.keyNames.Nodup → ∀ q r s,
        SameStyle ((a.mergeWith std pool b).2.mergeWith std q c).2
          (a.mergeWith std r (b.mergeWith std s c).2).2)
      ∧ (a.equals std equalsOrNull b = true →
        Option.Rel (fun p q => p.equals q = true) a.parent (a.mergeWith std pool b).2.parent
          ∧ ∃ l, l.Perm a.entries
            ∧ List.Forall₂ EqualEntry (a.mergeWith std pool b).2.entries l) := by
  refine ⟨sorted_mergeWith std ha hb pool, mem_keyNames_mergeWith std ha hb pool, ?_, ?_, rfl, ?_,
    mergeWith_of_equals std ha hb pool⟩
  · exact fun d hd => exists_sameEntry_mergeWith std ha hb pool hd
  · exact fun e he hname => mem_mergeWith std ha hb pool he hname
  · exact fun c hc q r s => mergeWith_assoc std ha hb hc pool q r s

/-- A style with integers for the given attributes. -/
def sampleStyle (entries : List (Bytes × UInt32)) : Style (Option Item) where
  parent := none
  parentInferred := false
  entries := entries.map fun e => ⟨⟨some ⟨[97], ⟨[98], .kAttr⟩, e.1⟩, none, none, .kResource, false,
    false, false, .default⟩, some (.binaryPrimitive 0x10 e.2 .default)⟩
  metadata := .default

/-- An attribute that both styles have gets the value of the other one. -/
theorem mergeWith_rightBiased_sampleStyle :
    StrictlySortedBy compare StyleEntry.keyName
      ((sampleStyle [([99], 1), ([98], 2)]).mergeWith StdSort.insertion ⟨1, [], []⟩
        (sampleStyle [([100], 3), ([99], 4)])).2.entries
      ∧ ∀ d ∈ (sampleStyle [([100], 3), ([99], 4)]).entries,
        ∃ e ∈ ((sampleStyle [([99], 1), ([98], 2)]).mergeWith StdSort.insertion ⟨1, [], []⟩
          (sampleStyle [([100], 3), ([99], 4)])).2.entries, SameStyleEntry e d := by
  have hmerge := mergeWith_rightBiased StdSort.insertion
    (show (sampleStyle [([99], 1), ([98], 2)]).keyNames.Nodup by decide)
    (show (sampleStyle [([100], 3), ([99], 4)]).keyNames.Nodup by decide) ⟨1, [], []⟩
  exact ⟨hmerge.1, hmerge.2.2.1⟩

end Merge

end AndroidSdk.Aapt2.Values
