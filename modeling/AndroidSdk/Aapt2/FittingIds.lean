import Mathlib.Data.Finset.Card
import Mathlib.Data.Finset.Range
import AndroidSdk.Aapt2.IdAssigner
import AndroidSdk.Aapt2.TableView

/-! # Tables whose identifiers fit

Which identifiers `IdAssigner` (`IdAssigner.cpp`) hands out, in terms of the table and of the stable
map: the type identifier of what is reserved for the type, or else one from 1 on, and the smallest
entry identifiers that are left.

* **`IdsInRange`** — no identifier has the type part 0 or the entry part 0xffff.
* **`IdsFit`** — what is given has neither, and there is room for what is handed out.
* **`idsInRange_iff`** — assigned identifiers are in range iff they fit. -/

namespace AndroidSdk.Aapt2

open Lib

variable {ι : Type} {assignedIdMap : Option (Dict ResourceName ResourceId)}
  {table table' : ResourceTable ι}

/-- Styleables and macros are not real resource types. -/
def ResourceType.IsReal (type : ResourceType) : Prop := type ≠ .kStyleable ∧ type ≠ .kMacro

instance : DecidablePred ResourceType.IsReal := fun _ => inferInstanceAs (Decidable (_ ∧ _))

/-- **The identifiers that all components take**: those of entries that are written, the staged ones,
too, have neither the type identifier 0 nor the entry identifier 0xffff. -/
def IdsInRange (table : ResourceTable ι) : Prop :=
  ∀ e ∈ table.namedEntries, e.1.type.type.IsReal → ∀ r ∈ e.2.ids, r.typeId ≠ 0 ∧ r.entryId ≠ 0xffff

/-- The identifiers that an entry is given: the mapped one or else its own, and the staged one. -/
def givenIds (assignedIdMap : Option (Dict ResourceName ResourceId))
    (e : ResourceName × ResourceEntry ι) : List ResourceId :=
  ((mappedId assignedIdMap e.1).or e.2.id).toList ++ e.2.stagedId.toList.map StagedId.id

/-- The entry identifiers below 0xffff that are reserved for a type, with the type identifier of what
is reserved for it as not staged. -/
def takenEntryIds (assignedIdMap : Option (Dict ResourceName ResourceId)) (table : ResourceTable ι)
    (type : ResourceType) : Finset ℕ :=
  (((reservations assignedIdMap table).filter fun r => r.1.type.type = type ∧ r.2.entryId ≠ 0xffff
    ∧ ∃ s ∈ nonStagedIds assignedIdMap table, s.1.type.type = type ∧ s.2.typeId = r.2.typeId).map
      fun r => r.2.entryId.toNat).toFinset

/-- The entries of a type that have neither an identifier nor a mapping. -/
def freshEntries (assignedIdMap : Option (Dict ResourceName ResourceId)) (table : ResourceTable ι)
    (type : ResourceType) : List (ResourceName × ResourceEntry ι) :=
  table.namedEntries.filter fun e => IsFresh assignedIdMap e ∧ e.1.type.type = type

/-- **A table whose identifiers fit.** For entries of real types, the given identifiers have neither
the type identifier 0 nor the entry identifier 0xffff; and a type with fresh entries has no other one
reserved with the type identifier 0, and room for all of them below 0xffff. -/
structure IdsFit (assignedIdMap : Option (Dict ResourceName ResourceId)) (table : ResourceTable ι) :
    Prop where
  given : ∀ e ∈ table.namedEntries, e.1.type.type.IsReal →
    ∀ r ∈ givenIds assignedIdMap e, r.typeId ≠ 0 ∧ r.entryId ≠ 0xffff
  type : ∀ e ∈ table.namedEntries, e.1.type.type.IsReal → IsFresh assignedIdMap e →
    ∀ r ∈ nonStagedIds assignedIdMap table, r.1.type.type = e.1.type.type → r.2.typeId ≠ 0
  room : ∀ e ∈ table.namedEntries, e.1.type.type.IsReal → IsFresh assignedIdMap e →
    (takenEntryIds assignedIdMap table e.1.type.type).card
      + (freshEntries assignedIdMap table e.1.type.type).length ≤ 65535

/-! ## The group of a type -/

section Group

variable {c : IdAssignerContext} {type : ResourceType} {t : BitVec 8}

/-- What is reserved in the group of a type. -/
theorem mem_takenEntryIds_iff (h : c.Accounts assignedIdMap table table')
    (ht : c.nonStagedTypeIds.lookup type = some t) {n : ℕ} :
    n ∈ takenEntryIds assignedIdMap table type ↔ ∃ r ∈ reservations assignedIdMap table,
      r.1.type.type = type ∧ r.2.typeId = t ∧ r.2.entryId ≠ 0xffff ∧ r.2.entryId.toNat = n := by
  simp only [takenEntryIds, List.mem_toFinset, List.mem_map, List.mem_filter, decide_eq_true_iff]
  constructor
  · rintro ⟨r, ⟨hr, htype, hlast, s, hs, hstype, hsid⟩, rfl⟩
    have hsome := h.nonStaged s hs
    rw [hstype, ht, Option.some.injEq] at hsome
    exact ⟨r, hr, htype, (hsome.trans hsid).symm, hlast, rfl⟩
  · rintro ⟨r, hr, htype, hid, hlast, rfl⟩
    rcases h.eq_or_new type t ht with ⟨s, hs, hstype, hsid⟩ | ⟨-, hnew⟩
    · exact ⟨r, ⟨hr, htype, hlast, s, hs, hstype, hsid.trans hid.symm⟩, rfl⟩
    · exact absurd hid (hnew r hr)

/-- The entry identifiers that are handed out for a type. -/
def issuedEntryIds (assignedIdMap : Option (Dict ResourceName ResourceId))
    (table table' : ResourceTable ι) (type : ResourceType) : List ℕ :=
  ((table.namedEntries.zip table'.namedEntries).filter
    fun p => IsFresh assignedIdMap p.1 ∧ p.1.1.type.type = type).filterMap
      fun p => p.2.2.id.map fun id => id.entryId.toNat

/-- They are those of identifiers that are handed out. -/
theorem mem_issuedEntryIds_iff (h : c.Accounts assignedIdMap table table') {name : ResourceName}
    {n : ℕ} : n ∈ issuedEntryIds assignedIdMap table table' name.type.type
      ↔ ∃ i, c.Issued name i ∧ i.entryId.toNat = n := by
  simp only [issuedEntryIds, List.mem_filterMap, List.mem_filter, decide_eq_true_iff,
    Option.map_eq_some_iff, h.issued_iff]
  constructor
  · rintro ⟨p, ⟨hp, hfresh, htype⟩, i, hi, rfl⟩
    exact ⟨i, ⟨p, hp, hfresh, htype.symm, hi⟩, rfl⟩
  · rintro ⟨i, ⟨p, hp, hfresh, htype, hi⟩, rfl⟩
    exact ⟨p, ⟨hp, hfresh, htype.symm⟩, i, hi, rfl⟩

variable {name : ResourceName} {i : ResourceId} (hwf : c.Wf)
  (h : c.Accounts assignedIdMap table table')
include hwf h

/-- **If 0xffff is not handed out, there is room**: what is reserved and what is handed out differ. -/
theorem room_of_issued
    (hnodup : (issuedEntryIds assignedIdMap table table' name.type.type).Nodup) (hi : c.Issued name i)
    (hrange : ∀ j, c.Issued name j → j.entryId ≠ 0xffff) :
    (takenEntryIds assignedIdMap table name.type.type).card
      + (issuedEntryIds assignedIdMap table table' name.type.type).length ≤ 65535 := by
  have ht := hi.2.1
  have hlt : ∀ x : BitVec 16, x ≠ 0xffff → x.toNat < 65535 := by
    intro x hx
    have hne : x.toNat ≠ 65535 := fun heq => hx (BitVec.eq_of_toNat_eq heq)
    have hsize := x.isLt
    omega
  have hdisjoint : Disjoint (takenEntryIds assignedIdMap table name.type.type)
      (issuedEntryIds assignedIdMap table table' name.type.type).toFinset := by
    refine Finset.disjoint_left.mpr fun n htaken hissued => ?_
    obtain ⟨r, hr, -, hid, -, heq⟩ := (mem_takenEntryIds_iff h ht).mp htaken
    obtain ⟨j, hj, hjeq⟩ := (mem_issuedEntryIds_iff h).mp (List.mem_toFinset.mp hissued)
    have hreserved : c.Reserves r.1 r.2 := (h.reserves_iff _ _).mpr hr
    have htype := hj.2.1
    rw [ht, Option.some.injEq] at htype
    exact hwf.issued_ne_reserved hj hreserved (ResourceId.eq_of_parts (hreserved.1.trans hj.1.symm)
      (hid.trans htype) (BitVec.eq_of_toNat_eq (heq.trans hjeq.symm)))
  rw [← List.toFinset_card_of_nodup hnodup, ← Finset.card_union_of_disjoint hdisjoint,
    ← Finset.card_range 65535]
  refine Finset.card_le_card fun n hn => Finset.mem_range.mpr ?_
  rcases Finset.mem_union.mp hn with hn | hn
  · obtain ⟨r, -, -, -, hlast, rfl⟩ := (mem_takenEntryIds_iff h ht).mp hn
    exact hlt _ hlast
  · obtain ⟨j, hj, rfl⟩ := (mem_issuedEntryIds_iff h).mp (List.mem_toFinset.mp hn)
    exact hlt _ (hrange j hj)

/-- **If there is room, 0xffff is not handed out**: all others would have been handed out before or be
reserved. -/
theorem entryId_ne_of_room (hroom : (takenEntryIds assignedIdMap table name.type.type).card
      + (issuedEntryIds assignedIdMap table table' name.type.type).length ≤ 65535)
    (hi : c.Issued name i) : i.entryId ≠ 0xffff := by
  intro hlast
  obtain ⟨hpackage, ht, g, hg, hfree, hgone⟩ := hi
  have hexhausted : ∀ x, ¬ g.nextEntryId.Issuable x := fun x hx => hgone ⟨hx.1, by
    rw [hlast, BitVec.le_def]
    exact Nat.le_of_lt_succ g.nextEntryId.nextId.isLt⟩
  have hcover : Finset.range 65536 ⊆ takenEntryIds assignedIdMap table name.type.type
      ∪ (issuedEntryIds assignedIdMap table table' name.type.type).toFinset := by
    intro n hn
    have hvalue : (BitVec.ofNat 16 n).toNat = n :=
      (BitVec.toNat_ofNat _ _).trans (Nat.mod_eq_of_lt (Finset.mem_range.mp hn))
    have hparts := ResourceId.typeId_ofParts c.packageId i.typeId (BitVec.ofNat 16 n)
    have hentry := ResourceId.entryId_ofParts c.packageId i.typeId (BitVec.ofNat 16 n)
    generalize hr : ResourceId.ofParts c.packageId i.typeId (BitVec.ofNat 16 n) = r at hparts hentry
    have hrpackage : r.packageId = c.packageId := hr ▸ ResourceId.packageId_ofParts _ _ _
    have hissued : g.nextEntryId.reserved r.entryId = none →
        n ∈ issuedEntryIds assignedIdMap table table' name.type.type := fun hnone =>
      (mem_issuedEntryIds_iff h).mpr ⟨r, ⟨hrpackage, hparts ▸ ht, g, hparts ▸ hg, hnone,
        hexhausted _⟩, by rw [hentry, hvalue]⟩
    rw [Finset.mem_union, List.mem_toFinset]
    cases hreserved : g.nextEntryId.reserved r.entryId with
    | none => exact .inr (hissued hreserved)
    | some m =>
        have htype : m.type.type = name.type.type := hwf.reserved_type _ g hg _ m hreserved
        have hreserves : c.Reserves m r := ⟨hrpackage, g, by rw [htype, hparts, hg], hreserved⟩
        refine .inl ((mem_takenEntryIds_iff h ht).mpr
          ⟨(m, r), (h.reserves_iff _ _).mp hreserves, htype, hparts, fun heq => ?_, ?_⟩)
        · have heq : r.entryId = 0xffff := heq
          rw [heq, ← hlast, hfree] at hreserved
          cases hreserved
        · show r.entryId.toNat = n
          rw [hentry, hvalue]
  have hcard := Finset.card_le_card hcover
  have hunion := Finset.card_union_le (takenEntryIds assignedIdMap table name.type.type)
    (issuedEntryIds assignedIdMap table table' name.type.type).toFinset
  have hissued := List.toFinset_card_le (issuedEntryIds assignedIdMap table table' name.type.type)
  rw [Finset.card_range] at hcard
  omega

end Group

/-! ## The whole table -/

section Table

variable {c : IdAssignerContext} (hwf : c.Wf) (h : c.Accounts assignedIdMap table table')
  (hlength : table'.namedEntries.length = table.namedEntries.length)
  (hall : ∀ p ∈ table.namedEntries.zip table'.namedEntries, Outcome assignedIdMap c p.1 p.2)
  (hpairs : (table.namedEntries.zip table'.namedEntries).Pairwise fun p q =>
    IsFresh assignedIdMap p.1 → IsFresh assignedIdMap q.1 → p.2.2.id ≠ q.2.2.id)

include h hpairs in
/-- The entry identifiers that are handed out for a type are different. -/
theorem nodup_issuedEntryIds (type : ResourceType) :
    (issuedEntryIds assignedIdMap table table' type).Nodup := by
  have hdiffer : ((table.namedEntries.zip table'.namedEntries).filter
      fun p => IsFresh assignedIdMap p.1 ∧ p.1.1.type.type = type).Pairwise fun p q =>
        ∀ i j, p.2.2.id = some i → q.2.2.id = some j → i.entryId.toNat ≠ j.entryId.toNat := by
    refine (hpairs.filter _).imp_of_mem fun {p q} hp hq hne i j hi hj heq => ?_
    simp only [List.mem_filter, decide_eq_true_iff] at hp hq
    obtain ⟨hp, hpfresh, rfl⟩ := hp
    obtain ⟨hq, hqfresh, hqtype⟩ := hq
    have hissued := (h.issued_iff p.1.1 i).mpr ⟨p, hp, hpfresh, rfl, hi⟩
    have hissued' := (h.issued_iff p.1.1 j).mpr ⟨q, hq, hqfresh, hqtype.symm, hj⟩
    have htype := hissued.2.1.symm.trans hissued'.2.1
    have hsame := ResourceId.eq_of_parts (hissued.1.trans hissued'.1.symm) (Option.some.inj htype)
      (BitVec.eq_of_toNat_eq heq)
    exact hne hpfresh hqfresh (by rw [hi, hj, hsame])
  refine List.Pairwise.filterMap _ (fun p q hpq a ha b hb => ?_) hdiffer
  obtain ⟨i, hi, rfl⟩ := Option.map_eq_some_iff.mp ha
  obtain ⟨j, hj, rfl⟩ := Option.map_eq_some_iff.mp hb
  exact hpq i j hi hj

include hlength hall in
/-- There are as many as fresh entries. -/
theorem length_issuedEntryIds (type : ResourceType) :
    (issuedEntryIds assignedIdMap table table' type).length
      = (freshEntries assignedIdMap table type).length := by
  have hfst : table.namedEntries = (table.namedEntries.zip table'.namedEntries).map Prod.fst :=
    (List.map_fst_zip (le_of_eq hlength.symm)).symm
  rw [issuedEntryIds, List.filterMap_length_eq_length.mpr, freshEntries]
  · conv_rhs => rw [hfst, List.filter_map, List.length_map]
    rfl
  · intro p hp
    obtain ⟨id, heq, -⟩ := hall p (List.mem_filter.mp hp).1
    rw [heq]
    rfl

end Table

/-- **When assigned identifiers are in range**: those that are given have neither the type identifier 0
nor the entry identifier 0xffff, and so have those that are handed out, if there is room. -/
theorem idsInRange_iff {compilationPackage : Bytes} {packageId : BitVec 8}
    (h : consume compilationPackage packageId assignedIdMap table = .ok table') :
    IdsInRange table' ↔ IdsFit assignedIdMap table := by
  obtain ⟨c, hwf, -, haccounts, hlength, hall, hpairs⟩ := consume_spec h
  have hpair : ∀ e ∈ table.namedEntries, ∃ e',
      (e, e') ∈ table.namedEntries.zip table'.namedEntries := by
    intro e he
    rw [← List.map_fst_zip (le_of_eq hlength.symm)] at he
    obtain ⟨p, hp, rfl⟩ := List.mem_map.mp he
    exact ⟨p.2, hp⟩
  -- what becomes of an entry: its identifier is given or handed out
  have hids : ∀ p ∈ table.namedEntries.zip table'.namedEntries, ∃ id,
      p.2.1 = p.1.1 ∧ p.2.2.id = some id
        ∧ (∀ r, r ∈ p.2.2.ids ↔ r = id ∨ r ∈ p.1.2.stagedId.toList.map StagedId.id)
        ∧ ((mappedId assignedIdMap p.1.1).or p.1.2.id = some id
          ∨ IsFresh assignedIdMap p.1 ∧ c.Issued p.1.1 id) := by
    intro p hp
    obtain ⟨id, heq, hid⟩ := hall p hp
    refine ⟨id, by rw [heq], by rw [heq], fun r => ?_, hid.imp_left And.left⟩
    rw [heq]
    simp [ResourceEntry.ids]
  have hroom : ∀ type, (issuedEntryIds assignedIdMap table table' type).length
      = (freshEntries assignedIdMap table type).length := length_issuedEntryIds hlength hall
  constructor
  · intro hrange
    have hin : ∀ p ∈ table.namedEntries.zip table'.namedEntries, p.1.1.type.type.IsReal →
        ∀ r ∈ p.2.2.ids, r.typeId ≠ 0 ∧ r.entryId ≠ 0xffff := by
      intro p hp hreal
      obtain ⟨id, hname, -⟩ := hids p hp
      exact hrange p.2 (List.of_mem_zip hp).2 (hname ▸ hreal)
    have hissued : ∀ name i, name.type.type.IsReal → c.Issued name i →
        i.typeId ≠ 0 ∧ i.entryId ≠ 0xffff := by
      intro name i hreal hi
      obtain ⟨p, hp, -, htype, hid⟩ := (haccounts.issued_iff name i).mp hi
      exact hin p hp (htype ▸ hreal) i (List.mem_append_left _ (Option.mem_toList.mpr hid))
    have hfresh : ∀ e ∈ table.namedEntries, IsFresh assignedIdMap e → ∃ i, c.Issued e.1 i := by
      intro e he hfresh
      obtain ⟨e', hp⟩ := hpair e he
      obtain ⟨id, -, -, -, hid | ⟨-, hid⟩⟩ := hids _ hp
      · rw [hfresh.1, hfresh.2] at hid
        cases hid
      · exact ⟨id, hid⟩
    refine ⟨fun e he hreal r hr => ?_, fun e he hreal hf r hr htype => ?_, fun e he hreal hf => ?_⟩
    · obtain ⟨e', hp⟩ := hpair e he
      obtain ⟨id, -, -, hmem, hid⟩ := hids _ hp
      refine hin _ hp hreal r ((hmem r).mpr ?_)
      rcases List.mem_append.mp hr with hr | hr
      · rw [Option.mem_toList] at hr
        rcases hid with hid | ⟨hf, -⟩
        · exact .inl (Option.some.inj (hr.symm.trans hid))
        · rw [hf.1, hf.2] at hr
          cases hr
      · exact .inr hr
    · obtain ⟨i, hi⟩ := hfresh e he hf
      have hsome := haccounts.nonStaged r hr
      rw [htype, hi.2.1, Option.some.injEq] at hsome
      exact hsome ▸ (hissued e.1 i hreal hi).1
    · obtain ⟨i, hi⟩ := hfresh e he hf
      rw [← hroom]
      exact room_of_issued hwf haccounts (nodup_issuedEntryIds haccounts hpairs _) hi fun j hj =>
        (hissued e.1 j hreal hj).2
  · intro hfit e' he' hreal r hr
    rw [← List.map_snd_zip (le_of_eq hlength)] at he'
    obtain ⟨p, hp, rfl⟩ := List.mem_map.mp he'
    obtain ⟨id, hname, -, hmem, hid⟩ := hids p hp
    have he := (List.of_mem_zip hp).1
    rw [hname] at hreal
    rcases (hmem r).mp hr with rfl | hr
    · rcases hid with hid | ⟨hf, hi⟩
      · exact hfit.given _ he hreal r (List.mem_append_left _ (Option.mem_toList.mpr hid))
      · refine ⟨?_, entryId_ne_of_room hwf haccounts ((hroom _).symm ▸ hfit.room _ he hreal hf) hi⟩
        rcases haccounts.eq_or_new _ _ hi.2.1 with ⟨s, hs, htype, heq⟩ | ⟨hpos, -⟩
        · exact heq ▸ hfit.type _ he hreal hf s hs htype
        · exact hpos
    · exact hfit.given _ he hreal r (List.mem_append_right _ hr)

end AndroidSdk.Aapt2
