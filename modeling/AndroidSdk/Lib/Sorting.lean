import Mathlib.Data.List.Sort
import Mathlib.Order.Compare

/-! # Sorting by a strict weak order

What a sorting algorithm promises that, like `std::sort`, is given a strict weak order on the items
that are sorted, and may leave items that are not ordered in any order.

* **`StrictWeakOn`** — a strict weak order on the items of a list.
* **`StdSort`** — a sorting algorithm; `StdSort.insertion` is one.
* **`strictWeakOn_of_compare`**, **`StdSort.sorted_of_compare`** — orders that compare keys.
* **`strictWeakOn_iff`** — strict weak orders by the items that are not ordered.
* **`StrictWeakOn.forall₂_incomparable`** — two sorted orders differ in such items only. -/

namespace AndroidSdk.Lib

variable {β κ : Type}

/-- A strict weak order on the items of a list. -/
structure StrictWeakOn (lt : β → β → Bool) (l : List β) : Prop where
  irrefl : ∀ a ∈ l, lt a a = false
  trans : ∀ a ∈ l, ∀ b ∈ l, ∀ c ∈ l, lt a b = true → lt b c = true → lt a c = true
  not_lt_trans : ∀ a ∈ l, ∀ b ∈ l, ∀ c ∈ l, lt a b = false → lt b c = false → lt a c = false

/-- The order on some of the items. -/
theorem StrictWeakOn.of_subset {lt : β → β → Bool} {l m : List β} (h : StrictWeakOn lt l)
    (hsub : m ⊆ l) : StrictWeakOn lt m where
  irrefl a ha := h.irrefl a (hsub ha)
  trans a ha b hb c hc := h.trans a (hsub ha) b (hsub hb) c (hsub hc)
  not_lt_trans a ha b hb c hc := h.not_lt_trans a (hsub ha) b (hsub hb) c (hsub hc)

/-- Two items are not ordered both ways. -/
theorem StrictWeakOn.asymm {lt : β → β → Bool} {l : List β} (h : StrictWeakOn lt l) {a b : β}
    (ha : a ∈ l) (hb : b ∈ l) (hab : lt a b = true) : lt b a = false := by
  by_contra hba
  have haa := h.trans a ha b hb a ha hab (Bool.not_eq_false _ ▸ hba)
  rw [h.irrefl a ha] at haa
  cases haa

/-- A sorting algorithm: a strict weak order on the items puts them in that order. -/
structure StdSort where
  sort : ∀ {β : Type}, (β → β → Bool) → List β → List β
  perm : ∀ {β : Type} {lt : β → β → Bool} {l : List β}, StrictWeakOn lt l → (sort lt l).Perm l
  sorted : ∀ {β : Type} {lt : β → β → Bool} {l : List β}, StrictWeakOn lt l →
    (sort lt l).Pairwise fun a b => lt b a = false

/-! ## Insertion -/

/-- Inserting an item keeps the order. -/
theorem pairwise_orderedInsert {lt : β → β → Bool} {x : β} {l : List β}
    (h : StrictWeakOn lt (x :: l)) (hl : l.Pairwise fun a b => lt b a = false) :
    (l.orderedInsert (fun a b => lt b a = false) x).Pairwise fun a b => lt b a = false := by
  induction l with
  | nil => exact List.pairwise_singleton _ x
  | cons y l ih =>
      obtain ⟨hy, hl'⟩ := List.pairwise_cons.mp hl
      have hx : x ∈ x :: y :: l := List.mem_cons_self
      have hymem : y ∈ x :: y :: l := List.mem_cons_of_mem x List.mem_cons_self
      rw [List.orderedInsert_cons]
      split_ifs with hbefore
      · refine List.pairwise_cons.mpr ⟨fun z hz => ?_, hl⟩
        rcases List.mem_cons.mp hz with rfl | hz
        · exact hbefore
        · exact h.not_lt_trans z (by simp [hz]) y hymem x hx (hy z hz) hbefore
      · have hxy : lt x y = false := by
          by_contra hxy
          exact hbefore (h.asymm hx hymem (Bool.not_eq_false _ ▸ hxy))
        refine List.pairwise_cons.mpr ⟨fun z hz => ?_, ih (h.of_subset ?_) hl'⟩
        · rcases (List.mem_orderedInsert _).mp hz with rfl | hz
          · exact hxy
          · exact hy z hz
        · exact List.cons_subset_cons x (List.subset_cons_self y l)

/-- Insertion sort. -/
def StdSort.insertion : StdSort where
  sort lt l := l.insertionSort fun a b => lt b a = false
  perm _ := List.perm_insertionSort _ _
  sorted := by
    intro β lt l h
    induction l with
    | nil => exact List.Pairwise.nil
    | cons x l ih =>
        have hsub : (l.insertionSort fun a b => lt b a = false) ⊆ l := fun a ha =>
          (List.mem_insertionSort _).mp ha
        exact pairwise_orderedInsert (h.of_subset (List.cons_subset_cons x hsub))
          (ih (h.of_subset (List.subset_cons_self x l)))

/-! ## Keys -/

section Keys

variable {cmp : κ → κ → Ordering} [Std.TransCmp cmp] {key : β → κ} {lt : β → β → Bool} {l : List β}

/-- **An order of keys** is a strict weak order on the items. -/
theorem strictWeakOn_of_compare
    (h : ∀ a ∈ l, ∀ b ∈ l, (lt a b = true ↔ cmp (key a) (key b) = .lt)) : StrictWeakOn lt l where
  irrefl a ha := by
    rw [Bool.eq_false_iff, ne_eq, h a ha a ha, show cmp (key a) (key a) = .eq from
      Std.ReflCmp.compare_self]
    exact Ordering.noConfusion
  trans a ha b hb c hc := by
    rw [h a ha b hb, h b hb c hc, h a ha c hc]
    exact Std.TransCmp.lt_trans
  not_lt_trans a ha b hb c hc := by
    rw [Bool.eq_false_iff, Bool.eq_false_iff, Bool.eq_false_iff, ne_eq, ne_eq, ne_eq, h a ha b hb,
      h b hb c hc, h a ha c hc, ← Ordering.isGE_iff_ne_lt, ← Ordering.isGE_iff_ne_lt,
      ← Ordering.isGE_iff_ne_lt]
    exact Std.TransCmp.isGE_trans

/-- **Items sorted by their keys.** -/
theorem StdSort.sorted_of_compare (s : StdSort)
    (h : ∀ a ∈ l, ∀ b ∈ l, (lt a b = true ↔ cmp (key a) (key b) = .lt)) :
    (s.sort lt l).Pairwise fun a b => (cmp (key a) (key b)).isLE = true := by
  have hweak := strictWeakOn_of_compare h
  have hperm := s.perm hweak
  refine (s.sorted hweak).imp_of_mem fun {a b} ha hb hba => ?_
  rw [Bool.eq_false_iff, ne_eq, h b (hperm.subset hb) a (hperm.subset ha),
    ← Ordering.isGE_iff_ne_lt] at hba
  exact Std.OrientedCmp.isGE_iff_isLE.mp hba

end Keys

/-! ## Items that are not ordered -/

/-- Neither item is before the other. -/
def Incomparable (lt : β → β → Bool) (a b : β) : Prop := lt a b = false ∧ lt b a = false

section Incomparable

variable {lt : β → β → Bool} {l : List β}

/-- **Strict weak orders by incomparability**: irreflexive and transitive, and so is not being
ordered. -/
theorem strictWeakOn_iff : StrictWeakOn lt l ↔ (∀ a ∈ l, lt a a = false)
    ∧ (∀ a ∈ l, ∀ b ∈ l, ∀ c ∈ l, lt a b = true → lt b c = true → lt a c = true)
    ∧ ∀ a ∈ l, ∀ b ∈ l, ∀ c ∈ l,
      Incomparable lt a b → Incomparable lt b c → Incomparable lt a c := by
  constructor
  · intro h
    refine ⟨h.irrefl, h.trans, fun a ha b hb c hc hab hbc => ?_⟩
    exact ⟨h.not_lt_trans a ha b hb c hc hab.1 hbc.1, h.not_lt_trans c hc b hb a ha hbc.2 hab.2⟩
  · rintro ⟨hirrefl, htrans, hincomparable⟩
    refine ⟨hirrefl, htrans, fun a ha b hb c hc hab hbc => ?_⟩
    by_contra hac
    rw [Bool.not_eq_false] at hac
    have hba : lt b a = false := by
      by_contra hba
      have := htrans b hb a ha c hc (Bool.not_eq_false _ ▸ hba) hac
      rw [hbc] at this
      cases this
    have hcb : lt c b = false := by
      by_contra hcb
      have := htrans a ha c hc b hb hac (Bool.not_eq_false _ ▸ hcb)
      rw [hab] at this
      cases this
    have hnot := (hincomparable a ha b hb c hc ⟨hab, hba⟩ ⟨hbc, hcb⟩).1
    rw [hac] at hnot
    cases hnot

/-- A list around one of its items. -/
theorem exists_append_of_getElem? {s : List β} {i : ℕ} {x : β} (hx : s[i]? = some x) :
    ∃ pre post, s = pre ++ x :: post ∧ pre.length = i := by
  obtain ⟨hi, rfl⟩ := List.getElem?_eq_some_iff.mp hx
  refine ⟨s.take i, s.drop (i + 1), ?_, by rw [List.length_take]; omega⟩
  rw [← List.drop_eq_getElem_cons hi, List.take_append_drop]

/-- In a sorted list, no more items are before one than precede it. -/
theorem countP_before_le {s : List β} {i : ℕ} {x : β}
    (hsorted : s.Pairwise fun a b => lt b a = false) (hx : s[i]? = some x)
    (hirrefl : lt x x = false) : s.countP (fun y => lt y x) ≤ i := by
  obtain ⟨pre, post, rfl, rfl⟩ := exists_append_of_getElem? hx
  have hpost := (List.pairwise_cons.mp (List.pairwise_append.mp hsorted).2.1).1
  have hnone : (x :: post).countP (fun y => lt y x) = 0 := by
    refine List.countP_eq_zero.mpr fun y hy => ?_
    rcases List.mem_cons.mp hy with rfl | hy
    · rw [hirrefl]
      exact Bool.false_ne_true
    · rw [hpost y hy]
      exact Bool.false_ne_true
  rw [List.countP_append, hnone, Nat.add_zero]
  exact List.countP_le_length

/-- In a sorted list, one is not before any item that precedes it, nor before itself. -/
theorem lt_countP_not_after {s : List β} {i : ℕ} {x : β}
    (hsorted : s.Pairwise fun a b => lt b a = false) (hx : s[i]? = some x)
    (hirrefl : lt x x = false) : i < s.countP fun y => !lt x y := by
  obtain ⟨pre, post, rfl, rfl⟩ := exists_append_of_getElem? hx
  have hpre := (List.pairwise_append.mp hsorted).2.2
  have hall : pre.countP (fun y => !lt x y) = pre.length := by
    refine List.countP_eq_length.mpr fun y hy => ?_
    rw [hpre y hy x List.mem_cons_self]
    rfl
  rw [List.countP_append, hall, List.countP_cons_of_pos (by rw [hirrefl]; rfl)]
  omega

/-- **Two sorted orders of the same items** differ only in items that are not ordered. -/
theorem StrictWeakOn.forall₂_incomparable (h : StrictWeakOn lt l) {s t : List β} (hs : s.Perm l)
    (ht : t.Perm l) (hs' : s.Pairwise fun a b => lt b a = false)
    (ht' : t.Pairwise fun a b => lt b a = false) : List.Forall₂ (Incomparable lt) s t := by
  -- what is sorted in a place of one is not before what is sorted there in the other
  have hnot : ∀ {s t : List β}, s.Perm l → t.Perm l → (s.Pairwise fun a b => lt b a = false) →
      (t.Pairwise fun a b => lt b a = false) → ∀ {i : ℕ} {x y : β}, s[i]? = some x →
      t[i]? = some y → lt x y = false := by
    intro s t hs ht hs' ht' i x y hx hy
    have hxl : x ∈ l := hs.mem_iff.mp (List.mem_of_getElem? hx)
    have hyl : y ∈ l := ht.mem_iff.mp (List.mem_of_getElem? hy)
    by_contra hlt
    rw [Bool.not_eq_false] at hlt
    have hmany := lt_countP_not_after hs' hx (h.irrefl x hxl)
    have hfew := countP_before_le ht' hy (h.irrefl y hyl)
    have hle : l.countP (fun z => !lt x z) ≤ l.countP fun z => lt z y := by
      refine List.countP_mono_left fun z hz hxz => ?_
      by_contra hzy
      have hxy := h.not_lt_trans x hxl z hz y hyl (by simpa using hxz) (Bool.not_eq_true _ ▸ hzy)
      rw [hlt] at hxy
      cases hxy
    rw [hs.countP_eq] at hmany
    rw [ht.countP_eq] at hfew
    omega
  rw [List.forall₂_iff_get]
  refine ⟨hs.length_eq.trans ht.length_eq.symm, fun i hi hi' => ?_⟩
  have hx : s[i]? = some (s.get ⟨i, hi⟩) := List.getElem?_eq_getElem hi
  have hy : t[i]? = some (t.get ⟨i, hi'⟩) := List.getElem?_eq_getElem hi'
  exact ⟨hnot hs ht hs' ht' hx hy, hnot ht hs ht' hs' hy hx⟩

end Incomparable

end AndroidSdk.Lib
