import AndroidSdk.Lib.BinarySearch
import AndroidSdk.Lib.Run

/-! # Merging sorted vectors

The loop that merges two sorted vectors with two cursors: an item of the second vector takes the
place of one with its key in the first. Items of the second vector are copied, and copying may carry
a state.

* **`mergeSorted`** — the loop.
* **`strictlySortedBy_mergeSorted`** — the result is sorted.
* **`findKey_mergeSorted`** — what is found under a key: the copy of the second vector's item if
  there is one, and the first vector's item otherwise.
* **`map_eq_map_of_findKey`** — sorted vectors in which the same is found are the same. -/

namespace AndroidSdk.Lib

open Std

variable {σ α κ τ : Type} {cmp : κ → κ → Ordering} {key : α → κ} {copy : σ → α → σ × α}

variable (cmp key copy) in
/-- The merging loop. -/
def mergeSorted (s : σ) : List α → List α → σ × List α
  | [], m => mapAccum copy s m
  | a :: l, [] => (s, a :: l)
  | a :: l, b :: m =>
      if cmp (key a) (key b) = .lt then
        let rest := mergeSorted s l (b :: m)
        (rest.1, a :: rest.2)
      else
        let c := copy s b
        if cmp (key a) (key b) = .eq then
          let rest := mergeSorted c.1 l m
          (rest.1, c.2 :: rest.2)
        else
          let rest := mergeSorted c.1 (a :: l) m
          (rest.1, c.2 :: rest.2)
termination_by l m => l.length + m.length

/-! ## Order -/

/-- The keys of what is merged are keys of the two vectors. -/
theorem exists_mem_of_mem_mergeSorted (hcopy : ∀ s b, key (copy s b).2 = key b) (s : σ)
    (l m : List α) :
    ∀ x ∈ (mergeSorted cmp key copy s l m).2, ∃ y ∈ l ++ m, key x = key y := by
  fun_induction mergeSorted cmp key copy s l m with
  | case1 s m =>
      have hkeys : (mapAccum copy s m).2.map key = m.map key := map_mapAccum hcopy s m
      intro x hx
      have hkey : key x ∈ m.map key := hkeys ▸ List.mem_map_of_mem hx
      obtain ⟨b, hb, hkey⟩ := List.mem_map.mp hkey
      exact ⟨b, hb, hkey.symm⟩
  | case2 s a l => exact fun x hx => ⟨x, by simpa using hx, rfl⟩
  | case3 s a l b m hlt rest ih =>
      refine List.forall_mem_cons.mpr ⟨⟨a, List.mem_cons_self, rfl⟩, fun x hx => ?_⟩
      obtain ⟨y, hy, hkey⟩ := ih x hx
      exact ⟨y, List.mem_cons_of_mem a hy, hkey⟩
  | case4 s a l b m hlt c heq rest ih =>
      refine List.forall_mem_cons.mpr ⟨⟨b, by simp, hcopy s b⟩, fun x hx => ?_⟩
      obtain ⟨y, hy, hkey⟩ := ih x hx
      refine ⟨y, ?_, hkey⟩
      rcases List.mem_append.mp hy with hy | hy
      · simp [hy]
      · simp [hy]
  | case5 s a l b m hlt c heq rest ih =>
      refine List.forall_mem_cons.mpr ⟨⟨b, by simp, hcopy s b⟩, fun x hx => ?_⟩
      obtain ⟨y, hy, hkey⟩ := ih x hx
      refine ⟨y, ?_, hkey⟩
      rcases List.mem_append.mp hy with hy | hy
      · exact List.mem_append_left _ hy
      · simp [hy]

/-- **Merging keeps the order.** -/
theorem strictlySortedBy_mergeSorted [TransCmp cmp] (hcopy : ∀ s b, key (copy s b).2 = key b)
    (s : σ) {l m : List α} (hl : StrictlySortedBy cmp key l) (hm : StrictlySortedBy cmp key m) :
    StrictlySortedBy cmp key (mergeSorted cmp key copy s l m).2 := by
  -- an item that is before both vectors is before what is merged of them
  have hhead : ∀ {s : σ} {x : α} {l m : List α}, (∀ y ∈ l ++ m, cmp (key x) (key y) = .lt) →
      ∀ y ∈ (mergeSorted cmp key copy s l m).2, cmp (key x) (key y) = .lt := by
    intro s x l m hbefore y hy
    obtain ⟨z, hz, hkey⟩ := exists_mem_of_mem_mergeSorted hcopy s l m y hy
    rw [hkey]
    exact hbefore z hz
  fun_induction mergeSorted cmp key copy s l m with
  | case1 s m =>
      have hkeys : (mapAccum copy s m).2.map key = m.map key := map_mapAccum hcopy s m
      have hsorted : (m.map key).Pairwise fun x y => cmp x y = .lt := List.pairwise_map.mpr hm
      exact List.pairwise_map.mp (hkeys ▸ hsorted)
  | case2 s a l => exact hl
  | case3 s a l b m hlt rest ih =>
      obtain ⟨ha, hl'⟩ := List.pairwise_cons.mp hl
      obtain ⟨hb, -⟩ := List.pairwise_cons.mp hm
      refine List.pairwise_cons.mpr ⟨hhead fun y hy => ?_, ih hl' hm⟩
      rcases List.mem_append.mp hy with hy | hy
      · exact ha y hy
      · rcases List.mem_cons.mp hy with rfl | hy
        · exact hlt
        · exact TransCmp.lt_trans hlt (hb y hy)
  | case4 s a l b m hlt c heq rest ih =>
      obtain ⟨ha, hl'⟩ := List.pairwise_cons.mp hl
      obtain ⟨hb, hm'⟩ := List.pairwise_cons.mp hm
      refine List.pairwise_cons.mpr ⟨hhead fun y hy => ?_, ih hl' hm'⟩
      rw [hcopy]
      rcases List.mem_append.mp hy with hy | hy
      · exact TransCmp.lt_of_eq_of_lt (OrientedCmp.eq_symm heq) (ha y hy)
      · exact hb y hy
  | case5 s a l b m hlt c heq rest ih =>
      obtain ⟨ha, -⟩ := List.pairwise_cons.mp hl
      obtain ⟨hb, hm'⟩ := List.pairwise_cons.mp hm
      have hgt : cmp (key b) (key a) = .lt := by
        refine OrientedCmp.lt_of_gt ?_
        revert hlt heq
        cases cmp (key a) (key b) <;> simp
      refine List.pairwise_cons.mpr ⟨hhead fun y hy => ?_, ih hl hm'⟩
      rw [hcopy]
      rcases List.mem_append.mp hy with hy | hy
      · rcases List.mem_cons.mp hy with rfl | hy
        · exact hgt
        · exact TransCmp.lt_trans hgt (ha y hy)
      · exact hb y hy

/-! ## What is found -/

variable (cmp key) in
/-- The first item with a key. -/
def findKey (k : κ) (l : List α) : Option α := l.find? fun x => cmp (key x) k == .eq

/-- The first item is found, or the search goes on. -/
theorem findKey_cons (k : κ) (a : α) (l : List α) :
    findKey cmp key k (a :: l) = if cmp (key a) k = .eq then some a else findKey cmp key k l := by
  by_cases h : cmp (key a) k = .eq
  · simp [findKey, h]
  · simp [findKey, h]

/-- What is found is there, under the key. -/
theorem mem_of_findKey {k : κ} {l : List α} {x : α} (h : findKey cmp key k l = some x) :
    x ∈ l ∧ cmp (key x) k = .eq :=
  ⟨List.mem_of_find?_eq_some h, by simpa using List.find?_some h⟩

/-- Nothing is found iff no item has the key. -/
theorem findKey_eq_none_iff {k : κ} {l : List α} :
    findKey cmp key k l = none ↔ ∀ x ∈ l, cmp (key x) k ≠ .eq := by
  simp [findKey]

/-- In vectors whose items have the same keys and the same value place by place, items with the same
value are found. -/
theorem map_findKey_of_forall₂ {c : α → τ} {l m : List α}
    (h : List.Forall₂ (fun x y => key x = key y ∧ c x = c y) l m) (k : κ) :
    (findKey cmp key k l).map c = (findKey cmp key k m).map c := by
  induction h with
  | nil => rfl
  | @cons x y l m hxy _ ih =>
      rw [findKey_cons, findKey_cons, hxy.1]
      split_ifs
      · exact congrArg some hxy.2
      · exact ih

/-- **What is found in what is merged**: the copy of the second vector's item, or the first
vector's item if there is none. -/
theorem findKey_mergeSorted [TransCmp cmp] {c : α → τ}
    (hcopy : ∀ s b, key (copy s b).2 = key b ∧ c (copy s b).2 = c b) (s : σ) {l m : List α}
    (hm : StrictlySortedBy cmp key m) (k : κ) :
    ∃ o : Option α, o.map c = (findKey cmp key k m).map c
      ∧ findKey cmp key k (mergeSorted cmp key copy s l m).2 = o.or (findKey cmp key k l) := by
  fun_induction mergeSorted cmp key copy s l m with
  | case1 s m =>
      exact ⟨_, map_findKey_of_forall₂ (forall₂_mapAccum hcopy s m) k, Option.or_none.symm⟩
  | case2 s a l => exact ⟨none, rfl, rfl⟩
  | case3 s a l b m hlt rest ih =>
      obtain ⟨hb, -⟩ := List.pairwise_cons.mp hm
      rw [findKey_cons k a, findKey_cons k a]
      split_ifs with hkey
      · -- the key of the first vector's item is not in the second vector
        have hnone : findKey cmp key k (b :: m) = none := by
          refine findKey_eq_none_iff.mpr (List.forall_mem_cons.mpr ⟨?_, fun y hy => ?_⟩)
          · rw [← TransCmp.congr_right hkey, OrientedCmp.gt_of_lt hlt]
            exact Ordering.noConfusion
          · rw [← TransCmp.congr_right hkey, OrientedCmp.gt_of_lt (TransCmp.lt_trans hlt (hb y hy))]
            exact Ordering.noConfusion
        exact ⟨none, by rw [hnone], rfl⟩
      · exact ih hm
  | case4 s a l b m hlt c heq rest ih =>
      rw [findKey_cons k c.2, findKey_cons k b, findKey_cons k a, (hcopy s b).1,
        TransCmp.congr_left heq]
      split_ifs
      · exact ⟨some c.2, congrArg some (hcopy s b).2, rfl⟩
      · exact ih (List.pairwise_cons.mp hm).2
  | case5 s a l b m hlt c heq rest ih =>
      rw [findKey_cons k c.2, findKey_cons k b, (hcopy s b).1]
      split_ifs
      · exact ⟨some c.2, congrArg some (hcopy s b).2, rfl⟩
      · exact ih (List.pairwise_cons.mp hm).2

/-! ## Vectors in which the same is found -/

/-- Distinct keys: what is found is the one item with the key. -/
theorem findKey_eq_some_iff [TransCmp cmp] {k : κ} {l : List α}
    (h : l.Pairwise fun x y => cmp (key x) (key y) ≠ .eq) {x : α} :
    findKey cmp key k l = some x ↔ x ∈ l ∧ cmp (key x) k = .eq := by
  refine ⟨mem_of_findKey, ?_⟩
  rintro ⟨hx, hkey⟩
  induction l with
  | nil => cases hx
  | cons y l ih =>
      obtain ⟨hy, hl⟩ := List.pairwise_cons.mp h
      rw [findKey_cons]
      rcases List.mem_cons.mp hx with rfl | hx
      · rw [if_pos hkey]
      · have hne : cmp (key y) k ≠ .eq := fun heq =>
          hy x hx (TransCmp.eq_trans heq (OrientedCmp.eq_symm hkey))
        rw [if_neg hne, ih hl hx]

/-- What is found does not depend on the order of items with distinct keys. -/
theorem findKey_perm [TransCmp cmp] {l m : List α} (hperm : l.Perm m)
    (h : m.Pairwise fun x y => cmp (key x) (key y) ≠ .eq) (k : κ) :
    findKey cmp key k l = findKey cmp key k m := by
  have hsymm : ∀ {x y : α}, cmp (key x) (key y) ≠ .eq → cmp (key y) (key x) ≠ .eq :=
    fun hne heq => hne (OrientedCmp.eq_symm heq)
  have h' := (hperm.pairwise_iff hsymm).mpr h
  refine Option.ext fun x => ?_
  rw [findKey_eq_some_iff h, findKey_eq_some_iff h', hperm.mem_iff]

/-- Nothing is found under a key before all others. -/
theorem StrictlySortedBy.findKey_eq_none [TransCmp cmp] {x : α} {l : List α}
    (h : StrictlySortedBy cmp key (x :: l)) {k : κ} (hk : (cmp k (key x)).isLE) :
    findKey cmp key k l = none := by
  refine findKey_eq_none_iff.mpr fun y hy heq => ?_
  have hlt := TransCmp.lt_of_isLE_of_lt hk ((List.pairwise_cons.mp h).1 y hy)
  rw [OrientedCmp.eq_symm heq] at hlt
  cases hlt

/-- **Sorted vectors in which the same is found are the same.** -/
theorem map_eq_map_of_findKey [TransCmp cmp] {c : α → τ} {l m : List α}
    (hl : StrictlySortedBy cmp key l) (hm : StrictlySortedBy cmp key m)
    (h : ∀ k, (findKey cmp key k l).map c = (findKey cmp key k m).map c) : l.map c = m.map c := by
  induction l generalizing m with
  | nil =>
      cases m with
      | nil => rfl
      | cons y m =>
          have hy := h (key y)
          rw [findKey_cons, if_pos ReflCmp.compare_self] at hy
          cases hy
  | cons x l ih =>
      cases m with
      | nil =>
          have hx := h (key x)
          rw [findKey_cons, if_pos ReflCmp.compare_self] at hx
          cases hx
      | cons y m =>
          have hx := h (key x)
          rw [findKey_cons, if_pos ReflCmp.compare_self, findKey_cons] at hx
          -- the least keys of both vectors are the same
          have hyx : cmp (key y) (key x) = .eq := by
            by_contra hne
            rw [if_neg hne] at hx
            cases hcmp : cmp (key x) (key y) with
            | eq => exact hne (OrientedCmp.eq_symm hcmp)
            | lt =>
                rw [hm.findKey_eq_none (by rw [hcmp]; rfl)] at hx
                cases hx
            | gt =>
                have hy := h (key y)
                rw [findKey_cons, if_neg fun heq => hne (OrientedCmp.eq_symm heq),
                  hl.findKey_eq_none (by rw [OrientedCmp.lt_of_gt hcmp]; rfl), findKey_cons,
                  if_pos ReflCmp.compare_self] at hy
                cases hy
          rw [if_pos hyx] at hx
          refine congrArg₂ List.cons (Option.some.inj hx)
            (ih (List.pairwise_cons.mp hl).2 (List.pairwise_cons.mp hm).2 fun k => ?_)
          by_cases hk : cmp (key x) k = .eq
          · have hk' : cmp (key y) k = .eq := TransCmp.eq_trans hyx hk
            rw [hl.findKey_eq_none (by rw [OrientedCmp.eq_symm hk]; rfl),
              hm.findKey_eq_none (by rw [OrientedCmp.eq_symm hk']; rfl)]
          · have hk' : cmp (key y) k ≠ .eq := fun heq =>
              hk (TransCmp.eq_trans (OrientedCmp.eq_symm hyx) heq)
            have hrest := h k
            rw [findKey_cons, if_neg hk, findKey_cons, if_neg hk'] at hrest
            exact hrest

end AndroidSdk.Lib
