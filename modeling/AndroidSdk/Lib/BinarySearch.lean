import Mathlib.Data.List.Sort
import Mathlib.Data.List.TakeWhile
import AndroidSdk.Lib.SortedVector

/-! # Binary search in sorted vectors

The halving loop of `std::lower_bound` on a vector, and the operations on sorted vectors that rest
on it: the range of the items under a key, and the item under a key that is created when it is
missing. The loop is right only on a partitioned vector, so every result asks for one.

* **`lowerBound`**, **`lowerBound_eq`** — the loop, and the partition point that it finds.
* **`exists_split_lowerBound`** — the two sides of the partition point in a sorted vector.
* **`equalRange`**, **`equalRange_eq`** — the items whose key compares equal.
* **`findOrCreate`**, **`exists_split_findOrCreate`** — look an item up, or insert it in order. -/

namespace AndroidSdk.Lib

open Std

variable {α κ : Type}

/-! ## The halving loop -/

/-- The loop of `std::lower_bound`: `len` items from position `first` on are still to be searched.
The first argument bounds the number of rounds. -/
def lowerBoundLoop (before : α → Bool) (l : List α) : ℕ → ℕ → ℕ → ℕ
  | 0, first, _ => first
  | fuel + 1, first, len =>
      if len = 0 then first
      else
        match l[first + len / 2]? with
        | none => first
        | some x =>
            if before x then lowerBoundLoop before l fuel (first + len / 2 + 1) (len - len / 2 - 1)
            else lowerBoundLoop before l fuel first (len / 2)

/-- `std::lower_bound`: the position of the first item that is not before the key. -/
def lowerBound (before : α → Bool) (l : List α) : ℕ := lowerBoundLoop before l l.length 0 l.length

/-- `std::upper_bound`: the position of the first item that is after the key. -/
def upperBound (after : α → Bool) (l : List α) : ℕ := lowerBound (fun x => !after x) l

/-- The items that are before the key come first. -/
def Partitioned (before : α → Bool) (l : List α) : Prop :=
  l.Pairwise fun x y => before y = true → before x = true

variable {before : α → Bool} {l : List α}

/-- In a partitioned vector exactly the items of the leading run are before the key. -/
theorem Partitioned.before_iff (h : Partitioned before l) {i : ℕ} {x : α} (hx : l[i]? = some x) :
    before x = true ↔ i < (l.takeWhile before).length := by
  induction l generalizing i with
  | nil => cases hx
  | cons y ys ih =>
      obtain ⟨hy, hys⟩ := List.pairwise_cons.mp h
      rw [List.takeWhile_cons]
      cases i with
      | zero =>
          obtain rfl : y = x := by simpa using hx
          by_cases hb : before y = true
          · simp [hb]
          · simp [hb]
      | succ i =>
          rw [List.getElem?_cons_succ] at hx
          by_cases hb : before y = true
          · rw [ih hys hx, if_pos hb, List.length_cons]
            omega
          · rw [if_neg hb]
            have hnot : before x ≠ true := fun hbx => hb (hy x (List.mem_of_getElem? hx) hbx)
            simpa using hnot

/-- The loop finds the partition point when it lies in the range that is searched. -/
theorem lowerBoundLoop_eq (h : Partitioned before l) {fuel first len : ℕ} (hfuel : len ≤ fuel)
    (hlen : first + len ≤ l.length) (hfirst : first ≤ (l.takeWhile before).length)
    (hlast : (l.takeWhile before).length ≤ first + len) :
    lowerBoundLoop before l fuel first len = (l.takeWhile before).length := by
  induction fuel generalizing first len with
  | zero =>
      rw [lowerBoundLoop]
      omega
  | succ fuel ih =>
      rw [lowerBoundLoop]
      by_cases hzero : len = 0
      · rw [if_pos hzero]
        omega
      · rw [if_neg hzero]
        have hmid : first + len / 2 < l.length := by omega
        have hx := List.getElem?_eq_getElem hmid
        have hbefore := h.before_iff hx
        rw [hx]
        show (if before l[first + len / 2] = true then _ else _) = _
        by_cases hb : before l[first + len / 2] = true
        · rw [if_pos hb]
          have hlt := hbefore.mp hb
          exact ih (by omega) (by omega) (by omega) (by omega)
        · rw [if_neg hb]
          have hge : ¬ first + len / 2 < (l.takeWhile before).length := fun hlt => hb (hbefore.mpr hlt)
          exact ih (by omega) (by omega) (by omega) (by omega)

/-- **On a partitioned vector the loop finds the partition point.** -/
theorem lowerBound_eq (h : Partitioned before l) :
    lowerBound before l = (l.takeWhile before).length :=
  lowerBoundLoop_eq h le_rfl (by omega) (Nat.zero_le _)
    (by simpa using (List.takeWhile_prefix before).length_le)

/-- The loop finds the place between two parts. -/
theorem lowerBound_append {pre post : List α} (hpre : ∀ x ∈ pre, before x = true)
    (hpost : ∀ x ∈ post, before x = false) : lowerBound before (pre ++ post) = pre.length := by
  have hpartitioned : Partitioned before (pre ++ post) := by
    refine List.pairwise_append.mpr ⟨?_, ?_, ?_⟩
    · exact List.pairwise_of_forall_mem_list fun x hx y _ _ => hpre x hx
    · refine List.pairwise_of_forall_mem_list fun x _ y hy hbefore => ?_
      rw [hpost y hy] at hbefore
      cases hbefore
    · exact fun x hx y _ _ => hpre x hx
  rw [lowerBound_eq hpartitioned, List.takeWhile_append_of_pos hpre]
  cases post with
  | nil => simp
  | cons x post => simp [hpost x List.mem_cons_self]

/-- The loop stays within the vector, partitioned or not. -/
theorem lowerBoundLoop_le (before : α → Bool) (l : List α) (fuel first len : ℕ) :
    lowerBoundLoop before l fuel first len ≤ first + len := by
  induction fuel generalizing first len with
  | zero => exact Nat.le_add_right _ _
  | succ fuel ih =>
      rw [lowerBoundLoop]
      split_ifs with hlen
      · omega
      · split
        · omega
        · split_ifs with hx
          · have hle := ih (first + len / 2 + 1) (len - len / 2 - 1)
            omega
          · have hle := ih first (len / 2)
            omega

/-- The position that is found lies in the vector or at its end. -/
theorem lowerBound_le_length (before : α → Bool) (l : List α) : lowerBound before l ≤ l.length := by
  have hle := lowerBoundLoop_le before l l.length 0 l.length
  rw [lowerBound]
  omega

/-- The two sides of the partition point. -/
theorem Partitioned.exists_split (h : Partitioned before l) :
    ∃ pre post, l = pre ++ post ∧ lowerBound before l = pre.length
      ∧ (∀ x ∈ pre, before x = true) ∧ ∀ x ∈ post, before x = false := by
  refine ⟨l.takeWhile before, l.dropWhile before, List.takeWhile_append_dropWhile.symm,
    lowerBound_eq h, fun x hx => List.mem_takeWhile_imp hx, ?_⟩
  intro x hx
  obtain ⟨i, hi⟩ := List.mem_iff_getElem?.mp hx
  have hat : l[(l.takeWhile before).length + i]? = some x := by
    have happ : l = l.takeWhile before ++ l.dropWhile before :=
      List.takeWhile_append_dropWhile.symm
    conv => lhs; rw [happ]
    rw [List.getElem?_append_right (by simp)]
    simpa using hi
  have hnot := (h.before_iff hat).not.mpr (by omega)
  simpa using hnot

/-! ## Sorted vectors -/

section Sorted

variable (cmp : κ → κ → Ordering) (key : α → κ) (k : κ)

/-- The keys do not decrease. -/
def SortedBy (l : List α) : Prop := l.Pairwise fun x y => (cmp (key x) (key y)).isLE

/-- The keys increase. -/
def StrictlySortedBy (l : List α) : Prop := l.Pairwise fun x y => cmp (key x) (key y) = .lt

variable {cmp key k}

/-- Keys that increase do not decrease. -/
theorem StrictlySortedBy.sortedBy (h : StrictlySortedBy cmp key l) : SortedBy cmp key l :=
  h.imp fun {x y} hlt => by rw [hlt]; rfl

/-- Items of a strictly sorted vector with equal keys are the same. -/
theorem StrictlySortedBy.eq_of_key_eq [TransCmp cmp] (h : StrictlySortedBy cmp key l) {x y : α}
    (hx : x ∈ l) (hy : y ∈ l) (heq : cmp (key x) (key y) = .eq) : x = y := by
  have : TransCmp fun x y : α => cmp (key x) (key y) :=
    { eq_swap := OrientedCmp.eq_swap, isLE_trans := TransCmp.isLE_trans }
  exact SortedVector.eq_of_compare_eq h hx hy heq

/-- Strictly sorted vectors of the same items are the same. -/
theorem StrictlySortedBy.eq_of_perm [TransCmp cmp] {l' : List α} (h : StrictlySortedBy cmp key l)
    (h' : StrictlySortedBy cmp key l') (hperm : l.Perm l') : l = l' := by
  refine List.Perm.eq_of_pairwise ?_ h h' hperm
  intro x y _ _ hxy hyx
  rw [OrientedCmp.gt_of_lt hxy] at hyx
  cases hyx

/-- A sorted vector of items that are all told apart is strictly sorted. -/
theorem SortedBy.strictly [TransCmp cmp] (h : SortedBy cmp key l)
    (hne : l.Pairwise fun x y => cmp (key x) (key y) ≠ .eq) : StrictlySortedBy cmp key l := by
  refine (List.Pairwise.and h hne).imp ?_
  rintro x y ⟨hle, hne⟩
  cases hcmp : cmp (key x) (key y) with
  | lt => rfl
  | eq => exact absurd hcmp hne
  | gt => rw [hcmp] at hle; cases hle

variable (cmp key) in
/-- `std::sort`; where keys are distinct there is only one sorted order. -/
def sortBy (l : List α) : List α := l.insertionSort fun x y => (cmp (key x) (key y)).isLE

/-- Sorting keeps the items. -/
theorem sortBy_perm (l : List α) : (sortBy cmp key l).Perm l := List.perm_insertionSort _ l

/-- Sorting sorts. -/
theorem sortedBy_sortBy [TransCmp cmp] (l : List α) : SortedBy cmp key (sortBy cmp key l) := by
  have htrans : IsTrans α fun x y => (cmp (key x) (key y)).isLE = true :=
    ⟨fun _ _ _ => TransCmp.isLE_trans⟩
  have htotal : Std.Total fun x y : α => (cmp (key x) (key y)).isLE = true := by
    refine ⟨fun x y => ?_⟩
    have hswap : cmp (key y) (key x) = (cmp (key x) (key y)).swap := OrientedCmp.eq_swap
    rw [hswap]
    cases cmp (key x) (key y) <;> simp
  exact List.pairwise_insertionSort _ l

/-- A sorted vector is partitioned by any key. -/
theorem SortedBy.partitioned [TransCmp cmp] (h : SortedBy cmp key l) (k : κ) :
    Partitioned (fun x => cmp (key x) k == .lt) l := by
  refine h.imp ?_
  intro x y hle hlt
  rw [beq_iff_eq] at hlt ⊢
  exact TransCmp.lt_of_isLE_of_lt hle hlt

/-- A sorted vector is partitioned by not being after a key. -/
theorem SortedBy.partitioned_not_after [TransCmp cmp] (h : SortedBy cmp key l) (k : κ) :
    Partitioned (fun x => !(cmp (key x) k == .gt)) l := by
  refine h.imp ?_
  intro x y hle hnot
  rw [Bool.not_eq_true', beq_eq_false_iff_ne] at hnot ⊢
  have hyk : (cmp (key y) k).isLE := Ordering.ne_gt_iff_isLE.mp hnot
  exact Ordering.ne_gt_iff_isLE.mpr (TransCmp.isLE_trans hle hyk)

/-- **The two sides of the lower bound** in a sorted vector. -/
theorem exists_split_lowerBound [TransCmp cmp] (h : SortedBy cmp key l) (k : κ) :
    ∃ pre post, l = pre ++ post ∧ lowerBound (fun x => cmp (key x) k == .lt) l = pre.length
      ∧ (∀ x ∈ pre, cmp (key x) k = .lt) ∧ ∀ x ∈ post, cmp (key x) k ≠ .lt := by
  obtain ⟨pre, post, hl, hlength, hpre, hpost⟩ := (h.partitioned k).exists_split
  refine ⟨pre, post, hl, hlength, ?_, ?_⟩
  · intro x hx
    simpa using hpre x hx
  · intro x hx
    simpa using hpost x hx

/-! ## The range of a key -/

variable (cmp key k) in
/-- `std::equal_range`: the items whose key is neither before nor after the given one. -/
def equalRange (l : List α) : ℕ × ℕ :=
  (lowerBound (fun x => cmp (key x) k == .lt) l, upperBound (fun x => cmp (key x) k == .gt) l)

/-- **The range of a key in a sorted vector**: the items with that key stand together, between those
before and those after it. -/
theorem equalRange_eq [TransCmp cmp] (h : SortedBy cmp key l) (k : κ) :
    ∃ pre range post, l = pre ++ range ++ post
      ∧ equalRange cmp key k l = (pre.length, pre.length + range.length)
      ∧ (∀ x ∈ pre, cmp (key x) k = .lt) ∧ (∀ x ∈ range, cmp (key x) k = .eq)
      ∧ ∀ x ∈ post, cmp (key x) k = .gt := by
  obtain ⟨pre, tail, rfl, hlower, hpre, htail⟩ := exists_split_lowerBound h k
  obtain ⟨low, post, hsplit, hupper, hlow, hpost⟩ := (h.partitioned_not_after k).exists_split
  -- what precedes the lower bound precedes the upper bound as well
  have hstarts : pre <+: low := by
    refine List.prefix_of_prefix_length_le (List.prefix_append pre tail)
      (hsplit ▸ List.prefix_append low post) ?_
    by_contra hlt
    push Not at hlt
    have hlt' : low.length < (pre ++ tail).length := by
      rw [List.length_append]
      omega
    have hmem : (pre ++ tail)[low.length] ∈ pre := by
      rw [List.getElem_append_left hlt]
      exact List.getElem_mem _
    have hpostmem : (pre ++ tail)[low.length] ∈ post := by
      have hne : low.length < (low ++ post).length := hsplit ▸ hlt'
      have : (pre ++ tail)[low.length] = (low ++ post)[low.length] := by simp only [hsplit]
      rw [this, List.getElem_append_right le_rfl]
      exact List.getElem_mem _
    have hgt := hpost _ hpostmem
    rw [hpre _ hmem] at hgt
    cases hgt
  obtain ⟨range, rfl⟩ := hstarts
  have hl : pre ++ tail = pre ++ range ++ post := hsplit
  refine ⟨pre, range, post, hl, ?_, hpre, ?_, ?_⟩
  · rw [equalRange, hlower, upperBound, hupper, List.length_append]
  · intro x hx
    have hmem : x ∈ tail := by
      rw [List.append_assoc] at hl
      rw [List.append_cancel_left hl]
      exact List.mem_append_left _ hx
    have hnotlt := htail x hmem
    have hnotgt := hlow x (List.mem_append_right _ hx)
    revert hnotlt hnotgt
    cases cmp (key x) k <;> simp
  · intro x hx
    simpa using hpost x hx

/-! ## Find or create -/

/-- Insertion between two parts of a vector. -/
theorem insertIdx_append_length (pre post : List α) (x : α) :
    (pre ++ post).insertIdx pre.length x = pre ++ x :: post := by
  induction pre with
  | nil => rfl
  | cons y pre ih =>
      rw [List.cons_append, List.length_cons, List.insertIdx_succ_cons, ih, List.cons_append]

variable (cmp key k) in
/-- Look up the item under a key, or insert a new one where it belongs; the position says where the
item is. -/
def findOrCreate (new : α) (l : List α) : List α × ℕ :=
  let i := lowerBound (fun x => cmp (key x) k == .lt) l
  if l[i]?.any (fun x => cmp (key x) k == .eq) then (l, i) else (l.insertIdx i new, i)

/-- Looking an item up between two parts, which need not be sorted. -/
theorem findOrCreate_append {pre post : List α} (hpre : ∀ x ∈ pre, cmp (key x) k = .lt)
    (hpost : ∀ x ∈ post, cmp (key x) k ≠ .lt) (new : α) :
    findOrCreate cmp key k new (pre ++ post)
      = (if post.head?.any (fun x => cmp (key x) k == .eq) then pre ++ post else pre ++ new :: post,
        pre.length) := by
  have hbound : lowerBound (fun x => cmp (key x) k == .lt) (pre ++ post) = pre.length :=
    lowerBound_append (fun x hx => by simp [hpre x hx]) fun x hx => by simp [hpost x hx]
  have hat : (pre ++ post)[pre.length]? = post.head? := by
    rw [List.getElem?_append_right le_rfl, Nat.sub_self, List.head?_eq_getElem?]
  simp only [findOrCreate, hbound, hat, insertIdx_append_length]
  split_ifs <;> rfl

/-- **Looking an item up or creating it**: the vector is split at the item, which was there before
under the key or is the new one. -/
theorem exists_split_findOrCreate [TransCmp cmp] (h : SortedBy cmp key l) (new : α) :
    ∃ pre x post, findOrCreate cmp key k new l = (pre ++ x :: post, pre.length)
      ∧ ((l = pre ++ x :: post ∧ cmp (key x) k = .eq)
        ∨ (l = pre ++ post ∧ x = new ∧ ∀ y ∈ post, cmp (key y) k = .gt))
      ∧ ∀ y ∈ pre, cmp (key y) k = .lt := by
  obtain ⟨pre, post, rfl, hlength, hpre, hpost⟩ := exists_split_lowerBound h k
  have hat : (pre ++ post)[pre.length]? = post.head? := by
    rw [List.getElem?_append_right le_rfl, Nat.sub_self, List.head?_eq_getElem?]
  rw [findOrCreate, hlength]
  simp only [hat]
  cases post with
  | nil =>
      refine ⟨pre, new, [], ?_, .inr ⟨rfl, rfl, by simp⟩, hpre⟩
      simp
  | cons x post =>
      by_cases hx : cmp (key x) k = .eq
      · refine ⟨pre, x, post, ?_, .inl ⟨rfl, hx⟩, hpre⟩
        simp [hx]
      · refine ⟨pre, new, x :: post, ?_, .inr ⟨rfl, rfl, ?_⟩, hpre⟩
        · simp [hx, insertIdx_append_length]
        · -- nothing after the insertion point has a smaller key
          have hxgt : cmp (key x) k = .gt := by
            have hnotlt := hpost x List.mem_cons_self
            revert hx hnotlt
            cases cmp (key x) k <;> simp
          intro y hy
          rcases List.mem_cons.mp hy with rfl | hy
          · exact hxgt
          · have hxy := (List.pairwise_append.mp h).2.1
            have hle := (List.pairwise_cons.mp hxy).1 y hy
            have hkx : cmp k (key x) = .lt := OrientedCmp.lt_of_gt hxgt
            exact OrientedCmp.gt_of_lt (TransCmp.lt_of_lt_of_isLE hkx hle)

/-- Replacing the item between two parts of a vector. -/
theorem set_append_length (pre post : List α) (x y : α) :
    (pre ++ x :: post).set pre.length y = pre ++ y :: post := by
  rw [List.set_append_right _ _ le_rfl, Nat.sub_self, List.set_cons_zero]

/-- **Updating the item under a key** of a strictly sorted vector: whatever has that key can take
the place of the item. -/
theorem StrictlySortedBy.exists_split [TransCmp cmp] (h : StrictlySortedBy cmp key l) (k : κ)
    (new : α) :
    ∃ pre x post, findOrCreate cmp key k new l = (pre ++ x :: post, pre.length)
      ∧ ((x ∈ l ∧ cmp (key x) k = .eq) ∨ x = new) ∧ (∀ y ∈ pre ++ post, y ∈ l)
      ∧ ∀ y, cmp (key y) k = .eq → StrictlySortedBy cmp key (pre ++ y :: post) := by
  obtain ⟨pre, x, post, hfind, hl, hpre⟩ := exists_split_findOrCreate (k := k) h.sortedBy new
  -- the items around the place are sorted, and those behind it have greater keys
  have haround : (pre ++ post).Pairwise (fun a b => cmp (key a) (key b) = .lt)
      ∧ (∀ y ∈ post, cmp (key y) k = .gt) ∧ ((x ∈ l ∧ cmp (key x) k = .eq) ∨ x = new)
      ∧ ∀ y ∈ pre ++ post, y ∈ l := by
    rcases hl with ⟨rfl, hx⟩ | ⟨rfl, rfl, hpost⟩
    · have hsub : (pre ++ post).Sublist (pre ++ x :: post) :=
        List.Sublist.append_left (List.sublist_cons_self x post) pre
      refine ⟨h.sublist hsub, ?_, .inl ⟨by simp, hx⟩, fun y hy => hsub.subset hy⟩
      intro y hy
      have hxy := (List.pairwise_cons.mp (List.pairwise_append.mp h).2.1).1 y hy
      exact OrientedCmp.gt_of_lt (TransCmp.lt_of_eq_of_lt (OrientedCmp.eq_symm hx) hxy)
    · exact ⟨h, hpost, .inr rfl, fun y hy => hy⟩
  obtain ⟨hsorted, hpost, hmem, hold⟩ := haround
  refine ⟨pre, x, post, hfind, hmem, hold, ?_⟩
  intro y hy
  obtain ⟨hpre', hpost', hcross⟩ := List.pairwise_append.mp hsorted
  refine List.pairwise_append.mpr ⟨hpre', List.pairwise_cons.mpr ⟨?_, hpost'⟩, ?_⟩
  · intro z hz
    exact TransCmp.lt_of_eq_of_lt hy (OrientedCmp.lt_of_gt (hpost z hz))
  · intro z hz w hw
    rcases List.mem_cons.mp hw with rfl | hw
    · exact TransCmp.lt_of_lt_of_eq (hpre z hz) (OrientedCmp.eq_symm hy)
    · exact hcross z hz w hw

/-- Do something with the item under a key, which is created when it is missing. -/
def onFoundOrCreated {β : Type} (cmp : κ → κ → Ordering) (key : α → κ) (k : κ) (new : α)
    (action : α → Option (β × α)) (l : List α) : Option (β × List α) :=
  let found := findOrCreate cmp key k new l
  found.1[found.2]?.bind fun x => (action x).map fun r => (r.1, found.1.set found.2 r.2)

/-- **The invariant rule for updates**: a strictly sorted vector stays so, and its items keep a
property, if the action keeps the key and the property. -/
theorem StrictlySortedBy.onFoundOrCreated [TransCmp cmp] {β : Type} {new : α}
    {action : α → Option (β × α)} {b : β} {l' : List α} {P : α → Prop}
    (h : StrictlySortedBy cmp key l) (hl : ∀ x ∈ l, P x)
    (haction : ∀ x x', ((x ∈ l ∧ cmp (key x) k = .eq) ∨ x = new) → action x = some (b, x') →
      cmp (key x') k = .eq ∧ P x')
    (heq : Lib.onFoundOrCreated cmp key k new action l = some (b, l')) :
    StrictlySortedBy cmp key l' ∧ ∀ x ∈ l', P x := by
  obtain ⟨pre, x, post, hfind, hx, hold, hsorted⟩ := h.exists_split k new
  rw [Lib.onFoundOrCreated, hfind] at heq
  obtain ⟨y, hy, heq⟩ := Option.bind_eq_some_iff.mp heq
  obtain rfl : x = y := by simpa using hy
  obtain ⟨⟨b', x'⟩, hx', heq⟩ := Option.map_eq_some_iff.mp heq
  cases heq
  obtain ⟨hkey, hP⟩ := haction x x' hx hx'
  show StrictlySortedBy cmp key ((pre ++ x :: post).set pre.length x') ∧ _
  rw [set_append_length]
  refine ⟨hsorted x' hkey, ?_⟩
  intro z hz
  rcases List.mem_append.mp hz with hz | hz
  · exact hl z (hold z (List.mem_append_left _ hz))
  · rcases List.mem_cons.mp hz with rfl | hz
    · exact hP
    · exact hl z (hold z (List.mem_append_right _ hz))

/-- Looking up the item under a key. -/
def findSorted (cmp : κ → κ → Ordering) (key : α → κ) (k : κ) (l : List α) : Option α :=
  l[lowerBound (fun x => cmp (key x) k == .lt) l]?.filter fun x => cmp (key x) k == .eq

/-- What is found in a sorted vector has the key, and is found whenever there is such an item. -/
theorem findSorted_isSome_iff [TransCmp cmp] (h : SortedBy cmp key l) (k : κ) :
    (findSorted cmp key k l).isSome ↔ ∃ x ∈ l, cmp (key x) k = .eq := by
  obtain ⟨pre, post, rfl, hlength, hpre, hpost⟩ := exists_split_lowerBound h k
  have hat : (pre ++ post)[pre.length]? = post.head? := by
    rw [List.getElem?_append_right le_rfl, Nat.sub_self, List.head?_eq_getElem?]
  rw [findSorted, hlength, hat]
  constructor
  · intro hsome
    obtain ⟨x, hx⟩ := Option.isSome_iff_exists.mp hsome
    obtain ⟨hx, hkey⟩ := Option.filter_eq_some_iff.mp hx
    exact ⟨x, List.mem_append_right pre (List.mem_of_head? hx), by simpa using hkey⟩
  · rintro ⟨x, hx, hkey⟩
    rcases List.mem_append.mp hx with hx | hx
    · rw [hpre x hx] at hkey
      cases hkey
    · cases post with
      | nil => cases hx
      | cons y post =>
          -- the first item that is not before the key is not after it either
          have hy : cmp (key y) k = .eq := by
            rcases List.mem_cons.mp hx with rfl | hx
            · exact hkey
            · have hyx := (List.pairwise_cons.mp (List.pairwise_append.mp h).2.1).1 x hx
              have hle : (cmp (key y) k).isLE := by
                rw [← TransCmp.congr_right hkey]
                exact hyx
              have hnotlt := hpost y List.mem_cons_self
              revert hle hnotlt
              cases cmp (key y) k <;> simp
          simp [hy]

/-- What is found is in the vector and has the key. -/
theorem mem_of_findSorted {x : α} (h : findSorted cmp key k l = some x) :
    x ∈ l ∧ cmp (key x) k = .eq := by
  obtain ⟨hx, hkey⟩ := Option.filter_eq_some_iff.mp h
  exact ⟨List.mem_of_getElem? hx, by simpa using hkey⟩

/-- **Looking up in a strictly sorted vector** finds the one item with the key. -/
theorem findSorted_eq_some_iff [TransCmp cmp] (h : StrictlySortedBy cmp key l) {x : α} :
    findSorted cmp key k l = some x ↔ x ∈ l ∧ cmp (key x) k = .eq := by
  constructor
  · exact mem_of_findSorted
  · rintro ⟨hx, hkey⟩
    have hsome := (findSorted_isSome_iff h.sortedBy k).mpr ⟨x, hx, hkey⟩
    obtain ⟨y, hy⟩ := Option.isSome_iff_exists.mp hsome
    obtain ⟨hmem, hkey'⟩ := mem_of_findSorted hy
    rw [hy, h.eq_of_key_eq hmem hx (TransCmp.eq_trans hkey' (OrientedCmp.eq_symm hkey))]

/-- Modifying the item between two parts of a vector. -/
theorem modify_append_length (pre post : List α) (x : α) (f : α → α) :
    (pre ++ x :: post).modify pre.length f = pre ++ f x :: post := by
  induction pre with
  | nil => rfl
  | cons y pre ih =>
      rw [List.cons_append, List.length_cons, List.modify_succ_cons, ih, List.cons_append]

/-- Update the item under a key, which is created when it is missing. -/
def updateFoundOrCreated (cmp : κ → κ → Ordering) (key : α → κ) (k : κ) (new : α) (f : α → α)
    (l : List α) : List α :=
  let found := findOrCreate cmp key k new l
  found.1.modify found.2 f

/-- **The result of an update**: the vector is split at the item, which was there before under the
key or is the new one, and the item is updated. -/
theorem exists_updateFoundOrCreated_eq [TransCmp cmp] (h : SortedBy cmp key l) (k : κ) (new : α)
    (f : α → α) :
    ∃ pre x post, updateFoundOrCreated cmp key k new f l = pre ++ f x :: post
      ∧ ((l = pre ++ x :: post ∧ cmp (key x) k = .eq)
        ∨ (l = pre ++ post ∧ x = new ∧ ∀ y ∈ post, cmp (key y) k = .gt))
      ∧ ∀ y ∈ pre, cmp (key y) k = .lt := by
  obtain ⟨pre, x, post, hfind, hl, hpre⟩ := exists_split_findOrCreate (k := k) h new
  refine ⟨pre, x, post, ?_, hl, hpre⟩
  rw [updateFoundOrCreated, hfind]
  exact modify_append_length pre post x f

/-- Such an update keeps the vector strictly sorted, if it keeps the key. -/
theorem StrictlySortedBy.updateFoundOrCreated [TransCmp cmp] {new : α} {f : α → α}
    (h : StrictlySortedBy cmp key l) (hnew : cmp (key new) k = .eq)
    (hf : ∀ x, cmp (key x) k = .eq → cmp (key (f x)) k = .eq) :
    StrictlySortedBy cmp key (Lib.updateFoundOrCreated cmp key k new f l) := by
  obtain ⟨pre, x, post, hfind, hx, -, hsorted⟩ := h.exists_split k new
  rw [Lib.updateFoundOrCreated, hfind]
  show StrictlySortedBy cmp key ((pre ++ x :: post).modify pre.length f)
  rw [modify_append_length]
  refine hsorted (f x) (hf x ?_)
  rcases hx with ⟨-, hx⟩ | rfl
  · exact hx
  · exact hnew

/-- **What is found after an update**: the updated item under its key, and what was there under any
other. -/
theorem findSorted_updateFoundOrCreated [TransCmp cmp] {new : α} {f : α → α}
    (h : StrictlySortedBy cmp key l) (hnew : cmp (key new) k = .eq)
    (hf : ∀ x, cmp (key x) k = .eq → cmp (key (f x)) k = .eq) (k' : κ) :
    findSorted cmp key k' (updateFoundOrCreated cmp key k new f l)
      = if cmp k' k = .eq then some (f ((findSorted cmp key k l).getD new))
        else findSorted cmp key k' l := by
  have hsorted' := h.updateFoundOrCreated hnew hf
  obtain ⟨pre, x, post, hupdate, hl, hpre⟩ := exists_updateFoundOrCreated_eq h.sortedBy k new f
  rw [hupdate] at hsorted' ⊢
  have hx : cmp (key x) k = .eq ∧ (findSorted cmp key k l).getD new = x
      ∧ ∀ y, cmp (key y) k ≠ .eq → (y ∈ l ↔ y ∈ pre ++ post) := by
    rcases hl with ⟨rfl, hx⟩ | ⟨rfl, rfl, hpost⟩
    · refine ⟨hx, ?_, ?_⟩
      · rw [(findSorted_eq_some_iff h).mpr ⟨by simp, hx⟩, Option.getD_some]
      · intro y hy
        have hne : y ≠ x := fun heq => hy (heq ▸ hx)
        simp [hne]
    · refine ⟨hnew, ?_, fun y _ => Iff.rfl⟩
      have hnone : findSorted cmp key k (pre ++ post) = none := by
        rw [← Option.not_isSome_iff_eq_none, findSorted_isSome_iff h.sortedBy]
        rintro ⟨y, hy, hkey⟩
        rcases List.mem_append.mp hy with hy | hy
        · rw [hpre y hy] at hkey
          cases hkey
        · rw [hpost y hy] at hkey
          cases hkey
      rw [hnone, Option.getD_none]
  obtain ⟨hkey, hfound, hother⟩ := hx
  split_ifs with hk
  · rw [hfound, findSorted_eq_some_iff hsorted']
    exact ⟨by simp, TransCmp.eq_trans (hf x hkey) (OrientedCmp.eq_symm hk)⟩
  · apply Option.ext
    intro y
    rw [findSorted_eq_some_iff hsorted', findSorted_eq_some_iff h]
    refine and_congr_left fun hy => ?_
    have hne : cmp (key y) k ≠ .eq := fun heq =>
      hk (TransCmp.eq_trans (OrientedCmp.eq_symm hy) heq)
    have hfx : y ≠ f x := fun heq => hne (heq ▸ hf x hkey)
    rw [hother y hne]
    simp [hfx]

/-- What is there after an update: an item that was there, or the updated one. -/
theorem mem_updateFoundOrCreated [TransCmp cmp] {new : α} {f : α → α}
    (h : StrictlySortedBy cmp key l) {y : α} (hy : y ∈ updateFoundOrCreated cmp key k new f l) :
    y ∈ l ∨ ∃ x, (x ∈ l ∧ cmp (key x) k = .eq ∨ x = new) ∧ y = f x := by
  obtain ⟨pre, x, post, hfind, hx, hold, -⟩ := h.exists_split k new
  rw [updateFoundOrCreated, hfind] at hy
  replace hy : y ∈ (pre ++ x :: post).modify pre.length f := hy
  rw [modify_append_length] at hy
  rcases List.mem_append.mp hy with hy | hy
  · exact .inl (hold y (List.mem_append_left _ hy))
  · rcases List.mem_cons.mp hy with rfl | hy
    · exact .inr ⟨x, hx, rfl⟩
    · exact .inl (hold y (List.mem_append_right _ hy))

/-- **What an update keeps**: the items under other keys, and the updated item is there. -/
theorem mem_updateFoundOrCreated_of_mem [TransCmp cmp] (k : κ) (new : α) (f : α → α)
    (h : SortedBy cmp key l) :
    (∀ y ∈ l, y ∈ updateFoundOrCreated cmp key k new f l
        ∨ cmp (key y) k = .eq ∧ f y ∈ updateFoundOrCreated cmp key k new f l)
      ∧ ∃ x, (x ∈ l ∧ cmp (key x) k = .eq ∨ x = new)
        ∧ f x ∈ updateFoundOrCreated cmp key k new f l := by
  obtain ⟨pre, x, post, hupdate, hl, -⟩ := exists_updateFoundOrCreated_eq h k new f
  have hhere : f x ∈ pre ++ f x :: post := List.mem_append_right pre List.mem_cons_self
  have hrest : ∀ y ∈ pre ++ post, y ∈ pre ++ f x :: post := fun y hy => by
    rcases List.mem_append.mp hy with hy | hy
    · exact List.mem_append_left _ hy
    · exact List.mem_append_right _ (List.mem_cons_of_mem _ hy)
  rw [hupdate]
  rcases hl with ⟨rfl, hx⟩ | ⟨rfl, hx, -⟩
  · refine ⟨fun y hy => ?_, x, .inl ⟨List.mem_append_right pre List.mem_cons_self, hx⟩, hhere⟩
    rcases List.mem_append.mp hy with hy | hy
    · exact .inl (hrest y (List.mem_append_left _ hy))
    · rcases List.mem_cons.mp hy with rfl | hy
      · exact .inr ⟨hx, hhere⟩
      · exact .inl (hrest y (List.mem_append_right _ hy))
  · exact ⟨fun y hy => .inl (hrest y hy), x, .inr hx, hhere⟩

/-- An item under a key behind all others is put at the end. -/
theorem updateFoundOrCreated_eq_append [TransCmp cmp] {new : α} (h : StrictlySortedBy cmp key l)
    (hlast : ∀ a ∈ l, cmp (key a) k = .lt) :
    updateFoundOrCreated cmp key k new (fun found => found) l = l ++ [new] := by
  obtain ⟨pre, a, post, hupdate, hl, -⟩ :=
    exists_updateFoundOrCreated_eq h.sortedBy k new fun found => found
  rw [hupdate]
  rcases hl with ⟨rfl, hx⟩ | ⟨rfl, rfl, hpost⟩
  · rw [hlast a (by simp)] at hx
    cases hx
  · cases post with
    | nil => rw [List.append_nil]
    | cons b post =>
        have hlt := hlast b (by simp)
        rw [hpost b List.mem_cons_self] at hlt
        cases hlt

/-- An item under a new key that is behind the first items is put among the others. -/
theorem exists_split_updateFoundOrCreated [TransCmp cmp] {new : α} {f : α → α} {pre post : List α}
    (h : SortedBy cmp key post) (hpre : ∀ a ∈ pre, cmp (key a) k = .lt)
    (hfresh : ∀ a ∈ post, cmp (key a) k ≠ .eq) :
    ∃ p q, post = p ++ q
      ∧ updateFoundOrCreated cmp key k new f (pre ++ post) = pre ++ (p ++ f new :: q)
      ∧ (∀ a ∈ p, cmp (key a) k = .lt) ∧ ∀ a ∈ q, cmp (key a) k = .gt := by
  obtain ⟨p, q, rfl, -, hp, hq⟩ := exists_split_lowerBound h k
  have hbefore : ∀ a ∈ pre ++ p, cmp (key a) k = .lt := by
    intro a ha
    obtain ha | ha := List.mem_append.mp ha
    · exact hpre a ha
    · exact hp a ha
  have hhead : ¬ q.head?.any (fun x => cmp (key x) k == .eq) = true := by
    cases q with
    | nil => simp
    | cons x q => simpa using hfresh x (by simp)
  refine ⟨p, q, rfl, ?_, hp, ?_⟩
  · rw [updateFoundOrCreated, ← List.append_assoc, findOrCreate_append hbefore hq, if_neg hhead]
    dsimp only
    rw [modify_append_length, List.append_assoc]
  · intro a ha
    cases hcmp : cmp (key a) k with
    | lt => exact absurd hcmp (hq a ha)
    | eq => exact absurd hcmp (hfresh a (List.mem_append_right p ha))
    | gt => rfl

/-- **A loop of updates**: the vector stays strictly sorted, what is new is under a key of the loop,
and an item that no other overwrites is there in the end. -/
theorem StrictlySortedBy.foldl_updateFoundOrCreated [TransCmp cmp] {β : Type} {k : β → κ}
    {new : β → α} {f : β → α → α} (hnew : ∀ b, cmp (key (new b)) (k b) = .eq)
    (hf : ∀ b x, cmp (key x) (k b) = .eq → cmp (key (f b x)) (k b) = .eq)
    (h : StrictlySortedBy cmp key l) (bs : List β) :
    StrictlySortedBy cmp key
        (bs.foldl (fun l b => Lib.updateFoundOrCreated cmp key (k b) (new b) (f b) l) l)
      ∧ (∀ y ∈ bs.foldl (fun l b => Lib.updateFoundOrCreated cmp key (k b) (new b) (f b) l) l,
        y ∈ l ∨ ∃ b ∈ bs, cmp (key y) (k b) = .eq)
      ∧ ∀ b ∈ bs, (∀ b' ∈ bs, cmp (k b) (k b') = .eq → b' = b) → ∃ x,
        findSorted cmp key (k b)
          (bs.foldl (fun l b => Lib.updateFoundOrCreated cmp key (k b) (new b) (f b) l) l)
            = some (f b x) := by
  induction bs using List.reverseRecOn with
  | nil => exact ⟨h, fun y hy => .inl hy, fun b hb => by cases hb⟩
  | append_singleton bs c ih =>
      obtain ⟨hsorted, hmem, hfind⟩ := ih
      rw [List.foldl_append]
      refine ⟨hsorted.updateFoundOrCreated (hnew c) (hf c), ?_, ?_⟩
      · intro y hy
        have hc : c ∈ bs ++ [c] := List.mem_append_right _ List.mem_cons_self
        rcases mem_updateFoundOrCreated hsorted hy with hy | ⟨x, ⟨-, hx⟩ | rfl, rfl⟩
        · refine (hmem y hy).imp_right ?_
          rintro ⟨b, hb, hkey⟩
          exact ⟨b, List.mem_append_left _ hb, hkey⟩
        · exact .inr ⟨c, hc, hf c x hx⟩
        · exact .inr ⟨c, hc, hf c _ (hnew c)⟩
      · intro b hb hunique
        rw [List.foldl_cons, List.foldl_nil,
          findSorted_updateFoundOrCreated hsorted (hnew c) (hf c)]
        split_ifs with hkey
        · obtain rfl := hunique c (List.mem_append_right _ List.mem_cons_self) hkey
          exact ⟨_, rfl⟩
        · rcases List.mem_append.mp hb with hb | hb
          · exact hfind b hb fun b' hb' => hunique b' (List.mem_append_left _ hb')
          · obtain rfl := List.mem_singleton.mp hb
            exact absurd ReflCmp.compare_self hkey

/-- What is done is done with some item. -/
theorem exists_of_onFoundOrCreated {β : Type} {new : α} {action : α → Option (β × α)} {b : β}
    {l' : List α} (h : onFoundOrCreated cmp key k new action l = some (b, l')) :
    ∃ x x', action x = some (b, x') := by
  obtain ⟨x, -, h⟩ := Option.bind_eq_some_iff.mp h
  obtain ⟨⟨b', x'⟩, hx, heq⟩ := Option.map_eq_some_iff.mp h
  obtain ⟨rfl, -⟩ := Prod.mk.inj heq
  exact ⟨x, x', hx⟩

/-- In a sorted vector the lookup finds the first item with the key. -/
theorem findSorted_eq_find? [TransCmp cmp] (h : SortedBy cmp key l) (k : κ) :
    findSorted cmp key k l = l.find? fun x => cmp (key x) k == .eq := by
  obtain ⟨pre, post, rfl, hlength, hpre, hpost⟩ := exists_split_lowerBound h k
  have hat : (pre ++ post)[pre.length]? = post.head? := by
    rw [List.getElem?_append_right le_rfl, Nat.sub_self, List.head?_eq_getElem?]
  have hskip : (pre.find? fun x => cmp (key x) k == .eq) = none := by
    rw [List.find?_eq_none]
    intro x hx
    simp [hpre x hx]
  rw [findSorted, hlength, hat, List.find?_append, hskip, Option.none_or]
  cases post with
  | nil => rfl
  | cons y post =>
      by_cases hy : cmp (key y) k = .eq
      · simp [hy]
      · -- behind an item after the key there is none with the key
        have hgt : cmp (key y) k = .gt := by
          have hnotlt := hpost y List.mem_cons_self
          revert hy hnotlt
          cases cmp (key y) k <;> simp
        have hrest : (post.find? fun x => cmp (key x) k == .eq) = none := by
          rw [List.find?_eq_none]
          intro x hx
          have hle := (List.pairwise_cons.mp (List.pairwise_append.mp h).2.1).1 x hx
          have hlt := TransCmp.lt_of_lt_of_isLE (OrientedCmp.lt_of_gt hgt) hle
          simp [OrientedCmp.gt_of_lt hlt]
        simp [hgt, hrest]

/-- A lookup does not tell equivalent keys apart. -/
theorem findSorted_congr [TransCmp cmp] (h : SortedBy cmp key l) {k k' : κ} (hk : cmp k k' = .eq) :
    findSorted cmp key k l = findSorted cmp key k' l := by
  rw [findSorted_eq_find? h, findSorted_eq_find? h]
  congr 1
  funext x
  rw [TransCmp.congr_right hk]

/-- **Doing something with the item under a key** of a sorted vector, where the action keeps the
key: the vector stays sorted, the item takes the place of the one that was found or created, and
under other keys there is what was there. -/
theorem SortedBy.onFoundOrCreated [TransCmp cmp] {β : Type} {new : α} {action : α → Option (β × α)}
    {b : β} {l' : List α} (h : SortedBy cmp key l) (hnew : cmp (key new) k = .eq)
    (haction : ∀ x x', (x ∈ l ∨ x = new) → action x = some (b, x') → key x' = key x)
    (heq : Lib.onFoundOrCreated cmp key k new action l = some (b, l')) :
    SortedBy cmp key l' ∧ ∃ x', action ((findSorted cmp key k l).getD new) = some (b, x')
      ∧ findSorted cmp key k l' = some x' ∧ (∀ y ∈ l', y ∈ l ∨ y = x')
      ∧ ∀ k', cmp k k' ≠ .eq → findSorted cmp key k' l' = findSorted cmp key k' l := by
  obtain ⟨pre, x, post, hfind, hl, hpre⟩ := exists_split_findOrCreate (k := k) h new
  rw [Lib.onFoundOrCreated, hfind] at heq
  obtain ⟨y, hy, heq⟩ := Option.bind_eq_some_iff.mp heq
  obtain rfl : x = y := by simpa using hy
  obtain ⟨⟨b', x'⟩, hx', heq⟩ := Option.map_eq_some_iff.mp heq
  obtain ⟨rfl, hl'⟩ := Prod.mk.inj heq
  rw [set_append_length] at hl'
  subst hl'
  have hkey : key x' = key x := by
    refine haction x x' ?_ hx'
    rcases hl with ⟨rfl, -⟩ | ⟨-, rfl, -⟩
    · exact .inl (by simp)
    · exact .inr rfl
  have hskip : ∀ z ∈ pre, ¬ (cmp (key z) k == .eq) = true := by
    intro z hz
    simp [hpre z hz]
  -- the item has the key, is found before, and the vector around it is sorted
  have hx : cmp (key x) k = .eq ∧ (findSorted cmp key k l).getD new = x
      ∧ SortedBy cmp key (pre ++ x :: post) ∧ (∀ z ∈ pre ++ post, z ∈ l)
      ∧ ∀ k', cmp k k' ≠ .eq → (l.find? fun z => cmp (key z) k' == .eq)
        = (pre ++ post).find? fun z => cmp (key z) k' == .eq := by
    rcases hl with ⟨rfl, hx⟩ | ⟨rfl, rfl, hpost⟩
    · refine ⟨hx, ?_, h, fun z hz => by simpa using Or.imp_right Or.inr (List.mem_append.mp hz), ?_⟩
      · rw [findSorted_eq_find? h, List.find?_append, List.find?_eq_none.mpr hskip]
        simp [hx]
      · intro k' hk'
        have hother : cmp (key x) k' ≠ .eq := fun heq =>
          hk' (TransCmp.eq_trans (OrientedCmp.eq_symm hx) heq)
        simp [List.find?_append, hother]
    · refine ⟨hnew, ?_, ?_, fun z hz => hz, fun _ _ => rfl⟩
      · rw [findSorted_eq_find? h, List.find?_append, List.find?_eq_none.mpr hskip, Option.none_or]
        have hrest : (post.find? fun z => cmp (key z) k == .eq) = none := by
          rw [List.find?_eq_none]
          intro z hz
          simp [hpost z hz]
        rw [hrest, Option.getD_none]
      · obtain ⟨hsortedPre, hsortedPost, hcross⟩ := List.pairwise_append.mp h
        refine List.pairwise_append.mpr ⟨hsortedPre, List.pairwise_cons.mpr ⟨?_, hsortedPost⟩, ?_⟩
        · intro z hz
          have hlt := OrientedCmp.lt_of_gt (hpost z hz)
          exact Ordering.isLE_of_eq_lt (TransCmp.lt_of_eq_of_lt hnew hlt)
        · intro z hz w hw
          rcases List.mem_cons.mp hw with rfl | hw
          · exact Ordering.isLE_of_eq_lt
              (TransCmp.lt_of_lt_of_eq (hpre z hz) (OrientedCmp.eq_symm hnew))
          · exact hcross z hz w hw
  obtain ⟨hx, hfound, hsorted, hmem, hother⟩ := hx
  have hsorted' : SortedBy cmp key (pre ++ x' :: post) := by
    rw [SortedBy, ← List.pairwise_map (f := key) (R := fun a b => (cmp a b).isLE)] at hsorted ⊢
    simpa [hkey] using hsorted
  refine ⟨hsorted', x', hfound ▸ hx', ?_, ?_, ?_⟩
  · rw [findSorted_eq_find? hsorted', List.find?_append, List.find?_eq_none.mpr hskip]
    simp [hkey, hx]
  · intro z hz
    rcases List.mem_append.mp hz with hz | hz
    · exact .inl (hmem z (List.mem_append_left _ hz))
    · rcases List.mem_cons.mp hz with rfl | hz
      · exact .inr rfl
      · exact .inl (hmem z (List.mem_append_right _ hz))
  · intro k' hk'
    have hne : cmp (key x') k' ≠ .eq := fun heq =>
      hk' (TransCmp.eq_trans (OrientedCmp.eq_symm hx) (hkey ▸ heq))
    rw [findSorted_eq_find? hsorted', findSorted_eq_find? h, hother k' hk']
    simp [List.find?_append, hne]

/-- Do something with the item under a key, if there is one. -/
def onFound {β : Type} (cmp : κ → κ → Ordering) (key : α → κ) (k : κ) (action : α → β × α)
    (l : List α) : Option (β × List α) :=
  let i := lowerBound (fun x => cmp (key x) k == .lt) l
  (l[i]?.filter fun x => cmp (key x) k == .eq).map fun x => ((action x).1, l.set i (action x).2)

/-- The invariant rule for updates of an item that is there: an action that keeps the key and a
property of the items keeps the vector strictly sorted. -/
theorem StrictlySortedBy.onFound {β : Type} {action : α → β × α} {b : β} {l' : List α}
    {P : α → Prop} (h : StrictlySortedBy cmp key l) (hl : ∀ x ∈ l, P x)
    (haction : ∀ x ∈ l, key (action x).2 = key x ∧ P (action x).2)
    (heq : Lib.onFound cmp key k action l = some (b, l')) :
    StrictlySortedBy cmp key l' ∧ ∀ x ∈ l', P x := by
  obtain ⟨x, hx, heq⟩ := Option.map_eq_some_iff.mp heq
  cases heq
  obtain ⟨hx, -⟩ := Option.filter_eq_some_iff.mp hx
  obtain ⟨hkey, hP⟩ := haction x (List.mem_of_getElem? hx)
  refine ⟨?_, ?_⟩
  · rw [StrictlySortedBy, ← List.pairwise_map (f := key) (R := fun a b => cmp a b = .lt),
      List.map_set, hkey]
    have hset : (l.map key).set (lowerBound (fun x => cmp (key x) k == .lt) l) (key x)
        = l.map key := by
      apply List.ext_getElem?
      intro i
      rw [List.getElem?_set]
      split_ifs with hi hlt
      · rw [← hi, List.getElem?_map, hx, Option.map_some]
      · rw [← hi, List.getElem?_eq_none (by omega)]
      · rfl
    rw [hset]
    exact List.pairwise_map.mpr h
  · intro z hz
    rcases List.mem_or_eq_of_mem_set hz with hz | rfl
    · exact hl z hz
    · exact hP

end Sorted

end AndroidSdk.Lib
