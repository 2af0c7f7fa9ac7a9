import Mathlib.Order.Nat
import Mathlib.Data.List.Induction

/-! # Sorted vectors and keyed vectors

Vectors that are kept sorted under a three-way comparison and hold at most one of several items that
compare equal, maps from such keys, and the loop that keeps the best item of a vector.

* **`SortedVector.add`** — insertion, replacing an item that compares equal.
* **`KeyedVector.add`**, **`KeyedVector.find`** — a map as a sorted vector of pairs.
* **`KeyedVector.appendValue`** — a map to sorted vectors; `Grouped` is the invariant of its loop.
* **`KeyedVector.group`**, **`any_group`** — the loop that appends each value under its key loses
  none.
* **`selectBest`** — the loop that keeps the best item. -/

namespace AndroidSdk.Lib

open Std

variable {α κ ν : Type}

/-! ## Sorted vectors -/

namespace SortedVector

/-- Insert an item, replacing an item that compares equal. -/
def add (cmp : α → α → Ordering) (x : α) : List α → List α
  | [] => [x]
  | y :: ys =>
      match cmp x y with
      | .lt => x :: y :: ys
      | .eq => x :: ys
      | .gt => y :: add cmp x ys

/-- The items increase. -/
def Sorted (cmp : α → α → Ordering) (l : List α) : Prop := l.Pairwise (cmp · · = .lt)

variable {cmp : α → α → Ordering}

/-- The item that is added is there. -/
theorem mem_add_self (x : α) (l : List α) : x ∈ add cmp x l := by
  induction l with
  | nil => exact List.mem_singleton_self x
  | cons y ys ih =>
      rw [add]
      split
      · exact List.mem_cons_self
      · exact List.mem_cons_self
      · exact List.mem_cons_of_mem y ih

/-- The items after adding one. -/
theorem mem_of_mem_add {x y : α} {l : List α} (h : y ∈ add cmp x l) : y = x ∨ y ∈ l := by
  induction l with
  | nil => exact .inl (List.mem_singleton.mp h)
  | cons z zs ih =>
      rw [add] at h
      split at h
      · exact List.mem_cons.mp h
      · exact (List.mem_cons.mp h).imp_right (List.mem_cons_of_mem z)
      · obtain rfl | h := List.mem_cons.mp h
        · exact .inr List.mem_cons_self
        · exact (ih h).imp_right (List.mem_cons_of_mem z)

/-- The items after adding one, if only equal items compare equal. -/
theorem mem_add_iff [LawfulEqCmp cmp] {x y : α} {l : List α} :
    y ∈ add cmp x l ↔ y = x ∨ y ∈ l := by
  refine ⟨mem_of_mem_add, fun h => ?_⟩
  rcases h with rfl | h
  · exact mem_add_self y l
  · induction l with
    | nil => cases h
    | cons z zs ih =>
        rw [add]
        split
        · exact List.mem_cons_of_mem x h
        next heq => rwa [LawfulEqCmp.eq_of_compare heq]
        · rcases List.mem_cons.mp h with rfl | h
          · exact List.mem_cons_self
          · exact List.mem_cons_of_mem z (ih h)

/-- Adding an item keeps the vector sorted. -/
theorem sorted_add [TransCmp cmp] (x : α) {l : List α} (h : Sorted cmp l) :
    Sorted cmp (add cmp x l) := by
  induction l with
  | nil => exact List.pairwise_singleton _ x
  | cons y ys ih =>
      obtain ⟨hy, hys⟩ := List.pairwise_cons.mp h
      rw [add]
      split
      next hlt =>
        refine List.pairwise_cons.mpr ⟨?_, h⟩
        intro z hz
        obtain rfl | hz := List.mem_cons.mp hz
        · exact hlt
        · exact TransCmp.lt_trans hlt (hy z hz)
      next heq =>
        refine List.pairwise_cons.mpr ⟨?_, hys⟩
        intro z hz
        exact TransCmp.lt_of_eq_of_lt heq (hy z hz)
      next hgt =>
        refine List.pairwise_cons.mpr ⟨?_, ih hys⟩
        intro z hz
        obtain rfl | hz := mem_of_mem_add hz
        · exact OrientedCmp.lt_of_gt hgt
        · exact hy z hz

/-- Items of a sorted vector that compare equal are the same. -/
theorem eq_of_compare_eq [TransCmp cmp] {l : List α} (h : Sorted cmp l) {x y : α} (hx : x ∈ l)
    (hy : y ∈ l) (heq : cmp x y = .eq) : x = y := by
  induction l with
  | nil => cases hx
  | cons z zs ih =>
      obtain ⟨hz, hzs⟩ := List.pairwise_cons.mp h
      obtain rfl | hx' := List.mem_cons.mp hx
      · obtain rfl | hy' := List.mem_cons.mp hy
        · rfl
        · rw [hz y hy'] at heq
          cases heq
      · obtain rfl | hy' := List.mem_cons.mp hy
        · have hlt := hz x hx'
          rw [OrientedCmp.eq_symm heq] at hlt
          cases hlt
        · exact ih hzs hx' hy'

/-- Whether an item that compares equal is there. -/
def contains (cmp : α → α → Ordering) (u : α) (l : List α) : Bool := l.any fun w => cmp u w = .eq

/-- An item that compares equal is there. -/
theorem contains_eq_true_iff {u : α} {l : List α} :
    contains cmp u l = true ↔ ∃ w ∈ l, cmp u w = .eq := by
  simp [contains]

/-- What is there after adding an item: what was there, and the item. -/
theorem contains_add [TransCmp cmp] (u x : α) (l : List α) :
    contains cmp u (add cmp x l) = true ↔ cmp u x = .eq ∨ contains cmp u l = true := by
  simp only [contains_eq_true_iff]
  induction l with
  | nil => simp [add]
  | cons y ys ih =>
      rw [add]
      split
      · simp
      next heq =>
        -- what compares equal to the replaced item compares equal to the new one
        have hcongr : cmp u y = cmp u x := (TransCmp.congr_right heq).symm
        simp [hcongr]
      · simp only [List.mem_cons, exists_eq_or_imp, ih]
        exact or_left_comm

end SortedVector

/-! ## Keyed vectors -/

namespace KeyedVector

/-- Add a value under a key, replacing the value under an equal key. -/
def add (cmp : κ → κ → Ordering) (k : κ) (v : ν) : List (κ × ν) → List (κ × ν)
  | [] => [(k, v)]
  | (k', v') :: rest =>
      match cmp k k' with
      | .lt => (k, v) :: (k', v') :: rest
      | .eq => (k, v) :: rest
      | .gt => (k', v') :: add cmp k v rest

/-- The value under a key. -/
def find (cmp : κ → κ → Ordering) (k : κ) (l : List (κ × ν)) : Option ν :=
  (l.find? fun p => cmp k p.1 = .eq).map Prod.snd

variable {cmp : κ → κ → Ordering}

/-- The first pair decides if its key is equal. -/
theorem find_cons (k : κ) (p : κ × ν) (l : List (κ × ν)) :
    find cmp k (p :: l) = if cmp k p.1 = .eq then some p.2 else find cmp k l := by
  by_cases h : cmp k p.1 = .eq
  · simp [find, h]
  · simp [find, h]

/-- A value that is found is there, under an equal key. -/
theorem exists_mem_of_find {k : κ} {v : ν} {l : List (κ × ν)} (h : find cmp k l = some v) :
    ∃ p ∈ l, cmp k p.1 = .eq ∧ p.2 = v := by
  obtain ⟨p, hp, rfl⟩ := Option.map_eq_some_iff.mp h
  exact ⟨p, List.mem_of_find?_eq_some hp, by simpa using List.find?_some hp, rfl⟩

/-- Nothing is found iff no key is equal. -/
theorem find_eq_none_iff {k : κ} {l : List (κ × ν)} :
    find cmp k l = none ↔ ∀ p ∈ l, cmp k p.1 ≠ .eq := by
  simp [find]

/-- The value under a key after one was added. -/
theorem find_add [TransCmp cmp] (k k' : κ) (v : ν) (l : List (κ × ν)) :
    find cmp k (add cmp k' v l) = if cmp k k' = .eq then some v else find cmp k l := by
  induction l with
  | nil => rw [add, find_cons]
  | cons p rest ih =>
      obtain ⟨k₁, v₁⟩ := p
      rw [add]
      split
      · rw [find_cons]
      next heq =>
        have hcongr : cmp k k₁ = cmp k k' := (TransCmp.congr_right heq).symm
        rw [find_cons, find_cons, hcongr]
        split <;> rfl
      next hgt =>
        rw [find_cons, find_cons, ih]
        by_cases h : cmp k k' = .eq
        · have hcongr : cmp k k₁ = .gt := (TransCmp.congr_left h).trans hgt
          rw [hcongr, if_pos h, if_pos h, if_neg (by simp)]
        · rw [if_neg h, if_neg h]

/-- Adding a value keeps the keys increasing. -/
theorem keys_add [TransCmp cmp] (k : κ) (v : ν) {l : List (κ × ν)}
    (h : l.Pairwise fun p q => cmp p.1 q.1 = .lt) :
    (add cmp k v l).Pairwise fun p q => cmp p.1 q.1 = .lt := by
  have hadd : add cmp k v l = SortedVector.add (fun p q => cmp p.1 q.1) (k, v) l := by
    induction l with
    | nil => rfl
    | cons p l ih => rw [add, SortedVector.add, ih (List.pairwise_cons.mp h).2]
  have : TransCmp fun p q : κ × ν => cmp p.1 q.1 :=
    { eq_swap := OrientedCmp.eq_swap, isLE_trans := TransCmp.isLE_trans }
  rw [hadd]
  exact SortedVector.sorted_add (k, v) h

/-- Add a value under a key that has none; a value that is there stays (`std::map::emplace`). -/
def emplace (cmp : κ → κ → Ordering) (k : κ) (v : ν) (l : List (κ × ν)) : List (κ × ν) :=
  match find cmp k l with
  | some _ => l
  | none => add cmp k v l

/-- The value under a key after one was put under a key. -/
theorem find_emplace [TransCmp cmp] (k k' : κ) (v : ν) (l : List (κ × ν)) :
    find cmp k (emplace cmp k' v l)
      = if cmp k k' = .eq then some ((find cmp k l).getD v) else find cmp k l := by
  have hcongr (h : cmp k k' = .eq) : find cmp k l = find cmp k' l := by
    have hsame : ∀ p : κ × ν, cmp k p.1 = cmp k' p.1 := fun p => TransCmp.congr_left h
    simp only [find, hsame]
  rw [emplace]
  by_cases h : cmp k k' = .eq
  · rw [if_pos h, hcongr h]
    split
    next v' hv' => rw [hcongr h, hv', Option.getD_some]
    next hnone => rw [find_add, if_pos h, hnone, Option.getD_none]
  · rw [if_neg h]
    split
    · rfl
    · rw [find_add, if_neg h]

/-- Putting a value under a key keeps the keys increasing. -/
theorem keys_emplace [TransCmp cmp] (k : κ) (v : ν) {l : List (κ × ν)}
    (h : l.Pairwise fun p q => cmp p.1 q.1 = .lt) :
    (emplace cmp k v l).Pairwise fun p q => cmp p.1 q.1 = .lt := by
  rw [emplace]
  split
  · exact h
  · exact keys_add k v h

/-- Change the value under a key, which is created when it is missing (`std::map::operator[]`). -/
def alter (cmp : κ → κ → Ordering) (k : κ) (f : Option ν → ν) : List (κ × ν) → List (κ × ν)
  | [] => [(k, f none)]
  | (k', v) :: rest =>
      match cmp k k' with
      | .lt => (k, f none) :: (k', v) :: rest
      | .eq => (k', f (some v)) :: rest
      | .gt => (k', v) :: alter cmp k f rest

/-- What is there after a change. -/
theorem mem_alter {k : κ} {f : Option ν → ν} {l : List (κ × ν)} {p : κ × ν}
    (h : p ∈ alter cmp k f l) :
    p ∈ l ∨ p = (k, f none) ∨ ∃ v, (p.1, v) ∈ l ∧ cmp k p.1 = .eq ∧ p.2 = f (some v) := by
  induction l with
  | nil => exact .inr (.inl (List.mem_singleton.mp h))
  | cons q rest ih =>
      obtain ⟨k', v⟩ := q
      rw [alter] at h
      split at h
      · rcases List.mem_cons.mp h with rfl | h
        · exact .inr (.inl rfl)
        · exact .inl h
      next heq =>
        rcases List.mem_cons.mp h with rfl | h
        · exact .inr (.inr ⟨v, List.mem_cons_self, heq, rfl⟩)
        · exact .inl (List.mem_cons_of_mem _ h)
      · rcases List.mem_cons.mp h with rfl | h
        · exact .inl List.mem_cons_self
        · rcases ih h with h | h | ⟨v', hmem, heq, hf⟩
          · exact .inl (List.mem_cons_of_mem _ h)
          · exact .inr (.inl h)
          · exact .inr (.inr ⟨v', List.mem_cons_of_mem _ hmem, heq, hf⟩)

/-- A change keeps the keys increasing. -/
theorem keys_alter [TransCmp cmp] (k : κ) (f : Option ν → ν) {l : List (κ × ν)}
    (h : l.Pairwise fun p q => cmp p.1 q.1 = .lt) :
    (alter cmp k f l).Pairwise fun p q => cmp p.1 q.1 = .lt := by
  induction l with
  | nil => exact List.pairwise_singleton _ _
  | cons q rest ih =>
      obtain ⟨k', v⟩ := q
      obtain ⟨hq, hrest⟩ := List.pairwise_cons.mp h
      rw [alter]
      split
      next hlt =>
        refine List.pairwise_cons.mpr ⟨?_, h⟩
        intro p hp
        rcases List.mem_cons.mp hp with rfl | hp
        · exact hlt
        · exact TransCmp.lt_trans hlt (hq p hp)
      · exact List.pairwise_cons.mpr ⟨hq, hrest⟩
      next hgt =>
        refine List.pairwise_cons.mpr ⟨?_, ih hrest⟩
        intro p hp
        rcases mem_alter hp with hp | rfl | ⟨v', hmem, -, -⟩
        · exact hq p hp
        · exact OrientedCmp.lt_of_gt hgt
        · exact hq (p.1, v') hmem

/-- Add a value under a key, if there is one. -/
def addSome (cmp : κ → κ → Ordering) (l : List (κ × ν)) (e : κ × Option ν) : List (κ × ν) :=
  match e.2 with
  | none => l
  | some v => add cmp e.1 v l

/-- The value under a key after one may have been added. -/
theorem find_addSome [TransCmp cmp] (k : κ) (l : List (κ × ν)) (e : κ × Option ν) :
    find cmp k (addSome cmp l e)
      = if cmp k e.1 = .eq then e.2.or (find cmp k l) else find cmp k l := by
  rw [addSome]
  split
  next hnone => rw [hnone, Option.none_or, ite_self]
  next v hsome => rw [find_add, hsome, Option.some_or]

/-- Nothing is found after the loop iff no value was there to be added under the key. -/
theorem find_foldl_addSome_eq_none_iff [TransCmp cmp] (k : κ) (entries : List (κ × Option ν)) :
    find cmp k (entries.foldl (addSome cmp) []) = none
      ↔ ∀ e ∈ entries, cmp k e.1 = .eq → e.2 = none := by
  induction entries using List.reverseRecOn with
  | nil => exact iff_of_true rfl (by simp)
  | append_singleton entries e ih =>
      rw [List.foldl_append, List.foldl_cons, List.foldl_nil, find_addSome, List.forall_mem_append,
        List.forall_mem_singleton, ← ih]
      by_cases heq : cmp k e.1 = .eq
      · rw [if_pos heq, Option.or_eq_none_iff, and_comm, imp_iff_right heq]
      · rw [if_neg heq]
        exact (and_iff_left fun h => absurd h heq).symm

/-- What is found after the loop was added. -/
theorem exists_mem_of_find_foldl_addSome [TransCmp cmp] {k : κ} {v : ν}
    {entries : List (κ × Option ν)} (h : find cmp k (entries.foldl (addSome cmp) []) = some v) :
    ∃ e ∈ entries, e.2 = some v := by
  induction entries using List.reverseRecOn with
  | nil => cases h
  | append_singleton entries e ih =>
      have hold (h : find cmp k (entries.foldl (addSome cmp) []) = some v) :
          ∃ e' ∈ entries ++ [e], e'.2 = some v := by
        obtain ⟨e', he', hsome⟩ := ih h
        exact ⟨e', List.mem_append_left _ he', hsome⟩
      rw [List.foldl_append, List.foldl_cons, List.foldl_nil, find_addSome] at h
      split_ifs at h
      · obtain hnew | ⟨-, h⟩ := Option.or_eq_some_iff.mp h
        · exact ⟨e, List.mem_append_right _ (List.mem_singleton_self e), hnew⟩
        · exact hold h
      · exact hold h

/-- Add a value to the sorted vector under a key. -/
def appendValue (keyCmp : κ → κ → Ordering) (cmp : α → α → Ordering) (k : κ) (v : α) :
    List (κ × List α) → List (κ × List α)
  | [] => [(k, [v])]
  | (k', vs) :: rest =>
      match keyCmp k k' with
      | .lt => (k, [v]) :: (k', vs) :: rest
      | .eq => (k', SortedVector.add cmp v vs) :: rest
      | .gt => (k', vs) :: appendValue keyCmp cmp k v rest

/-- The invariant of a loop of `appendValue`: the keys increase, and every vector is sorted and has
items with its key. -/
structure Grouped (keyCmp : κ → κ → Ordering) (cmp : α → α → Ordering) (key : α → κ)
    (P : α → Prop) (l : List (κ × List α)) : Prop where
  keys : l.Pairwise fun p q => keyCmp p.1 q.1 = .lt
  sorted : ∀ p ∈ l, SortedVector.Sorted cmp p.2
  key_eq : ∀ p ∈ l, ∀ v ∈ p.2, keyCmp (key v) p.1 = .eq
  holds : ∀ p ∈ l, ∀ v ∈ p.2, P v

variable {keyCmp : κ → κ → Ordering} {cmp : α → α → Ordering} {key : α → κ} {P : α → Prop}

/-- The keys after appending a value. -/
theorem mem_appendValue {k : κ} {v : α} {l : List (κ × List α)} {p : κ × List α}
    (h : p ∈ appendValue keyCmp cmp k v l) :
    p ∈ l ∨ p = (k, [v]) ∨ ∃ vs, (p.1, vs) ∈ l ∧ keyCmp k p.1 = .eq
      ∧ p.2 = SortedVector.add cmp v vs := by
  induction l with
  | nil => exact .inr (.inl (List.mem_singleton.mp h))
  | cons q rest ih =>
      obtain ⟨k', vs⟩ := q
      rw [appendValue] at h
      split at h
      · obtain rfl | h := List.mem_cons.mp h
        · exact .inr (.inl rfl)
        · exact .inl h
      next heq =>
        obtain rfl | h := List.mem_cons.mp h
        · exact .inr (.inr ⟨vs, List.mem_cons_self, heq, rfl⟩)
        · exact .inl (List.mem_cons_of_mem _ h)
      · obtain rfl | h := List.mem_cons.mp h
        · exact .inl List.mem_cons_self
        · obtain h | h | ⟨vs', hmem, heq, hadd⟩ := ih h
          · exact .inl (List.mem_cons_of_mem _ h)
          · exact .inr (.inl h)
          · exact .inr (.inr ⟨vs', List.mem_cons_of_mem _ hmem, heq, hadd⟩)

/-- Appending keeps the keys increasing. -/
theorem keys_appendValue [TransCmp keyCmp] (k : κ) (v : α) {l : List (κ × List α)}
    (h : l.Pairwise fun p q => keyCmp p.1 q.1 = .lt) :
    (appendValue keyCmp cmp k v l).Pairwise fun p q => keyCmp p.1 q.1 = .lt := by
  induction l with
  | nil => exact List.pairwise_singleton _ _
  | cons q rest ih =>
      obtain ⟨k', vs⟩ := q
      obtain ⟨hq, hrest⟩ := List.pairwise_cons.mp h
      rw [appendValue]
      split
      next hlt =>
        refine List.pairwise_cons.mpr ⟨?_, h⟩
        intro p hp
        obtain rfl | hp := List.mem_cons.mp hp
        · exact hlt
        · exact TransCmp.lt_trans hlt (hq p hp)
      · exact List.pairwise_cons.mpr ⟨hq, hrest⟩
      next hgt =>
        refine List.pairwise_cons.mpr ⟨?_, ih hrest⟩
        intro p hp
        obtain hp | rfl | ⟨vs', hmem, -, -⟩ := mem_appendValue hp
        · exact hq p hp
        · exact OrientedCmp.lt_of_gt hgt
        · exact hq (p.1, vs') hmem

/-- Appending a value under its key keeps the invariant. -/
theorem Grouped.appendValue [TransCmp keyCmp] [TransCmp cmp] {l : List (κ × List α)}
    (h : Grouped keyCmp cmp key P l) {v : α} (hv : P v) :
    Grouped keyCmp cmp key P (KeyedVector.appendValue keyCmp cmp (key v) v l) := by
  refine ⟨keys_appendValue _ v h.keys, ?_, ?_, ?_⟩
  · intro p hp
    obtain hp | rfl | ⟨vs, hmem, -, hadd⟩ := mem_appendValue hp
    · exact h.sorted p hp
    · exact List.pairwise_singleton _ v
    · rw [hadd]
      exact SortedVector.sorted_add v (h.sorted _ hmem)
  · intro p hp w hw
    obtain hp | rfl | ⟨vs, hmem, heq, hadd⟩ := mem_appendValue hp
    · exact h.key_eq p hp w hw
    · rw [List.mem_singleton.mp hw]
      exact ReflCmp.compare_self
    · rw [hadd] at hw
      obtain rfl | hw := SortedVector.mem_of_mem_add hw
      · exact heq
      · exact h.key_eq _ hmem w hw
  · intro p hp w hw
    obtain hp | rfl | ⟨vs, hmem, -, hadd⟩ := mem_appendValue hp
    · exact h.holds p hp w hw
    · rwa [List.mem_singleton.mp hw]
    · rw [hadd] at hw
      obtain rfl | hw := SortedVector.mem_of_mem_add hw
      · exact hv
      · exact h.holds _ hmem w hw

/-- An item is in one vector only. -/
theorem Grouped.eq_of_mem [TransCmp keyCmp] {l : List (κ × List α)}
    (h : Grouped keyCmp cmp key P l) {p q : κ × List α} (hp : p ∈ l) (hq : q ∈ l) {v w : α}
    (hv : v ∈ p.2) (hw : w ∈ q.2) (heq : keyCmp (key v) (key w) = .eq) : p = q := by
  have hkeys : keyCmp p.1 q.1 = .eq :=
    TransCmp.eq_trans (OrientedCmp.eq_symm (h.key_eq p hp v hv))
      (TransCmp.eq_trans heq (h.key_eq q hq w hw))
  have : TransCmp fun p q : κ × List α => keyCmp p.1 q.1 :=
    { eq_swap := OrientedCmp.eq_swap, isLE_trans := TransCmp.isLE_trans }
  exact SortedVector.eq_of_compare_eq h.keys hp hq hkeys

/-- Whether some vector has an item that compares equal, after appending a value. -/
theorem any_appendValue [TransCmp cmp] (u : α) (k : κ) (v : α) (l : List (κ × List α)) :
    (∃ p ∈ KeyedVector.appendValue keyCmp cmp k v l, SortedVector.contains cmp u p.2 = true)
      ↔ cmp u v = .eq ∨ ∃ p ∈ l, SortedVector.contains cmp u p.2 = true := by
  have hsingle : SortedVector.contains cmp u [v] = true ↔ cmp u v = .eq := by
    simp [SortedVector.contains]
  induction l with
  | nil => simp [KeyedVector.appendValue, hsingle]
  | cons q rest ih =>
      obtain ⟨k', vs⟩ := q
      rw [KeyedVector.appendValue]
      split
      · simp [hsingle]
      · simp only [List.mem_cons, exists_eq_or_imp, SortedVector.contains_add, or_assoc]
      · simp only [List.mem_cons, exists_eq_or_imp, ih]
        exact or_left_comm

/-- The loop that appends each value under its key. -/
def group (keyCmp : κ → κ → Ordering) (cmp : α → α → Ordering) (key : α → κ) (vs : List α) :
    List (κ × List α) :=
  vs.foldl (fun l v => KeyedVector.appendValue keyCmp cmp (key v) v l) []

/-- **An item has an equal in some vector iff it has one among the values.** -/
theorem any_group [TransCmp cmp] (u : α) (vs : List α) :
    (∃ p ∈ group keyCmp cmp key vs, SortedVector.contains cmp u p.2 = true)
      ↔ ∃ v ∈ vs, cmp u v = .eq := by
  induction vs using List.reverseRecOn with
  | nil => simp [group]
  | append_singleton vs v ih =>
      rw [group, List.foldl_append, List.foldl_cons, List.foldl_nil, any_appendValue, ← group, ih]
      simp only [List.mem_append, List.mem_singleton, or_and_right, exists_or, exists_eq_left]
      exact or_comm

/-- Vectors have items, all of them values. -/
theorem mem_of_mem_group {vs : List α} {p : κ × List α} (hp : p ∈ group keyCmp cmp key vs) :
    p.2 ≠ [] ∧ ∀ v ∈ p.2, v ∈ vs := by
  induction vs using List.reverseRecOn generalizing p with
  | nil => cases hp
  | append_singleton vs v ih =>
      rw [group, List.foldl_append, List.foldl_cons, List.foldl_nil, ← group] at hp
      obtain hp | rfl | ⟨old, hold, -, hadd⟩ := mem_appendValue hp
      · exact ⟨(ih hp).1, fun w hw => List.mem_append_left _ ((ih hp).2 w hw)⟩
      · exact ⟨List.cons_ne_nil _ _, fun w hw => List.mem_append_right _ hw⟩
      · rw [hadd]
        refine ⟨List.ne_nil_of_mem (SortedVector.mem_add_self v old), fun w hw => ?_⟩
        obtain rfl | hw := SortedVector.mem_of_mem_add hw
        · exact List.mem_append_right _ (List.mem_singleton_self w)
        · exact List.mem_append_left _ ((ih hold).2 w hw)

/-- At most one item of a list has a property that no two of them share. -/
theorem countP_le_one {β : Type} {Q : β → Bool} {l : List β}
    (h : l.Pairwise fun p q => Q p = true → Q q = false) : l.countP Q ≤ 1 := by
  induction l with
  | nil => exact Nat.zero_le _
  | cons p l ih =>
      obtain ⟨hp, hl⟩ := List.pairwise_cons.mp h
      rw [List.countP_cons]
      split
      next hQ =>
        have hnone : l.countP Q = 0 := List.countP_eq_zero.mpr fun q hq => by simp [hp q hq hQ]
        omega
      next => exact ih hl

/-- **The items that are equal to one are in one vector.** -/
theorem Grouped.countP_le_one [TransCmp keyCmp] [TransCmp cmp] {l : List (κ × List α)}
    (h : Grouped keyCmp cmp key P l)
    (hkey : ∀ v w, cmp v w = .eq → keyCmp (key v) (key w) = .eq) (u : α) :
    l.countP (fun p => SortedVector.contains cmp u p.2) ≤ 1 := by
  refine KeyedVector.countP_le_one (h.keys.imp_of_mem ?_)
  intro p q hp hq hlt hup
  by_contra huq
  obtain ⟨v, hv, huv⟩ := SortedVector.contains_eq_true_iff.mp hup
  obtain ⟨w, hw, huw⟩ := SortedVector.contains_eq_true_iff.mp (by simpa using huq)
  obtain rfl := h.eq_of_mem hp hq hv hw
    (hkey v w (TransCmp.eq_trans (OrientedCmp.eq_symm huv) huw))
  have hself : keyCmp p.1 p.1 = .eq := ReflCmp.compare_self
  rw [hself] at hlt
  cases hlt

end KeyedVector

/-! ## The best item -/

/-- The loop that keeps the best of the items that pass a test. -/
def selectBest (passes : α → Bool) (better : α → α → Bool) (l : List α) : Option α :=
  l.foldl (fun best x =>
    if !passes x then best
    else
      match best with
      | none => some x
      | some y => if better x y then some x else some y) none

section Score

variable {passes : α → Bool} {better : α → α → Bool} {score : α → ℕ}

/-- The best item after a longer list. -/
theorem selectBest_append_singleton (l : List α) (x : α) :
    selectBest passes better (l ++ [x])
      = if !passes x then selectBest passes better l
        else match selectBest passes better l with
          | none => some x
          | some y => if better x y then some x else some y := by
  rw [selectBest, List.foldl_append]
  rfl

/-- The best item is one of the items, and it passes. -/
theorem mem_of_selectBest {l : List α} {x : α} (h : selectBest passes better l = some x) :
    x ∈ l ∧ passes x = true := by
  induction l using List.reverseRecOn with
  | nil => cases h
  | append_singleton l y ih =>
      rw [selectBest_append_singleton] at h
      have hold (h : selectBest passes better l = some x) : x ∈ l ++ [y] ∧ passes x = true :=
        (ih h).imp_left (List.mem_append_left _)
      cases hpasses : passes y with
      | false =>
          rw [if_pos (by simp [hpasses])] at h
          exact hold h
      | true =>
          have hnew : y ∈ l ++ [y] ∧ passes y = true := ⟨by simp, hpasses⟩
          rw [if_neg (by simp [hpasses])] at h
          cases hbest : selectBest passes better l with
          | none =>
              simp only [hbest, Option.some.injEq] at h
              exact h ▸ hnew
          | some b =>
              simp only [hbest] at h
              split_ifs at h
              · exact Option.some.inj h ▸ hnew
              · exact hold (hbest.trans h)

/-- There is no best item iff no item passes. -/
theorem selectBest_eq_none_iff {l : List α} :
    selectBest passes better l = none ↔ ∀ x ∈ l, passes x = false := by
  induction l using List.reverseRecOn with
  | nil => simp [selectBest]
  | append_singleton l y ih =>
      rw [selectBest_append_singleton, List.forall_mem_append, List.forall_mem_singleton]
      cases hpasses : passes y with
      | false => simp [ih]
      | true =>
          rw [if_neg (by simp)]
          cases selectBest passes better l with
          | none => simp
          | some b =>
              dsimp only
              split_ifs <;> simp

end Score

end AndroidSdk.Lib
