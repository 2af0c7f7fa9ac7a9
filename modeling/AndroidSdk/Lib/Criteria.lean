import Mathlib.Order.Nat
import AndroidSdk.Lib.SortedVector

/-! # Cascades of criteria

A comparison that asks one criterion after another, where each decides by a key of the items or
leaves the decision to the next, is a lexicographic order. A criterion that only ever decides in
favour of its first argument can spoil this, and the results here say exactly when it does.

* **`compareKeys`**, **`decideKeys`** — the order of a list of keys, and the decision by it.
* **`OneSided`** — a cascade of an order, a one-sided criterion and another order.
* **`oneSided_strictOn_iff`** — when such a cascade is a strict order.
* **`selectBest_unbeaten`** — the loop that keeps the best item, under a strict order. -/

namespace AndroidSdk.Lib

open Std

variable {α : Type}

/-! ## Decisions by keys -/

/-- The lexicographic order of some keys. -/
def compareKeys : List (α → ℤ) → α → α → Ordering
  | [] => fun _ _ => .eq
  | key :: keys => compareLex (compareOn key) (compareKeys keys)

instance (keys : List (α → ℤ)) : TransCmp (compareKeys keys) := by
  induction keys with
  | nil => exact { eq_swap := rfl, isLE_trans := fun _ _ => rfl }
  | cons key keys ih =>
      unfold compareKeys
      infer_instance

/-- Items compare equal iff all keys are equal. -/
theorem compareKeys_eq_iff (keys : List (α → ℤ)) (a b : α) :
    compareKeys keys a b = .eq ↔ ∀ key ∈ keys, key a = key b := by
  induction keys with
  | nil => simp [compareKeys]
  | cons key keys ih =>
      rw [compareKeys, compareLex_eq_eq, ih, compareOn, LawfulEqCmp.compare_eq_iff_eq,
        List.forall_mem_cons]

/-- The decision for the first item: true if it is greater, false if it is less. -/
def decision : Ordering → Option Bool
  | .gt => some true
  | .lt => some false
  | .eq => none

/-- A criterion that prefers the item with the greater key. -/
def decideKey (key : α → ℤ) (a b : α) : Option Bool :=
  if key a = key b then none else some (key b < key a)

/-- The decision by some keys, the first that differs. -/
def decideKeys (keys : List (α → ℤ)) (a b : α) : Option Bool := decision (compareKeys keys a b)

/-- The first key decides, or the others do. -/
theorem decideKeys_cons (key : α → ℤ) (keys : List (α → ℤ)) (a b : α) :
    decideKeys (key :: keys) a b = (decideKey key a b).or (decideKeys keys a b) := by
  rw [decideKeys, compareKeys, compareLex, compareOn, decideKey]
  rcases Int.lt_trichotomy (key a) (key b) with hlt | heq | hgt
  · have hnot : ¬ key b < key a := by omega
    rw [compare_eq_lt.mpr hlt, if_neg (by omega)]
    simp [decision, hnot]
  · have hcmp : compare (key a) (key b) = .eq := LawfulEqCmp.compare_eq_iff_eq.mpr heq
    rw [hcmp, if_pos heq]
    rfl
  · rw [compare_eq_gt.mpr hgt, if_neg (by omega)]
    simp [decision, hgt]

/-- No keys decide nothing. -/
theorem decideKeys_nil (a b : α) : decideKeys [] a b = none := rfl

/-- Some keys decide, or the others do. -/
theorem decideKeys_append (keys keys' : List (α → ℤ)) (a b : α) :
    decideKeys (keys ++ keys') a b = (decideKeys keys a b).or (decideKeys keys' a b) := by
  induction keys with
  | nil => rfl
  | cons key keys ih => rw [List.cons_append, decideKeys_cons, decideKeys_cons, ih, Option.or_assoc]

/-- Keys that decide nothing are equal. -/
theorem decideKeys_eq_none_iff {keys : List (α → ℤ)} {a b : α} :
    decideKeys keys a b = none ↔ compareKeys keys a b = .eq := by
  rw [decideKeys]
  cases compareKeys keys a b <;> simp [decision]

/-- Keys that decide for the first item are greater. -/
theorem decideKeys_eq_true_iff {keys : List (α → ℤ)} {a b : α} :
    decideKeys keys a b = some true ↔ compareKeys keys a b = .gt := by
  rw [decideKeys]
  cases compareKeys keys a b <;> simp [decision]

/-! ## One-sided criteria -/

/-- The cascade of an order, a criterion that only decides in favour of its first argument, and
another order. -/
def OneSided (first : α → α → Ordering) (favours : α → α → Prop) (last : α → α → Ordering)
    (a b : α) : Prop :=
  first a b = .gt ∨ (first a b = .eq ∧ (favours a b ∨ last a b = .gt))

/-- A relation is asymmetric and transitive on a set. -/
def StrictOn (S : α → Prop) (r : α → α → Prop) : Prop :=
  (∀ a b, S a → S b → r a b → ¬ r b a)
    ∧ ∀ a b c, S a → S b → S c → r a b → r b c → r a c

/-- Relations that agree on a set are strict on it together. -/
theorem strictOn_congr {S : α → Prop} {r r' : α → α → Prop}
    (h : ∀ a b, S a → S b → (r a b ↔ r' a b)) : StrictOn S r ↔ StrictOn S r' := by
  constructor
  · rintro ⟨hasymm, htrans⟩
    refine ⟨fun a b ha hb hab hba => ?_, fun a b c ha hb hc hab hbc => ?_⟩
    · exact hasymm a b ha hb ((h a b ha hb).mpr hab) ((h b a hb ha).mpr hba)
    · exact (h a c ha hc).mp (htrans a b c ha hb hc ((h a b ha hb).mpr hab) ((h b c hb hc).mpr hbc))
  · rintro ⟨hasymm, htrans⟩
    refine ⟨fun a b ha hb hab hba => ?_, fun a b c ha hb hc hab hbc => ?_⟩
    · exact hasymm a b ha hb ((h a b ha hb).mp hab) ((h b a hb ha).mp hba)
    · exact (h a c ha hc).mpr (htrans a b c ha hb hc ((h a b ha hb).mp hab) ((h b c hb hc).mp hbc))

/-- The criterion does not contradict itself or the order after it, and is transitive where that
order has nothing to say. -/
def Consistent (S : α → Prop) (first : α → α → Ordering) (favours : α → α → Prop)
    (last : α → α → Ordering) : Prop :=
  (∀ a b, S a → S b → first a b = .eq → favours a b → ¬ favours b a ∧ last a b ≠ .lt)
    ∧ ∀ a b c, S a → S b → S c → first a b = .eq → first b c = .eq → last a b = .eq →
      last b c = .eq → favours a b → favours b c → favours a c

variable {S : α → Prop} {first last : α → α → Ordering} {favours : α → α → Prop}

/-- A consistent criterion is asymmetric in the cascade. -/
theorem Consistent.asymm [TransCmp first] [TransCmp last] (h : Consistent S first favours last)
    {a b : α} (ha : S a) (hb : S b) (hab : OneSided first favours last a b) :
    ¬ OneSided first favours last b a := by
  rintro (hba | ⟨hba, hba'⟩)
  · rcases hab with hab | ⟨hab, -⟩
    · rw [OrientedCmp.gt_iff_lt.mp hba] at hab
      cases hab
    · rw [OrientedCmp.gt_iff_lt.mp hba] at hab
      cases hab
  · have heq : first a b = .eq := OrientedCmp.eq_symm hba
    rcases hab with hab | ⟨-, hab⟩
    · rw [heq] at hab
      cases hab
    · rcases hab with hab | hab
      · obtain ⟨hnot, hlast⟩ := h.1 a b ha hb heq hab
        rcases hba' with hba' | hba'
        · exact hnot hba'
        · exact hlast (OrientedCmp.gt_iff_lt.mp hba')
      · rcases hba' with hba' | hba'
        · exact (h.1 b a hb ha hba hba').2 (OrientedCmp.gt_iff_lt.mp hab)
        · rw [OrientedCmp.gt_iff_lt.mp hba'] at hab
          cases hab

/-- What a consistent cascade says when the first order is silent: the last order agrees. -/
theorem Consistent.not_lt [TransCmp first] (h : Consistent S first favours last) {a b : α}
    (ha : S a) (hb : S b) (heq : first a b = .eq) (hab : OneSided first favours last a b) :
    last a b = .gt ∨ (last a b = .eq ∧ favours a b) := by
  rcases hab with hab | ⟨-, hab | hab⟩
  · rw [heq] at hab
    cases hab
  · have hlast := (h.1 a b ha hb heq hab).2
    cases hcmp : last a b with
    | lt => exact absurd hcmp hlast
    | eq => exact .inr ⟨rfl, hab⟩
    | gt => exact .inl rfl
  · exact .inl hab

/-- A consistent criterion is transitive in the cascade. -/
theorem Consistent.trans [TransCmp first] [TransCmp last] (h : Consistent S first favours last)
    {a b c : α} (ha : S a) (hb : S b) (hc : S c) (hab : OneSided first favours last a b)
    (hbc : OneSided first favours last b c) : OneSided first favours last a c := by
  have hge : ∀ {x y : α}, OneSided first favours last x y → first x y = .gt ∨ first x y = .eq :=
    fun hxy => hxy.imp_right And.left
  rcases hge hab with hab₁ | hab₁
  · left
    rcases hge hbc with hbc₁ | hbc₁
    · exact TransCmp.gt_trans hab₁ hbc₁
    · exact TransCmp.gt_of_gt_of_eq hab₁ hbc₁
  · rcases hge hbc with hbc₁ | hbc₁
    · exact .inl (TransCmp.gt_of_eq_of_gt hab₁ hbc₁)
    · refine .inr ⟨TransCmp.eq_trans hab₁ hbc₁, ?_⟩
      -- the first order is silent, so the last one is not against either step
      rcases h.not_lt ha hb hab₁ hab with hab₂ | ⟨hab₂, hab₃⟩
      · rcases h.not_lt hb hc hbc₁ hbc with hbc₂ | ⟨hbc₂, -⟩
        · exact .inr (TransCmp.gt_trans hab₂ hbc₂)
        · exact .inr (TransCmp.gt_of_gt_of_eq hab₂ hbc₂)
      · rcases h.not_lt hb hc hbc₁ hbc with hbc₂ | ⟨hbc₂, hbc₃⟩
        · exact .inr (TransCmp.gt_of_eq_of_gt hab₂ hbc₂)
        · exact .inl (h.2 a b c ha hb hc hab₁ hbc₁ hab₂ hbc₂ hab₃ hbc₃)

/-- **When a cascade with a one-sided criterion is a strict order**: iff the criterion contradicts
neither itself nor the order after it, and is transitive where that order is silent. -/
theorem oneSided_strictOn_iff [TransCmp first] [TransCmp last] :
    StrictOn S (OneSided first favours last) ↔ Consistent S first favours last := by
  constructor
  · rintro ⟨hasymm, htrans⟩
    refine ⟨?_, ?_⟩
    · intro a b ha hb heq hab
      have hbetter : OneSided first favours last a b := .inr ⟨heq, .inl hab⟩
      have hnot := hasymm a b ha hb hbetter
      have hswap : first b a = .eq := OrientedCmp.eq_symm heq
      refine ⟨fun hba => hnot (.inr ⟨hswap, .inl hba⟩), fun hlt => hnot (.inr ⟨hswap, .inr ?_⟩)⟩
      exact OrientedCmp.gt_of_lt hlt
    · intro a b c ha hb hc hab₁ hbc₁ hab₂ hbc₂ hab hbc
      have hac := htrans a b c ha hb hc (.inr ⟨hab₁, .inl hab⟩) (.inr ⟨hbc₁, .inl hbc⟩)
      rcases hac with hac | ⟨-, hac | hac⟩
      · rw [TransCmp.eq_trans hab₁ hbc₁] at hac
        cases hac
      · exact hac
      · rw [TransCmp.eq_trans hab₂ hbc₂] at hac
        cases hac
  · intro h
    exact ⟨fun a b ha hb => h.asymm ha hb, fun a b c ha hb hc => h.trans ha hb hc⟩

/-! ## The best item under a strict order -/

/-- **The loop keeps an item that no other beats**, whatever the order of the items, if being better
is a strict order on those that pass. -/
theorem selectBest_unbeaten {passes : α → Bool} {better : α → α → Bool} {l : List α}
    (h : StrictOn (fun x => x ∈ l ∧ passes x = true) fun x y => better x y = true) {x : α}
    (hbest : selectBest passes better l = some x) {y : α} (hy : y ∈ l) (hpy : passes y = true) :
    better y x = false := by
  induction l using List.reverseRecOn generalizing x y with
  | nil => cases hy
  | append_singleton l z ih =>
      have hsub : StrictOn (fun x => x ∈ l ∧ passes x = true) fun x y => better x y = true :=
        ⟨fun a b ha hb => h.1 a b ⟨List.mem_append_left _ ha.1, ha.2⟩
            ⟨List.mem_append_left _ hb.1, hb.2⟩,
          fun a b c ha hb hc => h.2 a b c ⟨List.mem_append_left _ ha.1, ha.2⟩
            ⟨List.mem_append_left _ hb.1, hb.2⟩ ⟨List.mem_append_left _ hc.1, hc.2⟩⟩
      have hirrefl : ∀ a, a ∈ l ++ [z] ∧ passes a = true → better a a = false := by
        intro a ha
        by_contra hne
        have htrue : better a a = true := by simpa using hne
        exact h.1 a a ha ha htrue htrue
      rw [selectBest_append_singleton] at hbest
      cases hpz : passes z with
      | false =>
          rw [if_pos (by simp [hpz])] at hbest
          rcases List.mem_append.mp hy with hy | hy
          · exact ih hsub hbest hy hpy
          · rw [List.mem_singleton.mp hy, hpz] at hpy
            cases hpy
      | true =>
          have hz : z ∈ l ++ [z] ∧ passes z = true := ⟨by simp, hpz⟩
          rw [if_neg (by simp [hpz])] at hbest
          cases hold : selectBest passes better l with
          | none =>
              obtain rfl : z = x := by simpa [hold] using hbest
              rcases List.mem_append.mp hy with hy | hy
              · rw [selectBest_eq_none_iff.mp hold y hy] at hpy
                cases hpy
              · rw [List.mem_singleton.mp hy]
                exact hirrefl z hz
          | some b =>
              obtain ⟨hb, hpb⟩ := mem_of_selectBest hold
              have hb' : b ∈ l ++ [z] ∧ passes b = true := ⟨List.mem_append_left _ hb, hpb⟩
              simp only [hold] at hbest
              split_ifs at hbest with hzb
              · -- the new item replaces the best one; what beat it would beat the old one too
                obtain rfl : z = x := Option.some.inj hbest
                rcases List.mem_append.mp hy with hy | hy
                · by_contra hne
                  have hyz : better y z = true := by simpa using hne
                  have hyb : better y b = true :=
                    h.2 y z b ⟨List.mem_append_left _ hy, hpy⟩ hz hb' hyz hzb
                  rw [ih hsub hold hy hpy] at hyb
                  cases hyb
                · rw [List.mem_singleton.mp hy]
                  exact hirrefl z hz
              · obtain rfl : b = x := Option.some.inj hbest
                rcases List.mem_append.mp hy with hy | hy
                · exact ih hsub hold hy hpy
                · rw [List.mem_singleton.mp hy]
                  simpa using hzb

end AndroidSdk.Lib
