import AndroidSdk.Lib.Criteria

/-! # Selection from a list in another order

The loop that keeps the best item depends on the order of the items, on the items that lose, and on
the comparison. The results here say which changes it does not notice.

* **`selectStep`** — one step of the loop `selectBest`.
* **`foldl_eq_of_inversions`** — a loop over a list in another order, if the steps of each pair that
  changed places commute.
* **`foldl_filter_of_absorbed`** — a loop without items that the next item makes up for.
* **`Ahead`** — an item that wins against all that another wins against.
* **`selectBest_map`** — the loop only compares an item with one before it.
* **`selectBest_append_cons`**, **`better_of_selectBest`** — the item that is kept wins against
  those before it, and is not beaten by those behind it. -/

namespace AndroidSdk.Lib

variable {α β : Type}

/-! ## Another order -/

section Loops

variable {f : β → α → β} {P : β → Prop} (hP : ∀ s x, P s → P (f s x))

include hP in
/-- A step that commutes with each of some items can be done before them. -/
theorem foldl_comm {x : α} (l : List α) (h : ∀ y ∈ l, ∀ s, P s → f (f s y) x = f (f s x) y) {s : β}
    (hs : P s) : f (l.foldl f s) x = l.foldl f (f s x) := by
  induction l generalizing s with
  | nil => rfl
  | cons y l ih =>
      rw [List.foldl_cons, List.foldl_cons, ih (fun z hz => h z (List.mem_cons_of_mem _ hz))
        (hP s y hs), h y List.mem_cons_self s hs]

include hP in
/-- **A loop does not notice another order**, if the steps of items that changed places commute. -/
theorem foldl_eq_of_inversions {r r' : α → α → Prop} {l l' : List α} (hperm : l'.Perm l)
    (hl : l.Pairwise r) (hl' : l'.Pairwise r')
    (hcomm : ∀ x ∈ l, ∀ y ∈ l, r x y → r' y x → ∀ s, P s → f (f s y) x = f (f s x) y) {s : β}
    (hs : P s) : l'.foldl f s = l.foldl f s := by
  induction l generalizing l' s with
  | nil => rw [List.perm_nil.mp hperm]
  | cons x l ih =>
      -- move the first item of the one list to the front of the other
      obtain ⟨u, v, rfl⟩ := List.append_of_mem (hperm.mem_iff.mpr List.mem_cons_self)
      have hrest : (u ++ v).Perm l := (List.perm_middle.symm.trans hperm).cons_inv
      obtain ⟨hx, hl⟩ := List.pairwise_cons.mp hl
      obtain ⟨hu, hxv, huv⟩ := List.pairwise_append.mp hl'
      have hmove : ∀ y ∈ u, ∀ s, P s → f (f s y) x = f (f s x) y := by
        intro y hy
        have hyl : y ∈ l := hrest.mem_iff.mp (List.mem_append_left _ hy)
        exact hcomm x List.mem_cons_self y (List.mem_cons_of_mem _ hyl) (hx y hyl)
          (huv y hy x List.mem_cons_self)
      have hsorted : (u ++ v).Pairwise r' :=
        hl'.sublist (List.Sublist.append_left (List.sublist_cons_self x v) u)
      rw [List.foldl_append, List.foldl_cons, List.foldl_cons, foldl_comm hP u hmove hs,
        ← List.foldl_append]
      exact ih hrest hl hsorted
        (fun y hy z hz => hcomm y (List.mem_cons_of_mem _ hy) z (List.mem_cons_of_mem _ hz))
        (hP s x hs)

include hP in
/-- **A loop does not notice items that the next one absorbs.** -/
theorem foldl_filter_of_absorbed {keep : α → Bool} {l : List α}
    (h : ∀ c rest, c :: rest <:+ l → keep c = false →
      ∃ k rest', rest = k :: rest' ∧ ∀ s, P s → f (f s c) k = f s k) {s : β} (hs : P s) :
    (l.filter keep).foldl f s = l.foldl f s := by
  induction l generalizing s with
  | nil => rfl
  | cons c l ih =>
      have ih' := fun {s} => @ih (fun x rest hx => h x rest (hx.trans (List.suffix_cons c l))) s
      cases hkeep : keep c with
      | true =>
          rw [List.filter_cons_of_pos hkeep, List.foldl_cons, List.foldl_cons]
          exact ih' (hP s c hs)
      | false =>
          rw [List.filter_cons_of_neg (by simp [hkeep]), List.foldl_cons, ih' hs]
          obtain ⟨k, rest, rfl, habsorb⟩ := h c l (List.suffix_refl _) hkeep
          rw [List.foldl_cons, List.foldl_cons, habsorb s hs]

end Loops

/-! ## The loop that keeps the best item -/

/-- One step of the loop. -/
def selectStep (passes : α → Bool) (better : α → α → Bool) (best : Option α) (x : α) : Option α :=
  if !passes x then best
  else
    match best with
    | none => some x
    | some y => if better x y then some x else some y

/-- The loop, as a fold of its steps. -/
theorem selectBest_eq_foldl (passes : α → Bool) (better : α → α → Bool) (l : List α) :
    selectBest passes better l = l.foldl (selectStep passes better) none := rfl

section Ahead

variable {passes : α → Bool} {better : α → α → Bool} {x y : α}

/-- An item is ahead of another: it wins against the other, and against all that the other wins
against. -/
def Ahead (passes : α → Bool) (better : α → α → Bool) (y x : α) : Prop :=
  better y x = true ∧ ∀ b, passes b = true → better x b = true → better y b = true

/-- An item that does not pass is skipped. -/
theorem selectStep_of_not_passes (hx : passes x = false) (s : Option α) :
    selectStep passes better s x = s := by
  simp [selectStep, hx]

/-- The step on an item that passes, as a decision on the best item so far. -/
theorem selectStep_of_passes (hx : passes x = true) (s : Option α) :
    selectStep passes better s x = if ∀ b ∈ s, better x b = true then some x else s := by
  cases s with
  | none => simp [selectStep, hx]
  | some b => simp [selectStep, hx]

/-- States that the loop reaches: nothing, or an item that passes. -/
def Passing (passes : α → Bool) (s : Option α) : Prop := ∀ b ∈ s, passes b = true

/-- A step keeps this. -/
theorem Passing.selectStep {s : Option α} (hs : Passing passes s) (x : α) :
    Passing passes (selectStep passes better s x) := by
  cases hx : passes x with
  | false =>
      rw [selectStep_of_not_passes hx]
      exact hs
  | true =>
      rw [selectStep_of_passes hx]
      split_ifs
      · intro b hb
        cases hb
        exact hx
      · exact hs

/-- An item before one that is ahead of it is not noticed. -/
theorem Ahead.selectStep_absorb (h : Ahead passes better y x) (hxy : passes x = passes y)
    {s : Option α} (hs : Passing passes s) :
    selectStep passes better (selectStep passes better s x) y = selectStep passes better s y := by
  cases hx : passes x with
  | false => rw [selectStep_of_not_passes hx]
  | true =>
      have hy : passes y = true := hxy ▸ hx
      rw [selectStep_of_passes hx]
      split_ifs with hwins
      · have hwins' : ∀ b ∈ s, better y b = true := fun b hb => h.2 b (hs b hb) (hwins b hb)
        rw [selectStep_of_passes hy, selectStep_of_passes hy, if_pos hwins', if_pos]
        intro b hb
        cases hb
        exact h.1
      · rfl

/-- An item behind one that is ahead of it is not noticed either. -/
theorem Ahead.selectStep_skip (h : Ahead passes better y x) (hnot : better x y = false)
    (hx : passes x = true) (hy : passes y = true) {s : Option α} (hs : Passing passes s) :
    selectStep passes better (selectStep passes better s y) x = selectStep passes better s y := by
  rw [selectStep_of_passes hy]
  split_ifs with hwins
  · rw [selectStep_of_passes hx, if_neg]
    intro hall
    rw [hall y rfl] at hnot
    cases hnot
  · rw [selectStep_of_passes hx, if_neg]
    exact fun hall => hwins fun b hb => h.2 b (hs b hb) (hall b hb)

/-- The steps of two items commute if one of them is ahead. -/
theorem Ahead.selectStep_comm (h : Ahead passes better y x) (hnot : better x y = false)
    {s : Option α} (hs : Passing passes s) :
    selectStep passes better (selectStep passes better s y) x
      = selectStep passes better (selectStep passes better s x) y := by
  cases hx : passes x with
  | false => rw [selectStep_of_not_passes hx, selectStep_of_not_passes hx]
  | true =>
      cases hy : passes y with
      | false => rw [selectStep_of_not_passes hy, selectStep_of_not_passes hy]
      | true => rw [h.selectStep_skip hnot hx hy hs, h.selectStep_absorb (hx.trans hy.symm) hs]

end Ahead

/-- **The loop only compares an item with one before it**: a comparison that agrees on these selects
the same item. -/
theorem selectBest_map {passes : α → Bool} {better : α → α → Bool} {passes' : β → Bool}
    {better' : β → β → Bool} {f : α → β} {l : List α}
    (hpasses : ∀ x ∈ l, passes' (f x) = passes x)
    (hbetter : l.Pairwise fun x y =>
      passes x = true → passes y = true → better' (f y) (f x) = better y x) :
    selectBest passes' better' (l.map f) = (selectBest passes better l).map f := by
  induction l using List.reverseRecOn with
  | nil => rfl
  | append_singleton l y ih =>
      obtain ⟨hl, -, hy⟩ := List.pairwise_append.mp hbetter
      rw [List.map_append, List.map_singleton, selectBest_append_singleton,
        selectBest_append_singleton, ih (fun x hx => hpasses x (List.mem_append_left _ hx)) hl,
        hpasses y (by simp)]
      cases hpy : passes y with
      | false => simp
      | true =>
          cases hbest : selectBest passes better l with
          | none => simp
          | some x =>
              obtain ⟨hx, hpx⟩ := mem_of_selectBest hbest
              have hagree := hy x hx y List.mem_cons_self hpx hpy
              simp only [Option.map_some, hagree, Bool.not_true, Bool.false_eq_true, if_false]
              split_ifs <;> rfl

/-- The same items with another comparison. -/
theorem selectBest_congr {passes : α → Bool} {better better' : α → α → Bool} {l : List α}
    (h : l.Pairwise fun x y => passes x = true → passes y = true → better' y x = better y x) :
    selectBest passes better' l = selectBest passes better l := by
  have hmap : selectBest passes better' (l.map id) = (selectBest passes better l).map id :=
    selectBest_map (fun _ _ => rfl) h
  rwa [List.map_id, Option.map_id] at hmap

/-! ## The item that is kept -/

section Kept

variable {passes : α → Bool} {better : α → α → Bool} {x : α} {p q : List α}

/-- An item is kept that wins against all before it, and that none behind it beats. -/
theorem selectBest_append_cons (hx : passes x = true)
    (hahead : ∀ y ∈ p, passes y = true → better x y = true)
    (hbehind : ∀ y ∈ q, passes y = true → better y x = false) :
    selectBest passes better (p ++ x :: q) = some x := by
  induction q using List.reverseRecOn with
  | nil =>
      rw [selectBest_append_singleton, if_neg (by simp [hx])]
      cases hbest : selectBest passes better p with
      | none => rfl
      | some y =>
          obtain ⟨hy, hpy⟩ := mem_of_selectBest hbest
          exact if_pos (hahead y hy hpy)
  | append_singleton q z ih =>
      rw [← List.cons_append, ← List.append_assoc, selectBest_append_singleton,
        ih fun y hy => hbehind y (List.mem_append_left _ hy)]
      cases hpz : passes z with
      | false => rfl
      | true => simp [hbehind z (by simp) hpz]

/-- An item that is kept is kept at once, and none behind it beats it. -/
theorem selectBest_earlier (hx : x ∉ q) (h : selectBest passes better (p ++ x :: q) = some x) :
    selectBest passes better (p ++ [x]) = some x
      ∧ ∀ y ∈ q, passes y = true → better y x = false := by
  induction q using List.reverseRecOn with
  | nil => exact ⟨h, fun y hy => by cases hy⟩
  | append_singleton q z ih =>
      obtain ⟨hxq, hxz⟩ : x ∉ q ∧ x ≠ z := by simpa using hx
      rw [← List.cons_append, ← List.append_assoc, selectBest_append_singleton] at h
      cases hpz : passes z with
      | false =>
          rw [if_pos (by simp [hpz])] at h
          refine (ih hxq h).imp_right fun hbehind y hy hpy => ?_
          rcases List.mem_append.mp hy with hy | hy
          · exact hbehind y hy hpy
          · rw [List.mem_singleton.mp hy, hpz] at hpy
            cases hpy
      | true =>
          rw [if_neg (by simp [hpz])] at h
          cases hbest : selectBest passes better (p ++ x :: q) with
          | none =>
              rw [hbest] at h
              exact absurd (Option.some.inj h).symm hxz
          | some y =>
              simp only [hbest] at h
              split_ifs at h with hzy
              · exact absurd (Option.some.inj h).symm hxz
              · obtain rfl := Option.some.inj h
                refine (ih hxq hbest).imp_right fun hbehind w hw hpw => ?_
                rcases List.mem_append.mp hw with hw | hw
                · exact hbehind w hw hpw
                · rw [List.mem_singleton.mp hw]
                  simpa using hzy

/-- **Under an order by keys, the item that is kept wins against all before it.** -/
theorem better_of_selectBest {keys : List (β → ℤ)} {f : α → β}
    (hbetter : ∀ a ∈ p ++ [x], ∀ b ∈ p ++ [x], passes a = true → passes b = true →
      (better a b = true ↔ compareKeys keys (f a) (f b) = .gt))
    (hp : x ∉ p) (h : selectBest passes better (p ++ [x]) = some x) {y : α} (hy : y ∈ p)
    (hpy : passes y = true) : better x y = true := by
  have hpx := (mem_of_selectBest h).2
  have hstrict : StrictOn (fun a => a ∈ p ∧ passes a = true) fun a b => better a b = true := by
    refine ⟨fun a b ha hb hab hba => ?_, fun a b c ha hb hc hab hbc => ?_⟩
    · replace hab := (hbetter a (by simp [ha.1]) b (by simp [hb.1]) ha.2 hb.2).mp hab
      replace hba := (hbetter b (by simp [hb.1]) a (by simp [ha.1]) hb.2 ha.2).mp hba
      rw [Std.OrientedCmp.lt_of_gt hab] at hba
      cases hba
    · replace hab := (hbetter a (by simp [ha.1]) b (by simp [hb.1]) ha.2 hb.2).mp hab
      replace hbc := (hbetter b (by simp [hb.1]) c (by simp [hc.1]) hb.2 hc.2).mp hbc
      exact (hbetter a (by simp [ha.1]) c (by simp [hc.1]) ha.2 hc.2).mpr
        (Std.TransCmp.gt_trans hab hbc)
  rw [selectBest_append_singleton, if_neg (by simp [hpx])] at h
  cases hbest : selectBest passes better p with
  | none =>
      rw [selectBest_eq_none_iff.mp hbest y hy] at hpy
      cases hpy
  | some b =>
      obtain ⟨hb, hpb⟩ := mem_of_selectBest hbest
      simp only [hbest] at h
      split_ifs at h with hxb
      · -- what does not beat the best of those before is not better than it
        have hyb := selectBest_unbeaten hstrict hbest hy hpy
        rw [hbetter x (by simp) b (by simp [hb]) hpx hpb] at hxb
        rw [← Bool.not_eq_true, hbetter y (by simp [hy]) b (by simp [hb]) hpy hpb] at hyb
        rw [hbetter x (by simp) y (by simp [hy]) hpx hpy]
        by_contra hxy
        have hswap : compareKeys keys (f y) (f x) = (compareKeys keys (f x) (f y)).swap :=
          Std.OrientedCmp.eq_swap
        have hyx : (compareKeys keys (f y) (f x)).isGE = true := by
          rw [hswap]
          cases hcmp : compareKeys keys (f x) (f y) <;> simp_all
        exact hyb (Std.TransCmp.gt_of_isGE_of_gt hyx hxb)
      · exact absurd (Option.some.inj h ▸ hb) hp

end Kept

end AndroidSdk.Lib
