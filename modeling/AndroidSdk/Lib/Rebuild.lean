import AndroidSdk.Lib.BinarySearch

/-! # Vectors that are built again

Loops that build a sorted vector from the items of another one, carry a state and may fail: each new
item is put under its key, or in front of those with its key.

* **`mapAccumO`**, **`exists_mapAccumO_iff`** — the loop that builds the items in their order, and
  when it succeeds with items that are related to the old ones.
* **`foldlM_onFoundOrCreated`** — the loop that looks up the key of each item, or creates one, is
  that loop if the keys increase.
* **`insertLower`**, **`foldlM_insertLower`** — the loop that inserts at the lower bound.
* **`strictlySortedBy_of_foldl_insertLower`** — it keeps the order only if no key is there twice. -/

namespace AndroidSdk.Lib

open Std

variable {σ α β γ κ τ : Type}

/-! ## Items in their order -/

/-- Build an item from each item of a list, carry a state, and stop at a failure. -/
def mapAccumO (f : σ → α → Option (σ × β)) (s : σ) : List α → Option (σ × List β)
  | [] => some (s, [])
  | a :: l => (f s a).bind fun r => (mapAccumO f r.1 l).map fun rest => (rest.1, r.2 :: rest.2)

/-- **When the loop succeeds with related items**: each turn does, in any state. -/
theorem exists_mapAccumO_iff {f : σ → α → Option (σ × β)} {R : β → α → Prop} {C : α → Prop}
    {l : List α} (h : ∀ a ∈ l, ∀ s, (∃ s' b, f s a = some (s', b) ∧ R b a) ↔ C a) (s : σ) :
    (∃ s' l', mapAccumO f s l = some (s', l') ∧ List.Forall₂ R l' l) ↔ ∀ a ∈ l, C a := by
  induction l generalizing s with
  | nil => simp [mapAccumO]
  | cons a l ih =>
      have hrest := fun s => ih (fun b hb => h b (List.mem_cons_of_mem a hb)) s
      rw [List.forall_mem_cons]
      constructor
      · rintro ⟨s', l', heq, hall⟩
        obtain ⟨⟨t, b⟩, hb, heq⟩ := Option.bind_eq_some_iff.mp heq
        obtain ⟨⟨u, m⟩, hm, heq⟩ := Option.map_eq_some_iff.mp heq
        cases heq
        obtain ⟨hhead, htail⟩ := List.forall₂_cons.mp hall
        exact ⟨(h a List.mem_cons_self s).mp ⟨t, b, hb, hhead⟩, (hrest t).mp ⟨u, m, hm, htail⟩⟩
      · rintro ⟨ha, hl⟩
        obtain ⟨t, b, hb, hhead⟩ := (h a List.mem_cons_self s).mpr ha
        obtain ⟨u, m, hm, htail⟩ := (hrest t).mpr hl
        exact ⟨u, b :: m, by rw [mapAccumO, hb, Option.bind_some, hm]; rfl, .cons hhead htail⟩

/-- What holds of every turn that succeeds. -/
theorem forall₂_of_mapAccumO {f : σ → α → Option (σ × β)} {R : β → α → Prop} {l : List α}
    (h : ∀ s a s' b, f s a = some (s', b) → R b a) {s s' : σ} {l' : List β}
    (heq : mapAccumO f s l = some (s', l')) : List.Forall₂ R l' l := by
  induction l generalizing s l' with
  | nil =>
      cases heq
      exact .nil
  | cons a l ih =>
      obtain ⟨⟨t, b⟩, hb, heq⟩ := Option.bind_eq_some_iff.mp heq
      obtain ⟨⟨u, m⟩, hm, heq⟩ := Option.map_eq_some_iff.mp heq
      cases heq
      exact .cons (h s a t b hb) (ih hm)

/-- A loop that changes a part of a record is a loop over that part. -/
theorem foldlM_part {ρ π : Type} (get : ρ → π) (set : ρ → π → ρ) (hget : ∀ x y, get (set x y) = y)
    (hset : ∀ x y z, set (set x y) z = set x z) (hself : ∀ x, set x (get x) = x)
    (step : σ × π → γ → Option (σ × π)) (l : List γ) (s : σ) (x : ρ) :
    l.foldlM (fun s c => (step (s.1, get s.2) c).map fun r => (r.1, set s.2 r.2)) (s, x)
      = (l.foldlM step (s, get x)).map fun r => (r.1, set x r.2) := by
  induction l generalizing s x with
  | nil => simp [hself]
  | cons c l ih =>
      rw [List.foldlM_cons, List.foldlM_cons]
      cases step (s, get x) c with
      | none => rfl
      | some r =>
          rw [Option.map_some, Option.bind_eq_bind, Option.bind_some, ih, hget]
          simp only [hset]
          rfl

/-! ## Items under their keys -/

section Keys

variable {cmp : κ → κ → Ordering} {key : α → κ}

/-- What is done under a key behind all others is done with a new item at the end. -/
theorem onFoundOrCreated_eq_append {l : List α} {k : κ} {new : α} {action : α → Option (β × α)}
    (hl : ∀ a ∈ l, cmp (key a) k = .lt) :
    onFoundOrCreated cmp key k new action l
      = (action new).map fun r => (r.1, l ++ [r.2]) := by
  have hfind := findOrCreate_append hl (fun a ha => nomatch ha : ∀ a ∈ [], cmp (key a) k ≠ .lt) new
  rw [List.append_nil] at hfind
  have hat : (l ++ [new])[l.length]? = some new := by simp
  rw [onFoundOrCreated, hfind]
  simp only [List.head?_nil, Option.any_none, Bool.false_eq_true, if_false, hat, Option.bind_some]
  congr 1
  funext r
  rw [set_append_length]

/-- **A loop over increasing keys** puts a new item at the end in each turn. -/
theorem foldlM_onFoundOrCreated [TransCmp cmp] {k : γ → κ} {new : γ → α}
    {action : σ → γ → α → Option (σ × α)}
    (haction : ∀ s c s' a, action s c (new c) = some (s', a) → cmp (key a) (k c) = .eq)
    {l : List γ} (hl : StrictlySortedBy cmp k l) (s : σ) {acc : List α}
    (hacc : ∀ a ∈ acc, ∀ c ∈ l, cmp (key a) (k c) = .lt) :
    l.foldlM (fun s c => onFoundOrCreated cmp key (k c) (new c) (action s.1 c) s.2) (s, acc)
      = (mapAccumO (fun s c => action s c (new c)) s l).map fun r => (r.1, acc ++ r.2) := by
  induction l generalizing s acc with
  | nil => simp [mapAccumO]
  | cons c l ih =>
      obtain ⟨hc, hrest⟩ := List.pairwise_cons.mp hl
      rw [List.foldlM_cons, onFoundOrCreated_eq_append fun a ha => hacc a ha c List.mem_cons_self,
        mapAccumO]
      cases hturn : action s c (new c) with
      | none => rfl
      | some r =>
          obtain ⟨s', a⟩ := r
          -- the new item is before all later ones as well
          have hacc' : ∀ b ∈ acc ++ [a], ∀ d ∈ l, cmp (key b) (k d) = .lt := by
            intro b hb d hd
            rcases List.mem_append.mp hb with hb | hb
            · exact hacc b hb d (List.mem_cons_of_mem c hd)
            · obtain rfl := List.mem_singleton.mp hb
              exact TransCmp.lt_of_eq_of_lt (haction s c s' b hturn) (hc d hd)
          rw [Option.map_some, Option.bind_eq_bind, Option.bind_some, ih hrest s' hacc',
            Option.bind_some]
          cases mapAccumO (fun s c => action s c (new c)) s' l with
          | none => rfl
          | some rest => simp

/-- Such a loop that starts with an empty vector. -/
theorem foldlM_onFoundOrCreated_nil [TransCmp cmp] {k : γ → κ} {new : γ → α}
    {action : σ → γ → α → Option (σ × α)}
    (haction : ∀ s c s' a, action s c (new c) = some (s', a) → cmp (key a) (k c) = .eq)
    {l : List γ} (hl : StrictlySortedBy cmp k l) (s : σ) :
    l.foldlM (fun s c => onFoundOrCreated cmp key (k c) (new c) (action s.1 c) s.2) (s, [])
      = mapAccumO (fun s c => action s c (new c)) s l := by
  have hnil : ∀ a ∈ ([] : List α), ∀ c ∈ l, cmp (key a) (k c) = .lt := fun a ha => nomatch ha
  rw [foldlM_onFoundOrCreated haction hl s hnil]
  simp

/-- **A loop of updates keeps a vector strictly sorted**, if they keep the keys. -/
theorem StrictlySortedBy.foldlM_onFoundOrCreated [TransCmp cmp] {k : γ → κ} {new : γ → α}
    {action : σ → γ → α → Option (σ × α)} (hnew : ∀ c, cmp (key (new c)) (k c) = .eq)
    (haction : ∀ s c x s' x', action s c x = some (s', x') → key x' = key x) {l : List γ}
    {s s' : σ} {acc acc' : List α} (hacc : StrictlySortedBy cmp key acc)
    (h : l.foldlM (fun s c => Lib.onFoundOrCreated cmp key (k c) (new c) (action s.1 c) s.2)
      (s, acc) = some (s', acc')) : StrictlySortedBy cmp key acc' := by
  induction l generalizing s acc with
  | nil =>
      cases h
      exact hacc
  | cons c l ih =>
      rw [List.foldlM_cons] at h
      obtain ⟨⟨t, acc₁⟩, hturn, h⟩ := Option.bind_eq_some_iff.mp h
      refine ih (hacc.onFoundOrCreated (P := fun _ => True) (fun _ _ => trivial) ?_ hturn).1 h
      intro x x' hx hx'
      rw [haction s c x t x' hx']
      rcases hx with ⟨-, hkey⟩ | rfl
      · exact ⟨hkey, trivial⟩
      · exact ⟨hnew c, trivial⟩

/-! ## Items in front of those with their keys -/

variable (cmp key) in
/-- Insert an item at the lower bound of its key. -/
def insertLower (x : α) (l : List α) : List α :=
  l.insertIdx (lowerBound (fun y => cmp (key y) (key x) == .lt) l) x

/-- The two sides of an item that is inserted into a sorted vector. -/
theorem exists_split_insertLower [TransCmp cmp] {l : List α} (h : SortedBy cmp key l) (x : α) :
    ∃ pre post, l = pre ++ post ∧ insertLower cmp key x l = pre ++ x :: post
      ∧ (∀ y ∈ pre, cmp (key y) (key x) = .lt) ∧ ∀ y ∈ post, cmp (key y) (key x) ≠ .lt := by
  obtain ⟨pre, post, rfl, hbound, hpre, hpost⟩ := exists_split_lowerBound h (key x)
  exact ⟨pre, post, rfl, by rw [insertLower, hbound, insertIdx_append_length], hpre, hpost⟩

/-- An item that is inserted keeps the order. -/
theorem SortedBy.insertLower [TransCmp cmp] {l : List α} (h : SortedBy cmp key l) (x : α) :
    SortedBy cmp key (insertLower cmp key x l) := by
  obtain ⟨pre, post, rfl, heq, hpre, hpost⟩ := exists_split_insertLower h x
  obtain ⟨hleft, hright, hcross⟩ := List.pairwise_append.mp h
  rw [heq]
  refine List.pairwise_append.mpr ⟨hleft, List.pairwise_cons.mpr ⟨fun y hy => ?_, hright⟩, ?_⟩
  · have hswap : cmp (key x) (key y) = (cmp (key y) (key x)).swap := OrientedCmp.eq_swap
    rw [hswap, Ordering.isLE_swap]
    exact Ordering.isGE_iff_ne_lt.mpr (hpost y hy)
  · intro y hy z hz
    rcases List.mem_cons.mp hz with rfl | hz
    · rw [hpre y hy]
      rfl
    · exact hcross y hy z hz

/-- **The loop that inserts at the lower bound** inserts what the loop in order builds. -/
theorem foldlM_insertLower (f : σ → γ → Option (σ × α)) (l : List γ) (s : σ) (acc : List α) :
    l.foldlM (fun s c => (f s.1 c).map fun r => (r.1, insertLower cmp key r.2 s.2)) (s, acc)
      = (mapAccumO f s l).map fun r =>
        (r.1, r.2.foldl (fun acc a => insertLower cmp key a acc) acc) := by
  induction l generalizing s acc with
  | nil => rfl
  | cons c l ih =>
      rw [List.foldlM_cons, mapAccumO]
      cases f s c with
      | none => rfl
      | some r =>
          rw [Option.map_some, Option.bind_eq_bind, Option.bind_some, ih, Option.bind_some,
            Option.map_map]
          rfl

/-- What the insertions make of a vector: it is sorted, and has the same items. -/
theorem foldl_insertLower_spec [TransCmp cmp] (l : List α) :
    SortedBy cmp key (l.foldl (fun acc a => insertLower cmp key a acc) [])
      ∧ (l.foldl (fun acc a => insertLower cmp key a acc) []).Perm l := by
  induction l using List.reverseRecOn with
  | nil => exact ⟨List.Pairwise.nil, .nil⟩
  | append_singleton l x ih =>
      rw [List.foldl_append]
      refine ⟨ih.1.insertLower x, ?_⟩
      obtain ⟨pre, post, heq, hinsert, -, -⟩ := exists_split_insertLower ih.1 x
      rw [List.foldl_cons, List.foldl_nil, hinsert]
      have hperm : (pre ++ post).Perm l := heq ▸ ih.2
      exact (List.perm_middle.trans (hperm.cons x)).trans (List.perm_append_singleton x l).symm

/-- Items whose keys increase are inserted at the end. -/
theorem StrictlySortedBy.foldl_insertLower [TransCmp cmp] {l : List α}
    (h : StrictlySortedBy cmp key l) :
    l.foldl (fun acc a => Lib.insertLower cmp key a acc) [] = l := by
  induction l using List.reverseRecOn with
  | nil => rfl
  | append_singleton l x ih =>
      obtain ⟨hl, -, hlast⟩ := List.pairwise_append.mp h
      rw [List.foldl_append, ih hl, List.foldl_cons, List.foldl_nil, Lib.insertLower]
      have hbound : lowerBound (fun y => cmp (key y) (key x) == .lt) (l ++ []) = l.length :=
        lowerBound_append (fun y hy => by simpa using hlast y hy x List.mem_cons_self)
          (fun y hy => nomatch hy)
      rw [List.append_nil] at hbound
      rw [hbound]
      simp

/-- Vectors with the same keys are sorted alike. -/
theorem SortedBy.of_map_eq {key' : γ → κ} {l : List α} {m : List γ} (h : SortedBy cmp key' m)
    (heq : l.map key = m.map key') : SortedBy cmp key l := by
  have hkeys : (m.map key').Pairwise fun x y => (cmp x y).isLE := List.pairwise_map.mpr h
  exact List.pairwise_map.mp (heq ▸ hkeys)

/-- Vectors with the same keys are strictly sorted alike. -/
theorem StrictlySortedBy.of_map_eq {key' : γ → κ} {l : List α} {m : List γ}
    (h : StrictlySortedBy cmp key' m) (heq : l.map key = m.map key') :
    StrictlySortedBy cmp key l := by
  have hkeys : (m.map key').Pairwise fun x y => cmp x y = .lt := List.pairwise_map.mpr h
  exact List.pairwise_map.mp (heq ▸ hkeys)

/-- **Insertion at the lower bound keeps the order of a sorted vector only if no key is there
twice**: items with one key come out in reverse. -/
theorem strictlySortedBy_of_foldl_insertLower [TransCmp cmp] (tag : α → τ) {l : List α}
    (hsorted : SortedBy cmp key l) (hnodup : (l.map tag).Nodup)
    (h : (l.foldl (fun acc a => insertLower cmp key a acc) []).map tag = l.map tag) :
    StrictlySortedBy cmp key l := by
  induction l using List.reverseRecOn with
  | nil => exact List.Pairwise.nil
  | append_singleton l x ih =>
      obtain ⟨hl, -, hlast⟩ := List.pairwise_append.mp hsorted
      rw [List.map_append, List.nodup_append] at hnodup
      have hspec : SortedBy cmp key (l.foldl (fun acc a => insertLower cmp key a acc) [])
          ∧ (l.foldl (fun acc a => insertLower cmp key a acc) []).Perm l :=
        foldl_insertLower_spec l
      obtain ⟨hspec, hperm⟩ := hspec
      rw [List.foldl_append, List.foldl_cons, List.foldl_nil] at h
      obtain ⟨pre, post, heq, hinsert, hpre, -⟩ := exists_split_insertLower hspec x
      rw [hinsert] at h
      -- what stands behind the item would have to be the item
      have hpost : post = [] := by
        rcases List.eq_nil_or_concat post with hnil | ⟨front, b, hfront⟩
        · exact hnil
        · rw [hfront, List.concat_eq_append, ← List.cons_append, ← List.append_assoc,
            List.map_append] at h
          have htag := (List.append_inj' (h.trans List.map_append) rfl).2
          have hb : b ∈ l := hperm.mem_iff.mp (heq ▸ by simp [hfront])
          exact absurd (List.singleton_inj.mp htag) (hnodup.2.2 (tag b) (List.mem_map_of_mem hb)
            (tag x) (List.mem_map_of_mem List.mem_cons_self))
      subst hpost
      rw [List.append_nil] at heq
      rw [List.map_append, List.map_append] at h
      have htags : (l.foldl (fun acc a => insertLower cmp key a acc) []).map tag = l.map tag := by
        rw [heq]
        exact List.append_cancel_right h
      refine List.pairwise_append.mpr ⟨ih hl hnodup.1 htags, List.pairwise_singleton _ x, ?_⟩
      intro y hy z hz
      obtain rfl := List.mem_singleton.mp hz
      exact hpre y (heq ▸ hperm.mem_iff.mpr hy)

end Keys

end AndroidSdk.Lib
