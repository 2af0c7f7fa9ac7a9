import AndroidSdk.Lib.BinarySearch

/-! # First come, first served

Each item has a place. Items come in turn, and an item is added if its place is free; otherwise what
is there stays, and the item is dropped.

* **`AddsIfFree`** — what the insertion of one item does.
* **`FirstCome`** — what a container holds after all of them: at each place, the first that came.
* **`AddsIfFree.flatMap`** — an insertion into one of several containers that are found by a part of
  the place.
* **`FirstCome.perm`** — items with places of their own are all kept. -/

namespace AndroidSdk.Lib

open Std

variable {α β κ ρ : Type}

/-! ## One item -/

/-- The insertion of an item: nothing happens if its place is taken. -/
def AddsIfFree (place : β → ρ) (x : β) (l l' : List β) : Prop :=
  (l'.Perm l ∧ ∃ y ∈ l, place y = place x) ∨ (l'.Perm (x :: l) ∧ ∀ y ∈ l, place y ≠ place x)

variable {place : β → ρ} {x : β}

/-- The order of the items does not matter. -/
theorem AddsIfFree.congr {l₁ l₂ l₁' l₂' : List β} (h : AddsIfFree place x l₁ l₁')
    (hl : l₁.Perm l₂) (hl' : l₁'.Perm l₂') : AddsIfFree place x l₂ l₂' := by
  rcases h with ⟨hperm, y, hy, hplace⟩ | ⟨hperm, hfree⟩
  · exact .inl ⟨hl'.symm.trans (hperm.trans hl), y, hl.mem_iff.mp hy, hplace⟩
  · exact .inr ⟨hl'.symm.trans (hperm.trans (hl.cons x)), fun y hy => hfree y (hl.mem_iff.mpr hy)⟩

/-- An insertion seen through a map that keeps places apart. -/
theorem AddsIfFree.map {key : α → κ} {a : α} {l l' : List α} {f : α → β}
    (h : AddsIfFree key a l l') (hf : ∀ b ∈ l, place (f b) = place (f a) ↔ key b = key a) :
    AddsIfFree place (f a) (l.map f) (l'.map f) := by
  rcases h with ⟨hperm, b, hb, hkey⟩ | ⟨hperm, hfree⟩
  · exact .inl ⟨hperm.map f, f b, List.mem_map_of_mem hb, (hf b hb).mpr hkey⟩
  · refine .inr ⟨hperm.map f, fun y hy => ?_⟩
    obtain ⟨b, hb, rfl⟩ := List.mem_map.mp hy
    exact fun hplace => hfree b hb ((hf b hb).mp hplace)

section Sorted

variable {cmp : κ → κ → Ordering} {key : α → κ} {k : κ} {l : List α} {new : α}

/-- The update of a strictly sorted vector: no other item has the key. -/
theorem exists_only_updateFoundOrCreated_eq [TransCmp cmp] (h : StrictlySortedBy cmp key l)
    (k : κ) (new : α) (f : α → α) :
    ∃ pre a post, updateFoundOrCreated cmp key k new f l = pre ++ f a :: post
      ∧ (l = pre ++ a :: post ∧ cmp (key a) k = .eq ∨ l = pre ++ post ∧ a = new)
      ∧ ∀ b ∈ pre ++ post, cmp (key b) k ≠ .eq := by
  obtain ⟨pre, a, post, hupdate, hl, hpre⟩ := exists_updateFoundOrCreated_eq h.sortedBy k new f
  refine ⟨pre, a, post, hupdate, hl.imp_right fun hl => ⟨hl.1, hl.2.1⟩, fun b hb heq => ?_⟩
  rcases List.mem_append.mp hb with hb | hb
  · rw [hpre b hb] at heq
    cases heq
  · rcases hl with ⟨rfl, ha⟩ | ⟨-, -, hpost⟩
    · -- what is behind the item has a greater key
      have hlt := (List.pairwise_cons.mp (List.pairwise_append.mp h).2.1).1 b hb
      rw [TransCmp.congr_left ha, OrientedCmp.eq_symm heq] at hlt
      cases hlt
    · rw [hpost b hb] at heq
      cases heq

/-- **An insertion into a sorted vector**, by what it is sorted by. -/
theorem addsIfFree_updateFoundOrCreated [TransCmp cmp] (h : StrictlySortedBy cmp key l)
    (hcmp : ∀ a ∈ l, cmp (key a) (key new) = .eq ↔ key a = key new) :
    AddsIfFree key new l
      (updateFoundOrCreated cmp key (key new) new (fun found => found) l) := by
  obtain ⟨pre, a, post, hupdate, hl, hother⟩ :=
    exists_only_updateFoundOrCreated_eq h (key new) new fun found => found
  rw [hupdate]
  rcases hl with ⟨rfl, ha⟩ | ⟨rfl, rfl⟩
  · exact .inl ⟨.refl _, a, by simp, (hcmp a (by simp)).mp ha⟩
  · exact .inr ⟨List.perm_middle, fun b hb heq => hother b hb ((hcmp b hb).mpr heq)⟩

/-- **An insertion into one of several containers**, which is found by its key, or created. -/
theorem AddsIfFree.flatMap [TransCmp cmp] {g : α → List β} {f : α → α}
    (h : StrictlySortedBy cmp key l) (hnew : g new = [])
    (howner : ∀ a ∈ l, ∀ y ∈ g a, place y = place x → cmp (key a) k = .eq)
    (hf : ∀ a, (a ∈ l ∧ cmp (key a) k = .eq ∨ a = new) → AddsIfFree place x (g a) (g (f a))) :
    AddsIfFree place x (l.flatMap g) ((updateFoundOrCreated cmp key k new f l).flatMap g) := by
  obtain ⟨pre, a, post, hupdate, hl, hother⟩ := exists_only_updateFoundOrCreated_eq h k new f
  have hadds : AddsIfFree place x (g a) (g (f a)) := by
    apply hf
    rcases hl with ⟨rfl, ha⟩ | ⟨-, rfl⟩
    · exact .inl ⟨by simp, ha⟩
    · exact .inr rfl
  -- the items of this container come first
  have hold : (l.flatMap g).Perm (g a ++ (pre ++ post).flatMap g) := by
    rw [List.flatMap_append]
    rcases hl with ⟨rfl, -⟩ | ⟨rfl, rfl⟩
    · rw [List.flatMap_append, List.flatMap_cons]
      exact List.perm_append_comm_assoc _ _ _
    · rw [hnew, List.nil_append, List.flatMap_append]
  have hresult : ((updateFoundOrCreated cmp key k new f l).flatMap g).Perm
      (g (f a) ++ (pre ++ post).flatMap g) := by
    rw [hupdate, List.flatMap_append, List.flatMap_cons, List.flatMap_append]
    exact List.perm_append_comm_assoc _ _ _
  have hmem : ∀ b ∈ pre ++ post, b ∈ l := by
    intro b hb
    rcases hl with ⟨rfl, -⟩ | ⟨rfl, -⟩
    · rcases List.mem_append.mp hb with hb | hb <;> simp [hb]
    · exact hb
  have hrest : ∀ y ∈ (pre ++ post).flatMap g, place y ≠ place x := by
    intro y hy hplace
    obtain ⟨b, hb, hyb⟩ := List.mem_flatMap.mp hy
    exact hother b hb (howner b (hmem b hb) y hyb hplace)
  refine AddsIfFree.congr ?_ hold.symm hresult.symm
  rcases hadds with ⟨hperm, y, hy, hplace⟩ | ⟨hperm, hfree⟩
  · exact .inl ⟨hperm.append_right _, y, List.mem_append_left _ hy, hplace⟩
  · refine .inr ⟨hperm.append_right _, fun y hy => ?_⟩
    rcases List.mem_append.mp hy with hy | hy
    · exact hfree y hy
    · exact hrest y hy

end Sorted

/-! ## Many items -/

variable [DecidableEq ρ]

/-- What is held after some items have come: at each place the first of them. -/
def FirstCome (place : β → ρ) (came held : List β) : Prop :=
  ∀ k, held.filter (fun y => place y = k) = (came.find? fun y => place y = k).toList

variable {came held : List β}

/-- The order of what is held does not matter. -/
theorem FirstCome.congr {held' : List β} (h : FirstCome place came held) (hperm : held.Perm held') :
    FirstCome place came held' := by
  intro k
  have hfilter := hperm.filter fun y => place y = k
  rw [h k] at hfilter
  cases hfind : came.find? fun y => place y = k with
  | none =>
      rw [hfind] at hfilter
      exact List.nil_perm.mp hfilter
  | some y =>
      rw [hfind] at hfilter
      exact (List.singleton_perm.mp hfilter).symm

/-- A place is taken if an item has come for it. -/
theorem FirstCome.exists_iff (h : FirstCome place came held) (k : ρ) :
    (∃ y ∈ held, place y = k) ↔ ∃ y ∈ came, place y = k := by
  have hheld : (∃ y ∈ held, place y = k) ↔ held.filter (fun y => place y = k) ≠ [] := by
    simp [List.filter_eq_nil_iff]
  have hcame : (∃ y ∈ came, place y = k) ↔ (came.find? fun y => place y = k) ≠ none := by
    simp [List.find?_eq_none]
  rw [hheld, hcame, h k]
  cases came.find? fun y => place y = k <;> simp

/-- **One more item comes.** -/
theorem FirstCome.add {held' : List β} (h : FirstCome place came held)
    (hadds : AddsIfFree place x held held') : FirstCome place (came ++ [x]) held' := by
  rcases hadds with ⟨hperm, htaken⟩ | ⟨hperm, hfree⟩
  · -- the item is not the first for its place
    have hsame : ∀ k, (came ++ [x]).find? (fun y => place y = k)
        = came.find? fun y => place y = k := by
      intro k
      rw [List.find?_append]
      by_cases hk : place x = k
      · obtain ⟨y, hy, hplace⟩ := (h.exists_iff (place x)).mp htaken
        have hsome : (came.find? fun y => place y = k).isSome :=
          List.find?_isSome.mpr ⟨y, hy, by simpa using hplace.trans hk⟩
        rw [Option.or_of_isSome hsome]
      · simp [hk]
    refine FirstCome.congr (fun k => ?_) hperm.symm
    rw [hsame]
    exact h k
  · refine FirstCome.congr (fun k => ?_) hperm.symm
    rw [List.find?_append]
    by_cases hk : place x = k
    · have hnone : held.filter (fun y => place y = k) = [] :=
        List.filter_eq_nil_iff.mpr fun y hy => by simpa [← hk] using hfree y hy
      have hcame := h k
      rw [hnone] at hcame
      rw [List.filter_cons_of_pos (by simpa using hk), hnone,
        Option.toList_eq_nil_iff.mp hcame.symm]
      simp [hk]
    · rw [List.filter_cons_of_neg (by simpa using hk), h k]
      simp [hk]

/-- What comes with places of its own is held as it comes. -/
theorem firstCome_self (h : (came.map place).Nodup) : FirstCome place came came := by
  intro k
  induction came with
  | nil => rfl
  | cons c came ih =>
      obtain ⟨hc, hrest⟩ := List.nodup_cons.mp h
      by_cases hk : place c = k
      · have hnone : came.filter (fun y => place y = k) = [] := by
          refine List.filter_eq_nil_iff.mpr fun y hy heq => hc ?_
          rw [hk, ← of_decide_eq_true heq]
          exact List.mem_map_of_mem hy
        rw [List.filter_cons_of_pos (by simpa using hk), hnone,
          List.find?_cons_of_pos (by simpa using hk)]
        rfl
      · rw [List.filter_cons_of_neg (by simpa using hk), List.find?_cons_of_neg (by simpa using hk)]
        exact ih hrest

/-- **Nobody is turned away** where everyone has a place of their own. -/
theorem FirstCome.perm (h : FirstCome place came held) (hplaces : (came.map place).Nodup) :
    held.Perm came := by
  classical
  rw [List.perm_iff_count]
  intro y
  have hcount : ∀ l : List β, l.count y = (l.filter fun z => place z = place y).count y :=
    fun l => (List.count_filter (by simp)).symm
  rw [hcount, hcount came, h, firstCome_self hplaces]

end AndroidSdk.Lib
