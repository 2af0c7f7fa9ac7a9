import Mathlib.Data.List.Basic
import Mathlib.Data.List.Nodup
import Mathlib.Logic.Function.Basic

/-! # Doubly linked chains on a heap

Nodes on a heap that point to their neighbours on both sides. A chain is seen as the list of its
addresses with what the nodes carry; a part of it only depends on its own nodes, and on the
addresses just outside.

* **`modify`** — writing to a node, which must be there.
* **`Segment`** — a part of a chain between two outer addresses.
* **`segment_append`** — a segment cut in two; `Segment.congr` is the frame rule.
* **`Segment.unlink`**, **`Segment.snoc`** — the writes that take a node out and that add one behind
  the last. -/

namespace AndroidSdk.Lib

universe u

/-- A node: what it carries, and the addresses of its neighbours. -/
structure Node (α : Type u) where
  payload : α
  parent : Option ℕ
  child : Option ℕ

/-- Nodes by their addresses. -/
abbrev NodeHeap (α : Type u) := ℕ → Option (Node α)

variable {α : Type u}

/-! ## Writing -/

/-- Write to the node at an address. -/
def modify (heap : NodeHeap α) (a : ℕ) (f : Node α → Node α) : Option (NodeHeap α) :=
  (heap a).map fun n => Function.update heap a (some (f n))

/-- Write to the node at an address, if there is an address. -/
def modifyAt (heap : NodeHeap α) (a : Option ℕ) (f : Node α → Node α) : Option (NodeHeap α) :=
  match a with
  | none => some heap
  | some a => modify heap a f

/-- Writing to a node that is there. -/
theorem modify_eq {heap : NodeHeap α} {a : ℕ} {n : Node α} (h : heap a = some n)
    (f : Node α → Node α) : modify heap a f = some (Function.update heap a (some (f n))) := by
  rw [modify, h, Option.map_some]

/-! ## Segments -/

/-- The address of the first node. -/
def firstAddress (l : List (ℕ × α)) : Option ℕ := l.head?.map Prod.fst

/-- The address of the last node. -/
def lastAddress (l : List (ℕ × α)) : Option ℕ := l.getLast?.map Prod.fst

@[simp]
theorem firstAddress_nil : firstAddress ([] : List (ℕ × α)) = none := rfl

@[simp]
theorem firstAddress_cons (p : ℕ × α) (l : List (ℕ × α)) : firstAddress (p :: l) = some p.1 := rfl

@[simp]
theorem lastAddress_nil : lastAddress ([] : List (ℕ × α)) = none := rfl

@[simp]
theorem lastAddress_append_singleton (l : List (ℕ × α)) (p : ℕ × α) :
    lastAddress (l ++ [p]) = some p.1 := by
  simp [lastAddress]

/-- Nodes that are linked one after the other, between the address before the first one and that
behind the last one. -/
def Segment (heap : NodeHeap α) : Option ℕ → List (ℕ × α) → Option ℕ → Prop
  | _, [], _ => True
  | before, p :: l, after =>
      heap p.1 = some ⟨p.2, before, (firstAddress l).or after⟩ ∧ Segment heap (some p.1) l after

section

variable {heap heap' : NodeHeap α} {before after : Option ℕ} {l m : List (ℕ × α)} {p : ℕ × α}

@[simp]
theorem segment_cons : Segment heap before (p :: l) after
    ↔ heap p.1 = some ⟨p.2, before, (firstAddress l).or after⟩ ∧ Segment heap (some p.1) l after :=
  Iff.rfl

/-- **A segment in two parts.** -/
theorem segment_append : Segment heap before (l ++ m) after
    ↔ Segment heap before l ((firstAddress m).or after)
      ∧ Segment heap ((lastAddress l).or before) m after := by
  induction l generalizing before with
  | nil => simp [Segment]
  | cons p l ih =>
      have hfirst : (firstAddress (l ++ m)).or after
          = (firstAddress l).or ((firstAddress m).or after) := by
        cases l <;> simp
      have hlast : (lastAddress (p :: l)).or before = (lastAddress l).or (some p.1) := by
        rcases List.eq_nil_or_concat l with rfl | ⟨l, q, rfl⟩
        · rfl
        · rw [List.concat_eq_append, ← List.cons_append, lastAddress_append_singleton,
            lastAddress_append_singleton]
          rfl
      rw [List.cons_append, segment_cons, segment_cons, ih, hfirst, hlast, and_assoc]

/-- **The frame rule**: a segment depends on its own nodes. -/
theorem Segment.congr (h : Segment heap before l after)
    (hagree : ∀ a ∈ l.map Prod.fst, heap' a = heap a) : Segment heap' before l after := by
  induction l generalizing before with
  | nil => trivial
  | cons p l ih =>
      rw [List.map_cons, List.forall_mem_cons] at hagree
      exact ⟨(hagree.1).trans h.1, ih h.2 hagree.2⟩

/-- A write outside a segment. -/
theorem Segment.update (h : Segment heap before l after) {a : ℕ} (ha : a ∉ l.map Prod.fst)
    (n : Option (Node α)) : Segment (Function.update heap a n) before l after :=
  h.congr fun b hb => Function.update_of_ne (fun hba : b = a => ha (hba ▸ hb)) n heap

/-- The node at an address of a segment carries what the segment says. -/
theorem Segment.exists_of_mem (h : Segment heap before l after) (hp : p ∈ l) :
    ∃ n, heap p.1 = some n ∧ n.payload = p.2 := by
  induction l generalizing before with
  | nil => exact absurd hp List.not_mem_nil
  | cons q l ih =>
      rcases List.mem_cons.mp hp with rfl | hp
      · exact ⟨_, h.1, rfl⟩
      · exact ih h.2 hp

/-- **Another address before the first node**, if there is one. -/
theorem Segment.setParent (h : Segment heap before l after) (hnodup : (l.map Prod.fst).Nodup)
    (before' : Option ℕ) :
    ∃ heap', modifyAt heap (firstAddress l) (fun n => { n with parent := before' }) = some heap'
      ∧ Segment heap' before' l after ∧ ∀ a ∉ l.map Prod.fst, heap' a = heap a := by
  cases l with
  | nil => exact ⟨heap, rfl, trivial, fun _ _ => rfl⟩
  | cons p l =>
      rw [List.map_cons, List.nodup_cons] at hnodup
      refine ⟨_, modify_eq h.1 _, ⟨Function.update_self _ _ _, h.2.update hnodup.1 _⟩,
        fun a ha => ?_⟩
      exact Function.update_of_ne (fun hap : a = p.1 => ha (by simp [hap])) _ _

/-- **Another address behind the last node**, if there is one. -/
theorem Segment.setChild (h : Segment heap before l after) (hnodup : (l.map Prod.fst).Nodup)
    (after' : Option ℕ) :
    ∃ heap', modifyAt heap (lastAddress l) (fun n => { n with child := after' }) = some heap'
      ∧ Segment heap' before l after' ∧ ∀ a ∉ l.map Prod.fst, heap' a = heap a := by
  rcases List.eq_nil_or_concat l with rfl | ⟨l, p, rfl⟩
  · exact ⟨heap, rfl, trivial, fun _ _ => rfl⟩
  · rw [List.concat_eq_append] at h hnodup ⊢
    obtain ⟨hl, hp⟩ := segment_append.mp h
    have hnot : p.1 ∉ l.map Prod.fst := by
      rw [List.map_append, List.nodup_append] at hnodup
      exact fun hmem => hnodup.2.2 _ hmem p.1 (by simp) rfl
    rw [lastAddress_append_singleton]
    refine ⟨_, modify_eq hp.1 _, segment_append.mpr ⟨?_, ?_, trivial⟩, fun a ha => ?_⟩
    · exact hl.update hnot _
    · exact Function.update_self _ _ _
    · exact Function.update_of_ne (fun hap : a = p.1 => ha (by simp [hap])) _ _

/-! ## Taking a node out, and adding one -/

/-- **Taking a node out**: its neighbours are linked to each other, and it to nothing. -/
theorem Segment.unlink (h : Segment heap none (l ++ p :: m) none)
    (hnodup : ((l ++ p :: m).map Prod.fst).Nodup) :
    ∃ h₁ h₂ h₃,
      modifyAt heap (lastAddress l) (fun n => { n with child := firstAddress m }) = some h₁
      ∧ modifyAt h₁ (firstAddress m) (fun n => { n with parent := lastAddress l }) = some h₂
      ∧ modify h₂ p.1 (fun n => { n with parent := none, child := none }) = some h₃
      ∧ Segment h₃ none (l ++ m) none ∧ h₃ p.1 = some ⟨p.2, none, none⟩ := by
  obtain ⟨hl, hp, hm⟩ := segment_append.mp h
  simp only [Option.or_none] at hp
  rw [List.map_append, List.map_cons, List.nodup_append, List.nodup_cons] at hnodup
  obtain ⟨hnl, ⟨hpm, hnm⟩, hdisjoint⟩ := hnodup
  have hpl : p.1 ∉ l.map Prod.fst := fun hmem => hdisjoint _ hmem _ List.mem_cons_self rfl
  have hlm : ∀ a ∈ m.map Prod.fst, a ∉ l.map Prod.fst := fun a ha hmem =>
    hdisjoint _ hmem _ (List.mem_cons_of_mem _ ha) rfl
  obtain ⟨h₁, hmodify₁, hl₁, hframe₁⟩ := hl.setChild hnl (firstAddress m)
  have hm₁ : Segment h₁ (some p.1) m none := hm.congr fun a ha => hframe₁ a (hlm a ha)
  obtain ⟨h₂, hmodify₂, hm₂, hframe₂⟩ := hm₁.setParent hnm (lastAddress l)
  have hl₂ : Segment h₂ none l (firstAddress m) := hl₁.congr fun a ha =>
    hframe₂ a fun hmem => hlm a hmem ha
  have hp₂ : h₂ p.1 = some ⟨p.2, lastAddress l, firstAddress m⟩ :=
    (hframe₂ _ hpm).trans ((hframe₁ _ hpl).trans hp)
  refine ⟨h₁, h₂, _, hmodify₁, hmodify₂, modify_eq hp₂ _, segment_append.mpr ⟨?_, ?_⟩, ?_⟩
  · rw [Option.or_none]
    exact hl₂.update hpl _
  · rw [Option.or_none]
    exact hm₂.update hpm _
  · exact Function.update_self _ _ _

/-- **Adding a node behind the last one.** -/
theorem Segment.snoc (h : Segment heap none l none) (hnodup : (l.map Prod.fst).Nodup) {a : ℕ}
    {x : α} (ha : heap a = some ⟨x, none, none⟩) (hnot : a ∉ l.map Prod.fst) :
    ∃ h₁ h₂, modify heap a (fun n => { n with parent := lastAddress l }) = some h₁
      ∧ modifyAt h₁ (lastAddress l) (fun n => { n with child := some a }) = some h₂
      ∧ Segment h₂ none (l ++ [(a, x)]) none := by
  have hl₁ := h.update hnot (some ⟨x, lastAddress l, none⟩)
  obtain ⟨h₂, hmodify₂, hl₂, hframe₂⟩ := hl₁.setChild hnodup (some a)
  refine ⟨_, h₂, modify_eq ha _, hmodify₂, segment_append.mpr ⟨hl₂, ?_, trivial⟩⟩
  rw [hframe₂ a hnot, Function.update_self]
  simp

/-- Writing does not make or remove a node. -/
theorem isSome_of_modify {a : ℕ} {f : Node α → Node α} (h : modify heap a f = some heap') (b : ℕ) :
    (heap' b).isSome = (heap b).isSome := by
  obtain ⟨n, hn, rfl⟩ := Option.map_eq_some_iff.mp h
  by_cases hba : b = a
  · rw [hba, Function.update_self, hn]
    rfl
  · rw [Function.update_of_ne hba]

/-- Writing to a node, if an address is given, does not make or remove one. -/
theorem isSome_of_modifyAt {a : Option ℕ} {f : Node α → Node α}
    (h : modifyAt heap a f = some heap') (b : ℕ) : (heap' b).isSome = (heap b).isSome := by
  cases a with
  | none =>
      cases h
      rfl
  | some a => exact isSome_of_modify h b

end

end AndroidSdk.Lib
