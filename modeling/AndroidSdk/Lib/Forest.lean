import Mathlib.Data.List.Basic
import Mathlib.Order.Nat

/-! # Trees as marked sequences

Sequences of trees, whose elements have a kind and content, and the sequences of leaves, beginnings
and ends of elements that they are written as.

* **`Forest`**, **`Mark`**, **`Forest.marks`** — the trees and how they are written.
* **`spine`** — what has been written while some elements are still open.
* **`Forest.ranges`** — the elements in the order of their beginnings, with their positions.
* **`Forest.pairwise_ranges`** — these are one behind the other or one in the other. -/

namespace AndroidSdk.Lib

/-- A sequence of trees: leaves, and elements with content. -/
inductive Forest (κ α : Type) where
  | nil
  | leaf (a : α) (rest : Forest κ α)
  | element (k : κ) (content rest : Forest κ α)

/-- A leaf, or the beginning or the end of an element. -/
inductive Mark (κ α : Type) where
  | leaf (a : α)
  | enter (k : κ)
  | leave (k : κ)
  deriving DecidableEq

variable {κ α β : Type}

/-! ## Marks -/

namespace Mark

/-- Change what a leaf holds. -/
def map (f : α → β) : Mark κ α → Mark κ β
  | leaf a => leaf (f a)
  | enter k => enter k
  | leave k => leave k

/-- The leaf, if it is one. -/
def leaf? : Mark κ α → Option α
  | leaf a => some a
  | _ => none

/-- The kind of the element that begins. -/
def enter? : Mark κ α → Option κ
  | enter k => some k
  | _ => none

/-- Change the first leaf of a sequence. -/
def mapFirst (f : α → α) : List (Mark κ α) → List (Mark κ α)
  | [] => []
  | leaf a :: marks => leaf (f a) :: marks
  | mark :: marks => mark :: mapFirst f marks

/-- Change the last leaf of a sequence. -/
def mapLast (f : α → α) (marks : List (Mark κ α)) : List (Mark κ α) :=
  (mapFirst f marks.reverse).reverse

variable {marks : List (Mark κ α)} {f : α → α}

/-- Without leaves there is nothing to change. -/
theorem mapFirst_of_no_leaf (h : marks.filterMap leaf? = []) : mapFirst f marks = marks := by
  induction marks with
  | nil => rfl
  | cons mark marks ih =>
      cases mark with
      | leaf a => exact nomatch h
      | enter k => exact congrArg _ (ih h)
      | leave k => exact congrArg _ (ih h)

/-- Without leaves there is nothing to change. -/
theorem mapLast_of_no_leaf (h : marks.filterMap leaf? = []) : mapLast f marks = marks := by
  rw [mapLast, mapFirst_of_no_leaf (by rw [List.filterMap_reverse, h]; rfl), List.reverse_reverse]

/-- What the changed leaves hold. -/
theorem filterMap_leaf_map (d : α → β) (marks : List (Mark κ α)) :
    (marks.map (map d)).filterMap leaf? = (marks.filterMap leaf?).map d := by
  rw [List.filterMap_map, List.map_filterMap]
  refine List.filterMap_congr fun mark _ => ?_
  cases mark <;> rfl

/-- Leaves are looked up under names: a change under a name that no leaf has. -/
theorem map_map_congr {d e : α → β} (h : ∀ a ∈ marks.filterMap leaf?, d a = e a) :
    marks.map (map d) = marks.map (map e) := by
  refine List.map_congr_left fun mark hmark => ?_
  cases mark with
  | leaf a => exact congrArg leaf (h a (List.mem_filterMap.mpr ⟨leaf a, hmark, rfl⟩))
  | enter k => rfl
  | leave k => rfl

/-- **A change under the name of the first leaf.** -/
theorem map_map_first {d e : α → β} {f : β → β} {a : α} {l : List α}
    (h : marks.filterMap leaf? = a :: l) (ha : a ∉ l) (hfirst : e a = f (d a))
    (hrest : ∀ b, b ≠ a → e b = d b) :
    marks.map (map e) = mapFirst f (marks.map (map d)) := by
  induction marks with
  | nil => exact nomatch h
  | cons mark marks ih =>
      cases mark with
      | leaf b =>
          obtain ⟨rfl, rfl⟩ := List.cons.inj h
          refine congrArg₂ List.cons (congrArg leaf hfirst) (map_map_congr fun c hc => ?_)
          exact hrest c fun heq => ha (heq ▸ hc)
      | enter k => exact congrArg _ (ih h)
      | leave k => exact congrArg _ (ih h)

/-- **A change under the name of the last leaf.** -/
theorem map_map_last {d e : α → β} {f : β → β} {a : α} {l : List α}
    (h : marks.filterMap leaf? = l ++ [a]) (ha : a ∉ l) (hlast : e a = f (d a))
    (hrest : ∀ b, b ≠ a → e b = d b) :
    marks.map (map e) = mapLast f (marks.map (map d)) := by
  have hreverse : marks.reverse.filterMap leaf? = a :: l.reverse := by
    rw [List.filterMap_reverse, h, List.reverse_append, List.reverse_singleton,
      List.singleton_append]
  have hmap := map_map_first hreverse (by rwa [List.mem_reverse]) hlast hrest
  rw [mapLast, ← List.map_reverse, ← hmap, List.map_reverse, List.reverse_reverse]

end Mark

/-! ## Trees -/

namespace Forest

/-- One sequence of trees behind another. -/
def append : Forest κ α → Forest κ α → Forest κ α
  | nil, g => g
  | leaf a rest, g => leaf a (rest.append g)
  | element k content rest, g => element k content (rest.append g)

/-- Change what the leaves hold. -/
def map (f : α → β) : Forest κ α → Forest κ β
  | nil => nil
  | leaf a rest => leaf (f a) (rest.map f)
  | element k content rest => element k (content.map f) (rest.map f)

/-- **How trees are written.** -/
def marks : Forest κ α → List (Mark κ α)
  | nil => []
  | leaf a rest => .leaf a :: rest.marks
  | element k content rest => .enter k :: (content.marks ++ .leave k :: rest.marks)

/-- Sequences of trees are written one behind the other. -/
@[simp]
theorem marks_append (f g : Forest κ α) : (f.append g).marks = f.marks ++ g.marks := by
  induction f with
  | nil => rfl
  | leaf a rest ih => exact congrArg _ ih
  | element k content rest _ ih => simp [append, marks, ih]

/-- Changed leaves are written in their places. -/
@[simp]
theorem marks_map (d : α → β) (f : Forest κ α) : (f.map d).marks = f.marks.map (Mark.map d) := by
  induction f with
  | nil => rfl
  | leaf a rest ih => exact congrArg _ ih
  | element k content rest ihc ih => simp [map, marks, ihc, ih, Mark.map]

end Forest

/-- **What has been written while elements are open**: from the outermost to the innermost, which is
the first of the list, the beginning of each and its content so far. -/
def spine : List (κ × Forest κ α) → List (Mark κ α)
  | [] => []
  | (k, content) :: stack => spine stack ++ .enter k :: content.marks

/-! ## Positions -/

/-- An element with the positions of its beginning and its end. -/
structure ElementRange (κ : Type) where
  kind : κ
  start : ℕ
  stop : ℕ

/-- One element is behind another, or in it. -/
def ElementRange.Nested (r s : ElementRange κ) : Prop :=
  r.stop ≤ s.start ∨ r.start ≤ s.start ∧ s.stop ≤ r.stop

namespace Forest

/-- **The elements in the order of their beginnings**, where the position of a mark is given by the
marks in front of it. -/
def ranges (position : List (Mark κ α) → ℕ) :
    List (Mark κ α) → Forest κ α → List (ElementRange κ)
  | _, nil => []
  | before, leaf a rest => ranges position (before ++ [.leaf a]) rest
  | before, element k content rest =>
      ⟨k, position before, position (before ++ .enter k :: content.marks)⟩
        :: ranges position (before ++ [.enter k]) content
        ++ ranges position (before ++ .enter k :: (content.marks ++ [.leave k])) rest

variable {position : List (Mark κ α) → ℕ}

/-- The kinds are those of the beginnings. -/
theorem map_kind_ranges (f : Forest κ α) (before : List (Mark κ α)) :
    (f.ranges position before).map ElementRange.kind = f.marks.filterMap Mark.enter? := by
  induction f generalizing before with
  | nil => rfl
  | leaf a rest ih => exact ih _
  | element k content rest ihc ih => simp [ranges, marks, ihc, ih, Mark.enter?, List.filterMap_cons]

/-- Positions do not decrease. -/
theorem bounds_of_mem_ranges (hmono : ∀ p q, position p ≤ position (p ++ q)) {f : Forest κ α}
    {before : List (Mark κ α)} {r : ElementRange κ} (h : r ∈ f.ranges position before) :
    position before ≤ r.start ∧ r.start ≤ r.stop ∧ r.stop ≤ position (before ++ f.marks) := by
  induction f generalizing before with
  | nil => exact nomatch h
  | leaf a rest ih =>
      obtain ⟨hstart, hle, hstop⟩ := ih h
      rw [List.append_assoc] at hstop
      exact ⟨(hmono _ _).trans hstart, hle, hstop⟩
  | element k content rest ihc ih =>
      have hend : before ++ (element k content rest).marks
          = before ++ .enter k :: content.marks ++ .leave k :: rest.marks := by
        simp [marks]
      rcases List.mem_cons.mp h with rfl | h
      · refine ⟨le_rfl, hmono _ _, ?_⟩
        rw [hend]
        exact hmono _ _
      rcases List.mem_append.mp h with h | h
      · obtain ⟨hstart, hle, hstop⟩ := ihc h
        refine ⟨(hmono _ _).trans hstart, hle, hstop.trans ?_⟩
        rw [hend, List.append_assoc, List.singleton_append]
        exact hmono _ _
      · obtain ⟨hstart, hle, hstop⟩ := ih h
        refine ⟨(hmono _ _).trans hstart, hle, ?_⟩
        simpa [marks] using hstop

/-- **Elements are one behind the other or one in the other.** -/
theorem pairwise_ranges (hmono : ∀ p q, position p ≤ position (p ++ q)) (f : Forest κ α)
    (before : List (Mark κ α)) : (f.ranges position before).Pairwise ElementRange.Nested := by
  induction f generalizing before with
  | nil => exact .nil
  | leaf a rest ih => exact ih _
  | element k content rest ihc ih =>
      refine List.pairwise_append.mpr ⟨List.pairwise_cons.mpr ⟨fun r hr => ?_, ihc _⟩, ih _,
        fun r hr s hs => ?_⟩
      · -- what is in the content
        obtain ⟨hstart, -, hstop⟩ := bounds_of_mem_ranges hmono hr
        rw [List.append_assoc, List.singleton_append] at hstop
        exact .inr ⟨(hmono _ _).trans hstart, hstop⟩
      · -- what is behind the element
        obtain ⟨hstart, -, -⟩ := bounds_of_mem_ranges hmono hs
        have hend : before ++ .enter k :: (content.marks ++ [.leave k])
            = before ++ .enter k :: content.marks ++ [.leave k] := by
          simp
        have hbehind : position (before ++ .enter k :: content.marks) ≤ s.start := by
          refine le_trans ?_ hstart
          rw [hend]
          exact hmono _ _
        rcases List.mem_cons.mp hr with rfl | hr
        · exact .inl hbehind
        · obtain ⟨-, -, hstop⟩ := bounds_of_mem_ranges hmono hr
          rw [List.append_assoc, List.singleton_append] at hstop
          exact .inl (hstop.trans hbehind)

end Forest

end AndroidSdk.Lib
