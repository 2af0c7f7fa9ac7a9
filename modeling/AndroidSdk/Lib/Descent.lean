import Mathlib.Order.Nat

/-! # Recursion down a numbering

A function on the nodes of a graph without cycles whose nodes are numbered so that each refers to
smaller ones only: its body is given the function itself, to be asked at smaller numbers. The
recursion has a depth, which makes it computable; a node's own number is deep enough.

* **`descend`** — the recursion to a depth.
* **`Descends`** — the body asks at smaller numbers only.
* **`recurse_eq`** — the function satisfies the equation that its body is. -/

namespace AndroidSdk.Lib

universe u

variable {α : Type u}

/-- The recursion to a depth; below it there is the given value. -/
def descend (body : (ℕ → α) → ℕ → α) (bottom : α) : ℕ → ℕ → α
  | 0, _ => bottom
  | depth + 1, i => body (descend body bottom depth) i

/-- **The function with the given body.** -/
def recurse (body : (ℕ → α) → ℕ → α) (bottom : α) (i : ℕ) : α := descend body bottom (i + 1) i

/-- A body that asks for the function at smaller numbers only. -/
def Descends (body : (ℕ → α) → ℕ → α) : Prop :=
  ∀ ⦃i : ℕ⦄ ⦃f g : ℕ → α⦄, (∀ c < i, f c = g c) → body f i = body g i

variable {body : (ℕ → α) → ℕ → α} {bottom : α}

/-- More depth than a node's number changes nothing. -/
theorem descend_eq_recurse (h : Descends body) {depth i : ℕ} (hi : i < depth) :
    descend body bottom depth i = recurse body bottom i := by
  induction i using Nat.strong_induction_on generalizing depth with
  | h i ih =>
      obtain ⟨d, rfl⟩ := Nat.exists_eq_succ_of_ne_zero (Nat.ne_zero_of_lt hi)
      refine h fun c hc => ?_
      rw [ih c hc hc, ih c hc (Nat.lt_of_lt_of_le hc (Nat.le_of_lt_succ hi))]

/-- **The equation of the recursion.** -/
theorem recurse_eq (h : Descends body) (i : ℕ) :
    recurse body bottom i = body (recurse body bottom) i :=
  h fun _ hc => descend_eq_recurse h hc

end AndroidSdk.Lib
