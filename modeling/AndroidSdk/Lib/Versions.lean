import Mathlib.Algebra.Order.Group.Nat
import Mathlib.Data.List.Basic
import Mathlib.Tactic.Push

/-! # Items in force

Items belong to families and have versions. At a version, the item of a family that is in force is
the one with the highest version up to it.

* **`InForce`** — the item that is in force.
* **`exists_inForce_iff`** — there is one iff an item of the family has a version up to it.
* **`InForce.of_replace`**, **`InForce.of_replace_other`** — what was in force before an item was
  replaced by one of its version.
* **`InForce.of_insert`**, **`InForce.of_split`** — what was in force before an item was added. -/

namespace AndroidSdk.Lib

variable {α : Type} {family : α → Prop} {version : α → ℕ} {l pre post : List α} {s : ℕ} {x y v w : α}

/-- The item of a family that is in force at a version. -/
structure InForce (family : α → Prop) (version : α → ℕ) (l : List α) (s : ℕ) (x : α) : Prop where
  mem : x ∈ l
  belongs : family x
  le : version x ≤ s
  highest : ∀ z ∈ l, family z → version z ≤ s → version z ≤ version x

/-- **An item is in force iff the family has one with a version up to the given one.** -/
theorem exists_inForce_iff :
    (∃ x, InForce family version l s x) ↔ ∃ z ∈ l, family z ∧ version z ≤ s := by
  constructor
  · rintro ⟨x, hx⟩
    exact ⟨x, hx.mem, hx.belongs, hx.le⟩
  · rintro ⟨z, hz, hfamily, hle⟩
    -- induction on how far the version is from the bound
    induction hgap : s - version z using Nat.strongRecOn generalizing z with
    | ind n ih =>
        by_cases hhighest : ∀ u ∈ l, family u → version u ≤ s → version u ≤ version z
        · exact ⟨z, hz, hfamily, hle, hhighest⟩
        · push Not at hhighest
          obtain ⟨u, hu, hufamily, hule, hlt⟩ := hhighest
          exact ih (s - version u) (by omega) u hu hufamily hule rfl

/-- Two items that are in force have the same version. -/
theorem InForce.version_eq (hx : InForce family version l s x) (hy : InForce family version l s y) :
    version x = version y :=
  le_antisymm (hy.highest x hx.mem hx.belongs hx.le) (hx.highest y hy.mem hy.belongs hy.le)

section Replace

variable (hfamily : family w ↔ family v) (hversion : version w = version v)

include hfamily hversion

/-- The versions of a family do not depend on an item of it that is replaced. -/
theorem highest_of_replace {n : ℕ}
    (h : ∀ z ∈ pre ++ w :: post, family z → version z ≤ s → version z ≤ n) :
    ∀ z ∈ pre ++ v :: post, family z → version z ≤ s → version z ≤ n := by
  intro z hz hzfamily hzle
  obtain hz | hz := List.mem_append.mp hz
  · exact h z (List.mem_append_left _ hz) hzfamily hzle
  · obtain rfl | hz := List.mem_cons.mp hz
    · have hw := h w (by simp) (hfamily.mpr hzfamily)
      omega
    · exact h z (List.mem_append_right _ (List.mem_cons_of_mem w hz)) hzfamily hzle

/-- **The item that was replaced** by one of its family and version was in force where that is. -/
theorem InForce.of_replace (h : InForce family version (pre ++ w :: post) s w) :
    InForce family version (pre ++ v :: post) s v where
  mem := by simp
  belongs := hfamily.mp h.belongs
  le := hversion ▸ h.le
  highest := hversion ▸ highest_of_replace hfamily hversion h.highest

/-- **Other items** were in force where they are. -/
theorem InForce.of_replace_other (h : InForce family version (pre ++ w :: post) s x)
    (hx : x ∈ pre ++ v :: post) : InForce family version (pre ++ v :: post) s x where
  mem := hx
  belongs := h.belongs
  le := h.le
  highest := highest_of_replace hfamily hversion h.highest

end Replace

/-- **Before an item was added**, what else is in force was in force. -/
theorem InForce.of_insert (h : InForce family version (pre ++ y :: post) s x) :
    x = y ∨ InForce family version (pre ++ post) s x := by
  have hsub : ∀ z ∈ pre ++ post, z ∈ pre ++ y :: post := by
    intro z hz
    obtain hz | hz := List.mem_append.mp hz
    · exact List.mem_append_left _ hz
    · exact List.mem_append_right _ (List.mem_cons_of_mem y hz)
  have hold (hx : x ∈ pre ++ post) : InForce family version (pre ++ post) s x :=
    ⟨hx, h.belongs, h.le, fun z hz => h.highest z (hsub z hz)⟩
  obtain hx | hx := List.mem_append.mp h.mem
  · exact .inr (hold (List.mem_append_left _ hx))
  · obtain rfl | hx := List.mem_cons.mp hx
    · exact .inl rfl
    · exact .inr (hold (List.mem_append_right _ hx))

/-- **Before an item was split off** from one of its family, without another one between them, the
one that it was split off from was in force where it is. -/
theorem InForce.of_split (h : InForce family version (pre ++ y :: post) s y) (hv : v ∈ pre ++ post)
    (hfamily : family v) (hlt : version v < version y)
    (hgap : ∀ z ∈ pre ++ post, family z → version z ≤ version v ∨ version y < version z) :
    InForce family version (pre ++ post) s v := by
  refine ⟨hv, hfamily, hlt.le.trans h.le, fun z hz hzfamily hzle => ?_⟩
  have hz' : z ∈ pre ++ y :: post := by
    obtain hz | hz := List.mem_append.mp hz
    · exact List.mem_append_left _ hz
    · exact List.mem_append_right _ (List.mem_cons_of_mem y hz)
  have hle := h.highest z hz' hzfamily hzle
  obtain hz | hz := hgap z hz hzfamily
  · exact hz
  · omega

end AndroidSdk.Lib
