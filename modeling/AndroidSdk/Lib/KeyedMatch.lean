import Mathlib.Data.List.Nodup

/-! # Matching two lists by key

The items of a list are looked up by their key in another list and compared with what is found.

* **`IsLookup`** — the lookup finds an item of the key wherever there is one.
* **`Matches`** — every item is found and related to what is found; on distinct keys this is as
  reflexive as the relation (`Matches.refl`), and it composes as the relations do (`Matches.comp`).
* **`zip_all_eq_true_iff`** — comparing two lists place by place. -/

namespace AndroidSdk.Lib

variable {α κ : Type*}

/-! ## Lookups -/

/-- A lookup by key: what is found is an item of the key, and where there is one, something is
found. -/
structure IsLookup (key : α → κ) (lookup : List α → κ → Option α) : Prop where
  mem : ∀ {l k x}, lookup l k = some x → x ∈ l ∧ key x = k
  found : ∀ {l x}, x ∈ l → ∃ y, lookup l (key x) = some y

/-- The first item of a key. -/
theorem isLookup_find? [DecidableEq κ] (key : α → κ) :
    IsLookup key fun l k => l.find? fun x => key x = k where
  mem := by
    intro l k x h
    exact ⟨List.mem_of_find?_eq_some h, by simpa using List.find?_some h⟩
  found := by
    intro l x hx
    rw [← Option.isSome_iff_exists, List.find?_isSome]
    exact ⟨x, hx, by simp⟩

/-- The last item of a key. -/
theorem isLookup_findRev? [DecidableEq κ] (key : α → κ) :
    IsLookup key fun l k => l.findRev? fun x => key x = k where
  mem := by
    intro l k x h
    rw [List.findRev?_eq_find?_reverse] at h
    have hx := (isLookup_find? key).mem h
    exact ⟨List.mem_reverse.mp hx.1, hx.2⟩
  found := by
    intro l x hx
    rw [List.findRev?_eq_find?_reverse]
    exact (isLookup_find? key).found (List.mem_reverse.mpr hx)

/-- Among distinct keys the lookup finds the item itself. -/
theorem IsLookup.eq_some {key : α → κ} {lookup : List α → κ → Option α} (h : IsLookup key lookup)
    {l : List α} (hnodup : (l.map key).Nodup) {x : α} (hx : x ∈ l) : lookup l (key x) = some x := by
  obtain ⟨y, hy⟩ := h.found hx
  obtain ⟨hmem, hkey⟩ := h.mem hy
  rw [hy, List.inj_on_of_nodup_map hnodup hmem hx hkey]

/-! ## Matching -/

/-- Every item of the first list is related to the item found for its key in the second. -/
def Matches (key : α → κ) (lookup : List α → κ → Option α) (R : α → α → Prop) (l l' : List α) :
    Prop :=
  ∀ x ∈ l, ∃ y, lookup l' (key x) = some y ∧ R x y

section Matches

variable {key : α → κ} {lookup : List α → κ → Option α} {R S T : α → α → Prop}

/-- A list of distinct keys matches itself. -/
theorem Matches.refl (h : IsLookup key lookup) {l : List α} (hnodup : (l.map key).Nodup)
    (hR : ∀ x ∈ l, R x x) : Matches key lookup R l l := by
  intro x hx
  exact ⟨x, h.eq_some hnodup hx, hR x hx⟩

/-- Matches compose as their relations do on items of one key. -/
theorem Matches.comp (h : IsLookup key lookup) {l l' l'' : List α} (h₁ : Matches key lookup R l l')
    (h₂ : Matches key lookup S l' l'') (hRS : ∀ x y z, key x = key y → R x y → S y z → T x z) :
    Matches key lookup T l l'' := by
  intro x hx
  obtain ⟨y, hy, hxy⟩ := h₁ x hx
  obtain ⟨hmem, hkey⟩ := h.mem hy
  obtain ⟨z, hz, hyz⟩ := h₂ y hmem
  exact ⟨z, hkey ▸ hz, hRS x y z hkey.symm hxy hyz⟩

/-- Matches of two relations are matches of both. -/
theorem matches_and_iff {l l' : List α} : Matches key lookup (fun x y => R x y ∧ S x y) l l' ↔
    Matches key lookup R l l' ∧ ∀ x ∈ l, ∀ y, lookup l' (key x) = some y → S x y := by
  constructor
  · intro h
    refine ⟨fun x hx => ?_, fun x hx y hy => ?_⟩
    · obtain ⟨y, hy, hR, -⟩ := h x hx
      exact ⟨y, hy, hR⟩
    · obtain ⟨y', hy', -, hS⟩ := h x hx
      rw [hy] at hy'
      exact Option.some.inj hy' ▸ hS
  · rintro ⟨h, hS⟩ x hx
    obtain ⟨y, hy, hR⟩ := h x hx
    exact ⟨y, hy, hR, hS x hx y hy⟩

end Matches

/-- Two lists are compared at the places that both have. -/
theorem zip_all_eq_true_iff {p : α × α → Bool} {l l' : List α} : (l.zip l').all p = true ↔
    ∀ (i : ℕ) (x y : α), l[i]? = some x → l'[i]? = some y → p (x, y) = true := by
  rw [List.all_eq_true]
  constructor
  · intro h i x y hx hy
    exact h _ (List.mem_iff_getElem?.mpr ⟨i, List.getElem?_zip_eq_some.mpr ⟨hx, hy⟩⟩)
  · rintro h ⟨x, y⟩ hmem
    obtain ⟨i, hi⟩ := List.mem_iff_getElem?.mp hmem
    obtain ⟨hx, hy⟩ := List.getElem?_zip_eq_some.mp hi
    exact h i x y hx hy

end AndroidSdk.Lib
