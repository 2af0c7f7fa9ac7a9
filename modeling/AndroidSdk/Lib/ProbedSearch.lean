import Mathlib.Order.Nat
import AndroidSdk.Lib.Run

/-! # Binary search whose probes can fail

The halving loop of `std::lower_bound` over positions, where looking at an item can fail, and a
cursor that walks to the same place.

* **`FirstNotBefore`** — the first of the positions whose item is not before the key.
* **`lowerBoundM`**, **`exists_lowerBoundM`** — the loop, and what it finds if no probe fails and
  the items before the key come first; **`exists_lowerBoundM_le`** for items in any order.
* **`lowerBoundM_eq_zero`** — what it finds, if anything, when no item is before the key.
* **`FirstNotBefore.advance`** — a cursor over increasing items follows the key. -/

namespace AndroidSdk.Lib

variable {ε : Type} {before : ℕ → Except ε Bool} {p : ℕ → Prop} {n c : ℕ}

/-- The first of `n` positions whose item is not before the key, or `n`. -/
structure FirstNotBefore (p : ℕ → Prop) (n c : ℕ) : Prop where
  le : c ≤ n
  before : ∀ j < c, p j
  notBefore : ∀ j, c ≤ j → j < n → ¬ p j

/-- There is only one. -/
theorem FirstNotBefore.unique {c' : ℕ} (h : FirstNotBefore p n c) (h' : FirstNotBefore p n c') :
    c = c' := by
  rcases Nat.lt_trichotomy c c' with hlt | heq | hgt
  · exact absurd (h'.before c hlt) (h.notBefore c le_rfl (lt_of_lt_of_le hlt h'.le))
  · exact heq
  · exact absurd (h.before c' hgt) (h'.notBefore c' le_rfl (lt_of_lt_of_le hgt h.le))

/-- The loop of `std::lower_bound`: `len` positions from `first` on are still to be searched. The
first argument bounds the number of rounds. -/
def probeLoop (before : ℕ → Except ε Bool) : ℕ → ℕ → ℕ → Except ε ℕ
  | 0, first, _ => .ok first
  | fuel + 1, first, len =>
      if len = 0 then .ok first
      else do
        if ← before (first + len / 2) then
          probeLoop before fuel (first + len / 2 + 1) (len - len / 2 - 1)
        else probeLoop before fuel first (len / 2)

/-- `std::lower_bound`, on `n` positions. -/
def lowerBoundM (before : ℕ → Except ε Bool) (n : ℕ) : Except ε ℕ := probeLoop before n 0 n

/-- What the loop finds, if no probe fails and the items before the key come first. -/
theorem exists_probeLoop {b : ℕ → Bool} (hread : ∀ i < n, before i = .ok (b i))
    (hmono : ∀ i j, i ≤ j → j < n → b j = true → b i = true) {fuel first len : ℕ}
    (hfuel : len ≤ fuel) (hlen : first + len ≤ n) (hfirst : ∀ j < first, b j = true)
    (hrest : ∀ j, first + len ≤ j → j < n → ¬ b j = true) :
    ∃ c, probeLoop before fuel first len = .ok c ∧ FirstNotBefore (fun j => b j = true) n c := by
  induction fuel generalizing first len with
  | zero =>
      obtain rfl : len = 0 := by omega
      exact ⟨first, rfl, hlen, hfirst, hrest⟩
  | succ fuel ih =>
      by_cases hzero : len = 0
      · subst hzero
        exact ⟨first, by rw [probeLoop, if_pos rfl], hlen, hfirst, hrest⟩
      · rw [probeLoop, if_neg hzero, hread _ (by omega)]
        by_cases hmid : b (first + len / 2) = true
        · obtain ⟨c, hc, hfound⟩ := @ih (first + len / 2 + 1) (len - len / 2 - 1)
            (by omega) (by omega)
            (fun j hj => hmono j (first + len / 2) (by omega) (by omega) hmid)
            (fun j hj => hrest j (by omega))
          exact ⟨c, by rw [hmid]; exact hc, hfound⟩
        · obtain ⟨c, hc, hfound⟩ := @ih first (len / 2) (by omega) (by omega)
            hfirst (fun j hj hjn hbj => hmid (hmono (first + len / 2) j hj hjn hbj))
          rw [Bool.not_eq_true] at hmid
          exact ⟨c, by rw [hmid]; exact hc, hfound⟩

/-- **What the search finds**, if no probe fails and the items before the key come first. -/
theorem exists_lowerBoundM {b : ℕ → Bool} (hread : ∀ i < n, before i = .ok (b i))
    (hmono : ∀ i j, i ≤ j → j < n → b j = true → b i = true) :
    ∃ c, lowerBoundM before n = .ok c ∧ FirstNotBefore (fun j => b j = true) n c :=
  exists_probeLoop hread hmono le_rfl (by omega) (fun j hj => absurd hj (Nat.not_lt_zero j))
    (fun j hj hjn => absurd hjn (by omega))

/-- A loop whose probes do not fail ends at one of the positions, in whatever order the items are. -/
theorem exists_probeLoop_le (hread : ∀ i < n, ∃ b, before i = .ok b) {fuel first len : ℕ}
    (hlen : first + len ≤ n) : ∃ c, probeLoop before fuel first len = .ok c ∧ c ≤ n := by
  induction fuel generalizing first len with
  | zero => exact ⟨first, rfl, by omega⟩
  | succ fuel ih =>
      rw [probeLoop]
      by_cases hzero : len = 0
      · exact ⟨first, if_pos hzero, by omega⟩
      · obtain ⟨b, hb⟩ := hread (first + len / 2) (by omega)
        rw [if_neg hzero, hb]
        cases b with
        | true => exact @ih (first + len / 2 + 1) (len - len / 2 - 1) (by omega)
        | false => exact @ih first (len / 2) (by omega)

/-- **A search whose probes do not fail** ends at one of the positions. -/
theorem exists_lowerBoundM_le (hread : ∀ i < n, ∃ b, before i = .ok b) :
    ∃ c, lowerBoundM before n = .ok c ∧ c ≤ n := exists_probeLoop_le hread (by omega)

/-- A loop in which no probe finds an item before the key stays where it is. -/
theorem probeLoop_eq_first (hbefore : ∀ i, before i ≠ .ok true) {fuel first len : ℕ}
    (h : probeLoop before fuel first len = .ok c) : c = first := by
  induction fuel generalizing len with
  | zero =>
      cases h
      rfl
  | succ fuel ih =>
      rw [probeLoop] at h
      split at h
      · cases h
        rfl
      · obtain ⟨found, hfound, h⟩ := bind_eq_ok_iff.mp h
        cases found with
        | true => exact absurd hfound (hbefore _)
        | false => exact ih h

/-- **A search in which no probe finds an item before the key**, and none fails, finds the first
position. -/
theorem lowerBoundM_eq_zero (hbefore : ∀ i, before i ≠ .ok true)
    (h : lowerBoundM before n = .ok c) : c = 0 := probeLoop_eq_first hbefore h

/-- **A cursor over increasing items**: when the key grows by one, it passes at most one item. -/
theorem FirstNotBefore.advance {item : ℕ → ℕ} (hitem : ∀ i j, i < j → j < n → item i < item j)
    {key : ℕ} (h : FirstNotBefore (fun j => item j < key) n c) :
    FirstNotBefore (fun j => item j < key + 1) n
      (if c < n ∧ item c < key + 1 then c + 1 else c) := by
  split
  next hpass =>
      refine ⟨hpass.1, fun j hj => ?_, fun j hj hjn hbefore => ?_⟩
      · rcases Nat.lt_succ_iff_lt_or_eq.mp hj with hj | rfl
        · exact Nat.lt_succ_of_lt (h.before j hj)
        · exact hpass.2
      · have := hitem c j hj hjn
        have := h.notBefore c le_rfl hpass.1
        omega
  next hstay =>
      refine ⟨h.le, fun j hj => Nat.lt_succ_of_lt (h.before j hj), fun j hj hjn hbefore => ?_⟩
      have hcn : c < n := lt_of_le_of_lt hj hjn
      refine hstay ⟨hcn, ?_⟩
      rcases Nat.eq_or_lt_of_le hj with rfl | hlt
      · exact hbefore
      · exact lt_trans (hitem c j hlt hjn) hbefore

end AndroidSdk.Lib
