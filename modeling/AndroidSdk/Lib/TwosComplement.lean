import Mathlib.Data.Int.Bitwise
import Mathlib.Tactic.Linarith
import Mathlib.Data.Nat.Size

/-! # Two's complement

Signed machine words of a width and the unbounded integers they stand for. The bitwise operations on
words are those on integers, which have infinitely many digits, and the least residue of an integer
is the integer itself if it fits into a word.

* **`FitsSigned`** — the integers of a width.
* **`bmod_eq_self_iff`** — the residue of an integer that fits, and only of those, is itself.
* **`toInt_or_ofInt`**, **`toInt_and_ofInt`**, **`toInt_xor_ofInt`** — bitwise operations on words.
* **`mul_two_pow_lt`** — a shift by at most the number of leading zeros. -/

namespace AndroidSdk.Lib

/-! ## Integers of a width -/

/-- The integer fits into a signed word. -/
def FitsSigned (w : ℕ) (v : ℤ) : Prop := -2 ^ (w - 1) ≤ v ∧ v < 2 ^ (w - 1)

instance (w : ℕ) (v : ℤ) : Decidable (FitsSigned w v) :=
  inferInstanceAs (Decidable (_ ∧ _))

variable {w : ℕ} {v a b : ℤ}

/-- A power of two and its half. -/
theorem two_pow_eq (hw : 0 < w) : (2 : ℤ) ^ w = 2 * 2 ^ (w - 1) := by
  obtain ⟨n, rfl⟩ : ∃ n, w = n + 1 := ⟨w - 1, by omega⟩
  rw [Nat.add_sub_cancel, pow_succ, mul_comm]

/-- **Only integers that fit are their own residues.** -/
theorem bmod_eq_self_iff (hw : 0 < w) : v.bmod (2 ^ w) = v ↔ FitsSigned w v := by
  have hpow := two_pow_eq hw
  have hcast : ((2 ^ w : ℕ) : ℤ) = 2 ^ w := by push_cast; rfl
  have hpos : (0 : ℤ) < 2 ^ (w - 1) := by positivity
  rw [FitsSigned]
  constructor
  · intro h
    have hle := Int.le_bmod (x := v) (m := 2 ^ w) (by positivity)
    have hlt := Int.bmod_lt (x := v) (m := 2 ^ w) (by positivity)
    rw [h, hcast] at hle hlt
    omega
  · rintro ⟨hle, hlt⟩
    refine Int.bmod_eq_of_le ?_ ?_
    · rw [hcast]
      omega
    · rw [hcast]
      omega

/-- The residue of an integer below the modulus, whose highest digit is the sign. -/
theorem bmod_of_lt (hw : 0 < w) (h0 : 0 ≤ v) (hlt : v < 2 ^ w) :
    v.bmod (2 ^ w) = if 2 ^ (w - 1) ≤ v then v - 2 ^ w else v := by
  have hpow := two_pow_eq hw
  have hcast : ((2 ^ w : ℕ) : ℤ) = 2 ^ w := by push_cast; rfl
  have hmod : v % 2 ^ w = v := Int.emod_eq_of_lt h0 hlt
  rw [Int.bmod_def, hcast, hmod]
  split_ifs with h₁ h₂ h₂
  · omega
  · rfl
  · rfl
  · omega

/-- A wider word holds the integer too. -/
theorem FitsSigned.mono {w' : ℕ} (h : FitsSigned w v) (hw : w ≤ w') : FitsSigned w' v := by
  have hpow : (2 : ℤ) ^ (w - 1) ≤ 2 ^ (w' - 1) := pow_le_pow_right₀ (by norm_num) (by omega)
  obtain ⟨hle, hlt⟩ := h
  exact ⟨by linarith, by linarith⟩

/-! ## Division -/

/-- An integer fits if its magnitude does, but for the least one. -/
theorem FitsSigned.of_natAbs_le (h : FitsSigned w v) (hle : a.natAbs ≤ v.natAbs)
    (hsign : v = -2 ^ (w - 1) → a ≤ 0 ∨ a.natAbs < v.natAbs) : FitsSigned w a := by
  obtain ⟨hlo, hhi⟩ := h
  refine ⟨by omega, ?_⟩
  by_contra hge
  have hv : v = -2 ^ (w - 1) := by omega
  rcases hsign hv with hneg | hlt
  · omega
  · omega

/-- **A quotient fits**, but for that of the least integer by -1. -/
theorem FitsSigned.tdiv (h : FitsSigned w a) (hb : b ≠ 0) (hmin : ¬ (a = -2 ^ (w - 1) ∧ b = -1)) :
    FitsSigned w (a.tdiv b) := by
  have habs : (a.tdiv b).natAbs = a.natAbs / b.natAbs := Int.natAbs_tdiv a b
  refine h.of_natAbs_le (habs ▸ Nat.div_le_self _ _) fun ha => ?_
  have hpos : 0 < a.natAbs := by
    have hpow : (0 : ℤ) < 2 ^ (w - 1) := by positivity
    omega
  rcases Nat.lt_or_ge 1 b.natAbs with hlarge | hsmall
  · exact .inr (habs ▸ Nat.div_lt_self hpos hlarge)
  · -- the divisor is 1
    have hb1 : b = 1 := by
      have hne : b ≠ -1 := fun hb1 => hmin ⟨ha, hb1⟩
      omega
    rw [hb1, Int.tdiv_one]
    left
    have hpow : (0 : ℤ) < 2 ^ (w - 1) := by positivity
    omega

/-- **A remainder fits.** -/
theorem FitsSigned.tmod (h : FitsSigned w a) (b : ℤ) : FitsSigned w (a.tmod b) := by
  have habs : (a.tmod b).natAbs = a.natAbs % b.natAbs := Int.natAbs_tmod a b
  refine h.of_natAbs_le (habs ▸ Nat.mod_le _ _) fun ha => ?_
  have hpow : (0 : ℤ) < 2 ^ (w - 1) := by positivity
  left
  have hneg : (-a).tmod b = -(a.tmod b) := Int.neg_tmod a b
  have hnonneg := Int.tmod_nonneg b (show 0 ≤ -a by omega)
  omega

/-! ## Digits -/

/-- The digits of an integer from some place on are those of its sign. -/
theorem exists_testBit_eq_sign (v : ℤ) : ∃ k, ∀ i, k ≤ i → v.testBit i = decide (v < 0) := by
  cases v with
  | ofNat n =>
      refine ⟨n, fun i hi => ?_⟩
      show n.testBit i = decide ((n : ℤ) < 0)
      rw [Nat.testBit_lt_two_pow (lt_of_le_of_lt hi Nat.lt_two_pow_self)]
      simp
  | negSucc n =>
      refine ⟨n, fun i hi => ?_⟩
      show (!n.testBit i) = decide (Int.negSucc n < 0)
      rw [Nat.testBit_lt_two_pow (lt_of_le_of_lt hi Nat.lt_two_pow_self)]
      simp [Int.negSucc_lt_zero]

/-- **Integers with the same digits are the same.** -/
theorem eq_of_testBit_eq (h : ∀ i, a.testBit i = b.testBit i) : a = b := by
  obtain ⟨k, hk⟩ := exists_testBit_eq_sign a
  obtain ⟨l, hl⟩ := exists_testBit_eq_sign b
  have hsign : decide (a < 0) = decide (b < 0) := by
    rw [← hk (max k l) (le_max_left _ _), ← hl (max k l) (le_max_right _ _), h]
  cases a with
  | ofNat m =>
      cases b with
      | ofNat n => exact congrArg Int.ofNat (Nat.eq_of_testBit_eq h)
      | negSucc n =>
          simp [Int.negSucc_lt_zero] at hsign
          omega
  | negSucc m =>
      cases b with
      | ofNat n =>
          simp [Int.negSucc_lt_zero] at hsign
          omega
      | negSucc n =>
          refine congrArg Int.negSucc (Nat.eq_of_testBit_eq fun i => ?_)
          exact Bool.not_inj (h i)

/-- The digits of a word: those it has, and then its sign. -/
theorem testBit_toInt (x : BitVec w) (i : ℕ) :
    x.toInt.testBit i = if i < w then x.getLsbD i else x.msb := by
  have hlt := x.isLt
  cases hmsb : x.msb with
  | false =>
      rw [BitVec.toInt_eq_toNat_of_msb hmsb]
      show x.toNat.testBit i = _
      split_ifs with hi
      · rfl
      · exact Nat.testBit_lt_two_pow (lt_of_lt_of_le hlt (Nat.pow_le_pow_right (by omega) (by omega)))
  | true =>
      have hneg : x.toInt = Int.negSucc (2 ^ w - (x.toNat + 1)) := by
        rw [BitVec.toInt_eq_msb_cond, hmsb, if_pos rfl, Int.negSucc_eq]
        push_cast [Nat.cast_sub (show x.toNat + 1 ≤ 2 ^ w from hlt)]
        omega
      rw [hneg]
      show (!(2 ^ w - (x.toNat + 1)).testBit i) = _
      rw [Nat.testBit_two_pow_sub_succ hlt]
      split_ifs with hi
      · simp [hi, BitVec.getLsbD]
      · simp [hi]

/-! ## Bitwise operations -/

/-- The digits of the word of an integer that fits. -/
theorem testBit_ofInt (hw : 0 < w) (hv : FitsSigned w v) (i : ℕ) :
    v.testBit i = if i < w then (BitVec.ofInt w v).getLsbD i else (BitVec.ofInt w v).msb := by
  rw [← testBit_toInt, BitVec.toInt_ofInt, (bmod_eq_self_iff hw).mpr hv]

section Operations

variable (hw : 0 < w) (ha : FitsSigned w a) (hb : FitsSigned w b)

include hw ha hb

/-- The disjunction of words. -/
theorem toInt_or_ofInt : (BitVec.ofInt w a ||| BitVec.ofInt w b).toInt = a.lor b := by
  refine eq_of_testBit_eq fun i => ?_
  rw [testBit_toInt, Int.testBit_lor, testBit_ofInt hw ha, testBit_ofInt hw hb]
  split_ifs <;> simp

/-- The conjunction of words. -/
theorem toInt_and_ofInt : (BitVec.ofInt w a &&& BitVec.ofInt w b).toInt = a.land b := by
  refine eq_of_testBit_eq fun i => ?_
  rw [testBit_toInt, Int.testBit_land, testBit_ofInt hw ha, testBit_ofInt hw hb]
  split_ifs <;> simp

/-- The exclusive disjunction of words. -/
theorem toInt_xor_ofInt : (BitVec.ofInt w a ^^^ BitVec.ofInt w b).toInt = a.xor b := by
  refine eq_of_testBit_eq fun i => ?_
  rw [testBit_toInt, Int.testBit_lxor, testBit_ofInt hw ha, testBit_ofInt hw hb]
  split_ifs <;> simp

end Operations

/-- A word stands for an integer of its width. -/
theorem fitsSigned_toInt (hw : 0 < w) (x : BitVec w) : FitsSigned w x.toInt := by
  refine (bmod_eq_self_iff hw).mp ?_
  rw [← BitVec.toInt_ofInt, BitVec.ofInt_toInt]

/-! ## Shifts -/

/-- **A shift by at most the number of leading zeros** stays below the modulus. -/
theorem mul_two_pow_lt {m n : ℕ} (h : n ≤ w - m.size) (hm : m.size ≤ w) : m * 2 ^ n < 2 ^ w := by
  have hsize := Nat.lt_size_self m
  calc m * 2 ^ n < 2 ^ m.size * 2 ^ n := Nat.mul_lt_mul_of_pos_right hsize (by positivity)
    _ = 2 ^ (m.size + n) := (pow_add 2 _ _).symm
    _ ≤ 2 ^ w := Nat.pow_le_pow_right (by omega) (by omega)

end AndroidSdk.Lib
