import Mathlib.Tactic.Ring
import AndroidSdk.SplitSelect.RuleGenerator

/-! # Covering the densities

The rules that `generateDensity` makes for a list of densities cut the densities of devices at the
break points between neighbours. They cover every density once as long as the break points grow
along the list, which they do unless a product leaves the range of `int`.

* **`existsUnique_switch_iff`** — a sequence of truth values switches once iff it never switches
  back.
* **`Past`**, **`findMid_le_iff`** — a density at or above a break point, without the root.
* **`past_of_past`** — break points grow along the list as long as the products fit.
* **`existsUnique_generateDensity_iff`** — when exactly one rule holds for a device. -/

namespace AndroidSdk.SplitSelect

open Lib ResTableConfig Rule

/-! ## Sequences that switch once -/

section Switch

variable {c : ℕ → Prop}

/-- Between a place where a sequence holds and a later one where it does not, it switches. -/
theorem exists_switch {a b : ℕ} (hab : a ≤ b) (ha : c a) (hb : ¬ c b) :
    ∃ i, a ≤ i ∧ i < b ∧ c i ∧ ¬ c (i + 1) := by
  induction b, hab using Nat.le_induction with
  | base => exact absurd ha hb
  | succ b hab ih =>
      by_cases hc : c b
      · exact ⟨b, hab, Nat.lt_succ_self b, hc, hb⟩
      · obtain ⟨i, hai, hib, hi⟩ := ih hc
        exact ⟨i, hai, Nat.lt_succ_of_lt hib, hi⟩

/-- A sequence that never switches back holds before every place where it holds. -/
theorem of_le_of_noReturn {n : ℕ} (h : ∀ j < n, c (j + 1) → c j) {i j : ℕ} (hij : i ≤ j)
    (hj : j ≤ n) (hc : c j) : c i := by
  induction j, hij using Nat.le_induction with
  | base => exact hc
  | succ j hij ih => exact ih (by omega) (h j (by omega) hc)

/-- **A sequence that holds at its start and not at its end switches exactly once iff it never
switches back.** -/
theorem existsUnique_switch_iff {n : ℕ} (hstart : c 0) (hend : ¬ c n) :
    (∃! i, i < n ∧ c i ∧ ¬ c (i + 1)) ↔ ∀ j < n, c (j + 1) → c j := by
  constructor
  · rintro ⟨i, -, hunique⟩ j hj hthere
    by_contra hhere
    -- there is a switch before the return and another one behind it
    obtain ⟨k, -, hk, hswitch⟩ := exists_switch (Nat.zero_le j) hstart hhere
    obtain ⟨m, hm, hmn, hswitch'⟩ := exists_switch (Nat.succ_le_of_lt hj) hthere hend
    have hki := hunique k ⟨by omega, hswitch⟩
    have hmi := hunique m ⟨hmn, hswitch'⟩
    omega
  · intro h
    obtain ⟨i, -, hin, hi, hswitch⟩ := exists_switch (Nat.zero_le n) hstart hend
    refine ⟨i, ⟨hin, hi, hswitch⟩, ?_⟩
    rintro j ⟨hjn, hj, hswitch'⟩
    by_contra hne
    obtain hlt | hgt := Nat.lt_or_gt_of_ne hne
    · exact hswitch' (of_le_of_noReturn h (Nat.succ_le_of_lt hlt) hin.le hi)
    · exact hswitch (of_le_of_noReturn h (Nat.succ_le_of_lt hgt) hjn.le hj)

end Switch

/-! ## Break points -/

/-- The product whose root `findMid` takes, as an `int`. -/
def wrappedSquare (l h : ℕ) : ℤ := wrapInt (h * h + 8 * l * h)

/-- The break point in terms of the product. -/
theorem findMid_eq (nan : ℤ) (l h : ℕ) : findMid nan l h
    = if wrappedSquare l h < 0 then nan else halfRootSub (wrappedSquare l h).toNat h := rfl

/-- A density is at or above the break point between two densities: the product is below a square.
If the product became negative, the break point is what the conversion of a NaN gives. -/
def Past (nan : ℤ) (l h density : ℕ) : Prop :=
  (wrappedSquare l h < 0 ∧ nan ≤ density)
    ∨ (0 ≤ wrappedSquare l h ∧ wrappedSquare l h < ((h + 2 * density + 2 : ℕ) : ℤ) ^ 2)

instance (nan : ℤ) (l h density : ℕ) : Decidable (Past nan l h density) :=
  inferInstanceAs (Decidable (_ ∨ _))

/-- Half the difference of a root and a number, compared without the root. -/
theorem halfRootSub_le_iff (n h density : ℕ) :
    halfRootSub n h ≤ density ↔ n < (h + 2 * density + 2) ^ 2 := by
  rw [halfRootSub]
  split
  next hle =>
    have hroot : h ≤ n.sqrt := Nat.le_sqrt.mpr hle
    rw [← Nat.sqrt_lt']
    omega
  next hlt =>
    have hsquare : n < (h + 2 * density + 2) ^ 2 := by
      calc n < h * h := not_le.mp hlt
        _ ≤ (h + 2 * density + 2) * (h + 2 * density + 2) :=
            Nat.mul_le_mul (by omega) (by omega)
        _ = (h + 2 * density + 2) ^ 2 := (pow_two _).symm
    exact iff_of_true (by omega) hsquare

/-- **A density is at or above a break point iff a square is above the product.** -/
theorem findMid_le_iff (nan : ℤ) (l h density : ℕ) :
    findMid nan l h ≤ density ↔ Past nan l h density := by
  rw [findMid_eq, Past]
  split
  next hneg => simp [hneg, not_le.mpr hneg]
  next hpos =>
    obtain ⟨n, hn⟩ := Int.eq_ofNat_of_zero_le (not_lt.mp hpos)
    have hcast : n < (h + 2 * density + 2) ^ 2
        ↔ (n : ℤ) < ((h + 2 * density + 2 : ℕ) : ℤ) ^ 2 := by exact_mod_cast Iff.rfl
    rw [hn, Int.toNat_natCast, halfRootSub_le_iff, hcast]
    simp

/-- An `int` is below `2 ^ 31`. -/
theorem wrapInt_lt (n : ℤ) : wrapInt n < 2 ^ 31 := by
  have h : n.bmod (2 ^ 32) < (((2 ^ 32 : ℕ) : ℤ) + 1) / 2 := Int.bmod_lt (Nat.two_pow_pos 32)
  rw [wrapInt]
  omega

/-- Break points are far from the ends of the range of `int`. -/
theorem findMid_bounds {nan : ℤ} (hnan : -2 ^ 31 < nan ∧ nan < 2 ^ 31) {l h : ℕ} (hh : h < 65536) :
    -2 ^ 31 < findMid nan l h ∧ findMid nan l h < 2 ^ 31 := by
  rw [findMid_eq]
  split
  next => exact hnan
  next hpos =>
    have hlt : wrappedSquare l h < 2 ^ 31 := wrapInt_lt _
    have hsqrt : (wrappedSquare l h).toNat.sqrt ≤ (wrappedSquare l h).toNat := Nat.sqrt_le_self _
    rw [halfRootSub]
    split
    · omega
    · omega

/-- The subtraction of 1 stays in the range of `int`. -/
theorem wrapInt_findMid_sub_one {nan : ℤ} (hnan : -2 ^ 31 < nan ∧ nan < 2 ^ 31) {l h : ℕ}
    (hh : h < 65536) : wrapInt (findMid nan l h - 1) = findMid nan l h - 1 := by
  obtain ⟨hlow, hhigh⟩ := findMid_bounds hnan (l := l) hh
  exact Int.bmod_eq_of_le (by omega) (by omega)

/-- A product that fits stays as it is. -/
theorem wrappedSquare_of_lt {l h : ℕ} (hfits : h * h + 8 * l * h < 2 ^ 31) :
    wrappedSquare l h = (h * h + 8 * l * h : ℕ) := by
  have hcast : (h * h + 8 * l * h : ℤ) = (h * h + 8 * l * h : ℕ) := by push_cast; rfl
  rw [wrappedSquare, wrapInt, hcast]
  exact Int.bmod_eq_of_le (by omega) (by omega)

/-- The break point between densities whose product fits, as an inequality of their products. -/
theorem past_iff_of_lt (nan : ℤ) {l h : ℕ} (hfits : h * h + 8 * l * h < 2 ^ 31) (density : ℕ) :
    Past nan l h density ↔ 2 * l * h < (density + 1) * (h + density + 1) := by
  rw [Past, wrappedSquare_of_lt hfits]
  have hcast : (((h * h + 8 * l * h : ℕ) : ℤ) < ((h + 2 * density + 2 : ℕ) : ℤ) ^ 2)
      ↔ h * h + 8 * l * h < (h + 2 * density + 2) ^ 2 := by exact_mod_cast Iff.rfl
  have hsquare : (h + 2 * density + 2) ^ 2 = h * h + 4 * ((density + 1) * (h + density + 1)) := by
    ring
  have hproduct : 8 * l * h = 4 * (2 * l * h) := by ring
  rw [hcast, hsquare, hproduct]
  constructor
  · rintro (⟨hneg, -⟩ | ⟨-, hlt⟩)
    · omega
    · omega
  · intro hlt
    exact .inr ⟨by omega, by omega⟩

/-- **As long as the products fit, break points grow along the densities**: a density above the
break point of the upper pair is above that of the lower pair. -/
theorem past_of_past (nan : ℤ) {l m h density : ℕ} (hlm : l < m) (hmh : m < h)
    (hlow : m * m + 8 * l * m < 2 ^ 31) (hhigh : h * h + 8 * m * h < 2 ^ 31)
    (hpast : Past nan m h density) : Past nan l m density := by
  rw [past_iff_of_lt nan hlow]
  rw [past_iff_of_lt nan hhigh] at hpast
  -- the break points lie on different sides of the density in the middle
  have hle : m ≤ density + 1 := by
    by_contra hlt
    have hupper : (density + 1) * (h + density + 1) ≤ m * (h + h) :=
      Nat.mul_le_mul (by omega) (by omega)
    have htwice : m * (h + h) = 2 * m * h := by ring
    omega
  calc 2 * l * m < 2 * m * m := Nat.mul_lt_mul_of_pos_right (by omega) (by omega)
    _ = m * (m + m) := by ring
    _ ≤ (density + 1) * (m + density + 1) := Nat.mul_le_mul hle (by omega)

/-! ## The rules as a sequence -/

/-- Switching at an index of a finite range. -/
theorem existsUnique_fin_iff {n : ℕ} {P : ℕ → Prop} :
    (∃! i : Fin n, P i) ↔ ∃! i, i < n ∧ P i := by
  constructor
  · rintro ⟨i, hi, hunique⟩
    refine ⟨i, ⟨i.isLt, hi⟩, ?_⟩
    rintro j ⟨hj, hP⟩
    exact congrArg Fin.val (hunique ⟨j, hj⟩ hP)
  · rintro ⟨i, ⟨hi, hP⟩, hunique⟩
    refine ⟨⟨i, hi⟩, hP, ?_⟩
    intro j hj
    exact Fin.ext (hunique j ⟨j.isLt, hj⟩)

/-- The density is past the break point before an index. There is none before the first index, and
none is passed before the end of the list. -/
def Crossed (nan : ℤ) (ds : List ℕ) (density : ℕ) (j : ℕ) : Prop :=
  j = 0 ∨ ∃ l h, previous? ds j = some l ∧ ds[j]? = some h ∧ Past nan l h density

section Cover

variable {nan : ℤ} {ds : List ℕ}

/-- The end of a list is not crossed. -/
theorem not_crossed_length (hne : ds ≠ []) (density : ℕ) : ¬ Crossed nan ds density ds.length := by
  rintro (hzero | ⟨l, h, -, hnext, -⟩)
  · exact hne (List.eq_nil_of_length_eq_zero hzero)
  · rw [List.getElem?_eq_none le_rfl] at hnext
    cases hnext

/-- Whether the break point behind an index is passed. -/
theorem crossed_succ_iff (density : ℕ) (j : Fin ds.length) :
    Crossed nan ds density (j + 1)
      ↔ ∃ h, ds[j.val + 1]? = some h ∧ Past nan (ds.get j) h density := by
  have hprevious : previous? ds (j + 1) = some (ds.get j) := by
    rw [previous?, if_pos (Nat.succ_pos _), Nat.add_sub_cancel]
    exact List.getElem?_eq_getElem j.isLt
  simp only [Crossed, Nat.succ_ne_zero, false_or, hprevious, Option.some.injEq]
  constructor
  · rintro ⟨l, h, rfl, hnext, hpast⟩
    exact ⟨h, hnext, hpast⟩
  · rintro ⟨h, hnext, hpast⟩
    exact ⟨_, h, rfl, hnext, hpast⟩

/-- **A rule holds iff the density is past the break point before its index and not past the one
behind it.** -/
theorem densityRange_iff_crossed (hnan : -2 ^ 31 < nan ∧ nan < 2 ^ 31)
    (hds : ∀ d ∈ ds, d < 65536) (hAny : densityAny ∉ ds) (target : SplitDescription)
    (i : Fin ds.length) :
    DensityRange nan ds i target
      ↔ Crossed nan ds target.config.density.toNat i
        ∧ ¬ Crossed nan ds target.config.density.toNat (i + 1) := by
  let density := target.config.density.toNat
  -- past the break point below means not at or under the end of the rule below
  have habove : (∀ l, previous? ds i = some l → wrapInt (findMid nan l (ds.get i) - 1) < density)
      ↔ Crossed nan ds density i := by
    have hhere : ds[i.val]? = some (ds.get i) := List.getElem?_eq_getElem i.isLt
    have hstep (l : ℕ) :
        wrapInt (findMid nan l (ds.get i) - 1) < density ↔ Past nan l (ds.get i) density := by
      have hlt : (ds.get i) < 65536 := hds _ (List.getElem_mem i.isLt)
      rw [wrapInt_findMid_sub_one hnan hlt, Int.sub_one_lt_iff, findMid_le_iff]
    simp only [Crossed, hhere, Option.some.injEq, hstep]
    constructor
    · intro h
      by_cases hzero : i.val = 0
      · exact .inl hzero
      · have hprevious : previous? ds i = some ds[i.val - 1] := by
          rw [previous?, if_pos (Nat.pos_of_ne_zero hzero)]
          exact List.getElem?_eq_getElem _
        exact .inr ⟨_, _, hprevious, rfl, h _ hprevious⟩
    · rintro (hzero | ⟨l, h, hprevious, rfl, hpast⟩) l' hl'
      · rw [previous?, if_neg (by omega)] at hl'
        cases hl'
      · rw [hprevious] at hl'
        cases hl'
        exact hpast
  -- and the break point above is the start of the next rule
  have hbelow : (∀ h, ds[i.val + 1]? = some h → h ≠ densityAny → density < findMid nan (ds.get i) h)
      ↔ ¬ Crossed nan ds density (i + 1) := by
    rw [crossed_succ_iff]
    constructor
    · rintro h ⟨next, hnext, hpast⟩
      have hlt := h next hnext (fun heq => hAny (heq ▸ List.mem_of_getElem? hnext))
      exact absurd ((findMid_le_iff nan _ _ _).mpr hpast) (not_le.mpr hlt)
    · intro h next hnext _
      rw [← not_le, findMid_le_iff]
      exact fun hpast => h ⟨next, hnext, hpast⟩
  rw [← habove, ← hbelow]
  constructor
  · intro h
    exact ⟨h.above, h.below⟩
  · rintro ⟨h₁, h₂⟩
    exact ⟨fun h => absurd h hAny, h₁, h₂⟩

/-- Whether the rule of an index holds on a device. -/
theorem eval_generateDensity_iff (hAny : densityAny ∉ ds) (target : SplitDescription)
    (i : Fin ds.length) :
    (generateDensity nan ds i).eval (deviceSatisfies target) = true
      ↔ DensityRange nan ds i target := by
  have hne : ds.get i ≠ densityAny := fun h => hAny (h ▸ List.getElem_mem i.isLt)
  rw [generateDensity, if_pos hne, ← densitySubrules_hold_iff]
  refine (eval_node_eq_unit_iff _ (.inl rfl) _ _ _ _).trans ?_
  refine forall₂_congr fun l hl => ?_
  rw [eval_leaf _ (leaf_of_mem_densitySubrules hl)]
  rfl

/-- The sequence never switches back iff no density is past an upper break point without being past
the one below it. -/
theorem noReturn_iff (density : ℕ) :
    (∀ j < ds.length, Crossed nan ds density (j + 1) → Crossed nan ds density j)
      ↔ ∀ l m h, [l, m, h] <:+: ds → Past nan m h density → Past nan l m density := by
  constructor
  · intro hall l m h hwindow hpast
    obtain ⟨k, hk, hget⟩ := List.infix_iff_getElem?.mp hwindow
    rw [List.length_cons, List.length_cons, List.length_singleton] at hk
    have hl : ds[k]? = some l := by simpa using hget 0 (by simp)
    have hm : ds[k + 1]? = some m := by simpa [add_comm] using hget 1 (by simp)
    have hh : ds[k + 2]? = some h := by simpa [add_comm] using hget 2 (by simp)
    have hcrossed : Crossed nan ds density (k + 1 + 1) :=
      .inr ⟨m, h, by simpa [previous?] using hm, hh, hpast⟩
    obtain hzero | ⟨l', m', hl', hm', hpast'⟩ := hall (k + 1) (by omega) hcrossed
    · cases hzero
    · rw [hm] at hm'
      rw [previous?, if_pos (Nat.succ_pos k), Nat.add_sub_cancel, hl] at hl'
      cases hl'
      cases hm'
      exact hpast'
  · rintro hall j hj (hzero | ⟨m, h, hm, hh, hpast⟩)
    · cases hzero
    · rw [previous?, if_pos (Nat.succ_pos j), Nat.add_sub_cancel] at hm
      cases j with
      | zero => exact .inl rfl
      | succ k =>
          have hlt : k < ds.length := by omega
          refine .inr ⟨ds[k], m, by simp [previous?, hlt], hm, hall _ m h ?_ hpast⟩
          refine List.infix_iff_getElem?.mpr ⟨k, ?_, ?_⟩
          · have := (List.getElem?_eq_some_iff.mp hh).1
            rw [List.length_cons, List.length_cons, List.length_singleton]
            omega
          · intro i hi
            rw [List.length_cons, List.length_cons, List.length_singleton] at hi
            obtain rfl | rfl | rfl : i = 0 ∨ i = 1 ∨ i = 2 := by omega
            · simp [hlt]
            · simpa [add_comm] using hm
            · rw [show 2 + k = k + 1 + 1 by omega]
              exact hh

/-- **Exactly one rule holds on a device iff the list is not empty and its density is not past an
upper break point without being past the one below it.** -/
theorem existsUnique_generateDensity_iff (hnan : -2 ^ 31 < nan ∧ nan < 2 ^ 31)
    (hds : ∀ d ∈ ds, d < 65536) (hAny : densityAny ∉ ds) (target : SplitDescription) :
    (∃! i, (generateDensity nan ds i).eval (deviceSatisfies target) = true)
      ↔ ds ≠ [] ∧ ∀ l m h, [l, m, h] <:+: ds → Past nan m h target.config.density.toNat →
          Past nan l m target.config.density.toNat := by
  simp only [eval_generateDensity_iff hAny, densityRange_iff_crossed hnan hds hAny]
  by_cases hne : ds = []
  · subst hne
    simp
  · rw [existsUnique_fin_iff (P := fun i => Crossed nan ds target.config.density.toNat i
        ∧ ¬ Crossed nan ds target.config.density.toNat (i + 1)),
      existsUnique_switch_iff (.inl rfl) (not_crossed_length hne _), noReturn_iff]
    exact (and_iff_right hne).symm

end Cover

/-- The densities from `ldpi` to `xxxhdpi`. -/
def screenDensities : List ℕ := [120, 160, 213, 240, 320, 480, 640]

/-- A device of density 300 satisfies exactly one rule for the screen densities. -/
theorem existsUnique_screenDensities :
    ∃! i, (generateDensity 0 screenDensities i).eval (deviceSatisfies (dpi 300 0)) = true := by
  refine (existsUnique_generateDensity_iff (by decide) (by decide) (by decide) (dpi 300 0)).mpr
    ⟨by decide, fun l m h hwindow => ?_⟩
  have hsorted : [l, m, h].Pairwise (· < ·) :=
    List.Pairwise.sublist hwindow.sublist (by decide : screenDensities.Pairwise (· < ·))
  simp only [List.pairwise_cons, List.mem_cons, List.not_mem_nil, or_false, forall_eq_or_imp,
    forall_eq] at hsorted
  have hle : h ≤ 640 :=
    (by decide : ∀ d ∈ screenDensities, d ≤ 640) h (hwindow.subset (by simp))
  have hfits {l h : ℕ} (hl : l ≤ 640) (hh : h ≤ 640) : h * h + 8 * l * h < 2 ^ 31 := by
    have h₁ := Nat.mul_le_mul hh hh
    have h₂ := Nat.mul_le_mul (Nat.mul_le_mul_left 8 hl) hh
    omega
  exact past_of_past 0 hsorted.1.1 hsorted.2.1 (hfits (by omega) (by omega))
    (hfits (by omega) hle)

/-- Two screen densities and `nodpi`. -/
def nodpiDensities : List ℕ := [160, 240, 65535]

/-- **With `nodpi` at the end of the list two rules hold for a device with 160 dpi**: the product
for the last pair is too large for an `int`, and the break point computed from it is negative. -/
theorem not_existsUnique_nodpi :
    nodpiDensities.Pairwise (· < ·) ∧ (∀ d ∈ nodpiDensities, d < 65536) ∧ densityAny ∉ nodpiDensities
    ∧ ¬ ∃! i, (generateDensity 0 nodpiDensities i).eval (deviceSatisfies (dpi 160 21)) = true := by
  have hholds (i : Fin nodpiDensities.length) :
      (generateDensity 0 nodpiDensities i).eval (deviceSatisfies (dpi 160 21)) = true
        ↔ Crossed 0 nodpiDensities 160 i ∧ ¬ Crossed 0 nodpiDensities 160 (i + 1) := by
    rw [eval_generateDensity_iff (by decide),
      densityRange_iff_crossed (by decide) (by decide) (by decide)]
    rfl
  refine ⟨by decide, by decide, by decide, ?_⟩
  rintro ⟨i, -, hunique⟩
  have hfirst := hunique ⟨0, by decide⟩ ((hholds _).mpr ⟨.inl rfl, fun hcrossed => ?_⟩)
  · have hlast := hunique ⟨2, by decide⟩ ((hholds _).mpr
      ⟨.inr ⟨240, 65535, rfl, rfl, by decide +kernel⟩, not_crossed_length (by decide) 160⟩)
    rw [← hlast] at hfirst
    exact absurd hfirst (by decide)
  · obtain ⟨h, hnext, hpast⟩ := (crossed_succ_iff 160 ⟨0, by decide⟩).mp hcrossed
    cases hnext
    exact absurd hpast (by decide +kernel)

end AndroidSdk.SplitSelect
