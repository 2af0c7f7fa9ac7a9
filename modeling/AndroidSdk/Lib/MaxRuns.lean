import Mathlib.Data.List.Basic
import Mathlib.Order.Nat
import Mathlib.Tactic.SplitIfs

/-! # Maximal runs of positions

The positions below a length at which a condition holds form maximal runs.

* **`IsMaxRun`** — an interval of such positions that cannot be extended.
* **`maxRuns`** — all of them, from left to right, found in one scan.
* **`mem_maxRuns_iff`** — these are just the maximal runs.
* **`maxRuns_pairwise`** — there is a gap between any two of them.
* **`exists_maxRun`** — every such position lies in one. -/

namespace AndroidSdk.Lib

variable {q : ℕ → Bool} {n : ℕ}

/-- The interval is a maximal run of positions. -/
structure IsMaxRun (q : ℕ → Bool) (n : ℕ) (r : ℕ × ℕ) : Prop where
  lt : r.1 < r.2
  le : r.2 ≤ n
  inside : ∀ i, r.1 ≤ i → i < r.2 → q i = true
  before : r.1 = 0 ∨ q (r.1 - 1) = false
  after : r.2 = n ∨ q r.2 = false

/-- The scan, with the start of the run that is open and the number of positions that are left. -/
def runsFrom (q : ℕ → Bool) : Option ℕ → ℕ → ℕ → List (ℕ × ℕ)
  | none, _, 0 => []
  | some s, i, 0 => [(s, i)]
  | none, i, m + 1 => if q i then runsFrom q (some i) (i + 1) m else runsFrom q none (i + 1) m
  | some s, i, m + 1 =>
      if q i then runsFrom q (some s) (i + 1) m else (s, i) :: runsFrom q none (i + 1) m

/-- The maximal runs. -/
def maxRuns (q : ℕ → Bool) (n : ℕ) : List (ℕ × ℕ) := runsFrom q none 0 n

/-- A run that starts behind a position does not start at it if the position before is in a run. -/
theorem IsMaxRun.lt_start {r : ℕ × ℕ} (h : IsMaxRun q n r) {i : ℕ} (hi : i ≤ r.1)
    (hq : q i = false) : i < r.1 := by
  refine Nat.lt_of_le_of_ne hi fun heq => ?_
  have hstart := h.inside r.1 le_rfl h.lt
  rw [← heq, hq] at hstart
  exact Bool.false_ne_true hstart

/-- A run does not start behind the start of an overlapping one. -/
theorem IsMaxRun.start_le {r r' : ℕ × ℕ} (h : IsMaxRun q n r) (h' : IsMaxRun q n r')
    (hlt : r.1 < r'.2) : r.1 ≤ r'.1 ∨ r'.2 ≤ r.1 := by
  by_contra hcon
  have hbefore := h'.inside (r.1 - 1) (by omega) (by omega)
  rcases h.before with h0 | hq
  · omega
  · rw [hbefore] at hq
    exact Bool.false_ne_true hq.symm

/-- **Maximal runs that overlap are the same.** -/
theorem IsMaxRun.eq_of_overlap {r r' : ℕ × ℕ} (h : IsMaxRun q n r) (h' : IsMaxRun q n r')
    (hlt : r.1 < r'.2) (hlt' : r'.1 < r.2) : r = r' := by
  have hstart : r.1 = r'.1 := by
    have hle := h.start_le h' hlt
    have hle' := h'.start_le h hlt'
    omega
  have hend {t t' : ℕ × ℕ} (ht : IsMaxRun q n t) (ht' : IsMaxRun q n t') (heq : t.1 = t'.1) :
      ¬ t.2 < t'.2 := by
    intro hshort
    have htlt := ht.lt
    have hinside := ht'.inside t.2 (by omega) hshort
    rcases ht.after with hn | hq
    · have hle := ht'.le
      omega
    · rw [hinside] at hq
      exact Bool.false_ne_true hq.symm
  have hge := hend h h' hstart
  have hle := hend h' h hstart.symm
  exact Prod.ext hstart (by omega)

/-- The start of a scan: a run starts at the position or behind it, or the open one ends. -/
def ScanFrom (q : ℕ → Bool) (i : ℕ) : Option ℕ → Prop
  | none => i = 0 ∨ q (i - 1) = false
  | some s => s < i ∧ (∀ k, s ≤ k → k < i → q k = true) ∧ (s = 0 ∨ q (s - 1) = false)

/-- **What the scan finds**: the maximal runs that do not start before the open one. -/
theorem mem_runsFrom_iff {r : ℕ × ℕ} {s : Option ℕ} {i m : ℕ} (him : i + m = n)
    (hscan : ScanFrom q i s) :
    r ∈ runsFrom q s i m ↔ IsMaxRun q n r ∧ s.getD i ≤ r.1 := by
  induction m generalizing s i with
  | zero =>
      cases s with
      | none =>
          rw [runsFrom]
          refine iff_of_false List.not_mem_nil fun h => ?_
          have hlt := h.1.lt
          have hle := h.1.le
          rw [Option.getD_none] at h
          omega
      | some s =>
          obtain ⟨hlt, hinside, hbefore⟩ := hscan
          have hrun : IsMaxRun q n (s, i) :=
            ⟨hlt, him.le, hinside, hbefore, .inl him⟩
          rw [runsFrom, List.mem_singleton, Option.getD_some]
          constructor
          · rintro rfl
            exact ⟨hrun, le_rfl⟩
          · rintro ⟨h, hle⟩
            have hrlt := h.lt
            have hrle := h.le
            exact h.eq_of_overlap hrun (by simp only; omega) (by simp only; omega)
  | succ m ih =>
      cases s with
      | none =>
          rw [runsFrom, Option.getD_none]
          split_ifs with hq
          · -- a run starts here
            refine ih (by omega) ⟨Nat.lt_succ_self i, fun k hk hk' => ?_, hscan⟩
            rwa [show k = i by omega]
          · have hq := Bool.eq_false_iff.mpr hq
            have hnext : ScanFrom q (i + 1) none := Or.inr hq
            rw [ih (by omega) hnext]
            exact and_congr_right fun h => ⟨Nat.le_of_succ_le, fun hle => h.lt_start hle hq⟩
      | some s =>
          obtain ⟨hlt, hinside, hbefore⟩ := hscan
          rw [runsFrom, Option.getD_some]
          split_ifs with hq
          · refine ih (by omega) ⟨by omega, fun k hk hk' => ?_, hbefore⟩
            by_cases hki : k = i
            · rwa [hki]
            · exact hinside k hk (by omega)
          · -- the open run ends here
            have hq := Bool.eq_false_iff.mpr hq
            have hrun : IsMaxRun q n (s, i) := ⟨hlt, by simp only; omega, hinside, hbefore, .inr hq⟩
            have hnext : ScanFrom q (i + 1) none := Or.inr hq
            rw [List.mem_cons, ih (by omega) hnext, Option.getD_none]
            constructor
            · rintro (rfl | ⟨h, hle⟩)
              · exact ⟨hrun, le_rfl⟩
              · exact ⟨h, by omega⟩
            · rintro ⟨h, hle⟩
              by_cases hri : i ≤ r.1
              · exact .inr ⟨h, h.lt_start hri hq⟩
              · have hrlt := h.lt
                exact .inl (h.eq_of_overlap hrun (by simp only; omega) (by simp only; omega))

/-- The start of a scan without a run. -/
theorem scanFrom_zero : ScanFrom q 0 none := Or.inl rfl

/-- **The maximal runs** are what the scan from the first position finds. -/
theorem mem_maxRuns_iff {r : ℕ × ℕ} : r ∈ maxRuns q n ↔ IsMaxRun q n r := by
  rw [maxRuns, mem_runsFrom_iff (Nat.zero_add n) scanFrom_zero, Option.getD_none]
  exact and_iff_left (Nat.zero_le _)

/-- The scan finds the runs from left to right. -/
theorem runsFrom_pairwise {s : Option ℕ} {i m : ℕ} (him : i + m = n) (hscan : ScanFrom q i s) :
    (runsFrom q s i m).Pairwise fun r r' => r.2 < r'.1 := by
  induction m generalizing s i with
  | zero =>
      cases s with
      | none => exact .nil
      | some s => exact List.pairwise_singleton _ _
  | succ m ih =>
      cases s with
      | none =>
          rw [runsFrom]
          split_ifs with hq
          · refine ih (by omega) ⟨Nat.lt_succ_self i, fun k hk hk' => ?_, hscan⟩
            rwa [show k = i by omega]
          · exact ih (by omega) (Or.inr (Bool.eq_false_iff.mpr hq))
      | some s =>
          obtain ⟨hlt, hinside, hbefore⟩ := hscan
          rw [runsFrom]
          split_ifs with hq
          · refine ih (by omega) ⟨by omega, fun k hk hk' => ?_, hbefore⟩
            by_cases hki : k = i
            · rwa [hki]
            · exact hinside k hk (by omega)
          · have hnext : ScanFrom q (i + 1) none := Or.inr (Bool.eq_false_iff.mpr hq)
            refine List.pairwise_cons.mpr ⟨fun r hr => ?_, ih (by omega) hnext⟩
            exact ((mem_runsFrom_iff (show i + 1 + m = n by omega) hnext).mp hr).2

/-- **There is a gap** between any two maximal runs. -/
theorem maxRuns_pairwise (q : ℕ → Bool) (n : ℕ) :
    (maxRuns q n).Pairwise fun r r' => r.2 < r'.1 :=
  runsFrom_pairwise (Nat.zero_add n) scanFrom_zero

/-- The scan misses no position. -/
theorem exists_mem_runsFrom {s : Option ℕ} {i m x : ℕ} (him : i + m = n) (hx : s.getD i ≤ x)
    (hxn : x < n) (hq : q x = true) : ∃ r ∈ runsFrom q s i m, r.1 ≤ x ∧ x < r.2 := by
  induction m generalizing s i with
  | zero =>
      cases s with
      | none =>
          rw [Option.getD_none] at hx
          omega
      | some s => exact ⟨(s, i), List.mem_singleton_self _, hx, by simp only; omega⟩
  | succ m ih =>
      have hne (hqi : ¬ q i = true) : x ≠ i := fun h => hqi (h ▸ hq)
      cases s with
      | none =>
          rw [Option.getD_none] at hx
          rw [runsFrom]
          split_ifs with hqi
          · exact ih (by omega) hx
          · have hxi := hne hqi
            exact ih (by omega) (by rw [Option.getD_none]; omega)
      | some s =>
          rw [runsFrom]
          split_ifs with hqi
          · exact ih (by omega) hx
          · have hxi := hne hqi
            by_cases hlt : x < i
            · exact ⟨(s, i), List.mem_cons_self, hx, hlt⟩
            · obtain ⟨r, hr, hrx⟩ := @ih none (i + 1) (by omega) (by rw [Option.getD_none]; omega)
              exact ⟨r, List.mem_cons_of_mem _ hr, hrx⟩

/-- **Every position is in a maximal run.** -/
theorem exists_maxRun {x : ℕ} (hx : x < n) (hq : q x = true) :
    ∃ r ∈ maxRuns q n, r.1 ≤ x ∧ x < r.2 :=
  exists_mem_runsFrom (Nat.zero_add n) (Nat.zero_le x) hx hq

/-- The scan of a condition that holds at every second position. -/
theorem length_runsFrom_alternating {i m : ℕ}
    (hq : ∀ x, i ≤ x → x < i + 2 * m → q x = decide (x % 2 = i % 2)) :
    (runsFrom q none i (2 * m)).length = m := by
  induction m generalizing i with
  | zero => rfl
  | succ m ih =>
      have hon : q i = true := (hq i le_rfl (by omega)).trans (decide_eq_true rfl)
      have hoff : q (i + 1) = false :=
        (hq (i + 1) (by omega) (by omega)).trans (decide_eq_false (by omega))
      have hrest := ih fun x hx hxm => (hq x (by omega) (by omega)).trans
        (decide_eq_decide.mpr (show x % 2 = i % 2 ↔ x % 2 = (i + 1 + 1) % 2 by omega))
      have hsucc : 2 * (m + 1) = 2 * m + 1 + 1 := rfl
      rw [hsucc, runsFrom, if_pos hon, runsFrom, if_neg (Bool.eq_false_iff.mp hoff),
        List.length_cons, hrest]

/-! ## Cuts -/

/-- The pieces of the positions from one on, cut at both ends of every run. -/
def cuts (n : ℕ) : ℕ → List (ℕ × ℕ) → List (ℕ × ℕ)
  | next, [] => if next = n then [] else [(next, n)]
  | next, r :: rs => if next = r.1 then r :: cuts n r.2 rs else (next, r.1) :: r :: cuts n r.2 rs

/-- The runs lie one behind the other from a position on. -/
def Between (n : ℕ) : ℕ → List (ℕ × ℕ) → Prop
  | next, [] => next ≤ n
  | next, r :: rs => next ≤ r.1 ∧ r.1 < r.2 ∧ Between n r.2 rs

/-- Runs one behind the other do not reach behind the end. -/
theorem Between.le {rs : List (ℕ × ℕ)} {next : ℕ} (h : Between n next rs) : next ≤ n := by
  induction rs generalizing next with
  | nil => exact h
  | cons r rs ih => exact h.1.trans (h.2.1.le.trans (ih h.2.2))

/-- Maximal runs lie one behind the other. -/
theorem between_of_pairwise {rs : List (ℕ × ℕ)} {next : ℕ} (hn : next ≤ n)
    (hle : ∀ r ∈ rs, next ≤ r.1) (hrun : ∀ r ∈ rs, r.1 < r.2 ∧ r.2 ≤ n)
    (hpair : rs.Pairwise fun r r' => r.2 < r'.1) : Between n next rs := by
  induction rs generalizing next with
  | nil => exact hn
  | cons r rs ih =>
      obtain ⟨hgap, hpair⟩ := List.pairwise_cons.mp hpair
      have hr := hrun r List.mem_cons_self
      exact ⟨hle r List.mem_cons_self, hr.1, ih hr.2 (fun r' hr' => (hgap r' hr').le)
        (fun r' hr' => hrun r' (List.mem_cons_of_mem _ hr')) hpair⟩

/-- The maximal runs lie one behind the other. -/
theorem between_maxRuns (q : ℕ → Bool) (n : ℕ) : Between n 0 (maxRuns q n) :=
  between_of_pairwise (Nat.zero_le n) (fun _ _ => Nat.zero_le _)
    (fun _ hr => ⟨(mem_maxRuns_iff.mp hr).lt, (mem_maxRuns_iff.mp hr).le⟩) (maxRuns_pairwise q n)

/-- The first piece, and the runs that are left behind it. -/
def firstCut (n next : ℕ) : List (ℕ × ℕ) → (ℕ × ℕ) × List (ℕ × ℕ)
  | [] => ((next, n), [])
  | r :: rs => if next ≠ r.1 then ((next, r.1), r :: rs) else (r, rs)

/-- The pieces one by one. -/
theorem cuts_eq {rs : List (ℕ × ℕ)} {next : ℕ} (hne : next ≠ n) :
    cuts n next rs
      = (firstCut n next rs).1 :: cuts n (firstCut n next rs).1.2 (firstCut n next rs).2 := by
  cases rs with
  | nil => rw [cuts, if_neg hne, firstCut, cuts, if_pos rfl]
  | cons r rs =>
      rw [cuts, firstCut]
      by_cases heq : next = r.1
      · rw [if_pos heq, if_neg (not_not.mpr heq)]
      · rw [if_neg heq, if_pos heq, cuts, if_pos rfl]

/-- The end of the positions. -/
theorem cuts_end {rs : List (ℕ × ℕ)} (h : Between n n rs) : cuts n n rs = [] := by
  cases rs with
  | nil => exact if_pos rfl
  | cons r rs =>
      have hlt := h.2.1
      have hle := h.1.trans_lt (hlt.trans_le h.2.2.le)
      exact absurd hle (lt_irrefl n)

/-- What the first piece is, and what is left behind it. -/
theorem firstCut_spec {rs : List (ℕ × ℕ)} {next : ℕ} (h : Between n next rs) (hne : next ≠ n) :
    (firstCut n next rs).1.1 = next ∧ next < (firstCut n next rs).1.2
      ∧ Between n (firstCut n next rs).1.2 (firstCut n next rs).2 := by
  cases rs with
  | nil => exact ⟨rfl, Nat.lt_of_le_of_ne h hne, le_rfl⟩
  | cons r rs =>
      obtain ⟨hle, hlt, hrest⟩ := h
      rw [firstCut]
      split_ifs with heq
      · exact ⟨rfl, Nat.lt_of_le_of_ne hle heq, le_rfl, hlt, hrest⟩
      · exact ⟨(not_not.mp heq).symm, not_not.mp heq ▸ hlt, hrest⟩

/-- **Every position is in exactly one piece.** -/
theorem countP_cuts {rs : List (ℕ × ℕ)} {next : ℕ} (h : Between n next rs) (x : ℕ) :
    (cuts n next rs).countP (fun c => c.1 ≤ x ∧ x < c.2) = if next ≤ x ∧ x < n then 1 else 0 := by
  induction rs generalizing next with
  | nil =>
      rw [cuts]
      split_ifs with hn hx hx
      · omega
      · rfl
      · rw [List.countP_singleton, if_pos (decide_eq_true hx)]
      · rw [List.countP_singleton, if_neg (by rw [decide_eq_true_iff]; exact hx)]
  | cons r rs ih =>
      obtain ⟨hle, hlt, hrest⟩ := h
      have hn := hrest.le
      have hcount := ih hrest
      rw [cuts]
      split_ifs with heq hx hx
      all_goals
        simp only [List.countP_cons, hcount, decide_eq_true_eq]
        split_ifs <;> omega

/-- The pieces are not empty and lie before the end. -/
theorem lt_of_mem_cuts {rs : List (ℕ × ℕ)} {next : ℕ} (h : Between n next rs) {c : ℕ × ℕ}
    (hc : c ∈ cuts n next rs) : next ≤ c.1 ∧ c.1 < c.2 ∧ c.2 ≤ n := by
  induction rs generalizing next with
  | nil =>
      have hle : next ≤ n := h
      rw [cuts] at hc
      split_ifs at hc with hn
      · exact absurd hc List.not_mem_nil
      · rw [List.mem_singleton.mp hc]
        exact ⟨le_rfl, Nat.lt_of_le_of_ne hle hn, le_rfl⟩
  | cons r rs ih =>
      obtain ⟨hle, hlt, hrest⟩ := h
      have hn := hrest.le
      have htail (hc : c ∈ cuts n r.2 rs) : next ≤ c.1 ∧ c.1 < c.2 ∧ c.2 ≤ n := by
        obtain ⟨h₁, h₂, h₃⟩ := ih hrest hc
        exact ⟨by omega, h₂, h₃⟩
      rw [cuts] at hc
      split_ifs at hc with heq
      · rcases List.mem_cons.mp hc with rfl | hc
        · exact ⟨hle, hlt, hn⟩
        · exact htail hc
      · rcases List.mem_cons.mp hc with rfl | hc
        · exact ⟨le_rfl, Nat.lt_of_le_of_ne hle heq, by simp only; omega⟩
        rcases List.mem_cons.mp hc with rfl | hc
        · exact ⟨hle, hlt, hn⟩
        · exact htail hc

/-- The pieces lie one behind the other. -/
theorem cuts_pairwise {rs : List (ℕ × ℕ)} {next : ℕ} (h : Between n next rs) :
    (cuts n next rs).Pairwise fun c c' => c.2 ≤ c'.1 := by
  induction rs generalizing next with
  | nil =>
      rw [cuts]
      split_ifs
      · exact .nil
      · exact List.pairwise_singleton _ _
  | cons r rs ih =>
      obtain ⟨hle, hlt, hrest⟩ := h
      have htail : (r :: cuts n r.2 rs).Pairwise fun c c' => c.2 ≤ c'.1 :=
        List.pairwise_cons.mpr ⟨fun c hc => (lt_of_mem_cuts hrest hc).1, ih hrest⟩
      rw [cuts]
      split_ifs
      · exact htail
      · refine List.pairwise_cons.mpr ⟨fun c hc => ?_, htail⟩
        rcases List.mem_cons.mp hc with rfl | hc
        · exact le_rfl
        · exact hlt.le.trans (lt_of_mem_cuts hrest hc).1

/-- **The number of pieces**: the runs, the gaps between them, and what is before and behind. -/
theorem length_cuts {r : ℕ × ℕ} {rs : List (ℕ × ℕ)} (next : ℕ)
    (hpair : (r :: rs).Pairwise fun r r' => r.2 < r'.1) :
    (cuts n next (r :: rs)).length + 1 = 2 * (rs.length + 1) + (if next = r.1 then 0 else 1)
      + if ((r :: rs).getLast (List.cons_ne_nil r rs)).2 = n then 0 else 1 := by
  induction rs generalizing r next with
  | nil =>
      rw [List.getLast_singleton, cuts, cuts]
      split_ifs <;> rfl
  | cons r' rs ih =>
      obtain ⟨hgap, hpair⟩ := List.pairwise_cons.mp hpair
      have hne : r.2 ≠ r'.1 := (hgap r' List.mem_cons_self).ne
      have hrest := ih r.2 hpair
      rw [if_neg hne] at hrest
      rw [List.getLast_cons (List.cons_ne_nil r' rs), cuts, List.length_cons]
      split_ifs at hrest ⊢ <;> simp only [List.length_cons] at hrest ⊢ <;> omega

/-- The pieces behind a run are maximal runs of the condition or of its negation. -/
theorem isMaxRun_of_mem_cuts_from {rs : List (ℕ × ℕ)} {next : ℕ} (hn : next ≤ n)
    (hle : ∀ r ∈ rs, next ≤ r.1) (hrun : ∀ r ∈ rs, IsMaxRun q n r)
    (hpair : rs.Pairwise fun r r' => r.2 < r'.1)
    (hall : ∀ x, next ≤ x → x < n → q x = true → ∃ r ∈ rs, r.1 ≤ x ∧ x < r.2)
    (hbefore : next = 0 ∨ q (next - 1) = true) {c : ℕ × ℕ} (hc : c ∈ cuts n next rs) :
    IsMaxRun q n c ∨ IsMaxRun (fun x => !q x) n c := by
  have hnot (hbefore : next = 0 ∨ q (next - 1) = true) :
      next = 0 ∨ (!q (next - 1)) = false := hbefore.imp_right fun h => by rw [h]; rfl
  induction rs generalizing next with
  | nil =>
      rw [cuts] at hc
      split_ifs at hc with heq
      · exact absurd hc List.not_mem_nil
      · obtain rfl := List.mem_singleton.mp hc
        refine .inr ⟨Nat.lt_of_le_of_ne hn heq, le_rfl, fun x hx hxn => ?_, hnot hbefore, .inl rfl⟩
        rw [Bool.not_eq_true']
        refine Bool.eq_false_iff.mpr fun hq => ?_
        obtain ⟨r, hr, _⟩ := hall x hx hxn hq
        exact absurd hr List.not_mem_nil
  | cons r rs ih =>
      obtain ⟨hgap, hpair⟩ := List.pairwise_cons.mp hpair
      have hr := hrun r List.mem_cons_self
      have hlt := hr.lt
      have htail (hc : c ∈ cuts n r.2 rs) : IsMaxRun q n c ∨ IsMaxRun (fun x => !q x) n c := by
        have hlast : r.2 = 0 ∨ q (r.2 - 1) = true := .inr (hr.inside _ (by omega) (by omega))
        refine ih hr.le (fun r' hr' => (hgap r' hr').le)
          (fun r' hr' => hrun r' (List.mem_cons_of_mem _ hr')) hpair (fun x hx hxn hq => ?_) hlast
          hc (Or.imp_right fun h => by rw [h]; rfl)
        have hstart := hle r List.mem_cons_self
        obtain ⟨r', hr', hx'⟩ := hall x (by omega) hxn hq
        rcases List.mem_cons.mp hr' with rfl | hr'
        · omega
        · exact ⟨r', hr', hx'⟩
      rw [cuts] at hc
      split_ifs at hc with heq
      · rcases List.mem_cons.mp hc with rfl | hc
        · exact .inl hr
        · exact htail hc
      · rcases List.mem_cons.mp hc with rfl | hc
        · -- the piece between two runs
          refine .inr ⟨Nat.lt_of_le_of_ne (hle r List.mem_cons_self) heq, hlt.le.trans hr.le,
            fun x hx hxr => ?_, hnot hbefore, .inr ?_⟩
          · rw [Bool.not_eq_true']
            refine Bool.eq_false_iff.mpr fun hq => ?_
            have hrn := hr.le
            simp only at hx hxr
            obtain ⟨r', hr', hx'⟩ := hall x hx (by omega) hq
            rcases List.mem_cons.mp hr' with rfl | hr'
            · omega
            · have hgap' := hgap r' hr'
              omega
          · rw [Bool.not_eq_false']
            exact hr.inside r.1 le_rfl hlt
        rcases List.mem_cons.mp hc with rfl | hc
        · exact .inl hr
        · exact htail hc

/-- **The pieces are maximal runs** of positions where the condition holds, or where it fails. -/
theorem isMaxRun_of_mem_cuts {c : ℕ × ℕ} (hc : c ∈ cuts n 0 (maxRuns q n)) :
    IsMaxRun q n c ∨ IsMaxRun (fun x => !q x) n c :=
  isMaxRun_of_mem_cuts_from (Nat.zero_le n) (fun _ _ => Nat.zero_le _)
    (fun _ hr => mem_maxRuns_iff.mp hr) (maxRuns_pairwise q n)
    (fun _ _ hx hq => exists_maxRun hx hq) (.inl rfl) hc

end AndroidSdk.Lib
