import Mathlib.Data.List.SplitBy
import AndroidSdk.Lib.BinarySearch

/-! # Ranges of items with one key

The loop that looks one item ahead to find the end of a range, and what the ranges are in a sorted
vector.

* **`rangesLoop`** — the loop: it collects a range until the next item differs from the first one.
* **`rangesLoop_eq`** — it takes the pieces of `List.splitBy` one after another.
* **`filter_of_mem_splitBy`** — in a sorted vector each piece holds all items with its key. -/

namespace AndroidSdk.Lib

open Std

variable {α σ κ : Type}

/-! ## The loop -/

/-- Whether a range ends here: nothing follows, or what follows differs from its first item. -/
def rangeEnds (same : α → α → Bool) : List α → List α → Bool
  | start :: _, next :: _ => !same start next
  | _, _ => true

/-- Take the items of a list one by one into a range, and act on each range at its end. -/
def rangesLoop (same : α → α → Bool) (step : σ → List α → σ) (s : σ) (range : List α) :
    List α → σ
  | [] => s
  | v :: rest =>
      if rangeEnds same (range ++ [v]) rest then
        rangesLoop same step (step s (range ++ [v])) [] rest
      else rangesLoop same step s (range ++ [v]) rest

section Loop

variable {same : α → α → Bool} {step : σ → List α → σ}

/-- Items that are all the same are one piece. -/
theorem splitBy_of_same (hsame : Equivalence fun a b => same a b = true) {u : α} {l : List α}
    (hne : l ≠ []) (h : ∀ v ∈ l, same u v = true) : l.splitBy same = [l] := by
  have hpair : l.Pairwise fun a b => same a b = true :=
    List.Pairwise.imp_of_mem
      (fun {a b} ha hb _ => hsame.trans (hsame.symm (h a ha)) (h b hb))
      (List.pairwise_of_forall fun _ _ => trivial : l.Pairwise fun _ _ => True)
  exact List.splitBy_of_isChain hne hpair.isChain

/-- The loop, in the middle of a range whose items are the same. -/
theorem rangesLoop_eq_foldl (hsame : Equivalence fun a b => same a b = true) (s : σ)
    {range : List α} {v : α} (rest : List α) (hrange : ∀ u ∈ range ++ [v], same v u = true) :
    rangesLoop same step s range (v :: rest)
      = ((range ++ v :: rest).splitBy same).foldl step s := by
  induction rest generalizing s range v with
  | nil =>
      have hends : rangeEnds same (range ++ [v]) [] = true := by
        cases range <;> rfl
      rw [rangesLoop, if_pos hends, rangesLoop, splitBy_of_same hsame (by simp) hrange,
        List.foldl_cons, List.foldl_nil]
  | cons w rest ih =>
      -- the range starts with an item that is the same as `v`
      obtain ⟨start, hstart, hends⟩ : ∃ start, same v start = true ∧
          rangeEnds same (range ++ [v]) (w :: rest) = !same start w := by
        cases range with
        | nil => exact ⟨v, hrange v (by simp), rfl⟩
        | cons start range => exact ⟨start, hrange start (by simp), rfl⟩
      rw [rangesLoop, hends]
      by_cases hw : same start w = true
      · have hwv : same w v = true := hsame.symm (hsame.trans hstart hw)
        have hrange' : ∀ u ∈ range ++ [v] ++ [w], same w u = true := by
          intro u hu
          rcases List.mem_append.mp hu with hu | hu
          · exact hsame.trans hwv (hrange u hu)
          · obtain rfl := List.mem_singleton.mp hu
            exact hsame.refl u
        rw [hw, Bool.not_true, if_neg Bool.false_ne_true, ih s hrange', ← List.append_cons]
      · have hvw : same v w = false := by
          rw [Bool.eq_false_iff]
          exact fun h => hw (hsame.trans (hsame.symm hstart) h)
        have hlast : ∀ x ∈ (range ++ [v]).getLast?, same x w = false := by
          simp [hvw]
        rw [Bool.not_eq_true] at hw
        rw [hw, Bool.not_false, if_pos rfl, ih _ (by simp [hsame.refl w]),
          List.append_cons range v (w :: rest), List.splitBy_append_cons rest hlast,
          splitBy_of_same hsame (by simp) hrange]
        rfl

/-- **The loop takes the pieces of the list one after another.** -/
theorem rangesLoop_eq (hsame : Equivalence fun a b => same a b = true) (s : σ) (l : List α) :
    rangesLoop same step s [] l = (l.splitBy same).foldl step s := by
  cases l with
  | nil => rfl
  | cons v rest => exact rangesLoop_eq_foldl hsame s rest (by simp [hsame.refl v])

end Loop

/-! ## Ranges of a sorted vector -/

section Sorted

variable {cmp : κ → κ → Ordering} {key : α → κ}

/-- Items whose keys compare equal. -/
def sameKey (cmp : κ → κ → Ordering) (key : α → κ) (a b : α) : Bool := cmp (key a) (key b) == .eq

@[simp]
theorem sameKey_eq_true_iff {a b : α} : sameKey cmp key a b = true ↔ cmp (key a) (key b) = .eq :=
  beq_iff_eq

/-- Having keys that compare equal is an equivalence. -/
theorem sameKey_equivalence (cmp : κ → κ → Ordering) [TransCmp cmp] (key : α → κ) :
    Equivalence fun a b => sameKey cmp key a b = true where
  refl _ := sameKey_eq_true_iff.mpr ReflCmp.compare_self
  symm h := sameKey_eq_true_iff.mpr (OrientedCmp.eq_symm (sameKey_eq_true_iff.mp h))
  trans h h' := sameKey_eq_true_iff.mpr
    (TransCmp.eq_trans (sameKey_eq_true_iff.mp h) (sameKey_eq_true_iff.mp h'))

/-- Behind the first items with one key, a sorted vector has only greater keys. -/
theorem SortedBy.lt_of_mem_dropWhile [TransCmp cmp] {v w : α} {l : List α}
    (h : SortedBy cmp key (v :: l)) (hw : w ∈ l.dropWhile (sameKey cmp key v)) :
    cmp (key v) (key w) = .lt := by
  induction l with
  | nil => cases hw
  | cons u l ih =>
      obtain ⟨hv, hul⟩ := List.pairwise_cons.mp h
      obtain ⟨hu, hl⟩ := List.pairwise_cons.mp hul
      by_cases hsame : sameKey cmp key v u = true
      · rw [List.dropWhile_cons_of_pos hsame] at hw
        exact ih (List.pairwise_cons.mpr ⟨fun x hx => hv x (List.mem_cons_of_mem u hx), hl⟩) hw
      · rw [List.dropWhile_cons_of_neg hsame] at hw
        have hlt : cmp (key v) (key u) = .lt := by
          have hle := hv u List.mem_cons_self
          rw [sameKey_eq_true_iff] at hsame
          cases hcmp : cmp (key v) (key u) with
          | lt => rfl
          | eq => exact absurd hcmp hsame
          | gt => rw [hcmp] at hle; cases hle
        rcases List.mem_cons.mp hw with rfl | hw
        · exact hlt
        · exact TransCmp.lt_of_lt_of_isLE hlt (hu w hw)

/-- **Each piece of a sorted vector holds all items with its key.** -/
theorem filter_of_mem_splitBy [TransCmp cmp] {l : List α} (h : SortedBy cmp key l) {r : List α}
    (hr : r ∈ l.splitBy (sameKey cmp key)) {v : α} (hv : v ∈ r) :
    l.filter (sameKey cmp key v) = r := by
  induction hn : l.length using Nat.strong_induction_on generalizing l with
  | _ n ih =>
      cases l with
      | nil => cases hr
      | cons u l =>
          have hsame := sameKey_equivalence cmp key
          -- the first piece, and what is behind it
          set p := sameKey cmp key u
          have hrun : ∀ w ∈ u :: l.takeWhile p, sameKey cmp key u w = true := by
            intro w hw
            rcases List.mem_cons.mp hw with rfl | hw
            · exact hsame.refl w
            · exact List.mem_takeWhile_imp hw
          have hrest : ∀ w ∈ l.dropWhile p, cmp (key u) (key w) = .lt :=
            fun w hw => h.lt_of_mem_dropWhile hw
          have hlist : u :: l = (u :: l.takeWhile p) ++ l.dropWhile p := by
            rw [List.cons_append, List.takeWhile_append_dropWhile]
          have hother : ∀ w ∈ u :: l.takeWhile p, ∀ x ∈ l.dropWhile p,
              sameKey cmp key w x = false := by
            intro w hw x hx
            rw [Bool.eq_false_iff]
            intro hwx
            have hux := sameKey_eq_true_iff.mp (hsame.trans (hrun w hw) hwx)
            rw [hrest x hx] at hux
            cases hux
          have hsplit : (u :: l).splitBy (sameKey cmp key)
              = (u :: l.takeWhile p) :: (l.dropWhile p).splitBy (sameKey cmp key) := by
            rw [hlist, List.splitBy_append fun x hx y hy => hother x
              (List.mem_of_mem_getLast? hx) y (List.mem_of_mem_head? hy),
              splitBy_of_same hsame (by simp) hrun]
            rfl
          rw [hsplit] at hr
          rw [hlist, List.filter_append]
          rcases List.mem_cons.mp hr with rfl | hr
          · have hall : ∀ w ∈ u :: l.takeWhile p, sameKey cmp key v w = true :=
              fun w hw => hsame.trans (hsame.symm (hrun v hv)) (hrun w hw)
            rw [List.filter_eq_self.mpr hall,
              List.filter_eq_nil_iff.mpr fun w hw => by simp [hother v hv w hw], List.append_nil]
          · have hsub : SortedBy cmp key (l.dropWhile p) :=
              (List.pairwise_cons.mp h).2.sublist (List.dropWhile_sublist p)
            have hlen : (l.dropWhile p).length < n := by
              have := (List.dropWhile_sublist p (l := l)).length_le
              rw [← hn, List.length_cons]
              omega
            have hmem : v ∈ l.dropWhile p := by
              rw [← List.flatten_splitBy (sameKey cmp key) (l.dropWhile p)]
              exact List.mem_flatten.mpr ⟨r, hr, hv⟩
            rw [ih _ hlen hsub hr rfl, List.filter_eq_nil_iff.mpr, List.nil_append]
            intro w hw hvw
            have hwv := hother w hw v hmem
            rw [hsame.symm hvw] at hwv
            cases hwv

end Sorted

end AndroidSdk.Lib
