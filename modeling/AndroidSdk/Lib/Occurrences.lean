import Mathlib.Data.List.Perm.Lattice
import Mathlib.Data.List.Nodup
import AndroidSdk.Lib.Dict

/-! # Occurrences of keys in a list

Lists in which several items have the same key.

* **`countRuns`** — the runs of equal items with their lengths, as `uniq -c` counts them;
  `mem_countRuns_iff` is what it says about a sorted list.
* **`occurrences`** — each item with its number among the items of its key; `perm_occurrences`
  arranges them key by key.
* **`Dict.lookup_fill`** — a dictionary filled from the list holds the last item of each key. -/

namespace AndroidSdk.Lib

variable {α κ : Type} [DecidableEq α] [DecidableEq κ]

/-! ## Runs -/

/-- The runs of equal items, each with its length. -/
def countRuns : List α → List (ℕ × α)
  | [] => []
  | x :: l =>
      match countRuns l with
      | [] => [(1, x)]
      | (n, y) :: runs => if x = y then (n + 1, y) :: runs else (1, x) :: (n, y) :: runs

/-- The first run is one of the first item. -/
theorem countRuns_cons (x : α) (l : List α) : ∃ n runs, countRuns (x :: l) = (n, x) :: runs := by
  rw [countRuns]
  cases countRuns l with
  | nil => exact ⟨1, [], rfl⟩
  | cons run runs =>
      obtain ⟨n, y⟩ := run
      dsimp only
      split_ifs with h
      · exact ⟨n + 1, runs, by rw [h]⟩
      · exact ⟨1, (n, y) :: runs, rfl⟩

/-- The items of runs are those of the list. -/
theorem mem_map_countRuns_iff (l : List α) (x : α) : x ∈ (countRuns l).map Prod.snd ↔ x ∈ l := by
  induction l with
  | nil => rfl
  | cons y l ih =>
      rw [List.mem_cons, ← ih, countRuns]
      cases hruns : countRuns l with
      | nil => simp
      | cons run runs =>
          obtain ⟨n, z⟩ := run
          dsimp only
          split_ifs with h
          · simp [h]
          · simp

section

variable {r : α → α → Prop}

/-- **The runs of a sorted list** have different items, with the number of their occurrences. -/
theorem countRuns_of_pairwise (hanti : ∀ a b, r a b → r b a → a = b) {l : List α}
    (h : l.Pairwise r) : ((countRuns l).map Prod.snd).Nodup
      ∧ ∀ run ∈ countRuns l, run.1 = l.count run.2 := by
  induction l with
  | nil => exact ⟨List.nodup_nil, fun run hrun => nomatch hrun⟩
  | cons x l ih =>
      obtain ⟨hx, hl⟩ := List.pairwise_cons.mp h
      obtain ⟨hnodup, hcounts⟩ := ih hl
      cases l with
      | nil => simp [countRuns]
      | cons y l =>
          obtain ⟨n, runs, hruns⟩ := countRuns_cons y l
          rw [hruns, List.map_cons, List.nodup_cons] at hnodup
          rw [hruns] at hcounts
          obtain ⟨hfirst, hrest⟩ := List.forall_mem_cons.mp hcounts
          dsimp only at hfirst
          have hmem : ∀ z, z ∈ (countRuns (y :: l)).map Prod.snd ↔ z ∈ y :: l :=
            mem_map_countRuns_iff (y :: l)
          rw [hruns] at hmem
          by_cases hxy : x = y
          · -- the first run becomes longer
            subst hxy
            have hlonger : countRuns (x :: x :: l) = (n + 1, x) :: runs := by
              rw [countRuns, hruns]
              exact if_pos rfl
            rw [hlonger]
            refine ⟨List.nodup_cons.mpr hnodup, List.forall_mem_cons.mpr ⟨?_, fun run hrun => ?_⟩⟩
            · rw [List.count_cons_self, hfirst]
            · have hne : run.2 ≠ x := fun heq => hnodup.1 (List.mem_map.mpr ⟨run, hrun, heq⟩)
              rw [List.count_cons_of_ne hne.symm]
              exact hrest run hrun
          · -- the item does not occur later
            have hnew : countRuns (x :: y :: l) = (1, x) :: (n, y) :: runs := by
              rw [countRuns, hruns]
              exact if_neg hxy
            have hnot : x ∉ y :: l := by
              intro hin
              rcases List.mem_cons.mp hin with heq | hin
              · exact hxy heq
              · have hyx := (List.pairwise_cons.mp hl).1 x hin
                exact hxy (hanti x y (hx y List.mem_cons_self) hyx)
            rw [hnew]
            refine ⟨List.nodup_cons.mpr ⟨fun hin => hnot ((hmem x).mp hin),
              List.nodup_cons.mpr hnodup⟩, List.forall_mem_cons.mpr ⟨?_, fun run hrun => ?_⟩⟩
            · rw [List.count_cons_self, List.count_eq_zero.mpr hnot]
            · have hne : run.2 ≠ x := fun heq =>
                hnot ((hmem x).mp (heq ▸ List.mem_map_of_mem hrun))
              rw [List.count_cons_of_ne hne.symm]
              exact hcounts run hrun

end

/-! ## Numbered items -/

omit [DecidableEq α] in
/-- A list, key by key. -/
theorem perm_flatMap_filter {key : α → κ} {keys : List κ} (hnodup : keys.Nodup) {l : List α}
    (h : ∀ x ∈ l, key x ∈ keys) : l.Perm (keys.flatMap fun k => l.filter (key · = k)) := by
  induction keys generalizing l with
  | nil =>
      rw [List.eq_nil_iff_forall_not_mem.mpr fun x hx => List.not_mem_nil (h x hx)]
      exact List.Perm.refl _
  | cons k keys ih =>
      obtain ⟨hk, hkeys⟩ := List.nodup_cons.mp hnodup
      have hrest := @ih hkeys (l.filter fun x => !decide (key x = k)) fun x hx => by
        obtain ⟨hx, hne⟩ := List.mem_filter.mp hx
        exact (List.mem_cons.mp (h x hx)).resolve_left (by simpa using hne)
      have hsame : (keys.flatMap fun k' =>
          (l.filter fun x => !decide (key x = k)).filter (key · = k'))
            = keys.flatMap fun k' => l.filter (key · = k') := by
        refine List.flatMap_congr fun k' hk' => ?_
        have hne : k' ≠ k := fun heq => hk (heq ▸ hk')
        rw [List.filter_filter]
        refine List.filter_congr fun x _ => ?_
        by_cases hx : key x = k'
        · simp [hx, hne]
        · simp [hx]
      rw [hsame] at hrest
      rw [List.flatMap_cons]
      exact (List.filter_append_perm (fun x => decide (key x = k)) l).symm.trans
        (hrest.append_left _)

/-- Each item with its number among the items of its key, after items with other keys. -/
def occurrencesAfter (key : α → κ) (before : List κ) : List α → List (α × ℕ)
  | [] => []
  | x :: l => (x, before.count (key x) + 1) :: occurrencesAfter key (key x :: before) l

/-- Each item with its number among the items of its key. -/
def occurrences (key : α → κ) (l : List α) : List (α × ℕ) := occurrencesAfter key [] l

omit [DecidableEq α] in
/-- The items stay. -/
theorem map_occurrencesAfter (key : α → κ) (before : List κ) (l : List α) :
    (occurrencesAfter key before l).map Prod.fst = l := by
  induction l generalizing before with
  | nil => rfl
  | cons x l ih => rw [occurrencesAfter, List.map_cons, ih]

omit [DecidableEq α] in
/-- The items of one key are numbered in their order. -/
theorem filter_occurrencesAfter (key : α → κ) (before : List κ) (l : List α) (k : κ) :
    (occurrencesAfter key before l).filter (key ·.1 = k)
      = (l.filter (key · = k)).zipIdx (before.count k + 1) := by
  induction l generalizing before with
  | nil => rfl
  | cons x l ih =>
      rw [occurrencesAfter]
      by_cases hx : key x = k
      · rw [List.filter_cons_of_pos (by simpa using hx), List.filter_cons_of_pos (by simpa using hx),
          ih, hx, List.count_cons_self, List.zipIdx_cons]
      · rw [List.filter_cons_of_neg (by simpa using hx), List.filter_cons_of_neg (by simpa using hx),
          ih, List.count_cons_of_ne hx]

omit [DecidableEq α] in
/-- **Numbered items, key by key.** -/
theorem perm_occurrences {key : α → κ} {keys : List κ} (hnodup : keys.Nodup) {l : List α}
    (h : ∀ x ∈ l, key x ∈ keys) :
    (occurrences key l).Perm (keys.flatMap fun k => (l.filter (key · = k)).zipIdx 1) := by
  have hkeys : ∀ e ∈ occurrences key l, key e.1 ∈ keys := by
    intro e he
    refine h e.1 ?_
    rw [← map_occurrencesAfter key [] l]
    exact List.mem_map_of_mem he
  refine (perm_flatMap_filter hnodup hkeys).trans (List.Perm.of_eq ?_)
  exact List.flatMap_congr fun k _ => filter_occurrencesAfter key [] l k

omit [DecidableEq α] in
/-- The items of a part of a list, looked up by their numbers. -/
theorem flatMap_getElem?_range' {β : Type} (f : α → ℕ → β) (before l after : List α) :
    (List.range' (before.length + 1) l.length).flatMap
        (fun i => (((before ++ (l ++ after))[i - 1]?).map (f · i)).toList)
      = (l.zipIdx (before.length + 1)).map fun e => f e.1 e.2 := by
  induction l generalizing before with
  | nil => rfl
  | cons x l ih =>
      have hhere : (before ++ (x :: l ++ after))[before.length + 1 - 1]? = some x := by
        rw [Nat.add_sub_cancel, List.getElem?_append_right (Nat.le_refl _), Nat.sub_self]
        rfl
      have hrest := ih (before ++ [x])
      rw [List.length_append, List.length_singleton, List.append_assoc] at hrest
      rw [List.length_cons, List.range'_succ, List.flatMap_cons, hhere, List.zipIdx_cons,
        List.map_cons, ← hrest]
      rfl

/-! ## The last occurrence -/

/-- **A dictionary that is filled from a list holds the last value of each key.** -/
theorem Dict.lookup_fill {β : Type} (d : Dict κ β) (l : List (κ × β)) (k : κ) :
    (d.fill l).lookup k = (((l.filter (·.1 = k)).getLast?).map Prod.snd).or (d.lookup k) := by
  induction l generalizing d with
  | nil => rfl
  | cons e l ih =>
      rw [show d.fill (e :: l) = Dict.fill (d.insert e.1 e.2) l from rfl, ih, Dict.lookup_insert]
      by_cases he : e.1 = k
      · rw [List.filter_cons_of_pos (by simpa using he), if_pos he.symm, List.getLast?_cons]
        cases (l.filter (·.1 = k)).getLast? with
        | none => rfl
        | some e' => rfl
      · rw [List.filter_cons_of_neg (by simpa using he), if_neg (Ne.symm he)]

/-- The entries of a dictionary, key by key. -/
theorem Dict.map_entries {β γ : Type} (d : Dict κ β) (f : κ → β → γ) :
    d.entries.map (fun e => f e.1 e.2)
      = d.keys.flatMap fun k => (d.lookup k).toList.map (f k) := by
  rw [AList.keys, List.keys, List.flatMap_map, List.map_eq_flatMap]
  refine List.flatMap_congr fun e he => ?_
  have hvalue : d.lookup e.1 = some e.2 := AList.mem_lookup_iff.mpr he
  rw [hvalue]
  rfl

end AndroidSdk.Lib
