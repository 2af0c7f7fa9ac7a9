import Mathlib.Data.List.AList

/-! # Dictionaries filled from a list

A dictionary that is filled entry by entry from a list with distinct keys holds exactly the entries
of the list; a dictionary that refuses a second value for a key can only be filled from such a list.
The dictionaries are Mathlib's association lists without duplicate keys. -/

namespace AndroidSdk.Lib

universe u v

variable {α : Type u} {β : Type v} [DecidableEq α]

/-- A dictionary from keys to values of one type. -/
abbrev Dict (α : Type u) (β : Type v) := AList fun _ : α => β

/-- The keys of a dictionary are those that have a value. -/
theorem Dict.mem_keys_iff (d : Dict α β) (k : α) : k ∈ d.keys ↔ ∃ v, d.lookup k = some v := by
  rw [← AList.mem_keys, ← AList.lookup_isSome, Option.isSome_iff_exists]

/-- The value under a key after an assignment. -/
theorem Dict.lookup_insert (d : Dict α β) (k k' : α) (v : β) :
    AList.lookup k (d.insert k' v) = if k = k' then some v else d.lookup k := by
  split_ifs with h
  · rw [h, AList.lookup_insert]
  · rw [AList.lookup_insert_ne h]

/-- The dictionary that results from assigning the entries of a list in turn. -/
def Dict.fill (d : Dict α β) (l : List (α × β)) : Dict α β :=
  l.foldl (fun d e => d.insert e.1 e.2) d

/-- **A dictionary filled from a list with distinct keys holds exactly the entries of the list**,
besides those it held before under other keys. -/
theorem Dict.lookup_fill_eq_some_iff (d : Dict α β) {l : List (α × β)} (h : (l.map Prod.fst).Nodup)
    (k : α) (v : β) :
    (d.fill l).lookup k = some v ↔ (k, v) ∈ l ∨ (k ∉ l.map Prod.fst ∧ d.lookup k = some v) := by
  induction l generalizing d with
  | nil => simp [Dict.fill]
  | cons e l ih =>
      obtain ⟨k', v'⟩ := e
      rw [List.map_cons, List.nodup_cons] at h
      have hstep := ih (d.insert k' v') h.2
      rw [show d.fill ((k', v') :: l) = Dict.fill (d.insert k' v') l from rfl, hstep]
      by_cases hk : k = k'
      · subst hk
        have hnot : (k, v) ∉ l := fun hm => h.1 (List.mem_map.mpr ⟨_, hm, rfl⟩)
        simp only [AList.lookup_insert, Option.some.injEq, List.mem_cons, Prod.mk.injEq, true_and,
          hnot, or_false, false_or, List.map_cons, true_or, not_true, false_and]
        constructor
        · rintro ⟨-, rfl⟩
          rfl
        · rintro rfl
          exact ⟨h.1, rfl⟩
      · simp [AList.lookup_insert_ne hk, hk]

/-- Assign a key that has no value yet; a key that has one is an error. -/
def Dict.insertNew {ε : Type*} (collision : α → ε) (d : Dict α β) (e : α × β) :
    Except ε (Dict α β) :=
  if e.1 ∈ d then .error (collision e.1) else .ok (d.insert e.1 e.2)

/-- **Filling a dictionary without collisions**: if assigning the entries of a list in turn meets no
collision, then the keys of the list are distinct and the entries have been assigned. -/
theorem Dict.foldlM_insertNew {ε : Type*} {collision : α → ε} {d d' : Dict α β} {l : List (α × β)}
    (h : l.foldlM (Dict.insertNew collision) d = .ok d') :
    (l.map Prod.fst).Nodup ∧ (∀ k ∈ l.map Prod.fst, k ∉ d) ∧ d' = d.fill l := by
  induction l generalizing d with
  | nil =>
      have hd : d = d' := by simpa [pure, Except.pure] using h
      simp [Dict.fill, hd]
  | cons e l ih =>
      rw [List.foldlM_cons, Dict.insertNew] at h
      by_cases he : e.1 ∈ d
      · simp [he, bind, Except.bind] at h
      · rw [if_neg he] at h
        obtain ⟨hnodup, hnew, hd'⟩ := ih h
        have hnot : e.1 ∉ l.map Prod.fst := fun hin => hnew _ hin (by simp)
        refine ⟨?_, fun k hk => ?_, hd'⟩
        · rw [List.map_cons]
          exact List.nodup_cons.mpr ⟨hnot, hnodup⟩
        · rcases List.mem_cons.mp hk with rfl | hk
          · exact he
          · exact fun hin => hnew k hk (by simp [hin])

/-- **Distinct keys meet no collision.** -/
theorem Dict.exists_foldlM_insertNew {ε : Type*} {collision : α → ε} {d : Dict α β}
    {l : List (α × β)} (h : (l.map Prod.fst).Nodup) (hnew : ∀ k ∈ l.map Prod.fst, k ∉ d) :
    ∃ d', l.foldlM (Dict.insertNew collision) d = .ok d' := by
  induction l generalizing d with
  | nil => exact ⟨d, rfl⟩
  | cons e l ih =>
      rw [List.map_cons, List.nodup_cons] at h
      rw [List.foldlM_cons, Dict.insertNew, if_neg (hnew e.1 (by simp))]
      refine ih h.2 fun k hk hin => ?_
      rcases (AList.mem_insert _).mp hin with rfl | hin
      · exact h.1 hk
      · exact hnew k (List.mem_cons_of_mem _ hk) hin

omit [DecidableEq α] in
/-- With distinct keys, an association list gives each of its pairs. -/
theorem list_lookup_eq_some_iff [BEq α] [LawfulBEq α] {l : List (α × β)}
    (h : (l.map Prod.fst).Nodup) (k : α) (v : β) : l.lookup k = some v ↔ (k, v) ∈ l := by
  induction l with
  | nil => simp
  | cons e l ih =>
      obtain ⟨k', v'⟩ := e
      rw [List.map_cons, List.nodup_cons] at h
      by_cases hk : k = k'
      · subst hk
        have hnot : (k, v) ∉ l := fun hm => h.1 (List.mem_map.mpr ⟨_, hm, rfl⟩)
        simp [hnot, eq_comm]
      · have hb : (k == k') = false := by simpa using hk
        simp [List.lookup_cons, hb, ih h.2, hk]

omit [DecidableEq α] in
/-- Entries computed from a list under distinct keys, some of them left out, have distinct keys. -/
theorem nodup_keys_filterMap {γ : Type*} {key : γ → α} (value : γ → Option β) {l : List γ}
    (h : (l.map key).Nodup) :
    ((l.filterMap fun c => (value c).map (key c, ·)).map Prod.fst).Nodup := by
  refine List.pairwise_map.mpr (List.Pairwise.filterMap _ ?_ (List.pairwise_map.mp h))
  intro c c' hne e he e' he'
  obtain ⟨v, -, rfl⟩ := Option.map_eq_some_iff.mp he
  obtain ⟨v', -, rfl⟩ := Option.map_eq_some_iff.mp he'
  exact hne

end AndroidSdk.Lib
