import Mathlib.Tactic.SplitIfs
import AndroidSdk.Lib.Text

/-! # Components of a text

Texts made of components with a separator between them, as paths are, and what the operations on
texts do to them component by component.

* **`prefix_intercalate_iff`**, **`suffix_intercalate_iff`**, **`infix_intercalate_iff`** — finding
  whole components at the start, at the end and inside of a text.
* **`replaceAll_intercalate`** — replacing a text without separator works on each component.
* **`replaceAll_pair`** — replacing a component behind another one, separators included:
  `replacePairs`, which in a row of such pairs passes over every second one (`renameRuns`). -/

namespace AndroidSdk.Lib

universe u

variable {α : Type u} [DecidableEq α] {sep : α}

/-- No component holds the separator. -/
def SepFree (sep : α) (parts : List (List α)) : Prop := ∀ part ∈ parts, sep ∉ part

omit [DecidableEq α] in
@[simp] theorem sepFree_nil : SepFree sep ([] : List (List α)) := by simp [SepFree]

omit [DecidableEq α] in
@[simp] theorem sepFree_cons {part : List α} {parts : List (List α)} :
    SepFree sep (part :: parts) ↔ sep ∉ part ∧ SepFree sep parts := by simp [SepFree]

omit [DecidableEq α] in
@[simp] theorem sepFree_append {parts rest : List (List α)} :
    SepFree sep (parts ++ rest) ↔ SepFree sep parts ∧ SepFree sep rest := by
  simp [SepFree, or_imp, forall_and]

/-- The pieces between separators hold no separator. -/
theorem sepFree_splitOn (sep : α) (l : List α) : SepFree sep (l.splitOn sep) := by
  induction l with
  | nil => simp
  | cons c l ih =>
      rw [List.splitOn_cons_eq_if_modifyHead]
      split_ifs with hc
      · exact sepFree_cons.mpr ⟨List.not_mem_nil, ih⟩
      · obtain ⟨first, others, hsplit⟩ := List.exists_cons_of_ne_nil (List.splitOn_ne_nil sep l)
        rw [hsplit, sepFree_cons] at ih
        rw [hsplit, List.modifyHead_cons, sepFree_cons, List.mem_cons, not_or]
        exact ⟨⟨fun heq => hc (beq_iff_eq.mpr heq.symm), ih.1⟩, ih.2⟩

/-! ## Finding components -/

omit [DecidableEq α] in
/-- Two lists of components with the separator between their texts. -/
theorem intercalate_append {parts rest : List (List α)} (hparts : parts ≠ []) (hrest : rest ≠ []) :
    [sep].intercalate (parts ++ rest)
      = [sep].intercalate parts ++ sep :: [sep].intercalate rest := by
  induction parts with
  | nil => exact absurd rfl hparts
  | cons part parts ih =>
      by_cases hnil : parts = []
      · subst hnil
        rw [List.singleton_append, List.intercalate_cons_of_ne_nil hrest,
          List.intercalate_singleton]
        simp
      · rw [List.cons_append, List.intercalate_cons_of_ne_nil (by simp [hnil]),
          List.intercalate_cons_of_ne_nil hnil, ih hnil]
        simp

/-- Where a text of components is cut at a separator, so are the components. -/
theorem eq_splitOn_append {parts : List (List α)} (hfree : SepFree sep parts) (hne : parts ≠ [])
    {x y : List α} (h : [sep].intercalate parts = x ++ sep :: y) :
    parts = x.splitOn sep ++ y.splitOn sep := by
  rw [← List.splitOn_append_cons_self, ← h, List.splitOn_intercalate sep hfree hne]

/-- The text of a list of components determines it. -/
theorem intercalate_inj {parts parts' : List (List α)} (hfree : SepFree sep parts)
    (hfree' : SepFree sep parts') (hne : parts ≠ []) (hne' : parts' ≠ []) :
    [sep].intercalate parts = [sep].intercalate parts' ↔ parts = parts' := by
  refine ⟨fun h => ?_, fun h => h ▸ rfl⟩
  rw [← List.splitOn_intercalate sep hfree hne, h, List.splitOn_intercalate sep hfree' hne']

section

variable {source parts : List (List α)}

/-- A text starts with other components and a separator if and only if they come first and are not
all. -/
theorem prefix_intercalate_iff (hsource : SepFree sep source) (hparts : SepFree sep parts)
    (hne : source ≠ []) (hne' : parts ≠ []) :
    [sep].intercalate source ++ [sep] <+: [sep].intercalate parts ↔
      ∃ rest, rest ≠ [] ∧ parts = source ++ rest := by
  constructor
  · rintro ⟨y, hy⟩
    rw [List.append_assoc, List.singleton_append] at hy
    refine ⟨y.splitOn sep, List.splitOn_ne_nil sep y, ?_⟩
    rw [eq_splitOn_append hparts hne' hy.symm, List.splitOn_intercalate sep hsource hne]
  · rintro ⟨rest, hrest, rfl⟩
    rw [intercalate_append hne hrest]
    exact ⟨[sep].intercalate rest, by simp⟩

/-- A text ends with a separator and other components if and only if they come last and are not
all. -/
theorem suffix_intercalate_iff (hsource : SepFree sep source) (hparts : SepFree sep parts)
    (hne : source ≠ []) (hne' : parts ≠ []) :
    sep :: [sep].intercalate source <:+ [sep].intercalate parts ↔
      ∃ before, before ≠ [] ∧ parts = before ++ source := by
  constructor
  · rintro ⟨x, hx⟩
    refine ⟨x.splitOn sep, List.splitOn_ne_nil sep x, ?_⟩
    rw [eq_splitOn_append hparts hne' hx.symm, List.splitOn_intercalate sep hsource hne]
  · rintro ⟨before, hbefore, rfl⟩
    rw [intercalate_append hbefore hne]
    exact ⟨[sep].intercalate before, rfl⟩

/-- A text has other components between separators if and only if they are among its components,
neither first nor last. -/
theorem infix_intercalate_iff (hsource : SepFree sep source) (hparts : SepFree sep parts)
    (hne : source ≠ []) (hne' : parts ≠ []) :
    sep :: [sep].intercalate source ++ [sep] <:+: [sep].intercalate parts ↔
      ∃ before after, before ≠ [] ∧ after ≠ [] ∧ parts = before ++ source ++ after := by
  constructor
  · rintro ⟨x, y, h⟩
    have hx : [sep].intercalate parts = x ++ sep :: ([sep].intercalate source ++ sep :: y) := by
      rw [← h]
      simp
    refine ⟨x.splitOn sep, y.splitOn sep, List.splitOn_ne_nil sep x, List.splitOn_ne_nil sep y, ?_⟩
    rw [eq_splitOn_append hparts hne' hx, List.splitOn_append_cons_self,
      List.splitOn_intercalate sep hsource hne, List.append_assoc]
  · rintro ⟨before, after, hbefore, hafter, rfl⟩
    rw [List.append_assoc, intercalate_append hbefore (by simp [hne]),
      intercalate_append hne hafter]
    exact ⟨[sep].intercalate before, [sep].intercalate after, by simp⟩

omit [DecidableEq α] in
/-- A list is not found where its first element does not occur. -/
theorem infix_append_iff {β : Type*} {x : β} {rest before l : List β} (hx : x ∉ before) :
    x :: rest <:+: before ++ l ↔ x :: rest <:+: l := by
  induction before with
  | nil => rfl
  | cons c before ih =>
      have hstart : ¬ x :: rest <+: c :: (before ++ l) := fun h =>
        hx ((List.cons_prefix_cons.mp h).1 ▸ List.mem_cons_self)
      rw [List.cons_append, List.infix_cons_iff, or_iff_right hstart,
        ih fun hmem => hx (List.mem_cons_of_mem c hmem)]

end

/-! ## Cutting -/

/-- A text without separator is not cut. -/
theorem splitAtMost_of_notMem {l : List α} (h : sep ∉ l) (n : ℕ) : splitAtMost sep n l = [l] := by
  cases n with
  | zero => rfl
  | succ n =>
      have hdrop : l.dropWhile (· ≠ sep) = [] := by
        rw [List.dropWhile_eq_nil_iff]
        exact fun c hc => by simpa using fun heq : c = sep => h (heq ▸ hc)
      rw [splitAtMost, hdrop]

/-- A text is cut at its first separator. -/
theorem splitAtMost_append {first : List α} (h : sep ∉ first) (n : ℕ) (l : List α) :
    splitAtMost sep (n + 1) (first ++ sep :: l) = first :: splitAtMost sep n l := by
  have hfirst : ∀ c ∈ first, decide (c ≠ sep) = true := fun c hc => by
    simpa using fun heq : c = sep => h (heq ▸ hc)
  rw [splitAtMost, List.dropWhile_append_of_pos hfirst, List.takeWhile_append_of_pos hfirst]
  simp

/-- What stands before the last separator. -/
theorem beforeLast_append {last : List α} (h : sep ∉ last) (l : List α) :
    beforeLast sep (l ++ sep :: last) = some l := by
  have hlast : ∀ c ∈ last.reverse, decide (c ≠ sep) = true := fun c hc => by
    simpa using fun heq : c = sep => h (List.mem_reverse.mp (heq ▸ hc))
  rw [beforeLast, List.reverse_append, List.reverse_cons, List.append_assoc,
    List.dropWhile_append_of_pos hlast]
  simp

/-- A text without separator has nothing before one. -/
theorem beforeLast_of_notMem {l : List α} (h : sep ∉ l) : beforeLast sep l = none := by
  have hdrop : l.reverse.dropWhile (· ≠ sep) = [] := by
    rw [List.dropWhile_eq_nil_iff]
    exact fun c hc => by simpa using fun heq : c = sep => h (List.mem_reverse.mp (heq ▸ hc))
  rw [beforeLast, hdrop]

/-! ## Replacing -/

section

variable {old : List α} (new : List α)

/-- Characters that belong to an occurrence that was replaced are passed over. -/
theorem replaceAfter_append (x l : List α) :
    replaceAfter old new x.length (x ++ l) = replaceAfter old new 0 l := by
  induction x with
  | nil => rfl
  | cons c x ih => rw [List.length_cons, List.cons_append, replaceAfter, ih]

/-- An occurrence at the beginning is replaced. -/
theorem replaceAll_append_self (hne : old ≠ []) (l : List α) :
    replaceAll old new (old ++ l) = new ++ replaceAll old new l := by
  obtain ⟨c, x, rfl⟩ := List.exists_cons_of_ne_nil hne
  have hmatch : c :: x <+: c :: (x ++ l) := List.prefix_append (c :: x) l
  rw [replaceAll, List.cons_append, replaceAfter, if_pos hmatch, List.length_cons,
    Nat.add_sub_cancel, replaceAfter_append]
  rfl

/-- Without an occurrence at the beginning the first character stays. -/
theorem replaceAll_cons_of_not_start {c : α} {l : List α} (h : ¬ old <+: c :: l) :
    replaceAll old new (c :: l) = c :: replaceAll old new l := by
  rw [replaceAll, replaceAfter, if_neg h]
  rfl

/-- Characters other than the first of the occurrences stay. -/
theorem replaceAll_append_of_notMem {first : α} (hold : old.head? = some first) {x : List α}
    (hx : first ∉ x) (l : List α) : replaceAll old new (x ++ l) = x ++ replaceAll old new l := by
  obtain ⟨rest, rfl⟩ := List.head?_eq_some_iff.mp hold
  induction x with
  | nil => rfl
  | cons c x ih =>
      have hnot : ¬ first :: rest <+: c :: (x ++ l) := fun hstart =>
        hx ((List.cons_prefix_cons.mp hstart).1 ▸ List.mem_cons_self)
      rw [List.cons_append, replaceAll_cons_of_not_start new hnot,
        ih fun hmem => hx (List.mem_cons_of_mem c hmem), List.cons_append]

/-- An occurrence without separator ends before the next separator. -/
theorem replaceAfter_append_sep (hold : sep ∉ old) {skip : ℕ} {x : List α} (hskip : skip ≤ x.length)
    (l : List α) : replaceAfter old new skip (x ++ sep :: l)
      = replaceAfter old new skip x ++ replaceAfter old new 0 (sep :: l) := by
  induction x generalizing skip with
  | nil => rw [Nat.le_zero.mp hskip]; rfl
  | cons c x ih =>
      cases skip with
      | succ skip =>
          rw [List.cons_append, replaceAfter, replaceAfter, ih (Nat.le_of_succ_le_succ hskip)]
      | zero =>
          have hstarts : old <+: c :: x ++ sep :: l ↔ old <+: c :: x := by
            refine ⟨fun h => ?_, fun h => h.trans (List.prefix_append (c :: x) (sep :: l))⟩
            rw [List.prefix_iff_eq_take] at h ⊢
            rcases le_or_gt old.length (c :: x).length with hle | hlt
            · rwa [List.take_append_of_le_length hle] at h
            · refine absurd ?_ hold
              rw [h, List.take_append, List.mem_append]
              refine Or.inr ?_
              obtain ⟨n, hn⟩ := Nat.exists_eq_add_of_lt hlt
              rw [hn, Nat.add_assoc, Nat.add_sub_cancel_left, List.take_succ_cons]
              exact List.mem_cons_self
          rw [List.cons_append, replaceAfter, replaceAfter, ← List.cons_append]
          by_cases hmatch : old <+: c :: x
          · have hle := hmatch.length_le
            rw [if_pos (hstarts.mpr hmatch), if_pos hmatch,
              ih (Nat.sub_le_of_le_add (by rwa [List.length_cons] at hle)), List.append_assoc]
          · rw [if_neg (mt hstarts.mp hmatch), if_neg hmatch, ih (Nat.zero_le _),
              List.cons_append]

/-- The characters of the result are characters of the text or of the replacement. -/
theorem mem_of_mem_replaceAfter {skip : ℕ} {l : List α} {c : α}
    (h : c ∈ replaceAfter old new skip l) : c ∈ l ∨ c ∈ new := by
  fun_induction replaceAfter old new skip l with
  | case1 => exact .inl h
  | case2 skip d rest ih => exact (ih h).imp_left (List.mem_cons_of_mem d)
  | case3 d rest hmatch ih =>
      rcases List.mem_append.mp h with h | h
      · exact .inr h
      · exact (ih h).imp_left (List.mem_cons_of_mem d)
  | case4 d rest hmatch ih =>
      rcases List.mem_cons.mp h with rfl | h
      · exact .inl List.mem_cons_self
      · exact (ih h).imp_left (List.mem_cons_of_mem d)

/-- Without occurrences nothing is replaced. -/
theorem replaceAll_of_not_contained {l : List α} (h : ¬ old <:+: l) : replaceAll old new l = l := by
  induction l with
  | nil => rfl
  | cons c l ih =>
      rw [replaceAll_cons_of_not_start new fun hstart => h hstart.isInfix,
        ih fun hl => h (hl.trans (List.suffix_cons c l).isInfix)]

/-- A replacement that is not shorter makes no text shorter. -/
theorem length_le_length_replaceAfter (hne : old ≠ []) (hle : old.length ≤ new.length) (skip : ℕ)
    (l : List α) : l.length ≤ (replaceAfter old new skip l).length + skip := by
  have hpos : 0 < old.length := List.length_pos_iff.mpr hne
  fun_induction replaceAfter old new skip l with
  | case1 => exact Nat.zero_le _
  | case2 skip d rest ih =>
      rw [List.length_cons]
      omega
  | case3 d rest hmatch ih =>
      rw [List.length_cons, List.length_append]
      omega
  | case4 d rest hmatch ih =>
      rw [List.length_cons, List.length_cons]
      omega

/-- A longer replacement makes a text with an occurrence longer. -/
theorem length_lt_length_replaceAll (hne : old ≠ []) (hlt : old.length < new.length) {l : List α}
    (h : old <:+: l) : l.length < (replaceAll old new l).length := by
  induction l with
  | nil => exact absurd (List.infix_nil.mp h) hne
  | cons c l ih =>
      by_cases hstart : old <+: c :: l
      · obtain ⟨rest, hrest⟩ := hstart
        have hle := length_le_length_replaceAfter new hne hlt.le 0 rest
        rw [← hrest, replaceAll_append_self new hne, List.length_append, List.length_append,
          replaceAll]
        omega
      · rw [replaceAll_cons_of_not_start new hstart, List.length_cons, List.length_cons]
        exact Nat.succ_lt_succ (ih ((List.infix_cons_iff.mp h).resolve_left hstart))

/-- A longer replacement is seen wherever something is replaced. -/
theorem replaceAll_eq_self_iff (hne : old ≠ []) (hlt : old.length < new.length) {l : List α} :
    replaceAll old new l = l ↔ ¬ old <:+: l := by
  refine ⟨fun heq hinfix => ?_, replaceAll_of_not_contained new⟩
  have hlength := length_lt_length_replaceAll new hne hlt hinfix
  rw [heq] at hlength
  exact hlength.false

/-- **Replacing a text without separator** works on each component. -/
theorem replaceAll_intercalate (hold : sep ∉ old) (hne : old ≠ []) (parts : List (List α)) :
    replaceAll old new ([sep].intercalate parts)
      = [sep].intercalate (parts.map (replaceAll old new)) := by
  have hsep : ∀ l, ¬ old <+: sep :: l := by
    rintro l h
    obtain ⟨c, x, rfl⟩ := List.exists_cons_of_ne_nil hne
    exact hold ((List.cons_prefix_cons.mp h).1 ▸ List.mem_cons_self)
  induction parts with
  | nil => rfl
  | cons part parts ih =>
      by_cases hnil : parts = []
      · subst hnil
        rw [List.intercalate_singleton, List.map_singleton, List.intercalate_singleton]
      · rw [List.intercalate_cons_of_ne_nil hnil, List.append_assoc, List.singleton_append,
          replaceAll, replaceAfter_append_sep new hold (Nat.zero_le _), ← replaceAll,
          ← replaceAll, replaceAll_cons_of_not_start new (hsep _), ih, List.map_cons,
          List.intercalate_cons_of_ne_nil (by simpa using hnil), List.append_assoc,
          List.singleton_append]

end

/-! ## Replacing a component behind another one -/

section

variable (first second new : List α)

/-- From left to right, replace the component `second` behind the component `first`, if another one
follows; the separator before that one is used up, so that no occurrence starts there. -/
def replacePairs : List (List α) → List (List α)
  | c :: c' :: next :: rest =>
      if c = first ∧ c' = second then first :: new :: next :: replacePairs rest
      else c :: replacePairs (c' :: next :: rest)
  | parts => parts

/-- The texts of components, each with a separator before it. -/
def slashed (sep : α) (parts : List (List α)) : List α := parts.flatMap (sep :: ·)

omit [DecidableEq α] in
@[simp] theorem slashed_cons (part : List α) (parts : List (List α)) :
    slashed sep (part :: parts) = sep :: part ++ slashed sep parts := rfl

omit [DecidableEq α] in
/-- The text of components is the first of them and the others with separators. -/
theorem intercalate_cons_eq (part : List α) (parts : List (List α)) :
    [sep].intercalate (part :: parts) = part ++ slashed sep parts := by
  induction parts generalizing part with
  | nil => simp [slashed]
  | cons next parts ih => rw [List.intercalate_cons_cons, ih, slashed_cons]; simp

variable {first second}

/-- Where the pair of components with a separator behind it stands. -/
theorem pair_prefix_slashed_iff (hfirst : sep ∉ first) (hsecond : sep ∉ second)
    {parts : List (List α)} (hparts : SepFree sep parts) :
    sep :: (first ++ sep :: (second ++ [sep])) <+: slashed sep parts ↔
      ∃ next rest, parts = first :: second :: next :: rest := by
  cases parts with
  | nil => simp [slashed]
  | cons part parts =>
      have hpair : first ++ sep :: (second ++ [sep]) = [sep].intercalate [first, second] ++ [sep] :=
        by simp
      rw [slashed_cons, List.cons_append, List.cons_prefix_cons, hpair, ← intercalate_cons_eq,
        prefix_intercalate_iff (by simp [hfirst, hsecond]) hparts (by simp) (by simp)]
      constructor
      · rintro ⟨-, rest, hrest, h⟩
        obtain ⟨next, rest, rfl⟩ := List.exists_cons_of_ne_nil hrest
        exact ⟨next, rest, h⟩
      · rintro ⟨next, rest, h⟩
        exact ⟨rfl, next :: rest, by simp, h⟩

/-- Replacing the pair in the texts of components. -/
theorem replaceAll_slashed (hfirst : sep ∉ first) (hsecond : sep ∉ second)
    {parts : List (List α)} (hparts : SepFree sep parts) :
    replaceAll (sep :: (first ++ sep :: (second ++ [sep])))
      (sep :: (first ++ sep :: (new ++ [sep]))) (slashed sep parts)
        = slashed sep (replacePairs first second new parts) := by
  -- where no pair starts, a component stays up to the next separator
  have hstays : ∀ {part : List α} {parts : List (List α)}, SepFree sep (part :: parts) →
      (∀ next rest, part :: parts ≠ first :: second :: next :: rest) →
      replaceAll (sep :: (first ++ sep :: (second ++ [sep])))
        (sep :: (first ++ sep :: (new ++ [sep]))) (slashed sep (part :: parts))
          = sep :: part ++ replaceAll (sep :: (first ++ sep :: (second ++ [sep])))
            (sep :: (first ++ sep :: (new ++ [sep]))) (slashed sep parts) := by
    intro part parts hfree hne
    have hnot := mt (pair_prefix_slashed_iff hfirst hsecond hfree).mp
      (by rintro ⟨next, rest, h⟩; exact hne next rest h)
    rw [slashed_cons, List.cons_append] at hnot ⊢
    rw [replaceAll_cons_of_not_start _ hnot,
      replaceAll_append_of_notMem _ (List.head?_cons : _ = some sep) (sepFree_cons.mp hfree).1, List.cons_append]
  fun_induction replacePairs first second new parts with
  | case1 c c' next rest h ih =>
      obtain ⟨rfl, rfl⟩ := h
      simp only [sepFree_cons] at hparts
      have hsplit : slashed sep (c :: c' :: next :: rest)
          = sep :: (c ++ sep :: (c' ++ [sep])) ++ (next ++ slashed sep rest) := by simp
      rw [hsplit, replaceAll_append_self _ (by simp),
        replaceAll_append_of_notMem _ (List.head?_cons : _ = some sep) hparts.2.2.1, ih hparts.2.2.2]
      simp
  | case2 c c' next rest hne ih =>
      have hnone : ∀ next' rest', c :: c' :: next :: rest ≠ first :: second :: next' :: rest' := by
        intro next' rest' h
        simp only [List.cons.injEq] at h
        exact hne ⟨h.1, h.2.1⟩
      rw [hstays hparts hnone, ih (sepFree_cons.mp hparts).2, slashed_cons]
  | case3 parts hshort =>
      match parts, hparts, hshort with
      | [], _, _ => rfl
      | [c], hparts, _ => rw [hstays hparts (by simp)]; rfl
      | [c, c'], hparts, _ =>
          rw [hstays hparts (by simp), hstays (sepFree_cons.mp hparts).2 (by simp)]
          rfl
      | c :: c' :: next :: rest, _, hshort => exact absurd rfl (hshort c c' next rest)

/-- **Replacing a component behind another one**, separators included, in the text of
components. -/
theorem replaceAll_pair (hfirst : sep ∉ first) (hsecond : sep ∉ second) {part : List α}
    {parts : List (List α)} (hpart : sep ∉ part) (hparts : SepFree sep parts) :
    replaceAll (sep :: (first ++ sep :: (second ++ [sep])))
      (sep :: (first ++ sep :: (new ++ [sep]))) ([sep].intercalate (part :: parts))
        = [sep].intercalate (part :: replacePairs first second new parts) := by
  rw [intercalate_cons_eq, replaceAll_append_of_notMem _ (List.head?_cons : _ = some sep) hpart,
    replaceAll_slashed new hfirst hsecond hparts, intercalate_cons_eq]

/-- No pair starts at another component. -/
theorem replacePairs_cons_of_ne {c : List α} (h : c ≠ first) (parts : List (List α)) :
    replacePairs first second new (c :: parts) = c :: replacePairs first second new parts := by
  match parts with
  | [] => rfl
  | [c'] => rfl
  | c' :: next :: rest => rw [replacePairs, if_neg fun hpair => h hpair.1]

/-- No pair starts before the first occurrence of `first`. -/
theorem replacePairs_append_of_notMem {before : List (List α)} (h : first ∉ before)
    (parts : List (List α)) : replacePairs first second new (before ++ parts)
      = before ++ replacePairs first second new parts := by
  induction before with
  | nil => rfl
  | cons c before ih =>
      have hc : c ≠ first := fun hc => h (hc ▸ List.mem_cons_self)
      rw [List.cons_append, replacePairs_cons_of_ne new hc,
        ih fun hmem => h (List.mem_cons_of_mem c hmem), List.cons_append]

/-! ## Rows of pairs -/

/-- How many pairs of the two components stand in a row at the end of components that are listed
from the last one. -/
def pairsAtEnd (first second : List α) : List (List α) → ℕ
  | c' :: c :: rest => if c = first ∧ c' = second then pairsAtEnd first second rest + 1 else 0
  | _ => 0

/-- The components with `second` replaced wherever it ends an odd number of pairs in a row and is
not the last component; `above` are the components before them, from the last one. -/
def renameRuns (first second new : List α) (above : List (List α)) :
    List (List α) → List (List α)
  | [] => []
  | [c] => [c]
  | c :: next :: rest =>
      (if pairsAtEnd first second (c :: above) % 2 = 1 then new else c)
        :: renameRuns first second new (c :: above) (next :: rest)

/-- The components with `second` replaced wherever it ends an odd number of pairs in a row. -/
def renameOdd (first second new : List α) (above : List (List α)) :
    List (List α) → List (List α)
  | [] => []
  | c :: rest =>
      (if pairsAtEnd first second (c :: above) % 2 = 1 then new else c)
        :: renameOdd first second new (c :: above) rest

/-- The last component stays, whatever comes before it. -/
theorem renameRuns_concat (above parts : List (List α)) (last : List α) :
    renameRuns first second new above (parts ++ [last])
      = renameOdd first second new above parts ++ [last] := by
  induction parts generalizing above with
  | nil => rfl
  | cons c parts ih =>
      obtain ⟨next, rest, h⟩ := List.exists_cons_of_ne_nil (show parts ++ [last] ≠ [] by simp)
      rw [List.cons_append, h, renameRuns, ← h, ih, renameOdd, List.cons_append]

/-- A pair at the end. -/
@[simp] theorem pairsAtEnd_pair (above : List (List α)) :
    pairsAtEnd first second (second :: first :: above) = pairsAtEnd first second above + 1 := by
  simp [pairsAtEnd]

/-- Without `second` at the end no pair ends there. -/
theorem pairsAtEnd_cons_of_ne {c : List α} (h : c ≠ second) (above : List (List α)) :
    pairsAtEnd first second (c :: above) = 0 := by
  cases above <;> simp [pairsAtEnd, h]

/-- Without `first` before the last component no pair ends there. -/
theorem pairsAtEnd_cons_cons_of_ne {c : List α} (h : c ≠ first) (c' : List α)
    (above : List (List α)) : pairsAtEnd first second (c' :: c :: above) = 0 := by
  simp [pairsAtEnd, h]

/-- **Replacing pairs passes over every second one in a row.** The scan stands before the
components, where neither the pairs that end there nor those that would end with `second` are odd in
number. -/
theorem replacePairs_eq_renameRuns (hne : first ≠ second) (above : List (List α))
    {parts : List (List α)} (heven : pairsAtEnd first second above % 2 = 0)
    (hnext : parts.head? = some second → pairsAtEnd first second (second :: above) % 2 = 0) :
    replacePairs first second new parts = renameRuns first second new above parts := by
  fun_induction replacePairs first second new parts generalizing above with
  | case1 c c' next rest h ih =>
      obtain ⟨rfl, rfl⟩ := h
      have hpair : pairsAtEnd c c' (next :: c' :: c :: above) = 0 :=
        pairsAtEnd_cons_cons_of_ne hne.symm next (c :: above)
      have hrest : replacePairs c c' new rest = renameRuns c c' new (next :: c' :: c :: above) rest := by
        refine ih (next :: c' :: c :: above) (by rw [hpair]) fun _ => ?_
        by_cases hnextFirst : next = c
        · rw [hnextFirst, pairsAtEnd_pair, pairsAtEnd_pair]
          omega
        · rw [pairsAtEnd_cons_cons_of_ne hnextFirst]
      rw [renameRuns, if_neg (by rw [pairsAtEnd_cons_of_ne hne]; decide), renameRuns,
        if_pos (by rw [pairsAtEnd_pair]; omega), hrest]
      cases rest with
      | nil => rfl
      | cons c'' rest => rw [renameRuns, if_neg (by rw [hpair]; decide)]
  | case2 c c' next rest hnot ih =>
      have hc : pairsAtEnd first second (c :: above) % 2 = 0 := by
        by_cases hsecond : c = second
        · rw [hsecond]
          exact hnext (by rw [hsecond]; rfl)
        · rw [pairsAtEnd_cons_of_ne hsecond]
      rw [renameRuns, if_neg (by omega), ih (c :: above) hc fun hhead => ?_]
      have hc' : c' = second := Option.some.inj hhead
      rw [pairsAtEnd_cons_cons_of_ne fun hfirst => hnot ⟨hfirst, hc'⟩]
  | case3 parts hshort =>
      match parts, hshort with
      | [], _ => rfl
      | [c], _ => rfl
      | [c, c'], _ =>
          have hc : pairsAtEnd first second (c :: above) % 2 = 0 := by
            by_cases hsecond : c = second
            · rw [hsecond]
              exact hnext (by rw [hsecond]; rfl)
            · rw [pairsAtEnd_cons_of_ne hsecond]
          rw [renameRuns, if_neg (by omega)]
          rfl
      | c :: c' :: next :: rest, hshort => exact absurd rfl (hshort c c' next rest)

/-- The renaming keeps the number of components. -/
@[simp] theorem length_renameOdd (above parts : List (List α)) :
    (renameOdd first second new above parts).length = parts.length := by
  induction parts generalizing above with
  | nil => rfl
  | cons c parts ih => rw [renameOdd, List.length_cons, ih, List.length_cons]

/-- Renaming components and further ones behind them. -/
theorem renameOdd_append (above parts rest : List (List α)) :
    renameOdd first second new above (parts ++ rest) = renameOdd first second new above parts
      ++ renameOdd first second new (parts.reverse ++ above) rest := by
  induction parts generalizing above with
  | nil => rfl
  | cons c parts ih =>
      rw [List.cons_append, renameOdd, ih, renameOdd, List.reverse_cons, List.append_assoc]
      rfl

/-- The component at a place. -/
theorem getElem?_renameOdd (above parts : List (List α)) (j : ℕ) :
    (renameOdd first second new above parts)[j]? = parts[j]?.map fun part =>
      if pairsAtEnd first second (part :: ((parts.take j).reverse ++ above)) % 2 = 1 then new
      else part := by
  induction parts generalizing above j with
  | nil => rfl
  | cons c parts ih =>
      cases j with
      | zero => rfl
      | succ j =>
          rw [renameOdd, List.getElem?_cons_succ, ih, List.getElem?_cons_succ, List.take_succ_cons,
            List.reverse_cons, List.append_assoc, List.singleton_append]

/-- A renamed component is a component or the new one. -/
theorem mem_of_mem_renameOdd {above parts : List (List α)} {part : List α}
    (h : part ∈ renameOdd first second new above parts) : part ∈ parts ∨ part = new := by
  induction parts generalizing above with
  | nil => exact .inl h
  | cons c parts ih =>
      rw [renameOdd, List.mem_cons] at h
      rcases h with h | h
      · split_ifs at h
        · exact .inr h
        · exact .inl (h ▸ List.mem_cons_self)
      · exact (ih h).imp_left (List.mem_cons_of_mem c)

/-- Only `second` is renamed. -/
theorem map_renameOdd {β : Type*} {f : List α → β} (hf : f new = f second)
    (above parts : List (List α)) :
    (renameOdd first second new above parts).map f = parts.map f := by
  induction parts generalizing above with
  | nil => rfl
  | cons c parts ih =>
      rw [renameOdd, List.map_cons, ih, List.map_cons]
      split_ifs with hodd
      · by_cases hc : c = second
        · rw [hf, hc]
        · rw [pairsAtEnd_cons_of_ne hc] at hodd
          omega
      · rfl

end

end AndroidSdk.Lib
