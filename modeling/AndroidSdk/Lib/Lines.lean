import Mathlib.Data.List.DropRight
import AndroidSdk.Lib.Utf8

/-! # Lines and blanks of a text

The methods of Python's `str` that take a text apart at its lines and blanks, on the characters of
the text.

* **`splitLines`** — `str.splitlines`, at every line boundary of Unicode.
* **`strip`** — `str.strip` without arguments.
* **`splitOnce`** — `str.split(sep, 1)` in two parts.
* **`splitLines_flatMap`** — lines without boundary, each with a line feed, are read back. -/

namespace AndroidSdk.Lib

/-! ## Line boundaries -/

/-- The line boundaries of `str.splitlines`: line feed, vertical tab, form feed, carriage return, the
three separators `\x1c` to `\x1e`, the C1 next line, and the line and paragraph separators. -/
def isLineBoundary (c : Char) : Bool :=
  c.toNat ∈ [0x0a, 0x0b, 0x0c, 0x0d, 0x1c, 0x1d, 0x1e, 0x85, 0x2028, 0x2029]

/-- `str.isspace` on one character. -/
def isSpace (c : Char) : Bool :=
  isLineBoundary c || c.toNat ∈ [0x09, 0x1f, 0x20, 0xa0, 0x1680, 0x202f, 0x205f, 0x3000]
    || (0x2000 ≤ c.toNat ∧ c.toNat ≤ 0x200a)

/-- `str.splitlines`: a line boundary ends a line, the pair of carriage return and line feed is one,
and nothing follows the last. -/
def splitLines : List Char → List (List Char)
  | [] => []
  | '\r' :: '\n' :: t => [] :: splitLines t
  | c :: t =>
      if isLineBoundary c then [] :: splitLines t
      else
        match splitLines t with
        | [] => [[c]]
        | line :: lines => (c :: line) :: lines

/-- A line boundary other than a carriage return ends the line. -/
theorem splitLines_cons_of_boundary {c : Char} (h : isLineBoundary c = true) (hreturn : c ≠ '\r')
    (t : List Char) : splitLines (c :: t) = [] :: splitLines t := by
  rw [splitLines, if_pos h]
  rintro t rfl
  exact absurd rfl hreturn

/-- Another character belongs to the first line. -/
theorem splitLines_cons {c : Char} (h : isLineBoundary c = false) (t : List Char) :
    splitLines (c :: t) = match splitLines t with
      | [] => [[c]]
      | line :: lines => (c :: line) :: lines := by
  rw [splitLines, if_neg (by simp [h])]
  rintro t rfl
  exact absurd h (by decide)

/-- A line that ends with a line feed is read back. -/
theorem splitLines_append {line : List Char} (h : ∀ c ∈ line, isLineBoundary c = false)
    (t : List Char) : splitLines (line ++ '\n' :: t) = line :: splitLines t := by
  induction line with
  | nil => exact splitLines_cons_of_boundary (by decide) (by decide) t
  | cons c line ih =>
      rw [List.cons_append, splitLines_cons (h c List.mem_cons_self),
        ih fun c hc => h c (List.mem_cons_of_mem _ hc)]

/-- **Lines that end with line feeds are read back.** -/
theorem splitLines_flatMap {lines : List (List Char)}
    (h : ∀ line ∈ lines, ∀ c ∈ line, isLineBoundary c = false) :
    splitLines (lines.flatMap (· ++ ['\n'])) = lines := by
  induction lines with
  | nil => rfl
  | cons line lines ih =>
      rw [List.flatMap_cons, List.append_assoc, List.singleton_append,
        splitLines_append (h line List.mem_cons_self),
        ih fun line hline => h line (List.mem_cons_of_mem _ hline)]

/-- No line has a line boundary. -/
theorem not_boundary_of_mem_splitLines {t line : List Char} (h : line ∈ splitLines t) :
    ∀ c ∈ line, isLineBoundary c = false := by
  induction t using splitLines.induct generalizing line with
  | case1 => cases h
  | case2 t ih =>
      rw [splitLines] at h
      rcases List.mem_cons.mp h with rfl | h
      · exact fun c hc => nomatch hc
      · exact ih h
  | case3 c t hnot hboundary ih =>
      rw [splitLines, if_pos hboundary] at h
      · rcases List.mem_cons.mp h with rfl | h
        · exact fun c hc => nomatch hc
        · exact ih h
      · exact hnot
  | case4 c t hnot hboundary hrest ih =>
      rw [splitLines_cons (Bool.eq_false_iff.mpr hboundary), hrest] at h
      rw [List.mem_singleton.mp h]
      intro d hd
      rw [List.mem_singleton.mp hd]
      exact Bool.eq_false_iff.mpr hboundary
  | case5 c t hnot hboundary first lines hrest ih =>
      rw [splitLines_cons (Bool.eq_false_iff.mpr hboundary), hrest] at h
      rw [hrest] at ih
      rcases List.mem_cons.mp h with rfl | h
      · intro d hd
        rcases List.mem_cons.mp hd with rfl | hd
        · exact Bool.eq_false_iff.mpr hboundary
        · exact ih List.mem_cons_self d hd
      · exact ih (List.mem_cons_of_mem _ h)

/-! ## Blanks -/

/-- `str.strip`: without the blanks at both ends. -/
def strip (t : List Char) : List Char := (t.dropWhile isSpace).rdropWhile isSpace

/-- A text that neither begins nor ends with a blank stays. -/
theorem strip_eq_self {t : List Char} (hhead : ∀ c ∈ t.head?, isSpace c = false)
    (hlast : ∀ c ∈ t.getLast?, isSpace c = false) : strip t = t := by
  have hfirst : t.dropWhile isSpace = t := by
    cases t with
    | nil => rfl
    | cons c t => exact List.dropWhile_cons_of_neg (by simp [hhead c rfl])
  unfold strip
  rw [hfirst, List.rdropWhile_eq_self_iff]
  intro hne
  rw [hlast _ (List.getLast?_eq_some_getLast hne)]
  decide

/-- A stripped text does not end with a blank. -/
theorem getLast?_strip {t : List Char} : ∀ c ∈ (strip t).getLast?, isSpace c = false := by
  intro c hc
  have hne : strip t ≠ [] := by
    intro hnil
    rw [hnil] at hc
    cases hc
  rw [List.getLast?_eq_some_getLast hne, Option.mem_some_iff] at hc
  rw [← hc]
  exact Bool.eq_false_iff.mpr (List.rdropWhile_last_not isSpace _ hne)

/-- Stripping leaves no other characters. -/
theorem mem_of_mem_strip {t : List Char} {c : Char} (h : c ∈ strip t) : c ∈ t :=
  (List.dropWhile_suffix isSpace).subset ((List.rdropWhile_prefix isSpace _).subset h)

/-! ## Two parts -/

/-- `str.split(sep, 1)`, if it has two parts: what stands before the first occurrence of the
separator, and all that follows it. -/
def splitOnce (sep : List Char) : List Char → Option (List Char × List Char)
  | [] => if sep = [] then some ([], []) else none
  | c :: t =>
      if sep <+: c :: t then some ([], (c :: t).drop sep.length)
      else (splitOnce sep t).map fun parts => (c :: parts.1, parts.2)

/-- The two parts with the separator are the text. -/
theorem eq_of_splitOnce {sep t before after : List Char}
    (h : splitOnce sep t = some (before, after)) : t = before ++ sep ++ after := by
  induction t generalizing before with
  | nil =>
      rw [splitOnce] at h
      split_ifs at h with hsep
      simp only [Option.some.injEq, Prod.mk.injEq] at h
      rw [← h.1, ← h.2, hsep]
      rfl
  | cons c t ih =>
      rw [splitOnce] at h
      split_ifs at h with hstarts
      · simp only [Option.some.injEq, Prod.mk.injEq] at h
        obtain ⟨rest, hrest⟩ := hstarts
        rw [← h.1, ← h.2, ← hrest, List.drop_left, List.nil_append]
      · obtain ⟨⟨first, rest⟩, hsplit, heq⟩ := Option.map_eq_some_iff.mp h
        simp only [Prod.mk.injEq] at heq
        rw [heq.2] at hsplit
        rw [← heq.1, ih hsplit]
        rfl

/-- A text without the first character of the separator stands before it. -/
theorem splitOnce_append {sep before : List Char} {d : Char} (hsep : sep.head? = some d)
    (h : d ∉ before) (after : List Char) :
    splitOnce sep (before ++ sep ++ after) = some (before, after) := by
  obtain ⟨rest, rfl⟩ := List.head?_eq_some_iff.mp hsep
  induction before with
  | nil =>
      have hstarts : d :: rest <+: d :: (rest ++ after) := List.prefix_append (d :: rest) after
      rw [List.nil_append, List.cons_append, splitOnce, if_pos hstarts, ← List.cons_append,
        List.drop_left]
  | cons c before ih =>
      have hne : c ≠ d := fun heq => h (heq ▸ List.mem_cons_self)
      rw [List.cons_append, List.cons_append, splitOnce, if_neg, ih]
      · rfl
      · exact fun hmem => h (List.mem_cons_of_mem c hmem)
      · intro hstarts
        exact hne (List.cons_prefix_cons.mp hstarts).1.symm

end AndroidSdk.Lib
