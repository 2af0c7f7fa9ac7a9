import Mathlib.Data.List.TakeWhile
import Mathlib.Tactic.NthRewrite

/-! # Text operations

The list versions of a few operations on texts that scripts rely on: replacing every occurrence of a
pattern, cutting at a separator, reading lines and capturing what stands between a label and a
closing character. They are stated over arbitrary characters, so that they serve for decoded texts
and for encoded ones.

* **`replaceAll`**, **`splitAtMost`**, **`beforeLast`** — Python's `replace`, `split`, `rpartition`.
* **`stripNewlines`** — the shell's command substitution; the lines that are left are the same,
  apart from empty ones (`filterMap_splitOn_stripNewlines`).
* **`captureLast`** — the group of `sed 's/.*label\([^close]*\)close.*/\1/p'`. -/

namespace AndroidSdk.Lib

universe u

variable {α : Type u} [DecidableEq α]

/-- Replace the occurrences of `old` from left to right, after skipping the given number of
characters, which belong to the occurrence replaced last. -/
def replaceAfter (old new : List α) : ℕ → List α → List α
  | _, [] => []
  | skip + 1, _ :: rest => replaceAfter old new skip rest
  | 0, c :: rest =>
      if old <+: c :: rest then new ++ replaceAfter old new (old.length - 1) rest
      else c :: replaceAfter old new 0 rest

/-- `text.replace(old, new)` for a pattern that is not empty. -/
def replaceAll (old new l : List α) : List α := replaceAfter old new 0 l

/-- `text.split(sep, maxsplit)` for a separator of one character. -/
def splitAtMost (sep : α) : ℕ → List α → List (List α)
  | 0, l => [l]
  | n + 1, l =>
      match l.dropWhile (· ≠ sep) with
      | [] => [l]
      | _ :: rest => l.takeWhile (· ≠ sep) :: splitAtMost sep n rest

/-- The first component of `text.rpartition(sep)`, where the separator occurs. -/
def beforeLast (sep : α) (l : List α) : Option (List α) :=
  match l.reverse.dropWhile (· ≠ sep) with
  | [] => none
  | _ :: rest => some rest.reverse

/-- Universal newlines: a carriage return, alone or before a line feed, is a line end. -/
def universalNewlines : List Char → List Char
  | [] => []
  | '\r' :: '\n' :: rest => '\n' :: universalNewlines rest
  | '\r' :: rest => '\n' :: universalNewlines rest
  | c :: rest => c :: universalNewlines rest

/-- The characters that a sequence of bytes encodes in UTF-8, if it is well formed. -/
def decodeUtf8 (bytes : List UInt8) : Option (List Char) :=
  (String.fromUTF8? ⟨bytes.toArray⟩).map String.toList

/-- The UTF-8 encoding of a text. -/
def encodeUtf8 (s : String) : List UInt8 := s.toUTF8.data.toList

/-- A text with another one behind it is not empty. -/
theorem append_ne_empty {s t : String} (hs : s ≠ "") : s ++ t ≠ "" := fun h =>
  hs (String.append_eq_empty_iff.mp h).1

/-! ## Lines -/

/-- An output without the line feeds at its end, as the shell substitutes it. -/
def stripNewlines (newline : α) (output : List α) : List α :=
  (output.reverse.dropWhile (· = newline)).reverse

/-- An output is what is left of it followed by line feeds. -/
theorem exists_eq_stripNewlines (newline : α) (output : List α) :
    ∃ n, output = stripNewlines newline output ++ List.replicate n newline := by
  refine ⟨(output.reverse.takeWhile (· = newline)).length, ?_⟩
  have hall : output.reverse.takeWhile (· = newline)
      = List.replicate (output.reverse.takeWhile (· = newline)).length newline :=
    List.eq_replicate_of_mem fun c hc => by simpa using List.mem_takeWhile_imp hc
  have hsplit := congrArg List.reverse (List.takeWhile_append_dropWhile (p := (· = newline))
    (l := output.reverse))
  rw [List.reverse_append, List.reverse_reverse, hall, List.reverse_replicate] at hsplit
  exact hsplit.symm

/-- Line feeds at the end only add empty lines. -/
theorem filterMap_splitOn_append_replicate {β : Type*} {f : List α → Option β} (hf : f [] = none)
    (newline : α) (l : List α) (n : ℕ) :
    ((l ++ List.replicate n newline).splitOn newline).filterMap f
      = (l.splitOn newline).filterMap f := by
  induction n with
  | zero => simp
  | succ n ih =>
      rw [List.replicate_succ', ← List.append_assoc, List.splitOn_append_cons_self,
        List.filterMap_append, ih]
      simp [hf]

/-- **The lines of a substituted output** are those of the output, apart from empty ones at its
end. -/
theorem filterMap_splitOn_stripNewlines {β : Type*} {f : List α → Option β} (hf : f [] = none)
    (newline : α) (output : List α) :
    ((stripNewlines newline output).splitOn newline).filterMap f
      = (output.splitOn newline).filterMap f := by
  obtain ⟨n, hn⟩ := exists_eq_stripNewlines newline output
  nth_rewrite 2 [hn]
  rw [filterMap_splitOn_append_replicate hf]

/-- The characters of the pieces between separators are characters of the text. -/
theorem mem_of_mem_splitOnP {β : Type*} {p : β → Bool} {l piece : List β} {a : β}
    (hpiece : piece ∈ l.splitOnP p) (ha : a ∈ piece) : a ∈ l := by
  induction l generalizing piece with
  | nil =>
      rw [List.splitOnP_nil, List.mem_singleton] at hpiece
      exact hpiece ▸ ha
  | cons x xs ih =>
      rw [List.splitOnP_cons_eq_if_modifyHead] at hpiece
      split_ifs at hpiece
      · rcases List.mem_cons.mp hpiece with rfl | hpiece
        · cases ha
        · exact List.mem_cons_of_mem x (ih hpiece ha)
      · obtain ⟨first, others, hsplit⟩ := List.exists_cons_of_ne_nil (List.splitOnP_ne_nil p xs)
        rw [hsplit, List.modifyHead_cons] at hpiece
        rcases List.mem_cons.mp hpiece with rfl | hpiece
        · rcases List.mem_cons.mp ha with rfl | ha
          · exact List.mem_cons_self
          · exact List.mem_cons_of_mem x (ih (by simp [hsplit]) ha)
        · exact List.mem_cons_of_mem x (ih (by simp [hsplit, hpiece]) ha)

/-! ## Words -/

section

/-- The pieces between separators that are not empty: `text.split()`. -/
def wordsBy (sep : α → Bool) (l : List α) : List (List α) :=
  (l.splitOnP sep).filter fun piece => !piece.isEmpty

variable {sep : α → Bool}

omit [DecidableEq α] in
/-- Separators before the first word do not count. -/
theorem wordsBy_dropWhile (sep : α → Bool) (l : List α) :
    wordsBy sep (l.dropWhile sep) = wordsBy sep l := by
  induction l with
  | nil => rfl
  | cons c l ih =>
      by_cases hc : sep c = true
      · rw [List.dropWhile_cons_of_pos hc, ih, wordsBy, wordsBy,
          List.splitOnP_cons_eq_if_modifyHead, if_pos hc]
        rfl
      · rw [List.dropWhile_cons_of_neg hc]

omit [DecidableEq α] in
/-- A text that starts with a word is that word and what follows it. -/
theorem wordsBy_cons {c : α} {l : List α} (hc : sep c = false) :
    wordsBy sep (c :: l) = (c :: l).takeWhile (fun x => !sep x)
      :: wordsBy sep ((c :: l).dropWhile fun x => !sep x) := by
  have hword : ∀ x ∈ (c :: l).takeWhile (fun x => !sep x), sep x = false := fun x hx => by
    simpa using List.mem_takeWhile_imp hx
  have hne : (c :: l).takeWhile (fun x => !sep x) ≠ [] := by simp [hc]
  have hsplit := List.takeWhile_append_dropWhile (p := fun x => !sep x) (l := c :: l)
  cases hrest : (c :: l).dropWhile fun x => !sep x with
  | nil =>
      rw [hrest, List.append_nil] at hsplit
      nth_rewrite 1 [← hsplit]
      rw [wordsBy, List.splitOnP_eq_singleton hword]
      simp [hc, wordsBy]
  | cons s rest =>
      have hs : sep s = true := by
        have hhead := List.head_dropWhile_not (fun x => !sep x)
          (show (c :: l).dropWhile (fun x => !sep x) ≠ [] by rw [hrest]; simp)
        simpa [hrest] using hhead
      rw [hrest] at hsplit
      nth_rewrite 1 [← hsplit]
      rw [wordsBy, List.splitOnP_append_cons_of_forall_mem hword s hs, List.filter_cons,
        if_pos (by simpa using hne), ← wordsBy, wordsBy, wordsBy,
        List.splitOnP_cons_eq_if_modifyHead, if_pos hs]
      rfl

omit [DecidableEq α] in
/-- **The words of a text**, one after the other: skip separators, then take a word. -/
theorem wordsBy_eq (sep : α → Bool) (l : List α) :
    wordsBy sep l = if l.dropWhile sep = [] then []
      else (l.dropWhile sep).takeWhile (fun x => !sep x)
        :: wordsBy sep ((l.dropWhile sep).dropWhile fun x => !sep x) := by
  rw [← wordsBy_dropWhile]
  cases hdrop : l.dropWhile sep with
  | nil => rfl
  | cons c rest =>
      have hc : sep c = false := by
        have hhead := List.head_dropWhile_not sep (show l.dropWhile sep ≠ [] by rw [hdrop]; simp)
        simpa [hdrop] using hhead
      rw [if_neg (by simp), wordsBy_cons hc]

end

/-! ## Captures -/

/-- What stands between a label at the beginning of a text and the next closing character. -/
def captureAt (label : List α) (close : α) (l : List α) : Option (List α) :=
  if label <+: l ∧ close ∈ l.drop label.length then
    some ((l.drop label.length).takeWhile (· ≠ close))
  else none

/-- The capture at the last place that has one: the match of `.*` is the longest possible. -/
def captureLast (label : List α) (close : α) : List α → Option (List α)
  | [] => none
  | c :: rest => (captureLast label close rest).or (captureAt label close (c :: rest))

section

variable {label : List α} {close : α}

/-- A capture is not changed by what stands before it. -/
theorem captureLast_append {l name : List α} (h : captureLast label close l = some name)
    (before : List α) : captureLast label close (before ++ l) = some name := by
  induction before with
  | nil => exact h
  | cons c before ih => rw [List.cons_append, captureLast, ih, Option.some_or]

/-- Without the label there is no capture. -/
theorem captureLast_eq_none {l : List α} (h : ¬ label <:+: l) : captureLast label close l = none := by
  induction l with
  | nil => rfl
  | cons c l ih =>
      have hat : captureAt label close (c :: l) = none :=
        if_neg fun hlabel => h hlabel.1.isInfix
      rw [captureLast, ih fun hl => h (hl.trans (List.suffix_cons c l).isInfix), hat, Option.or_none]

/-- A text without the first character of the label adds no capture. -/
theorem captureLast_append_of_notMem {first : α} (hlabel : label.head? = some first)
    {before : List α} (h : first ∉ before) (l : List α) :
    captureLast label close (before ++ l) = captureLast label close l := by
  obtain ⟨rest, rfl⟩ := List.head?_eq_some_iff.mp hlabel
  induction before with
  | nil => rfl
  | cons c before ih =>
      have hat : captureAt (first :: rest) close (c :: (before ++ l)) = none := by
        refine if_neg fun hstart => h ?_
        rw [(List.cons_prefix_cons.mp hstart.1).1]
        exact List.mem_cons_self
      rw [List.cons_append, captureLast, ih fun hmem => h (List.mem_cons_of_mem c hmem), hat,
        Option.or_none]

/-- **A name between a label and the closing character is captured**, if the name has neither and
the first character of the label occurs in it only once. -/
theorem captureLast_label {first : α} (hlabel : label.head? = some first)
    (hfirst : first ∉ label.tail) {name : List α} (hclose : close ∉ name)
    (hname : ¬ label <:+: name ++ [close]) :
    captureLast label close (label ++ name ++ [close]) = some name := by
  obtain ⟨rest, rfl⟩ := List.head?_eq_some_iff.mp hlabel
  have hnone : captureLast (first :: rest) close (rest ++ (name ++ [close])) = none := by
    rw [captureLast_append_of_notMem hlabel (show first ∉ rest from hfirst)]
    exact captureLast_eq_none hname
  have hat : captureAt (first :: rest) close (first :: (rest ++ (name ++ [close]))) = some name := by
    have hdrop : (first :: (rest ++ (name ++ [close]))).drop (first :: rest).length
        = name ++ [close] := by
      rw [← List.cons_append, List.drop_left]
    rw [captureAt, hdrop, if_pos ⟨⟨name ++ [close], rfl⟩, by simp⟩,
      List.takeWhile_append_of_pos fun c hc => by
        simpa using fun heq => hclose (by rwa [heq] at hc)]
    simp
  rw [List.append_assoc, List.cons_append, captureLast, hnone, hat, Option.none_or]

end

end AndroidSdk.Lib
