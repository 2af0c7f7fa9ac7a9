import Mathlib.Data.List.GetD
import AndroidSdk.Aapt2.BuiltString

/-! # When the content of a string element is flattened

The event loop follows the elements that are open with its stack and its depth. At the end of the
string element they are all closed, but a bad document ends the loop wherever it comes.

* **`readContent`** — what a sequence of events says about the content.
* **`Collects`**, **`Counts`** — what the variables of the loop hold.
* **`collects_loop`** — the event loop.
* **`FlattensProperly`** — the program is not ended, and what is returned is that of the content.
* **`flattensProperly_iff`** — this is so unless the document is bad inside an inner element. -/

namespace AndroidSdk.Aapt2.FlattenXml

open Lib

/-! ## The content of the element -/

/-- The texts in front of a tag are one segment, if there is text. -/
def segment (text : List Char) : List (Mark NodeKind (List Char)) :=
  if text = [] then [] else [.leaf text]

/-- **What the events say about the content**: its marks, and the elements that are still open
behind the last event, given those in which the events come and the text in front of them. There is
no content if a `g` tag of XLIFF is nested in another. Where the events end in front of an end tag, as
in a bad document, the text that has been gathered is dropped, at any depth. -/
def readContent : List NodeKind → List Char → List Event →
    Option (List (Mark NodeKind (List Char)) × List NodeKind)
  | inside, _, [] => some ([], inside)
  | inside, text, .text more :: events => readContent inside (text ++ more) events
  | inside, text, .other :: events => readContent inside text events
  | inside, text, .startElement nsUri name attributes :: events =>
      let kind := nodeKind nsUri name attributes
      if kind = .untranslatable ∧ .untranslatable ∈ inside then none
      else (readContent (kind :: inside) [] events).map fun r =>
        (segment text ++ .enter kind :: r.1, r.2)
  | [], text, .endElement :: _ => some (segment text, [])
  | kind :: inside, text, .endElement :: events =>
      (readContent inside [] events).map fun r => (segment text ++ .leave kind :: r.1, r.2)

/-- Whether a mark is the start tag of a span. -/
def isSpanTag : Mark NodeKind (List Char) → Bool
  | .enter (.span _) => true
  | _ => false

/-- The content as it is built: if there are no spans, the first and the last segment are
stripped. -/
def trimmed (marks : List (Mark NodeKind (List Char))) : List (Mark NodeKind (List Char)) :=
  if marks.any isSpanTag then marks
  else Mark.mapLast trimTrailingWhitespace (Mark.mapFirst trimLeadingWhitespace marks)

/-! ## The variables of the loop -/

/-- Where a `g` tag of XLIFF was opened, given the open elements from the innermost. -/
def untranslatableDepth : List NodeKind → Option ℕ
  | [] => none
  | .untranslatable :: inside => some (inside.length + 1)
  | _ :: inside => untranslatableDepth inside

/-- The numbers follow the open elements, of which at most one is a `g` tag. -/
structure Counts (s : LoopState) (inside : List NodeKind) : Prop where
  depth : s.depth = inside.length + 1
  startDepth : s.untranslatableStartDepth = untranslatableDepth inside
  once : inside.Pairwise fun k k' => ¬(k = .untranslatable ∧ k' = .untranslatable)

/-- The stack and the segments hold the content so far. -/
structure Collects (s : LoopState) (inside : List NodeKind)
    (done : List (Mark NodeKind (List Char))) : Prop where
  kinds : s.nodeStack.map Prod.fst = inside ++ [.node]
  marks : (spine s.nodeStack).map (.map (s.segments.getD · [])) = .enter .node :: done
  leaves : (spine s.nodeStack).filterMap Mark.leaf? = List.range s.segments.length
  first : s.firstSegment = (List.range s.segments.length).head?
  last : s.lastSegment = (List.range s.segments.length).getLast?
  sawSpanNode : s.sawSpanNode = done.any isSpanTag

variable {s : LoopState} {inside : List NodeKind} {done : List (Mark NodeKind (List Char))}

/-- A `g` tag was opened below. -/
theorem untranslatableDepth_le {d : ℕ} (h : untranslatableDepth inside = some d) :
    d ≤ inside.length := by
  induction inside with
  | nil => exact nomatch h
  | cons k inside ih =>
      cases k with
      | untranslatable => exact (Option.some.inj h).ge
      | node => exact (ih h).trans (Nat.le_succ _)
      | span name => exact (ih h).trans (Nat.le_succ _)

/-- There is no depth if no `g` tag is open. -/
theorem isSome_untranslatableDepth :
    (untranslatableDepth inside).isSome = true ↔ NodeKind.untranslatable ∈ inside := by
  induction inside with
  | nil => simp [untranslatableDepth]
  | cons k inside ih => cases k <;> simp [untranslatableDepth, ih]

/-- Before the first event. -/
theorem counts_init : Counts .init [] := ⟨rfl, rfl, .nil⟩

/-- Before the first event. -/
theorem collects_init : Collects .init [] [] := ⟨rfl, rfl, rfl, rfl, rfl, rfl⟩

/-- The numbers and the text in front of the next tag are not part of the content. -/
theorem Collects.of_numbers (h : Collects s inside done) {rawString currentText : List Char}
    {untranslatableStartDepth : Option ℕ} {depth : ℕ} :
    Collects { s with rawString, currentText, untranslatableStartDepth, depth } inside done :=
  ⟨h.kinds, h.marks, h.leaves, h.first, h.last, h.sawSpanNode⟩

/-- There is a node on the stack. -/
theorem Collects.exists_cons (h : Collects s inside done) :
    ∃ k children stack, s.nodeStack = (k, children) :: stack := by
  cases hstack : s.nodeStack with
  | nil => exact absurd (h.kinds.symm.trans (congrArg _ hstack)) (by simp)
  | cons top stack => exact ⟨top.1, top.2, stack, rfl⟩

/-- A child is written behind what the stack holds. -/
theorem spine_addChild (h : s.nodeStack ≠ []) (child : Nodes ℕ) :
    spine (s.addChild child) = spine s.nodeStack ++ child.marks := by
  unfold LoopState.addChild
  split
  · next hstack => exact absurd hstack h
  · next k children stack hstack =>
      rw [hstack, spine, spine, Forest.marks_append, List.append_assoc, List.cons_append]

/-- The kinds on the stack stay. -/
theorem map_fst_addChild (child : Nodes ℕ) :
    (s.addChild child).map Prod.fst = s.nodeStack.map Prod.fst := by
  unfold LoopState.addChild
  split
  · next hstack => rw [hstack]
  · next hstack => rw [hstack]; rfl

/-- Making a segment leaves the numbers as they are. -/
theorem Counts.addSegment (h : Counts s inside) : Counts s.addSegment inside := by
  unfold LoopState.addSegment
  split
  · exact h
  · exact ⟨h.depth, h.startDepth, h.once⟩

/-- There is no text behind a segment. -/
theorem currentText_addSegment (s : LoopState) : s.addSegment.currentText = [] := by
  unfold LoopState.addSegment
  split
  · next h => exact h
  · rfl

/-- **A segment is made.** -/
theorem Collects.addSegment (h : Collects s inside done) :
    Collects s.addSegment inside (done ++ segment s.currentText) := by
  unfold LoopState.addSegment segment
  split
  · rw [List.append_nil]
    exact h
  · obtain ⟨k, children, stack, hstack⟩ := h.exists_cons
    have hspine : spine (s.addChild (.leaf s.segments.length .nil))
        = spine s.nodeStack ++ [.leaf s.segments.length] :=
      spine_addChild (by rw [hstack]; exact List.cons_ne_nil _ _) _
    -- the segments so far keep their texts
    have hold : (spine s.nodeStack).map (Mark.map ((s.segments ++ [s.currentText]).getD · []))
        = (spine s.nodeStack).map (Mark.map (s.segments.getD · [])) := by
      refine Mark.map_map_congr fun i hi => ?_
      rw [h.leaves, List.mem_range] at hi
      exact List.getD_append _ _ _ _ hi
    have hnew : (s.segments ++ [s.currentText]).getD s.segments.length [] = s.currentText := by
      simp
    refine ⟨(map_fst_addChild _).trans h.kinds, ?_, ?_, ?_, ?_, ?_⟩
    · show (spine (s.addChild _)).map _ = _
      rw [hspine, List.map_append, hold, h.marks]
      exact congrArg (fun text => _ ++ [Mark.leaf text]) hnew
    · show (spine (s.addChild _)).filterMap _ = _
      rw [hspine, List.filterMap_append, h.leaves, List.length_append, List.length_singleton,
        List.range_succ]
      rfl
    · show s.firstSegment.or _ = _
      rw [h.first, List.length_append, List.length_singleton, List.range_succ, List.head?_append]
      rfl
    · show some s.segments.length = _
      rw [List.length_append, List.length_singleton, List.range_succ, List.getLast?_concat]
    · show s.sawSpanNode = _
      rw [h.sawSpanNode, List.any_append]
      exact (Bool.or_false _).symm

/-! ## Tags -/

/-- **A node is put on the stack.** -/
theorem Collects.push (h : Collects s inside done) {kind : NodeKind} {sawSpanNode : Bool}
    (hsaw : (s.sawSpanNode || isSpanTag (.enter kind)) = sawSpanNode) :
    Collects { s.push kind with sawSpanNode } (kind :: inside) (done ++ [.enter kind]) := by
  have hspine : spine (s.push kind).nodeStack = spine s.nodeStack ++ [.enter kind] := rfl
  refine ⟨congrArg (kind :: ·) h.kinds, ?_, ?_, h.first, h.last, ?_⟩
  · show (spine (s.push kind).nodeStack).map _ = _
    rw [hspine, List.map_append]
    exact congrArg (· ++ _) h.marks
  · show (spine (s.push kind).nodeStack).filterMap _ = _
    rw [hspine, List.filterMap_append]
    exact (List.append_nil _).trans h.leaves
  · rw [← hsaw, h.sawSpanNode, List.any_append, List.any_cons, List.any_nil, Bool.or_false]

/-- **The node on top of the stack is complete.** -/
theorem Collects.pop {k : NodeKind} (h : Collects s (k :: inside) done) :
    Collects s.pop inside (done ++ [.leave k]) := by
  obtain ⟨k', children, rest, hstack⟩ := h.exists_cons
  have hkinds := h.kinds
  rw [hstack] at hkinds
  obtain ⟨hk, hrest⟩ := List.cons.inj hkinds
  obtain rfl : k = k' := hk.symm
  obtain ⟨⟨parent, siblings⟩, stack, rfl⟩ : ∃ top stack, rest = top :: stack := by
    cases rest with
    | nil => exact absurd hrest.symm (by simp)
    | cons top stack => exact ⟨top, stack, rfl⟩
  have hpop : s.pop = { s with
      nodeStack := (parent, siblings.append (.element k children .nil)) :: stack } := by
    rw [LoopState.pop, hstack]
  have hspine : spine ((parent, siblings.append (.element k children .nil)) :: stack)
      = spine s.nodeStack ++ [.leave k] := by
    rw [hstack]
    simp [spine, Forest.marks]
  rw [hpop]
  refine ⟨hrest, ?_, ?_, h.first, h.last, ?_⟩
  · rw [hspine, List.map_append]
    exact congrArg (· ++ _) h.marks
  · rw [hspine, List.filterMap_append]
    exact (List.append_nil _).trans h.leaves
  · rw [List.any_append, List.any_cons, List.any_nil]
    exact h.sawSpanNode.trans (Bool.or_false _).symm

/-- The numbers are not changed when a node is complete. -/
theorem pop_numbers (s : LoopState) :
    s.pop.currentText = s.currentText ∧ s.pop.depth = s.depth
      ∧ s.pop.untranslatableStartDepth = s.untranslatableStartDepth := by
  unfold LoopState.pop
  split <;> exact ⟨rfl, rfl, rfl⟩

/-- **A start tag.** -/
theorem stepStart_spec (hcounts : Counts s inside) (h : Collects s inside done) (kind : NodeKind) :
    if kind = .untranslatable ∧ .untranslatable ∈ inside then stepStart s kind = none
    else ∃ s', stepStart s kind = some s' ∧ s'.currentText = s.currentText
      ∧ Counts s' (kind :: inside) ∧ Collects s' (kind :: inside) (done ++ [.enter kind]) := by
  have hdepth : (s.push kind).depth = (kind :: inside).length + 1 := congrArg (· + 1) hcounts.depth
  cases kind with
  | span name =>
      rw [if_neg fun hg => nomatch hg.1]
      refine ⟨_, rfl, rfl, ⟨hdepth, hcounts.startDepth, ?_⟩, ?_⟩
      · exact List.pairwise_cons.mpr ⟨fun k _ hg => (nomatch hg.1), hcounts.once⟩
      · exact h.push (Bool.or_true _)
  | untranslatable =>
      rw [stepStart, hcounts.startDepth]
      by_cases hinside : NodeKind.untranslatable ∈ inside
      · rw [if_pos ⟨rfl, hinside⟩, if_pos (isSome_untranslatableDepth.mpr hinside)]
      · rw [if_neg fun hg => hinside hg.2,
          if_neg fun hsome => hinside (isSome_untranslatableDepth.mp hsome)]
        refine ⟨_, rfl, rfl, ⟨hdepth, congrArg some hcounts.depth, ?_⟩, ?_⟩
        · exact List.pairwise_cons.mpr ⟨fun k hk hg => hinside (hg.2 ▸ hk), hcounts.once⟩
        · exact (h.push (Bool.or_false _)).of_numbers
  | node =>
      rw [if_neg fun hg => nomatch hg.1]
      refine ⟨_, rfl, rfl, ⟨hdepth, hcounts.startDepth, ?_⟩, ?_⟩
      · exact List.pairwise_cons.mpr ⟨fun k _ hg => (nomatch hg.1), hcounts.once⟩
      · exact h.push (Bool.or_false _)

/-- **An end tag inside the string element.** -/
theorem stepEnd_spec {k : NodeKind} (hcounts : Counts s (k :: inside))
    (h : Collects s (k :: inside) done) :
    (stepEnd s).currentText = s.currentText ∧ Counts (stepEnd s) inside
      ∧ Collects (stepEnd s) inside (done ++ [.leave k]) := by
  have honce := List.pairwise_cons.mp hcounts.once
  have hdepth : s.depth - 1 = inside.length + 1 := by rw [hcounts.depth]; rfl
  obtain ⟨htext, hpopDepth, hpopStart⟩ := pop_numbers { s with depth := s.depth - 1 }
  replace hpopDepth := hpopDepth.trans hdepth
  replace hpopStart := hpopStart.trans hcounts.startDepth
  have hcollects : Collects (LoopState.pop { s with depth := s.depth - 1 }) inside
      (done ++ [.leave k]) := h.of_numbers.pop
  have hbelow (hne : untranslatableDepth (k :: inside) = untranslatableDepth inside) :
      untranslatableDepth (k :: inside) ≠ some (inside.length + 1) := fun heq =>
    Nat.not_succ_le_self _ (untranslatableDepth_le (hne.symm.trans heq))
  rw [stepEnd, if_neg (by rw [hdepth]; exact Nat.succ_ne_zero _)]
  dsimp only
  rw [hpopDepth, hpopStart]
  -- the tag ends the untranslatable section if it is where the section was opened
  cases k with
  | untranslatable =>
      rw [untranslatableDepth, if_pos rfl]
      refine ⟨htext, ⟨rfl, ?_, honce.2⟩, hcollects.of_numbers⟩
      refine (Option.not_isSome_iff_eq_none.mp fun hsome => ?_).symm
      exact honce.1 _ (isSome_untranslatableDepth.mp hsome) ⟨rfl, rfl⟩
  | span name =>
      rw [if_neg (hbelow rfl)]
      exact ⟨htext, ⟨hpopDepth, hpopStart, honce.2⟩, hcollects⟩
  | node =>
      rw [if_neg (hbelow rfl)]
      exact ⟨htext, ⟨hpopDepth, hpopStart, honce.2⟩, hcollects⟩

/-! ## The event loop -/

/-- Between the events the loop is not at its end. -/
theorem Counts.depth_ne_zero (h : Counts s inside) : s.depth ≠ 0 := by
  rw [h.depth]
  exact Nat.succ_ne_zero _

/-- The content behind a tag comes behind the segment in front of the tag, and the tag. -/
theorem rel_behind_tag {l : Option LoopState}
    {r : Option (List (Mark NodeKind (List Char)) × List NodeKind)}
    {text : List (Mark NodeKind (List Char))} {tag : Mark NodeKind (List Char)}
    (h : l.Rel (fun s' r => Collects s' r.2 (done ++ text ++ [tag] ++ r.1)) r) :
    l.Rel (fun s' r => Collects s' r.2 (done ++ r.1))
      (r.map fun r => (text ++ tag :: r.1, r.2)) := by
  cases h with
  | none => exact .none
  | some h =>
      refine .some ?_
      rwa [List.append_assoc, List.append_assoc, List.singleton_append] at h

/-- **The event loop** collects the content that the events have. -/
theorem collects_loop (events : List Event) (hcounts : Counts s inside)
    (h : Collects s inside done) :
    Option.Rel (fun s' r => Collects s' r.2 (done ++ r.1)) (loop s events)
      (readContent inside s.currentText events) := by
  induction events generalizing s inside done with
  | nil =>
      rw [loop, readContent]
      exact .some ((List.append_nil done).symm ▸ h)
  | cons e events ih =>
      cases e with
      -- text is kept until a tag comes
      | text text =>
          rw [loop, step, readContent]
          dsimp only
          rw [if_neg hcounts.depth_ne_zero]
          exact ih ⟨hcounts.depth, hcounts.startDepth, hcounts.once⟩ h.of_numbers
      | other =>
          rw [loop, step, readContent]
          dsimp only
          rw [if_neg hcounts.depth_ne_zero]
          exact ih hcounts h
      | startElement nsUri name attributes =>
          have hstart := stepStart_spec hcounts.addSegment h.addSegment
            (nodeKind nsUri name attributes)
          rw [loop, step, readContent]
          -- a section inside a section is an error for both
          split at hstart
          · next hnested =>
              rw [hstart, if_pos hnested]
              exact .none
          · next hnested =>
              obtain ⟨s', hs', htext, hcounts', h'⟩ := hstart
              rw [hs', if_neg hnested]
              dsimp only
              rw [if_neg hcounts'.depth_ne_zero]
              have hrest := ih hcounts' h'
              rw [htext, currentText_addSegment] at hrest
              exact rel_behind_tag hrest
      | endElement =>
          rw [loop, step]
          dsimp only
          cases inside with
          -- the end of the document stops the loop
          | nil =>
              have hdepth : s.addSegment.depth - 1 = 0 := by rw [hcounts.addSegment.depth]; rfl
              have hend : stepEnd s.addSegment = { s.addSegment with depth := 0 } := by
                rw [stepEnd, hdepth, if_pos rfl]
              rw [hend, if_pos rfl, readContent]
              exact .some h.addSegment.of_numbers
          | cons kind inside =>
              obtain ⟨htext, hcounts', h'⟩ := stepEnd_spec hcounts.addSegment h.addSegment
              rw [if_neg hcounts'.depth_ne_zero, readContent]
              have hrest := ih hcounts' h'
              rw [htext, currentText_addSegment] at hrest
              exact rel_behind_tag hrest

/-! ## Stripping -/

/-- A changed segment. -/
theorem getD_modify_self {f : List Char → List Char} (hf : f [] = []) (l : List (List Char))
    (i : ℕ) : (l.modify i f).getD i [] = f (l.getD i []) := by
  rw [List.getD_eq_getElem?_getD, List.getD_eq_getElem?_getD, List.getElem?_modify]
  cases l[i]? with
  | none => exact hf.symm
  | some text => exact if_pos rfl

/-- The other segments stay. -/
theorem getD_modify_of_ne {f : List Char → List Char} {i j : ℕ} (h : j ≠ i)
    (l : List (List Char)) : (l.modify i f).getD j [] = l.getD j [] := by
  rw [List.getD_eq_getElem?_getD, List.getD_eq_getElem?_getD, List.getElem?_modify]
  cases l[j]? with
  | none => rfl
  | some text => exact if_neg h.symm

/-- The contents of the root. -/
theorem Collects.root {k : NodeKind} {root : Nodes ℕ} (h : Collects s [] done)
    (hstack : s.nodeStack = [(k, root)]) :
    root.marks.map (.map (s.segments.getD · [])) = done
      ∧ root.marks.filterMap Mark.leaf? = List.range s.segments.length := by
  have hspine : spine s.nodeStack = .enter k :: root.marks := by rw [hstack]; rfl
  have hmarks := h.marks
  have hleaves := h.leaves
  rw [hspine] at hmarks hleaves
  exact ⟨(List.cons.inj hmarks).2, hleaves⟩

/-- **The segments are stripped.** -/
theorem Collects.marks_stripped {k : NodeKind} {root : Nodes ℕ} (h : Collects s [] done)
    (hstack : s.nodeStack = [(k, root)]) :
    (root.map fun i => (strippedSegments s).getD i []).marks = trimmed done := by
  obtain ⟨hmarks, hleaves⟩ := h.root hstack
  have hfirst := h.first
  have hlast := h.last
  rw [Forest.marks_map, strippedSegments, trimmed, h.sawSpanNode]
  split
  · exact hmarks
  cases hlen : s.segments.length with
  | zero =>
      rw [hlen] at hleaves hfirst hlast
      rw [hfirst, hlast]
      have hnone : done.filterMap Mark.leaf? = [] := by
        rw [← hmarks, Mark.filterMap_leaf_map, hleaves]
        rfl
      rw [Mark.mapFirst_of_no_leaf hnone, Mark.mapLast_of_no_leaf hnone]
      exact hmarks
  | succ n =>
      have hhead : (List.range (n + 1)).head? = some 0 := by rw [List.range_succ_eq_map]; rfl
      rw [hlen] at hleaves hfirst hlast
      rw [hhead] at hfirst
      rw [List.range_succ, List.getLast?_concat] at hlast
      rw [hfirst, hlast]
      -- the last segment is stripped after the first, which may be the same
      rw [Mark.map_map_last (d := fun i =>
          (s.segments.modify 0 trimLeadingWhitespace).getD i []) (List.range_succ ▸ hleaves)
        (by simp) (getD_modify_self rfl _ n) (fun i hi => getD_modify_of_ne hi _),
        Mark.map_map_first (hleaves.trans List.range_succ_eq_map) (by simp)
          (getD_modify_self rfl s.segments 0) (fun i hi => getD_modify_of_ne hi _), hmarks]

/-! ## The result -/

/-- **The content is flattened properly**: the program is not ended, and if there is a result, then
no inner element is open at the end of the events, and the result is that of the content. -/
def FlattensProperly (events : List Event) : Prop :=
  match flattenXmlSubtree events with
  | .abort => False
  | .failed => True
  | .flattened _ out => ∃ marks tree, readContent [] [] events = some (marks, [])
      ∧ tree.marks = trimmed marks ∧ IsFlattened tree out

/-- The document is bad while an inner element is open. -/
def StopsInside (events : List Event) : Prop :=
  ∃ marks k inside, readContent [] [] events = some (marks, k :: inside)

/-- A run with one node on the stack ends with the string of its content. -/
theorem Collects.isFlattened {root : Nodes ℕ} {k : NodeKind} (h : Collects s [] done)
    (hstack : s.nodeStack = [(k, root)])
    (herror :
      (build (root.map fun i => (strippedSegments s).getD i []) (.new false)).error = none) :
    ∃ tree, tree.marks = trimmed done ∧ IsFlattened tree
      (build (root.map fun i => (strippedSegments s).getD i []) (.new false)).xmlString :=
  ⟨_, h.marks_stripped hstack, isFlattened_build herror⟩

/-- **The content of a string element is flattened properly if and only if the document is not bad
inside an inner element.** -/
theorem flattensProperly_iff (events : List Event) :
    FlattensProperly events ↔ ¬StopsInside events := by
  have hrel : Option.Rel (fun s' r => Collects s' r.2 r.1) (loop .init events)
      (readContent [] [] events) := collects_loop events counts_init collects_init
  unfold FlattensProperly StopsInside flattenXmlSubtree
  generalize loop .init events = l at hrel
  generalize readContent [] [] events = r at hrel
  cases hrel with
  | none => exact iff_of_true trivial (fun ⟨_, _, _, h⟩ => nomatch h)
  | @some s' r h =>
      obtain ⟨marks, inside⟩ := r
      obtain ⟨k, children, stack, hstack⟩ := h.exists_cons
      have hkinds := h.kinds
      cases inside with
      | nil =>
          -- the root alone is on the stack
          refine iff_of_true ?_ (fun ⟨_, _, _, heq⟩ => nomatch heq)
          rw [hstack] at hkinds
          obtain rfl : stack = [] := List.map_eq_nil_iff.mp (List.cons.inj hkinds).2
          dsimp only
          rw [hstack]
          dsimp only
          by_cases herror : (build (children.map fun i => (strippedSegments s').getD i [])
              (.new false)).error.isSome = true
          · rw [if_pos herror]
            exact trivial
          · rw [if_neg herror]
            obtain ⟨tree, hmarks, hflattened⟩ :=
              h.isFlattened hstack (Option.not_isSome_iff_eq_none.mp herror)
            exact ⟨marks, tree, rfl, hmarks, hflattened⟩
      | cons kind inside =>
          refine iff_of_false ?_ (fun hstops => hstops ⟨marks, kind, inside, rfl⟩)
          rw [hstack] at hkinds
          obtain ⟨top, below, rfl⟩ : ∃ top below, stack = top :: below := by
            cases stack with
            | nil => exact absurd (List.cons.inj hkinds).2.symm (by simp)
            | cons top below => exact ⟨top, below, rfl⟩
          dsimp only
          rw [hstack]
          exact not_false

/-- A document that ends inside a bold text ends the program. -/
theorem not_flattensProperly_truncatedBold : ¬FlattensProperly
    [.text "x".toList, .startElement [] "b".toList [], .text "y".toList] := by
  have habort : flattenXmlSubtree
      [.text "x".toList, .startElement [] "b".toList [], .text "y".toList] = .abort := by
    decide
  rw [FlattensProperly, habort]
  exact not_false

end AndroidSdk.Aapt2.FlattenXml
