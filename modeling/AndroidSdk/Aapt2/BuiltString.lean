import AndroidSdk.Aapt2.FlattenXml

/-! # What the nodes of a string are built into

The text that the marks of a tree make, the positions of its elements in this text, and the result
of `Build`.

* **`textAfter`** — the text that a sequence of marks makes.
* **`utf16Position`**, **`bytePosition`** — the position of a mark, given by those in front of it.
* **`IsFlattened`** — a flattened string is that of a tree.
* **`isFlattened_build`** — what is built without an error is. -/

namespace AndroidSdk.Aapt2.FlattenXml

open Lib Androidfw

/-! ## The text of marks -/

/-- The text so far, whether it is quoted, and whether its last code point was a space. -/
structure MarkState where
  text : List Char
  quote : Bool
  lastCodepointWasSpace : Bool

namespace MarkState

/-- Behind a text. A text with an error is left out. -/
def append (s : MarkState) (text : List Char) : MarkState :=
  match appendLoop false text (text.takeWhile (· ≠ '\x00'))
    ⟨[], s.quote, s.lastCodepointWasSpace⟩ with
  | .ok r => ⟨s.text ++ r.appended, r.quote, r.lastCodepointWasSpace⟩
  | .error _ => s

/-- Behind a mark: quotes and runs of spaces end at the tags of spans. -/
def mark (s : MarkState) : Mark NodeKind (List Char) → MarkState
  | .leaf text => s.append text
  | .enter (.span _) => ⟨s.text, false, false⟩
  | .leave (.span _) => ⟨s.text, false, false⟩
  | _ => s

end MarkState

/-- Behind a sequence of marks. -/
def stateAfter (marks : List (Mark NodeKind (List Char))) : MarkState :=
  marks.foldl .mark ⟨[], false, false⟩

/-- **The text that a sequence of marks makes.** -/
def textAfter (marks : List (Mark NodeKind (List Char))) : List Char := (stateAfter marks).text

/-- **The position of a mark in UTF-16 units**, given by the marks in front of it. -/
def utf16Position (before : List (Mark NodeKind (List Char))) : ℕ :=
  (utf16Units (textAfter before)).length

/-- The position of a mark in bytes. -/
def bytePosition (before : List (Mark NodeKind (List Char))) : ℕ :=
  (encoded (textAfter before)).length

variable {p q : List (Mark NodeKind (List Char))} {b : StringBuilder}

/-- One more mark. -/
theorem stateAfter_concat (p : List (Mark NodeKind (List Char)))
    (mark : Mark NodeKind (List Char)) :
    stateAfter (p ++ [mark]) = (stateAfter p).mark mark := by
  rw [stateAfter, List.foldl_append]
  rfl

/-- A mark only adds to the text. -/
theorem MarkState.prefix_mark (s : MarkState) (mark : Mark NodeKind (List Char)) :
    s.text <+: (s.mark mark).text := by
  cases mark with
  | leaf text =>
      show s.text <+: (s.append text).text
      unfold append
      split
      · exact List.prefix_append _ _
      · exact List.prefix_rfl
  | enter k => cases k <;> exact List.prefix_rfl
  | leave k => cases k <;> exact List.prefix_rfl

/-- **More marks only add to the text.** -/
theorem prefix_textAfter_append (p q : List (Mark NodeKind (List Char))) :
    textAfter p <+: textAfter (p ++ q) := by
  induction q generalizing p with
  | nil => exact (List.append_nil p).symm ▸ List.prefix_rfl
  | cons mark q ih =>
      refine List.IsPrefix.trans ?_ (List.append_cons p mark q ▸ ih (p ++ [mark]))
      rw [textAfter, textAfter, stateAfter_concat]
      exact (stateAfter p).prefix_mark mark

/-- Positions in UTF-16 do not decrease. -/
theorem utf16Position_mono (p q : List (Mark NodeKind (List Char))) :
    utf16Position p ≤ utf16Position (p ++ q) := by
  obtain ⟨rest, h⟩ := prefix_textAfter_append p q
  rw [utf16Position, utf16Position, ← h, utf16Units, utf16Units, List.flatMap_append,
    List.length_append]
  exact Nat.le_add_right _ _

/-! ## Flattened strings -/

/-- The span of an element, in 32 bits. The last position of an empty one is in front of the
first. -/
def spanOf (r : ElementRange NodeKind) : Option Span :=
  match r.kind with
  | .span name => some ⟨name, BitVec.ofNat 32 r.start, BitVec.ofNat 32 r.stop - 1⟩
  | _ => none

/-- The untranslatable section of an element. -/
def sectionOf (r : ElementRange NodeKind) : Option UntranslatableSection :=
  match r.kind with
  | .untranslatable => some ⟨r.start, r.stop⟩
  | _ => none

/-- The name of a span. -/
def NodeKind.spanName? : NodeKind → Option (List Char)
  | .span name => some name
  | _ => none

/-- **A flattened string is that of a tree**: it has the text of the tree; a span for each HTML tag,
in the order of the start tags, from the position of its start tag to that of its end tag in UTF-16
units; a section for each untranslatable element; and elements are one behind the other or one in
the other, within the text. -/
structure IsFlattened (tree : Nodes (List Char)) (out : FlattenedXmlString) : Prop where
  text : out.text = textAfter tree.marks
  spans : out.spans = (tree.ranges utf16Position []).filterMap spanOf
  sections : out.untranslatableSections = (tree.ranges bytePosition []).filterMap sectionOf
  order : out.spans.map Span.name = (tree.marks.filterMap Mark.enter?).filterMap NodeKind.spanName?
  nested : (tree.ranges utf16Position []).Pairwise ElementRange.Nested
  within : ∀ r ∈ tree.ranges utf16Position [], r.start ≤ r.stop
    ∧ r.stop ≤ (utf16Units out.text).length

/-! ## Building -/

/-- What the builder holds behind a sequence of marks. -/
structure Tracks (p : List (Mark NodeKind (List Char))) (b : StringBuilder) : Prop where
  error : b.error = none
  preserveSpaces : b.preserveSpaces = false
  text : b.xmlString.text = (stateAfter p).text
  quote : b.quote = (stateAfter p).quote
  lastCodepointWasSpace : b.lastCodepointWasSpace = (stateAfter p).lastCodepointWasSpace
  utf16Len : b.utf16Len = BitVec.ofNat 32 (utf16Position p)

/-- Before the first mark. -/
theorem tracks_new : Tracks [] (.new false) := ⟨rfl, rfl, rfl, rfl, rfl, rfl⟩

/-- After an error nothing is built. -/
theorem build_of_error (h : b.error ≠ none) (f : Nodes (List Char)) : build f b = b := by
  have hsome : b.error.isSome = true := Option.isSome_iff_ne_none.mpr h
  induction f with
  | nil => rfl
  | leaf data rest ih => rw [build, StringBuilder.appendText, if_pos hsome, ih]
  | element k children rest ihc ih =>
      cases k with
      | node => rw [build, ihc, ih]
      | span name =>
          rw [build, StringBuilder.startSpan, if_pos hsome]
          dsimp only
          rw [ihc, StringBuilder.endSpan, if_pos hsome, ih]
      | untranslatable =>
          rw [build, StringBuilder.startUntranslatable, if_pos hsome]
          dsimp only
          rw [ihc, StringBuilder.endUntranslatable, if_pos hsome, ih]

/-- Without an error at the end there was none before. -/
theorem error_of_build {f : Nodes (List Char)} (h : (build f b).error = none) : b.error = none := by
  by_contra hne
  rw [build_of_error hne] at h
  exact hne h

/-- Without an error behind an end tag there was none before. -/
theorem error_of_endSpan {handle : ℕ} (h : (b.endSpan handle).error = none) : b.error = none := by
  unfold StringBuilder.endSpan at h
  split at h
  · exact h
  · exact h

/-- Without an error behind an end tag there was none before. -/
theorem error_of_endUntranslatable {handle : ℕ} (h : (b.endUntranslatable handle).error = none) :
    b.error = none := by
  unfold StringBuilder.endUntranslatable at h
  split at h
  · exact h
  · exact h

/-- **`AppendText`.** -/
theorem Tracks.appendText (h : Tracks p b) {text : List Char}
    (herror : (b.appendText text).error = none) :
    Tracks (p ++ [.leaf text]) (b.appendText text)
      ∧ (b.appendText text).xmlString.spans = b.xmlString.spans
      ∧ (b.appendText text).xmlString.untranslatableSections
        = b.xmlString.untranslatableSections := by
  have hposition {r : TextState} (hloop : appendLoop false text (text.takeWhile (· ≠ '\x00'))
      ⟨[], (stateAfter p).quote, (stateAfter p).lastCodepointWasSpace⟩ = .ok r) :
      stateAfter (p ++ [.leaf text])
        = ⟨(stateAfter p).text ++ r.appended, r.quote, r.lastCodepointWasSpace⟩ := by
    rw [stateAfter_concat]
    show (stateAfter p).append text = _
    rw [MarkState.append, hloop]
  unfold StringBuilder.appendText at herror ⊢
  rw [if_neg (by rw [h.error]; exact Bool.false_ne_true), h.preserveSpaces, h.quote,
    h.lastCodepointWasSpace] at herror ⊢
  cases hloop : appendLoop false text (text.takeWhile (· ≠ '\x00'))
      ⟨[], (stateAfter p).quote, (stateAfter p).lastCodepointWasSpace⟩ with
  | error e =>
      rw [hloop] at herror
      cases herror
  | ok r =>
      dsimp only
      rw [utf8ToUtf16Length_encoded]
      have hstate := hposition hloop
      refine ⟨⟨h.error, rfl, ?_, ?_, ?_, ?_⟩, rfl, rfl⟩
      · rw [hstate, h.text]
      · rw [hstate]
      · rw [hstate]
      · rw [h.utf16Len, utf16Position, utf16Position, textAfter, textAfter, hstate, utf16Units,
          utf16Units, utf16Units, List.flatMap_append, List.length_append, BitVec.ofNat_add]

/-- The tags of spans reset the state of the text. -/
theorem Tracks.reset (h : Tracks p b) {mark : Mark NodeKind (List Char)}
    (hmark : (stateAfter p).mark mark = ⟨(stateAfter p).text, false, false⟩) {spans : List Span} :
    Tracks (p ++ [mark])
      { b.resetTextState with xmlString := { b.resetTextState.xmlString with spans } } := by
  have hstate : stateAfter (p ++ [mark]) = ⟨(stateAfter p).text, false, false⟩ := by
    rw [stateAfter_concat, hmark]
  refine ⟨h.error, h.preserveSpaces, ?_, ?_, ?_, ?_⟩
  · rw [hstate]
    exact h.text
  · rw [hstate]
    exact h.preserveSpaces
  · rw [hstate]
    rfl
  · rw [utf16Position, textAfter, hstate]
    exact h.utf16Len

/-- The tags of other elements leave the state of the text as it is. -/
theorem Tracks.skip (h : Tracks p b) {mark : Mark NodeKind (List Char)}
    (hmark : (stateAfter p).mark mark = stateAfter p)
    {untranslatableSections : List UntranslatableSection} :
    Tracks (p ++ [mark])
      { b with xmlString := { b.xmlString with untranslatableSections } } := by
  have hstate : stateAfter (p ++ [mark]) = stateAfter p := by rw [stateAfter_concat, hmark]
  refine ⟨h.error, h.preserveSpaces, ?_, ?_, ?_, ?_⟩
  · rw [hstate]
    exact h.text
  · rw [hstate]
    exact h.quote
  · rw [hstate]
    exact h.lastCodepointWasSpace
  · rw [utf16Position, textAfter, hstate]
    exact h.utf16Len

/-- **What `Build` does**: the builder comes behind the marks of the nodes, and has recorded their
spans and sections behind those that it had. -/
structure Built (p : List (Mark NodeKind (List Char))) (f : Nodes (List Char))
    (b b' : StringBuilder) : Prop where
  tracks : Tracks (p ++ f.marks) b'
  spans : b'.xmlString.spans
    = b.xmlString.spans ++ (f.ranges utf16Position p).filterMap spanOf
  sections : b'.xmlString.untranslatableSections
    = b.xmlString.untranslatableSections ++ (f.ranges bytePosition p).filterMap sectionOf

/-- The item behind others is changed by its number. -/
theorem modify_append_cons {α : Type} (l : List α) (x : α) (r : List α) (f : α → α) :
    (l ++ x :: r).modify l.length f = l ++ f x :: r := by
  induction l with
  | nil => rfl
  | cons y l ih => exact (List.modify_succ_cons f y (l ++ x :: r) l.length).trans (congrArg _ ih)

/-- What is read of the elements of a sequence that begins with one. -/
theorem filterMap_ranges_element {γ : Type} (position : List (Mark NodeKind (List Char)) → ℕ)
    (g : ElementRange NodeKind → Option γ) (p : List (Mark NodeKind (List Char))) (k : NodeKind)
    (children rest : Nodes (List Char)) :
    (Forest.ranges position p (.element k children rest)).filterMap g
      = (g ⟨k, position p, position (p ++ [.enter k] ++ children.marks)⟩).toList
        ++ (Forest.ranges position (p ++ [.enter k]) children).filterMap g
        ++ (Forest.ranges position (p ++ .enter k :: (children.marks ++ [.leave k])) rest).filterMap
          g := by
  rw [List.append_assoc p, List.singleton_append, Forest.ranges, List.cons_append,
    List.filterMap_cons, List.filterMap_append]
  cases g ⟨k, position p, position (p ++ .enter k :: children.marks)⟩ <;> rfl

/-- The handle of the item that was appended last. -/
theorem handle_append {α : Type} (l : List α) (x : α) : (l ++ [x]).length - 1 = l.length := by
  rw [List.length_append, List.length_singleton, Nat.add_sub_cancel]

/-- **`StartSpan`**: the handle is the number of the new span. -/
theorem Tracks.startSpan (h : Tracks p b) (name : List Char) :
    Tracks (p ++ [.enter (.span name)]) (b.startSpan name).1
      ∧ (b.startSpan name).1.xmlString.spans = b.xmlString.spans ++ [⟨name, b.utf16Len, b.utf16Len⟩]
      ∧ (b.startSpan name).1.xmlString.untranslatableSections = b.xmlString.untranslatableSections
      ∧ (b.startSpan name).2 = b.xmlString.spans.length := by
  rw [StringBuilder.startSpan, if_neg (by rw [h.error]; exact Bool.false_ne_true)]
  refine ⟨h.reset rfl, rfl, rfl, ?_⟩
  exact handle_append _ _

/-- **`EndSpan`.** -/
theorem Tracks.endSpan (h : Tracks p b) (name : List Char) (handle : ℕ) :
    Tracks (p ++ [.leave (.span name)]) (b.endSpan handle)
      ∧ (b.endSpan handle).xmlString.spans
        = b.xmlString.spans.modify handle (fun span => { span with lastChar := b.utf16Len - 1 })
      ∧ (b.endSpan handle).xmlString.untranslatableSections
        = b.xmlString.untranslatableSections := by
  rw [StringBuilder.endSpan, if_neg (by rw [h.error]; exact Bool.false_ne_true)]
  exact ⟨h.reset rfl, rfl, rfl⟩

/-- **`StartUntranslatable`**: the handle is the number of the new section. -/
theorem Tracks.startUntranslatable (h : Tracks p b) :
    Tracks (p ++ [.enter .untranslatable]) b.startUntranslatable.1
      ∧ b.startUntranslatable.1.xmlString.spans = b.xmlString.spans
      ∧ b.startUntranslatable.1.xmlString.untranslatableSections
        = b.xmlString.untranslatableSections ++ [⟨bytePosition p, bytePosition p⟩]
      ∧ b.startUntranslatable.2 = b.xmlString.untranslatableSections.length := by
  rw [StringBuilder.startUntranslatable, if_neg (by rw [h.error]; exact Bool.false_ne_true), h.text]
  refine ⟨h.skip rfl, rfl, rfl, ?_⟩
  exact handle_append _ _

/-- **`EndUntranslatable`.** -/
theorem Tracks.endUntranslatable (h : Tracks p b) (handle : ℕ) :
    Tracks (p ++ [.leave .untranslatable]) (b.endUntranslatable handle)
      ∧ (b.endUntranslatable handle).xmlString.spans = b.xmlString.spans
      ∧ (b.endUntranslatable handle).xmlString.untranslatableSections
        = b.xmlString.untranslatableSections.modify handle
          (fun range => { range with stop := bytePosition p }) := by
  rw [StringBuilder.endUntranslatable, if_neg (by rw [h.error]; exact Bool.false_ne_true), h.text]
  exact ⟨h.skip rfl, rfl, rfl⟩

/-- **`Build`**, if there is no error at the end. -/
theorem built_build {f : Nodes (List Char)} (h : Tracks p b) (herror : (build f b).error = none) :
    Built p f b (build f b) := by
  induction f generalizing p b with
  | nil =>
      refine ⟨?_, (List.append_nil _).symm, (List.append_nil _).symm⟩
      rw [Forest.marks, List.append_nil]
      exact h
  | leaf data rest ih =>
      obtain ⟨htracks, hspans, hsections⟩ := h.appendText (error_of_build herror)
      have hrest := ih htracks herror
      refine ⟨?_, ?_, ?_⟩
      · rw [Forest.marks, List.append_cons]
        exact hrest.tracks
      · rw [build, hrest.spans, hspans, Forest.ranges]
      · rw [build, hrest.sections, hsections, Forest.ranges]
  | element k children rest ihc ih =>
      -- the element's marks stand between those in front of it and those of the rest
      have hmarks : p ++ (Forest.element k children rest).marks
          = p ++ .enter k :: (children.marks ++ [.leave k]) ++ rest.marks := by
        simp [Forest.marks]
      have hcontent : p ++ .enter k :: (children.marks ++ [.leave k])
          = p ++ [.enter k] ++ children.marks ++ [.leave k] := by
        simp
      cases k with
      | node =>
          -- an element without a meaning only moves the position in the marks
          have henter : Tracks (p ++ [.enter .node]) b := h.skip rfl
          have hchildren := ihc henter (error_of_build herror)
          have hleave : Tracks (p ++ .enter .node :: (children.marks ++ [.leave .node]))
              (build children b) := by
            rw [hcontent]
            exact hchildren.tracks.skip rfl
          have hrest := ih hleave herror
          refine ⟨?_, ?_, ?_⟩
          · rw [hmarks]
            exact hrest.tracks
          · rw [build, hrest.spans, hchildren.spans, filterMap_ranges_element, ← List.append_assoc]
            rfl
          · rw [build, hrest.sections, hchildren.sections, filterMap_ranges_element,
              ← List.append_assoc]
            rfl
      | span name =>
          rw [build] at herror ⊢
          obtain ⟨henter, hspans₁, hsections₁, hhandle⟩ := h.startSpan name
          have hchildren := ihc henter (error_of_endSpan (error_of_build herror))
          obtain ⟨hleave, hspans₂, hsections₂⟩ :=
            hchildren.tracks.endSpan name (b.startSpan name).2
          rw [← hcontent] at hleave
          have hrest := ih hleave herror
          refine ⟨?_, ?_, ?_⟩
          · rw [hmarks]
            exact hrest.tracks
          -- the handle leads to the span that the start added, and the end sets its last character
          · rw [hrest.spans, hspans₂, hchildren.spans, hspans₁, hhandle, List.append_assoc,
              List.singleton_append, modify_append_cons, hchildren.tracks.utf16Len, h.utf16Len,
              filterMap_ranges_element]
            simp [spanOf]
          · rw [hrest.sections, hsections₂, hchildren.sections, hsections₁,
              filterMap_ranges_element, ← List.append_assoc]
            rfl
      | untranslatable =>
          rw [build] at herror ⊢
          obtain ⟨henter, hspans₁, hsections₁, hhandle⟩ := h.startUntranslatable
          have hchildren := ihc henter (error_of_endUntranslatable (error_of_build herror))
          obtain ⟨hleave, hspans₂, hsections₂⟩ :=
            hchildren.tracks.endUntranslatable b.startUntranslatable.2
          rw [← hcontent] at hleave
          have hrest := ih hleave herror
          refine ⟨?_, ?_, ?_⟩
          · rw [hmarks]
            exact hrest.tracks
          · rw [hrest.spans, hspans₂, hchildren.spans, hspans₁, filterMap_ranges_element,
              ← List.append_assoc]
            rfl
          -- the same for the section that the start added
          · rw [hrest.sections, hsections₂, hchildren.sections, hsections₁, hhandle,
              List.append_assoc, List.singleton_append, modify_append_cons,
              filterMap_ranges_element]
            simp [sectionOf]

/-- The spans have the names of their elements. -/
theorem map_name_filterMap_spanOf (l : List (ElementRange NodeKind)) :
    (l.filterMap spanOf).map Span.name
      = (l.map ElementRange.kind).filterMap NodeKind.spanName? := by
  rw [List.map_filterMap, List.filterMap_map]
  refine List.filterMap_congr fun r _ => ?_
  rw [spanOf, Function.comp_apply]
  cases r.kind <;> rfl

/-- **What is built without an error is that of the tree.** -/
theorem isFlattened_build {f : Nodes (List Char)} (h : (build f (.new false)).error = none) :
    IsFlattened f (build f (.new false)).xmlString where
  text := (built_build tracks_new h).tracks.text
  spans := (built_build tracks_new h).spans
  sections := (built_build tracks_new h).sections
  order := by
    rw [(built_build tracks_new h).spans]
    exact (map_name_filterMap_spanOf _).trans (congrArg _ (f.map_kind_ranges []))
  nested := f.pairwise_ranges utf16Position_mono []
  within r hr := by
    obtain ⟨-, hle, hstop⟩ := Forest.bounds_of_mem_ranges utf16Position_mono hr
    refine ⟨hle, ?_⟩
    rw [(built_build tracks_new h).tracks.text]
    exact hstop

end AndroidSdk.Aapt2.FlattenXml
