import AndroidSdk.Androidfw.NinePatch
import AndroidSdk.Lib.MaxRuns
import Mathlib.Tactic.Ring

/-! # Reading the lines of a nine-patch image

What the scans of lines find: the ranges of a border are the maximal runs of its black and of its
red pixels, and the scans for the outline stay inside the image.

* **`fillRanges_eq`** — the ranges of a border.
* **`findOutlineInsets_ok`** — insets that leave at least one pixel.
* **`computeOutline_ok`** — the outline is found without a fault. -/

namespace AndroidSdk.Androidfw.NinePatch

open Lib

/-! ## Pixels -/

/-- The pixel at a position, or any pixel outside the image. -/
def Image.pixelAt (image : Image) (x y : ℕ) : Pixel := (image.rows.getD y []).getD x ⟨0, 0, 0, 0⟩

/-- The colour at a position. -/
def Image.colorAt (image : Image) (x y : ℕ) : UInt32 := packRGBA (image.pixelAt x y)

/-- A pixel inside the image is read. -/
theorem Image.pixel_eq (image : Image) {x y : ℕ} (hx : x < image.width) (hy : y < image.height) :
    image.pixel x y = .ok (image.pixelAt x y) := by
  have hrow : y < image.rows.length := image.rows_length.symm ▸ hy
  have hpixel : x < (image.rows[y]).length := by
    rw [image.row_length _ (List.getElem_mem hrow)]
    exact hx
  have hneg : ¬ ((x : ℤ) < 0 ∨ (y : ℤ) < 0) := by omega
  rw [Image.pixel, if_neg hneg, Int.toNat_natCast, Int.toNat_natCast,
    List.getElem?_eq_getElem hrow]
  simp only [List.getElem?_eq_getElem hpixel]
  rw [pixelAt, List.getD_eq_getElem?_getD, List.getD_eq_getElem?_getD,
    List.getElem?_eq_getElem hrow, Option.getD_some, List.getElem?_eq_getElem hpixel,
    Option.getD_some]

/-- A colour inside the image is read. -/
theorem Image.color_eq (image : Image) {x y : ℕ} (hx : x < image.width) (hy : y < image.height) :
    image.color x y = .ok (image.colorAt x y) := by
  rw [Image.color, image.pixel_eq hx hy]
  rfl

/-- A colour inside the image is read at a position with sign. -/
theorem Image.exists_color (image : Image) {x y : ℤ} (hx : 0 ≤ x) (hxw : x < image.width)
    (hy : 0 ≤ y) (hyh : y < image.height) : ∃ color, image.color x y = .ok color := by
  obtain ⟨a, rfl⟩ := Int.eq_ofNat_of_zero_le hx
  obtain ⟨b, rfl⟩ := Int.eq_ofNat_of_zero_le hy
  exact ⟨_, image.color_eq (Int.ofNat_lt.mp hxw) (Int.ofNat_lt.mp hyh)⟩

/-! ## Borders -/

/-- The line is a border with the given colours between its ends. -/
structure ImageLine.IsBorder (line : ImageLine) (n : ℕ) (c : ℕ → UInt32) : Prop where
  length_eq : line.length = n + 2
  getColor_eq : ∀ i < n, line.getColor (i + 1) = .ok (c i)

/-- An interval of positions as a range. -/
def toRange (r : ℕ × ℕ) : Range := ⟨r.1, r.2⟩

/-- The maximal runs of a colour. -/
def colorRuns (c : ℕ → UInt32) (n : ℕ) (color : UInt32) : List (ℕ × ℕ) :=
  maxRuns (fun i => c i = color) n

/-- The ranges that are held for a colour: those that are finished, and the last one if its end is
not known yet. -/
def held (color lastColor : UInt32) (done : List Range) (s n : ℕ) : List Range :=
  done ++ if lastColor = color then [⟨s, n⟩] else []

/-- The end of the last range becomes known. -/
theorem setBackEnd_held (color : UInt32) (done : List Range) (s n i : ℕ) :
    setBackEnd (held color color done s n) i = .ok (done ++ [⟨s, i⟩]) := by
  rw [held, if_pos rfl, setBackEnd, List.getLast?_concat, List.dropLast_concat]

/-- The ranges of a colour that are finished when another colour follows. -/
def finished (color lastColor : UInt32) (done : List Range) (s i : ℕ) : List Range :=
  done ++ if lastColor = color then [⟨s, i⟩] else []

/-- A range is held for the last colour. -/
theorem held_self (color : UInt32) (done : List Range) (s n : ℕ) :
    held color color done s n = done ++ [⟨s, n⟩] := by
  rw [held, if_pos rfl]

/-- No range is held for another colour. -/
theorem held_of_ne {color lastColor : UInt32} (h : lastColor ≠ color) (done : List Range)
    (s n : ℕ) : held color lastColor done s n = done := by
  rw [held, if_neg h, List.append_nil]

/-- No range of another colour ends. -/
theorem finished_of_ne {color lastColor : UInt32} (h : lastColor ≠ color) (done : List Range)
    (s i : ℕ) : finished color lastColor done s i = done := by
  rw [finished, if_neg h, List.append_nil]

/-- The two colours of borders differ. -/
theorem kPrimaryColor_ne : kPrimaryColor ≠ kSecondaryColor := by decide

/-- What follows on a result. -/
theorem ok_bind {α β : Type} (a : α) (f : α → Except Failure β) : (Except.ok a >>= f) = f a := rfl

section Loop

variable {line : ImageLine} {validator : ColorValidator} {n : ℕ} {c : ℕ → UInt32}

/-- A colour that is not valid ends the loop. -/
theorem fillRangesLoop_invalid (hline : line.IsBorder n c) {i : ℕ} (hi : i < n)
    (hinvalid : validator.isValidColor (c i) = false) (m : ℕ) (lastColor : UInt32)
    (primary secondary : List Range) :
    fillRangesLoop line validator (m + 1) (i + 1) lastColor primary secondary
      = .error (.rejected (some "found an invalid color")) := by
  simp only [fillRangesLoop, hline.getColor_eq i hi, ok_bind, hinvalid, Bool.not_false, if_true]
  rfl

/-- A round of the loop in the middle of a run. -/
theorem fillRangesLoop_same (hline : line.IsBorder n c) {i : ℕ} (hi : i < n)
    (hvalid : validator.isValidColor (c i) = true) (m : ℕ) (primary secondary : List Range) :
    fillRangesLoop line validator (m + 1) (i + 1) (c i) primary secondary
      = fillRangesLoop line validator m ((i + 1 : ℕ) + 1) (c i) primary secondary := by
  simp only [fillRangesLoop, hline.getColor_eq i hi, ok_bind, hvalid, Bool.not_true,
    Bool.false_eq_true, if_false, ne_eq, not_true_eq_false]
  rfl

/-- A round of the loop at the start of a run. -/
theorem fillRangesLoop_next (hline : line.IsBorder n c) {i : ℕ} (hi : i < n)
    (hvalid : validator.isValidColor (c i) = true) (m : ℕ) {lastColor : UInt32}
    (hne : c i ≠ lastColor) (P Q : List Range) (s : ℕ) :
    fillRangesLoop line validator (m + 1) (i + 1) lastColor
        (held kPrimaryColor lastColor P s n) (held kSecondaryColor lastColor Q s n)
      = fillRangesLoop line validator m ((i + 1 : ℕ) + 1) (c i)
        (held kPrimaryColor (c i) (finished kPrimaryColor lastColor P s i) i n)
        (held kSecondaryColor (c i) (finished kSecondaryColor lastColor Q s i) i n) := by
  have hidx : ((i : ℤ) + 1 - 1) = i := by omega
  have hlength : line.length - 2 = n := by
    rw [hline.length_eq]
    omega
  simp only [fillRangesLoop, hline.getColor_eq i hi, ok_bind, hvalid, Bool.not_true,
    Bool.false_eq_true, if_false, hne, ne_eq, not_false_eq_true, if_true, hidx, hlength]
  -- what the round does behind the range that ends
  have hstart (P Q : List Range) :
      (if c i = kPrimaryColor then
          fillRangesLoop line validator m ((i : ℤ) + 1 + 1) (c i) (P ++ [⟨i, n⟩]) Q
        else if c i = kSecondaryColor then
          fillRangesLoop line validator m ((i : ℤ) + 1 + 1) (c i) P (Q ++ [⟨i, n⟩])
        else fillRangesLoop line validator m ((i : ℤ) + 1 + 1) (c i) P Q)
      = fillRangesLoop line validator m ((i + 1 : ℕ) + 1) (c i) (held kPrimaryColor (c i) P i n)
          (held kSecondaryColor (c i) Q i n) := by
    by_cases hprimary : c i = kPrimaryColor
    · rw [if_pos hprimary, hprimary, held_self, held_of_ne kPrimaryColor_ne]
      rfl
    by_cases hsecondary : c i = kSecondaryColor
    · rw [if_neg hprimary, if_pos hsecondary, hsecondary, held_self,
        held_of_ne kPrimaryColor_ne.symm]
      rfl
    · rw [if_neg hprimary, if_neg hsecondary, held_of_ne hprimary, held_of_ne hsecondary]
      rfl
  by_cases hprimary : lastColor = kPrimaryColor
  · subst hprimary
    rw [if_pos rfl, setBackEnd_held, ok_bind, pure_bind, hstart, held_of_ne kPrimaryColor_ne,
      finished_of_ne kPrimaryColor_ne, finished, if_pos rfl]
  by_cases hsecondary : lastColor = kSecondaryColor
  · subst hsecondary
    rw [if_neg hprimary, if_pos rfl, setBackEnd_held, ok_bind, pure_bind, hstart,
      held_of_ne hprimary, finished_of_ne hprimary, finished, if_pos rfl]
  · rw [if_neg hprimary, if_neg hsecondary, pure_bind, hstart, held_of_ne hprimary,
      held_of_ne hsecondary, finished_of_ne hprimary, finished_of_ne hsecondary]

/-- The runs that the ranges held for a colour and the scan that is left will give. -/
def openRun (color lastColor : UInt32) (s : ℕ) : Option ℕ :=
  if lastColor = color then some s else none

/-- The ranges of a colour at the start of a run. -/
theorem finished_append (color : UInt32) {lastColor : UInt32} {i : ℕ} (hne : c i ≠ lastColor)
    (done : List Range) (s m : ℕ) :
    finished color lastColor done s i
        ++ (runsFrom (fun k => c k = color) (openRun color (c i) i) (i + 1) m).map toRange
      = done ++ (runsFrom (fun k => c k = color) (openRun color lastColor s) i (m + 1)).map
        toRange := by
  by_cases hlast : lastColor = color
  · subst hlast
    rw [finished, if_pos rfl, openRun, if_neg hne, openRun, if_pos rfl, runsFrom,
      if_neg (by simpa using hne), List.map_cons, List.append_assoc]
    rfl
  · rw [finished_of_ne hlast, openRun, openRun, if_neg hlast, runsFrom]
    by_cases hcolor : c i = color
    · rw [if_pos hcolor, if_pos (by simpa using hcolor)]
    · rw [if_neg hcolor, if_neg (by simpa using hcolor)]

/-- The ranges of a colour in the middle of a run. -/
theorem runsFrom_same (color : UInt32) (s i m : ℕ) :
    runsFrom (fun k => c k = color) (openRun color (c i) s) i (m + 1)
      = runsFrom (fun k => c k = color) (openRun color (c i) s) (i + 1) m := by
  by_cases hcolor : c i = color
  · rw [openRun, if_pos hcolor, runsFrom, if_pos (by simpa using hcolor)]
  · rw [openRun, if_neg hcolor, runsFrom, if_neg (by simpa using hcolor)]

/-- **The loop of `FillRanges`**, in the middle of a run of one colour. -/
theorem fillRangesLoop_eq (hline : line.IsBorder n c) {i m : ℕ} (him : i + m = n)
    (lastColor : UInt32) (P Q : List Range) (s : ℕ) :
    fillRangesLoop line validator m (i + 1) lastColor
        (held kPrimaryColor lastColor P s n) (held kSecondaryColor lastColor Q s n)
      = if (List.range' i m).all fun k => validator.isValidColor (c k) then
          .ok (P ++ (runsFrom (fun k => c k = kPrimaryColor)
              (openRun kPrimaryColor lastColor s) i m).map toRange,
            Q ++ (runsFrom (fun k => c k = kSecondaryColor)
              (openRun kSecondaryColor lastColor s) i m).map toRange)
        else .error (.rejected (some "found an invalid color")) := by
  induction m generalizing i lastColor P Q s with
  | zero =>
      have hend (color : UInt32) (done : List Range) : held color lastColor done s n
          = done ++ (runsFrom (fun k => c k = color) (openRun color lastColor s) i 0).map
            toRange := by
        rw [Nat.add_zero] at him
        by_cases hlast : lastColor = color
        · rw [held, if_pos hlast, openRun, if_pos hlast, ← him]
          rfl
        · rw [held, if_neg hlast, openRun, if_neg hlast]
          rfl
      rw [fillRangesLoop, hend, hend]
      rfl
  | succ m ih =>
      have hi : i < n := by omega
      rw [List.range'_succ, List.all_cons]
      cases hvalid : validator.isValidColor (c i) with
      | false =>
          rw [fillRangesLoop_invalid hline hi hvalid, Bool.false_and, if_neg Bool.false_ne_true]
      | true =>
          rw [Bool.true_and]
          by_cases hne : c i = lastColor
          · subst hne
            rw [fillRangesLoop_same hline hi hvalid, ih (by omega), runsFrom_same, runsFrom_same]
          · rw [fillRangesLoop_next hline hi hvalid m hne, ih (by omega),
              finished_append _ hne, finished_append _ hne]

/-- **The ranges of a border** are the maximal runs of its colours. -/
theorem fillRanges_eq (hline : line.IsBorder n c) :
    fillRanges line validator [] []
      = if (List.range n).all fun k => validator.isValidColor (c k) then
          .ok ((colorRuns c n kPrimaryColor).map toRange,
            (colorRuns c n kSecondaryColor).map toRange)
        else .error (.rejected (some "found an invalid color")) := by
  have hlength : (line.length - 2).toNat = n := by
    rw [hline.length_eq]
    omega
  have hloop := @fillRangesLoop_eq line validator n c hline 0 n (Nat.zero_add n) 0xffffffff [] [] 0
  rw [← List.range_eq_range'] at hloop
  rw [fillRanges, hlength]
  exact hloop

end Loop

/-! ## The outline -/

/-- The line lies in the image. -/
def ImageLine.Inside (line : ImageLine) : Prop :=
  ∀ i, 0 ≤ i → i < line.length → ∃ color, line.getColor i = .ok color

/-- A scan for an inset finds that of a position it visits, or keeps the one it has. -/
theorem insetLoop_ok {line : ImageLine} {step : ℤ} {inset : ℤ → ℤ} {n : ℕ} {i : ℤ}
    (hread : ∀ k : ℕ, k < n → ∃ color, line.getColor (i + k * step) = .ok color)
    (maxAlpha : UInt32) (out : ℤ) :
    ∃ r, insetLoop line step inset n i maxAlpha out = .ok r
      ∧ (r = out ∨ ∃ k : ℕ, k < n ∧ r = inset (i + k * step)) := by
  induction n generalizing i maxAlpha out with
  | zero => exact ⟨out, rfl, .inl rfl⟩
  | succ n ih =>
      have hstep (k : ℕ) : i + step + k * step = i + (k + 1 : ℕ) * step := by
        push_cast
        ring
      obtain ⟨color, hcolor⟩ := hread 0 (Nat.succ_pos n)
      rw [Nat.cast_zero, zero_mul, add_zero] at hcolor
      have hrest (maxAlpha : UInt32) (out : ℤ) := ih (i := i + step)
        (fun k hk => by rw [hstep]; exact hread (k + 1) (by omega)) maxAlpha out
      simp only [insetLoop, hcolor, ok_bind]
      split_ifs
      · obtain ⟨r, hr, hcases⟩ := hrest (getAlpha color) (inset i)
        refine ⟨r, hr, .inr ?_⟩
        rcases hcases with rfl | ⟨k, hk, rfl⟩
        · exact ⟨0, Nat.succ_pos n, by rw [Nat.cast_zero, zero_mul, add_zero]⟩
        · exact ⟨k + 1, by omega, by rw [hstep]⟩
      · obtain ⟨r, hr, hcases⟩ := hrest maxAlpha out
        refine ⟨r, hr, hcases.imp_right ?_⟩
        rintro ⟨k, hk, rfl⟩
        exact ⟨k + 1, by omega, by rw [hstep]⟩
      · exact ⟨out, rfl, .inl rfl⟩

/-- **Insets leave at least one pixel.** -/
theorem findOutlineInsets_ok {line : ImageLine} (hinside : line.Inside) (hpos : 0 < line.length) :
    ∃ a b, findOutlineInsets line = .ok (a, b) ∧ 0 ≤ a ∧ 0 ≤ b ∧ a + b < line.length := by
  rw [findOutlineInsets]
  by_cases hshort : line.length < 3
  · exact ⟨0, 0, if_pos hshort, le_rfl, le_rfl, by omega⟩
  rw [if_neg hshort]
  have hmid : 2 * (line.length / 2) + line.length % 2 = line.length := by omega
  have hmod : line.length % 2 = 0 ∨ line.length % 2 = 1 := by omega
  obtain ⟨a, ha, hacases⟩ := @insetLoop_ok line 1 id (line.length / 2 + line.length % 2).toNat 0
    (fun k hk => hinside _ (by omega) (by omega)) 0 0
  obtain ⟨b, hb, hbcases⟩ := @insetLoop_ok line (-1) (fun i => line.length - (i + 1))
    (line.length - line.length / 2).toNat (line.length - 1)
    (fun k hk => hinside _ (by omega) (by omega)) 0 0
  refine ⟨a, b, ?_, ?_⟩
  · simp only [ha, ok_bind, hb]
    rfl
  have hale : 0 ≤ a ∧ a < line.length / 2 + line.length % 2 := by
    rcases hacases with rfl | ⟨k, hk, rfl⟩
    · omega
    · simp only [id]
      omega
  have hble : 0 ≤ b ∧ b < line.length - line.length / 2 := by
    rcases hbcases with rfl | ⟨k, hk, rfl⟩
    · omega
    · omega
  omega

/-- The scan for the greatest alpha value stays inside the line. -/
theorem findMaxAlpha_ok {line : ImageLine} (hinside : line.Inside) :
    ∃ alpha, findMaxAlpha line = .ok alpha := by
  have hloop : ∀ (n : ℕ) (i : ℤ) (maxAlpha : UInt32), 0 ≤ i → i + n ≤ line.length →
      ∃ alpha, maxAlphaLoop line n i maxAlpha = .ok alpha := by
    intro n
    induction n with
    | zero => exact fun _ maxAlpha _ _ => ⟨maxAlpha, rfl⟩
    | succ n ih =>
        intro i maxAlpha hi hle
        obtain ⟨color, hcolor⟩ := hinside i hi (by omega)
        simp only [maxAlphaLoop, hcolor, ok_bind]
        split
        · exact ih _ _ (by omega) (by omega)
        · exact ⟨maxAlpha, rfl⟩
  by_cases hpos : 0 ≤ line.length
  · exact hloop _ 0 0 le_rfl (by omega)
  · refine ⟨0, ?_⟩
    rw [findMaxAlpha, Int.toNat_of_nonpos (by omega)]
    rfl

section Outline

variable {image : Image} {x y length : ℤ}

/-- A horizontal line in the image. -/
theorem horizontalImageLine_inside (hx : 0 ≤ x) (hxw : x + length ≤ image.width) (hy : 0 ≤ y)
    (hyh : y < image.height) : (horizontalImageLine image x y length).Inside := fun i hi hlt =>
  image.exists_color (by omega) (by simp only [horizontalImageLine] at hlt; omega) hy hyh

/-- A vertical line in the image. -/
theorem verticalImageLine_inside (hx : 0 ≤ x) (hxw : x < image.width) (hy : 0 ≤ y)
    (hyh : y + length ≤ image.height) : (verticalImageLine image x y length).Inside :=
  fun i hi hlt =>
    image.exists_color hx hxw (by omega) (by simp only [verticalImageLine] at hlt; omega)

/-- A diagonal in the image. -/
theorem diagonalImageLine_inside (hx : 0 ≤ x) (hxw : x + length ≤ image.width) (hy : 0 ≤ y)
    (hyh : y + length ≤ image.height) : (diagonalImageLine image x y 1 1 length).Inside :=
  fun i hi hlt => by
    simp only [diagonalImageLine] at hlt ⊢
    exact image.exists_color (by omega) (by omega) (by omega) (by omega)

end Outline

/-- **The outline** of an image with content is found without a fault. -/
theorem computeOutline_ok {image : Image} (hw : 3 ≤ image.width) (hh : 3 ≤ image.height) :
    ∃ outline, computeOutline image image.width image.height = .ok outline := by
  obtain ⟨left, right, hrow, hleft, hright, hlr⟩ := findOutlineInsets_ok
    (@horizontalImageLine_inside image 1 ((image.height : ℤ) / 2) (image.width - 2) (by omega)
      (by omega) (by omega) (by omega)) (by simp only [horizontalImageLine]; omega)
  obtain ⟨top, bottom, hcol, htop, hbottom, htb⟩ := findOutlineInsets_ok
    (@verticalImageLine_inside image ((image.width : ℤ) / 2) 1 (image.height - 2) (by omega)
      (by omega) (by omega) (by omega)) (by simp only [verticalImageLine]; omega)
  simp only [horizontalImageLine] at hlr
  simp only [verticalImageLine] at htb
  have hwidth : 0 < (image.width : ℤ) - 2 - left - right := by omega
  have hheight : 0 < (image.height : ℤ) - 2 - top - bottom := by omega
  obtain ⟨rowAlpha, hrowAlpha⟩ := findMaxAlpha_ok
    (@horizontalImageLine_inside image (1 + left)
      (1 + top + ((image.height : ℤ) - 2 - top - bottom) / 2)
      ((image.width : ℤ) - 2 - left - right) (by omega) (by omega) (by omega) (by omega))
  obtain ⟨colAlpha, hcolAlpha⟩ := findMaxAlpha_ok
    (@verticalImageLine_inside image (1 + left + ((image.width : ℤ) - 2 - left - right) / 2)
      (1 + top) ((image.height : ℤ) - 2 - top - bottom) (by omega) (by omega) (by omega)
      (by omega))
  have hmin : 0 < min ((image.width : ℤ) - 2 - left - right)
      ((image.height : ℤ) - 2 - top - bottom) := lt_min hwidth hheight
  obtain ⟨topLeft, bottomRight, hdiagonal, -⟩ := findOutlineInsets_ok
    (@diagonalImageLine_inside image (1 + left) (1 + top)
      (min ((image.width : ℤ) - 2 - left - right) ((image.height : ℤ) - 2 - top - bottom))
      (by omega) (by omega) (by omega) (by omega)) hmin
  refine ⟨(⟨left, top, right, bottom⟩, topLeft, max rowAlpha colAlpha), ?_⟩
  simp only [computeOutline, hrow, ok_bind, hcol, hrowAlpha, hcolAlpha, hdiagonal]
  rfl

end AndroidSdk.Androidfw.NinePatch
