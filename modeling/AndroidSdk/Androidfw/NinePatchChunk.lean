import AndroidSdk.Androidfw.NinePatchCreate
import Mathlib.Data.List.Forall2
import Mathlib.Data.List.ProdSigma

/-! # What is stored of a nine-patch

The rectangles of an accepted image, their colours, and the chunk that `SerializeBase` writes.

* **`CutsContent`** — rectangles that cut the content along the runs of the borders.
* **`StoredCompletely`** — the chunk counts and holds all divisions and colours.
* **`storedCompletely_iff`** — it does so if no border has more than 127 black runs. -/

namespace AndroidSdk.Androidfw.NinePatch

open Lib

/-! ## Rectangles -/

/-- A piece of an axis is a maximal run of black or of other colours. -/
def IsSegment (c : ℕ → UInt32) (n : ℕ) (piece : ℕ × ℕ) : Prop :=
  IsMaxRun (fun i => c i = kPrimaryColor) n piece
    ∨ IsMaxRun (fun i => !decide (c i = kPrimaryColor)) n piece

/-- The pixel is in the rectangle, which is given by its rows and columns. -/
def Covers (rect : (ℕ × ℕ) × (ℕ × ℕ)) (x y : ℕ) : Prop :=
  (rect.1.1 ≤ y ∧ y < rect.1.2) ∧ (rect.2.1 ≤ x ∧ x < rect.2.2)

instance (rect : (ℕ × ℕ) × (ℕ × ℕ)) (x y : ℕ) : Decidable (Covers rect x y) :=
  inferInstanceAs (Decidable (_ ∧ _))

/-- The rectangles cut the content along the black runs of the left and the top border; they cover
every pixel exactly once, and they are in row-major order. -/
structure CutsContent (image : Image) (rects : List ((ℕ × ℕ) × (ℕ × ℕ))) : Prop where
  segments : ∀ rect ∈ rects, IsSegment image.left image.innerHeight rect.1
    ∧ IsSegment image.top image.innerWidth rect.2
  once : ∀ x < image.innerWidth, ∀ y < image.innerHeight,
    rects.countP (fun rect => Covers rect x y) = 1
  ordered : rects.Pairwise fun rect rect' =>
    rect.1.2 ≤ rect'.1.1 ∨ rect.1 = rect'.1 ∧ rect.2.2 ≤ rect'.2.1

/-- The rectangles of an image. -/
def Image.rectangles (image : Image) : List ((ℕ × ℕ) × (ℕ × ℕ)) :=
  (cuts image.innerHeight 0 image.verticalRuns) ×ˢ (cuts image.innerWidth 0 image.horizontalRuns)

/-- The items of a product that satisfy two conditions. -/
theorem countP_product {α β : Type} (l : List α) (m : List β) (P : α → Bool) (Q : β → Bool) :
    (l ×ˢ m).countP (fun p => P p.1 && Q p.2) = l.countP P * m.countP Q := by
  induction l with
  | nil => rw [List.nil_product, List.countP_nil, List.countP_nil, zero_mul]
  | cons a l ih =>
      rw [List.product_cons, List.countP_append, ih, List.countP_map, List.countP_cons]
      cases hP : P a with
      | false => simp [Function.comp_def, hP]
      | true =>
          simp only [Function.comp_def, hP, Bool.true_and, if_true, add_mul, one_mul]
          exact Nat.add_comm _ _

/-- **The rectangles of an image cut its content.** -/
theorem cutsContent_rectangles (image : Image) : CutsContent image image.rectangles where
  segments rect hrect := by
    obtain ⟨hrow, hcol⟩ := List.mem_product.mp hrect
    exact ⟨isMaxRun_of_mem_cuts hrow, isMaxRun_of_mem_cuts hcol⟩
  once x hx y hy := by
    have hcount := countP_product (cuts image.innerHeight 0 image.verticalRuns)
      (cuts image.innerWidth 0 image.horizontalRuns) (fun c => decide (c.1 ≤ y ∧ y < c.2))
      (fun c => decide (c.1 ≤ x ∧ x < c.2))
    have hrows := countP_cuts (n := image.innerHeight) (between_maxRuns
      (fun i => decide (image.left i = kPrimaryColor)) image.innerHeight) y
    have hcols := countP_cuts (n := image.innerWidth) (between_maxRuns
      (fun i => decide (image.top i = kPrimaryColor)) image.innerWidth) x
    rw [if_pos ⟨Nat.zero_le y, hy⟩] at hrows
    rw [if_pos ⟨Nat.zero_le x, hx⟩] at hcols
    have hcovers : (fun rect => decide (Covers rect x y)) = fun rect : (ℕ × ℕ) × (ℕ × ℕ) =>
        decide (rect.1.1 ≤ y ∧ y < rect.1.2) && decide (rect.2.1 ≤ x ∧ x < rect.2.2) := by
      funext rect
      exact Bool.decide_and _ _
    rw [Image.rectangles, hcovers, hcount]
    exact (congrArg₂ (· * ·) hrows hcols).trans (Nat.mul_one 1)
  ordered := by
    have hrows := cuts_pairwise (between_maxRuns
      (fun i => decide (image.left i = kPrimaryColor)) image.innerHeight)
    have hcols := cuts_pairwise (between_maxRuns
      (fun i => decide (image.top i = kPrimaryColor)) image.innerWidth)
    refine List.pairwise_flatMap.mpr ⟨fun row hrow => ?_, ?_⟩
    · exact List.pairwise_map.mpr (hcols.imp fun h => .inr ⟨rfl, h⟩)
    · refine hrows.imp fun h rect hrect rect' hrect' => .inl ?_
      obtain ⟨_, _, rfl⟩ := List.mem_map.mp hrect
      obtain ⟨_, _, rfl⟩ := List.mem_map.mp hrect'
      exact h

/-! ## The chunk -/

/-- The stretch regions of a nine-patch are the black runs, there is one colour for each rectangle,
and the chunk counts and holds all of them. -/
structure StoredCompletely (image : Image) (ninePatch : NinePatch) : Prop where
  cut : CutsContent image image.rectangles
  horizontal_eq : ninePatch.horizontalStretchRegions = image.horizontalRuns.map toRange
  vertical_eq : ninePatch.verticalStretchRegions = image.verticalRuns.map toRange
  colors : List.Forall₂ (fun rect color => IsRegionColor image rect.1 rect.2 color)
    image.rectangles ninePatch.regionColors
  numXDivs_eq : (serializeBase ninePatch).numXDivs.toNat = 2 * image.horizontalRuns.length
  numYDivs_eq : (serializeBase ninePatch).numYDivs.toNat = 2 * image.verticalRuns.length
  numColors_eq : (serializeBase ninePatch).numColors.toNat = ninePatch.regionColors.length
  xDivs_eq : (serializeBase ninePatch).xDivs = divsOf ninePatch.horizontalStretchRegions
  yDivs_eq : (serializeBase ninePatch).yDivs = divsOf ninePatch.verticalStretchRegions
  colors_eq : (serializeBase ninePatch).colors = ninePatch.regionColors

/-- The colours are those of the rectangles. -/
theorem regionColors_eq_map (image : Image) :
    image.regionColors = image.rectangles.map fun rect => regionColor image rect.1 rect.2 := by
  have hrow (row : ℕ × ℕ) :
      ((cuts image.innerWidth 0 image.horizontalRuns).map (Prod.mk row)).map
          (fun rect => regionColor image rect.1 rect.2)
        = (cuts image.innerWidth 0 image.horizontalRuns).map (regionColor image row) :=
    List.map_map
  refine Eq.trans ?_ List.map_flatMap.symm
  rw [Image.regionColors]
  exact congrArg (List.flatMap · _) (funext fun row => (hrow row).symm)

/-- **The colours of the rectangles.** -/
theorem forall₂_regionColors (image : Image) :
    List.Forall₂ (fun rect color => IsRegionColor image rect.1 rect.2 color) image.rectangles
      image.regionColors := by
  rw [regionColors_eq_map]
  refine List.forall₂_map_right_iff.mpr (List.forall₂_same.mpr fun rect hrect => ?_)
  obtain ⟨hrow, hcol⟩ := List.mem_product.mp hrect
  exact isRegionColor_regionColor image (lt_of_mem_cuts (between_maxRuns _ _) hrow).2.1
    (lt_of_mem_cuts (between_maxRuns _ _) hcol).2.1

/-- An accepted image is well formed. -/
theorem wellFormed_of_create {image : Image} {ninePatch : NinePatch}
    (h : create image = .ok ninePatch) :
    ∃ validator outline, image.WellFormed validator ∧ ninePatch = ninePatchOf image outline := by
  have hnot : ¬ RejectedWithText (create image) := by
    rintro ⟨msg, _, herror⟩
    rw [h] at herror
    cases herror
  by_cases hfit : ∃ validator, image.TopLeftFit validator
  case neg =>
    exact absurd (rejectedWithText_of_not_topLeftFit fun validator h => hfit ⟨validator, h⟩) hnot
  obtain ⟨validator, hfit⟩ := hfit
  by_cases hleft : image.leftRedRuns = []
  case neg =>
    have hnull := create_of_topLeftFit hfit
    rw [if_neg hleft, h] at hnull
    cases hnull
  by_cases hwell : image.WellFormed validator
  · obtain ⟨outline, hok⟩ := create_of_wellFormed hwell
    exact ⟨validator, outline, hwell, Except.ok.inj (h.symm.trans hok)⟩
  · exact absurd (rejectedWithText_of_not_wellFormed hfit hleft hwell) hnot

/-- The number of divisions in the header. -/
theorem numDivs_eq_iff (n : ℕ) :
    (UInt8.ofNat ((UInt8.ofNat n).toNat * 2)).toNat = 2 * n ↔ n ≤ 127 := by
  rw [UInt8.toNat_ofNat', UInt8.toNat_ofNat']
  omega

/-- The divisions of ranges. -/
theorem length_divsOf (ranges : List Range) : (divsOf ranges).length = 2 * ranges.length := by
  induction ranges with
  | nil => rfl
  | cons range ranges ih =>
      have hcons : divsOf (range :: ranges) = range.start :: range.stop :: divsOf ranges := rfl
      rw [hcons, List.length_cons, List.length_cons, List.length_cons, ih]
      omega

/-- An axis without a run has at most one piece. -/
theorem length_cuts_nil_le (n : ℕ) : (cuts n 0 []).length ≤ 1 := by
  rw [cuts]
  split_ifs
  · exact Nat.zero_le 1
  · exact le_rfl

/-- An axis with at most 127 runs has at most 255 pieces. -/
theorem length_cuts_le {c : ℕ → UInt32} {n : ℕ}
    (hle : (colorRuns c n kPrimaryColor).length ≤ 127) :
    (cuts n 0 (colorRuns c n kPrimaryColor)).length ≤ 255 := by
  have hpair := maxRuns_pairwise (fun i => c i = kPrimaryColor) n
  rw [← colorRuns] at hpair
  cases hruns : colorRuns c n kPrimaryColor with
  | nil => exact (length_cuts_nil_le n).trans (by decide)
  | cons r rs =>
      rw [hruns] at hpair hle
      have hlength := length_cuts (n := n) 0 hpair
      rw [List.length_cons] at hle
      split_ifs at hlength <;> omega

/-- The number of rectangles of a nine-patch with few runs. -/
theorem length_rectangles_le {image : Image} {validator : ColorValidator}
    (h : image.WellFormed validator) (hx : image.horizontalRuns.length ≤ 127)
    (hy : image.verticalRuns.length ≤ 127) : image.rectangles.length ≤ 255 := by
  have hcols : (cuts image.innerWidth 0 image.horizontalRuns).length ≤ 255 := length_cuts_le hx
  have hrows : (cuts image.innerHeight 0 image.verticalRuns).length ≤ 255 := length_cuts_le hy
  rw [Image.rectangles, List.length_product]
  by_cases hhorizontal : image.horizontalRuns = []
  · -- an axis without a run counts as one piece
    have hone := length_cuts_nil_le image.innerWidth
    rw [hhorizontal]
    exact (Nat.mul_le_mul hrows hone).trans (by decide)
  by_cases hvertical : image.verticalRuns = []
  · have hone := length_cuts_nil_le image.innerHeight
    rw [hvertical]
    exact (Nat.mul_le_mul hone hcols).trans (by decide)
  · have hregions := h.regions_le
    rw [calculateSegmentCount_eq hhorizontal (maxRuns_pairwise _ _),
      calculateSegmentCount_eq hvertical (maxRuns_pairwise _ _)] at hregions
    have hproduct := (Int.ofNat_le.mp (by push_cast; exact hregions) :
      (cuts image.innerWidth 0 image.horizontalRuns).length
        * (cuts image.innerHeight 0 image.verticalRuns).length ≤ 127)
    rw [Nat.mul_comm]
    omega

/-- **When a nine-patch is stored completely**: the top and the left border have at most 127 black
runs. -/
theorem storedCompletely_iff {image : Image} {ninePatch : NinePatch}
    (h : create image = .ok ninePatch) :
    StoredCompletely image ninePatch
      ↔ image.horizontalRuns.length ≤ 127 ∧ image.verticalRuns.length ≤ 127 := by
  obtain ⟨validator, outline, hwell, rfl⟩ := wellFormed_of_create h
  have hx : (serializeBase (ninePatchOf image outline)).numXDivs.toNat
      = 2 * image.horizontalRuns.length ↔ image.horizontalRuns.length ≤ 127 := by
    rw [← numDivs_eq_iff]
    simp only [serializeBase, ninePatchOf, List.length_map]
  have hy : (serializeBase (ninePatchOf image outline)).numYDivs.toNat
      = 2 * image.verticalRuns.length ↔ image.verticalRuns.length ≤ 127 := by
    rw [← numDivs_eq_iff]
    simp only [serializeBase, ninePatchOf, List.length_map]
  constructor
  · exact fun hstored => ⟨hx.mp hstored.numXDivs_eq, hy.mp hstored.numYDivs_eq⟩
  · rintro ⟨hhorizontal, hvertical⟩
    have hcolors : image.regionColors.length ≤ 255 := by
      rw [regionColors_eq_map, List.length_map]
      exact length_rectangles_le hwell hhorizontal hvertical
    have hnum : (serializeBase (ninePatchOf image outline)).numColors.toNat
        = image.regionColors.length :=
      UInt8.toNat_ofNat'.trans (Nat.mod_eq_of_lt (Nat.lt_of_le_of_lt hcolors (by decide)))
    have hdivs (runs : List (ℕ × ℕ)) : (divsOf (runs.map toRange)).length = 2 * runs.length := by
      rw [length_divsOf, List.length_map]
    refine ⟨cutsContent_rectangles image, rfl, rfl, forall₂_regionColors image, hx.mpr hhorizontal,
      hy.mpr hvertical, hnum, ?_, ?_, ?_⟩
    · exact List.take_of_length_le ((hdivs _).trans_le (hx.mpr hhorizontal).ge)
    · exact List.take_of_length_le ((hdivs _).trans_le (hy.mpr hvertical).ge)
    · exact List.take_of_length_le hnum.ge

/-- An opaque black pixel. -/
def black : Pixel := ⟨0, 0, 0, 255⟩

/-- One stretched pixel, with a green corner of the content. -/
def stretch4x4 : Image :=
  ⟨4, 4, [[white, white, black, white], [white, ⟨0, 255, 0, 255⟩, red, white],
    [black, red, red, white], [white, white, white, white]], rfl, by decide⟩

/-- The nine-patch of the image above is stored completely. -/
theorem storedCompletely_iff_stretch4x4 :
    ∃ ninePatch, create stretch4x4 = .ok ninePatch
      ∧ ninePatch.regionColors = [0xff00ff00, 0xffff0000, 0xffff0000, 0xffff0000]
      ∧ (StoredCompletely stretch4x4 ninePatch
        ↔ stretch4x4.horizontalRuns.length ≤ 127 ∧ stretch4x4.verticalRuns.length ≤ 127) := by
  have hok : create stretch4x4 = .ok
      ⟨⟨1, 1, 0, 0⟩, ⟨0, 0, 0, 0⟩, ⟨0, 0, 0, 0⟩, 0, 255, [⟨1, 2⟩], [⟨1, 2⟩],
        [0xff00ff00, 0xffff0000, 0xffff0000, 0xffff0000]⟩ := by rfl
  exact ⟨_, hok, rfl, storedCompletely_iff hok⟩

/-- The top row of an image with 128 black runs. -/
def combRow : List Pixel := (List.range 258).map fun x => if x % 2 = 1 then black else white

/-- White but for 128 black runs on the top border. -/
def comb258x3 : Image where
  width := 258
  height := 3
  rows := [combRow, List.replicate 258 white, List.replicate 258 white]
  rows_length := rfl
  row_length row hrow := by
    simp only [List.mem_cons, List.not_mem_nil, or_false] at hrow
    rcases hrow with rfl | rfl | rfl
    · rw [combRow, List.length_map, List.length_range]
    · exact List.length_replicate
    · exact List.length_replicate

/-- A pixel of the top border of the image above. -/
theorem comb258x3_top {i : ℕ} (hi : i < 256) :
    comb258x3.top i = if i % 2 = 0 then kPrimaryColor else kColorOpaqueWhite := by
  have hpixel : comb258x3.pixelAt (i + 1) 0 = if (i + 1) % 2 = 1 then black else white := by
    change combRow.getD (i + 1) _ = _
    have hget : (List.range 258)[i + 1]? = some (i + 1) := List.getElem?_range (by omega)
    rw [combRow, List.getD_eq_getElem?_getD, List.getElem?_map, hget]
    rfl
  rw [Image.top, Image.colorAt, hpixel]
  rcases Nat.mod_two_eq_zero_or_one i with hparity | hparity
  · rw [if_pos (by omega), if_pos hparity]
    rfl
  · rw [if_neg (by omega), if_neg (by omega)]
    rfl

/-- A border of the image above other than the top one. -/
theorem comb258x3_white {x y : ℕ} (hx : x < 258) (hy : y = 1 ∨ y = 2) :
    comb258x3.colorAt x y = kColorOpaqueWhite := by
  have hpixel : comb258x3.pixelAt x y = (List.replicate 258 white).getD x ⟨0, 0, 0, 0⟩ := by
    rcases hy with rfl | rfl <;> rfl
  rw [Image.colorAt, hpixel, List.getD_eq_getElem?_getD, List.getElem?_replicate, if_pos hx]
  rfl

/-- A border without a colour has no run of it. -/
theorem colorRuns_eq_nil {c : ℕ → UInt32} {n : ℕ} {color : UInt32} (h : ∀ i < n, c i ≠ color) :
    colorRuns c n color = [] := by
  refine List.eq_nil_iff_forall_not_mem.mpr fun r hr => ?_
  have hrun := mem_maxRuns_iff.mp hr
  have hend := hrun.lt.trans_le hrun.le
  exact h r.1 hend (of_decide_eq_true (hrun.inside r.1 le_rfl hrun.lt))

/-- A border that is white. -/
theorem white_border {c : ℕ → UInt32} {n : ℕ} (h : ∀ i < n, c i = kColorOpaqueWhite) :
    Image.ValidBorder .white c n ∧ colorRuns c n kPrimaryColor = []
      ∧ colorRuns c n kSecondaryColor = [] ∧ Image.RunsFit c n := by
  have hblack : colorRuns c n kPrimaryColor = [] :=
    colorRuns_eq_nil fun i hi => by rw [h i hi]; decide
  have hred : colorRuns c n kSecondaryColor = [] :=
    colorRuns_eq_nil fun i hi => by rw [h i hi]; decide
  refine ⟨fun i hi => by rw [h i hi]; decide, hblack, hred, ?_⟩
  rw [Image.RunsFit, hblack, hred]
  exact ⟨Nat.zero_le 1, Nat.zero_le 2, fun _ h => (nomatch h), fun _ _ h => (nomatch h)⟩

/-- The image above is a nine-patch. -/
theorem wellFormed_comb258x3 : comb258x3.WellFormed .white := by
  have hleft := white_border (c := comb258x3.left) (n := comb258x3.innerHeight) fun i hi =>
    comb258x3_white (by decide) (.inl (by rw [Nat.lt_one_iff.mp hi]))
  have hright := white_border (c := comb258x3.right) (n := comb258x3.innerHeight) fun i hi =>
    comb258x3_white (by decide) (.inl (by rw [Nat.lt_one_iff.mp hi]))
  have hbottom := white_border (c := comb258x3.bottom) (n := comb258x3.innerWidth) fun i hi =>
    comb258x3_white (Nat.succ_lt_succ (hi.trans (by decide))) (.inr rfl)
  have htop (i : ℕ) (hi : i < 256) : ColorValidator.white.isValidColor (comb258x3.top i) = true
      ∧ comb258x3.top i ≠ kSecondaryColor := by
    rw [comb258x3_top hi]
    split_ifs <;> decide
  refine {
    width_le := by decide
    height_le := by decide
    corner_eq := by rfl
    top_valid := fun i hi => (htop i hi).1
    top_red := colorRuns_eq_nil fun i hi => (htop i hi).2
    left_valid := hleft.1
    left_red := hleft.2.2.1
    bottom_valid := hbottom.1
    bottom_fit := hbottom.2.2.2
    right_valid := hright.1
    right_fit := hright.2.2.2
    regions_le := ?_ }
  -- the segment count of the axis without a run is 0
  have hvertical : comb258x3.verticalRuns = [] := hleft.2.1
  rw [hvertical, List.map_nil]
  exact (Int.mul_zero _).trans_le (by decide)

/-- The image above has 128 black runs. -/
theorem length_horizontalRuns_comb258x3 : comb258x3.horizontalRuns.length = 128 := by
  have halternating (i : ℕ) (_ : 0 ≤ i) (hi : i < 0 + 2 * 128) :
      decide (comb258x3.top i = kPrimaryColor) = decide (i % 2 = 0 % 2) := by
    rw [comb258x3_top (by omega)]
    rcases Nat.mod_two_eq_zero_or_one i with hparity | hparity
    · rw [if_pos hparity, hparity]
      rfl
    · rw [if_neg (by omega), hparity]
      rfl
  exact length_runsFrom_alternating halternating

/-- The nine-patch of 128 black runs is stored without a division. -/
theorem not_storedCompletely_comb258x3 :
    ∃ ninePatch, create comb258x3 = .ok ninePatch
      ∧ ninePatch.horizontalStretchRegions.length = 128
      ∧ (serializeBase ninePatch).numXDivs = 0 ∧ ¬ StoredCompletely comb258x3 ninePatch := by
  obtain ⟨outline, hok⟩ := create_of_wellFormed wellFormed_comb258x3
  have hlength : (ninePatchOf comb258x3 outline).horizontalStretchRegions.length = 128 :=
    (List.length_map toRange).trans length_horizontalRuns_comb258x3
  have hnum : (serializeBase (ninePatchOf comb258x3 outline)).numXDivs = 0 := by
    rw [serializeBase, hlength]
    rfl
  refine ⟨_, hok, hlength, hnum, fun hstored => ?_⟩
  have hdivs := hstored.numXDivs_eq
  rw [hnum, length_horizontalRuns_comb258x3] at hdivs
  exact absurd hdivs (by decide)

end AndroidSdk.Androidfw.NinePatch
