import AndroidSdk.Androidfw.NinePatchRegions
import AndroidSdk.Lib.Text

/-! # Reading the borders of a nine-patch image

When an image is accepted, and what the padding and the layout bounds are then.

* **`PaddingAsDrawn`**, **`LayoutAsDrawn`** — the padding and the layout bounds are those that a
  border shows.
* **`WellFormed`**, **`RedLeft`** — the images that are accepted, and those that are rejected
  without a text.
* **`create_of_wellFormed`** — what `Create` makes of an image that is accepted.
* **`readAsDrawn_iff`** — borders are read as drawn but for red pixels on the left border and for a
  lone red run at the end of an axis. -/

namespace AndroidSdk.Androidfw.NinePatch

open Lib

/-! ## The borders of an image -/

namespace Image

variable (image : Image)

/-- The width of the content. -/
def innerWidth : ℕ := image.width - 2

/-- The height of the content. -/
def innerHeight : ℕ := image.height - 2

/-- The top border. -/
def top (i : ℕ) : UInt32 := image.colorAt (i + 1) 0

/-- The left border. -/
def left (i : ℕ) : UInt32 := image.colorAt 0 (i + 1)

/-- The bottom border. -/
def bottom (i : ℕ) : UInt32 := image.colorAt (i + 1) (image.height - 1)

/-- The right border. -/
def right (i : ℕ) : UInt32 := image.colorAt (image.width - 1) (i + 1)

/-- The neutral colour by the top-left corner. -/
def corner : Option ColorValidator :=
  if (image.pixelAt 0 0).alpha = 0 then some .transparent
  else if image.colorAt 0 0 = kColorOpaqueWhite then some .white
  else none

variable {image}

/-- The width of the content, with sign. -/
theorem cast_innerWidth (hw : 3 ≤ image.width) : (image.width : ℤ) - 2 = image.innerWidth := by
  unfold innerWidth
  omega

/-- The height of the content, with sign. -/
theorem cast_innerHeight (hh : 3 ≤ image.height) : (image.height : ℤ) - 2 = image.innerHeight := by
  unfold innerHeight
  omega

variable (hw : 3 ≤ image.width) (hh : 3 ≤ image.height)
include hw hh

/-- The line of the top border. -/
theorem isBorder_top :
    (horizontalImageLine image 0 0 image.width).IsBorder image.innerWidth image.top where
  length_eq := by
    simp only [horizontalImageLine, innerWidth]
    omega
  getColor_eq i hi := by
    have hcolor := image.color_eq (show i + 1 < image.width by unfold innerWidth at hi; omega)
      (show 0 < image.height by omega)
    push_cast at hcolor
    simpa only [horizontalImageLine, add_zero, top, bottom] using hcolor

/-- The line of the left border. -/
theorem isBorder_left :
    (verticalImageLine image 0 0 image.height).IsBorder image.innerHeight image.left where
  length_eq := by
    simp only [verticalImageLine, innerHeight]
    omega
  getColor_eq i hi := by
    have hcolor := image.color_eq (show 0 < image.width by omega)
      (show i + 1 < image.height by unfold innerHeight at hi; omega)
    push_cast at hcolor
    simpa only [verticalImageLine, zero_add, left, right] using hcolor

/-- The line of the bottom border. -/
theorem isBorder_bottom :
    (horizontalImageLine image 0 (image.height - 1) image.width).IsBorder image.innerWidth
      image.bottom where
  length_eq := by
    simp only [horizontalImageLine, innerWidth]
    omega
  getColor_eq i hi := by
    have hcolor := image.color_eq (show i + 1 < image.width by unfold innerWidth at hi; omega)
      (show image.height - 1 < image.height by omega)
    rw [Nat.cast_sub (by omega)] at hcolor
    push_cast at hcolor
    simpa only [horizontalImageLine, add_zero, top, bottom] using hcolor

/-- The line of the right border. -/
theorem isBorder_right :
    (verticalImageLine image (image.width - 1) 0 image.height).IsBorder image.innerHeight
      image.right where
  length_eq := by
    simp only [verticalImageLine, innerHeight]
    omega
  getColor_eq i hi := by
    have hcolor := image.color_eq (show image.width - 1 < image.width by omega)
      (show i + 1 < image.height by unfold innerHeight at hi; omega)
    rw [Nat.cast_sub (by omega)] at hcolor
    push_cast at hcolor
    simpa only [verticalImageLine, zero_add, left, right] using hcolor

/-- The validator for the corner. -/
theorem cornerValidator_eq :
    cornerValidator image = match image.corner with
      | some validator => .ok validator
      | none => .error (.rejected
          (some "top-left corner pixel must be either opaque white or transparent")) := by
  have hpixel := image.pixel_eq (show 0 < image.width by omega) (show 0 < image.height by omega)
  rw [Nat.cast_zero] at hpixel
  simp only [cornerValidator, hpixel, ok_bind]
  rw [corner]
  split_ifs <;> first | rfl | contradiction

end Image

/-! ## Padding and layout bounds -/

/-- The runs of a bottom or right border that are accepted. -/
structure BoundsFit (black red : List (ℕ × ℕ)) (n : ℕ) : Prop where
  black_le : black.length ≤ 1
  red_le : red.length ≤ 2
  first_edge : ∀ r ∈ red.head?, r.1 = 0 ∨ r.2 = n
  last_edge : 2 ≤ red.length → ∀ r ∈ red.getLast?, r.2 = n

/-- A lone red run that touches the end only. -/
def LoneEnd (red : List (ℕ × ℕ)) (n : ℕ) : Prop := ∃ r, red = [r] ∧ r.1 ≠ 0 ∧ r.2 = n

/-- The paddings are the distances of the black run from the two ends, or those of the first and the
last stretch run. -/
structure PaddingAsDrawn (black stretch : List (ℕ × ℕ)) (n : ℕ) (b : AxisBounds) : Prop where
  of_black : ∀ r ∈ black, b.paddingStart = r.1 ∧ b.paddingEnd = n - r.2
  of_stretch : black = [] → ∀ first ∈ stretch.head?, ∀ last ∈ stretch.getLast?,
    b.paddingStart = first.1 ∧ b.paddingEnd = n - last.2
  of_none : black = [] → stretch = [] → b.paddingStart = 0 ∧ b.paddingEnd = 0

/-- The layout bounds are the length of the red run that touches the start, and the length of the
red run that touches the end only. -/
structure LayoutAsDrawn (red : List (ℕ × ℕ)) (n : ℕ) (b : AxisBounds) : Prop where
  start : ∀ r ∈ red, r.1 = 0 → b.layoutStart = r.2
  no_start : (∀ r ∈ red, r.1 ≠ 0) → b.layoutStart = 0
  stop : ∀ r ∈ red, r.1 ≠ 0 → r.2 = n → b.layoutEnd = n - r.1
  no_stop : (∀ r ∈ red, r.1 = 0 ∨ r.2 ≠ n) → b.layoutEnd = 0

/-- What `PopulateBounds` finds for borders that are accepted. -/
def boundsOf (black red stretch : List (ℕ × ℕ)) (n : ℕ) : AxisBounds :=
  let padding := populatePadding (black.map toRange) (stretch.map toRange) n
  match red with
  | [] => ⟨padding.1, padding.2, 0, 0⟩
  | [r] => ⟨padding.1, padding.2, r.2, 0⟩
  | r :: r' :: _ => ⟨padding.1, padding.2, r.2, n - r'.1⟩

section Bounds

variable {black red stretch : List (ℕ × ℕ)} {n : ℕ} (edgeName : String)

/-- The message about layout bounds is not empty. -/
theorem edgeMsg_ne : edgeMsg edgeName ≠ "" :=
  append_ne_empty (append_ne_empty (by decide))

/-- The first range touches no end. -/
theorem not_edge_iff (r : ℕ × ℕ) :
    ((toRange r).start ≠ 0 ∧ (toRange r).stop ≠ (n : ℤ)) ↔ ¬ (r.1 = 0 ∨ r.2 = n) := by
  simp only [toRange]
  omega

/-- The last range does not touch the end. -/
theorem not_end_iff (r : ℕ × ℕ) : (toRange r).stop ≠ (n : ℤ) ↔ ¬ r.2 = n := by
  simp only [toRange]
  omega

/-- `PopulateBounds` without too many sections. -/
theorem populateBounds_of_le (hblack : black.length ≤ 1) (hred : red.length ≤ 2) :
    populateBounds (black.map toRange) (red.map toRange) (stretch.map toRange) n edgeName
      = match red with
        | [] => .ok (boundsOf black red stretch n)
        | [r] =>
            if ¬ (r.1 = 0 ∨ r.2 = n) then .error (.rejected (some (edgeMsg edgeName)))
            else .ok (boundsOf black red stretch n)
        | r :: r' :: _ =>
            if ¬ (r.1 = 0 ∨ r.2 = n) then .error (.rejected (some (edgeMsg edgeName)))
            else if ¬ r'.2 = n then .error (.rejected (some (edgeMsg edgeName)))
            else .ok (boundsOf black red stretch n) := by
  have hblack : ¬ (black.map toRange).length > 1 := by
    rw [List.length_map]
    exact Nat.not_lt.mpr hblack
  have hred' : ¬ (red.map toRange).length > 2 := by
    rw [List.length_map]
    exact Nat.not_lt.mpr hred
  rw [populateBounds, if_neg hblack]
  simp only [if_neg hred']
  rcases red with _ | ⟨r, _ | ⟨r', _ | ⟨r'', rest⟩⟩⟩
  · rfl
  · simp only [List.map_cons, List.head?_cons, not_edge_iff, List.map_nil]
    rfl
  · simp only [List.map_cons, List.head?_cons, not_edge_iff, List.map_nil]
    simp only [List.getLast?_cons_cons, List.getLast?_singleton, not_end_iff]
    rfl
  · simp only [List.length_cons] at hred
    omega

/-- **Borders that are accepted.** -/
theorem populateBounds_of_fit (h : BoundsFit black red n) :
    populateBounds (black.map toRange) (red.map toRange) (stretch.map toRange) n edgeName
      = .ok (boundsOf black red stretch n) := by
  rw [populateBounds_of_le edgeName h.black_le h.red_le]
  rcases red with _ | ⟨r, _ | ⟨r', rest⟩⟩
  · rfl
  · exact if_neg (not_not.mpr (h.first_edge r rfl))
  · have hrest : rest = [] := by
      have hlength := h.red_le
      simp only [List.length_cons] at hlength
      exact List.length_eq_zero_iff.mp (by omega)
    subst hrest
    simp only
    rw [if_neg (not_not.mpr (h.first_edge r rfl)),
      if_neg (not_not.mpr (h.last_edge le_rfl r' rfl))]

/-- **Borders that are rejected** are so with a text. -/
theorem populateBounds_of_not_fit (h : ¬ BoundsFit black red n) :
    ∃ msg, msg ≠ "" ∧ populateBounds (black.map toRange) (red.map toRange) (stretch.map toRange) n
      edgeName = .error (.rejected (some msg)) := by
  by_cases hblack : black.length ≤ 1
  case neg =>
    refine ⟨_, ?_, if_pos (by rw [List.length_map]; exact Nat.not_le.mp hblack)⟩
    exact append_ne_empty (append_ne_empty (by decide))
  by_cases hred : red.length ≤ 2
  case neg =>
    refine ⟨"too many layout bounds sections on " ++ edgeName ++ " border", ?_, ?_⟩
    · exact append_ne_empty (append_ne_empty (by decide))
    · rw [populateBounds, if_neg (by rw [List.length_map]; exact Nat.not_lt.mpr hblack)]
      exact if_pos (by rw [List.length_map]; exact Nat.not_le.mp hred)
  refine ⟨edgeMsg edgeName, edgeMsg_ne edgeName, ?_⟩
  rw [populateBounds_of_le edgeName hblack hred]
  rcases red with _ | ⟨r, _ | ⟨r', rest⟩⟩
  · exact absurd ⟨hblack, hred, fun r hr => absurd hr (Option.not_mem_none r),
      fun hlength => absurd hlength (by decide)⟩ h
  · refine if_pos fun hedge => h ⟨hblack, hred, fun t ht => ?_,
      fun hlength => absurd hlength (Nat.not_succ_le_self 1)⟩
    obtain rfl := Option.some.inj ht
    exact hedge
  · have hrest : rest = [] := by
      simp only [List.length_cons] at hred
      exact List.length_eq_zero_iff.mp (by omega)
    subst hrest
    simp only
    by_cases hedge : r.1 = 0 ∨ r.2 = n
    · rw [if_neg (not_not.mpr hedge)]
      refine if_pos fun hend => h ⟨hblack, hred, fun t ht => ?_, fun _ t ht => ?_⟩
      · obtain rfl := Option.some.inj ht
        exact hedge
      · obtain rfl := Option.some.inj ht
        exact hend
    · exact if_pos hedge

/-- **The padding is as drawn.** -/
theorem paddingAsDrawn_boundsOf (hblack : black.length ≤ 1) (red : List (ℕ × ℕ)) :
    PaddingAsDrawn black stretch n (boundsOf black red stretch n) := by
  have hpadding : (boundsOf black red stretch n).paddingStart
        = (populatePadding (black.map toRange) (stretch.map toRange) n).1
      ∧ (boundsOf black red stretch n).paddingEnd
        = (populatePadding (black.map toRange) (stretch.map toRange) n).2 := by
    rcases red with _ | ⟨r, _ | ⟨r', rest⟩⟩ <;> exact ⟨rfl, rfl⟩
  rcases black with _ | ⟨r, _ | ⟨r', rest⟩⟩
  · refine ⟨fun r hr => absurd hr List.not_mem_nil, fun _ first hfirst last hlast => ?_, ?_⟩
    · rw [hpadding.1, hpadding.2]
      simp only [populatePadding, List.map_nil, List.head?_nil, List.head?_map, List.getLast?_map,
        Option.mem_def.mp hfirst, Option.mem_def.mp hlast, Option.map_some, toRange, and_self]
    · rintro _ rfl
      exact hpadding
  · refine ⟨fun t ht => ?_, fun h => absurd h (List.cons_ne_nil r []),
      fun h => absurd h (List.cons_ne_nil r [])⟩
    rw [List.mem_singleton.mp ht]
    exact hpadding
  · simp only [List.length_cons] at hblack
    omega

/-- **The layout bounds are as drawn** but for a lone run at the end. -/
theorem layoutAsDrawn_boundsOf_iff (hfit : BoundsFit black red n)
    (hrun : ∀ r ∈ red, r.1 < r.2 ∧ r.2 ≤ n) (hpair : red.Pairwise fun r r' => r.2 < r'.1) :
    LayoutAsDrawn red n (boundsOf black red stretch n) ↔ ¬ LoneEnd red n := by
  rcases red with _ | ⟨r, _ | ⟨r', rest⟩⟩
  · refine iff_of_true ⟨fun r hr => absurd hr List.not_mem_nil, fun _ => rfl,
      fun r hr => absurd hr List.not_mem_nil, fun _ => rfl⟩ ?_
    rintro ⟨r, hr, _⟩
    exact absurd hr.symm (List.cons_ne_nil r [])
  · have hr := hrun r (List.mem_singleton_self r)
    by_cases h0 : r.1 = 0
    · refine iff_of_true ⟨fun t ht _ => ?_, fun h => absurd h0 (h r (List.mem_singleton_self r)),
        fun t ht hne => ?_, fun _ => rfl⟩ ?_
      · rw [List.mem_singleton.mp ht]
        rfl
      · rw [List.mem_singleton.mp ht] at hne
        exact absurd h0 hne
      · rintro ⟨t, ht, hne, _⟩
        obtain rfl := List.singleton_inj.mp ht
        exact hne h0
    · -- the start gets the length of the axis
      have hn := (hfit.first_edge r rfl).resolve_left h0
      refine iff_of_false (fun h => ?_) (not_not.mpr ⟨r, rfl, h0, hn⟩)
      have hstart : ((r.2 : ℕ) : ℤ) = 0 := h.no_start fun t ht => by
        rw [List.mem_singleton.mp ht]
        exact h0
      omega
  · have hrest : rest = [] := by
      have hlength := hfit.red_le
      simp only [List.length_cons] at hlength
      exact List.length_eq_zero_iff.mp (by omega)
    subst hrest
    have hgap := (List.pairwise_cons.mp hpair).1 r' (List.mem_singleton_self r')
    have hr := hrun r List.mem_cons_self
    have hr' := hrun r' (List.mem_cons_of_mem r (List.mem_singleton_self r'))
    have hend := hfit.last_edge le_rfl r' rfl
    have h0 : r.1 = 0 := (hfit.first_edge r rfl).resolve_right (by omega)
    have hmem {t : ℕ × ℕ} (ht : t ∈ [r, r']) : t = r ∨ t = r' := by simpa using ht
    refine iff_of_true ⟨fun t ht hzero => ?_, fun h => absurd h0 (h r List.mem_cons_self),
      fun t ht hne _ => ?_, fun h => ?_⟩ ?_
    · rcases hmem ht with rfl | rfl
      · rfl
      · omega
    · rcases hmem ht with rfl | rfl
      · exact absurd h0 hne
      · rfl
    · have hsecond := h r' (List.mem_cons_of_mem r (List.mem_singleton_self r'))
      omega
    · rintro ⟨t, ht, _⟩
      exact absurd (congrArg List.length ht) (by simp)

end Bounds

/-! ## What `Create` does -/

namespace Image

/-- All colours of a border are valid. -/
def ValidBorder (validator : ColorValidator) (c : ℕ → UInt32) (n : ℕ) : Prop :=
  ∀ i < n, validator.isValidColor (c i) = true

/-- The runs of a border are accepted. -/
def RunsFit (c : ℕ → UInt32) (n : ℕ) : Prop :=
  BoundsFit (colorRuns c n kPrimaryColor) (colorRuns c n kSecondaryColor) n

/-- The image has a corner and valid top and left borders, and the top border has no red pixel. -/
structure TopLeftFit (image : Image) (validator : ColorValidator) : Prop where
  width_le : 3 ≤ image.width
  height_le : 3 ≤ image.height
  corner_eq : image.corner = some validator
  top_valid : ValidBorder validator image.top image.innerWidth
  top_red : colorRuns image.top image.innerWidth kSecondaryColor = []
  left_valid : ValidBorder validator image.left image.innerHeight

/-- The black runs of the top border. -/
def horizontalRuns (image : Image) : List (ℕ × ℕ) :=
  colorRuns image.top image.innerWidth kPrimaryColor

/-- The black runs of the left border. -/
def verticalRuns (image : Image) : List (ℕ × ℕ) :=
  colorRuns image.left image.innerHeight kPrimaryColor

/-- The red runs of the left border. -/
def leftRedRuns (image : Image) : List (ℕ × ℕ) :=
  colorRuns image.left image.innerHeight kSecondaryColor

/-- The image is a nine-patch. -/
structure WellFormed (image : Image) (validator : ColorValidator) : Prop
    extends TopLeftFit image validator where
  left_red : image.leftRedRuns = []
  bottom_valid : ValidBorder validator image.bottom image.innerWidth
  bottom_fit : RunsFit image.bottom image.innerWidth
  right_valid : ValidBorder validator image.right image.innerHeight
  right_fit : RunsFit image.right image.innerHeight
  regions_le : calculateSegmentCount (image.horizontalRuns.map toRange) image.innerWidth
    * calculateSegmentCount (image.verticalRuns.map toRange) image.innerHeight ≤ 0x7f

/-- The left border of the image is the first thing wrong, and it has a red pixel. -/
def RedLeft (image : Image) : Prop :=
  ∃ validator, TopLeftFit image validator ∧ image.leftRedRuns ≠ []

end Image

/-- The padding and the layout bounds that a border shows. -/
def axisBounds (border stretch : ℕ → UInt32) (n : ℕ) : AxisBounds :=
  boundsOf (colorRuns border n kPrimaryColor) (colorRuns border n kSecondaryColor)
    (colorRuns stretch n kPrimaryColor) n

/-- The colours of all rectangles. -/
def Image.regionColors (image : Image) : List UInt32 :=
  (cuts image.innerHeight 0 image.verticalRuns).flatMap fun row =>
    (cuts image.innerWidth 0 image.horizontalRuns).map (regionColor image row)

/-- The nine-patch of an image, with an outline. -/
def ninePatchOf (image : Image) (outline : Bounds × ℤ × UInt32) : NinePatch :=
  let bottom := axisBounds image.bottom image.top image.innerWidth
  let right := axisBounds image.right image.left image.innerHeight
  { padding := ⟨bottom.paddingStart, right.paddingStart, bottom.paddingEnd, right.paddingEnd⟩
    layoutBounds := ⟨bottom.layoutStart, right.layoutStart, bottom.layoutEnd, right.layoutEnd⟩
    outline := outline.1
    outlineInset := outline.2.1
    outlineAlpha := outline.2.2
    horizontalStretchRegions := image.horizontalRuns.map toRange
    verticalStretchRegions := image.verticalRuns.map toRange
    regionColors := image.regionColors }

/-- `FillRanges` for a valid border. -/
theorem fillRanges_of_valid {line : ImageLine} {validator : ColorValidator} {n : ℕ}
    {c : ℕ → UInt32} (hline : line.IsBorder n c) (hvalid : Image.ValidBorder validator c n) :
    fillRanges line validator [] []
      = .ok ((colorRuns c n kPrimaryColor).map toRange,
          (colorRuns c n kSecondaryColor).map toRange) := by
  rw [fillRanges_eq hline, if_pos]
  exact List.all_eq_true.mpr fun i hi => hvalid i (List.mem_range.mp hi)

/-- `FillRanges` for another border. -/
theorem fillRanges_of_not_valid {line : ImageLine} {validator : ColorValidator} {n : ℕ}
    {c : ℕ → UInt32} (hline : line.IsBorder n c) (hvalid : ¬ Image.ValidBorder validator c n) :
    fillRanges line validator [] [] = .error (.rejected (some "found an invalid color")) := by
  rw [fillRanges_eq hline, if_neg]
  exact fun hall => hvalid fun i hi => List.all_eq_true.mp hall i (List.mem_range.mpr hi)

/-- A rejection with a text. -/
def RejectedWithText (r : Except Failure NinePatch) : Prop :=
  ∃ msg, msg ≠ "" ∧ r = .error (.rejected (some msg))

section Create

variable {image : Image}

/-- **An image is rejected with a text** before the red pixels of the left border are looked at. -/
theorem rejectedWithText_of_not_topLeftFit (h : ∀ validator, ¬ image.TopLeftFit validator) :
    RejectedWithText (create image) := by
  by_cases hsize : (image.width : ℤ) < 3 ∨ (image.height : ℤ) < 3
  · exact ⟨_, by decide, if_pos hsize⟩
  have hw : 3 ≤ image.width := by omega
  have hh : 3 ≤ image.height := by omega
  simp only [create, if_neg hsize, Image.cornerValidator_eq hw hh]
  cases hcorner : image.corner with
  | none => exact ⟨_, by decide, rfl⟩
  | some validator =>
      simp only [ok_bind]
      by_cases htop : Image.ValidBorder validator image.top image.innerWidth
      case neg =>
        rw [fillRanges_of_not_valid (Image.isBorder_top hw hh) htop]
        exact ⟨_, by decide, rfl⟩
      simp only [fillRanges_of_valid (Image.isBorder_top hw hh) htop, ok_bind]
      cases hred : colorRuns image.top image.innerWidth kSecondaryColor with
      | cons r rs =>
          refine ⟨_, ?_, rfl⟩
          exact append_ne_empty (by decide)
      | nil =>
          simp only [List.map_nil, List.head?_nil]
          by_cases hleft : Image.ValidBorder validator image.left image.innerHeight
          · exact absurd ⟨hw, hh, hcorner, htop, hred, hleft⟩ (h validator)
          · rw [fillRanges_of_not_valid (Image.isBorder_left hw hh) hleft]
            exact ⟨_, by decide, rfl⟩

/-- The part of `Create` behind the left border. -/
def createBehindLeft (image : Image) (validator : ColorValidator) : Except Failure NinePatch := do
  let (horizontalPadding, horizontalLayoutBounds) ←
    fillRanges (horizontalImageLine image 0 (image.height - 1) image.width) validator [] []
  let bottom ← populateBounds horizontalPadding horizontalLayoutBounds
    (image.horizontalRuns.map toRange) (image.width - 2) "bottom"
  let (verticalPadding, verticalLayoutBounds) ←
    fillRanges (verticalImageLine image (image.width - 1) 0 image.height) validator [] []
  let right ← populateBounds verticalPadding verticalLayoutBounds
    (image.verticalRuns.map toRange) (image.height - 2) "right"
  if calculateSegmentCount (image.horizontalRuns.map toRange) (image.width - 2)
      * calculateSegmentCount (image.verticalRuns.map toRange) (image.height - 2) > 0x7f then
    throw (.rejected (some "too many regions in 9-patch"))
  else do
    let regionColors ← calculateRegionColors image (image.horizontalRuns.map toRange)
      (image.verticalRuns.map toRange) (image.width - 2) (image.height - 2)
    let (outline, outlineInset, outlineAlpha) ← computeOutline image image.width image.height
    return {
      padding := ⟨bottom.paddingStart, right.paddingStart, bottom.paddingEnd, right.paddingEnd⟩
      layoutBounds := ⟨bottom.layoutStart, right.layoutStart, bottom.layoutEnd, right.layoutEnd⟩
      outline, outlineInset, outlineAlpha
      horizontalStretchRegions := image.horizontalRuns.map toRange
      verticalStretchRegions := image.verticalRuns.map toRange
      regionColors }

/-- What is left of `Create` for an image with fitting top and left borders. -/
theorem create_of_topLeftFit {validator : ColorValidator} (h : image.TopLeftFit validator) :
    create image = if image.leftRedRuns = [] then createBehindLeft image validator
      else .error (.rejected none) := by
  obtain ⟨hw, hh, hcorner, htop, hred, hleft⟩ := h
  have hsize : ¬ ((image.width : ℤ) < 3 ∨ (image.height : ℤ) < 3) := by omega
  simp only [create, if_neg hsize, Image.cornerValidator_eq hw hh, hcorner, ok_bind,
    fillRanges_of_valid (Image.isBorder_top hw hh) htop, hred, List.map_nil, List.head?_nil,
    fillRanges_of_valid (Image.isBorder_left hw hh) hleft]
  rw [Image.leftRedRuns]
  cases hleftRed : colorRuns image.left image.innerHeight kSecondaryColor with
  | nil =>
      rw [if_pos rfl]
      rfl
  | cons r rs =>
      rw [if_neg (List.cons_ne_nil r rs)]
      rfl

/-- **A nine-patch** is created from a well-formed image. -/
theorem create_of_wellFormed {validator : ColorValidator} (h : image.WellFormed validator) :
    ∃ outline, create image = .ok (ninePatchOf image outline) := by
  have hw := h.width_le
  have hh := h.height_le
  have hinnerWidth := Image.cast_innerWidth hw
  have hinnerHeight := Image.cast_innerHeight hh
  obtain ⟨outline, houtline⟩ := computeOutline_ok hw hh
  have hcolors : calculateRegionColors image (image.horizontalRuns.map toRange)
      (image.verticalRuns.map toRange) image.innerWidth image.innerHeight
      = .ok image.regionColors :=
    calculateRegionColors_eq (by unfold Image.innerWidth; omega)
      (by unfold Image.innerHeight; omega) (between_maxRuns _ _) (between_maxRuns _ _)
  have hregions := Int.not_lt.mpr h.regions_le
  refine ⟨outline, ?_⟩
  rw [create_of_topLeftFit h.toTopLeftFit, if_pos h.left_red]
  simp only [createBehindLeft, fillRanges_of_valid (Image.isBorder_bottom hw hh) h.bottom_valid,
    ok_bind, hinnerWidth, hinnerHeight, populateBounds_of_fit "bottom" h.bottom_fit,
    fillRanges_of_valid (Image.isBorder_right hw hh) h.right_valid,
    populateBounds_of_fit "right" h.right_fit, if_neg hregions, hcolors, houtline]
  rfl

/-- **Another image** with fitting top and left borders is rejected with a text. -/
theorem rejectedWithText_of_not_wellFormed {validator : ColorValidator}
    (hfit : image.TopLeftFit validator) (hleft : image.leftRedRuns = [])
    (h : ¬ image.WellFormed validator) : RejectedWithText (create image) := by
  have hw := hfit.width_le
  have hh := hfit.height_le
  have hinnerWidth := Image.cast_innerWidth hw
  have hinnerHeight := Image.cast_innerHeight hh
  rw [create_of_topLeftFit hfit, if_pos hleft]
  by_cases hbottom : Image.ValidBorder validator image.bottom image.innerWidth
  case neg =>
    rw [createBehindLeft, fillRanges_of_not_valid (Image.isBorder_bottom hw hh) hbottom]
    exact ⟨_, by decide, rfl⟩
  simp only [createBehindLeft, fillRanges_of_valid (Image.isBorder_bottom hw hh) hbottom, ok_bind,
    hinnerWidth, hinnerHeight]
  by_cases hbottomFit : Image.RunsFit image.bottom image.innerWidth
  case neg =>
    obtain ⟨msg, hmsg, herror⟩ := @populateBounds_of_not_fit _ _ image.horizontalRuns _ "bottom"
      hbottomFit
    rw [herror]
    exact ⟨msg, hmsg, rfl⟩
  simp only [populateBounds_of_fit "bottom" hbottomFit, ok_bind]
  by_cases hright : Image.ValidBorder validator image.right image.innerHeight
  case neg =>
    rw [fillRanges_of_not_valid (Image.isBorder_right hw hh) hright]
    exact ⟨_, by decide, rfl⟩
  simp only [fillRanges_of_valid (Image.isBorder_right hw hh) hright, ok_bind]
  by_cases hrightFit : Image.RunsFit image.right image.innerHeight
  case neg =>
    obtain ⟨msg, hmsg, herror⟩ := @populateBounds_of_not_fit _ _ image.verticalRuns _ "right"
      hrightFit
    rw [herror]
    exact ⟨msg, hmsg, rfl⟩
  simp only [populateBounds_of_fit "right" hrightFit, ok_bind]
  rw [if_pos]
  · exact ⟨_, by decide, rfl⟩
  · exact Int.not_le.mp fun hregions =>
      h ⟨hfit, hleft, hbottom, hbottomFit, hright, hrightFit, hregions⟩

end Create

/-! ## Whether borders are read as drawn -/

/-- The padding and the layout bounds of a nine-patch are those that its borders show. -/
structure BoundsAsDrawn (image : Image) (ninePatch : NinePatch) : Prop where
  bottom_padding : PaddingAsDrawn (colorRuns image.bottom image.innerWidth kPrimaryColor)
    image.horizontalRuns image.innerWidth ⟨ninePatch.padding.left, ninePatch.padding.right,
      ninePatch.layoutBounds.left, ninePatch.layoutBounds.right⟩
  bottom_layout : LayoutAsDrawn (colorRuns image.bottom image.innerWidth kSecondaryColor)
    image.innerWidth ⟨ninePatch.padding.left, ninePatch.padding.right,
      ninePatch.layoutBounds.left, ninePatch.layoutBounds.right⟩
  right_padding : PaddingAsDrawn (colorRuns image.right image.innerHeight kPrimaryColor)
    image.verticalRuns image.innerHeight ⟨ninePatch.padding.top, ninePatch.padding.bottom,
      ninePatch.layoutBounds.top, ninePatch.layoutBounds.bottom⟩
  right_layout : LayoutAsDrawn (colorRuns image.right image.innerHeight kSecondaryColor)
    image.innerHeight ⟨ninePatch.padding.top, ninePatch.padding.bottom,
      ninePatch.layoutBounds.top, ninePatch.layoutBounds.bottom⟩

/-- `Create` returns null just when it stores a text that is not empty, a nine-patch has the padding
and the layout bounds that its borders show, and no pixel outside the image is read. -/
structure ReadAsDrawn (image : Image) : Prop where
  null_iff : (∃ err, create image = .error (.rejected err)) ↔ RejectedWithText (create image)
  bounds : ∀ ninePatch, create image = .ok ninePatch → BoundsAsDrawn image ninePatch
  inside : create image ≠ .error .fault

/-- The image is a nine-patch, and a lone red run of its bottom or right border touches the end
only. -/
def Image.LoneEndRun (image : Image) : Prop :=
  (∃ validator, image.WellFormed validator)
    ∧ (LoneEnd (colorRuns image.bottom image.innerWidth kSecondaryColor) image.innerWidth
      ∨ LoneEnd (colorRuns image.right image.innerHeight kSecondaryColor) image.innerHeight)

/-- An image that is rejected with a text is read as drawn. -/
theorem readAsDrawn_of_rejectedWithText {image : Image} (h : RejectedWithText (create image)) :
    ReadAsDrawn image := by
  obtain ⟨msg, hmsg, herror⟩ := h
  refine ⟨iff_of_true ⟨some msg, herror⟩ ⟨msg, hmsg, herror⟩, fun ninePatch hok => ?_, ?_⟩
  · rw [herror] at hok
    cases hok
  · rw [herror]
    exact fun h => nomatch h

/-- The layout bounds of one axis of a nine-patch. -/
theorem layoutAsDrawn_axisBounds_iff {c : ℕ → UInt32} {n : ℕ} (hfit : Image.RunsFit c n)
    (stretch : ℕ → UInt32) :
    LayoutAsDrawn (colorRuns c n kSecondaryColor) n (axisBounds c stretch n)
      ↔ ¬ LoneEnd (colorRuns c n kSecondaryColor) n :=
  layoutAsDrawn_boundsOf_iff hfit
    (fun _ hr => ⟨(mem_maxRuns_iff.mp hr).lt, (mem_maxRuns_iff.mp hr).le⟩) (maxRuns_pairwise _ _)

/-- A nine-patch is read as drawn if no lone red run touches an end only. -/
theorem readAsDrawn_iff_of_wellFormed {image : Image} {validator : ColorValidator}
    (h : image.WellFormed validator) :
    ReadAsDrawn image
      ↔ ¬ (LoneEnd (colorRuns image.bottom image.innerWidth kSecondaryColor) image.innerWidth
        ∨ LoneEnd (colorRuns image.right image.innerHeight kSecondaryColor)
          image.innerHeight) := by
  obtain ⟨outline, hok⟩ := create_of_wellFormed h
  have hbottom := layoutAsDrawn_axisBounds_iff h.bottom_fit image.top
  have hright := layoutAsDrawn_axisBounds_iff h.right_fit image.left
  rw [not_or, ← hbottom, ← hright]
  constructor
  · intro hread
    have hbounds := hread.bounds _ hok
    exact ⟨hbounds.bottom_layout, hbounds.right_layout⟩
  · rintro ⟨hbottom, hright⟩
    refine ⟨iff_of_false ?_ ?_, fun ninePatch hok' => ?_, ?_⟩
    · rintro ⟨err, herror⟩
      rw [hok] at herror
      cases herror
    · rintro ⟨msg, _, herror⟩
      rw [hok] at herror
      cases herror
    · obtain rfl := Except.ok.inj (hok.symm.trans hok')
      exact ⟨paddingAsDrawn_boundsOf h.bottom_fit.black_le _, hbottom,
        paddingAsDrawn_boundsOf h.right_fit.black_le _, hright⟩
    · rw [hok]
      exact fun h => nomatch h

/-- **When borders are read as drawn**: but for red pixels on the left border behind a top border
that fits, and for a nine-patch with a lone red run that touches the end of an axis only. -/
theorem readAsDrawn_iff (image : Image) :
    ReadAsDrawn image ↔ ¬ image.RedLeft ∧ ¬ image.LoneEndRun := by
  by_cases hfit : ∃ validator, image.TopLeftFit validator
  case neg =>
    refine iff_of_true (readAsDrawn_of_rejectedWithText (rejectedWithText_of_not_topLeftFit
      fun validator h => hfit ⟨validator, h⟩)) ⟨?_, ?_⟩
    · rintro ⟨validator, h, _⟩
      exact hfit ⟨validator, h⟩
    · rintro ⟨⟨validator, h⟩, _⟩
      exact hfit ⟨validator, h.toTopLeftFit⟩
  obtain ⟨validator, hfit⟩ := hfit
  by_cases hleft : image.leftRedRuns = []
  case neg =>
    -- no text is stored
    refine iff_of_false (fun h => ?_) fun h => h.1 ⟨validator, hfit, hleft⟩
    have hnull := create_of_topLeftFit hfit
    rw [if_neg hleft] at hnull
    obtain ⟨msg, _, herror⟩ := h.null_iff.mp ⟨none, hnull⟩
    rw [hnull] at herror
    exact Option.some_ne_none msg (Failure.rejected.inj (Except.error.inj herror)).symm
  have hred : ¬ image.RedLeft := fun ⟨_, _, h⟩ => h hleft
  by_cases hwell : image.WellFormed validator
  · rw [readAsDrawn_iff_of_wellFormed hwell, Image.LoneEndRun, and_iff_right hred,
      and_iff_right ⟨validator, hwell⟩]
  · refine iff_of_true (readAsDrawn_of_rejectedWithText
      (rejectedWithText_of_not_wellFormed hfit hleft hwell)) ⟨hred, ?_⟩
    rintro ⟨⟨validator', h⟩, _⟩
    have hsame := Option.some.inj (h.corner_eq.symm.trans hfit.corner_eq)
    exact hwell (hsame ▸ h)

/-- An opaque white pixel. -/
def white : Pixel := ⟨255, 255, 255, 255⟩

/-- An opaque red pixel. -/
def red : Pixel := ⟨255, 0, 0, 255⟩

/-- White but for a red pixel on the left border. -/
def redLeft3x3 : Image :=
  ⟨3, 3, [[white, white, white], [red, white, white], [white, white, white]], rfl, by decide⟩

/-- White but for a red pixel at the end of the bottom border. -/
def redEnd4x3 : Image :=
  ⟨4, 3, [[white, white, white, white], [white, white, white, white], [white, white, red, white]],
    rfl, by decide⟩

/-- The first image is rejected without a text, and the left layout bound of the second one is its
whole width. -/
theorem not_readAsDrawn_redLeft3x3 :
    create redLeft3x3 = .error (.rejected none) ∧ ¬ ReadAsDrawn redLeft3x3
      ∧ (create redEnd4x3).map (·.layoutBounds) = .ok ⟨2, 0, 0, 0⟩ ∧ ¬ ReadAsDrawn redEnd4x3 := by
  have hleft : create redLeft3x3 = .error (.rejected none) := by rfl
  have hend : (create redEnd4x3).map (·.layoutBounds) = .ok ⟨2, 0, 0, 0⟩ := by rfl
  refine ⟨hleft, fun h => ?_, hend, fun h => ?_⟩
  · obtain ⟨msg, _, herror⟩ := h.null_iff.mp ⟨none, hleft⟩
    rw [hleft] at herror
    cases herror
  · cases hok : create redEnd4x3 with
    | error e =>
        rw [hok] at hend
        cases hend
    | ok ninePatch =>
        rw [hok] at hend
        have hbounds : ninePatch.layoutBounds = ⟨2, 0, 0, 0⟩ := Except.ok.inj hend
        have hruns : colorRuns redEnd4x3.bottom redEnd4x3.innerWidth kSecondaryColor
            = [(1, 2)] := by rfl
        have hstart := (h.bounds ninePatch hok).bottom_layout.no_start fun r hr => by
          rw [hruns] at hr
          rw [List.mem_singleton.mp hr]
          decide
        rw [hbounds] at hstart
        have htwo : (2 : ℤ) = 0 := hstart
        exact absurd htwo (by decide)

end AndroidSdk.Androidfw.NinePatch
