import AndroidSdk.Androidfw.NinePatchLines

/-! # The regions of a nine-patch image

The stretched runs of both axes cut the content into rectangles, row by row. The code finds one
colour for each.

* **`IsRegionColor`** — what the colour of a rectangle says about its pixels.
* **`calculateRegionColors_eq`** — the colours of all rectangles, in row-major order.
* **`calculateSegmentCount_eq`** — the number of pieces of an axis that has a run. -/

namespace AndroidSdk.Androidfw.NinePatch

open Lib

/-! ## The colour of a rectangle -/

/-- The colour at a position of the content. -/
def Image.contentAt (image : Image) (x y : ℕ) : UInt32 := image.colorAt (x + 1) (y + 1)

/-- All colours of a rectangle of the content have a property. -/
def Throughout (image : Image) (row col : ℕ × ℕ) (P : UInt32 → Prop) : Prop :=
  ∀ x y, col.1 ≤ x → x < col.2 → row.1 ≤ y → y < row.2 → P (image.contentAt x y)

/-- The colour says that all pixels are transparent, or it is the common colour, or it says that
there is none. -/
def IsRegionColor (image : Image) (row col : ℕ × ℕ) (color : UInt32) : Prop :=
  Throughout image row col (getAlpha · = 0) ∧ color = transparentColor
  ∨ getAlpha color ≠ 0 ∧ Throughout image row col (· = color)
  ∨ ¬ Throughout image row col (getAlpha · = 0)
    ∧ (∀ c, getAlpha c ≠ 0 → ¬ Throughout image row col (· = c)) ∧ color = noColor

/-- Whether a pixel of the rectangle shows that there is no colour. -/
def anyDiffers (image : Image) (row col : ℕ × ℕ) (expectedColor : UInt32) : Bool :=
  (List.range' row.1 (row.2 - row.1)).any fun y =>
    (List.range' col.1 (col.2 - col.1)).any fun x => differs expectedColor (image.contentAt x y)

/-- What `GetRegionColor` finds. -/
def regionColor (image : Image) (row col : ℕ × ℕ) : UInt32 :=
  let expectedColor := image.contentAt col.1 row.1
  if anyDiffers image row col expectedColor then noColor
  else if getAlpha expectedColor = 0 then transparentColor
  else expectedColor

/-- Some pixel shows that there is no colour. -/
theorem anyDiffers_eq_true_iff {image : Image} {row col : ℕ × ℕ} {e : UInt32} :
    anyDiffers image row col e = true
      ↔ ¬ Throughout image row col (fun c => differs e c = false) := by
  have hrange (a b k : ℕ) : k ∈ List.range' a (b - a) ↔ a ≤ k ∧ k < b := by
    rw [List.mem_range'_1]
    omega
  simp only [anyDiffers, List.any_eq_true, hrange, Throughout]
  constructor
  · rintro ⟨y, ⟨hy, hy'⟩, x, ⟨hx, hx'⟩, hdiffers⟩ hall
    rw [hall x y hx hx' hy hy'] at hdiffers
    exact Bool.false_ne_true hdiffers
  · intro hnot
    by_contra hnone
    refine hnot fun x y hx hx' hy hy' => Bool.eq_false_iff.mpr fun hdiffers => ?_
    exact hnone ⟨y, ⟨hy, hy'⟩, x, ⟨hx, hx'⟩, hdiffers⟩

/-- A transparent pixel fits a transparent first one. -/
theorem differs_eq_false_iff_of_transparent {e c : UInt32} (hc : getAlpha c = 0) :
    differs e c = false ↔ getAlpha e = 0 := by
  rw [differs, if_pos hc, decide_eq_false_iff_not, not_not]

/-- Another pixel fits a first one of its colour. -/
theorem differs_eq_false_iff {e c : UInt32} (hc : getAlpha c ≠ 0) :
    differs e c = false ↔ c = e := by
  rw [differs, if_neg hc, decide_eq_false_iff_not, not_not]

/-- **What is found is the colour of the rectangle.** -/
theorem isRegionColor_regionColor (image : Image) {row col : ℕ × ℕ} (hrow : row.1 < row.2)
    (hcol : col.1 < col.2) : IsRegionColor image row col (regionColor image row col) := by
  have hfirst {P : UInt32 → Prop} (h : Throughout image row col P) :
      P (image.contentAt col.1 row.1) := h _ _ le_rfl hcol le_rfl hrow
  rw [regionColor]
  split_ifs with hany htransparent
  · -- some pixel differs from the first one
    rw [anyDiffers_eq_true_iff] at hany
    refine .inr (.inr ⟨fun hall => hany ?_, fun c hc hall => hany ?_, rfl⟩)
    · intro x y hx hx' hy hy'
      exact (differs_eq_false_iff_of_transparent (hall x y hx hx' hy hy')).mpr (hfirst hall)
    · intro x y hx hx' hy hy'
      have hpixel := hall x y hx hx' hy hy'
      exact (differs_eq_false_iff (hpixel ▸ hc)).mpr (hpixel.trans (hfirst hall).symm)
  · rw [anyDiffers_eq_true_iff, not_not] at hany
    refine .inl ⟨fun x y hx hx' hy hy' => ?_, rfl⟩
    have hsame := hany x y hx hx' hy hy'
    by_contra halpha
    rw [(differs_eq_false_iff halpha).mp hsame] at halpha
    exact halpha htransparent
  · rw [anyDiffers_eq_true_iff, not_not] at hany
    refine .inr (.inl ⟨htransparent, fun x y hx hx' hy hy' => ?_⟩)
    have hsame := hany x y hx hx' hy hy'
    by_cases halpha : getAlpha (image.contentAt x y) = 0
    · exact absurd ((differs_eq_false_iff_of_transparent halpha).mp hsame) htransparent
    · exact (differs_eq_false_iff halpha).mp hsame

section Reads

variable {image : Image} {nx ny : ℕ} (hw : image.width = nx + 2) (hh : image.height = ny + 2)
include hw hh

/-- The content is read. -/
theorem color_content {x y : ℕ} (hx : x < nx) (hy : y < ny) :
    image.color ((x : ℤ) + 1) ((y : ℤ) + 1) = .ok (image.contentAt x y) := by
  have hcolor := image.color_eq (show x + 1 < image.width by omega)
    (show y + 1 < image.height by omega)
  push_cast at hcolor
  exact hcolor

/-- A row of `GetRegionColor`. -/
theorem regionRowLoop_eq (e : UInt32) {y : ℕ} (hy : y < ny) (n : ℕ) {x : ℕ} (hx : x + n ≤ nx) :
    regionRowLoop image e ((y : ℤ) + 1) n ((x : ℤ) + 1)
      = .ok ((List.range' x n).any fun x => differs e (image.contentAt x y)) := by
  induction n generalizing x with
  | zero => rfl
  | succ n ih =>
      rw [regionRowLoop, color_content hw hh (by omega) hy, ok_bind, List.range'_succ,
        List.any_cons]
      cases hdiffers : differs e (image.contentAt x y) with
      | true => rfl
      | false =>
          have hrest := ih (x := x + 1) (by omega)
          push_cast at hrest
          rw [if_neg Bool.false_ne_true, Bool.false_or]
          exact hrest

/-- The loop of `GetRegionColor`. -/
theorem regionLoop_eq (e : UInt32) {col : ℕ × ℕ} (hcol : col.1 ≤ col.2) (hcolx : col.2 ≤ nx)
    {region : Bounds} (hleft : region.left = col.1 + 1) (hright : region.right = col.2 + 1)
    (m : ℕ) {y : ℕ} (hy : y + m ≤ ny) :
    regionLoop image e region m ((y : ℤ) + 1)
      = .ok ((List.range' y m).any fun y => (List.range' col.1 (col.2 - col.1)).any fun x =>
          differs e (image.contentAt x y)) := by
  have hwidth : (region.right - region.left).toNat = col.2 - col.1 := by omega
  induction m generalizing y with
  | zero => rfl
  | succ m ih =>
      rw [regionLoop, hwidth, hleft, regionRowLoop_eq hw hh e (by omega) _ (by omega), ok_bind,
        List.range'_succ, List.any_cons]
      cases hany : (List.range' col.1 (col.2 - col.1)).any
          fun x => differs e (image.contentAt x y) with
      | true => rfl
      | false =>
          have hrest := ih (y := y + 1) (by omega)
          push_cast at hrest
          rw [if_neg Bool.false_ne_true, Bool.false_or]
          exact hrest

/-- The colour of a rectangle is found without a fault. -/
theorem getRegionColor_eq {row col : ℕ × ℕ} (hrow : row.1 < row.2) (hrowy : row.2 ≤ ny)
    (hcol : col.1 < col.2) (hcolx : col.2 ≤ nx) :
    getRegionColor image ⟨(col.1 : ℤ) + 1, (row.1 : ℤ) + 1, (col.2 : ℤ) + 1, (row.2 : ℤ) + 1⟩
      = .ok (regionColor image row col) := by
  have hheight : (((row.2 : ℤ) + 1) - ((row.1 : ℤ) + 1)).toNat = row.2 - row.1 := by omega
  have hloop (e : UInt32) := @regionLoop_eq image nx ny hw hh e col hcol.le hcolx
    ⟨(col.1 : ℤ) + 1, (row.1 : ℤ) + 1, (col.2 : ℤ) + 1, (row.2 : ℤ) + 1⟩ rfl rfl
    (row.2 - row.1) row.1 (by omega)
  simp only [getRegionColor, color_content hw hh (show col.1 < nx by omega)
    (show row.1 < ny by omega), ok_bind, hheight, hloop]
  rw [regionColor, anyDiffers]
  split_ifs <;> rfl

/-! ## All rectangles -/

omit hw hh in
/-- The next segment of an axis is the next piece. -/
theorem nextSegment_eq (n next : ℕ) (rs : List (ℕ × ℕ)) :
    nextSegment n next (rs.map toRange)
      = (toRange (firstCut n next rs).1, (firstCut n next rs).2.map toRange) := by
  cases rs with
  | nil => rfl
  | cons r rs =>
      rw [List.map_cons, nextSegment, firstCut]
      by_cases heq : next = r.1
      · rw [if_neg (not_not.mpr (by rw [heq]; rfl)), if_neg (not_not.mpr heq)]
      · have hne : (next : ℤ) ≠ (toRange r).start := fun h => heq (Int.ofNat_inj.mp h)
        rw [if_pos hne, if_pos heq]
        rfl

/-- **The inner loop** finds the colours of the rectangles in a row. -/
theorem columnLoop_eq {row : ℕ × ℕ} (hrow : row.1 < row.2) (hrowy : row.2 ≤ ny) {fuel next : ℕ}
    {rs : List (ℕ × ℕ)} (hbetween : Between nx next rs) (hfuel : nx ≤ next + fuel)
    (out : List UInt32) :
    columnLoop image nx (toRange row) fuel next (rs.map toRange) out
      = .ok (out ++ (cuts nx next rs).map (regionColor image row)) := by
  induction fuel generalizing next rs out with
  | zero =>
      obtain rfl : next = nx := le_antisymm hbetween.le hfuel
      rw [columnLoop, if_neg (not_not.mpr rfl), cuts_end hbetween, List.map_nil, List.append_nil]
  | succ fuel ih =>
      by_cases hne : next = nx
      · subst hne
        rw [columnLoop, if_neg (not_not.mpr rfl), cuts_end hbetween, List.map_nil, List.append_nil]
        rfl
      · obtain ⟨hstart, hlt, hrest⟩ := firstCut_spec hbetween hne
        have hne' : (next : ℤ) ≠ nx := fun h => hne (Int.ofNat_inj.mp h)
        have hcolor : getRegionColor image
            ⟨(toRange (firstCut nx next rs).1).start + 1, (toRange row).start + 1,
              (toRange (firstCut nx next rs).1).stop + 1, (toRange row).stop + 1⟩
            = .ok (regionColor image row (firstCut nx next rs).1) :=
          getRegionColor_eq hw hh hrow hrowy (hstart.trans_lt hlt) hrest.le
        simp only [columnLoop, nextSegment_eq, if_pos hne', hcolor, ok_bind]
        have hleft := ih hrest (by omega)
          (out ++ [regionColor image row (firstCut nx next rs).1])
        rw [List.append_assoc] at hleft
        rw [cuts_eq hne, List.map_cons]
        exact hleft

/-- **The outer loop** finds the colours of the rectangles row by row. -/
theorem rowLoop_eq {runs : List (ℕ × ℕ)} (hruns : Between nx 0 runs) {fuel next : ℕ}
    {rs : List (ℕ × ℕ)} (hbetween : Between ny next rs) (hfuel : ny ≤ next + fuel)
    (out : List UInt32) :
    rowLoop image (runs.map toRange) nx ny fuel next (rs.map toRange) out
      = .ok (out ++ (cuts ny next rs).flatMap fun row =>
          (cuts nx 0 runs).map (regionColor image row)) := by
  induction fuel generalizing next rs out with
  | zero =>
      obtain rfl : next = ny := le_antisymm hbetween.le hfuel
      rw [rowLoop, if_neg (not_not.mpr rfl), cuts_end hbetween, List.flatMap_nil, List.append_nil]
  | succ fuel ih =>
      by_cases hne : next = ny
      · subst hne
        rw [rowLoop, if_neg (not_not.mpr rfl), cuts_end hbetween, List.flatMap_nil,
          List.append_nil]
        rfl
      · obtain ⟨hstart, hlt, hrest⟩ := firstCut_spec hbetween hne
        have hne' : (next : ℤ) ≠ ny := fun h => hne (Int.ofNat_inj.mp h)
        have hpiece : (firstCut ny next rs).1.1 < (firstCut ny next rs).1.2 := hstart.trans_lt hlt
        have hrow := columnLoop_eq hw hh hpiece hrest.le hruns
          (show nx ≤ 0 + (nx : ℤ).toNat by omega) out
        simp only [rowLoop, nextSegment_eq, if_pos hne']
        rw [show (0 : ℤ) = (0 : ℕ) from rfl, hrow, ok_bind, cuts_eq hne, List.flatMap_cons,
          ← List.append_assoc]
        exact ih hrest (by omega) _

/-- **The colours of the regions** are those of all rectangles, row by row. -/
theorem calculateRegionColors_eq {horizontal vertical : List (ℕ × ℕ)}
    (hx : Between nx 0 horizontal) (hy : Between ny 0 vertical) :
    calculateRegionColors image (horizontal.map toRange) (vertical.map toRange) nx ny
      = .ok ((cuts ny 0 vertical).flatMap fun row =>
          (cuts nx 0 horizontal).map (regionColor image row)) :=
  rowLoop_eq hw hh hx hy (show ny ≤ 0 + (ny : ℤ).toNat by omega) []

end Reads

/-! ## The number of rectangles -/

/-- **The number of segments** of an axis with a run is the number of its pieces. -/
theorem calculateSegmentCount_eq {runs : List (ℕ × ℕ)} {n : ℕ} (hne : runs ≠ [])
    (hpair : runs.Pairwise fun r r' => r.2 < r'.1) :
    calculateSegmentCount (runs.map toRange) n = (cuts n 0 runs).length := by
  obtain ⟨r, rs, rfl⟩ := List.exists_cons_of_ne_nil hne
  have hlength := length_cuts (n := n) 0 hpair
  have hlast : ((r :: rs).map toRange).getLast?
      = some (toRange ((r :: rs).getLast (List.cons_ne_nil r rs))) := by
    rw [List.getLast?_map, List.getLast?_eq_some_getLast (List.cons_ne_nil r rs), Option.map_some]
  have hstart : ((toRange r).start ≠ 0) ↔ ¬ 0 = r.1 := by
    simp only [toRange]
    omega
  have hend : (toRange ((r :: rs).getLast (List.cons_ne_nil r rs))).stop ≠ n
      ↔ ¬ ((r :: rs).getLast (List.cons_ne_nil r rs)).2 = n := by
    simp only [toRange]
    omega
  rw [calculateSegmentCount, hlast]
  simp only [List.map_cons, List.head?_cons, List.length_cons, List.length_map, hstart, hend]
  by_cases h0 : 0 = r.1 <;>
    by_cases hn : ((r :: rs).getLast (List.cons_ne_nil r rs)).2 = n <;>
    simp [h0, hn] at hlength ⊢ <;> omega

end AndroidSdk.Androidfw.NinePatch
