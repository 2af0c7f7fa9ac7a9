import Mathlib.Data.Int.Order.Basic
import Mathlib.Tactic.SplitIfs

/-! # Nine-patch images

`NinePatch` (`libs/androidfw/NinePatch.cpp`): an image with a border of one pixel, in which black
and red runs mark what is stretched, the padding and the layout bounds. A pixel is read as a whole
at its position; the radius of the outline, which is a floating point number, is left out but for
the inset that it is computed from.

* **`Image`** — an image; reading a pixel that is not in it is a fault.
* **`fillRanges`** — the scan of a border.
* **`populateBounds`** — the padding and the layout bounds on one axis.
* **`calculateRegionColors`** — the colours of the regions.
* **`NinePatch.create`**, **`NinePatch.serializeBase`** — the whole. -/

namespace AndroidSdk.Androidfw

namespace NinePatch

/-! ## Images -/

/-- A pixel, in `RGBA_8888`. -/
structure Pixel where
  red : UInt8
  green : UInt8
  blue : UInt8
  alpha : UInt8
  deriving DecidableEq

/-- `PackRGBA`. -/
def packRGBA (pixel : Pixel) : UInt32 :=
  pixel.alpha.toUInt32 <<< 24 ||| pixel.red.toUInt32 <<< 16 ||| pixel.green.toUInt32 <<< 8
    ||| pixel.blue.toUInt32

/-- An image. -/
structure Image where
  width : ℕ
  height : ℕ
  rows : List (List Pixel)
  rows_length : rows.length = height
  row_length : ∀ row ∈ rows, row.length = width

/-- What ends the creation of a nine-patch: a null pointer with the error text that was stored, if
any, or an access outside the image or a vector. -/
inductive Failure where
  | rejected (err : Option String)
  | fault
  deriving DecidableEq

/-- The pixel at a position. -/
def Image.pixel (image : Image) (x y : ℤ) : Except Failure Pixel :=
  if x < 0 ∨ y < 0 then .error .fault
  else
    match image.rows[y.toNat]? with
    | none => .error .fault
    | some row =>
        match row[x.toNat]? with
        | none => .error .fault
        | some pixel => .ok pixel

/-- The colour at a position. -/
def Image.color (image : Image) (x y : ℤ) : Except Failure UInt32 :=
  (image.pixel x y).map packRGBA

/-- An image line. -/
structure ImageLine where
  length : ℤ
  getColor : ℤ → Except Failure UInt32

/-- `HorizontalImageLine`. -/
def horizontalImageLine (image : Image) (xoffset yoffset length : ℤ) : ImageLine :=
  ⟨length, fun idx => image.color (idx + xoffset) yoffset⟩

/-- `VerticalImageLine`. -/
def verticalImageLine (image : Image) (xoffset yoffset length : ℤ) : ImageLine :=
  ⟨length, fun idx => image.color xoffset (yoffset + idx)⟩

/-- `DiagonalImageLine`. -/
def diagonalImageLine (image : Image) (xoffset yoffset xstep ystep length : ℤ) : ImageLine :=
  ⟨length, fun idx => image.color ((idx + xoffset) * xstep) (yoffset + idx * ystep)⟩

/-! ## Borders -/

/-- `kColorOpaqueWhite`. -/
def kColorOpaqueWhite : UInt32 := 0xffffffff

/-- `kPrimaryColor`, which is black. -/
def kPrimaryColor : UInt32 := 0xff000000

/-- `kSecondaryColor`, which is red. -/
def kSecondaryColor : UInt32 := 0xffff0000

/-- `get_alpha`. -/
def getAlpha (color : UInt32) : UInt32 := (color &&& 0xff000000) >>> 24

/-- The validators, by the neutral colour. -/
inductive ColorValidator where
  | transparent
  | white
  deriving DecidableEq

namespace ColorValidator

/-- `IsNeutralColor`. -/
def isNeutralColor : ColorValidator → UInt32 → Bool
  | transparent, color => getAlpha color = 0
  | white, color => color = kColorOpaqueWhite

/-- `IsValidColor`. -/
def isValidColor (v : ColorValidator) (color : UInt32) : Bool :=
  if color = kPrimaryColor ∨ color = kSecondaryColor then true else v.isNeutralColor color

end ColorValidator

/-- `Range`. -/
structure Range where
  start : ℤ
  stop : ℤ
  deriving DecidableEq

/-- `ranges->back().end = stop`. -/
def setBackEnd (ranges : List Range) (stop : ℤ) : Except Failure (List Range) :=
  match ranges.getLast? with
  | none => .error .fault
  | some back => .ok (ranges.dropLast ++ [{ back with stop }])

/-- The loop of `FillRanges`, for the number of positions that are left. -/
def fillRangesLoop (line : ImageLine) (validator : ColorValidator) :
    ℕ → ℤ → UInt32 → List Range → List Range → Except Failure (List Range × List Range)
  | 0, _, _, primaryRanges, secondaryRanges => .ok (primaryRanges, secondaryRanges)
  | n + 1, idx, lastColor, primaryRanges, secondaryRanges => do
      let color ← line.getColor idx
      if !validator.isValidColor color then
        throw (.rejected (some "found an invalid color"))
      else if color ≠ lastColor then do
        -- a range ends
        let (primaryRanges, secondaryRanges) ←
          if lastColor = kPrimaryColor then do
            pure (← setBackEnd primaryRanges (idx - 1), secondaryRanges)
          else if lastColor = kSecondaryColor then do
            pure (primaryRanges, ← setBackEnd secondaryRanges (idx - 1))
          else pure (primaryRanges, secondaryRanges)
        -- a range starts
        let range : Range := ⟨idx - 1, line.length - 2⟩
        if color = kPrimaryColor then
          fillRangesLoop line validator n (idx + 1) color (primaryRanges ++ [range]) secondaryRanges
        else if color = kSecondaryColor then
          fillRangesLoop line validator n (idx + 1) color primaryRanges (secondaryRanges ++ [range])
        else fillRangesLoop line validator n (idx + 1) color primaryRanges secondaryRanges
      else fillRangesLoop line validator n (idx + 1) lastColor primaryRanges secondaryRanges

/-- `FillRanges`, for vectors that hold some ranges. -/
def fillRanges (line : ImageLine) (validator : ColorValidator)
    (primaryRanges secondaryRanges : List Range) : Except Failure (List Range × List Range) :=
  fillRangesLoop line validator (line.length - 2).toNat 1 0xffffffff primaryRanges secondaryRanges

/-- The padding and the layout bounds on one axis. -/
structure AxisBounds where
  paddingStart : ℤ
  paddingEnd : ℤ
  layoutStart : ℤ
  layoutEnd : ℤ
  deriving DecidableEq

/-- The message about layout bounds that are not at an edge. -/
def edgeMsg (edgeName : String) : String :=
  "layout bounds on " ++ edgeName ++ " border must start at edge"

/-- The padding, in `PopulateBounds`. -/
def populatePadding (padding stretchRegions : List Range) (length : ℤ) : ℤ × ℤ :=
  match padding.head? with
  | some range => (range.start, length - range.stop)
  | none =>
      match stretchRegions.head?, stretchRegions.getLast? with
      | some front, some back => (front.start, length - back.stop)
      | _, _ => (0, 0)

/-- `PopulateBounds`. -/
def populateBounds (padding layoutBounds stretchRegions : List Range) (length : ℤ)
    (edgeName : String) : Except Failure AxisBounds :=
  if padding.length > 1 then
    throw (.rejected (some ("too many padding sections on " ++ edgeName ++ " border")))
  else
    let (paddingStart, paddingEnd) := populatePadding padding stretchRegions length
    if layoutBounds.length > 2 then
      throw (.rejected (some ("too many layout bounds sections on " ++ edgeName ++ " border")))
    else
      match layoutBounds.head? with
      | none => pure ⟨paddingStart, paddingEnd, 0, 0⟩
      | some range =>
          -- a lone range need not start at 0 if it ends at the length
          if range.start ≠ 0 ∧ range.stop ≠ length then throw (.rejected (some (edgeMsg edgeName)))
          else if layoutBounds.length ≥ 2 then
            match layoutBounds.getLast? with
            | none => throw .fault
            | some back =>
                if back.stop ≠ length then throw (.rejected (some (edgeMsg edgeName)))
                else pure ⟨paddingStart, paddingEnd, range.stop, length - back.start⟩
          else pure ⟨paddingStart, paddingEnd, range.stop, 0⟩

/-! ## Regions -/

/-- `CalculateSegmentCount`. -/
def calculateSegmentCount (stretchRegions : List Range) (length : ℤ) : ℤ :=
  match stretchRegions.head?, stretchRegions.getLast? with
  | some front, some back =>
      let startIsFixed : Bool := front.start ≠ 0
      let endIsFixed : Bool := back.stop ≠ length
      let modifier : ℤ :=
        if startIsFixed && endIsFixed then 1
        else if !startIsFixed && !endIsFixed then -1
        else 0
      stretchRegions.length * 2 + modifier
  | _, _ => 0

/-- `Bounds`. -/
structure Bounds where
  left : ℤ
  top : ℤ
  right : ℤ
  bottom : ℤ
  deriving DecidableEq

/-- `Res_png_9patch::NO_COLOR`. -/
def noColor : UInt32 := 0x00000001

/-- `Res_png_9patch::TRANSPARENT_COLOR`. -/
def transparentColor : UInt32 := 0x00000000

/-- Whether a pixel shows that the region has no colour. -/
def differs (expectedColor color : UInt32) : Bool :=
  if getAlpha color = 0 then getAlpha expectedColor ≠ 0 else color ≠ expectedColor

/-- A row of the loop of `GetRegionColor`, for the number of pixels that are left: whether the loop
returns. -/
def regionRowLoop (image : Image) (expectedColor : UInt32) (y : ℤ) :
    ℕ → ℤ → Except Failure Bool
  | 0, _ => .ok false
  | n + 1, x => do
      if differs expectedColor (← image.color x y) then return true
      else regionRowLoop image expectedColor y n (x + 1)

/-- The loop of `GetRegionColor`, for the number of rows that are left. -/
def regionLoop (image : Image) (expectedColor : UInt32) (region : Bounds) :
    ℕ → ℤ → Except Failure Bool
  | 0, _ => .ok false
  | n + 1, y => do
      if ← regionRowLoop image expectedColor y (region.right - region.left).toNat region.left then
        return true
      else regionLoop image expectedColor region n (y + 1)

/-- `GetRegionColor`. -/
def getRegionColor (image : Image) (region : Bounds) : Except Failure UInt32 := do
  -- the first pixel is what the others are compared with
  let expectedColor ← image.color region.left region.top
  if ← regionLoop image expectedColor region (region.bottom - region.top).toNat region.top then
    return noColor
  else if getAlpha expectedColor = 0 then return transparentColor
  else return expectedColor

/-- The next segment of an axis, in the loops of `CalculateRegionColors`, and what is left of the
stretch regions. -/
def nextSegment (length next : ℤ) : List Range → Range × List Range
  | [] => (⟨next, length⟩, [])
  | region :: rest =>
      if next ≠ region.start then (⟨next, region.start⟩, region :: rest) else (region, rest)

/-- The inner loop of `CalculateRegionColors`. It ends after as many rounds as the axis is long, or
never. -/
def columnLoop (image : Image) (width : ℤ) (row : Range) :
    ℕ → ℤ → List Range → List UInt32 → Except Failure (List UInt32)
  | 0, nextLeft, _, outColors => if nextLeft ≠ width then .error .fault else .ok outColors
  | n + 1, nextLeft, colIter, outColors => do
      if nextLeft ≠ width then
        let segment := nextSegment width nextLeft colIter
        -- the bounds are offset by the border
        let color ← getRegionColor image
          ⟨segment.1.start + 1, row.start + 1, segment.1.stop + 1, row.stop + 1⟩
        columnLoop image width row n segment.1.stop segment.2 (outColors ++ [color])
      else return outColors

/-- The outer loop of `CalculateRegionColors`. -/
def rowLoop (image : Image) (horizontalStretchRegions : List Range) (width height : ℤ) :
    ℕ → ℤ → List Range → List UInt32 → Except Failure (List UInt32)
  | 0, nextTop, _, outColors => if nextTop ≠ height then .error .fault else .ok outColors
  | n + 1, nextTop, rowIter, outColors => do
      if nextTop ≠ height then
        let segment := nextSegment height nextTop rowIter
        let outColors ← columnLoop image width segment.1 width.toNat 0 horizontalStretchRegions
          outColors
        rowLoop image horizontalStretchRegions width height n segment.1.stop segment.2 outColors
      else return outColors

/-- `CalculateRegionColors`. -/
def calculateRegionColors (image : Image)
    (horizontalStretchRegions verticalStretchRegions : List Range) (width height : ℤ) :
    Except Failure (List UInt32) :=
  rowLoop image horizontalStretchRegions width height height.toNat 0 verticalStretchRegions []

/-! ## The outline -/

/-- A loop of `FindOutlineInsets`, with the direction and the inset at a position. -/
def insetLoop (line : ImageLine) (step : ℤ) (inset : ℤ → ℤ) :
    ℕ → ℤ → UInt32 → ℤ → Except Failure ℤ
  | 0, _, _, out => .ok out
  | n + 1, i, maxAlpha, out => do
      if maxAlpha ≠ 0xff then
        let alpha := getAlpha (← line.getColor i)
        if alpha > maxAlpha then insetLoop line step inset n (i + step) alpha (inset i)
        else insetLoop line step inset n (i + step) maxAlpha out
      else return out

/-- `FindOutlineInsets`. -/
def findOutlineInsets (line : ImageLine) : Except Failure (ℤ × ℤ) :=
  if line.length < 3 then pure (0, 0)
  else do
    -- both sides look at the middle pixel if the length is odd
    let mid2 := line.length / 2
    let mid1 := mid2 + line.length % 2
    let start ← insetLoop line 1 id mid1.toNat 0 0 0
    let stop ← insetLoop line (-1) (fun i => line.length - (i + 1)) (line.length - mid2).toNat
      (line.length - 1) 0 0
    return (start, stop)

/-- The loop of `FindMaxAlpha`. -/
def maxAlphaLoop (line : ImageLine) : ℕ → ℤ → UInt32 → Except Failure UInt32
  | 0, _, maxAlpha => .ok maxAlpha
  | n + 1, idx, maxAlpha => do
      if maxAlpha ≠ 0xff then
        let alpha := getAlpha (← line.getColor idx)
        maxAlphaLoop line n (idx + 1) (if alpha > maxAlpha then alpha else maxAlpha)
      else return maxAlpha

/-- `FindMaxAlpha`. -/
def findMaxAlpha (line : ImageLine) : Except Failure UInt32 :=
  maxAlphaLoop line line.length.toNat 0 0

end NinePatch

/-! ## Nine-patches -/

open NinePatch in
/-- `NinePatch`. The radius of the outline is computed from `outlineInset`. -/
structure NinePatch where
  padding : Bounds
  layoutBounds : Bounds
  outline : Bounds
  outlineInset : ℤ
  outlineAlpha : UInt32
  horizontalStretchRegions : List Range
  verticalStretchRegions : List Range
  regionColors : List UInt32
  deriving DecidableEq

namespace NinePatch

/-- The validator for the neutral colour of the top-left corner. -/
def cornerValidator (image : Image) : Except Failure ColorValidator := do
  let corner ← image.pixel 0 0
  if corner.alpha = 0 then return .transparent
  else if packRGBA corner = kColorOpaqueWhite then return .white
  else throw (.rejected (some "top-left corner pixel must be either opaque white or transparent"))

/-- The message about red pixels on the top border. -/
def topOpticalBoundsMsg (range : Range) : String :=
  "found unexpected optical bounds (red pixel) on top border at x=" ++ toString (range.start + 1)

/-- The part of `Create` for the outline, and the inset of the diagonal. -/
def computeOutline (image : Image) (width height : ℤ) :
    Except Failure (Bounds × ℤ × UInt32) := do
  let (left, right) ← findOutlineInsets (horizontalImageLine image 1 (height / 2) (width - 2))
  let (top, bottom) ← findOutlineInsets (verticalImageLine image (width / 2) 1 (height - 2))
  let outlineWidth := width - 2 - left - right
  let outlineHeight := height - 2 - top - bottom
  let rowAlpha ← findMaxAlpha
    (horizontalImageLine image (1 + left) (1 + top + outlineHeight / 2) outlineWidth)
  let colAlpha ← findMaxAlpha
    (verticalImageLine image (1 + left + outlineWidth / 2) (1 + top) outlineHeight)
  let (topLeft, _) ← findOutlineInsets
    (diagonalImageLine image (1 + left) (1 + top) 1 1 (min outlineWidth outlineHeight))
  return (⟨left, top, right, bottom⟩, topLeft, max rowAlpha colAlpha)

/-- `NinePatch::Create`. -/
def create (image : Image) : Except Failure NinePatch := do
  let width : ℤ := image.width
  let height : ℤ := image.height
  if width < 3 ∨ height < 3 then
    throw (.rejected (some "image must be at least 3x3 (1x1 image with 1 pixel border)"))
  else do
    let validator ← cornerValidator image
    let (horizontal, unexpected) ← fillRanges (horizontalImageLine image 0 0 width) validator [] []
    match unexpected.head? with
    | some range => throw (.rejected (some (topOpticalBoundsMsg range)))
    | none =>
    let (vertical, unexpected) ←
      fillRanges (verticalImageLine image 0 0 height) validator [] unexpected
    match unexpected.head? with
    -- the text about this range is built, but it is not stored
    | some _ => throw (.rejected none)
    | none =>
    let (horizontalPadding, horizontalLayoutBounds) ←
      fillRanges (horizontalImageLine image 0 (height - 1) width) validator [] []
    let bottom ← populateBounds horizontalPadding horizontalLayoutBounds horizontal (width - 2)
      "bottom"
    let (verticalPadding, verticalLayoutBounds) ←
      fillRanges (verticalImageLine image (width - 1) 0 height) validator [] []
    let right ← populateBounds verticalPadding verticalLayoutBounds vertical (height - 2) "right"
    let numRows := calculateSegmentCount horizontal (width - 2)
    let numCols := calculateSegmentCount vertical (height - 2)
    if numRows * numCols > 0x7f then throw (.rejected (some "too many regions in 9-patch"))
    else do
      let regionColors ←
        calculateRegionColors image horizontal vertical (width - 2) (height - 2)
      let (outline, outlineInset, outlineAlpha) ← computeOutline image width height
      return {
        padding := ⟨bottom.paddingStart, right.paddingStart, bottom.paddingEnd, right.paddingEnd⟩
        layoutBounds := ⟨bottom.layoutStart, right.layoutStart, bottom.layoutEnd, right.layoutEnd⟩
        outline, outlineInset, outlineAlpha
        horizontalStretchRegions := horizontal
        verticalStretchRegions := vertical
        regionColors }

/-- `Res_png_9patch` with the arrays behind it. -/
structure ResPng9patch where
  numXDivs : UInt8
  numYDivs : UInt8
  numColors : UInt8
  paddingLeft : ℤ
  paddingRight : ℤ
  paddingTop : ℤ
  paddingBottom : ℤ
  xDivs : List ℤ
  yDivs : List ℤ
  colors : List UInt32
  deriving DecidableEq

/-- The integers of a vector of ranges. -/
def divsOf (ranges : List Range) : List ℤ := ranges.flatMap fun range => [range.start, range.stop]

/-- `SerializeBase`: as many divisions and colours are copied as the header counts. -/
def serializeBase (ninePatch : NinePatch) : ResPng9patch :=
  let numXDivs :=
    UInt8.ofNat ((UInt8.ofNat ninePatch.horizontalStretchRegions.length).toNat * 2)
  let numYDivs := UInt8.ofNat ((UInt8.ofNat ninePatch.verticalStretchRegions.length).toNat * 2)
  let numColors := UInt8.ofNat ninePatch.regionColors.length
  { numXDivs, numYDivs, numColors
    paddingLeft := ninePatch.padding.left
    paddingRight := ninePatch.padding.right
    paddingTop := ninePatch.padding.top
    paddingBottom := ninePatch.padding.bottom
    xDivs := (divsOf ninePatch.horizontalStretchRegions).take numXDivs.toNat
    yDivs := (divsOf ninePatch.verticalStretchRegions).take numYDivs.toNat
    colors := ninePatch.regionColors.take numColors.toNat }

end NinePatch

end AndroidSdk.Androidfw
