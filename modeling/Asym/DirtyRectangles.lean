import Asym.Drawing
import Asym.EventRuns

/-!
# Invalid rectangles

Every drawing function reports a rectangle, by which the invalid rectangle of the surface
grows. A function that changes pixels of an area only and reports it keeps every changed
pixel of the surface inside the invalid rectangle, and drawing one after another does too.

`gfx_fbmp` draws at a point and reports the rectangle at the point with the `x` coordinate
twice. The pixels it draws are inside the invalid rectangle only if their rows are inside by
accident.
-/

namespace Asym.Graphics

open Grids

section Reports

/-- `gfx_t` as the code keeps it: the dimensions have 32 bits, and rows are as long as the
stride. -/
structure Gfx.Surface (gfx : Gfx) : Prop where
  rows : gfx.width ≤ gfx.stride
  narrow : gfx.width < 2 ^ 32
  short : gfx.height < 2 ^ 32

/-- `RECT_INIT_GFX`. -/
def Gfx.whole (gfx : Gfx) : Rect :=
  ⟨0, 0, gfx.width, gfx.height⟩

/-- An area of a surface. -/
def Rect.Inside (rect : Rect) (gfx : Gfx) : Prop :=
  rect.Ordered ∧ rect.Within gfx.whole

/-- The places of the pixels of a rectangle. -/
def Rect.cells (rect : Rect) (stride : Int) (index : Int) : Prop :=
  ∃ point, rect.Contains point ∧ index = cell stride point.x point.y

/-- What was invalid stays invalid, and every pixel that changes is invalid afterwards. -/
structure Reports (before after : Gfx) : Prop where
  sameWidth : after.width = before.width
  sameHeight : after.height = before.height
  sameStride : after.stride = before.stride
  kept : ∀ point, before.invalidRect.Contains point → after.invalidRect.Contains point
  changed : ∀ point, before.whole.Contains point →
    after.buffer (cell before.stride point.x point.y) ≠ before.buffer (cell before.stride point.x point.y) →
    after.invalidRect.Contains point

/-- Drawing nothing. -/
theorem Reports.refl (gfx : Gfx) : Reports gfx gfx :=
  ⟨rfl, rfl, rfl, fun _ inside => inside, fun _ _ different => absurd rfl different⟩

/-- A surface stays one. -/
theorem Reports.surface {before after : Gfx} (reports : Reports before after) (surface : before.Surface) :
    after.Surface := by
  obtain ⟨rows, narrow, short⟩ := surface
  constructor
  · rwa [reports.sameWidth, reports.sameStride]
  · rwa [reports.sameWidth]
  · rwa [reports.sameHeight]

/-- The areas of a surface stay the same. -/
theorem Reports.inside_iff {before after : Gfx} (reports : Reports before after) (rect : Rect) :
    rect.Inside after ↔ rect.Inside before := by
  rw [Rect.Inside, Rect.Inside, Gfx.whole, Gfx.whole, reports.sameWidth, reports.sameHeight]

/-- Drawing in turn. -/
theorem Reports.trans {before between after : Gfx} (first : Reports before between) (second : Reports between after) :
    Reports before after := by
  refine ⟨second.sameWidth.trans first.sameWidth, second.sameHeight.trans first.sameHeight,
    second.sameStride.trans first.sameStride, fun point inside => second.kept point (first.kept point inside), ?_⟩
  intro point shown different
  by_cases later : after.buffer (cell before.stride point.x point.y) =
      between.buffer (cell before.stride point.x point.y)
  · rw [later] at different
    exact second.kept point (first.changed point shown different)
  · have shownBetween : between.whole.Contains point := by
      rwa [Gfx.whole, first.sameWidth, first.sameHeight]
    rw [← first.sameStride] at later
    exact second.changed point shownBetween later

/-- A drawing function that changes pixels of an area only, and whose rectangle makes the
area invalid. -/
theorem reports_of_confined {gfx : Gfx} (surface : gfx.Surface) {buffer : Int → Pixel} {area : Rect} (rect : Rect)
    (inside : area.Inside gfx) (confined : Confined (area.cells gfx.stride) gfx.buffer buffer)
    (covers : ∀ point, area.Contains point → (gfxInvalidate gfx.invalidRect rect).Contains point) :
    Reports gfx ({ gfx with buffer := buffer }.invalidate rect) := by
  refine ⟨rfl, rfl, rfl, fun point old => gfxInvalidate_old rect old, ?_⟩
  intro point shown different
  by_contra outside
  refine different (confined _ ?_)
  rintro ⟨other, inArea, same⟩
  -- A pixel of the surface stands at the place of a pixel of the area only if it is that pixel.
  have rows := surface.rows
  have within := inside.2
  simp only [Rect.Within, Gfx.whole, Rect.Contains] at within shown inArea
  obtain ⟨sameX, sameY⟩ := cell_inj (by omega) (by omega) (by omega) (by omega) same
  have samePoint : point = other := by
    cases point
    cases other
    simp only at sameX sameY
    rw [sameX, sameY]
  rw [samePoint] at outside
  exact outside (covers other inArea)

/-- A drawing function that changes pixels of an area only, and reports it. -/
theorem reports_of_area {gfx : Gfx} (surface : gfx.Surface) {buffer : Int → Pixel} {rect : Rect}
    (inside : rect.Inside gfx) (confined : Confined (rect.cells gfx.stride) gfx.buffer buffer) :
    Reports gfx ({ gfx with buffer := buffer }.invalidate rect) :=
  reports_of_confined surface rect inside confined fun _ inArea => gfxInvalidate_new _ inArea

/-- The pixels from the left edge of a row of an area on are inside the area. -/
theorem cells_of_row (rect : Rect) (stride row : Int) {index : Int} (top : rect.top ≤ row) (bottom : row < rect.bottom)
    (begins : rect.left + row * stride ≤ index) (ends : index < rect.left + row * stride + rect.width) :
    rect.cells stride index := by
  refine ⟨⟨index - row * stride, row⟩, ?_, ?_⟩
  · rw [Rect.width] at ends
    exact ⟨Int.le_sub_right_of_add_le begins, by dsimp only; omega, top, bottom⟩
  · exact (Int.sub_add_cancel index (row * stride)).symm

/-- Loops over an area whose body changes pixels of certain places only. -/
theorem confined_forPixels {inside : Int → Prop} {height width : Nat}
    {body : Nat → Nat → (Int → Pixel) → Int → Pixel} (buffer : Int → Pixel)
    (each : ∀ x < width, ∀ y < height, ∀ before, Confined inside before (body x y before)) :
    Confined inside buffer (forPixels height width body buffer) := by
  refine Folds.foldl_related _ buffer fun y inRows before => Folds.foldl_related _ before fun x inColumns state => ?_
  exact each x (List.mem_range.mp inColumns) y (List.mem_range.mp inRows) state

end Reports

section Functions

/-- A store of two pixels changes these two. -/
theorem confined_storeTwo {inside : Int → Prop} (pixel : Pixel) (buffer : Int → Pixel) (index : Int)
    (first : inside index) (second : inside (index + 1)) {offset : Int} (place : offset / 4 = index) :
    Confined inside buffer (storeTwo pixel buffer offset) := by
  rw [storeTwo, place]
  exact trans_of _ (confined_update buffer first pixel) (confined_update _ second pixel)

/-- Filling the bytes of a row changes the pixels of the row. -/
theorem confined_fillRow (pixel : Pixel) (buffer : Int → Pixel) (start : Int) (width : Nat) :
    Confined (fun index => start ≤ index ∧ index < start + width) buffer
      (fillRow pixel buffer (4 * start) (4 * width)) := by
  rw [fillRow]
  refine trans_of _ (Folds.foldl_related _ buffer ?_) (trans_of _ (Folds.foldl_related _ _ ?_)
    (Folds.foldl_related _ _ ?_))
  · intro i inBlocks before
    refine Folds.foldl_related _ before fun j inBlock state => ?_
    rw [List.mem_range] at inBlocks inBlock
    exact confined_storeTwo pixel state (start + (16 * i + 2 * j : Nat)) (by omega) (by omega) (by omega)
  · intro i inWords before
    rw [List.mem_range] at inWords
    exact confined_storeTwo pixel before (start + (4 * width / 64 * 16 + 2 * i : Nat)) (by omega) (by omega) (by omega)
  · -- A last pixel without a partner is written byte by byte.
    intro i inBytes before
    rw [List.mem_range] at inBytes
    exact confined_update before (by omega) _

/-- `gfx_rect` changes the pixels of its rectangle. -/
theorem Rect.Inside.rect {gfx : Gfx} {rect : Rect} (inside : rect.Inside gfx) (surface : gfx.Surface) (pixel : Pixel) :
    Reports gfx (gfx.rect rect pixel) := by
  refine reports_of_area surface inside (Folds.foldl_related _ _ fun y inRows before => ?_)
  obtain ⟨ordered, within⟩ := inside
  have narrow := surface.narrow
  simp only [Rect.Ordered, Rect.Within, Gfx.whole] at ordered within
  rw [List.mem_range, Rect.height] at inRows
  have bytes : unsigned (rect.width * 4) = 4 * rect.width.toNat := by
    rw [unsigned, Rect.width]
    omega
  rw [bytes]
  refine (confined_fillRow pixel before _ _).mono fun index between => ?_
  refine cells_of_row rect gfx.stride (rect.top + y) (by omega) (by omega) between.1 ?_
  have width : (rect.width.toNat : Int) = rect.width := by
    rw [Rect.width]
    omega
  rw [← width]
  exact between.2

/-- A pixel of an area, counted from its corner, stands at one of its places. -/
theorem cells_at (rect : Rect) (stride : Int) {x y : Int} (left : rect.left ≤ x) (right : x < rect.right)
    (top : rect.top ≤ y) (bottom : y < rect.bottom) : rect.cells stride (x + y * stride) :=
  ⟨⟨x, y⟩, ⟨left, right, top, bottom⟩, rfl⟩

/-- An area inside an area of the surface. -/
theorem Rect.Inside.part {gfx : Gfx} {rect part : Rect} (inside : rect.Inside gfx) (ordered : part.Ordered)
    (within : part.Within rect) : part.Inside gfx := by
  refine ⟨ordered, ?_⟩
  have outer := inside.2
  simp only [Rect.Within] at *
  omega

/-- A part of an area is filled after something else was drawn. -/
theorem Reports.side {gfx before : Gfx} (earlier : Reports gfx before) (surface : gfx.Surface) {rect : Rect}
    (inside : rect.Inside gfx) (part : Rect) (pixel : Pixel) (ordered : part.Ordered) (within : part.Within rect) :
    Reports gfx (before.rect part pixel) := by
  have inBefore : part.Inside before := (earlier.inside_iff part).mpr (inside.part ordered within)
  exact earlier.trans (inBefore.rect (earlier.surface surface) pixel)

/-- `gfx_edge` changes the pixels of its rectangle, if two edges fit. -/
theorem Rect.Inside.edge {gfx : Gfx} {rect : Rect} (inside : rect.Inside gfx) (surface : gfx.Surface) {width : Nat}
    (wide : 2 * width ≤ rect.width) (high : 2 * width ≤ rect.height) (foreground background : Pixel) :
    Reports gfx (gfx.edge rect width foreground background) := by
  rw [Rect.width] at wide
  rw [Rect.height] at high
  have left := (Reports.refl gfx).side surface inside
    ⟨rect.left, rect.top, rect.left + width, rect.bottom - width⟩ foreground
    (by simp only [Rect.Ordered]; omega) (by simp only [Rect.Within]; omega)
  have top := left.side surface inside
    ⟨rect.left + width, rect.top, rect.right - width, rect.top + width⟩ foreground
    (by simp only [Rect.Ordered]; omega) (by simp only [Rect.Within]; omega)
  have right := top.side surface inside
    ⟨rect.right - width, rect.top + width, rect.right, rect.bottom⟩ background
    (by simp only [Rect.Ordered]; omega) (by simp only [Rect.Within]; omega)
  have bottom := right.side surface inside
    ⟨rect.left + width, rect.bottom - width, rect.right - width, rect.bottom⟩ background
    (by simp only [Rect.Ordered]; omega) (by simp only [Rect.Within]; omega)
  refine bottom.trans (reports_of_area (bottom.surface surface) ((bottom.inside_iff rect).mpr inside) ?_)
  rw [bottom.sameStride]
  refine confined_forPixels _ fun x inColumns y inRows before => trans_of _
    (confined_update before ?_ _) (confined_update _ ?_ _)
  · exact cells_at rect gfx.stride (by omega) (by omega) (by omega) (by omega)
  · exact cells_at rect gfx.stride (by omega) (by omega) (by omega) (by omega)

/-- `gfx_ridge` changes the pixels of its rectangle, if two edges fit. -/
theorem Rect.Inside.ridge {gfx : Gfx} {rect : Rect} (inside : rect.Inside gfx) (surface : gfx.Surface) {width : Nat}
    (wide : 2 * width ≤ rect.width) (high : 2 * width ≤ rect.height) (foreground background : Pixel) :
    Reports gfx (gfx.ridge rect width foreground background) := by
  rw [Rect.width] at wide
  rw [Rect.height] at high
  have outer : Reports gfx (gfx.edge rect (width / 2) background foreground) :=
    inside.edge surface (by rw [Rect.width]; omega) (by rw [Rect.height]; omega) background foreground
  have inner : (rect.shrink (width / 2 : Nat)).Inside gfx := by
    refine inside.part ?_ ?_
    · simp only [Rect.Ordered, Rect.shrink]
      omega
    · simp only [Rect.Within, Rect.shrink]
      omega
  refine outer.trans (((outer.inside_iff _).mpr inner).edge (outer.surface surface) ?_ ?_ foreground background)
  · simp only [Rect.width, Rect.shrink]
    omega
  · simp only [Rect.height, Rect.shrink]
    omega

/-- `gfx_rim` changes the pixels of its rectangle, if two edges fit. -/
theorem Rect.Inside.rim {gfx : Gfx} {rect : Rect} (inside : rect.Inside gfx) (surface : gfx.Surface) {width : Nat}
    (wide : 2 * width ≤ rect.width) (high : 2 * width ≤ rect.height) (pixel : Pixel) :
    Reports gfx (gfx.rim rect width pixel) := by
  rw [Rect.width] at wide
  rw [Rect.height] at high
  have left := (Reports.refl gfx).side surface inside
    ⟨rect.left, rect.top + width - (width / 2 : Nat), rect.left + width, rect.bottom - width + (width / 2 : Nat)⟩ pixel
    (by simp only [Rect.Ordered]; omega) (by simp only [Rect.Within]; omega)
  have top := left.side surface inside
    ⟨rect.left + width - (width / 2 : Nat), rect.top, rect.right - width + (width / 2 : Nat), rect.top + width⟩ pixel
    (by simp only [Rect.Ordered]; omega) (by simp only [Rect.Within]; omega)
  have right := top.side surface inside
    ⟨rect.right - width, rect.top + width - (width / 2 : Nat), rect.right, rect.bottom - width + (width / 2 : Nat)⟩
    pixel (by simp only [Rect.Ordered]; omega) (by simp only [Rect.Within]; omega)
  exact right.side surface inside
    ⟨rect.left + width - (width / 2 : Nat), rect.bottom - width, rect.right - width + (width / 2 : Nat), rect.bottom⟩
    pixel (by simp only [Rect.Ordered]; omega) (by simp only [Rect.Within]; omega)

/-- `gfx_scroll` changes the pixels of its rectangle, if it scrolls by no more than the
height. -/
theorem Rect.Inside.scroll {gfx : Gfx} {rect : Rect} (inside : rect.Inside gfx) (surface : gfx.Surface) {offset : Nat}
    (fits : offset ≤ rect.height) (background : Pixel) : Reports gfx (gfx.scroll rect offset background) := by
  refine reports_of_area surface inside (trans_of _ (Folds.foldl_related _ _ ?_) (confined_forPixels _ ?_))
  · intro y inRows before
    obtain ⟨ordered, within⟩ := inside
    have short := surface.short
    simp only [Rect.Ordered, Rect.Within, Gfx.whole, Rect.height] at ordered within fits
    have moved : unsigned (rect.height - offset) = (rect.height - offset).toNat := by
      rw [unsigned, Rect.height]
      omega
    rw [moved, List.mem_range, Rect.height] at inRows
    refine confined_copyRow before before _ fun index begins ends => ?_
    exact cells_of_row rect gfx.stride (rect.top + y) (by omega) (by omega) begins ends
  · intro x inColumns y inRows before
    rw [Rect.height] at fits
    refine confined_update before ?_ background
    refine cells_of_row rect gfx.stride (rect.top + (rect.height - offset + y)) ?_ ?_ ?_ ?_
    · rw [Rect.height]
      omega
    · rw [Rect.height]
      omega
    · omega
    · omega

/-- Copying the rows of an area from anywhere changes its pixels. -/
theorem Rect.Inside.copyRows {gfx : Gfx} {rect : Rect} (inside : rect.Inside gfx) (surface : gfx.Surface)
    (source : Int → Pixel) (sourceStart : Int → Int) :
    Reports gfx (Gfx.invalidate
      { gfx with
        buffer := Grids.copyRows gfx.buffer source (fun y => rect.left + (y + rect.top) * gfx.stride) sourceStart
          rect.width rect.height.toNat } rect) := by
  refine reports_of_area surface inside (confined_copyRows _ _ _ fun row inRows index begins ends => ?_)
  rw [Rect.height] at inRows
  have shifted : rect.left + (row + rect.top) * (gfx.stride : Int) = rect.left + (rect.top + row) * gfx.stride := by
    rw [Int.add_comm rect.top]
  rw [shifted] at begins ends
  exact cells_of_row rect gfx.stride (rect.top + row) (by omega) (by omega) begins ends

/-- `gfx_transfer` changes the pixels of the rectangle of the destination. -/
theorem Rect.Inside.transfer {gfx : Gfx} {rect : Rect} (inside : rect.Inside gfx) (surface : gfx.Surface) (src : Gfx)
    (srcPoint : Point) : Reports gfx (gfx.transfer src rect srcPoint) :=
  inside.copyRows surface src.buffer fun y => srcPoint.x + (y + srcPoint.y) * src.stride

/-- `gfx_swap` changes the pixels of its rectangle. -/
theorem Rect.Inside.swap {gfx : Gfx} {rect : Rect} (inside : rect.Inside gfx) (surface : gfx.Surface) (src : Gfx) :
    Reports gfx (gfx.swap src rect) :=
  inside.copyRows surface src.buffer fun y => rect.left + (y + rect.top) * gfx.stride

/-- `gfx_transfer_blend` changes the pixels of the rectangle of the destination. -/
theorem Rect.Inside.transferBlend {gfx : Gfx} {rect : Rect} (inside : rect.Inside gfx) (surface : gfx.Surface)
    (src : Gfx) (srcPoint : Point) : Reports gfx (gfx.transferBlend src rect srcPoint) := by
  refine reports_of_area surface inside ?_
  refine Folds.foldl_related _ _ fun y inRows before => Folds.foldl_related _ before fun x inColumns state => ?_
  rw [List.mem_range, Rect.height] at inRows
  rw [List.mem_range, Rect.width] at inColumns
  intro index outside
  refine if_neg ?_
  rintro rfl
  exact outside (cells_at rect gfx.stride (by omega) (by omega) (by omega) (by omega))

/-- `gfx_char` changes the pixels of the area of the character. -/
theorem Rect.Inside.char {gfx : Gfx} {psf : Psf} {point : Point} {height : Nat}
    (inside : (psf.charRect point height).Inside gfx) (surface : gfx.Surface) (chr : UInt8)
    (foreground background : Pixel) : Reports gfx (gfx.char psf point height chr foreground background) := by
  refine reports_of_area surface inside (confined_forPixels _ fun x inColumns y inRows before => ?_)
  refine confined_update before ?_ _
  refine cells_at (psf.charRect point height) gfx.stride ?_ ?_ ?_ ?_ <;> simp only [Psf.charRect, rectInitDim] <;> omega

/-- The areas of the characters of a text from a point on. -/
def textCells (psf : Psf) (height width : Nat) : Point → List UInt8 → List Rect
  | _, [] => []
  | point, _ :: later => psf.charRect point height :: textCells psf height width ⟨point.x + width, point.y⟩ later

/-- The characters of a text change the pixels of their areas. -/
theorem Gfx.Surface.chars {gfx : Gfx} (surface : gfx.Surface) (psf : Psf) (height width : Nat)
    (foreground background : Pixel) (point : Point) (str : List UInt8)
    (inside : ∀ rect ∈ textCells psf height width point str, rect.Inside gfx) :
    Reports gfx (gfx.chars psf height width foreground background point str) := by
  induction str generalizing gfx point with
  | nil => exact .refl gfx
  | cons chr later ih =>
    obtain ⟨first, others⟩ := List.forall_mem_cons.mp inside
    have drawn := first.char surface chr foreground background
    refine drawn.trans (ih (drawn.surface surface) _ fun rect member => ?_)
    exact (drawn.inside_iff rect).mpr (others rect member)

end Functions

section Runs

/-- The areas that a call draws on are areas of the surface, and edges fit into their
rectangle. For a text these are the areas of the characters that are drawn. -/
def Call.Inside (gfx : Gfx) : Call → Prop
  | .fbmp bitmap point => (rectInitDim point.x point.y bitmap.width bitmap.height).Inside gfx
  | .char psf point height _ _ _ => (psf.charRect point height).Inside gfx
  | .text psf area xAlign yAlign height str _ _ =>
      ∀ point, textPoint psf area xAlign yAlign height str = some point →
        ∀ cell ∈ textCells psf (psf.height * psf.scale height) (psf.width * psf.scale height) point
          (textChars psf area height str), cell.Inside gfx
  | .rect area _ => area.Inside gfx
  | .edge area width _ _ | .ridge area width _ _ | .rim area width _ =>
      area.Inside gfx ∧ 2 * width ≤ area.width ∧ 2 * width ≤ area.height
  | .scroll area offset _ => area.Inside gfx ∧ offset ≤ area.height
  | .transfer _ destRect _ | .transferBlend _ destRect _ => destRect.Inside gfx
  | .swap _ area => area.Inside gfx

/-- A bitmap is empty, or its rows lie between the smaller of the edges of the invalid
rectangle and the `x` coordinate on one side, and the larger of the edges and the `x`
coordinate on the other side. If nothing is invalid, the two coordinates of the point are
the same. -/
def Call.RowsReported (gfx : Gfx) : Call → Prop
  | .fbmp bitmap point =>
      bitmap.width = 0 ∨ bitmap.height = 0 ∨
        if gfx.invalidRect.area = 0 then point.x = point.y
        else min gfx.invalidRect.top point.x ≤ point.y ∧
          point.y + bitmap.height ≤ max gfx.invalidRect.bottom (point.x + bitmap.height)
  | _ => True

/-- `gfx_fbmp` changes the pixels of its area, and they are invalid afterwards if their rows
are reported. -/
theorem fbmp_reports {gfx : Gfx} (surface : gfx.Surface) (bitmap : Fbmp) (point : Point)
    (inside : (Call.fbmp bitmap point).Inside gfx) (reported : (Call.fbmp bitmap point).RowsReported gfx) :
    Reports gfx (gfx.fbmp bitmap point) := by
  refine reports_of_confined surface _ inside (confined_forPixels _ fun x inColumns y inRows before => ?_) ?_
  · refine confined_update before ?_ _
    refine cells_at (rectInitDim point.x point.y bitmap.width bitmap.height) gfx.stride ?_ ?_ ?_ ?_ <;>
      simp only [rectInitDim] <;> omega
  · intro pixel drawn
    rw [gfxInvalidate]
    simp only [Call.RowsReported, rectInitDim, Rect.Contains] at reported drawn ⊢
    split_ifs at reported ⊢ <;> dsimp only <;> omega

/-- A call inside the surface whose rows are reported keeps every change invalid. -/
theorem draw_reports {gfx : Gfx} (surface : gfx.Surface) (call : Call) (inside : call.Inside gfx)
    (reported : call.RowsReported gfx) : Reports gfx (draw gfx call) := by
  cases call with
  | fbmp bitmap point => exact fbmp_reports surface bitmap point inside reported
  | char psf point height chr foreground background => exact inside.char surface chr foreground background
  | text psf rect xAlign yAlign height str foreground background =>
    rw [draw, Gfx.text]
    cases placed : textPoint psf rect xAlign yAlign height str with
    | none => exact .refl gfx
    | some point => exact surface.chars psf _ _ foreground background point _ (inside point placed)
  | rect rect pixel => exact inside.rect surface pixel
  | edge rect width foreground background => exact inside.1.edge surface inside.2.1 inside.2.2 foreground background
  | ridge rect width foreground background => exact inside.1.ridge surface inside.2.1 inside.2.2 foreground background
  | rim rect width pixel => exact inside.1.rim surface inside.2.1 inside.2.2 pixel
  | scroll rect offset background => exact inside.1.scroll surface inside.2 background
  | transfer src destRect srcPoint => exact inside.transfer surface src srcPoint
  | transferBlend src destRect srcPoint => exact inside.transferBlend surface src srcPoint
  | swap src rect => exact inside.swap surface src

/-- A call always returns. -/
def step (gfx : Gfx) (call : Call) : Option Gfx :=
  some (draw gfx call)

/-- Every pixel of the surface that has another value than at the start is invalid. -/
def ChangesInvalid (start gfx : Gfx) : Prop :=
  ∀ point, start.whole.Contains point →
    gfx.buffer (cell start.stride point.x point.y) ≠ start.buffer (cell start.stride point.x point.y) →
    gfx.invalidRect.Contains point

/-- A loop whose iterations keep a value at a place once it is there, and one of which
writes it. -/
theorem foldl_writes {Item : Type} {index : Int} {value : Pixel} {iteration : (Int → Pixel) → Item → Int → Pixel}
    (items : List Item) (keeps : ∀ before item, before index = value → iteration before item index = value)
    (buffer : Int → Pixel)
    (written : buffer index = value ∨ ∃ writer ∈ items, ∀ before, iteration before writer index = value) :
    items.foldl iteration buffer index = value := by
  induction items generalizing buffer with
  | nil =>
    rcases written with already | ⟨writer, member, _⟩
    · exact already
    · cases member
  | cons item later ih =>
    apply ih
    rcases written with already | ⟨writer, member, writes⟩
    · exact .inl (keeps buffer item already)
    · rcases List.mem_cons.mp member with rfl | inLater
      · exact .inl (writes buffer)
      · exact .inr ⟨writer, inLater, writes⟩

/-- A bitmap of one colour is drawn. -/
theorem fbmp_drawn (gfx : Gfx) (width height : Nat) (color : Pixel) (point : Point) {x y : Nat} (inColumns : x < width)
    (inRows : y < height) :
    (gfx.fbmp ⟨width, height, fun _ => color⟩ point).buffer ((point.x + x) + (point.y + y) * gfx.stride) = color := by
  have keeps (index place : Int) (before : Int → Pixel) (here : before index = color) :
      Function.update before place color index = color := by
    rw [Function.update_apply]
    split_ifs
    · rfl
    · exact here
  refine foldl_writes _ (fun before row here => ?_) _ (.inr ⟨y, List.mem_range.mpr inRows, fun before => ?_⟩)
  · exact foldl_writes _ (fun state column => keeps _ _ state) before (.inl here)
  · exact foldl_writes _ (fun state column => keeps _ _ state) before
      (.inr ⟨x, List.mem_range.mpr inColumns, fun state => Function.update_self _ _ _⟩)

/-- Whenever the rows of a bitmap are not reported, a bitmap of its size and of one colour
changes a pixel that is not invalid afterwards. -/
theorem fbmp_unreported (gfx : Gfx) (bitmap : Fbmp) (point : Point) (inside : (Call.fbmp bitmap point).Inside gfx)
    (unreported : ¬ (Call.fbmp bitmap point).RowsReported gfx) :
    ∃ color, ¬ ChangesInvalid gfx (draw gfx (.fbmp { bitmap with data := fun _ => color } point)) := by
  have outside : 0 < bitmap.width ∧ ∃ row < bitmap.height, ¬
      (gfxInvalidate gfx.invalidRect (rectInitDim point.x point.x bitmap.width bitmap.height)).Contains
        ⟨point.x, point.y + row⟩ := by
    simp only [Call.RowsReported, not_or] at unreported
    obtain ⟨wide, high, rows⟩ := unreported
    refine ⟨Nat.pos_of_ne_zero wide, ?_⟩
    -- The first row is above the invalid rectangle, or the last row is below it.
    by_contra all
    have within (row : Nat) (inRows : row < bitmap.height) := not_not.mp (not_and.mp (not_exists.mp all row) inRows)
    have first := within 0 (Nat.pos_of_ne_zero high)
    have last := within (bitmap.height - 1) (Nat.sub_one_lt high)
    rw [gfxInvalidate] at first last
    split_ifs at rows first last <;> simp only [Rect.Contains, rectInitDim] at first last <;> omega
  obtain ⟨wide, row, inRows, missed⟩ := outside
  obtain ⟨color, different⟩ : ∃ color, color ≠ gfx.buffer (cell gfx.stride point.x (point.y + row)) := by
    by_cases black : gfx.buffer (cell gfx.stride point.x (point.y + row)) = 0
    · rw [black]
      exact ⟨1, by decide⟩
    · exact ⟨0, fun same => black same.symm⟩
  refine ⟨color, fun invalid => ?_⟩
  refine missed (invalid ⟨point.x, point.y + row⟩ ?_ ?_)
  · obtain ⟨_, within⟩ := inside
    simp only [Rect.Within, rectInitDim, Gfx.whole, Rect.Contains] at within ⊢
    omega
  · have drawn := fbmp_drawn gfx bitmap.width bitmap.height color point wide inRows
    rw [Nat.cast_zero, Int.add_zero] at drawn
    exact fun same => different (drawn.symm.trans same)

/-- If every call draws inside the surface, and every bitmap has its rows reported, then
every pixel changed so far is always invalid, whatever was invalid at the start. -/
theorem drawing_invalidates (start : Gfx) (surface : start.Surface) (calls : List Call)
    (inside : EventRuns.Each step start (fun gfx call => call.Inside gfx) calls)
    (reported : EventRuns.Each step start (fun gfx call => call.RowsReported gfx) calls) :
    EventRuns.Always step start (ChangesInvalid start) calls := by
  have each : EventRuns.Each step start (fun gfx call => call.Inside gfx ∧ call.RowsReported gfx) calls :=
    fun beginning call gfx next before reached taken =>
      ⟨inside beginning call gfx next before reached taken, reported beginning call gfx next before reached taken⟩
  have always : EventRuns.Always step start (Reports start) calls := by
    refine EventRuns.always_of_each (.refl start) ?_ calls each
    intro gfx call next soFar allowed taken
    obtain rfl := Option.some.inj taken
    exact soFar.trans (draw_reports (soFar.surface surface) call allowed.1 allowed.2)
  intro beginning gfx before reached
  exact (always beginning gfx before reached).changed

/-- A surface of four by four black pixels, with nothing invalid. -/
def blackSurface : Gfx :=
  ⟨fun _ => 0, 16, 4, 4, 4, ⟨0, 0, 0, 0⟩⟩

/-- It is a surface. -/
theorem blackSurface_surface : blackSurface.Surface :=
  ⟨by decide, by decide, by decide⟩

/-- A bitmap of one white pixel. -/
def whitePixel : Fbmp :=
  ⟨1, 1, fun _ => 0xFFFFFFFF⟩

/-- On the diagonal of the surface the bitmap is reported. -/
theorem drawing_invalidates_sample :
    EventRuns.Always step blackSurface (ChangesInvalid blackSurface) [.fbmp whitePixel ⟨2, 2⟩] := by
  refine drawing_invalidates blackSurface blackSurface_surface [.fbmp whitePixel ⟨2, 2⟩] ?_ ?_
  · exact EventRuns.each_cons ⟨⟨by decide, by decide⟩, by decide, by decide, by decide, by decide⟩ rfl
      EventRuns.each_nil
  · exact EventRuns.each_cons (.inr (.inr rfl)) rfl EventRuns.each_nil

/-- Below the diagonal it is drawn, and not reported. -/
theorem bitmap_not_invalidated : ¬ ∀ start : Gfx, start.Surface → start.invalidRect.area = 0 → ∀ calls,
    EventRuns.Each step start (fun gfx call => call.Inside gfx) calls →
      EventRuns.Always step start (ChangesInvalid start) calls := by
  intro claimed
  have inside : EventRuns.Each step blackSurface (fun gfx call => call.Inside gfx) [.fbmp whitePixel ⟨0, 2⟩] :=
    EventRuns.each_cons ⟨⟨by decide, by decide⟩, by decide, by decide, by decide, by decide⟩ rfl EventRuns.each_nil
  have invalid := claimed blackSurface blackSurface_surface rfl [.fbmp whitePixel ⟨0, 2⟩] inside
    [.fbmp whitePixel ⟨0, 2⟩] _ (List.prefix_refl _) rfl ⟨0, 2⟩ (by decide) (by decide)
  exact absurd invalid (by decide)

end Runs

end Asym.Graphics
