import Asym.Grids

/-!
# Rectangles and copies of pixels

A model of `rect_t.h`, `pixel_t.h` and of the copies of `gfx.c`. Coordinates are
integers. The right and the bottom edge of a rectangle are outside of it.

Fitting a rectangle moves its edges between those of a parent. A point lies in the
result exactly if it lies in both, also for a parent whose edges are the wrong way
round.
-/

namespace Asym.Graphics

open Grids

/-- `point_t`. -/
structure Point where
  x : Int
  y : Int
  deriving DecidableEq, Repr

/-- `rect_t`. -/
structure Rect where
  left : Int
  top : Int
  right : Int
  bottom : Int
  deriving DecidableEq, Repr

/-- `RECT_INIT_DIM`. -/
def rectInitDim (x y width height : Int) : Rect :=
  ⟨x, y, x + width, y + height⟩

/-- `RECT_WIDTH`. -/
def Rect.width (rect : Rect) : Int :=
  rect.right - rect.left

/-- `RECT_HEIGHT`. -/
def Rect.height (rect : Rect) : Int :=
  rect.bottom - rect.top

/-- `RECT_AREA`. -/
def Rect.area (rect : Rect) : Int :=
  rect.width * rect.height

/-- `RECT_CONTAINS_POINT`. -/
def Rect.Contains (rect : Rect) (point : Point) : Prop :=
  rect.left ≤ point.x ∧ point.x < rect.right ∧ rect.top ≤ point.y ∧ point.y < rect.bottom

instance (rect : Rect) (point : Point) : Decidable (rect.Contains point) :=
  inferInstanceAs (Decidable (_ ∧ _))

/-- `RECT_OVERLAP`. -/
def Rect.Overlaps (rect other : Rect) : Prop :=
  ¬ (rect.right ≤ other.left ∨ other.right ≤ rect.left ∨ rect.bottom ≤ other.top ∨
    other.bottom ≤ rect.top)

instance (rect other : Rect) : Decidable (rect.Overlaps other) :=
  inferInstanceAs (Decidable (¬ _))

/-- `CLAMP`. -/
def clamp (value low high : Int) : Int :=
  min high (max low value)

/-- `RECT_FIT`. -/
def Rect.fit (rect parent : Rect) : Rect where
  left := clamp rect.left parent.left parent.right
  top := clamp rect.top parent.top parent.bottom
  right := clamp rect.right parent.left parent.right
  bottom := clamp rect.bottom parent.top parent.bottom

/-- `RECT_SUBTRACT`. -/
def Rect.subtract (rect other : Rect) : List Rect :=
  if rect.Overlaps other then
    (if rect.top < other.top then [⟨rect.left, rect.top, rect.right, other.top⟩] else []) ++
    (if other.bottom < rect.bottom then [⟨rect.left, other.bottom, rect.right, rect.bottom⟩] else []) ++
    (if rect.left < other.left then [⟨rect.left, other.top, other.left, other.bottom⟩] else []) ++
    (if other.right < rect.right then [⟨other.right, other.top, rect.right, other.bottom⟩] else [])
  else [rect]

/-- The edges of a rectangle are the right way round. -/
def Rect.Ordered (rect : Rect) : Prop :=
  rect.left ≤ rect.right ∧ rect.top ≤ rect.bottom

/-- A rectangle with its edges inside those of another one. -/
def Rect.Within (rect outer : Rect) : Prop :=
  outer.left ≤ rect.left ∧ rect.right ≤ outer.right ∧ outer.top ≤ rect.top ∧
    rect.bottom ≤ outer.bottom

/-- A point lies in a fitted rectangle exactly if it lies in both. -/
theorem Rect.contains_fit (rect parent : Rect) (point : Point) :
    (rect.fit parent).Contains point ↔ rect.Contains point ∧ parent.Contains point := by
  simp only [Rect.Contains, Rect.fit, clamp]
  omega

/-- Fitting keeps the edges the right way round. -/
theorem Rect.Ordered.fit {rect : Rect} (ordered : rect.Ordered) (parent : Rect) :
    (rect.fit parent).Ordered := by
  simp only [Rect.Ordered, Rect.fit, clamp] at *
  omega

/-- Fitting into an ordered rectangle puts the edges inside. -/
theorem Rect.fit_within (rect : Rect) {parent : Rect} (ordered : parent.Ordered) :
    (rect.fit parent).Within parent := by
  simp only [Rect.Ordered, Rect.Within, Rect.fit, clamp] at *
  omega

/-- Rectangles with a common point overlap. -/
theorem Rect.overlaps_of_contains {rect other : Rect} {point : Point} (inRect : rect.Contains point)
    (inOther : other.Contains point) : rect.Overlaps other := by
  simp only [Rect.Contains, Rect.Overlaps] at *
  omega

/-- If nothing is left of a rectangle without another one, its points lie in the
other one. -/
theorem Rect.contains_of_subtract_nil {rect other : Rect} (nothing : rect.subtract other = [])
    {point : Point} (inside : rect.Contains point) : other.Contains point := by
  rw [Rect.subtract] at nothing
  split at nothing
  · simp only [List.append_eq_nil_iff, ite_eq_right_iff, List.cons_ne_self, imp_false, not_lt] at nothing
    simp only [Rect.Contains] at *
    omega
  · cases nothing

/-- `pixel_t`. -/
abbrev Pixel : Type := UInt32

/-- `PIXEL_ALPHA`, `PIXEL_RED`, `PIXEL_GREEN` and `PIXEL_BLUE` with their shifts. -/
def channel (shift : Nat) (pixel : Pixel) : Nat :=
  (pixel.toNat >>> shift) &&& 0xFF

/-- `PIXEL_BLEND`, as the new value of the pixel drawn on. A colour is not cut to its
eight bits. -/
def pixelBlend (below above : Pixel) : Pixel :=
  let aAlpha := channel 24 above
  let bAlpha := channel 24 below
  let alpha := aAlpha + bAlpha * (0xFF - aAlpha) / 0xFF
  let mix (shift : Nat) : Nat :=
    (channel shift above * aAlpha + channel shift below * bAlpha * (0xFF - aAlpha) / 0xFF) / alpha
  if alpha = 0 then 0
  else UInt32.ofNat ((alpha <<< 24) ||| (mix 16 <<< 16) ||| (mix 8 <<< 8) ||| mix 0)

/-- `gfx_t`. With the buffer stands the number of pixels it has room for. -/
structure Gfx where
  buffer : Int → Pixel
  capacity : Nat
  width : Nat
  height : Nat
  stride : Nat
  invalidRect : Rect

/-- The pixels of `gfx_transfer`, drawn on a buffer with a stride. -/
def gfxTransfer (target : Int → Pixel) (targetStride : Nat) (source : Int → Pixel) (sourceStride : Nat)
    (rect : Rect) (point : Point) : Int → Pixel :=
  copyRows target source (fun y => rect.left + (y + rect.top) * targetStride)
    (fun y => point.x + (y + point.y) * sourceStride) rect.width rect.height.toNat

/-- The pixels of `gfx_transfer_blend`. -/
def gfxTransferBlend (target : Int → Pixel) (targetStride : Nat) (source : Int → Pixel)
    (sourceStride : Nat) (rect : Rect) (point : Point) : Int → Pixel :=
  (List.range rect.height.toNat).foldl (fun rows (y : Nat) =>
    (List.range rect.width.toNat).foldl (fun buffer (x : Nat) =>
      let out := (rect.left + x) + (rect.top + y) * targetStride
      fun index =>
        if index = out then
          pixelBlend (buffer out) (source ((point.x + x) + (point.y + y) * sourceStride))
        else buffer index) rows) target

/-- `gfx_invalidate`. -/
def gfxInvalidate (invalid rect : Rect) : Rect :=
  if invalid.area = 0 then rect
  else ⟨min invalid.left rect.left, min invalid.top rect.top, max invalid.right rect.right,
    max invalid.bottom rect.bottom⟩

/-- A copy into a rectangle inside the rows of the target, pixel by pixel. -/
theorem gfxTransfer_cell (target : Int → Pixel) (targetStride : Nat) (source : Int → Pixel)
    (sourceStride : Nat) (rect : Rect) (point pixel : Point) (begins : 0 ≤ rect.left)
    (ends : rect.right ≤ targetStride) (pixelBegins : 0 ≤ pixel.x) (pixelEnds : pixel.x < targetStride) :
    gfxTransfer target targetStride source sourceStride rect point (cell targetStride pixel.x pixel.y) =
      if rect.Contains pixel then
        source (cell sourceStride (point.x + (pixel.x - rect.left)) (point.y + (pixel.y - rect.top)))
      else target (cell targetStride pixel.x pixel.y) := by
  have copied := copyRows_cell target source (fun y => point.x + (y + point.y) * sourceStride)
    rect.top pixel.y rect.height.toNat begins
    (show rect.left + rect.width ≤ targetStride by rw [Rect.width]; omega) pixelBegins pixelEnds
  have same : rect.left ≤ pixel.x ∧ pixel.x < rect.left + rect.width ∧ rect.top ≤ pixel.y ∧
      pixel.y < rect.top + rect.height.toNat ↔ rect.Contains pixel := by
    simp only [Rect.Contains, Rect.width, Rect.height]
    omega
  apply copied.trans
  by_cases inside : rect.Contains pixel
  · rw [if_pos (same.mpr inside), if_pos inside, cell, Int.add_comm (pixel.y - rect.top)]
    congr 1
    omega
  · rw [if_neg (mt same.mp inside), if_neg inside]

/-- What was invalid stays invalid. -/
theorem gfxInvalidate_old {invalid : Rect} (rect : Rect) {point : Point}
    (inside : invalid.Contains point) : (gfxInvalidate invalid rect).Contains point := by
  rw [gfxInvalidate, if_neg]
  · simp only [Rect.Contains] at *
    omega
  · simp only [Rect.Contains, Rect.area, Rect.width, Rect.height, Int.mul_eq_zero] at *
    omega

/-- The rectangle becomes invalid. -/
theorem gfxInvalidate_new (invalid : Rect) {rect : Rect} {point : Point}
    (inside : rect.Contains point) : (gfxInvalidate invalid rect).Contains point := by
  rw [gfxInvalidate]
  split
  · exact inside
  · simp only [Rect.Contains] at *
    omega

/-- Invalid rectangles stay ordered and inside a rectangle. -/
theorem gfxInvalidate_within {invalid rect outer : Rect} (invalidWithin : invalid.Within outer)
    (rectWithin : rect.Within outer) (invalidOrdered : invalid.Ordered) (rectOrdered : rect.Ordered) :
    (gfxInvalidate invalid rect).Within outer ∧ (gfxInvalidate invalid rect).Ordered := by
  rw [gfxInvalidate]
  split
  · exact ⟨rectWithin, rectOrdered⟩
  · simp only [Rect.Within, Rect.Ordered] at *
    omega

end Asym.Graphics
