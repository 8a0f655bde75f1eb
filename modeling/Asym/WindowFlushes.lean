import Asym.Graphics
import Asym.Grids

/-!
# Flushes of windows

A model of `window_flush` with the widths of the source. Coordinates have 64 bits with
signs, the dimensions of a window have 32 bits without. The number of pixels in a buffer is
the product of the dimensions in 32 bits, both where the buffer is allocated and where the
size of the user's buffer is checked, and the copy goes row by row with indexes of 64 bits.

The check looks at the right and the bottom edge only, and compares them with the
dimensions, not with the number of pixels.
-/

namespace Asym.WindowFlushes

open Graphics (Pixel)

/-- `rect_t`. -/
structure Rect where
  left : BitVec 64
  top : BitVec 64
  right : BitVec 64
  bottom : BitVec 64
  deriving DecidableEq, Repr

/-- `RECT_WIDTH`. -/
def Rect.width (rect : Rect) : BitVec 64 :=
  rect.right - rect.left

/-- `RECT_HEIGHT`. -/
def Rect.height (rect : Rect) : BitVec 64 :=
  rect.bottom - rect.top

/-- `RECT_AREA`. -/
def Rect.area (rect : Rect) : BitVec 64 :=
  rect.width * rect.height

/-- `MIN` of signed numbers. -/
def least (first second : BitVec 64) : BitVec 64 :=
  if first.slt second then first else second

/-- `MAX` of signed numbers. -/
def greatest (first second : BitVec 64) : BitVec 64 :=
  if second.slt first then first else second

/-- `gfx_invalidate`. -/
def gfxInvalidate (invalid rect : Rect) : Rect :=
  if invalid.area = 0 then rect
  else ⟨least invalid.left rect.left, least invalid.top rect.top, greatest invalid.right rect.right,
    greatest invalid.bottom rect.bottom⟩

/-- The fields of `window_t` and its `gfx_t` that a flush uses. With the buffer stands the
number of pixels that were allocated. -/
structure Window where
  buffer : Nat → Pixel
  room : Nat
  width : BitVec 32
  height : BitVec 32
  stride : BitVec 32
  invalidRect : Rect
  invalid : Bool

/-- The number of pixels in a buffer, a product of 32 bits. -/
def pixels (width height : BitVec 32) : Nat :=
  (width * height).toNat

/-- `window_new`. -/
def windowNew (width height : BitVec 32) : Window where
  buffer := fun _ => 0
  room := pixels width height
  width := width
  height := height
  stride := width
  invalidRect := ⟨0, 0, width.setWidth 64, height.setWidth 64⟩
  invalid := false

/-- `IOCTL_WINDOW_MOVE` in `window_ioctl`. A new buffer has what memory held before. -/
def windowMove (window : Window) (width height : BitVec 32) (memory : Nat → Pixel) : Window :=
  if window.width ≠ width ∨ window.height ≠ height then
    { window with
      buffer := memory
      room := pixels width height
      width := width
      height := height
      stride := width }
  else window

/-- A window after its creation and any moves, if every allocation succeeds. -/
inductive Reachable : Window → Prop where
  | create (width height : BitVec 32) : Reachable (windowNew width height)
  | move {window : Window} (reachable : Reachable window) (width height : BitVec 32) (memory : Nat → Pixel) :
      Reachable (windowMove window width height memory)

/-- The errors of `window_flush`. -/
inductive Errno where
  | ebuffer
  | einval
  deriving DecidableEq, Repr

/-- The two checks of `window_flush`. -/
def check (window : Window) (size : BitVec 64) (rect : Rect) : Option Errno :=
  if size ≠ (window.width * window.height).setWidth 64 * 4 then some .ebuffer
  else if rect.right.slt rect.left ∨ rect.bottom.slt rect.top ∨ (window.width.setWidth 64).slt rect.right ∨
      (window.height.setWidth 64).slt rect.bottom then some .einval
  else none

/-- The number of turns of the loop over the rows: the counter is signed. -/
def rows (rect : Rect) : Nat :=
  rect.height.toInt.toNat

/-- The number of pixels in one `memcpy`, whose size in bytes has 64 bits. -/
def rowPixels (rect : Rect) : Nat :=
  (rect.width * 4).toNat / 4

/-- `index`. -/
def rowIndex (window : Window) (rect : Rect) (y : Nat) : BitVec 64 :=
  rect.left + (rect.top + BitVec.ofNat 64 y) * window.stride.setWidth 64

/-- A copy of pixels: the index of the first one in both buffers, and their number. -/
structure Copy where
  index : Nat
  count : Nat
  deriving DecidableEq, Repr

/-- The pixels that a copy reads and writes. -/
def Copy.Touches (copy : Copy) (index : Nat) : Prop :=
  copy.index ≤ index ∧ index < copy.index + copy.count

/-- The buffer while rows are copied, and the copies made. -/
structure Copying where
  buffer : Nat → Pixel
  copies : List Copy

/-- `memcpy` between the same places of two buffers. -/
def memcpy (source : Nat → Pixel) (copying : Copying) (copy : Copy) : Copying where
  buffer index := if copy.index ≤ index ∧ index < copy.index + copy.count then source index else copying.buffer index
  copies := copying.copies ++ [copy]

/-- A turn of the loop. -/
def flushRow (window : Window) (source : Nat → Pixel) (rect : Rect) (copying : Copying) (y : Nat) : Copying :=
  memcpy source copying ⟨(rowIndex window rect y).toNat, rowPixels rect⟩

/-- What `window_flush` returns, the window after it, and the copies made. -/
structure Flushed where
  error : Option Errno
  window : Window
  copies : List Copy

/-- `window_flush`. -/
def windowFlush (window : Window) (source : Nat → Pixel) (size : BitVec 64) (rect : Rect) : Flushed :=
  match check window size rect with
  | some error => ⟨some error, window, []⟩
  | none =>
      let copying := (List.range (rows rect)).foldl (flushRow window source rect) ⟨window.buffer, []⟩
      { error := none
        window := { window with
          buffer := copying.buffer
          invalidRect := gfxInvalidate window.invalidRect rect
          invalid := true }
        copies := copying.copies }

/-- If the flush succeeds, every pixel read is inside the user's buffer and every pixel
written is inside the window's. Otherwise there was no copy and no pixel has changed. -/
def StaysInside (window : Window) (size : BitVec 64) (flushed : Flushed) : Prop :=
  (flushed.error = none → ∀ copy ∈ flushed.copies, ∀ index, copy.Touches index →
    index < size.toNat / 4 ∧ index < window.room) ∧
  (flushed.error ≠ none → flushed.copies = [] ∧ flushed.window.buffer = window.buffer)

/-- The rectangle has no rows or its rows have no pixels, or the rows from the index of the
first pixel on end inside the 32-bit product of the dimensions. -/
def RowsFit (window : Window) (rect : Rect) : Prop :=
  rows rect = 0 ∨ rowPixels rect = 0 ∨
    (rect.left + rect.top * window.stride.setWidth 64).toNat + (rows rect - 1) * window.stride.toNat +
      rowPixels rect ≤ pixels window.width window.height

/-- The stride of a reachable window is its width, and its buffer has as many pixels as the
product of its dimensions in 32 bits. -/
theorem Reachable.allocated {window : Window} (reachable : Reachable window) :
    window.stride = window.width ∧ window.room = pixels window.width window.height := by
  induction reachable with
  | create width height => exact ⟨rfl, rfl⟩
  | move _ width height memory ih =>
    rw [windowMove]
    split_ifs
    · exact ⟨rfl, rfl⟩
    · exact ih

/-- A size that is accepted has as many pixels as the buffer. -/
theorem check_size {window : Window} {size : BitVec 64} {rect : Rect} (passed : check window size rect = none) :
    size.toNat / 4 = pixels window.width window.height := by
  rw [check] at passed
  split_ifs at passed with differs
  have same := not_not.mp differs
  have small := (window.width * window.height).isLt
  have four : (4 : BitVec 64).toNat = 4 := rfl
  have bytes : size.toNat = (window.width * window.height).toNat * 4 := by
    rw [same, BitVec.toNat_mul, BitVec.toNat_setWidth, four, Nat.mod_eq_of_lt (b := 2 ^ 64) (by omega),
      Nat.mod_eq_of_lt (by omega)]
  rw [bytes, pixels]
  omega

/-- The copies of the loop, one for each row. -/
theorem foldl_copies (window : Window) (source : Nat → Pixel) (rect : Rect) (copying : Copying) (turns : List Nat) :
    (turns.foldl (flushRow window source rect) copying).copies =
      copying.copies ++ turns.map fun y => ⟨(rowIndex window rect y).toNat, rowPixels rect⟩ := by
  induction turns generalizing copying with
  | nil => simp
  | cons y later ih =>
    rw [List.foldl_cons, ih, List.map_cons, flushRow, memcpy, List.append_assoc,
      List.singleton_append]

/-- The index of a row, counted from the index of the first one modulo 64 bits. -/
theorem rowIndex_toNat (window : Window) (rect : Rect) (y : Nat) :
    (rowIndex window rect y).toNat =
      ((rect.left + rect.top * window.stride.setWidth 64).toNat + y * window.stride.toNat) % 2 ^ 64 := by
  have apart : rowIndex window rect y =
      rect.left + rect.top * window.stride.setWidth 64 + BitVec.ofNat 64 y * window.stride.setWidth 64 := by
    rw [rowIndex, BitVec.add_mul, BitVec.add_assoc]
  have small := window.stride.isLt
  rw [apart, BitVec.toNat_add, BitVec.toNat_mul, BitVec.toNat_ofNat, BitVec.toNat_setWidth,
    Nat.mod_eq_of_lt (Nat.lt_trans small (by decide)), Nat.add_mod_mod, Nat.add_mod, Nat.mod_mul_mod,
    ← Nat.add_mod]

/-- A copy touches only indexes below a limit exactly if it is empty or ends there. -/
theorem Copy.touches_below_iff (copy : Copy) (limit : Nat) :
    (∀ index, copy.Touches index → index < limit) ↔ copy.count = 0 ∨ copy.index + copy.count ≤ limit := by
  constructor
  · intro each
    rcases Nat.eq_zero_or_pos copy.count with none | positive
    · exact .inl none
    · have last := each (copy.index + copy.count - 1) ⟨by omega, by omega⟩
      exact .inr (by omega)
  · rintro (none | fits) index ⟨begins, ends⟩
    · omega
    · omega

/-- The copies of a flush that is not refused. -/
theorem windowFlush_copies {window : Window} {size : BitVec 64} {rect : Rect} (passed : check window size rect = none)
    (source : Nat → Pixel) :
    (windowFlush window source size rect).error = none ∧ (windowFlush window source size rect).copies =
      (List.range (rows rect)).map fun y => ⟨(rowIndex window rect y).toNat, rowPixels rect⟩ := by
  rw [windowFlush, passed]
  exact ⟨rfl, foldl_copies window source rect ⟨window.buffer, []⟩ _⟩

/-- The rows stay below the number of pixels exactly if they fit. -/
theorem rows_inside_iff (window : Window) (rect : Rect) :
    (∀ y < rows rect, rowPixels rect = 0 ∨
        (rowIndex window rect y).toNat + rowPixels rect ≤ pixels window.width window.height) ↔
      RowsFit window rect := by
  rw [RowsFit]
  rcases Nat.eq_zero_or_pos (rowPixels rect) with none | positive
  · simp [none]
  · have notNone : ¬ rowPixels rect = 0 := Nat.ne_of_gt positive
    have small : pixels window.width window.height + window.stride.toNat ≤ 2 ^ 64 := by
      have area := (window.width * window.height).isLt
      have stride := window.stride.isLt
      rw [pixels]
      omega
    simp only [notNone, false_or, rowIndex_toNat]
    exact Grids.wrapped_rows_iff small (BitVec.isLt _) positive

/-- A flush of a reachable window stays inside the two buffers exactly if it is refused, or
the rows fit into the number of pixels that was allocated. -/
theorem window_flush_inside_iff (window : Window) (reachable : Reachable window) (source : Nat → Pixel)
    (size : BitVec 64) (rect : Rect) :
    StaysInside window size (windowFlush window source size rect) ↔
      (check window size rect = none → RowsFit window rect) := by
  cases passed : check window size rect with
  | some error =>
    have refused : windowFlush window source size rect = ⟨some error, window, []⟩ := by rw [windowFlush, passed]
    rw [refused]
    exact ⟨fun _ => nofun, fun _ => ⟨nofun, fun _ => ⟨rfl, rfl⟩⟩⟩
  | none =>
    obtain ⟨succeeded, copies⟩ := windowFlush_copies passed source
    have limits : size.toNat / 4 = window.room := (check_size passed).trans reachable.allocated.2.symm
    rw [StaysInside, succeeded, copies, limits, reachable.allocated.2]
    simp only [forall_const, ne_eq, not_true_eq_false, false_implies, and_true, and_self, List.forall_mem_map,
      List.mem_range, Copy.touches_below_iff]
    exact rows_inside_iff window rect

/-- A flush of the only row of a window of two pixels by one. -/
theorem window_flush_inside_sample :
    StaysInside (windowNew 2 1) 8 (windowFlush (windowNew 2 1) (fun _ => 7) 8 ⟨0, 0, 2, 1⟩) := by
  refine (window_flush_inside_iff (windowNew 2 1) (.create 2 1) (fun _ => 7) 8 ⟨0, 0, 2, 1⟩).mpr fun _ => ?_
  exact .inr (.inr (by decide))

/-- A rectangle that begins in front of the first column is accepted, and the pixel in front
of the two buffers is copied. -/
theorem window_flush_before_buffer :
    ¬ ∀ window, Reachable window → ∀ source size rect,
      StaysInside window size (windowFlush window source size rect) := by
  intro inside
  have accepted : check (windowNew 2 2) 16 ⟨-1, 0, 1, 1⟩ = none := by decide
  obtain ⟨succeeded, copies⟩ := windowFlush_copies accepted fun _ => 7
  have within := (inside (windowNew 2 2) (.create 2 2) (fun _ => 7) 16 ⟨-1, 0, 1, 1⟩).1 succeeded
  rw [copies] at within
  have first : (⟨2 ^ 64 - 1, 2⟩ : Copy) ∈
      (List.range (rows ⟨-1, 0, 1, 1⟩)).map fun y =>
        ⟨(rowIndex (windowNew 2 2) ⟨-1, 0, 1, 1⟩ y).toNat, rowPixels ⟨-1, 0, 1, 1⟩⟩ := by decide
  have touched := (within _ first (2 ^ 64 - 1) ⟨by decide, by decide⟩).1
  exact absurd touched (by decide)

end Asym.WindowFlushes
