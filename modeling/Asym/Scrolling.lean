import Asym.RectFills
import Asym.WordCopies

/-!
# Scrolled rectangles

`gfx_scroll` moves the rows of a rectangle up with `memmove`, from the first row on, and then
stores the background in the pixels that are left at the bottom.

On pixels this is the drawing function of a surface. In the memory a pixel has four bytes, and
`memmove` copies them one by one; the bytes show the picture that the drawing function leaves, and
no others change.
-/

namespace Asym.Scrolling

open Graphics Grids RectFills ByteMemory WordCopies MachineWords Folds

section Pixels

variable {gfx : Gfx} {rect : Rect} {offset : Nat}

/-- The pixel at a place is one of a rectangle if it stands in the rectangle. -/
theorem cells_cell_iff {stride x y : Int} (begins : 0 ≤ rect.left) (ends : rect.right ≤ stride) (left : 0 ≤ x)
    (right : x < stride) : rect.cells stride (cell stride x y) ↔ rect.Contains ⟨x, y⟩ := by
  constructor
  · rintro ⟨⟨column, row⟩, inside, same⟩
    simp only [Rect.Contains] at inside same
    obtain ⟨rfl, rfl⟩ := cell_inj left right (by omega) (by omega) same
    exact inside
  · exact fun inside => ⟨⟨x, y⟩, inside, rfl⟩

/-- The rows of a rectangle that are filled with the background. -/
def bottomRows (rect : Rect) (offset : Nat) : Rect := ⟨rect.left, rect.bottom - offset, rect.right, rect.bottom⟩

/-- The buffer after the rows have been moved. -/
def movedRows (gfx : Gfx) (rect : Rect) (offset : Nat) : Int → Pixel :=
  (List.range (rect.height - offset).toNat).foldl (fun buffer (y : Nat) =>
    copyRow buffer buffer (cell gfx.stride rect.left (rect.top + y))
      (cell gfx.stride rect.left (rect.top + y + offset)) rect.width) gfx.buffer

/-- `gfx_scroll` moves rows and fills the ones at the bottom. -/
theorem scroll_buffer (surface : gfx.Surface) (inside : rect.Inside gfx) (fits : offset ≤ rect.height)
    (background : Pixel) : (gfx.scroll rect offset background).buffer =
      fillPixels { gfx with buffer := movedRows gfx rect offset } (bottomRows rect offset) background := by
  obtain ⟨⟨wide, high⟩, within⟩ := inside
  have short := surface.short
  simp only [Rect.Within, Gfx.whole] at within
  rw [Rect.height] at fits
  have moved : unsigned (rect.height - offset) = (rect.height - offset).toNat := by
    rw [unsigned, Rect.height]
    omega
  have rows : (bottomRows rect offset).height.toNat = offset := by
    simp only [bottomRows, Rect.height]
    omega
  have place : ∀ x y : Nat, rect.left + (rect.top + (rect.height - offset + y)) * gfx.stride + x =
      (rect.left + x) + (rect.bottom - offset + y) * gfx.stride := by
    intro x y
    have row : rect.top + (rect.height - offset + y) = rect.bottom - offset + y := by
      rw [Rect.height]
      omega
    rw [row]
    omega
  rw [fillPixels, rows, Gfx.scroll, moved]
  simp only [place]
  rfl

/-- `gfx_scroll`, pixel by pixel. -/
theorem scroll_cell (surface : gfx.Surface) (inside : rect.Inside gfx) (fits : offset ≤ rect.height)
    (background : Pixel) {x y : Int} (left : 0 ≤ x) (right : x < gfx.stride) :
    (gfx.scroll rect offset background).buffer (cell gfx.stride x y) =
      if rect.Contains ⟨x, y⟩ then
        if y < rect.bottom - offset then gfx.buffer (cell gfx.stride x (y + offset)) else background
      else gfx.buffer (cell gfx.stride x y) := by
  have rows := surface.rows
  have within := inside.2
  obtain ⟨wide, high⟩ := inside.1
  simp only [Rect.Within, Gfx.whole] at within
  rw [Rect.height] at fits
  have ordered : (bottomRows rect offset).Ordered := ⟨wide, by simp only [bottomRows]; omega⟩
  have painted := @fillPixels_paints { gfx with buffer := movedRows gfx rect offset } _ background ordered
    (cell gfx.stride x y)
  have moved := @moveRows_cell _ gfx.buffer gfx.stride rect.left rect.width x rect.top y offset
    (rect.height - offset).toNat (by omega) (by rw [Rect.width]; omega) left right
  rw [cells_cell_iff (by simp only [bottomRows]; omega) (by simp only [bottomRows]; omega) left right] at painted
  rw [scroll_buffer surface inside fits]
  by_cases low : (bottomRows rect offset).Contains ⟨x, y⟩
  · have inRect : rect.Contains ⟨x, y⟩ := by
      simp only [bottomRows, Rect.Contains] at low ⊢
      omega
    have notAbove : ¬ y < rect.bottom - offset := Int.not_lt.mpr low.2.2.1
    rw [painted.1 low, if_pos inRect, if_neg notAbove]
  · rw [painted.2 low]
    refine moved.trans ?_
    by_cases inRect : rect.Contains ⟨x, y⟩
    · have above : y < rect.bottom - offset := by
        simp only [bottomRows, Rect.Contains] at low inRect
        omega
      rw [if_pos inRect, if_pos above, if_pos]
      simp only [Rect.Contains, Rect.width, Rect.height] at inRect ⊢
      omega
    · rw [if_neg inRect, if_neg]
      simp only [Rect.Contains, Rect.width, Rect.height] at inRect ⊢
      omega

end Pixels

section Bytes

/-- `gfx_t`, with the address of its buffer. -/
structure MemGfx where
  buffer : Nat
  width : Nat
  height : Nat
  stride : Nat
  invalidRect : Rect

/-- `&gfx->buffer[index]`. The address wraps, with an index of either sign. -/
def MemGfx.place (gfx : MemGfx) (index : Int) : Nat := unsigned (gfx.buffer + 4 * index)

/-- `gfx_scroll`. -/
def gfxScroll (machine : Machine) (gfx : MemGfx) (rect : Rect) (offset : Nat) (background : Pixel) :
    Machine × MemGfx :=
  let moved := (List.range (unsigned (rect.height - offset))).foldl (fun machine (y : Nat) =>
    (memmove machine (gfx.place (rect.left + (rect.top + y) * gfx.stride))
      (gfx.place (rect.left + (rect.top + y + offset) * gfx.stride)) (unsigned (rect.width * 4))).2) machine
  let filled := (List.range offset).foldl (fun machine (y : Nat) =>
    (List.range rect.width.toNat).foldl (fun machine (x : Nat) =>
      machine.put 4 (gfx.place (rect.left + (rect.top + (rect.height - offset + y)) * gfx.stride + x))
        background.toNat) machine) moved
  (filled, { gfx with invalidRect := gfxInvalidate gfx.invalidRect rect })

/-- The pixel with an index. -/
def MemGfx.pixel (gfx : MemGfx) (memory : Memory) (index : Nat) : Pixel :=
  UInt32.ofNat (load memory (gfx.buffer + 4 * index) 4)

/-- The pixel in a column and a row. -/
def MemGfx.pixelAt (gfx : MemGfx) (memory : Memory) (x y : Int) : Pixel :=
  gfx.pixel memory (cell gfx.stride x y).toNat

/-- The surface that the memory shows. -/
def MemGfx.shown (gfx : MemGfx) (memory : Memory) : Gfx :=
  ⟨fun index => gfx.pixel memory index.toNat, gfx.stride * gfx.height, gfx.width, gfx.height, gfx.stride,
    gfx.invalidRect⟩

/-- The pixels of the surface lie in the address space. -/
def MemGfx.InMemory (gfx : MemGfx) (memory : Memory) : Prop :=
  ∀ point, (gfx.shown memory).whole.Contains point → gfx.buffer + 4 * cell gfx.stride point.x point.y + 4 ≤ wordSize

/-- Memory that shows a picture where it reaches, and has changed in some pixels only. -/
structure Pictures (gfx : MemGfx) (before : Memory) (inside : Int → Prop) (machine : Machine) (picture : Int → Pixel) :
    Prop where
  shows : ∀ index : Nat, gfx.buffer + 4 * index + 4 ≤ wordSize → gfx.pixel machine.memory index = picture index
  elsewhere : ∀ address, (∀ index : Nat, inside index →
    address < gfx.buffer + 4 * index ∨ gfx.buffer + 4 * index + 4 ≤ address) → machine.memory address = before address

variable {gfx : MemGfx} {before : Memory} {inside : Int → Prop} {machine : Machine} {picture : Int → Pixel}

/-- A pixel depends on its four bytes. -/
theorem pixel_congr {first second : Memory} {index other : Nat}
    (same : ∀ offset < 4, first (gfx.buffer + 4 * index + offset) = second (gfx.buffer + 4 * other + offset)) :
    gfx.pixel first index = gfx.pixel second other :=
  congrArg UInt32.ofNat (load_moved same)

/-- A row that is moved. -/
theorem Pictures.move (pictures : Pictures gfx before inside machine picture) {target source width : Nat}
    (targetFits : gfx.buffer + 4 * (target + width) ≤ wordSize)
    (sourceFits : gfx.buffer + 4 * (source + width) ≤ wordSize)
    (covers : ∀ index : Nat, target ≤ index → index < target + width → inside index) :
    Pictures gfx before inside (memmove machine (gfx.buffer + 4 * target) (gfx.buffer + 4 * source) (4 * width)).2
      (copyRow picture picture target source width) := by
  have moved := (memmove_filled (show gfx.buffer + 4 * target + 4 * width ≤ wordSize by omega)
    (show gfx.buffer + 4 * source + 4 * width ≤ wordSize by omega) machine).memory
  constructor
  · intro index fits
    rw [copyRow]
    by_cases here : target ≤ index ∧ index < target + width
    · have from_ : ((source : Int) + (index - target)) = ((source + (index - target) : Nat) : Int) := by omega
      rw [if_pos (by omega), from_, ← pictures.shows _ (by omega), moved]
      refine pixel_congr fun offset small => ?_
      have byte : gfx.buffer + 4 * index + offset =
          gfx.buffer + 4 * target + (4 * (index - target) + offset) := by omega
      rw [byte, fill_at _ _ _ (by omega)]
      congr 1
      omega
    · rw [if_neg (by omega), ← pictures.shows _ fits, moved]
      refine pixel_congr fun offset small => ?_
      exact fill_outside _ _ _ (by omega)
  · intro address outside
    rw [moved, fill_outside _ _ _ ?_]
    · exact pictures.elsewhere address outside
    · by_contra between
      have pixelIn := covers ((address - gfx.buffer) / 4) (by omega) (by omega)
      have := outside _ pixelIn
      omega

/-- A row without pixels. -/
theorem Pictures.moveNone (pictures : Pictures gfx before inside machine picture) {width : Int} (none : width ≤ 0)
    (dest src target source : Int) :
    Pictures gfx before inside (memmove machine (gfx.place dest) (gfx.place src) 0).2
      (copyRow picture picture target source width) := by
  have address : ∀ index, gfx.place index + 0 ≤ wordSize := by
    intro index
    rw [MemGfx.place, unsigned, wordSize]
    omega
  have moved := (memmove_filled (address dest) (address src) machine).memory
  have same : (memmove machine (gfx.place dest) (gfx.place src) 0).2.memory = machine.memory :=
    moved.trans (funext fun tested => fill_outside _ _ _ (by omega))
  constructor
  · intro index fits
    rw [same, copyRow, if_neg (by omega)]
    exact pictures.shows index fits
  · rw [same]
    exact pictures.elsewhere

/-- A pixel that is stored. -/
theorem Pictures.store (pictures : Pictures gfx before inside machine picture) {index : Nat}
    (here : inside index) (pixel : Pixel) :
    Pictures gfx before inside (machine.put 4 (gfx.buffer + 4 * index) pixel.toNat)
      (Function.update picture index pixel) := by
  constructor
  · intro tested fits
    by_cases same : tested = index
    · subst same
      have small : pixel.toNat < 256 ^ 4 := pixel.toNat_lt
      rw [Function.update_self, MemGfx.pixel, Machine.put, load_store_same, Nat.mod_eq_of_lt small]
      exact UInt32.ofNat_toNat
    · rw [Function.update_of_ne (by omega), ← pictures.shows tested fits, MemGfx.pixel, Machine.put,
        load_store_disjoint _ _ _ _ _ _ (by omega)]
      rfl
  · intro address outside
    have apart := outside index here
    exact (store_outside _ _ _ _ _ (by omega)).trans (pictures.elsewhere address outside)

/-- An address of the buffer. -/
theorem place_eq {index : Nat} (fits : gfx.buffer + 4 * index < wordSize) :
    gfx.place index = gfx.buffer + 4 * index := by
  have whole : ((gfx.buffer : Int) + 4 * (index : Int)) = ((gfx.buffer + 4 * index : Nat) : Int) := by omega
  rw [MemGfx.place, whole, unsigned]
  rw [wordSize] at fits
  omega

variable {rect : Rect} {offset : Nat}

/-- A row of a rectangle of the surface lies in the address space, if it has pixels. -/
theorem row_fits (inMemory : gfx.InMemory before) (inside : rect.Inside (gfx.shown before)) (row : Int)
    (top : rect.top ≤ row) (bottom : row < rect.bottom) (wide : rect.left < rect.right) :
    ∃ start : Nat, rect.left + row * gfx.stride = start ∧
      gfx.buffer + 4 * (start + rect.width.toNat) ≤ wordSize ∧
      ∀ index : Nat, start ≤ index → index < start + rect.width.toNat → rect.cells gfx.stride index := by
  obtain ⟨-, within⟩ := inside
  simp only [Rect.Within, Gfx.whole, MemGfx.shown] at within
  have last := inMemory ⟨rect.right - 1, row⟩ (by
    simp only [Gfx.whole, MemGfx.shown, Rect.Contains]
    omega)
  have start : 0 ≤ row * gfx.stride := Int.mul_nonneg (by omega) (by omega)
  simp only [cell] at last
  refine ⟨(rect.left + row * gfx.stride).toNat, by omega, ?_, fun index low high => ?_⟩
  · rw [Rect.width]
    omega
  · refine cells_of_row rect gfx.stride row top bottom (by omega) ?_
    rw [Rect.width] at high ⊢
    omega

/-- `gfx_scroll` leaves memory that shows what the drawing function leaves on the surface, and
changes pixels of the rectangle only. -/
theorem gfxScroll_pictures (surface : (gfx.shown machine.memory).Surface) (inMemory : gfx.InMemory machine.memory)
    (inside : rect.Inside (gfx.shown machine.memory)) (fits : offset ≤ rect.height) (background : Pixel) :
    Pictures gfx machine.memory (rect.cells gfx.stride) (gfxScroll machine gfx rect offset background).1
      ((gfx.shown machine.memory).scroll rect offset background).buffer := by
  have start : Pictures gfx machine.memory (rect.cells gfx.stride) machine (gfx.shown machine.memory).buffer :=
    ⟨fun _ _ => rfl, fun _ _ => rfl⟩
  obtain ⟨⟨ordered, high⟩, within⟩ := id inside
  have narrow := surface.narrow
  have short := surface.short
  rw [Rect.height] at fits
  have count : unsigned (rect.height - offset) = (rect.height - offset).toNat := by
    simp only [Rect.Within, Gfx.whole] at within
    rw [unsigned, Rect.height]
    omega
  have bytes : unsigned (rect.width * 4) = 4 * rect.width.toNat := by
    simp only [Rect.Within, Gfx.whole] at within
    rw [unsigned, Rect.width]
    omega
  refine List.foldl_rel (List.foldl_rel start ?_) ?_
  · intro y inRows machine picture pictures
    rw [count, List.mem_range, Rect.height] at inRows
    rw [bytes]
    by_cases wide : rect.left < rect.right
    · obtain ⟨target, targetAt, targetFits, covers⟩ :=
        row_fits inMemory inside (rect.top + y) (by omega) (by omega) wide
      obtain ⟨source, sourceAt, sourceFits, -⟩ :=
        row_fits inMemory inside (rect.top + y + offset) (by omega) (by omega) wide
      have positive : 0 < rect.width.toNat := by
        rw [Rect.width]
        omega
      have width : rect.width = rect.width.toNat := by omega
      dsimp only [MemGfx.shown]
      rw [targetAt, sourceAt, place_eq (by omega), place_eq (by omega)]
      have moved := pictures.move targetFits sourceFits covers
      rwa [← width] at moved
    · have none : rect.width.toNat = 0 := by
        rw [Rect.width]
        omega
      rw [none]
      exact pictures.moveNone (by rw [Rect.width]; omega) _ _ _ _
  · intro y inRows machine picture pictures
    refine List.foldl_rel pictures fun x inRow machine picture pictures => ?_
    rw [List.mem_range] at inRows inRow
    rw [Rect.width] at inRow
    obtain ⟨start, startAt, startFits, covers⟩ :=
      row_fits inMemory inside (rect.top + (rect.height - offset + y)) (by rw [Rect.height]; omega)
        (by rw [Rect.height]; omega) (by omega)
    have index : rect.left + (rect.top + (rect.height - offset + y)) * gfx.stride + x = ((start + x : Nat) : Int) := by
      omega
    rw [Rect.width] at startFits covers
    dsimp only [MemGfx.shown]
    rw [index, place_eq (by omega)]
    exact pictures.store (covers (start + x) (by omega) (by omega)) background

/-- The rows of a rectangle have moved up, the background stands below them, and nothing else has
changed. -/
structure Scrolled (gfx : MemGfx) (rect : Rect) (offset : Nat) (background : Pixel) (before after : Memory) : Prop where
  moved : ∀ point, rect.Contains point → point.y < rect.bottom - offset →
    gfx.pixelAt after point.x point.y = gfx.pixelAt before point.x (point.y + offset)
  filled : ∀ point, rect.Contains point → rect.bottom - offset ≤ point.y →
    gfx.pixelAt after point.x point.y = background
  kept : ∀ point, (gfx.shown before).whole.Contains point → ¬ rect.Contains point →
    gfx.pixelAt after point.x point.y = gfx.pixelAt before point.x point.y
  elsewhere : ∀ address : Nat, (∀ point, rect.Contains point →
    (address : Int) < gfx.buffer + 4 * cell gfx.stride point.x point.y ∨
      gfx.buffer + 4 * cell gfx.stride point.x point.y + 4 ≤ address) → after address = before address

/-- A pixel of the surface, in memory that shows a picture. -/
theorem Pictures.pixelAt {memory : Memory} (pictures : Pictures gfx before inside machine picture)
    (surface : (gfx.shown memory).Surface) (inMemory : gfx.InMemory memory) {point : Point}
    (onSurface : (gfx.shown memory).whole.Contains point) :
    gfx.pixelAt machine.memory point.x point.y = picture (cell gfx.stride point.x point.y) := by
  have fits := inMemory point onSurface
  have rows := surface.rows
  simp only [MemGfx.shown, Gfx.whole, Rect.Contains] at onSurface rows
  have begins := (cell_inside gfx.stride gfx.height onSurface.1 (by omega) onSurface.2.2.1 onSurface.2.2.2).1
  have index : cell gfx.stride point.x point.y = ((cell gfx.stride point.x point.y).toNat : Int) := by omega
  rw [index, ← pictures.shows _ (by omega), MemGfx.pixelAt]

/-- `gfx_scroll` shifts a rectangle by an offset that does not exceed its height.

Proof: every row is moved from a row below that was not written yet, and the rest is filled. -/
theorem scroll_shifts (machine : Machine) (surface : (gfx.shown machine.memory).Surface)
    (inMemory : gfx.InMemory machine.memory) (inside : rect.Inside (gfx.shown machine.memory))
    (fits : offset ≤ rect.height) (background : Pixel) :
    Scrolled gfx rect offset background machine.memory (gfxScroll machine gfx rect offset background).1.memory := by
  have pictures := gfxScroll_pictures surface inMemory inside fits background
  have rows := surface.rows
  have scrolled : ∀ point, (gfx.shown machine.memory).whole.Contains point →
      gfx.pixelAt (gfxScroll machine gfx rect offset background).1.memory point.x point.y =
        if rect.Contains point then
          if point.y < rect.bottom - offset then gfx.pixelAt machine.memory point.x (point.y + offset) else background
        else gfx.pixelAt machine.memory point.x point.y := by
    intro point onSurface
    rw [pictures.pixelAt surface inMemory onSurface]
    simp only [Gfx.whole, Rect.Contains] at onSurface
    exact scroll_cell surface inside fits background onSurface.1 (by omega)
  have onSurface : ∀ point, rect.Contains point → (gfx.shown machine.memory).whole.Contains point := by
    obtain ⟨-, within⟩ := inside
    intro point inRect
    simp only [Rect.Within, Gfx.whole, Rect.Contains] at *
    omega
  constructor
  · intro point inRect above
    rw [scrolled point (onSurface point inRect), if_pos inRect, if_pos above]
  · intro point inRect below
    rw [scrolled point (onSurface point inRect), if_pos inRect, if_neg (Int.not_lt.mpr below)]
  · intro point shown outside
    rw [scrolled point shown, if_neg outside]
  · intro address outside
    refine pictures.elsewhere address ?_
    rintro index ⟨point, inRect, same⟩
    have apart := outside point inRect
    omega

/-- A surface of two columns and three rows. -/
def threeRows : MemGfx := ⟨4096, 2, 3, 2, ⟨0, 0, 0, 0⟩⟩

/-- The surface is scrolled by a row. -/
theorem threeRows_scrolled : Scrolled threeRows ⟨0, 0, 2, 3⟩ 1 0xFF000000 (fun address => UInt8.ofNat address)
    (gfxScroll ⟨fun address => UInt8.ofNat address, [], []⟩ threeRows ⟨0, 0, 2, 3⟩ 1 0xFF000000).1.memory := by
  refine scroll_shifts ⟨fun address => UInt8.ofNat address, [], []⟩ ⟨by decide, by decide, by decide⟩ ?_
    ⟨⟨by decide, by decide⟩, by decide, by decide, by decide, by decide⟩ (by decide) 0xFF000000
  intro point onSurface
  simp only [Gfx.whole, MemGfx.shown, threeRows, Rect.Contains, cell, wordSize] at onSurface ⊢
  omega

end Bytes

end Asym.Scrolling
