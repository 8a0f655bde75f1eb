import Asym.DirtyRectangles

/-!
# Filled rectangles

`gfx_rect` fills the rows of a rectangle with stores of eight bytes, eight of them at a time
and then one by one, and the rest of a row byte by byte. A store of eight bytes is two pixels.
The rest is nothing or one pixel, and each of its bytes gets the low byte of the colour.

So the rectangle is filled as by a loop over its pixels, if and only if it has no rows, an
even width, or a colour of four equal bytes.
-/

namespace Asym.RectFills

open Graphics Grids Folds

/-- The pixel that `*ptr++ = pixel` leaves after four times. -/
def lowBytes (pixel : Pixel) : Pixel :=
  let low := pixel.toNat % 256
  UInt32.ofNat (low ||| low <<< 8 ||| low <<< 16 ||| low <<< 24)

/-- The loop that stores one pixel at a time. -/
def fillPixels (gfx : Gfx) (rect : Rect) (pixel : Pixel) : Int → Pixel :=
  forPixels rect.height.toNat rect.width.toNat (fun x y buffer =>
    Function.update buffer ((rect.left + x) + (rect.top + y) * gfx.stride) pixel) gfx.buffer

/-- The pixels of the rectangle are set and no others, as by the loop over its pixels. -/
structure FillsExactly (gfx : Gfx) (rect : Rect) (pixel : Pixel) : Prop where
  inside : ∀ index, rect.cells gfx.stride index → (gfx.rect rect pixel).buffer index = pixel
  outside : Confined (rect.cells gfx.stride) gfx.buffer (gfx.rect rect pixel).buffer
  agrees : (gfx.rect rect pixel).buffer = fillPixels gfx rect pixel

section Rows

/-- Tiles of one size from a place on cover an interval. -/
theorem tiles_iff {size : Nat} (positive : 0 < size) (start index : Int) (count : Nat) :
    (∃ i ∈ List.range count, start + (size * i : Nat) ≤ index ∧ index < start + (size * i : Nat) + size) ↔
      start ≤ index ∧ index < start + (size * count : Nat) := by
  constructor
  · rintro ⟨i, inRange, low, high⟩
    have next : size * (i + 1) ≤ size * count := Nat.mul_le_mul_left size (List.mem_range.mp inRange)
    rw [Nat.mul_succ] at next
    omega
  · rintro ⟨low, high⟩
    have split := Nat.div_add_mod (index - start).toNat size
    have small := Nat.mod_lt (index - start).toNat positive
    have inRange : (index - start).toNat / size < count := Nat.div_lt_of_lt_mul (by omega)
    exact ⟨(index - start).toNat / size, List.mem_range.mpr inRange, by omega, by omega⟩

/-- A store of eight bytes sets two pixels. -/
theorem storeTwo_paints (pixel : Pixel) (buffer : Int → Pixel) {offset index : Int} (place : offset = 4 * index) :
    Paints (fun tested => index ≤ tested ∧ tested < index + (2 : Nat)) pixel buffer (storeTwo pixel buffer offset) := by
  have here : offset / 4 = index := by omega
  intro tested
  rw [storeTwo, here]
  constructor
  · intro between
    by_cases second : tested = index + 1
    · rw [second, Function.update_self]
    · rw [Function.update_of_ne second, show tested = index by omega, Function.update_self]
  · intro outside
    rw [Function.update_of_ne (by omega), Function.update_of_ne (by omega)]

/-- Stores of eight bytes, one after another, set twice as many pixels. -/
theorem storeTwos_paint (pixel : Pixel) (buffer : Int → Pixel) (start : Int) (count : Nat) (place : Nat → Int)
    (places : ∀ i, place i = 4 * (start + (2 * i : Nat))) :
    Paints (fun tested => start ≤ tested ∧ tested < start + (2 * count : Nat)) pixel buffer
      ((List.range count).foldl (fun buffer i => storeTwo pixel buffer (place i)) buffer) := by
  have painted := foldl_paints (List.range count) buffer fun i _ state =>
    storeTwo_paints pixel state (places i)
  exact painted.congr fun index => (tiles_iff (by decide) start index count).symm

/-- The stores of eight bytes in a row set its pixels, but for a last one without a partner. -/
theorem fillRow_words (pixel : Pixel) (buffer : Int → Pixel) (start : Int) (width : Nat) :
    Paints (fun tested => start ≤ tested ∧ tested < start + (2 * (width / 2) : Nat)) pixel buffer
      ((List.range (4 * width % 64 / 8)).foldl (fun buffer i =>
        storeTwo pixel buffer (4 * start + (4 * width / 64 * 64 + 8 * i : Nat)))
        ((List.range (4 * width / 64)).foldl (fun buffer i => (List.range 8).foldl (fun buffer j =>
          storeTwo pixel buffer (4 * start + (64 * i + 8 * j : Nat))) buffer) buffer)) := by
  have blocks := foldl_paints (List.range (4 * width / 64)) buffer fun i _ state =>
    storeTwos_paint pixel state (start + (16 * i : Nat)) 8 (fun j => 4 * start + (64 * i + 8 * j : Nat))
      fun j => by omega
  have rest := fun state => storeTwos_paint pixel state (start + (16 * (4 * width / 64) : Nat)) (4 * width % 64 / 8)
    (fun j => 4 * start + (4 * width / 64 * 64 + 8 * j : Nat)) fun j => by omega
  refine ((blocks.congr fun index => (tiles_iff (by decide) start index _).symm).trans (rest _)).congr fun index => ?_
  omega

/-- The bits of a value after a store of one of its bytes. -/
theorem byte_testBit (old : Nat) {low shift : Nat} (small : low < 2 ^ 8) (fits : shift + 8 ≤ 32) (i : Nat) :
    ((old &&& (0xFFFFFFFF ^^^ (0xFF <<< shift))) ||| low <<< shift).testBit i =
      if shift ≤ i ∧ i < shift + 8 then low.testBit (i - shift) else (old.testBit i && decide (i < 32)) := by
  have word : (0xFFFFFFFF : Nat) = 2 ^ 32 - 1 := rfl
  have byte : (0xFF : Nat) = 2 ^ 8 - 1 := rfl
  rw [word, byte]
  simp only [Nat.testBit_or, Nat.testBit_and, Nat.testBit_xor, Nat.testBit_shiftLeft, Nat.testBit_two_pow_sub_one]
  by_cases below : shift ≤ i
  · by_cases near : i < shift + 8
    · simp [below, near, show i < 32 by omega, show i - shift < 8 by omega]
    · have high : low.testBit (i - shift) = false :=
        Nat.testBit_lt_two_pow (Nat.lt_of_lt_of_le small (Nat.pow_le_pow_right Nat.two_pos (by omega)))
      simp [below, near, high, show ¬ i - shift < 8 by omega]
  · simp [below]

/-- A store of a byte changes its pixel. -/
theorem storeByte_eq (pixel : Pixel) (buffer : Int → Pixel) (index : Int) {byte : Nat} (inside : byte < 4) :
    storeByte pixel buffer (4 * index + byte) = Function.update buffer index (UInt32.ofNat
      (((buffer index).toNat &&& (0xFFFFFFFF ^^^ (0xFF <<< (8 * byte)))) ||| (pixel.toNat % 256) <<< (8 * byte))) := by
  have place : (4 * index + byte) / 4 = index := by omega
  have offset : ((4 * index + byte) % 4).toNat = byte := by omega
  rw [storeByte, place, offset]

/-- The bits of a pixel. -/
theorem toNat_testBit (value i : Nat) :
    (UInt32.ofNat value).toNat.testBit i = (decide (i < 32) && value.testBit i) := by
  rw [UInt32.toNat_ofNat', Nat.testBit_mod_two_pow]

/-- After the stores of its four bytes a pixel has the low byte of the colour four times. -/
theorem storeBytes_eq (pixel : Pixel) (buffer : Int → Pixel) (index : Int) :
    (List.range 4).foldl (fun buffer (i : Nat) => storeByte pixel buffer (4 * index + i)) buffer =
      Function.update buffer index (lowBytes pixel) := by
  have range : List.range 4 = [0, 1, 2, 3] := rfl
  simp only [range, List.foldl_cons, List.foldl_nil]
  rw [storeByte_eq _ _ _ (by decide), storeByte_eq _ _ _ (by decide), storeByte_eq _ _ _ (by decide),
    storeByte_eq _ _ _ (by decide)]
  simp only [Function.update_self, Function.update_idem]
  have small : pixel.toNat % 256 < 2 ^ 8 := Nat.mod_lt _ (by decide)
  rw [lowBytes]
  generalize pixel.toNat % 256 = low at small ⊢
  refine congrArg (Function.update buffer index) (UInt32.toNat_inj.mp (Nat.eq_of_testBit_eq fun i => ?_))
  have high : ∀ j, 8 ≤ j → low.testBit j = false := fun j above =>
    Nat.testBit_lt_two_pow (Nat.lt_of_lt_of_le small (Nat.pow_le_pow_right Nat.two_pos above))
  simp only [toNat_testBit, byte_testBit _ small (show 8 * 0 + 8 ≤ 32 by decide),
    byte_testBit _ small (show 8 * 1 + 8 ≤ 32 by decide), byte_testBit _ small (show 8 * 2 + 8 ≤ 32 by decide),
    byte_testBit _ small (show 8 * 3 + 8 ≤ 32 by decide), Nat.testBit_or, Nat.testBit_shiftLeft]
  grind

/-- A row is filled up to its last pixel, and this too unless it is without a partner. -/
theorem fillRow_cases (pixel : Pixel) (buffer : Int → Pixel) (start : Int) (width : Nat) :
    ∃ words, Paints (fun tested => start ≤ tested ∧ tested < start + (2 * (width / 2) : Nat)) pixel buffer words ∧
      fillRow pixel buffer (4 * start) (4 * width) =
        if width % 2 = 0 then words else Function.update words (start + (2 * (width / 2) : Nat)) (lowBytes pixel) := by
  refine ⟨_, fillRow_words pixel buffer start width, ?_⟩
  split_ifs with even
  · have none : 4 * width % 8 = 0 := by omega
    rw [fillRow, none]
    rfl
  · have four : 4 * width % 8 = 4 := by omega
    have place : ∀ i : Nat, 4 * start + (4 * width / 8 * 8 + i : Nat) = 4 * (start + (2 * (width / 2) : Nat)) + i := by
      omega
    rw [fillRow, four]
    simp only [place]
    exact storeBytes_eq pixel _ _

/-- A row of even width, or filled with a colour of equal bytes, is filled. -/
theorem fillRow_paints {pixel : Pixel} (buffer : Int → Pixel) (start : Int) {width : Nat}
    (plain : width % 2 = 0 ∨ lowBytes pixel = pixel) :
    Paints (fun tested => start ≤ tested ∧ tested < start + width) pixel buffer
      (fillRow pixel buffer (4 * start) (4 * width)) := by
  obtain ⟨words, painted, filled⟩ := fillRow_cases pixel buffer start width
  rw [filled]
  split_ifs with even
  · refine painted.congr fun index => ?_
    omega
  · rw [plain.resolve_left even]
    refine (painted.trans (update_paints words _ pixel)).congr fun index => ?_
    omega

/-- The last pixel of a row of odd width has the low byte of the colour four times. -/
theorem fillRow_last (pixel : Pixel) (buffer : Int → Pixel) (start : Int) {width : Nat} (odd : width % 2 = 1) :
    fillRow pixel buffer (4 * start) (4 * width) (start + width - 1) = lowBytes pixel := by
  obtain ⟨words, -, filled⟩ := fillRow_cases pixel buffer start width
  have last : start + width - 1 = start + (2 * (width / 2) : Nat) := by omega
  rw [filled, if_neg (by omega), last, Function.update_self]

end Rows

section Rectangles

variable {gfx : Gfx} {rect : Rect} (pixel : Pixel)

/-- The rows of a rectangle of a surface, with their bytes counted. -/
theorem rect_buffer (surface : gfx.Surface) (inside : rect.Inside gfx) :
    (gfx.rect rect pixel).buffer = (List.range rect.height.toNat).foldl (fun buffer (y : Nat) =>
      fillRow pixel buffer (4 * (rect.left + (rect.top + y) * gfx.stride)) (4 * rect.width.toNat)) gfx.buffer := by
  obtain ⟨ordered, within⟩ := inside
  have narrow := surface.narrow
  simp only [Rect.Ordered, Rect.Within, Gfx.whole] at ordered within
  have bytes : unsigned (rect.width * 4) = 4 * rect.width.toNat := by
    rw [unsigned, Rect.width]
    omega
  rw [Gfx.rect, bytes]
  rfl

/-- The places of the pixels of a rectangle by its rows. -/
theorem cells_iff (ordered : rect.Ordered) (stride index : Int) :
    rect.cells stride index ↔ ∃ y ∈ List.range rect.height.toNat,
      rect.left + (rect.top + (y : Nat)) * stride ≤ index ∧
        index < rect.left + (rect.top + (y : Nat)) * stride + rect.width.toNat := by
  obtain ⟨wide, high⟩ := ordered
  constructor
  · rintro ⟨point, ⟨left, right, top, bottom⟩, rfl⟩
    refine ⟨(point.y - rect.top).toNat, List.mem_range.mpr ?_, ?_⟩
    · rw [Rect.height]
      omega
    · have row : rect.top + ((point.y - rect.top).toNat : Int) = point.y := by omega
      rw [row, cell, Rect.width]
      omega
  · rintro ⟨y, inRows, low, high⟩
    rw [List.mem_range, Rect.height] at inRows
    refine cells_of_row rect stride (rect.top + y) (by omega) (by omega) low ?_
    rw [Rect.width] at high ⊢
    omega

/-- The loop over the pixels sets the pixels of the rectangle. -/
theorem fillPixels_paints (ordered : rect.Ordered) :
    Paints (rect.cells gfx.stride) pixel gfx.buffer (fillPixels gfx rect pixel) := by
  have painted := foldl_paints (List.range rect.height.toNat) gfx.buffer fun y _ state =>
    foldl_paints (List.range rect.width.toNat) state fun x _ before =>
      update_paints before ((rect.left + (x : Nat)) + (rect.top + (y : Nat)) * gfx.stride) pixel
  refine painted.congr fun index => ?_
  rw [cells_iff ordered]
  refine exists_congr fun y => and_congr_right fun _ => ?_
  constructor
  · rintro ⟨low, high⟩
    exact ⟨(index - (rect.left + (rect.top + y) * gfx.stride)).toNat, List.mem_range.mpr (by omega), by omega⟩
  · rintro ⟨x, inRow, rfl⟩
    have := List.mem_range.mp inRow
    omega

/-- `gfx_rect` fills a rectangle if its width is even or the bytes of the colour are equal. -/
theorem rect_paints (surface : gfx.Surface) (inside : rect.Inside gfx)
    (plain : rect.width.toNat % 2 = 0 ∨ lowBytes pixel = pixel) :
    Paints (rect.cells gfx.stride) pixel gfx.buffer (gfx.rect rect pixel).buffer := by
  have painted := foldl_paints (List.range rect.height.toNat) gfx.buffer fun y _ state =>
    fillRow_paints state (rect.left + (rect.top + (y : Nat)) * gfx.stride) plain
  rw [rect_buffer pixel surface inside]
  exact painted.congr fun index => cells_iff inside.1 gfx.stride index

/-- What sets the pixels of the rectangle fills it exactly. -/
theorem fillsExactly_of_paints (ordered : rect.Ordered)
    (paints : Paints (rect.cells gfx.stride) pixel gfx.buffer (gfx.rect rect pixel).buffer) :
    FillsExactly gfx rect pixel :=
  ⟨fun index covered => (paints index).1 covered, fun index uncovered => (paints index).2 uncovered,
    paints.unique (fillPixels_paints pixel ordered)⟩

/-- The last pixel of a rectangle of odd width. -/
theorem rect_last (surface : gfx.Surface) (inside : rect.Inside gfx) (rows : rect.top < rect.bottom)
    (odd : rect.width.toNat % 2 = 1) :
    (gfx.rect rect pixel).buffer (cell gfx.stride (rect.right - 1) (rect.bottom - 1)) = lowBytes pixel := by
  obtain ⟨height, counted⟩ : ∃ height, rect.height.toNat = height + 1 :=
    Nat.exists_eq_succ_of_ne_zero (by rw [Rect.height]; omega)
  rw [rect_buffer pixel surface inside, counted, List.range_succ, List.foldl_append, List.foldl_cons, List.foldl_nil]
  have row : rect.top + (height : Int) = rect.bottom - 1 := by
    rw [Rect.height] at counted
    omega
  have place : cell gfx.stride (rect.right - 1) (rect.bottom - 1) =
      rect.left + (rect.top + (height : Nat)) * gfx.stride + rect.width.toNat - 1 := by
    rw [row, cell, Rect.width] at *
    omega
  rw [place]
  exact fillRow_last pixel _ _ odd

/-- `gfx_rect` fills a rectangle as the loop over its pixels, if and only if the rectangle has no
rows, its width is even, or the four bytes of the colour are equal. -/
theorem rect_fills_iff (surface : gfx.Surface) (inside : rect.Inside gfx) :
    FillsExactly gfx rect pixel ↔ rect.top = rect.bottom ∨ 2 ∣ rect.width ∨ lowBytes pixel = pixel := by
  obtain ⟨wide, high⟩ := inside.1
  constructor
  · intro fills
    by_contra fails
    rw [not_or, not_or] at fails
    obtain ⟨rows, odd, unequal⟩ := fails
    have oddWidth : rect.width.toNat % 2 = 1 := by
      rw [Rect.width] at odd ⊢
      omega
    have last := rect_last pixel surface inside (by omega) oddWidth
    rw [fills.inside _ ⟨⟨rect.right - 1, rect.bottom - 1⟩, ?_, rfl⟩] at last
    · exact unequal last.symm
    · rw [Rect.width] at oddWidth
      simp only [Rect.Contains]
      omega
  · intro plain
    refine fillsExactly_of_paints pixel inside.1 ?_
    rcases plain with empty | plain
    · have none : rect.height.toNat = 0 := by
        rw [Rect.height]
        omega
      rw [rect_buffer pixel surface inside, none]
      refine fun index => ⟨?_, fun _ => rfl⟩
      rintro ⟨point, inArea, -⟩
      simp only [Rect.Contains] at inArea
      omega
    · refine rect_paints pixel surface inside (plain.imp_left fun even => ?_)
      rw [Rect.width] at even ⊢
      omega

end Rectangles

section Samples

/-- A surface of three pixels in a row. -/
def threePixels : Gfx := ⟨fun _ => 0, 3, 3, 1, 3, ⟨0, 0, 0, 0⟩⟩

/-- The surface is one. -/
theorem threePixels_surface : threePixels.Surface := ⟨by decide, by decide, by decide⟩

/-- The first two pixels are filled. -/
theorem twoPixels_filled : FillsExactly threePixels ⟨0, 0, 2, 1⟩ 0xFF102030 := by
  have inside : (⟨0, 0, 2, 1⟩ : Rect).Inside threePixels := by
    simp only [Rect.Inside, Rect.Ordered, Rect.Within]
    decide
  exact (rect_fills_iff 0xFF102030 threePixels_surface inside).mpr (.inr (.inl (by decide)))

/-- The last of three pixels becomes grey. -/
theorem thirdPixel_grey : threePixels.Surface ∧ threePixels.whole.Inside threePixels ∧
    (threePixels.rect threePixels.whole 0xFF102030).buffer 2 = 0x30303030 ∧
    ¬ FillsExactly threePixels threePixels.whole 0xFF102030 := by
  have inside : threePixels.whole.Inside threePixels := by
    simp only [Rect.Inside, Rect.Ordered, Rect.Within]
    decide
  have grey : (threePixels.rect threePixels.whole 0xFF102030).buffer 2 = 0x30303030 := by decide +kernel
  refine ⟨threePixels_surface, inside, grey, fun fills => ?_⟩
  have last := fills.inside 2 ⟨⟨2, 0⟩, by decide, rfl⟩
  rw [grey] at last
  exact absurd last (by decide)

end Samples

end Asym.RectFills
