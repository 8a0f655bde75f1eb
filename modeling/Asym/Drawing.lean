import Asym.Graphics
import Mathlib.Logic.Function.Basic

/-!
# Drawing on surfaces

A model of the drawing functions of `gfx.c` on a surface with its invalid rectangle.
Coordinates are integers and loop counters do not overflow; where a count is computed
without a sign, it has the 64 bits of the source.

Sources of copies are other surfaces than the one that is drawn on.
-/

namespace Asym.Graphics

open Grids

/-- A conversion to `uint64_t`. -/
def unsigned (value : Int) : Nat :=
  (value % 2 ^ 64).toNat

/-- Two loops over the rows and the columns of an area. -/
def forPixels (height width : Nat) (body : Nat → Nat → (Int → Pixel) → Int → Pixel) (buffer : Int → Pixel) :
    Int → Pixel :=
  (List.range height).foldl
    (fun rows y => (List.range width).foldl (fun buffer x => body x y buffer) rows) buffer

/-- `gfx_invalidate`. -/
def Gfx.invalidate (gfx : Gfx) (rect : Rect) : Gfx :=
  { gfx with invalidRect := gfxInvalidate gfx.invalidRect rect }

/-- `gfx_fbmp_t`. -/
structure Fbmp where
  width : Nat
  height : Nat
  data : Nat → Pixel

/-- `gfx_fbmp`. The index into the bitmap has 32 bits. -/
def Gfx.fbmp (gfx : Gfx) (fbmp : Fbmp) (point : Point) : Gfx :=
  let drawn := forPixels fbmp.height fbmp.width (fun x y buffer =>
    Function.update buffer ((point.x + x) + (point.y + y) * gfx.stride)
      (fbmp.data ((x + y * fbmp.width) % 2 ^ 32))) gfx.buffer
  { gfx with buffer := drawn }.invalidate (rectInitDim point.x point.x fbmp.width fbmp.height)

/-- `gfx_psf_t`. -/
structure Psf where
  width : Nat
  height : Nat
  glyphSize : Nat
  glyphs : Nat → UInt8

/-- `scale` in `gfx_char` and `gfx_text`. -/
def Psf.scale (psf : Psf) (height : Nat) : Nat :=
  max 1 (height / psf.height)

/-- The offset of the glyph of a character, which has a sign. -/
def Psf.glyph (psf : Psf) (chr : UInt8) : Nat :=
  (chr.toBitVec.signExtend 32 * BitVec.ofNat 32 psf.glyphSize).toNat

/-- The offset of the glyph of a character that is not negative. -/
theorem glyph_eq (psf : Psf) {chr : UInt8} (positive : chr.toNat < 128) :
    psf.glyph chr = chr.toNat * psf.glyphSize % 2 ^ 32 := by
  have sign : chr.toBitVec.msb = false := by
    rw [BitVec.msb_eq_false_iff_two_mul_lt]
    exact (by omega : 2 * chr.toNat < 2 ^ 8)
  have narrow : chr.toNat % 2 ^ 32 = chr.toNat := Nat.mod_eq_of_lt (Nat.lt_trans positive (by decide))
  rw [Psf.glyph, BitVec.signExtend_eq_setWidth_of_msb_false sign, BitVec.toNat_mul, BitVec.toNat_setWidth,
    BitVec.toNat_ofNat, UInt8.toNat_toBitVec, narrow, Nat.mul_mod_mod]

/-- The area of a character. -/
def Psf.charRect (psf : Psf) (point : Point) (height : Nat) : Rect :=
  rectInitDim point.x point.y (psf.width * psf.scale height : Nat) (psf.height * psf.scale height : Nat)

/-- `gfx_char`. -/
def Gfx.char (gfx : Gfx) (psf : Psf) (point : Point) (height : Nat) (chr : UInt8) (foreground background : Pixel) :
    Gfx :=
  let scale := psf.scale height
  let drawn := forPixels (psf.height * scale) (psf.width * scale) (fun x y buffer =>
    let row := psf.glyphs (psf.glyph chr + y / scale)
    let pixel := if row.toNat &&& (0x80 >>> (x / scale)) ≠ 0 then foreground else background
    let out := (point.x + x) + (point.y + y) * gfx.stride
    Function.update buffer out (pixelBlend (buffer out) pixel)) gfx.buffer
  { gfx with buffer := drawn }.invalidate (psf.charRect point height)

/-- `gfx_align_t`, and any other value. -/
inductive Align where
  | center
  | max
  | min
  | other
  deriving DecidableEq, Repr

/-- A coordinate of a text between two edges, if the alignment is known. -/
def Align.start (align : Align) (low high size : Int) : Option Int :=
  match align with
  | .center => some (Max.max low ((high + low - size).tdiv 2))
  | .max => some (Max.max low (high - size))
  | .min => some low
  | .other => none

/-- Where the first character of a text is drawn. -/
def textPoint (psf : Psf) (rect : Rect) (xAlign yAlign : Align) (height : Nat) (str : List UInt8) : Option Point :=
  (xAlign.start rect.left rect.right (str.length * psf.width * psf.scale height : Nat)).bind fun x =>
    (yAlign.start rect.top rect.bottom (psf.height * psf.scale height : Nat)).map fun y => ⟨x, y⟩

/-- The characters that are drawn: all of them, or those that leave room for three dots. -/
def textChars (psf : Psf) (rect : Rect) (height : Nat) (str : List UInt8) : List UInt8 :=
  if rect.width < (str.length * psf.width * psf.scale height : Nat) then
    let fitting := unsigned ((unsigned rect.width / (psf.width * psf.scale height) : Nat) - 3)
    (List.range fitting).map (fun i => str.getD i 0) ++ [46, 46, 46]
  else str

/-- The characters of a text from a point on, each as much further right as it is wide. -/
def Gfx.chars (psf : Psf) (height width : Nat) (foreground background : Pixel) : Gfx → Point → List UInt8 → Gfx
  | gfx, _, [] => gfx
  | gfx, point, chr :: later =>
      (gfx.char psf point height chr foreground background).chars psf height width foreground background
        ⟨point.x + width, point.y⟩ later

/-- `gfx_text`. -/
def Gfx.text (gfx : Gfx) (psf : Psf) (rect : Rect) (xAlign yAlign : Align) (height : Nat) (str : List UInt8)
    (foreground background : Pixel) : Gfx :=
  match textPoint psf rect xAlign yAlign height str with
  | none => gfx
  | some point =>
      gfx.chars psf (psf.height * psf.scale height) (psf.width * psf.scale height) foreground background point
        (textChars psf rect height str)

/-- A store of eight bytes at an offset that is a multiple of four: two pixels. -/
def storeTwo (pixel : Pixel) (buffer : Int → Pixel) (offset : Int) : Int → Pixel :=
  Function.update (Function.update buffer (offset / 4) pixel) (offset / 4 + 1) pixel

/-- A store of the low byte of a pixel at an offset. -/
def storeByte (pixel : Pixel) (buffer : Int → Pixel) (offset : Int) : Int → Pixel :=
  let shift := 8 * (offset % 4).toNat
  let kept := (buffer (offset / 4)).toNat &&& (0xFFFFFFFF ^^^ (0xFF <<< shift))
  Function.update buffer (offset / 4) (UInt32.ofNat (kept ||| (pixel.toNat % 256) <<< shift))

/-- The three loops of `gfx_rect` over the bytes of a row: eight stores of eight bytes, then
one, then bytes. -/
def fillRow (pixel : Pixel) (buffer : Int → Pixel) (ptr : Int) (count : Nat) : Int → Pixel :=
  let blocks := (List.range (count / 64)).foldl (fun buffer i =>
    (List.range 8).foldl (fun buffer j => storeTwo pixel buffer (ptr + (64 * i + 8 * j : Nat))) buffer) buffer
  let words := (List.range (count % 64 / 8)).foldl (fun buffer i =>
    storeTwo pixel buffer (ptr + (count / 64 * 64 + 8 * i : Nat))) blocks
  (List.range (count % 8)).foldl (fun buffer i =>
    storeByte pixel buffer (ptr + (count / 8 * 8 + i : Nat))) words

/-- `gfx_rect`. -/
def Gfx.rect (gfx : Gfx) (rect : Rect) (pixel : Pixel) : Gfx :=
  let drawn := (List.range rect.height.toNat).foldl (fun buffer (y : Nat) =>
    fillRow pixel buffer (4 * (rect.left + (rect.top + y) * gfx.stride)) (unsigned (rect.width * 4))) gfx.buffer
  { gfx with buffer := drawn }.invalidate rect

/-- `gfx_edge`. -/
def Gfx.edge (gfx : Gfx) (rect : Rect) (width : Nat) (foreground background : Pixel) : Gfx :=
  let left := gfx.rect ⟨rect.left, rect.top, rect.left + width, rect.bottom - width⟩ foreground
  let top := left.rect ⟨rect.left + width, rect.top, rect.right - width, rect.top + width⟩ foreground
  let right := top.rect ⟨rect.right - width, rect.top + width, rect.right, rect.bottom⟩ background
  let bottom := right.rect ⟨rect.left + width, rect.bottom - width, rect.right - width, rect.bottom⟩ background
  let corners := forPixels width width (fun x y buffer =>
    let color := if x + y < width - 1 then foreground else background
    Function.update (Function.update buffer ((rect.right - width + x) + (rect.top + y) * gfx.stride) color)
      ((rect.left + x) + (rect.bottom - width + y) * gfx.stride) color) bottom.buffer
  { bottom with buffer := corners }.invalidate rect

/-- `RECT_SHRINK`. -/
def Rect.shrink (rect : Rect) (margin : Int) : Rect :=
  ⟨rect.left + margin, rect.top + margin, rect.right - margin, rect.bottom - margin⟩

/-- `gfx_ridge`. -/
def Gfx.ridge (gfx : Gfx) (rect : Rect) (width : Nat) (foreground background : Pixel) : Gfx :=
  (gfx.edge rect (width / 2) background foreground).edge (rect.shrink (width / 2 : Nat)) (width / 2) foreground
    background

/-- `gfx_scroll`. -/
def Gfx.scroll (gfx : Gfx) (rect : Rect) (offset : Nat) (background : Pixel) : Gfx :=
  let moved := (List.range (unsigned (rect.height - offset))).foldl (fun buffer (y : Nat) =>
    copyRow buffer buffer (rect.left + (rect.top + y) * gfx.stride)
      (rect.left + (rect.top + y + offset) * gfx.stride) rect.width) gfx.buffer
  let filled := forPixels offset rect.width.toNat (fun x y buffer =>
    Function.update buffer (rect.left + (rect.top + (rect.height - offset + y)) * gfx.stride + x) background) moved
  { gfx with buffer := filled }.invalidate rect

/-- `gfx_rim`. -/
def Gfx.rim (gfx : Gfx) (rect : Rect) (width : Nat) (pixel : Pixel) : Gfx :=
  let half : Nat := width / 2
  let left := gfx.rect
    ⟨rect.left, rect.top + width - half, rect.left + width, rect.bottom - width + half⟩ pixel
  let top := left.rect
    ⟨rect.left + width - half, rect.top, rect.right - width + half, rect.top + width⟩ pixel
  let right := top.rect
    ⟨rect.right - width, rect.top + width - half, rect.right, rect.bottom - width + half⟩ pixel
  right.rect ⟨rect.left + width - half, rect.bottom - width, rect.right - width + half, rect.bottom⟩ pixel

/-- `gfx_transfer`. -/
def Gfx.transfer (dest src : Gfx) (destRect : Rect) (srcPoint : Point) : Gfx :=
  { dest with buffer := gfxTransfer dest.buffer dest.stride src.buffer src.stride destRect srcPoint }.invalidate
    destRect

/-- `gfx_transfer_blend`. -/
def Gfx.transferBlend (dest src : Gfx) (destRect : Rect) (srcPoint : Point) : Gfx :=
  { dest with buffer := gfxTransferBlend dest.buffer dest.stride src.buffer src.stride destRect srcPoint }.invalidate
    destRect

/-- `gfx_swap`. Both buffers are read with the stride of the destination. -/
def Gfx.swap (dest src : Gfx) (rect : Rect) : Gfx :=
  let start (y : Int) : Int := rect.left + (y + rect.top) * dest.stride
  { dest with buffer := copyRows dest.buffer src.buffer start start rect.width rect.height.toNat }.invalidate rect

/-- A call of a drawing function. -/
inductive Call where
  | fbmp (fbmp : Fbmp) (point : Point)
  | char (psf : Psf) (point : Point) (height : Nat) (chr : UInt8) (foreground background : Pixel)
  | text (psf : Psf) (rect : Rect) (xAlign yAlign : Align) (height : Nat) (str : List UInt8)
      (foreground background : Pixel)
  | rect (rect : Rect) (pixel : Pixel)
  | edge (rect : Rect) (width : Nat) (foreground background : Pixel)
  | ridge (rect : Rect) (width : Nat) (foreground background : Pixel)
  | rim (rect : Rect) (width : Nat) (pixel : Pixel)
  | scroll (rect : Rect) (offset : Nat) (background : Pixel)
  | transfer (src : Gfx) (destRect : Rect) (srcPoint : Point)
  | transferBlend (src : Gfx) (destRect : Rect) (srcPoint : Point)
  | swap (src : Gfx) (rect : Rect)

/-- What a call does to a surface. -/
def draw (gfx : Gfx) : Call → Gfx
  | .fbmp fbmp point => gfx.fbmp fbmp point
  | .char psf point height chr foreground background => gfx.char psf point height chr foreground background
  | .text psf rect xAlign yAlign height str foreground background =>
      gfx.text psf rect xAlign yAlign height str foreground background
  | .rect rect pixel => gfx.rect rect pixel
  | .edge rect width foreground background => gfx.edge rect width foreground background
  | .ridge rect width foreground background => gfx.ridge rect width foreground background
  | .rim rect width pixel => gfx.rim rect width pixel
  | .scroll rect offset background => gfx.scroll rect offset background
  | .transfer src destRect srcPoint => gfx.transfer src destRect srcPoint
  | .transferBlend src destRect srcPoint => gfx.transferBlend src destRect srcPoint
  | .swap src rect => gfx.swap src rect

end Asym.Graphics
