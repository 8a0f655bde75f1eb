import Asym.PixelBlends
import Asym.Scrolling

/-!
# The pixels of a character

`gfx_char` draws a character pixel by pixel. A pixel of the glyph becomes a square of as many
pixels as the scale says, and each pixel of the area is blended with the foreground or the
background once. In solid colours the area shows the glyph, whatever was there before.
-/

namespace Asym.GlyphPixels

open Graphics Grids Folds PixelBlends

/-- A pixel of a glyph is set. A row of a glyph has eight pixels. -/
def inked (psf : Psf) (chr : UInt8) (x y : Nat) : Bool :=
  (psf.glyphs (psf.glyph chr + y)).toNat &&& (0x80 >>> x) ≠ 0

/-- The colour of a pixel of a character. -/
def glyphPixel (psf : Psf) (chr : UInt8) (foreground background : Pixel) (x y : Nat) : Pixel :=
  if inked psf chr x y then foreground else background

/-- A solid pixel covers the one below. -/
theorem pixelBlend_solid {below above : Pixel} (solid : channel 24 above = 255) : pixelBlend below above = above := by
  refine (Fits.blends (.inr fun shift _ => ?_)).solid solid
  refine (alphas_fit_iff _ _).mpr ?_ _ (channel_le shift above) _ (channel_le shift below)
  rw [solid, blendAlpha, Nat.sub_self, Nat.mul_zero, Nat.zero_mod]
  omega

/-- The pixels of an area, row by row. -/
def areaPixels (height width : Nat) : List (Nat × Nat) :=
  (List.range height).flatMap fun y => (List.range width).map fun x => (x, y)

/-- The pixels of an area are those in its columns and rows. -/
theorem mem_areaPixels {height width x y : Nat} : (x, y) ∈ areaPixels height width ↔ x < width ∧ y < height := by
  simp [areaPixels, and_comm]

/-- Two loops over an area are one over its pixels. -/
theorem forPixels_eq (height width : Nat) (body : Nat → Nat → (Int → Pixel) → Int → Pixel) (buffer : Int → Pixel) :
    forPixels height width body buffer =
      (areaPixels height width).foldl (fun buffer pixel => body pixel.1 pixel.2 buffer) buffer := by
  simp only [forPixels, areaPixels, List.foldl_flatMap, List.foldl_map]

/-- Every pixel of an area comes once. -/
theorem areaPixels_apart (height width : Nat) : (areaPixels height width).Nodup := by
  rw [List.Nodup, areaPixels, List.pairwise_flatMap]
  constructor
  · intro y _
    rw [List.pairwise_map]
    exact List.nodup_range.imp fun different same => different (congrArg Prod.fst same)
  · refine List.nodup_range.imp fun different first inFirst second inSecond same => ?_
    obtain ⟨_, _, rfl⟩ := List.mem_map.mp inFirst
    obtain ⟨_, _, rfl⟩ := List.mem_map.mp inSecond
    exact different (congrArg Prod.snd same)

/-- `gfx_char` blends every pixel of the area once with the pixel of the glyph at this place, and
keeps the others. -/
theorem char_cell {gfx : Gfx} {psf : Psf} {point : Point} {height : Nat} (surface : gfx.Surface)
    (inside : (psf.charRect point height).Inside gfx) (chr : UInt8) (foreground background : Pixel) {x y : Int}
    (left : 0 ≤ x) (right : x < gfx.stride) :
    (gfx.char psf point height chr foreground background).buffer (cell gfx.stride x y) =
      if (psf.charRect point height).Contains ⟨x, y⟩ then
        pixelBlend (gfx.buffer (cell gfx.stride x y)) (glyphPixel psf chr foreground background
          ((x - point.x).toNat / psf.scale height) ((y - point.y).toNat / psf.scale height))
      else gfx.buffer (cell gfx.stride x y) := by
  have rows := surface.rows
  have within := inside.2
  simp only [Rect.Within, Gfx.whole, Psf.charRect, rectInitDim] at within
  have drawn : (gfx.char psf point height chr foreground background).buffer =
      (areaPixels (psf.height * psf.scale height) (psf.width * psf.scale height)).foldl (fun buffer pixel =>
        Function.update buffer (cell gfx.stride (point.x + pixel.1) (point.y + pixel.2))
          (pixelBlend (buffer (cell gfx.stride (point.x + pixel.1) (point.y + pixel.2)))
            (glyphPixel psf chr foreground background (pixel.1 / psf.scale height) (pixel.2 / psf.scale height))))
        gfx.buffer := by
    rw [← forPixels_eq (psf.height * psf.scale height) (psf.width * psf.scale height) fun x y buffer =>
      Function.update buffer (cell gfx.stride (point.x + x) (point.y + y))
        (pixelBlend (buffer (cell gfx.stride (point.x + x) (point.y + y)))
          (glyphPixel psf chr foreground background (x / psf.scale height) (y / psf.scale height)))]
    simp only [Gfx.char, Gfx.invalidate, glyphPixel, inked, cell, decide_eq_true_eq]
  have apart : (areaPixels (psf.height * psf.scale height) (psf.width * psf.scale height)).Pairwise
      fun first second => cell gfx.stride (point.x + first.1) (point.y + first.2) ≠
        cell gfx.stride (point.x + second.1) (point.y + second.2) := by
    refine (areaPixels_apart _ _).imp_of_mem fun inFirst inSecond different same => different ?_
    have first := mem_areaPixels.mp inFirst
    have second := mem_areaPixels.mp inSecond
    obtain ⟨sameX, sameY⟩ := cell_inj (by omega) (by omega) (by omega) (by omega) same
    exact Prod.ext (by omega) (by omega)
  obtain ⟨changed, kept⟩ := @foldl_modify _ _ _ _
    (fun pixel : Nat × Nat => cell gfx.stride (point.x + pixel.1) (point.y + pixel.2))
    (fun pixel below => pixelBlend below (glyphPixel psf chr foreground background (pixel.1 / psf.scale height)
      (pixel.2 / psf.scale height))) _ apart gfx.buffer
  rw [drawn]
  split_ifs with here
  · simp only [Rect.Contains, Psf.charRect, rectInitDim] at here
    have member := mem_areaPixels.mpr (⟨by omega, by omega⟩ :
      (x - point.x).toNat < psf.width * psf.scale height ∧ (y - point.y).toNat < psf.height * psf.scale height)
    have placeX : point.x + ((x - point.x).toNat : Int) = x := by omega
    have placeY : point.y + ((y - point.y).toNat : Int) = y := by omega
    have drawnHere := changed _ member
    rwa [placeX, placeY] at drawnHere
  · refine kept _ fun pixel member same => here ?_
    have inArea := mem_areaPixels.mp (show (pixel.1, pixel.2) ∈ _ from member)
    obtain ⟨rfl, rfl⟩ := cell_inj (by omega) (by omega) left right same
    simp only [Rect.Contains, Psf.charRect, rectInitDim]
    omega

/-- In solid colours the area of a character shows its glyph. -/
theorem char_solid {gfx : Gfx} {psf : Psf} {point : Point} {height : Nat} (surface : gfx.Surface)
    (inside : (psf.charRect point height).Inside gfx) (chr : UInt8) {foreground background : Pixel}
    (solidForeground : channel 24 foreground = 255) (solidBackground : channel 24 background = 255) {x y : Int}
    (left : 0 ≤ x) (right : x < gfx.stride) :
    (gfx.char psf point height chr foreground background).buffer (cell gfx.stride x y) =
      if (psf.charRect point height).Contains ⟨x, y⟩ then glyphPixel psf chr foreground background
        ((x - point.x).toNat / psf.scale height) ((y - point.y).toNat / psf.scale height)
      else gfx.buffer (cell gfx.stride x y) := by
  rw [char_cell surface inside chr foreground background left right, pixelBlend_solid]
  rw [glyphPixel]
  split_ifs
  · exact solidForeground
  · exact solidBackground

end Asym.GlyphPixels
