import Asym.Graphics

/-!
# Blended pixels

`PIXEL_BLEND` rounds twice: the weight of the pixel below when it adds up the alphas, and each
colour when it divides by the sum. What the first rounding drops from the sum stays in the
colours, so a colour can be larger than 255 and change the field in front of it.

It is not, if and only if what was dropped is less than the room that the colours leave. There is
always room if the pixel below or the one above is solid.
-/

namespace Asym.PixelBlends

open Graphics

/-- The shifts of red, green and blue. -/
def colors : List Nat := [16, 8, 0]

/-- `alpha`. -/
def blendAlpha (aAlpha bAlpha : Nat) : Nat := aAlpha + bAlpha * (0xFF - aAlpha) / 0xFF

/-- A colour before it is packed. -/
def blendColor (aAlpha bAlpha src dest : Nat) : Nat :=
  (src * aAlpha + dest * bAlpha * (0xFF - aAlpha) / 0xFF) / blendAlpha aAlpha bAlpha

/-- The colour at a shift, from the fields of two pixels. -/
def colorAt (below above : Pixel) (shift : Nat) : Nat :=
  blendColor (channel 24 above) (channel 24 below) (channel shift above) (channel shift below)

/-- A blended pixel has the sum of the alphas, and colours of eight bits that depend on their own
fields and the alphas only. A solid pixel covers the one below, and a clear one does not change a
solid pixel. -/
structure Blends (below above : Pixel) : Prop where
  alpha : channel 24 (pixelBlend below above) = blendAlpha (channel 24 above) (channel 24 below)
  small : ∀ shift ∈ colors, colorAt below above shift ≤ 255
  own : ∀ shift ∈ colors, channel shift (pixelBlend below above) = colorAt below above shift
  solid : channel 24 above = 255 → pixelBlend below above = above
  clear : channel 24 above = 0 → channel 24 below = 255 → pixelBlend below above = below

/-- What the sum of the alphas drops from a colour is less than the room that the colours leave. -/
def ColorFits (aAlpha bAlpha src dest : Nat) : Prop :=
  dest * (bAlpha * (255 - aAlpha) % 255) / 255 <
    (256 - src) * aAlpha + (256 - dest) * (bAlpha * (255 - aAlpha) / 255)

instance (aAlpha bAlpha src dest : Nat) : Decidable (ColorFits aAlpha bAlpha src dest) :=
  inferInstanceAs (Decidable (_ < _))

/-- Both pixels are clear, or every colour fits. -/
def Fits (below above : Pixel) : Prop :=
  channel 24 above = 0 ∧ channel 24 below = 0 ∨
    ∀ shift ∈ colors, ColorFits (channel 24 above) (channel 24 below) (channel shift above) (channel shift below)

instance (below above : Pixel) : Decidable (Fits below above) := inferInstanceAs (Decidable (_ ∨ _))

section Fields

/-- A field has eight bits. -/
theorem channel_eq (shift : Nat) (pixel : Pixel) : channel shift pixel = pixel.toNat / 2 ^ shift % 256 := by
  rw [channel, Nat.shiftRight_eq_div_pow]
  exact Nat.and_two_pow_sub_one_eq_mod _ 8

/-- A field is at most 255. -/
theorem channel_le (shift : Nat) (pixel : Pixel) : channel shift pixel ≤ 255 := by
  rw [channel_eq]
  exact Nat.le_of_lt_succ (Nat.mod_lt _ (by decide))

/-- Pixels with the same fields are the same. -/
theorem pixel_ext {first second : Pixel} (alpha : channel 24 first = channel 24 second)
    (same : ∀ shift ∈ colors, channel shift first = channel shift second) : first = second := by
  have red := same 16 (by decide)
  have green := same 8 (by decide)
  have blue := same 0 (by decide)
  simp only [channel_eq] at alpha red green blue
  have firstWord := first.toNat_lt
  have secondWord := second.toNat_lt
  refine UInt32.toNat_inj.mp ?_
  omega

/-- Four fields of eight bits in one pixel. -/
def packed (alpha red green blue : Nat) : Pixel :=
  UInt32.ofNat ((alpha <<< 24) ||| (red <<< 16) ||| (green <<< 8) ||| blue)

/-- The fields of eight bits do not meet. -/
theorem packed_toNat {alpha red green blue : Nat} (alphaFits : alpha ≤ 255) (redFits : red ≤ 255)
    (greenFits : green ≤ 255) (blueFits : blue ≤ 255) :
    (packed alpha red green blue).toNat = alpha * 2 ^ 24 + red * 2 ^ 16 + green * 2 ^ 8 + blue := by
  have low : green <<< 8 ||| blue = green * 2 ^ 8 + blue := by
    rw [← Nat.shiftLeft_add_eq_or_of_lt (by omega), Nat.shiftLeft_eq]
  have middle : red <<< 16 ||| (green * 2 ^ 8 + blue) = red * 2 ^ 16 + (green * 2 ^ 8 + blue) := by
    rw [← Nat.shiftLeft_add_eq_or_of_lt (by omega), Nat.shiftLeft_eq]
  have high : alpha <<< 24 ||| (red * 2 ^ 16 + (green * 2 ^ 8 + blue)) =
      alpha * 2 ^ 24 + (red * 2 ^ 16 + (green * 2 ^ 8 + blue)) := by
    rw [← Nat.shiftLeft_add_eq_or_of_lt (by omega), Nat.shiftLeft_eq]
  rw [packed, Nat.or_assoc, Nat.or_assoc, low, middle, high, UInt32.toNat_ofNat']
  omega

end Fields

section Rounding

variable {aAlpha bAlpha src dest : Nat}

/-- The sum of the alphas is an alpha. -/
theorem blendAlpha_le (fits : aAlpha ≤ 255) (below : bAlpha ≤ 255) : blendAlpha aAlpha bAlpha ≤ 255 := by
  have weight : bAlpha * (255 - aAlpha) / 255 ≤ 255 - aAlpha :=
    Nat.div_le_of_le_mul (Nat.mul_le_mul_right _ below)
  rw [blendAlpha]
  omega

/-- The sum of the alphas is zero if both are. -/
theorem blendAlpha_eq_zero_iff : blendAlpha aAlpha bAlpha = 0 ↔ aAlpha = 0 ∧ bAlpha = 0 := by
  rw [blendAlpha]
  constructor
  · intro none
    obtain rfl : aAlpha = 0 := by omega
    refine ⟨rfl, ?_⟩
    rwa [Nat.zero_add, Nat.sub_zero, Nat.mul_div_cancel _ (by decide)] at none
  · rintro ⟨rfl, rfl⟩
    rfl

/-- A colour of the pixel below, in parts of the weight that the sum of the alphas keeps and of
what it drops. -/
theorem weighted_eq (aAlpha bAlpha dest : Nat) : dest * bAlpha * (255 - aAlpha) / 255 =
    dest * (bAlpha * (255 - aAlpha) / 255) + dest * (bAlpha * (255 - aAlpha) % 255) / 255 := by
  have split := Nat.div_add_mod (bAlpha * (255 - aAlpha)) 255
  generalize bAlpha * (255 - aAlpha) / 255 = kept, bAlpha * (255 - aAlpha) % 255 = dropped at split ⊢
  rw [Nat.mul_assoc, ← split, Nat.mul_add, Nat.mul_left_comm, Nat.mul_add_div (by decide)]

/-- A colour has eight bits if and only if it fits. -/
theorem blendColor_le_iff (some_ : 0 < blendAlpha aAlpha bAlpha) (above : src ≤ 255) (below : dest ≤ 255) :
    blendColor aAlpha bAlpha src dest ≤ 255 ↔ ColorFits aAlpha bAlpha src dest := by
  have aRoom : src * aAlpha + (256 - src) * aAlpha = 256 * aAlpha := by
    rw [← Nat.add_mul, Nat.add_sub_of_le (by omega)]
  have bRoom : ∀ weight, dest * weight + (256 - dest) * weight = 256 * weight := by
    intro weight
    rw [← Nat.add_mul, Nat.add_sub_of_le (by omega)]
  have kept := bRoom (bAlpha * (255 - aAlpha) / 255)
  rw [← Nat.lt_succ_iff, blendColor, Nat.div_lt_iff_lt_mul some_, blendAlpha, weighted_eq, Nat.mul_add, ColorFits]
  omega

/-- Colours fit whatever they are, if and only if the sum of the alphas is more than it drops. -/
theorem alphas_fit_iff (aAlpha bAlpha : Nat) : (∀ src ≤ 255, ∀ dest ≤ 255, ColorFits aAlpha bAlpha src dest) ↔
    bAlpha * (255 - aAlpha) % 255 < blendAlpha aAlpha bAlpha := by
  rw [blendAlpha]
  constructor
  · intro fits
    have white := fits 255 (Nat.le_refl _) 255 (Nat.le_refl _)
    rwa [ColorFits, Nat.mul_div_cancel_left _ (by decide), Nat.one_mul, Nat.one_mul] at white
  · intro more src above dest below
    have dropped : dest * (bAlpha * (255 - aAlpha) % 255) / 255 ≤ bAlpha * (255 - aAlpha) % 255 :=
      Nat.div_le_of_le_mul (Nat.mul_le_mul_right _ below)
    have aRoom := Nat.le_mul_of_pos_left aAlpha (show 0 < 256 - src by omega)
    have bRoom := Nat.le_mul_of_pos_left (bAlpha * (255 - aAlpha) / 255) (show 0 < 256 - dest by omega)
    rw [ColorFits]
    omega

end Rounding

section Results

variable {below above : Pixel}

/-- The fields of a packed pixel. -/
theorem channel_packed {alpha red green blue : Nat} (alphaFits : alpha ≤ 255) (redFits : red ≤ 255)
    (greenFits : green ≤ 255) (blueFits : blue ≤ 255) :
    channel 24 (packed alpha red green blue) = alpha ∧ channel 16 (packed alpha red green blue) = red ∧
      channel 8 (packed alpha red green blue) = green ∧ channel 0 (packed alpha red green blue) = blue := by
  simp only [channel_eq, packed_toNat alphaFits redFits greenFits blueFits]
  omega

/-- The blended pixel, packed from its fields. -/
theorem pixelBlend_eq (some_ : ¬ (channel 24 above = 0 ∧ channel 24 below = 0)) :
    pixelBlend below above = packed (blendAlpha (channel 24 above) (channel 24 below)) (colorAt below above 16)
      (colorAt below above 8) (colorAt below above 0) :=
  if_neg (mt blendAlpha_eq_zero_iff.mp some_)

/-- Two clear pixels make a clear one. -/
theorem pixelBlend_clear (aClear : channel 24 above = 0) (bClear : channel 24 below = 0) :
    pixelBlend below above = 0 :=
  if_pos (blendAlpha_eq_zero_iff.mpr ⟨aClear, bClear⟩)

/-- If the colours have eight bits, they and the sum of the alphas are the fields of the pixel. -/
theorem channel_pixelBlend (small : ∀ shift ∈ colors, colorAt below above shift ≤ 255) :
    channel 24 (pixelBlend below above) = blendAlpha (channel 24 above) (channel 24 below) ∧
      ∀ shift ∈ colors, channel shift (pixelBlend below above) = colorAt below above shift := by
  by_cases bothClear : channel 24 above = 0 ∧ channel 24 below = 0
  · have none := blendAlpha_eq_zero_iff.mpr bothClear
    rw [pixelBlend_clear bothClear.1 bothClear.2, none]
    refine ⟨rfl, fun shift _ => ?_⟩
    have empty : (0 : Pixel).toNat = 0 := rfl
    rw [colorAt, blendColor, none, Nat.div_zero, channel_eq, empty, Nat.zero_div]
  · obtain ⟨alpha, red, green, blue⟩ := channel_packed (blendAlpha_le (channel_le 24 above) (channel_le 24 below))
      (small 16 (by decide)) (small 8 (by decide)) (small 0 (by decide))
    rw [pixelBlend_eq bothClear]
    refine ⟨alpha, fun shift member => ?_⟩
    simp only [colors, List.mem_cons, List.not_mem_nil, or_false] at member
    rcases member with rfl | rfl | rfl
    · exact red
    · exact green
    · exact blue

/-- The colours have eight bits if and only if they fit. -/
theorem small_iff (below above : Pixel) : (∀ shift ∈ colors, colorAt below above shift ≤ 255) ↔ Fits below above := by
  rw [Fits]
  by_cases bothClear : channel 24 above = 0 ∧ channel 24 below = 0
  · refine iff_of_true (fun shift _ => ?_) (.inl bothClear)
    rw [colorAt, blendColor, blendAlpha_eq_zero_iff.mpr bothClear, Nat.div_zero]
    exact Nat.zero_le _
  · have some_ := Nat.pos_of_ne_zero (mt blendAlpha_eq_zero_iff.mp bothClear)
    rw [or_iff_right bothClear]
    exact forall₂_congr fun shift _ => blendColor_le_iff some_ (channel_le shift above) (channel_le shift below)

/-- The colours of a solid pixel cover those below. -/
theorem blendColor_solid (bAlpha src dest : Nat) : blendColor 255 bAlpha src dest = src := by
  rw [blendColor, blendAlpha, Nat.sub_self, Nat.mul_zero, Nat.mul_zero, Nat.zero_div, Nat.add_zero, Nat.add_zero]
  exact Nat.mul_div_cancel _ (by decide)

/-- The colours of a clear pixel leave those of a solid one. -/
theorem blendColor_clear (src dest : Nat) : blendColor 0 255 src dest = dest := by
  rw [blendColor, blendAlpha, Nat.mul_zero, Nat.zero_add, Nat.zero_add, Nat.sub_zero,
    Nat.mul_div_cancel _ (by decide), Nat.mul_div_cancel _ (by decide)]

/-- A pixel whose colours fit is blended as it should. -/
theorem Fits.blends (fits : Fits below above) : Blends below above := by
  have small := (small_iff below above).mpr fits
  obtain ⟨alpha, own⟩ := channel_pixelBlend small
  refine ⟨alpha, small, own, fun solid => ?_, fun clear solid => ?_⟩
  · refine pixel_ext ?_ fun shift member => ?_
    · rw [alpha, solid, blendAlpha, Nat.sub_self, Nat.mul_zero]
    · rw [own shift member, colorAt, solid, blendColor_solid]
  · refine pixel_ext ?_ fun shift member => ?_
    · rw [alpha, clear, solid]
      rfl
    · rw [own shift member, colorAt, clear, solid, blendColor_clear]

/-- A blended pixel has the fields that it should, if and only if every colour fits.

Proof: the fields are joined with `|`, so they are their own exactly if each colour is a byte. -/
theorem pixel_blend_iff (below above : Pixel) : Blends below above ↔ Fits below above :=
  ⟨fun blends => (small_iff below above).mp blends.small, Fits.blends⟩

/-- White of which almost nothing is seen, on white of which almost nothing is seen: the colours are
381, and the alpha becomes 3. -/
theorem white_spills : pixelBlend 0x02FFFFFF 0x01FFFFFF = 0x037D7D7D ∧ blendAlpha 1 2 = 2 ∧
    colorAt 0x02FFFFFF 0x01FFFFFF 16 = 381 ∧ ¬ Blends 0x02FFFFFF 0x01FFFFFF := by
  have red : colorAt 0x02FFFFFF 0x01FFFFFF 16 = 381 := by decide
  refine ⟨by decide, by decide, red, fun blends => ?_⟩
  have small := blends.small 16 (by decide)
  rw [red] at small
  exact absurd small (by decide)

end Results

end Asym.PixelBlends
