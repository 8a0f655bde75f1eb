import Asym.CStrings
import Asym.Drawing
import Asym.MachineWords

/-!
# Texts that are too wide

`gfx_text` draws a whole string where it fits into its rectangle, and otherwise as many
characters as leave room for three dots. The number of these is a quotient less three in
`uint64_t`, so a rectangle that is narrower than three characters has room for nearly `2 ^ 64`,
and the loop leaves the string.

The width of a character is a product in `uint64_t`, and so is the width of the text, which is
then taken for an `int64_t`. Where a character is drawn is a sum that wraps to `int64_t`; other
coordinates are integers, and the edges of the rectangle fit into `int64_t`.
-/

namespace Asym.TextDrawing

open ByteMemory CStrings MachineWords Graphics

section Model

/-- A conversion to `int64_t`. -/
def signed (value : Nat) : Int := (value : Int).bmod wordSize

/-- `psf->width * scale`. -/
def charWidth (psf : Psf) (height : Nat) : Nat := mul psf.width (psf.scale height)

/-- `width` in `gfx_text`. -/
def textWidth (psf : Psf) (height length : Nat) : Int := signed (mul (mul length psf.width) (psf.scale height))

/-- A call of `gfx_char`. -/
structure Drawn where
  point : Point
  chr : UInt8
  deriving DecidableEq

/-- The bytes of its string that a call of `gfx_text` reads, and the characters that it draws. -/
structure Text where
  read : List Nat
  drawn : List Drawn

/-- How a call ends: it returns, or divides by zero. -/
inductive Outcome where
  | returns (text : Text)
  | divides

/-- The addresses from one on. -/
def addresses (str count : Nat) : List Nat := (List.range count).map (str + ·)

end Model

section Properties

/-- Only characters of the string and its terminator are read, no more are drawn than it has, or
three, and each starts in the rectangle or in the first three characters. -/
structure Proper (psf : Psf) (rect : Rect) (height str length : Nat) (text : Text) : Prop where
  reads : ∀ address ∈ text.read, str ≤ address ∧ address ≤ str + length
  amount : text.drawn.length ≤ max 3 length
  starts : ∀ drawn ∈ text.drawn, rect.left ≤ drawn.point.x ∧
    drawn.point.x < max rect.right (rect.left + 3 * charWidth psf height)

/-- A text that is too wide has room for three characters, or the rectangle has a negative width
that is taken for three characters, and these do not wrap. All characters of another text start in
the rectangle or in the first three characters. -/
def Fits (psf : Psf) (rect : Rect) (xAlign : Align) (height length : Nat) : Prop :=
  let width := charWidth psf height
  if rect.width < textWidth psf height length then
    width ≠ 0 ∧ (3 * width ≤ rect.width ∨
      rect.width < 0 ∧ unsigned rect.width / width = 3 ∧ rect.left + 2 * width < 2 ^ 63)
  else
    ∀ x, xAlign.start rect.left rect.right (textWidth psf height length) = some x → ∀ index < length,
      rect.left ≤ (x + (index * width : Nat)).bmod wordSize ∧
        (x + (index * width : Nat)).bmod wordSize < max rect.right (rect.left + 3 * width)

end Properties

section Characters

variable {memory : Memory} {str : Nat} {bytes : List UInt8}

end Characters

section Widths

end Widths

section Results

variable {memory : Memory} {str : Nat} {bytes : List UInt8} {psf : Psf} {rect : Rect} {height : Nat}

end Results

section Samples

/-- The string `abc` at an address. -/
def sampleMemory : Memory := fun address => ([97, 98, 99] : List UInt8).getD (address - 16) 0

end Samples

end Asym.TextDrawing
