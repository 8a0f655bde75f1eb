import Asym.GlyphPixels
import Asym.RectFills

/-!
# The screen of the terminal

The terminal draws characters into its window: at the cursor, from left to right, and a new line
begins when a line is full. At the last line it scrolls by two lines. The cursor blinks as a
block. Every change is flushed to the window manager.

What the window shows is a text screen: a grid of characters with a cursor. Each function that
draws does to the pixels what it should do to the text, and the window manager always has the
same pixels as the terminal. Only the two rows of pixels above the first line are no part of this:
a scroll leaves there the lowest pixels of a line that went away.
-/

namespace Asym.TerminalScreen

open Graphics Grids GlyphPixels RectFills

/-! ## The source -/

/-- `winTheme.edgeWidth`. -/
def edgeWidth : Nat := 3

/-- `winTheme.padding`. -/
def padding : Nat := 2

/-- `winTheme.highlight`. -/
def highlight : Pixel := 0xFFE0E0E0

/-- `winTheme.shadow`. -/
def shadow : Pixel := 0xFF6F6F6F

/-- `winTheme.bright`. -/
def bright : Pixel := 0xFFFFFFFF

/-- `winTheme.dark`. -/
def dark : Pixel := 0xFF000000

/-- `TERMINAL_WIDTH`. -/
def terminalWidth : Nat := 750

/-- `TERMINAL_HEIGHT`. -/
def terminalHeight : Nat := 500

/-- The width without edges and padding. -/
def textWidth : Nat := terminalWidth - edgeWidth * 2 - padding * 2

/-- The height without edges and padding. -/
def textHeight : Nat := terminalHeight - edgeWidth * 2 - padding * 2

/-- The width of the window, with an edge on both sides of its client area. -/
def windowWidth : Nat := terminalWidth + edgeWidth * 2

/-- The window of the terminal: the pixels of its client area, those that were flushed, and the
variables of the cursor. -/
structure Terminal where
  buffer : Int → Pixel
  flushed : Int → Pixel
  cursorPos : Point
  cursorVisible : Bool

/-- The surface of the client area with a rectangle that is invalid. -/
def Terminal.surface (terminal : Terminal) (invalidRect : Rect) : Gfx where
  buffer := terminal.buffer
  capacity := windowWidth * terminalHeight
  width := terminalWidth
  height := terminalHeight
  stride := windowWidth
  invalidRect

/-- `win_draw_begin`. -/
def winDrawBegin (terminal : Terminal) : Gfx := terminal.surface ⟨0, 0, 0, 0⟩

/-- `win_draw_end`: the invalid rectangle is flushed. -/
def winDrawEnd (terminal : Terminal) (gfx : Gfx) : Terminal :=
  { terminal with
    buffer := gfx.buffer
    flushed := gfxTransfer terminal.flushed windowWidth gfx.buffer windowWidth gfx.invalidRect
      ⟨gfx.invalidRect.left, gfx.invalidRect.top⟩ }

/-- `CURSOR_POS_TO_CLIENT_POS`. -/
def cursorPosToClientPos (font : Psf) (cursorPos : Point) : Point :=
  ⟨cursorPos.x * font.width + edgeWidth + padding, cursorPos.y * font.height + edgeWidth + padding⟩

/-- `terminal_cursor_draw`. -/
def terminalCursorDraw (font : Psf) (terminal : Terminal) : Terminal :=
  let gfx := winDrawBegin terminal
  let point := cursorPosToClientPos font terminal.cursorPos
  let color := if terminal.cursorVisible then bright else dark
  winDrawEnd terminal (gfx.char font point font.height 0x20 color color)

/-- `terminal_cursor_clear`. -/
def terminalCursorClear (font : Psf) (terminal : Terminal) : Terminal :=
  { terminalCursorDraw font { terminal with cursorVisible := false } with cursorVisible := terminal.cursorVisible }

/-- `terminal_scroll`. -/
def terminalScroll (font : Psf) (terminal : Terminal) : Terminal :=
  let moved := { terminal with cursorPos := ⟨terminal.cursorPos.x, terminal.cursorPos.y - 2⟩ }
  let gfx := winDrawBegin moved
  winDrawEnd moved (gfx.scroll (gfx.whole.shrink edgeWidth) (font.height * 2) dark)

/-- The case of a new line in `terminal_put_backend`. -/
def terminalNewline (font : Psf) (terminal : Terminal) : Terminal :=
  let cleared := terminalCursorClear font terminal
  let moved := { cleared with cursorPos := ⟨0, cleared.cursorPos.y + 1⟩ }
  if (moved.cursorPos.y + 1) * font.height > (textHeight : Int) then
    terminalScroll font moved
  else moved

/-- `terminal_put_backend`, with the invalid rectangle of its surface. -/
def terminalPutBackend (font : Psf) (terminal : Terminal) (invalidRect : Rect) (chr : UInt8) : Terminal × Rect :=
  if chr = 10 then (terminalNewline font terminal, invalidRect)
  else if chr = 8 then
    if terminal.cursorPos.x ≠ 0 then
      let cleared := terminalCursorClear font terminal
      let moved := { cleared with cursorPos := ⟨cleared.cursorPos.x - 1, cleared.cursorPos.y⟩ }
      (terminalCursorClear font moved, invalidRect)
    else (terminal, invalidRect)
  else if chr = 0 then (terminal, invalidRect)
  else
    let point := cursorPosToClientPos font terminal.cursorPos
    let gfx := (terminal.surface invalidRect).char font point font.height chr bright dark
    let moved :=
      { terminal with buffer := gfx.buffer, cursorPos := ⟨terminal.cursorPos.x + 1, terminal.cursorPos.y⟩ }
    if (moved.cursorPos.x + 2) * font.width > (textWidth : Int) then
      (terminalNewline font moved, gfx.invalidRect)
    else (moved, gfx.invalidRect)

/-- The end of `terminal_put` and `terminal_print`: their own surface is flushed. -/
def endPut (put : Terminal × Rect) : Terminal :=
  winDrawEnd put.1 (put.1.surface put.2)

/-- `terminal_put`. -/
def terminalPut (font : Psf) (terminal : Terminal) (chr : UInt8) : Terminal :=
  endPut (terminalPutBackend font terminal ⟨0, 0, 0, 0⟩ chr)

/-- `terminal_print`. -/
def terminalPrint (font : Psf) (terminal : Terminal) (str : List UInt8) : Terminal :=
  let text := str.takeWhile (· ≠ 0)
  endPut (text.foldl (fun put chr => terminalPutBackend font put.1 put.2 chr) (terminal, ⟨0, 0, 0, 0⟩))

/-- `terminal_clear`. -/
def terminalClear (terminal : Terminal) : Terminal :=
  let reset := { terminal with cursorVisible := false, cursorPos := ⟨0, 0⟩ }
  let gfx := winDrawBegin reset
  let edged := gfx.edge gfx.whole edgeWidth shadow highlight
  winDrawEnd reset (edged.rect (gfx.whole.shrink edgeWidth) dark)

/-- What `procedure` draws for a timer: the cursor is shown if it was not, and not if it was. -/
def terminalBlink (font : Psf) (terminal : Terminal) : Terminal :=
  terminalCursorDraw font { terminal with cursorVisible := !terminal.cursorVisible }

/-- What `procedure` draws after a key. -/
def terminalShowCursor (font : Psf) (terminal : Terminal) : Terminal :=
  terminalCursorDraw font { terminal with cursorVisible := true }

/-! ## Text screens -/

/-- The number of columns in which a character can stand. -/
def columns (font : Psf) : Nat := textWidth / font.width

/-- The number of lines. -/
def rows (font : Psf) : Nat := textHeight / font.height

/-- A grid of characters, 0 for none, with a cursor. The block of the cursor may be drawn or not. -/
structure Screen where
  column : Nat
  row : Nat
  cells : Nat → Nat → UInt8
  block : Bool
  visible : Bool

/-- A character in the cell of the cursor. -/
def Screen.set (screen : Screen) (chr : UInt8) : Screen :=
  { screen with
    cells := fun row column =>
      if row = screen.row ∧ column = screen.column then chr else screen.cells row column
    block := false }

/-- The lines move up by two, and the cursor with them. -/
def Screen.scroll (rows : Nat) (screen : Screen) : Screen :=
  { screen with
    row := screen.row - 2
    cells := fun row column => if row + 2 < rows then screen.cells (row + 2) column else 0
    block := false }

/-- The cursor goes to the next line. -/
def Screen.newline (rows : Nat) (screen : Screen) : Screen :=
  let moved := { screen.set 0 with column := 0, row := screen.row + 1 }
  if screen.row + 1 < rows then moved else moved.scroll rows

/-- A character is put on the screen. -/
def Screen.put (columns rows : Nat) (screen : Screen) (chr : UInt8) : Screen :=
  if chr = 10 then screen.newline rows
  else if chr = 8 then
    if screen.column ≠ 0 then { screen.set 0 with column := screen.column - 1 }.set 0 else screen
  else if chr = 0 then screen
  else
    let moved := { screen.set chr with column := screen.column + 1 }
    if screen.column + 3 ≤ columns then moved else moved.newline rows

/-- The block of the cursor is drawn, or the cell of the cursor is cleared. -/
def Screen.draw (screen : Screen) : Screen :=
  { screen.set 0 with block := screen.visible }

/-- A screen without characters. -/
def Screen.empty : Screen :=
  { column := 0, row := 0, cells := fun _ _ => 0, block := false, visible := false }

/-- The pixel that a screen has at a place of the text area. -/
def Screen.pixel (font : Psf) (screen : Screen) (x y : Nat) : Pixel :=
  let row := y / font.height
  let column := x / font.width
  if row < rows font ∧ column < columns font then
    if screen.block ∧ row = screen.row ∧ column = screen.column then bright
    else if screen.cells row column = 0 then dark
    else glyphPixel font (screen.cells row column) bright dark (x % font.width) (y % font.height)
  else dark

/-! ## What the window shows -/

/-- Two columns and two lines of a font have room. -/
structure Fits (font : Psf) : Prop where
  wide : 0 < font.width
  high : 0 < font.height
  columns : 2 ≤ columns font
  rows : 2 ≤ rows font

/-- The text area: from the first cell to the edges on the right and below. -/
def textArea : Rect :=
  ⟨edgeWidth + padding, edgeWidth + padding, terminalWidth - edgeWidth, terminalHeight - edgeWidth⟩

/-- The pixels of the text area are those of a screen. -/
def Pixels (font : Psf) (screen : Screen) (buffer : Int → Pixel) : Prop :=
  ∀ x y, textArea.Contains ⟨x, y⟩ → buffer (cell windowWidth x y) =
    screen.pixel font (x - textArea.left).toNat (y - textArea.top).toNat

/-- The terminal has the cursor of a screen and its pixels. -/
structure Shows (font : Psf) (screen : Screen) (terminal : Terminal) : Prop where
  column : screen.column + 2 ≤ columns font
  row : screen.row < rows font
  cursorPos : terminal.cursorPos = ⟨screen.column, screen.row⟩
  visible : terminal.cursorVisible = screen.visible
  pixels : Pixels font screen terminal.buffer

/-- The client area. -/
def clientArea : Rect := ⟨0, 0, terminalWidth, terminalHeight⟩

/-- What is not flushed is invalid. -/
structure Flushed (invalidRect : Rect) (terminal : Terminal) : Prop where
  ordered : invalidRect.Ordered
  within : invalidRect.Within clientArea
  same : ∀ x y, clientArea.Contains ⟨x, y⟩ → ¬ invalidRect.Contains ⟨x, y⟩ →
    terminal.flushed (cell windowWidth x y) = terminal.buffer (cell windowWidth x y)

/-- The client area is a surface. -/
theorem surface_surface (terminal : Terminal) (invalidRect : Rect) : (terminal.surface invalidRect).Surface :=
  ⟨(by decide : terminalWidth ≤ windowWidth), (by decide : terminalWidth < 2 ^ 32),
    (by decide : terminalHeight < 2 ^ 32)⟩

/-! ## Flushes -/

section Flushes

variable {terminal : Terminal} {invalidRect : Rect} {gfx : Gfx}

/-- A flush copies the invalid rectangle. -/
theorem winDrawEnd_flushed (within : gfx.invalidRect.Within clientArea) {x y : Int}
    (inside : clientArea.Contains ⟨x, y⟩) : (winDrawEnd terminal gfx).flushed (cell windowWidth x y) =
      if gfx.invalidRect.Contains ⟨x, y⟩ then gfx.buffer (cell windowWidth x y)
      else terminal.flushed (cell windowWidth x y) := by
  have narrow : clientArea.right ≤ (windowWidth : Int) := by decide
  obtain ⟨begins, ends, _, _⟩ := within
  obtain ⟨left, right, _, _⟩ := inside
  have copied := gfxTransfer_cell terminal.flushed windowWidth gfx.buffer windowWidth gfx.invalidRect
    ⟨gfx.invalidRect.left, gfx.invalidRect.top⟩ ⟨x, y⟩ begins (ends.trans narrow) left (Int.lt_of_lt_of_le right narrow)
  rwa [show gfx.invalidRect.left + (x - gfx.invalidRect.left) = x by omega,
    show gfx.invalidRect.top + (y - gfx.invalidRect.top) = y by omega] at copied

/-- A function that draws on a surface of its own and flushes it leaves invalid what was. -/
theorem Flushed.draw (flushed : Flushed invalidRect terminal) (reports : Reports (winDrawBegin terminal) gfx)
    (within : gfx.invalidRect.Within clientArea) : Flushed invalidRect (winDrawEnd terminal gfx) := by
  refine ⟨flushed.ordered, flushed.within, ?_⟩
  intro x y inside valid
  rw [winDrawEnd_flushed within inside]
  split_ifs with drawn
  · rfl
  · rw [flushed.same x y inside valid]
    by_contra different
    exact drawn (reports.changed ⟨x, y⟩ inside fun same => different same.symm)

/-- What is drawn on the surface of the caller becomes invalid. -/
theorem Flushed.pending (flushed : Flushed invalidRect terminal)
    (reports : Reports (terminal.surface invalidRect) gfx) (ordered : gfx.invalidRect.Ordered)
    (within : gfx.invalidRect.Within clientArea) (cursorPos : Point) :
    Flushed gfx.invalidRect { terminal with buffer := gfx.buffer, cursorPos } := by
  refine ⟨ordered, within, ?_⟩
  intro x y inside valid
  have before : ¬ invalidRect.Contains ⟨x, y⟩ := fun invalid => valid (reports.kept ⟨x, y⟩ invalid)
  rw [flushed.same x y inside before]
  by_contra different
  exact valid (reports.changed ⟨x, y⟩ inside fun same => different same.symm)

/-- After the flush at the end nothing is invalid. -/
theorem Flushed.finish (flushed : Flushed invalidRect terminal) :
    Flushed ⟨0, 0, 0, 0⟩ (endPut (terminal, invalidRect)) := by
  refine ⟨⟨Int.le_refl 0, Int.le_refl 0⟩, ⟨Int.le_refl 0, by decide, Int.le_refl 0, by decide⟩, ?_⟩
  intro x y inside _
  rw [endPut, winDrawEnd_flushed flushed.within inside]
  split_ifs with invalid
  · rfl
  · exact flushed.same x y inside invalid

end Flushes

/-! ## Cells -/

section Cells

variable {font : Psf} {terminal : Terminal} {column row : Nat}

/-- A character is drawn as large as its glyph. -/
theorem scale_height (fits : Fits font) : font.scale font.height = 1 := by
  rw [Psf.scale, Nat.div_self fits.high]
  rfl

/-- The area of a cell. -/
def cellRect (font : Psf) (column row : Nat) : Rect :=
  font.charRect (cursorPosToClientPos font ⟨column, row⟩) font.height

/-- A place of the text area is in a cell exactly if the divisions say so. -/
theorem cellRect_iff (fits : Fits font) {x y : Int} (inside : textArea.Contains ⟨x, y⟩) :
    (cellRect font column row).Contains ⟨x, y⟩ ↔
      (y - textArea.top).toNat / font.height = row ∧ (x - textArea.left).toNat / font.width = column := by
  have wide := fits.wide
  have high := fits.high
  simp only [textArea, Rect.Contains, edgeWidth, padding] at inside
  rw [Nat.div_eq_iff (by omega), Nat.div_eq_iff (by omega), cellRect, Psf.charRect, scale_height fits]
  simp only [Rect.Contains, rectInitDim, cursorPosToClientPos, textArea, edgeWidth, padding, Nat.mul_one]
  have across : ((column * font.width : Nat) : Int) = column * font.width := Int.natCast_mul _ _
  have down : ((row * font.height : Nat) : Int) = row * font.height := Int.natCast_mul _ _
  omega

/-- A cell lies in the client area. -/
theorem cellRect_inside (fits : Fits font) (inColumns : column < columns font) (inRows : row < rows font) :
    (cellRect font column row).Ordered ∧ (cellRect font column row).Within clientArea := by
  have across := (Nat.le_div_iff_mul_le fits.wide).mp (Nat.succ_le_of_lt inColumns)
  have down := (Nat.le_div_iff_mul_le fits.high).mp (Nat.succ_le_of_lt inRows)
  rw [Nat.succ_mul] at across down
  simp only [textWidth, textHeight, terminalWidth, terminalHeight, edgeWidth, padding] at across down
  rw [cellRect, Psf.charRect, scale_height fits]
  have acrossInt : ((column * font.width : Nat) : Int) = column * font.width := Int.natCast_mul _ _
  have downInt : ((row * font.height : Nat) : Int) = row * font.height := Int.natCast_mul _ _
  simp only [Rect.Ordered, Rect.Within, clientArea, rectInitDim, cursorPosToClientPos, terminalWidth, terminalHeight,
    edgeWidth, padding, Nat.mul_one]
  omega

/-- A character that is drawn in a cell. -/
theorem char_pixels (fits : Fits font) (inColumns : column < columns font) (inRows : row < rows font)
    (invalidRect : Rect) (chr : UInt8) {foreground background : Pixel}
    (solidForeground : channel 24 foreground = 255) (solidBackground : channel 24 background = 255) {x y : Int}
    (inside : textArea.Contains ⟨x, y⟩) :
    ((terminal.surface invalidRect).char font (cursorPosToClientPos font ⟨column, row⟩) font.height chr foreground
        background).buffer (cell windowWidth x y) =
      if (y - textArea.top).toNat / font.height = row ∧ (x - textArea.left).toNat / font.width = column then
        glyphPixel font chr foreground background ((x - textArea.left).toNat % font.width)
          ((y - textArea.top).toNat % font.height)
      else terminal.buffer (cell windowWidth x y) := by
  have cellInside := cellRect_inside fits inColumns inRows
  have left : 0 ≤ x ∧ x < windowWidth := by
    simp only [textArea, Rect.Contains, windowWidth, terminalWidth, edgeWidth, padding] at inside ⊢
    omega
  have drawn := @char_solid _ font (cursorPosToClientPos font ⟨column, row⟩) _ (surface_surface terminal invalidRect)
    cellInside chr _ _ solidForeground solidBackground x y left.1 left.2
  have sameCell := @cellRect_iff font column row fits x y inside
  rw [cellRect] at sameCell
  refine drawn.trans ?_
  by_cases here : (y - textArea.top).toNat / font.height = row ∧ (x - textArea.left).toNat / font.width = column
  · rw [if_pos (sameCell.mpr here), if_pos here, scale_height fits, Nat.div_one, Nat.div_one]
    obtain ⟨rfl, rfl⟩ := here
    have across := Nat.div_add_mod' (x - textArea.left).toNat font.width
    have down := Nat.div_add_mod' (y - textArea.top).toNat font.height
    have acrossInt := Int.natCast_mul ((x - textArea.left).toNat / font.width) font.width
    have downInt := Int.natCast_mul ((y - textArea.top).toNat / font.height) font.height
    simp only [textArea, Rect.Contains, edgeWidth, padding] at inside across down acrossInt downInt ⊢
    simp only [cursorPosToClientPos, edgeWidth, padding]
    congr 1 <;> omega
  · rw [if_neg (mt sameCell.mp here), if_neg here]
    rfl

end Cells

/-! ## Pixels -/

section Pixels

variable {font : Psf} {terminal : Terminal} {screen : Screen}

/-- A screen on which one cell is drawn. -/
theorem pixel_set {font : Psf} {screen : Screen} (chr : UInt8) (block : Bool) (x y : Nat)
    (inColumns : screen.column < columns font) (inRows : screen.row < rows font) :
    { screen.set chr with block := block }.pixel font x y =
      if y / font.height = screen.row ∧ x / font.width = screen.column then
        if block then bright else if chr = 0 then dark
        else glyphPixel font chr bright dark (x % font.width) (y % font.height)
      else { screen with block := false }.pixel font x y := by
  by_cases here : y / font.height = screen.row ∧ x / font.width = screen.column
  · obtain ⟨sameRow, sameColumn⟩ := here
    rw [if_pos ⟨sameRow, sameColumn⟩]
    simp only [Screen.pixel, Screen.set, sameRow, sameColumn, inColumns, inRows, and_self, and_true, if_true]
  · rw [if_neg here]
    simp only [Screen.pixel, Screen.set, here, and_false, if_false, Bool.false_eq_true]

/-- The block of the cursor covers its own cell only. -/
theorem pixel_block (font : Psf) (screen : Screen) (block : Bool) {x y : Nat}
    (away : ¬ (y / font.height = screen.row ∧ x / font.width = screen.column)) :
    { screen with block := block }.pixel font x y = screen.pixel font x y := by
  simp only [Screen.pixel, away, and_false, if_false]

/-- The cursor that is drawn, or the cell that is cleared. -/
theorem Pixels.draw (fits : Fits font) (pixels : Pixels font screen terminal.buffer)
    (inColumns : screen.column < columns font) (inRows : screen.row < rows font)
    (cursorPos : terminal.cursorPos = ⟨screen.column, screen.row⟩) :
    Pixels font { screen.set 0 with block := terminal.cursorVisible } (terminalCursorDraw font terminal).buffer := by
  intro x y inside
  have color : channel 24 (if terminal.cursorVisible then bright else dark) = 255 := by
    split_ifs <;> decide
  have drawn := @char_pixels font terminal _ _ fits inColumns inRows ⟨0, 0, 0, 0⟩ 0x20 _ _ color color x y inside
  rw [← cursorPos] at drawn
  refine drawn.trans ?_
  rw [pixel_set 0 _ _ _ inColumns inRows]
  by_cases here : (y - textArea.top).toNat / font.height = screen.row ∧
      (x - textArea.left).toNat / font.width = screen.column
  · rw [if_pos here, if_pos here, glyphPixel, ite_self, if_pos rfl]
  · rw [if_neg here, if_neg here, pixels x y inside, pixel_block font screen false here]

/-- A character that is put on the screen. -/
theorem Pixels.char (fits : Fits font) (pixels : Pixels font screen terminal.buffer)
    (inColumns : screen.column < columns font) (inRows : screen.row < rows font)
    (cursorPos : terminal.cursorPos = ⟨screen.column, screen.row⟩) (invalidRect : Rect) {chr : UInt8}
    (printed : chr ≠ 0) : Pixels font (screen.set chr) ((terminal.surface invalidRect).char font
      (cursorPosToClientPos font terminal.cursorPos) font.height chr bright dark).buffer := by
  intro x y inside
  have drawn := @char_pixels font terminal _ _ fits inColumns inRows invalidRect chr bright dark (by decide) (by decide)
    x y inside
  rw [← cursorPos] at drawn
  refine drawn.trans ?_
  have set := pixel_set chr false (x - textArea.left).toNat (y - textArea.top).toNat inColumns inRows
  refine Eq.trans ?_ set.symm
  by_cases here : (y - textArea.top).toNat / font.height = screen.row ∧
      (x - textArea.left).toNat / font.width = screen.column
  · rw [if_pos here, if_pos here, if_neg Bool.false_ne_true, if_neg printed]
  · rw [if_neg here, if_neg here, pixels x y inside, pixel_block font screen false here]

/-- The client area without its edges. -/
def innerRect : Rect :=
  ⟨edgeWidth, edgeWidth, terminalWidth - edgeWidth, terminalHeight - edgeWidth⟩

/-- It is what `RECT_SHRINK` leaves of the surface. -/
theorem shrink_whole (terminal : Terminal) : (winDrawBegin terminal).whole.shrink edgeWidth = innerRect := by
  simp [winDrawBegin, Terminal.surface, Gfx.whole, Rect.shrink, innerRect]

/-- It lies in the surface. -/
theorem innerRect_inside (terminal : Terminal) (invalidRect : Rect) :
    innerRect.Inside (terminal.surface invalidRect) :=
  show innerRect.Ordered ∧ innerRect.Within clientArea from
    ⟨⟨by decide, by decide⟩, by decide, by decide, by decide, by decide⟩

/-- The text area lies in it. -/
theorem innerRect_contains {x y : Int} (inside : textArea.Contains ⟨x, y⟩) : innerRect.Contains ⟨x, y⟩ := by
  simp only [textArea, innerRect, Rect.Contains, edgeWidth, padding] at inside ⊢
  omega

/-- Two lines are not higher. -/
theorem twoLines_fit (fits : Fits font) : ((font.height * 2 : Nat) : Int) ≤ innerRect.height := by
  have tall := (Nat.le_div_iff_mul_le fits.high).mp fits.rows
  simp only [textHeight, terminalHeight, edgeWidth, padding] at tall
  simp only [innerRect, Rect.height, terminalHeight, edgeWidth]
  omega

/-- A scroll moves the lines up by two. -/
theorem Pixels.scroll (fits : Fits font) (pixels : Pixels font screen terminal.buffer)
    (noBlock : screen.block = false) :
    Pixels font (screen.scroll (rows font)) (terminalScroll font terminal).buffer := by
  intro x y inside
  have high := fits.high
  have inRows : 0 ≤ x ∧ x < windowWidth := by
    simp only [textArea, Rect.Contains, windowWidth, terminalWidth, edgeWidth, padding] at inside ⊢
    omega
  have moved := @Scrolling.scroll_cell (winDrawBegin terminal) innerRect (font.height * 2)
    (surface_surface terminal _) (innerRect_inside terminal _) (twoLines_fit fits) dark x y inRows.1 inRows.2
  rw [if_pos (innerRect_contains inside)] at moved
  rw [terminalScroll, shrink_whole]
  refine moved.trans ?_
  have lines : ∀ line, line < rows font ↔ (line + 1) * font.height ≤ textHeight :=
    fun line => show line + 1 ≤ textHeight / font.height ↔ _ from Nat.le_div_iff_mul_le fits.high
  by_cases above : y < innerRect.bottom - (font.height * 2 : Nat)
  · have below : textArea.Contains ⟨x, y + (font.height * 2 : Nat)⟩ := by
      simp only [textArea, innerRect, Rect.Contains] at inside above ⊢
      omega
    have place : (y + (font.height * 2 : Nat) - textArea.top).toNat = (y - textArea.top).toNat + font.height * 2 := by
      simp only [textArea, Rect.Contains] at inside ⊢
      omega
    rw [if_pos above]
    refine (pixels x _ below).trans ?_
    rw [place]
    simp only [Screen.pixel, Screen.scroll, noBlock, Nat.add_mul_div_left _ _ high, Nat.add_mul_mod_self_left,
      Bool.false_eq_true, false_and, if_false]
    by_cases moved : (y - textArea.top).toNat / font.height + 2 < rows font
    · have before : (y - textArea.top).toNat / font.height < rows font := by omega
      simp only [moved, before, true_and, if_true]
    · simp only [moved, false_and, if_false, if_true, ite_self]
  · have gone : ¬ (y - textArea.top).toNat / font.height + 2 < rows font := by
      intro stays
      have room := (lines _).mp stays
      have within := Nat.lt_mul_div_succ (y - textArea.top).toNat high
      rw [Nat.mul_comm, Nat.succ_mul] at within
      simp only [Nat.add_mul, Nat.one_mul, textHeight, terminalHeight, edgeWidth, padding] at room
      generalize (y - textArea.top).toNat / font.height = line at room within
      simp only [textArea, innerRect, Rect.Contains, terminalHeight, edgeWidth, padding] at inside above within
      omega
    simp only [if_neg above, Screen.pixel, Screen.scroll, gone, if_false, if_true, Bool.false_eq_true, false_and,
      ite_self]

end Pixels

/-! ## Steps -/

section Steps

variable {font : Psf} {terminal : Terminal} {screen : Screen} {invalidRect : Rect}

/-- A character in a cell reports what it changes, and nothing outside of the client area. -/
theorem char_reports (fits : Fits font) {column row : Nat} (inColumns : column < columns font)
    (inRows : row < rows font) (ordered : invalidRect.Ordered) (within : invalidRect.Within clientArea)
    (terminal : Terminal) (chr : UInt8) (foreground background : Pixel) {gfx : Gfx}
    (drawn : gfx = (terminal.surface invalidRect).char font (cursorPosToClientPos font ⟨column, row⟩) font.height chr
      foreground background) :
    Reports (terminal.surface invalidRect) gfx ∧ gfx.invalidRect.Within clientArea ∧ gfx.invalidRect.Ordered := by
  have inside := cellRect_inside fits inColumns inRows
  have area : (font.charRect (cursorPosToClientPos font ⟨column, row⟩) font.height).Inside
      (terminal.surface invalidRect) := inside
  rw [drawn]
  exact ⟨area.char (surface_surface terminal invalidRect) chr foreground background,
    gfxInvalidate_within within inside.2 ordered inside.1⟩

/-- The empty rectangle is inside of the client area. -/
theorem noRect_within : (⟨0, 0, 0, 0⟩ : Rect).Ordered ∧ (⟨0, 0, 0, 0⟩ : Rect).Within clientArea :=
  ⟨⟨Int.le_refl 0, Int.le_refl 0⟩, Int.le_refl 0, by decide, Int.le_refl 0, by decide⟩

/-- The cursor is flushed. -/
theorem Flushed.cursor (fits : Fits font) (flushed : Flushed invalidRect terminal)
    (inColumns : screen.column < columns font) (inRows : screen.row < rows font)
    (cursorPos : terminal.cursorPos = ⟨screen.column, screen.row⟩) :
    Flushed invalidRect (terminalCursorDraw font terminal) := by
  obtain ⟨ordered, within⟩ := noRect_within
  have reports := char_reports fits inColumns inRows ordered within terminal 0x20
    (if terminal.cursorVisible then bright else dark) (if terminal.cursorVisible then bright else dark) rfl
  rw [← cursorPos] at reports
  exact flushed.draw reports.1 reports.2.1

/-- A scroll is flushed. -/
theorem Flushed.scroll (fits : Fits font) (flushed : Flushed invalidRect terminal) :
    Flushed invalidRect (terminalScroll font terminal) := by
  have drawn := (innerRect_inside terminal ⟨0, 0, 0, 0⟩).scroll (surface_surface terminal _) (twoLines_fit fits) dark
  have moved : Flushed invalidRect
      { terminal with cursorPos := ⟨terminal.cursorPos.x, terminal.cursorPos.y - 2⟩ } :=
    ⟨flushed.ordered, flushed.within, flushed.same⟩
  rw [← shrink_whole terminal] at drawn
  refine moved.draw drawn ?_
  have inside := innerRect_inside terminal ⟨0, 0, 0, 0⟩
  obtain ⟨ordered, within⟩ := noRect_within
  rw [shrink_whole]
  exact (gfxInvalidate_within within inside.2 ordered inside.1).1

/-- The window shows a screen, and what is not flushed is invalid. -/
structure Tracks (font : Psf) (screen : Screen) (terminal : Terminal) (invalidRect : Rect) : Prop where
  shows : Shows font screen terminal
  flushed : Flushed invalidRect terminal

/-- The cursor is drawn. -/
theorem Tracks.draw (fits : Fits font) (tracks : Tracks font screen terminal invalidRect) :
    Tracks font screen.draw (terminalCursorDraw font terminal) invalidRect := by
  obtain ⟨⟨column, row, cursorPos, visible, pixels⟩, flushed⟩ := tracks
  have drawn := pixels.draw fits (by omega) row cursorPos
  rw [visible] at drawn
  exact ⟨⟨column, row, cursorPos, visible, drawn⟩, flushed.cursor fits (by omega) row cursorPos⟩

/-- The cell of the cursor is cleared. The cursor may be in the last column. -/
theorem clear_cell (fits : Fits font) (pixels : Pixels font screen terminal.buffer)
    (flushed : Flushed invalidRect terminal) (inColumns : screen.column < columns font)
    (inRows : screen.row < rows font) (cursorPos : terminal.cursorPos = ⟨screen.column, screen.row⟩) :
    Pixels font (screen.set 0) (terminalCursorClear font terminal).buffer ∧
      Flushed invalidRect (terminalCursorClear font terminal) := by
  have hidden : Flushed invalidRect { terminal with cursorVisible := false } :=
    ⟨flushed.ordered, flushed.within, flushed.same⟩
  have drawn := hidden.cursor fits inColumns inRows cursorPos
  have cleared := @Pixels.draw font { terminal with cursorVisible := false } screen fits pixels inColumns inRows
    cursorPos
  exact ⟨cleared, drawn.ordered, drawn.within, drawn.same⟩

/-- The cursor goes to the next line. -/
theorem newline_tracks (fits : Fits font) (pixels : Pixels font screen terminal.buffer)
    (flushed : Flushed invalidRect terminal) (inColumns : screen.column < columns font)
    (inRows : screen.row < rows font) (cursorPos : terminal.cursorPos = ⟨screen.column, screen.row⟩)
    (visible : terminal.cursorVisible = screen.visible) :
    Tracks font (screen.newline (rows font)) (terminalNewline font terminal) invalidRect := by
  obtain ⟨cleared, stillFlushed⟩ := clear_cell fits pixels flushed inColumns inRows cursorPos
  have lines : screen.row + 1 < rows font ↔ (screen.row + 1 + 1) * font.height ≤ textHeight :=
    Nat.le_div_iff_mul_le fits.high
  have down : terminal.cursorPos.y + 1 = (screen.row + 1 : Nat) := by rw [cursorPos]; rfl
  have moved : Flushed invalidRect { terminalCursorClear font terminal with
      cursorPos := ⟨0, (terminalCursorClear font terminal).cursorPos.y + 1⟩ } :=
    ⟨stillFlushed.ordered, stillFlushed.within, stillFlushed.same⟩
  have full : ((terminalCursorClear font terminal).cursorPos.y + 1 + 1) * font.height > (textHeight : Int) ↔
      ¬ screen.row + 1 < rows font := by
    have product : (((screen.row + 1 + 1) * font.height : Nat) : Int) =
        ((screen.row + 1 : Nat) + 1 : Int) * font.height := Int.natCast_mul (screen.row + 1 + 1) font.height
    rw [show (terminalCursorClear font terminal).cursorPos.y + 1 = (screen.row + 1 : Nat) from down, lines, ← product]
    omega
  have wide := fits.columns
  have high := fits.rows
  rw [terminalNewline, Screen.newline]
  by_cases room : screen.row + 1 < rows font
  · rw [if_neg fun beyond => full.mp beyond room, if_pos room]
    refine ⟨⟨?_, room, ?_, visible, cleared⟩, moved⟩
    · exact (Nat.zero_add 2).symm ▸ wide
    · exact congrArg (Point.mk 0) down
  · rw [if_pos (full.mpr room), if_neg room]
    refine ⟨⟨?_, ?_, ?_, visible, ?_⟩, moved.scroll fits⟩
    · exact (Nat.zero_add 2).symm ▸ wide
    · show screen.row + 1 - 2 < rows font
      omega
    · refine congrArg (Point.mk 0) ?_
      show terminal.cursorPos.y + 1 - 2 = ((screen.row + 1 - 2 : Nat) : Int)
      rw [down]
      omega
    · exact Pixels.scroll fits cleared rfl

/-- The character before the cursor is removed. -/
theorem Tracks.back (fits : Fits font) (tracks : Tracks font screen terminal invalidRect)
    (notFirst : screen.column ≠ 0) :
    Tracks font ({ screen.set 0 with column := screen.column - 1 }.set 0)
      (terminalCursorClear font { terminalCursorClear font terminal with
        cursorPos := ⟨terminal.cursorPos.x - 1, terminal.cursorPos.y⟩ }) invalidRect := by
  obtain ⟨⟨column, row, cursorPos, visible, pixels⟩, flushed⟩ := tracks
  obtain ⟨cleared, stillFlushed⟩ := clear_cell fits pixels flushed (by omega) row cursorPos
  have before : (⟨terminal.cursorPos.x - 1, terminal.cursorPos.y⟩ : Point) =
      ⟨(screen.column - 1 : Nat), screen.row⟩ := by
    rw [cursorPos, Point.mk.injEq]
    exact ⟨(Int.ofNat_sub (Nat.pos_of_ne_zero notFirst)).symm, rfl⟩
  have moved : Flushed invalidRect { terminalCursorClear font terminal with
      cursorPos := ⟨terminal.cursorPos.x - 1, terminal.cursorPos.y⟩ } :=
    ⟨stillFlushed.ordered, stillFlushed.within, stillFlushed.same⟩
  have again := @clear_cell font
    { terminalCursorClear font terminal with cursorPos := ⟨terminal.cursorPos.x - 1, terminal.cursorPos.y⟩ }
    { screen.set 0 with column := screen.column - 1 } invalidRect fits cleared moved
    (show screen.column - 1 < columns font by omega) row before
  refine ⟨⟨?_, row, before, visible, again.1⟩, again.2⟩
  show screen.column - 1 + 2 ≤ columns font
  omega

/-- A line is full if the next character but one has no room. -/
theorem full_iff (fits : Fits font) (column : Nat) :
    ((column + 1 : Nat) + 2 : Int) * font.width > (textWidth : Int) ↔ ¬ column + 3 ≤ columns font := by
  have room : column + 3 ≤ columns font ↔ (column + 3) * font.width ≤ textWidth := Nat.le_div_iff_mul_le fits.wide
  have product : (((column + 3) * font.width : Nat) : Int) = ((column + 1 : Nat) + 2 : Int) * font.width :=
    Int.natCast_mul (column + 3) font.width
  rw [room, ← product]
  omega

/-- A character is put on the screen. -/
theorem Tracks.put (fits : Fits font) (tracks : Tracks font screen terminal invalidRect) (chr : UInt8) :
    Tracks font (screen.put (columns font) (rows font) chr) (terminalPutBackend font terminal invalidRect chr).1
      (terminalPutBackend font terminal invalidRect chr).2 := by
  obtain ⟨⟨column, row, cursorPos, visible, pixels⟩, flushed⟩ := tracks
  have inColumns : screen.column < columns font := by omega
  rw [terminalPutBackend, Screen.put]
  by_cases line : chr = 10
  · rw [if_pos line, if_pos line]
    exact newline_tracks fits pixels flushed inColumns row cursorPos visible
  rw [if_neg line, if_neg line]
  by_cases back : chr = 8
  · have same : terminal.cursorPos.x ≠ 0 ↔ screen.column ≠ 0 := by
      rw [cursorPos]
      exact not_congr Int.natCast_eq_zero
    rw [if_pos back, if_pos back]
    by_cases first : screen.column = 0
    · rw [if_neg (mt same.mp (not_not_intro first)), if_neg (not_not_intro first)]
      exact ⟨⟨column, row, cursorPos, visible, pixels⟩, flushed⟩
    · rw [if_pos (same.mpr first), if_pos first]
      exact Tracks.back fits ⟨⟨column, row, cursorPos, visible, pixels⟩, flushed⟩ first
  rw [if_neg back, if_neg back]
  by_cases none : chr = 0
  · rw [if_pos none, if_pos none]
    exact ⟨⟨column, row, cursorPos, visible, pixels⟩, flushed⟩
  rw [if_neg none, if_neg none]
  have drawn := pixels.char fits inColumns row cursorPos invalidRect none
  have reports := char_reports fits inColumns row flushed.ordered flushed.within terminal chr bright dark rfl
  rw [← cursorPos] at reports
  have pending := flushed.pending reports.1 reports.2.2 reports.2.1 ⟨terminal.cursorPos.x + 1, terminal.cursorPos.y⟩
  have after : (⟨terminal.cursorPos.x + 1, terminal.cursorPos.y⟩ : Point) =
      ⟨(screen.column + 1 : Nat), screen.row⟩ := by
    rw [cursorPos]
    rfl
  have full := full_iff fits screen.column
  rw [show ((screen.column + 1 : Nat) : Int) = terminal.cursorPos.x + 1 from (congrArg Point.x after).symm] at full
  by_cases fitsMore : screen.column + 3 ≤ columns font
  · rw [if_neg fun beyond => full.mp beyond fitsMore, if_pos fitsMore]
    exact ⟨⟨fitsMore, row, after, visible, drawn⟩, pending⟩
  · rw [if_pos (full.mpr fitsMore), if_neg fitsMore]
    exact @newline_tracks font _ { screen.set chr with column := screen.column + 1 } _ fits drawn pending
      (show screen.column + 1 < columns font by omega) row after visible

/-- The characters of a text are put on the screen in turn. -/
theorem Tracks.print (fits : Fits font) (tracks : Tracks font screen terminal invalidRect) (str : List UInt8) :
    Tracks font (str.foldl (Screen.put (columns font) (rows font)) screen)
      (str.foldl (fun put chr => terminalPutBackend font put.1 put.2 chr) (terminal, invalidRect)).1
      (str.foldl (fun put chr => terminalPutBackend font put.1 put.2 chr) (terminal, invalidRect)).2 := by
  induction str generalizing screen terminal invalidRect with
  | nil => exact tracks
  | cons chr later step => exact step (tracks.put fits chr)

/-- The flush at the end changes no pixel of the window. -/
theorem Tracks.finish (tracks : Tracks font screen terminal invalidRect) :
    Tracks font screen (endPut (terminal, invalidRect)) ⟨0, 0, 0, 0⟩ :=
  ⟨⟨tracks.shows.column, tracks.shows.row, tracks.shows.cursorPos, tracks.shows.visible, tracks.shows.pixels⟩,
    tracks.flushed.finish⟩

/-- An empty screen is dark. -/
theorem pixel_empty (font : Psf) (x y : Nat) : Screen.empty.pixel font x y = dark := by
  simp only [Screen.pixel, Screen.empty, Bool.false_eq_true, false_and, if_false, if_true, ite_self]

/-- The client area is inside of itself. -/
theorem clientArea_inside : clientArea.Ordered ∧ clientArea.Within clientArea :=
  ⟨⟨by decide, by decide⟩, Int.le_refl _, Int.le_refl _, Int.le_refl _, Int.le_refl _⟩

/-- What `terminal_clear` draws. -/
def clearGfx (terminal : Terminal) : Gfx :=
  ((winDrawBegin terminal).edge (winDrawBegin terminal).whole edgeWidth shadow highlight).rect innerRect dark

/-- The edges of the client area and what is between them. -/
theorem clear_reports (terminal : Terminal) :
    Reports (winDrawBegin terminal)
      ((winDrawBegin terminal).edge (winDrawBegin terminal).whole edgeWidth shadow highlight) := by
  have whole : (winDrawBegin terminal).whole.Inside (winDrawBegin terminal) :=
    clientArea_inside
  exact whole.edge (surface_surface terminal ⟨0, 0, 0, 0⟩) (by decide : (2 * edgeWidth : Int) ≤ clientArea.width)
    (by decide : (2 * edgeWidth : Int) ≤ clientArea.height) shadow highlight

/-- The whole client area becomes invalid. -/
theorem clear_invalid (terminal : Terminal) : (clearGfx terminal).invalidRect = clientArea := by
  rfl

/-- The text area becomes dark. -/
theorem clear_dark (terminal : Terminal) {x y : Int} (inside : textArea.Contains ⟨x, y⟩) :
    (clearGfx terminal).buffer (cell windowWidth x y) = dark := by
  have reports := clear_reports terminal
  have inner := (reports.inside_iff _).mpr (innerRect_inside terminal ⟨0, 0, 0, 0⟩)
  have painted := rect_paints dark (reports.surface (surface_surface terminal ⟨0, 0, 0, 0⟩)) inner (.inl (by decide))
  exact (painted _).1 ⟨⟨x, y⟩, innerRect_contains inside, by rw [reports.sameStride]; rfl⟩

/-- A terminal whose client area is all drawn, with a dark text area, has an empty screen. -/
theorem Tracks.empty (fits : Fits font) (terminal : Terminal) {gfx : Gfx} (invalid : gfx.invalidRect = clientArea)
    (allDark : ∀ x y, textArea.Contains ⟨x, y⟩ → gfx.buffer (cell windowWidth x y) = dark) :
    Tracks font Screen.empty (winDrawEnd { terminal with cursorVisible := false, cursorPos := ⟨0, 0⟩ } gfx)
      ⟨0, 0, 0, 0⟩ := by
  have wide := fits.columns
  have high := fits.rows
  refine ⟨⟨?_, ?_, rfl, rfl, ?_⟩, noRect_within.1, noRect_within.2, ?_⟩
  · show 0 + 2 ≤ columns font
    omega
  · show 0 < rows font
    omega
  · intro x y inside
    exact (allDark x y inside).trans (pixel_empty font _ _).symm
  · intro x y inside _
    rw [winDrawEnd_flushed (invalid ▸ clientArea_inside.2) inside, invalid]
    exact if_pos inside

/-- A terminal that is cleared has an empty screen. -/
theorem clear_tracks (fits : Fits font) (terminal : Terminal) :
    Tracks font Screen.empty (terminalClear terminal) ⟨0, 0, 0, 0⟩ := by
  have cleared : terminalClear terminal =
      winDrawEnd { terminal with cursorVisible := false, cursorPos := ⟨0, 0⟩ } (clearGfx terminal) := by
    rw [clearGfx, ← shrink_whole terminal]
    rfl
  rw [cleared]
  exact Tracks.empty fits terminal (clear_invalid terminal) fun x y inside => clear_dark terminal inside

end Steps

/-! ## Runs -/

/-- What the terminal can be asked to draw. -/
inductive Operation
  | clear
  | put (chr : UInt8)
  | print (str : List UInt8)
  | blink
  | showCursor

/-- The function of the terminal. -/
def Operation.run (font : Psf) : Operation → Terminal → Terminal
  | clear, terminal => terminalClear terminal
  | put chr, terminal => terminalPut font terminal chr
  | print str, terminal => terminalPrint font terminal str
  | blink, terminal => terminalBlink font terminal
  | showCursor, terminal => terminalShowCursor font terminal

/-- What it does to the screen. -/
def Operation.apply (font : Psf) : Operation → Screen → Screen
  | clear, _ => Screen.empty
  | put chr, screen => screen.put (columns font) (rows font) chr
  | print str, screen => (str.takeWhile (· ≠ 0)).foldl (Screen.put (columns font) (rows font)) screen
  | blink, screen => { screen with visible := !screen.visible }.draw
  | showCursor, screen => { screen with visible := true }.draw

/-- The characters that it puts on the screen are below 128. -/
def Operation.Ascii : Operation → Prop
  | put chr => chr.toNat < 128
  | print str => ∀ chr ∈ str.takeWhile (· ≠ 0), chr.toNat < 128
  | clear | blink | showCursor => True

/-- A font has the glyphs of these characters with all their rows. -/
structure HasAscii (font : Psf) (loaded : Nat) : Prop where
  rows : font.height ≤ font.glyphSize
  glyphs : 128 * font.glyphSize ≤ loaded
  small : loaded < 2 ^ 32

/-- A screen has no other characters. -/
def Screen.Ascii (screen : Screen) : Prop := ∀ row column, (screen.cells row column).toNat < 128

section Characters

variable {font : Psf} {screen : Screen} {loaded : Nat}

/-- The rows of such a character lie in the font. -/
theorem glyph_loaded (has : HasAscii font loaded) {chr : UInt8} (ascii : chr.toNat < 128) {y : Nat}
    (inside : y < font.height) : font.glyph chr + y < loaded := by
  obtain ⟨rows, glyphs, small⟩ := has
  have next : (chr.toNat + 1) * font.glyphSize ≤ 128 * font.glyphSize := Nat.mul_le_mul_right _ ascii
  rw [Nat.succ_mul] at next
  rw [glyph_eq font ascii, Nat.mod_eq_of_lt (by omega)]
  omega

/-- An empty screen has none at all. -/
theorem empty_ascii : Screen.empty.Ascii := fun _ _ => (by decide : (0 : UInt8).toNat < 128)

/-- One more such character. -/
theorem Screen.Ascii.set (held : screen.Ascii) {chr : UInt8} (ascii : chr.toNat < 128) : (screen.set chr).Ascii := by
  intro row column
  simp only [Screen.set]
  split_ifs
  · exact ascii
  · exact held row column

/-- A new line brings no character. -/
theorem Screen.Ascii.newline (held : screen.Ascii) (rows : Nat) : (screen.newline rows).Ascii := by
  have cleared : (screen.set 0).Ascii := held.set (by decide)
  intro row column
  rw [Screen.newline]
  split_ifs
  · exact cleared row column
  · simp only [Screen.scroll]
    split_ifs
    · exact cleared (row + 2) column
    · decide

/-- A character brings at most itself. -/
theorem Screen.Ascii.put (held : screen.Ascii) (columns rows : Nat) {chr : UInt8} (ascii : chr.toNat < 128) :
    (screen.put columns rows chr).Ascii := by
  rw [Screen.put]
  split_ifs with line back first none more
  · exact held.newline rows
  · exact @Screen.Ascii.set { screen.set 0 with column := screen.column - 1 } (held.set (by decide)) _ (by decide)
  · exact held
  · exact held
  · exact held.set ascii
  · exact @Screen.Ascii.newline { screen.set chr with column := screen.column + 1 } (held.set ascii) rows

/-- An operation brings at most its own characters. -/
theorem Screen.Ascii.apply (held : screen.Ascii) (font : Psf) {operation : Operation} (ascii : operation.Ascii) :
    (operation.apply font screen).Ascii := by
  cases operation with
  | clear => exact empty_ascii
  | put chr => exact held.put _ _ ascii
  | print str =>
      rw [Operation.Ascii] at ascii
      rw [Operation.apply]
      generalize str.takeWhile (· ≠ 0) = text at ascii ⊢
      induction text generalizing screen with
      | nil => exact held
      | cons chr later step =>
          exact step (held.put _ _ (ascii chr List.mem_cons_self)) fun chr member => ascii chr (.tail _ member)
  | blink => exact held.set (by decide)
  | showCursor => exact held.set (by decide)

end Characters

section Runs

variable {font : Psf} {terminal : Terminal} {screen : Screen}

/-- The cursor is shown or hidden before it is drawn. -/
theorem Tracks.turn (tracks : Tracks font screen terminal ⟨0, 0, 0, 0⟩) (visible : Bool) :
    Tracks font { screen with visible } { terminal with cursorVisible := visible } ⟨0, 0, 0, 0⟩ :=
  ⟨⟨tracks.shows.column, tracks.shows.row, tracks.shows.cursorPos, rfl, tracks.shows.pixels⟩,
    tracks.flushed.ordered, tracks.flushed.within, tracks.flushed.same⟩

/-- Every function does to the window what it does to the screen. -/
theorem Tracks.run (fits : Fits font) (tracks : Tracks font screen terminal ⟨0, 0, 0, 0⟩) (operation : Operation) :
    Tracks font (operation.apply font screen) (operation.run font terminal) ⟨0, 0, 0, 0⟩ := by
  cases operation with
  | clear => exact clear_tracks fits terminal
  | put chr => exact (tracks.put fits chr).finish
  | print str => exact (tracks.print fits _).finish
  | blink =>
      rw [Operation.run, terminalBlink, tracks.shows.visible]
      exact (tracks.turn (!screen.visible)).draw fits
  | showCursor => exact (tracks.turn true).draw fits

/-- After the terminal is cleared, whatever it draws with characters that its font has, the text
area shows the text screen to which the same was done, and the cursor has room. Every character of
that screen has its glyph in the font, and the window manager has the pixels of the window. Each
operation keeps this, and the clear at the beginning makes it so. -/
theorem screen_shown (fits : Fits font) {loaded : Nat} (has : HasAscii font loaded) (terminal : Terminal)
    (operations : List Operation) (ascii : ∀ operation ∈ operations, operation.Ascii) :
    Shows font (operations.foldl (fun screen operation => operation.apply font screen) Screen.empty)
        (operations.foldl (fun terminal operation => operation.run font terminal) (terminalClear terminal)) ∧
      (∀ row column y, y < font.height →
        font.glyph ((operations.foldl (fun screen operation => operation.apply font screen) Screen.empty).cells
          row column) + y < loaded) ∧
      ∀ x y, clientArea.Contains ⟨x, y⟩ →
        (operations.foldl (fun terminal operation => operation.run font terminal)
            (terminalClear terminal)).flushed (cell windowWidth x y) =
          (operations.foldl (fun terminal operation => operation.run font terminal)
            (terminalClear terminal)).buffer (cell windowWidth x y) := by
  have drawn : ∀ screen terminal, Tracks font screen terminal ⟨0, 0, 0, 0⟩ → screen.Ascii →
      Tracks font (operations.foldl (fun screen operation => operation.apply font screen) screen)
        (operations.foldl (fun terminal operation => operation.run font terminal) terminal) ⟨0, 0, 0, 0⟩ ∧
      (operations.foldl (fun screen operation => operation.apply font screen) screen).Ascii := by
    induction operations with
    | nil => exact fun _ _ tracks held => ⟨tracks, held⟩
    | cons operation later step =>
        have rest := step fun operation member => ascii operation (.tail _ member)
        exact fun _ _ tracks held =>
          rest _ _ (tracks.run fits operation) (held.apply font (ascii operation List.mem_cons_self))
  obtain ⟨⟨shows, flushed⟩, held⟩ := drawn _ _ (clear_tracks fits terminal) empty_ascii
  refine ⟨shows, fun row column y inside => glyph_loaded has (held row column) inside,
    fun x y inside => flushed.same x y inside ?_⟩
  rintro ⟨begins, ends, _⟩
  simp only at begins ends
  omega

end Runs

/-- A font of 8 by 16 pixels with 256 glyphs. -/
def blockFont : Psf := ⟨8, 16, 16, fun _ => 0xFF⟩

/-- It fits. -/
theorem blockFont_fits : Fits blockFont := ⟨by decide, by decide, by decide, by decide⟩

/-- It has the characters. -/
theorem blockFont_ascii : HasAscii blockFont 4096 := ⟨by decide, by decide, by decide⟩

/-- A terminal whose buffers are black. -/
def blackTerminal : Terminal := ⟨fun _ => 0, fun _ => 0, ⟨0, 0⟩, false⟩

/-- Two letters have glyphs. -/
theorem letters_ascii : (Operation.print [65, 66]).Ascii := by
  intro chr member
  have typed : chr ∈ [65, 66] := (List.takeWhile_prefix _).subset member
  simp only [List.mem_cons, List.not_mem_nil, or_false] at typed
  rcases typed with rfl | rfl
  · decide
  · decide

/-- Two letters that are put on the screen, and the cursor behind them. -/
theorem screen_shown_letters : Fits blockFont ∧ HasAscii blockFont 4096 ∧
    (Operation.run blockFont (.print [65, 66]) (terminalClear blackTerminal)).cursorPos = ⟨2, 0⟩ :=
  ⟨blockFont_fits, blockFont_ascii,
    (screen_shown blockFont_fits blockFont_ascii blackTerminal [.print [65, 66]]
      (List.forall_mem_singleton.mpr letters_ascii)).1.cursorPos⟩

end Asym.TerminalScreen
