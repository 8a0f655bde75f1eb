import Asym.EventRuns
import Asym.Folds
import Asym.Graphics
import Mathlib.Logic.Function.Basic

/-!
# The window manager

A model of `dwm.c` and `window.c`. The manager keeps a list of windows and panels
from the lowest to the highest, and pointers to the selected window, to the cursor
and to the wall. A window is an address in a heap; a freed window stays in memory as
it was until its address is given to a new one.

Requests, mouse events and draw passes hold the lock of the manager and are single
steps. Moving a window does not hold it, and for a panel the client rectangle is
updated later, in a step of its own.

The screen is drawn into the back buffer. Each copy of pixels into it is recorded.
The front buffer, the blocking of the manager's thread and the messages that clients
send to their own windows are left out. Coordinates are unbounded integers, where the
source has 64 bits.
-/

namespace Asym.Dwm

open Graphics Folds

/-- `dwm_type_t`. A request for a `DWM_FULLSCREEN` window stops the kernel. -/
inductive DwmType where
  | window
  | panel
  | cursor
  | wall
  deriving DecidableEq, Repr

/-- The messages that the manager pushes to windows. -/
inductive Message where
  | select
  | deselect
  | mouse (held pressed released : BitVec 32) (pos delta : Point)
  | kbd (type code mods : Nat)
  deriving DecidableEq, Repr

/-- `window_t`. Of the message queue it has the messages pushed so far. -/
structure Window where
  pos : Point
  gfx : Gfx
  type : DwmType
  invalid : Bool
  moved : Bool
  prevRect : Rect
  messages : List Message

/-- The mode of the screen, with the pixels that its buffers have room for. -/
structure Screen where
  width : Nat
  height : Nat
  stride : Nat
  capacity : Nat
  wide : 0 < width ∧ width < 2 ^ 31
  high : 0 < height ∧ height < 2 ^ 31
  rows : width ≤ stride
  room : stride * height ≤ capacity

/-- A copy into the back buffer: the rectangle, the point of the source it starts at,
and the stride and the room of the source. -/
structure Copy where
  rect : Rect
  point : Point
  stride : Nat
  capacity : Nat
  deriving DecidableEq, Repr

/-- The heap with the addresses in use, the globals of the manager, and the copies
made. -/
structure State where
  heap : Nat → Window
  live : Nat → Bool
  windows : List Nat
  selected : Option Nat
  cursor : Option Nat
  wall : Option Nat
  clientRect : Rect
  back : Int → Pixel
  oldButtons : BitVec 32
  copies : List Copy

/-- `WINDOW_RECT`. -/
def Window.rect (window : Window) : Rect :=
  rectInitDim window.pos.x window.pos.y window.gfx.width window.gfx.height

/-- `WINDOW_INVALID_RECT`. -/
def Window.invalidRect (window : Window) : Rect :=
  rectInitDim (window.pos.x + window.gfx.invalidRect.left) (window.pos.y + window.gfx.invalidRect.top)
    window.gfx.invalidRect.width window.gfx.invalidRect.height

/-- `screenRect`. -/
def Screen.rect (screen : Screen) : Rect :=
  ⟨0, 0, screen.width, screen.height⟩

/-- Change a window in the heap. -/
def State.modify (state : State) (id : Nat) (change : Window → Window) : State :=
  { state with heap := Function.update state.heap id (change (state.heap id)) }

/-- Push a message to a window. -/
def Window.push (message : Message) (window : Window) : Window :=
  { window with messages := window.messages ++ [message] }

/-- Mark a window as moved. -/
def Window.markMoved (window : Window) : Window :=
  { window with moved := true }

variable (screen : Screen)

/-- Push a message to the selected window, if there is one. -/
def tellSelected (state : State) (message : Message) : State :=
  match state.selected with
  | none => state
  | some id => state.modify id (Window.push message)

/-- `dwm_select`. -/
def dwmSelect (state : State) (target : Option Nat) : State :=
  if state.selected = target then state
  else
    let deselected := tellSelected state .deselect
    match target with
    | none => { deselected with selected := none }
    | some id =>
        { deselected.modify id fun window => (window.push .select).markMoved with
          windows := deselected.windows.erase id ++ [id]
          selected := some id }

/-- A conversion to `uint64_t`. -/
def toWord (value : Int) : Nat :=
  (value % 2 ^ 64).toNat

/-- What one window does to the client rectangle in `dwm_update_client_rect`. A panel
takes the edge of the screen that it is closest to. -/
def panelRect (window : Window) (rect : Rect) : Rect :=
  if window.type ≠ .panel then rect
  else
    let leftDist := toWord (window.pos.x + window.gfx.width)
    let topDist := toWord (window.pos.y + window.gfx.height)
    let rightDist := toWord (screen.width - window.pos.x)
    let bottomDist := toWord (screen.height - window.pos.y)
    if leftDist ≤ topDist ∧ leftDist ≤ rightDist ∧ leftDist ≤ bottomDist then
      { rect with left := max (window.pos.x + window.gfx.width) rect.left }
    else if topDist ≤ leftDist ∧ topDist ≤ rightDist ∧ topDist ≤ bottomDist then
      { rect with top := max (window.pos.y + window.gfx.height) rect.top }
    else if rightDist ≤ leftDist ∧ rightDist ≤ topDist ∧ rightDist ≤ bottomDist then
      { rect with right := min window.pos.x rect.right }
    else if bottomDist ≤ leftDist ∧ bottomDist ≤ topDist ∧ bottomDist ≤ rightDist then
      { rect with bottom := min window.pos.y rect.bottom }
    else rect

/-- The client rectangle that `dwm_update_client_rect` computes. -/
def newClientRect (state : State) : Rect :=
  state.windows.foldl (fun rect id => panelRect screen (state.heap id) rect) screen.rect

/-- Mark windows as moved. -/
def markAllMoved (state : State) (ids : List Nat) : State :=
  ids.foldl (fun state id => state.modify id Window.markMoved) state

/-- `dwm_update_client_rect`. -/
def dwmUpdateClientRect (state : State) : State :=
  { markAllMoved state state.windows with clientRect := newClientRect screen state }

/-- `gfx_transfer` to the back buffer. -/
def transfer (state : State) (source : Gfx) (rect : Rect) (point : Point) : State :=
  { state with
    back := gfxTransfer state.back screen.stride source.buffer source.stride rect point
    copies := ⟨rect, point, source.stride, source.capacity⟩ :: state.copies }

/-- `gfx_transfer_blend` to the back buffer. -/
def transferBlend (state : State) (source : Gfx) (rect : Rect) (point : Point) : State :=
  { state with
    back := gfxTransferBlend state.back screen.stride source.buffer source.stride rect point
    copies := ⟨rect, point, source.stride, source.capacity⟩ :: state.copies }

/-- The rectangle that a window is clipped to. -/
def fitRect (state : State) (id : Nat) : Rect :=
  if (state.heap id).type = .window then state.clientRect else screen.rect

/-- `dwm_transfer`. -/
def dwmTransfer (state : State) (id : Nat) (rect : Rect) : State :=
  transfer screen state (state.heap id).gfx rect
    ⟨rect.left - (state.heap id).pos.x, rect.top - (state.heap id).pos.y⟩

/-- The wall in `dwm_redraw_others`, drawn from its first pixel on. Without a wall the
source is at `NULL`, where there is no room for a pixel. -/
def redrawWall (state : State) (rect : Rect) : State :=
  match state.wall with
  | none => { state with copies := ⟨rect, ⟨0, 0⟩, 0, 0⟩ :: state.copies }
  | some wall => transfer screen state (state.heap wall).gfx rect ⟨0, 0⟩

/-- Another window in `dwm_redraw_others`. -/
def redrawOther (window : Nat) (rect : Rect) (state : State) (other : Nat) : State :=
  if other = window then state
  else if rect.Overlaps (state.heap other).rect then
    dwmTransfer screen state other ((rect.fit (state.heap other).rect).fit (fitRect screen state other))
  else state

/-- `dwm_redraw_others`. -/
def dwmRedrawOthers (state : State) (window : Nat) (rect : Rect) : State :=
  state.windows.foldl (redrawOther screen window rect) (redrawWall screen state rect)

/-- The windows after one in the list. -/
def above (windows : List Nat) (id : Nat) : List Nat :=
  (windows.dropWhile (· ≠ id)).tail

/-- Another window in `dwm_invalidate_above`. -/
def invalidateOther (rect : Rect) (state : State) (other : Nat) : State :=
  let otherRect := (state.heap other).rect
  if rect.Overlaps otherRect then
    let fitted := rect.fit otherRect
    state.modify other fun window => { window with
      invalid := true
      gfx := { window.gfx with
        invalidRect := gfxInvalidate window.gfx.invalidRect
          ⟨fitted.left - otherRect.left, fitted.top - otherRect.top, fitted.right - otherRect.left,
            fitted.bottom - otherRect.top⟩ } }
  else state

/-- `dwm_invalidate_above`. -/
def dwmInvalidateAbove (state : State) (window : Nat) (rect : Rect) : State :=
  (above state.windows window).foldl (invalidateOther rect) state

/-- Neither invalid nor moved. -/
def Window.clean (window : Window) : Window :=
  { window with invalid := false, moved := false }

/-- `dwm_draw_wall`. -/
def dwmDrawWall (state : State) (wall : Nat) : State :=
  if !(state.heap wall).invalid && !(state.heap wall).moved then state
  else
    markAllMoved (dwmTransfer screen (state.modify wall Window.clean) wall
      ((state.heap wall).rect.fit state.clientRect)) state.windows

/-- The end of an iteration of `dwm_draw_windows`: draw a part of a window and
invalidate what lies above it. -/
def drawRect (state : State) (id : Nat) (rect : Rect) : State :=
  (dwmInvalidateAbove (dwmTransfer screen state id rect) id rect).modify id fun window =>
    { window with gfx := { window.gfx with invalidRect := ⟨0, 0, 0, 0⟩ } }

/-- The part of a window that is drawn. -/
def clip (state : State) (id : Nat) : Rect :=
  (state.heap id).rect.fit (fitRect screen state id)

/-- A moved window exposes its whole previous rectangle, once for each piece of it that
the window does not cover any more. -/
def expose (state : State) (id : Nat) : State :=
  ((state.heap id).prevRect.subtract (clip screen state id)).foldl
    (fun drawn _ => dwmRedrawOthers screen drawn id (state.heap id).prevRect) state

/-- A moved window is settled at a rectangle. -/
def Window.settle (rect : Rect) (window : Window) : Window :=
  { window with moved := false, invalid := false, prevRect := rect }

/-- An iteration of `dwm_draw_windows`. -/
def drawWindow (state : State) (id : Nat) : State :=
  if (state.heap id).moved then
    drawRect screen ((expose screen state id).modify id (Window.settle (clip screen state id))) id
      (clip screen state id)
  else if (state.heap id).invalid then
    drawRect screen (state.modify id fun window => { window with invalid := false }) id
      ((state.heap id).invalidRect.fit (fitRect screen state id))
  else state

/-- `dwm_draw_windows`. -/
def dwmDrawWindows (state : State) : State :=
  state.windows.foldl (drawWindow screen) state

/-- `dwm_draw_cursor`. -/
def dwmDrawCursor (state : State) (cursor : Nat) : State :=
  transferBlend screen state (state.heap cursor).gfx ((state.heap cursor).rect.fit screen.rect) ⟨0, 0⟩

/-- The draw pass of `dwm_loop` without the cursor. -/
def drawPass (state : State) : State :=
  match state.wall with
  | none => state
  | some wall => dwmDrawWindows screen (dwmDrawWall screen state wall)

/-- An iteration of `dwm_loop` up to `dwm_swap`. -/
def dwmLoop (state : State) : State :=
  match state.wall, state.cursor with
  | none, _ => state
  | some _, none => drawPass screen state
  | some _, some cursor => dwmDrawCursor screen (drawPass screen state) cursor

/-- `dwm_window_under_point`. -/
def dwmWindowUnderPoint (state : State) (point : Point) : Option Nat :=
  state.windows.reverse.find? fun id => (state.heap id).rect.Contains point

/-- The motion in `dwm_handle_mouse_message`. -/
def moveCursor (state : State) (cursor : Nat) (delta : Point) : State :=
  if delta.x ≠ 0 ∨ delta.y ≠ 0 then
    let redrawn := dwmRedrawOthers screen state cursor ((state.heap cursor).rect.fit screen.rect)
    let placed := redrawn.modify cursor fun window => { window with
      pos := ⟨clamp (window.pos.x + delta.x) 0 (screen.width - 1),
        clamp (window.pos.y + delta.y) 0 (screen.height - 1)⟩ }
    dwmDrawCursor screen placed cursor
  else state

/-- The selection in `dwm_handle_mouse_message`, by the first button that is pressed. -/
def pressAt (state : State) (pressed : BitVec 32) (pos : Point) : State :=
  if pressed ≠ 0 ∧ state.oldButtons = 0 then dwmSelect state (dwmWindowUnderPoint state pos) else state

/-- `dwm_handle_mouse_message`. -/
def dwmHandleMouseMessage (state : State) (cursor : Nat) (buttons : BitVec 32) (delta : Point) : State :=
  let pressed := buttons &&& ~~~state.oldButtons
  let released := state.oldButtons &&& ~~~buttons
  let oldPos := (state.heap cursor).pos
  let placed := moveCursor screen state cursor delta
  let pos := (placed.heap cursor).pos
  let chosen := pressAt placed pressed pos
  { tellSelected chosen (.mouse buttons pressed released pos ⟨pos.x - oldPos.x, pos.y - oldPos.y⟩) with
    oldButtons := buttons }

/-- `dwm_poll_keyboard`, with a key event. -/
def dwmPollKeyboard (state : State) (type code mods : Nat) : State :=
  tellSelected state (.kbd type code mods)

/-- `window_new`. The number of pixels is a product of 32 bits. -/
def windowNew (pos : Point) (width height : Nat) (type : DwmType) : Window where
  pos := pos
  gfx := {
    buffer := fun _ => 0
    capacity := width * height % 2 ^ 32
    width := width
    height := height
    stride := width
    invalidRect := rectInitDim 0 0 width height }
  type := type
  invalid := false
  moved := true
  prevRect := rectInitDim 0 0 0 0
  messages := []

/-- The error of a request that is not done. -/
inductive Errno where
  | eexist
  | ebuffer
  | einval
  deriving DecidableEq, Repr

/-- `window_free`. -/
def windowFree (state : State) (id : Nat) : State :=
  { state with live := Function.update state.live id false }

/-- `IOCTL_DWM_CREATE` of `dwm_ioctl`, with the address of the new window. A second
cursor or wall is freed again. -/
def dwmCreate (state : State) (id : Nat) (pos : Point) (width height : Nat) (type : DwmType) :
    State × Option Errno :=
  let created := { state with
    heap := Function.update state.heap id (windowNew pos width height type)
    live := Function.update state.live id true }
  match type with
  | .window => (dwmSelect { created with windows := created.windows ++ [id] } (some id), none)
  | .panel =>
      (dwmSelect (dwmUpdateClientRect screen { created with windows := created.windows ++ [id] })
        (some id), none)
  | .cursor =>
      if created.cursor.isSome then (windowFree created id, some .eexist)
      else ({ created with cursor := some id }, none)
  | .wall =>
      if created.wall.isSome then (windowFree created id, some .eexist)
      else ({ created with wall := some id }, none)

/-- `dwm_window_cleanup`. -/
def dwmWindowCleanup (state : State) (id : Nat) : State :=
  let unselected := if state.selected = some id then { state with selected := none } else state
  let removed := match (state.heap id).type with
    | .window => { unselected with windows := unselected.windows.erase id }
    | .panel => dwmUpdateClientRect screen { unselected with windows := unselected.windows.erase id }
    | .cursor => { unselected with cursor := none }
    | .wall => { unselected with wall := none }
  match removed.wall with
  | none => removed
  | some wall => removed.modify wall Window.markMoved

/-- The end of `dwm_window_cleanup`: the wall is moved, if there is one. -/
def markWall (state : State) : State :=
  match state.wall with
  | none => state
  | some wall => state.modify wall Window.markMoved

/-- `window_cleanup`. -/
def windowCleanup (state : State) (id : Nat) : State :=
  windowFree (dwmWindowCleanup screen state id) id

/-- `IOCTL_WINDOW_MOVE` of `window_ioctl`, up to the update of the client rectangle.
A new buffer holds what its memory held. -/
def windowMove (state : State) (id : Nat) (pos : Point) (width height : Nat) (memory : Int → Pixel) :
    State :=
  state.modify id fun window =>
    { window with
      pos := pos
      gfx :=
        if window.gfx.width ≠ width ∨ window.gfx.height ≠ height then
          { window.gfx with
            buffer := memory
            capacity := width * height % 2 ^ 32
            width := width
            height := height
            stride := width }
        else window.gfx
      moved := true }

/-- `window_flush`. A pixel has four bytes. -/
def windowFlush (state : State) (id : Nat) (buffer : Int → Pixel) (size : Nat) (rect : Rect) :
    State × Option Errno :=
  let gfx := (state.heap id).gfx
  if size ≠ gfx.width * gfx.height % 2 ^ 32 * 4 then (state, some .ebuffer)
  else if rect.left > rect.right ∨ rect.top > rect.bottom ∨ rect.right > gfx.width ∨
      rect.bottom > gfx.height then (state, some .einval)
  else
    (state.modify id fun window => { window with
      gfx := { window.gfx with
        buffer := gfxTransfer gfx.buffer gfx.stride buffer gfx.stride rect ⟨rect.left, rect.top⟩
        invalidRect := gfxInvalidate gfx.invalidRect rect }
      invalid := true }, none)

/-- Requests, closes, the update of the client rectangle after a panel has moved,
input, a selection by itself, and draw passes. -/
inductive Event where
  | create (id : Nat) (pos : Point) (width height : Nat) (type : DwmType)
  | close (id : Nat)
  | move (id : Nat) (pos : Point) (width height : Nat) (memory : Int → Pixel)
  | updateClientRect
  | flush (id : Nat) (buffer : Int → Pixel) (size : Nat) (rect : Rect)
  | mouse (buttons : BitVec 32) (delta : Point)
  | keyboard (type code mods : Nat)
  | select (point : Point)
  | draw

/-- What an event does, if it can happen. A new window has an address that is not in
use, and requests to a window come through its open file. -/
def step (state : State) : Event → Option State
  | .create id pos width height type =>
      if state.live id then none else some (dwmCreate screen state id pos width height type).1
  | .close id => if state.live id then some (windowCleanup screen state id) else none
  | .move id pos width height memory =>
      if state.live id then some (windowMove state id pos width height memory) else none
  | .updateClientRect => some (dwmUpdateClientRect screen state)
  | .flush id buffer size rect =>
      if state.live id then some (windowFlush state id buffer size rect).1 else none
  | .mouse buttons delta =>
      some (match state.cursor with
        | none => state
        | some cursor => dwmHandleMouseMessage screen state cursor buttons delta)
  | .keyboard type code mods => some (dwmPollKeyboard state type code mods)
  | .select point => some (dwmSelect state (dwmWindowUnderPoint state point))
  | .draw => some (dwmLoop screen state)

/-- After `dwm_init`. -/
def initial (memory : Nat → Window) (back : Int → Pixel) : State where
  heap := memory
  live := fun _ => false
  windows := []
  selected := none
  cursor := none
  wall := none
  clientRect := screen.rect
  back := back
  oldButtons := 0
  copies := []

/-- A screen of four by three pixels. -/
def smallScreen : Screen := ⟨4, 3, 4, 12, by decide, by decide, by decide, by decide⟩

/-- A memory of empty windows. -/
def blankMemory : Nat → Window := fun _ => windowNew ⟨0, 0⟩ 0 0 .window

/-- Changing a window, seen at that window. -/
@[simp] theorem State.modify_self (state : State) (id : Nat) (change : Window → Window) :
    (state.modify id change).heap id = change (state.heap id) :=
  Function.update_self ..

/-- Changing a window, seen at another one. -/
theorem State.modify_of_ne (state : State) {id other : Nat} (change : Window → Window)
    (different : other ≠ id) : (state.modify id change).heap other = state.heap other :=
  Function.update_of_ne different ..

/-- Nothing but the back buffer and the record of copies differs. -/
def OnlyDraws (before after : State) : Prop :=
  after = { before with back := after.back, copies := after.copies }

instance : IsPreorder State OnlyDraws where
  refl _ := rfl
  trans before between after first second := by
    rw [OnlyDraws] at *
    rw [second, first]

/-- Another window in `dwm_redraw_others` is drawn, and nothing else. -/
theorem redrawOther_onlyDraws (window : Nat) (rect : Rect) (state : State) (other : Nat) :
    OnlyDraws state (redrawOther screen window rect state other) := by
  rw [redrawOther]
  split
  · rfl
  · split
    · rfl
    · rfl

/-- `dwm_redraw_others` draws, and nothing else. -/
theorem dwmRedrawOthers_onlyDraws (state : State) (window : Nat) (rect : Rect) :
    OnlyDraws state (dwmRedrawOthers screen state window rect) := by
  have wallDrawn : OnlyDraws state (redrawWall screen state rect) := by
    rw [redrawWall]
    split
    · rfl
    · rfl
  apply trans_of OnlyDraws wallDrawn
  apply foldl_related
  intro other _ before
  exact redrawOther_onlyDraws screen window rect before other

/-- Exposing a rectangle draws, and nothing else. -/
theorem expose_onlyDraws (state : State) (id : Nat) : OnlyDraws state (expose screen state id) := by
  apply foldl_related
  intro _ _ before
  exact dwmRedrawOthers_onlyDraws screen before id _

end Asym.Dwm
