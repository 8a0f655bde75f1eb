import Asym.TerminalScreen
import Mathlib.Data.List.Chain

/-!
# Windows that are dragged

The client of a decorated window, and the messages of the mouse that it is given. It moves the window
while it is dragged by its top bar, and asks for `LMSG_QUIT` when its close button is released.

A message tells where the pointer is and by how much it moved. Between a press and its release the
messages leave nothing out: each tells the place that the one before told, moved by its delta. Then the
pointer stays at the point of the window at which it was grabbed. It is grabbed on the top bar beside
the close button, and the left button is held until it is let go.

Drawing is left out, and so is the `LMSG_QUIT` that `win_background_procedure` sends itself when a flush
is refused.
-/

namespace Asym.WindowDrags

open Graphics
open TerminalScreen (edgeWidth padding)

/-! ## The client -/

/-- `winTheme.topbarHeight`. -/
def topbarHeight : Nat := 40

/-- `MOUSE_LEFT`. -/
def mouseLeft : BitVec 32 := 1 <<< 2

/-- `msg_mouse_t`. -/
structure MsgMouse where
  held : BitVec 32
  pressed : BitVec 32
  released : BitVec 32
  pos : Point
  delta : Point
deriving DecidableEq, Repr

/-- The fields of `win_t` that the mouse reads and changes. -/
structure Win where
  pos : Point
  width : Nat
  height : Nat
  moving : Bool
  closeButtonPressed : Bool
deriving DecidableEq, Repr

/-- `win_topbar_rect`. The width has 32 bits. -/
def winTopbarRect (window : Win) : Rect where
  left := edgeWidth + padding
  top := edgeWidth + padding
  right := ((window.width : Int) - edgeWidth - padding) % 2 ^ 32
  bottom := topbarHeight + edgeWidth - padding

/-- `win_close_button_rect`. -/
def winCloseButtonRect (window : Win) : Rect :=
  let rect := (winTopbarRect window).shrink edgeWidth
  { rect with left := rect.right - (rect.bottom - rect.top) }

/-- `win_screen_to_window`. -/
def winScreenToWindow (window : Win) (point : Point) : Point :=
  ⟨point.x - window.pos.x, point.y - window.pos.y⟩

/-- `win_set_rect`, without the client rectangle. -/
def winSetRect (window : Win) (rect : Rect) : Win :=
  { window with
    pos := ⟨rect.left, rect.top⟩
    width := (rect.width % 2 ^ 32).toNat
    height := (rect.height % 2 ^ 32).toNat }

/-- What the client asks the manager for: `IOCTL_WINDOW_MOVE`, or to send it `LMSG_QUIT`. -/
inductive Request where
  | move (pos : Point) (width height : Nat)
  | quit
deriving DecidableEq, Repr

/-- `win_move`, where the size stays. The manager refuses no request of the right size. -/
def winMove (window : Win) (rect : Rect) : Win × Request :=
  (winSetRect window rect,
    .move ⟨rect.left, rect.top⟩ (rect.width % 2 ^ 32).toNat (rect.height % 2 ^ 32).toNat)

/-- `win_handle_drag_and_close_button`, without drawing. -/
def winHandleDragAndCloseButton (window : Win) (data : MsgMouse) : Win × Option Request :=
  let topBar := winTopbarRect window
  let closeButton := winCloseButtonRect window
  let mousePos := winScreenToWindow window data.pos
  if window.moving then
    let rect := rectInitDim (window.pos.x + data.delta.x) (window.pos.y + data.delta.y) window.width window.height
    let moved := winMove window rect
    (if data.held &&& mouseLeft = 0 then { moved.1 with moving := false } else moved.1, some moved.2)
  else if window.closeButtonPressed then
    if ¬closeButton.Contains mousePos then ({ window with closeButtonPressed := false }, none)
    else if data.released &&& mouseLeft ≠ 0 then (window, some .quit)
    else (window, none)
  else if topBar.Contains mousePos ∧ data.pressed &&& mouseLeft ≠ 0 then
    if closeButton.Contains mousePos then ({ window with closeButtonPressed := true }, none)
    else ({ window with moving := true }, none)
  else (window, none)

/-- Moving a window by a motion keeps its size. -/
theorem winMove_eq {window : Win} (wide : window.width < 2 ^ 32) (high : window.height < 2 ^ 32) (x y : Int) :
    winMove window (rectInitDim x y window.width window.height) =
      ({ window with pos := ⟨x, y⟩ }, .move ⟨x, y⟩ window.width window.height) := by
  have width : ((rectInitDim x y window.width window.height).width % 2 ^ 32).toNat = window.width := by
    simp only [rectInitDim, Rect.width]
    omega
  have height : ((rectInitDim x y window.width window.height).height % 2 ^ 32).toNat = window.height := by
    simp only [rectInitDim, Rect.height]
    omega
  rw [winMove, winSetRect, width, height]
  rfl

/-- What the client does with a message while the window is dragged: it moves it, and lets it go when
the left button is not held. -/
theorem drag_moving {window : Win} (moving : window.moving = true) (wide : window.width < 2 ^ 32)
    (high : window.height < 2 ^ 32) (data : MsgMouse) :
    winHandleDragAndCloseButton window data =
      ({ window with
          pos := ⟨window.pos.x + data.delta.x, window.pos.y + data.delta.y⟩
          moving := decide (data.held &&& mouseLeft ≠ 0) },
        some (.move ⟨window.pos.x + data.delta.x, window.pos.y + data.delta.y⟩ window.width window.height)) := by
  simp only [winHandleDragAndCloseButton, moving, if_true, winMove_eq wide high]
  split_ifs with up
  · rw [decide_eq_false (not_not_intro up)]
  · rw [decide_eq_true up]

/-- What the client does with a message while the window is not dragged: the pointer leaves the close
button, or it is released or held there; the close button is pressed, or the top bar beside it; or
nothing happens. -/
inductive Rests (window : Win) (data : MsgMouse) : Win × Option Request → Prop where
  | leaves (pressed : window.closeButtonPressed = true)
      (outside : ¬(winCloseButtonRect window).Contains (winScreenToWindow window data.pos)) :
      Rests window data ({ window with closeButtonPressed := false }, none)
  | quits (pressed : window.closeButtonPressed = true)
      (inside : (winCloseButtonRect window).Contains (winScreenToWindow window data.pos))
      (released : data.released &&& mouseLeft ≠ 0) : Rests window data (window, some .quit)
  | holds (inside : (winCloseButtonRect window).Contains (winScreenToWindow window data.pos)) :
      Rests window data (window, none)
  | presses (down : data.pressed &&& mouseLeft ≠ 0)
      (inside : (winCloseButtonRect window).Contains (winScreenToWindow window data.pos)) :
      Rests window data ({ window with closeButtonPressed := true }, none)
  | grabs (free : window.closeButtonPressed = false) (down : data.pressed &&& mouseLeft ≠ 0)
      (onBar : (winTopbarRect window).Contains (winScreenToWindow window data.pos))
      (beside : ¬(winCloseButtonRect window).Contains (winScreenToWindow window data.pos)) :
      Rests window data ({ window with moving := true }, none)
  | passes (free : window.closeButtonPressed = false) : Rests window data (window, none)

/-- The client does one of these things. -/
theorem drag_resting {window : Win} (resting : window.moving = false) (data : MsgMouse) :
    Rests window data (winHandleDragAndCloseButton window data) := by
  have idle : ¬window.moving = true := Bool.eq_false_iff.mp resting
  rw [winHandleDragAndCloseButton]
  dsimp only
  rw [if_neg idle]
  by_cases pressed : window.closeButtonPressed = true
  · rw [if_pos pressed]
    by_cases inside : (winCloseButtonRect window).Contains (winScreenToWindow window data.pos)
    · rw [if_neg (not_not_intro inside)]
      split_ifs with released
      · exact .quits pressed inside released
      · exact .holds inside
    · rw [if_pos inside]
      exact .leaves pressed inside
  · rw [if_neg pressed]
    have free := Bool.eq_false_iff.mpr pressed
    split_ifs with onBar inside
    · exact .presses onBar.2 inside
    · exact .grabs free onBar.2 onBar.1 inside
    · exact .passes free

/-! ## Runs -/

/-- The client with what it asked the manager for. Beside them, the point at which the window was
grabbed. -/
structure Client where
  win : Win
  requests : List Request
  grab : Point

/-- `win_handle_drag_and_close_button`, for the client of a window. -/
def Client.handle (client : Client) (data : MsgMouse) : Client where
  win := (winHandleDragAndCloseButton client.win data).1
  requests := client.requests ++ (winHandleDragAndCloseButton client.win data).2.toList
  grab := if client.win.moving then client.grab else winScreenToWindow client.win data.pos

/-- The client of a new window. -/
def start (pos : Point) (width height : Nat) : Client := ⟨⟨pos, width, height, false, false⟩, [], ⟨0, 0⟩⟩

/-- The client handles messages in their order. -/
def Client.handleAll (client : Client) (messages : List MsgMouse) : Client := messages.foldl Client.handle client

/-- The rectangle at which the manager has a window, after what its client asked for. -/
def asked (rect : Rect) (requests : List Request) : Rect :=
  requests.foldl (fun rect request => match request with
    | .move pos width height => rectInitDim pos.x pos.y width height
    | .quit => rect) rect

/-- The pointer moved from one message to the next, or it was let go before. -/
def Follows (message next : MsgMouse) : Prop :=
  message.held = 0 ∨ next.pos = ⟨message.pos.x + next.delta.x, message.pos.y + next.delta.y⟩

/-- Messages as `dwm_handle_mouse_message` sends them to the selected window: they follow each other, and
what is pressed is held. -/
structure Sent (messages : List MsgMouse) : Prop where
  linked : messages.IsChain Follows
  pressed : ∀ message ∈ messages, message.pressed &&& mouseLeft ≠ 0 → message.held &&& mouseLeft ≠ 0

/-- Messages from a press of the left button on, all with the pointer on the close button. -/
structure Click (window : Win) (messages : List MsgMouse) : Prop where
  press : ∃ first ∈ messages.head?, first.pressed &&& mouseLeft ≠ 0
  stays : ∀ message ∈ messages, (winCloseButtonRect window).Contains (winScreenToWindow window message.pos)

/-- The manager was asked to have the window where its client takes it to be, and while its close button
is pressed the pointer stayed on it since. -/
structure Sound (rect : Rect) (seen : List MsgMouse) (client : Client) : Prop where
  placed : asked rect client.requests =
    rectInitDim client.win.pos.x client.win.pos.y client.win.width client.win.height
  wide : client.win.width < 2 ^ 32
  high : client.win.height < 2 ^ 32
  apart : client.win.moving = true → client.win.closeButtonPressed = false
  clicked : client.win.closeButtonPressed = true → ∃ messages, messages <:+ seen ∧ Click client.win messages

/-- While the window is dragged, the left button is held where the window was grabbed. -/
structure Grabbed (seen : List MsgMouse) (client : Client) : Prop where
  onBar : (winTopbarRect client.win).Contains client.grab
  beside : ¬(winCloseButtonRect client.win).Contains client.grab
  follows : ∃ last, seen.getLast? = some last ∧ last.held &&& mouseLeft ≠ 0 ∧
    last.pos = ⟨client.win.pos.x + client.grab.x, client.win.pos.y + client.grab.y⟩

variable {rect : Rect} {seen : List MsgMouse} {client : Client} {data : MsgMouse}

/-- The pointer stays on the close button for one message more. -/
theorem Click.snoc {window : Win} {messages : List MsgMouse} (click : Click window messages)
    (inside : (winCloseButtonRect window).Contains (winScreenToWindow window data.pos)) :
    Click window (messages ++ [data]) := by
  obtain ⟨first, isFirst, pressed⟩ := click.press
  refine ⟨⟨first, ?_, pressed⟩, ?_⟩
  · rw [List.head?_append, Option.mem_def.mp isFirst]
    rfl
  · intro message member
    rcases List.mem_append.mp member with earlier | new
    · exact click.stays message earlier
    · exact List.mem_singleton.mp new ▸ inside

/-- The pointer stays on the close button that is pressed. -/
theorem Sound.grows (sound : Sound rect seen client) (pressed : client.win.closeButtonPressed = true)
    (inside : (winCloseButtonRect client.win).Contains (winScreenToWindow client.win data.pos)) :
    ∃ messages, messages <:+ seen ++ [data] ∧ Click client.win messages := by
  obtain ⟨messages, ⟨earlier, part⟩, click⟩ := sound.clicked pressed
  exact ⟨messages ++ [data], ⟨earlier, by rw [← part, List.append_assoc]⟩, click.snoc inside⟩

/-- The client handles a message. -/
theorem Sound.handle (sound : Sound rect seen client) (data : MsgMouse) :
    Sound rect (seen ++ [data]) (client.handle data) := by
  rw [Client.handle]
  cases moving : client.win.moving with
  | true =>
    rw [drag_moving moving sound.wide sound.high]
    refine ⟨?_, sound.wide, sound.high, fun _ => sound.apart moving, fun pressed => ?_⟩
    · rw [asked, List.foldl_append]
      rfl
    · have pressed : client.win.closeButtonPressed = true := pressed
      rw [sound.apart moving] at pressed
      cases pressed
  | false =>
    have rests := drag_resting moving data
    have still : ¬client.win.moving = true := Bool.eq_false_iff.mp moving
    revert rests
    generalize winHandleDragAndCloseButton client.win data = result
    intro rests
    have placed : asked rect (client.requests ++ []) = rectInitDim client.win.pos.x client.win.pos.y
        client.win.width client.win.height := by
      rw [List.append_nil, sound.placed]
    cases rests with
    | leaves _ _ =>
      exact ⟨placed, sound.wide, sound.high, fun on => absurd on still, fun on => absurd on Bool.false_ne_true⟩
    | quits pressed inside _ =>
      refine ⟨?_, sound.wide, sound.high, fun on => absurd on still, fun on => sound.grows on inside⟩
      rw [asked, List.foldl_append]
      exact sound.placed
    | holds inside =>
      exact ⟨placed, sound.wide, sound.high, fun on => absurd on still, fun on => sound.grows on inside⟩
    | presses down inside =>
      refine ⟨placed, sound.wide, sound.high, fun on => absurd on still, fun _ => ⟨[data], ?_, ?_⟩⟩
      · exact List.suffix_append _ _
      · exact ⟨⟨data, rfl, down⟩, fun message only => List.mem_singleton.mp only ▸ inside⟩
    | grabs free down onBar beside =>
      exact ⟨placed, sound.wide, sound.high, fun _ => free, fun on => absurd on (Bool.eq_false_iff.mp free)⟩
    | passes free =>
      exact ⟨placed, sound.wide, sound.high, fun on => absurd on still, fun on =>
        absurd on (Bool.eq_false_iff.mp free)⟩

/-- The client handles the next message while the window is dragged, or it begins to. -/
theorem Grabbed.handle (sound : Sound rect seen client) (grabbed : client.win.moving = true → Grabbed seen client)
    (pressed : data.pressed &&& mouseLeft ≠ 0 → data.held &&& mouseLeft ≠ 0)
    (follows : ∀ last, seen.getLast? = some last → Follows last data)
    (drags : (client.handle data).win.moving = true) : Grabbed (seen ++ [data]) (client.handle data) := by
  rw [Client.handle] at drags ⊢
  cases moving : client.win.moving with
  | true =>
    obtain ⟨onBar, beside, last, isLast, held, place⟩ := grabbed moving
    have went : data.pos = ⟨last.pos.x + data.delta.x, last.pos.y + data.delta.y⟩ := by
      refine (follows last isLast).resolve_left ?_
      intro released
      rw [released] at held
      exact held BitVec.zero_and
    rw [drag_moving moving sound.wide sound.high] at drags ⊢
    refine ⟨onBar, beside, data, List.getLast?_concat, of_decide_eq_true drags, ?_⟩
    rw [went, place, Point.mk.injEq]
    dsimp only
    rw [if_pos rfl]
    omega
  | false =>
    have rests := drag_resting moving data
    have still : ¬client.win.moving = true := Bool.eq_false_iff.mp moving
    revert rests drags
    generalize winHandleDragAndCloseButton client.win data = result
    intro drags rests
    cases rests with
    | grabs free down onBar beside =>
      refine ⟨onBar, beside, data, List.getLast?_concat, pressed down, ?_⟩
      simp [winScreenToWindow]
    | leaves | quits | holds | presses | passes => exact absurd drags still

/-- The client handles messages one after the other. -/
theorem Sound.handleAll (sound : Sound rect seen client) (messages : List MsgMouse) :
    Sound rect (seen ++ messages) (client.handleAll messages) := by
  induction messages generalizing seen client with
  | nil => exact (List.append_nil seen).symm ▸ sound
  | cons data rest ih =>
    rw [← List.singleton_append, ← List.append_assoc]
    exact ih (sound.handle data)

/-- The window is dragged only where it was grabbed. -/
theorem Grabbed.handleAll (sound : Sound rect seen client) (grabbed : client.win.moving = true → Grabbed seen client)
    {messages : List MsgMouse} (sent : Sent (seen ++ messages))
    (drags : (client.handleAll messages).win.moving = true) :
    Grabbed (seen ++ messages) (client.handleAll messages) := by
  induction messages generalizing seen client with
  | nil => exact (List.append_nil seen).symm ▸ grabbed drags
  | cons data rest ih =>
    have pressed := sent.pressed data (List.mem_append_right _ List.mem_cons_self)
    have linked := (List.isChain_append.mp sent.linked).2.2
    rw [← List.singleton_append, ← List.append_assoc] at sent ⊢
    refine ih (sound.handle data) (fun moving => ?_) sent drags
    exact Grabbed.handle sound grabbed pressed (fun last isLast => linked last isLast data rfl) moving

/-- A new window is where its client takes it to be. -/
theorem start_sound (pos : Point) {width height : Nat} (wide : width < 2 ^ 32) (high : height < 2 ^ 32) :
    Sound (rectInitDim pos.x pos.y width height) [] (start pos width height) :=
  ⟨rfl, wide, high, fun moving => absurd moving Bool.false_ne_true, fun pressed => absurd pressed Bool.false_ne_true⟩

section Runs

variable (pos : Point) {width height : Nat} (wide : width < 2 ^ 32) (high : height < 2 ^ 32)
  {messages : List MsgMouse}

include wide high

/-- The client only asks to quit at the end of a click: the left button was pressed on the close button, the
pointer stayed on it, and there the left button is released. -/
theorem quits_clicked {data : MsgMouse}
    (quits : (winHandleDragAndCloseButton ((start pos width height).handleAll messages).win data).2 = some .quit) :
    ∃ clicked, clicked ≠ [] ∧ clicked <:+ messages ∧
      Click ((start pos width height).handleAll messages).win (clicked ++ [data]) ∧
        data.released &&& mouseLeft ≠ 0 := by
  have sound := (start_sound pos wide high).handleAll messages
  revert quits sound
  generalize (start pos width height).handleAll messages = client
  intro quits sound
  cases moving : client.win.moving with
  | true =>
    rw [drag_moving moving sound.wide sound.high] at quits
    cases quits
  | false =>
    have rests := drag_resting moving data
    revert quits rests
    generalize winHandleDragAndCloseButton client.win data = result
    intro quits rests
    cases rests with
    | quits pressed inside released =>
      obtain ⟨clicked, part, click⟩ := sound.clicked pressed
      refine ⟨clicked, ?_, part, click.snoc inside, released⟩
      rintro rfl
      obtain ⟨first, isFirst, _⟩ := click.press
      cases isFirst
    | leaves | holds | presses | grabs | passes => cases quits

end Runs

/-- The left button is pressed on the close button, and the pointer moves on it. -/
def oneClick : List MsgMouse := [⟨4, 4, 0, ⟨90, 20⟩, ⟨0, 0⟩⟩, ⟨4, 0, 0, ⟨91, 21⟩, ⟨1, 1⟩⟩]

/-- There it is released, and the client asks to quit. -/
theorem quits_clicked_click : ∃ clicked, clicked ≠ [] ∧ clicked <:+ oneClick ∧
    Click ((start ⟨0, 0⟩ 100 100).handleAll oneClick).win (clicked ++ [⟨0, 0, 4, ⟨90, 21⟩, ⟨-1, 0⟩⟩]) := by
  obtain ⟨clicked, some, part, click, -⟩ := @quits_clicked ⟨0, 0⟩ 100 100 (by decide) (by decide) oneClick
    ⟨0, 0, 4, ⟨90, 21⟩, ⟨-1, 0⟩⟩ (by decide)
  exact ⟨clicked, some, part, click⟩

end Asym.WindowDrags
