import Asym.EventDevices
import Asym.Keyboard
import Asym.MouseBatches

/-!
# The PS/2 keyboard and mouse

From the interrupt to the file. An interrupt of the keyboard brings one byte, which is a key that
was pressed or released. An interrupt of the mouse brings one of the three bytes of a packet; the
third one completes a movement. The events go into the rings of `kbd.c` and `mouse.c`, and any
number of tasks read them through any number of files.

What a file of the keyboard delivers are keys in the order of their bytes, each once at most, and
what is missing in between are whole laps of the ring. A file of the mouse that is never overtaken
delivers the movements that were sent, as long as no byte of a packet is lost.
-/

namespace Asym.Ps2Devices

open Graphics EventRuns EventDevices Keyboard MouseBatches

/-! ## The controller -/

/-- `PS2_STATUS_OUT_FULL`. -/
def ps2StatusOutFull : UInt8 := 0x01

/-- `SCANCODE_RELEASED`. -/
def scancodeReleased : UInt8 := 0x80

/-- What an interrupt handler reads from the ports, and the uptime. -/
structure Interrupt where
  status : UInt8
  data : UInt8
  now : Nat
deriving DecidableEq, Repr

/-- The byte of an interrupt, or `ERR` if there is none. -/
def ps2Scan (interrupt : Interrupt) : Option UInt8 :=
  if interrupt.status &&& ps2StatusOutFull = 0 then none else some interrupt.data

/-- `ps2_kbd_scan`. -/
def ps2KbdScan (interrupt : Interrupt) : Option UInt8 := ps2Scan interrupt

/-- `ps2_mouse_scan`. -/
def ps2MouseScan (interrupt : Interrupt) : Option UInt8 := ps2Scan interrupt

/-! ## The keyboard -/

/-- `scanmap`, as the scan codes that it has and their key codes. -/
def scanmap : List (Nat × Nat) :=
  -- ESC, 1 to 9, 0, MINUS, EQUAL, BACKSPACE, TAB
  [(0x01, 0x29), (0x02, 0x1E), (0x03, 0x1F), (0x04, 0x20), (0x05, 0x21), (0x06, 0x22), (0x07, 0x23), (0x08, 0x24),
    (0x09, 0x25), (0x0A, 0x26), (0x0B, 0x27), (0x0C, 0x2D), (0x0D, 0x2E), (0x0E, 0x2A), (0x0F, 0x2B),
  -- Q to P, LEFT_BRACE, RIGHT_BRACE, ENTER, LEFT_CTRL
    (0x10, 0x14), (0x11, 0x1A), (0x12, 0x08), (0x13, 0x15), (0x14, 0x17), (0x15, 0x1C), (0x16, 0x18), (0x17, 0x0C),
    (0x18, 0x12), (0x19, 0x13), (0x1A, 0x2F), (0x1B, 0x30), (0x1C, 0x28), (0x1D, keyLeftCtrl),
  -- A to L, SEMICOLON, APOSTROPHE, GRAVE, LEFT_SHIFT, BACKSLASH
    (0x1E, 0x04), (0x1F, 0x16), (0x20, 0x07), (0x21, 0x09), (0x22, 0x0A), (0x23, 0x0B), (0x24, 0x0D), (0x25, 0x0E),
    (0x26, 0x0F), (0x27, 0x33), (0x28, 0x34), (0x29, 0x35), (0x2A, keyLeftShift), (0x2B, 0x31),
  -- Z to M, COMMA, PERIOD, SLASH, RIGHT_SHIFT
    (0x2C, 0x1D), (0x2D, 0x1B), (0x2E, 0x06), (0x2F, 0x19), (0x30, 0x05), (0x31, 0x11), (0x32, 0x10), (0x33, 0x36),
    (0x34, 0x37), (0x35, 0x38), (0x36, keyRightShift),
  -- KP_ASTERISK, LEFT_ALT, SPACE, CAPS_LOCK, F1 to F10, NUM_LOCK, SCROLL_LOCK
    (0x37, 0x55), (0x38, keyLeftAlt), (0x39, 0x2C), (0x3A, keyCapsLock), (0x3B, 0x3A), (0x3C, 0x3B), (0x3D, 0x3C),
    (0x3E, 0x3D), (0x3F, 0x3E), (0x40, 0x3F), (0x41, 0x40), (0x42, 0x41), (0x43, 0x42), (0x44, 0x43), (0x45, 0x53),
    (0x46, 0x47),
  -- KP_7, KP_8, KP_9, KP_MINUS, KP_4, KP_5, KP_6, KP_PLUS, KP_1, KP_2, KP_3, KP_0, KP_PERIOD, SYSREQ
    (0x47, 0x5F), (0x48, 0x60), (0x49, 0x61), (0x4A, 0x56), (0x4B, 0x5C), (0x4C, 0x5D), (0x4D, 0x5E), (0x4E, 0x57),
    (0x4F, 0x59), (0x50, 0x5A), (0x51, 0x5B), (0x52, 0x62), (0x53, 0x63), (0x54, 0x9A),
  -- F11, F12, KP_EQUAL, F13 to F24, EQUAL
    (0x57, 0x44), (0x58, 0x45), (0x59, 0x67), (0x64, 0x68), (0x65, 0x69), (0x66, 0x6A), (0x67, 0x6B), (0x68, 0x6C),
    (0x69, 0x6D), (0x6A, 0x6E), (0x6B, 0x6F), (0x6C, 0x70), (0x6D, 0x71), (0x6E, 0x72), (0x76, 0x73), (0x7E, 0x2E)]

/-- `ps2_scancode_to_keycode`. A scan code without a key, or beyond the table, has the code 0. -/
def ps2ScancodeToKeycode (scancode : Nat) : Nat :=
  (scanmap.lookup scancode).getD 0

/-- The kind of event of a byte. -/
def scannedType (scanCode : UInt8) : EventType :=
  if scanCode &&& scancodeReleased ≠ 0 then .release else .press

/-- The key of a byte. -/
def scannedCode (scanCode : UInt8) : Nat :=
  ps2ScancodeToKeycode (scanCode &&& ~~~scancodeReleased).toNat

/-- `ps2_kbd_irq`. -/
def ps2KbdIrq (kbd : Kbd) (interrupt : Interrupt) : Kbd :=
  match ps2KbdScan interrupt with
  | none => kbd
  | some scanCode => kbdPush kbd (scannedType scanCode) (scannedCode scanCode) interrupt.now

/-- The event that `kbd_push` stores for an interrupt. -/
def keyEvent (kbd : Kbd) (interrupt : Interrupt) : Option KbdEvent :=
  (ps2Scan interrupt).map fun scanCode =>
    { time := interrupt.now
      type := scannedType scanCode
      mods := (kbdSwitch kbd (scannedType scanCode) (scannedCode scanCode)).mods
      code := scannedCode scanCode }

/-- The ring of a keyboard. -/
def kbdRing (kbd : Kbd) : EventRing KbdEvent := ⟨kbd.events, kbd.writeIndex⟩

/-- The switch of `kbd_push` changes the modifiers only. -/
theorem kbdRing_kbdSwitch (kbd : Kbd) (type : EventType) (code : Nat) :
    kbdRing (kbdSwitch kbd type code) = kbdRing kbd := by
  unfold kbdSwitch
  split_ifs <;> cases type <;> rfl

/-- An interrupt of the keyboard stores the event of its byte. -/
theorem kbdRing_ps2KbdIrq (kbd : Kbd) (interrupt : Interrupt) :
    kbdRing (ps2KbdIrq kbd interrupt) =
      (keyEvent kbd interrupt).elim (kbdRing kbd) ((kbdRing kbd).store kbdMaxEvent) := by
  rw [ps2KbdIrq, keyEvent, ps2KbdScan]
  cases ps2Scan interrupt with
  | none => rfl
  | some scanCode =>
    rw [Option.map_some, Option.elim_some, ← kbdRing_kbdSwitch kbd (scannedType scanCode) (scannedCode scanCode)]
    rfl

/-- The keyboard behind `ps2_kbd_irq`, `kbd_read` and `kbd_status`. An event has 24 bytes. -/
abbrev keyboard : Device where
  State := Kbd
  Input := Interrupt
  Item := KbdEvent
  bound := kbdMaxEvent
  size := 24
  ring := kbdRing
  accept := ps2KbdIrq
  stored := keyEvent
  ring_accept := kbdRing_ps2KbdIrq

/-! ## The mouse -/

/-- `ps2_mouse_packet_t`. -/
structure MousePacket where
  flags : UInt8
  deltaX : UInt8
  deltaY : UInt8
deriving DecidableEq, Repr

/-- `mouse_t` and the static variables of `ps2_mouse_irq`. -/
structure Ps2Mouse where
  mouse : EventRing MouseEvent
  index : Nat
  packet : MousePacket

def ps2PacketButtonLeft : UInt8 := 0x01
def ps2PacketButtonRight : UInt8 := 0x02
def ps2PacketButtonMiddle : UInt8 := 0x04

def mouseRight : BitVec 32 := 1 <<< 0
def mouseMiddle : BitVec 32 := 1 <<< 1
def mouseLeft : BitVec 32 := 1 <<< 2

/-- The buttons in `ps2_mouse_handle_packet`. -/
def packetButtons (packet : MousePacket) : BitVec 32 :=
  (if packet.flags &&& ps2PacketButtonRight ≠ 0 then mouseRight else 0) |||
    (if packet.flags &&& ps2PacketButtonMiddle ≠ 0 then mouseMiddle else 0) |||
    (if packet.flags &&& ps2PacketButtonLeft ≠ 0 then mouseLeft else 0)

/-- The motion in `ps2_mouse_handle_packet`: the sign bits of the flags stand for 256 less. -/
def packetDelta (packet : MousePacket) : Point where
  x := (packet.deltaX.toNat : Int) - ((packet.flags.toNat <<< 4 &&& 0x100 : Nat) : Int)
  y := -((packet.deltaY.toNat : Int) - ((packet.flags.toNat <<< 3 &&& 0x100 : Nat) : Int))

/-- The event that `ps2_mouse_handle_packet` gives to `mouse_push`. -/
def packetEvent (packet : MousePacket) (now : Nat) : MouseEvent where
  time := now
  buttons := packetButtons packet
  delta := packetDelta packet

/-- `ps2_mouse_irq`. -/
def ps2MouseIrq (state : Ps2Mouse) (interrupt : Interrupt) : Ps2Mouse :=
  match ps2MouseScan interrupt with
  | none => state
  | some data =>
      match state.index with
      | 0 => { state with packet := { state.packet with flags := data }, index := state.index + 1 }
      | 1 => { state with packet := { state.packet with deltaX := data }, index := state.index + 1 }
      | 2 =>
          let packet := { state.packet with deltaY := data }
          { mouse := state.mouse.store mouseMaxEvent (packetEvent packet interrupt.now), index := 0, packet }
      | _ => state

/-- The event that an interrupt completes. -/
def completedEvent (state : Ps2Mouse) (interrupt : Interrupt) : Option MouseEvent :=
  (ps2Scan interrupt).bind fun data =>
    if state.index = 2 then some (packetEvent { state.packet with deltaY := data } interrupt.now) else none

/-- An interrupt of the mouse stores the event that it completes. -/
theorem mouse_ps2MouseIrq (state : Ps2Mouse) (interrupt : Interrupt) :
    (ps2MouseIrq state interrupt).mouse =
      (completedEvent state interrupt).elim state.mouse (state.mouse.store mouseMaxEvent) := by
  obtain ⟨mouse, index, packet⟩ := state
  rw [ps2MouseIrq, completedEvent, ps2MouseScan]
  cases ps2Scan interrupt with
  | none => rfl
  | some data => rcases index with _ | _ | _ | _ <;> simp

/-- The mouse behind `ps2_mouse_irq`, `mouse_read` and `mouse_status`. An event has 32 bytes. -/
abbrev mouse : Device where
  State := Ps2Mouse
  Input := Interrupt
  Item := MouseEvent
  bound := mouseMaxEvent
  size := 32
  ring := Ps2Mouse.mouse
  accept := ps2MouseIrq
  stored := completedEvent
  ring_accept := mouse_ps2MouseIrq

/-! ## Polls -/

/-! ## Bytes -/

/-- The bytes that interrupts bring, with the times. -/
def bytes (interrupts : List Interrupt) : List (UInt8 × Nat) :=
  interrupts.filterMap fun interrupt => (ps2Scan interrupt).map fun data => (data, interrupt.now)

/-- The byte of an interrupt comes before those of the later ones. -/
theorem bytes_cons (interrupt : Interrupt) (later : List Interrupt) :
    bytes (interrupt :: later) =
      ((ps2Scan interrupt).map fun data => (data, interrupt.now)).toList ++ bytes later := by
  rw [bytes, List.filterMap_cons]
  cases ps2Scan interrupt <;> rfl

/-! ## Keys -/

/-- What a byte of the keyboard says: the time, the kind of event and the key. -/
def KbdEvent.said (event : KbdEvent) : Nat × EventType × Nat := (event.time, event.type, event.code)

/-- The keyboard stores one event for each byte, in the order of the bytes. -/
theorem keyboard_history (kbd : Kbd) (interrupts : List Interrupt) :
    (keyboard.history kbd interrupts).map KbdEvent.said =
      (bytes interrupts).map fun byte => (byte.2, scannedType byte.1, scannedCode byte.1) := by
  induction interrupts generalizing kbd with
  | nil => rfl
  | cons interrupt later ih =>
    have rest := ih (ps2KbdIrq kbd interrupt)
    have split : keyboard.history kbd (interrupt :: later) =
        (keyboard.stored kbd interrupt).toList ++ keyboard.history (ps2KbdIrq kbd interrupt) later := rfl
    have stored : keyboard.stored kbd interrupt = keyEvent kbd interrupt := rfl
    rw [split, List.map_append, rest, stored, keyEvent, bytes_cons]
    cases ps2Scan interrupt with
    | none => rfl
    | some scanCode => rfl

/-- Every file of the keyboard delivers key events in the order of their bytes, each once at
most, and loses whole laps of the ring only. A call returns the bytes of what it read. -/
theorem keys_in_order (garbage : Nat → KbdEvent) (events : List (Event keyboard)) (session : Session keyboard)
    (reached : run EventDevices.step (Session.new (kbdNew garbage)) events = some session) :
    session.stored.map KbdEvent.said =
        (bytes (inputs events)).map (fun byte => (byte.2, scannedType byte.1, scannedCode byte.1)) ∧
      (∀ file position, session.position file = some position →
        ∃ unread, Skips kbdMaxEvent session.stored (session.delivered file) unread) ∧
      ∀ result ∈ session.returned, result.1.buffer.Sublist (session.delivered result.1.file) ∧
        result.2 = result.1.buffer.length * 24 ∧ result.2 ≤ result.1.count := by
  have sound : Sound session := run_soundness (by decide) rfl events session reached
  refine ⟨?_, ?_, ?_⟩
  · rw [(run_history events session reached).2]
    exact keyboard_history (kbdNew garbage) (inputs events)
  · intro file position opened
    obtain ⟨unread, placed⟩ := sound.placed file position opened
    exact ⟨unread, placed.skips⟩
  · intro result inside
    have returned := sound.returned result inside
    refine ⟨returned.call.sublist, returned.bytes, ?_⟩
    rw [returned.bytes, ← returned.call.whole]
    exact Nat.mul_le_mul_right _ returned.call.room

/-- The key A is pressed while a task waits for it. -/
def pressOfA : List (Event keyboard) :=
  [.opens 0, .reads 0 0 24, .input ⟨1, 0x1E, 5⟩, .takes 0, .finishes 0]

/-- A new keyboard. -/
def idleKeyboard : Kbd := kbdNew fun _ => ⟨0, .press, 0, 0⟩

/-- The task reads the key A. -/
theorem keys_in_order_press : ∃ session : Session keyboard,
    run EventDevices.step (Session.new idleKeyboard) pressOfA = some session ∧
    session.stored.map KbdEvent.said = [(5, .press, 0x04)] ∧
    ∃ unread, Skips kbdMaxEvent session.stored (session.delivered 0) unread := by
  obtain ⟨session, reached, opened⟩ : ∃ session : Session keyboard,
      run EventDevices.step (Session.new idleKeyboard) pressOfA = some session ∧
        session.position 0 = some 1 := ⟨_, rfl, rfl⟩
  obtain ⟨stored, files, _⟩ := keys_in_order _ pressOfA session reached
  exact ⟨session, reached, stored, files 0 1 opened⟩

/-! ## Movements -/

/-- A movement that a mouse can send: its buttons, and how far it moved to the right and up. -/
structure Movement where
  left : Bool
  right : Bool
  middle : Bool
  dx : Int
  dy : Int
  dx_range : -256 ≤ dx ∧ dx ≤ 255
  dy_range : -256 ≤ dy ∧ dy ≤ 255

/-- The first byte of the packet of a movement. -/
def Movement.flags (movement : Movement) : UInt8 :=
  (if movement.left then 0x01 else 0) ||| (if movement.right then 0x02 else 0) |||
    (if movement.middle then 0x04 else 0) ||| 0x08 ||| (if movement.dx < 0 then 0x10 else 0) |||
    (if movement.dy < 0 then 0x20 else 0)

/-- The packet of a movement: nine bits for each direction, without overflow. -/
def Movement.packet (movement : Movement) : List UInt8 :=
  [movement.flags, UInt8.ofNat (movement.dx % 256).toNat, UInt8.ofNat (movement.dy % 256).toNat]

/-- The buttons and the motion of an event. -/
def MouseEvent.moved (event : MouseEvent) : BitVec 32 × Point := (event.buttons, event.delta)

/-- What the system makes of a movement: on the screen y grows downwards. -/
def Movement.meant (movement : Movement) : BitVec 32 × Point :=
  ((if movement.right then mouseRight else 0) ||| (if movement.middle then mouseMiddle else 0) |||
    (if movement.left then mouseLeft else 0), ⟨movement.dx, -movement.dy⟩)

/-- The events that bytes make: three in a row are one packet. -/
def packets : List (UInt8 × Nat) → List MouseEvent
  | flags :: deltaX :: deltaY :: later =>
      packetEvent ⟨flags.1, deltaX.1, deltaY.1⟩ deltaY.2 :: packets later
  | _ => []

/-- Only the time of the last byte of a packet counts. -/
theorem packets_first (flags : UInt8) (first second : Nat) (later : List (UInt8 × Nat)) :
    packets ((flags, first) :: later) = packets ((flags, second) :: later) := by
  rcases later with _ | ⟨deltaX, _ | ⟨deltaY, later⟩⟩ <;> rfl

/-- The time of the second byte does not count. -/
theorem packets_second (flags : UInt8 × Nat) (deltaX : UInt8) (first second : Nat) (later : List (UInt8 × Nat)) :
    packets (flags :: (deltaX, first) :: later) = packets (flags :: (deltaX, second) :: later) := by
  rcases later with _ | ⟨deltaY, later⟩ <;> rfl

/-- The bytes of the packet that is not complete. -/
def partialPacket (state : Ps2Mouse) : List (UInt8 × Nat) :=
  if state.index = 0 then []
  else if state.index = 1 then [(state.packet.flags, 0)]
  else [(state.packet.flags, 0), (state.packet.deltaX, 0)]

/-- The mouse stores the events of its bytes, three by three. -/
theorem mouse_history (state : Ps2Mouse) (inside : state.index < 3) (interrupts : List Interrupt) :
    mouse.history state interrupts = packets (partialPacket state ++ bytes interrupts) := by
  induction interrupts generalizing state with
  | nil =>
    obtain ⟨ring, index, packet⟩ := state
    rcases index with _ | _ | _ | _
    · rfl
    · rfl
    · rfl
    · exact absurd inside (by simp)
  | cons interrupt later ih =>
    have split : mouse.history state (interrupt :: later) =
        (mouse.stored state interrupt).toList ++ mouse.history (ps2MouseIrq state interrupt) later := rfl
    have stored : mouse.stored state interrupt = completedEvent state interrupt := rfl
    rw [split, stored, completedEvent, bytes_cons, ps2MouseIrq, ps2MouseScan]
    cases ps2Scan interrupt with
    | none => exact ih state inside
    | some data =>
      obtain ⟨ring, index, packet⟩ := state
      rcases index with _ | _ | _ | _
      · exact (ih ⟨ring, 1, { packet with flags := data }⟩ (show 1 < 3 by decide)).trans
          (packets_first data 0 interrupt.now _)
      · exact (ih ⟨ring, 2, { packet with deltaX := data }⟩ (show 2 < 3 by decide)).trans
          (packets_second _ data 0 interrupt.now _)
      · exact congrArg (List.cons _) (ih ⟨_, 0, { packet with deltaY := data }⟩ (show 0 < 3 by decide))
      · exact absurd inside (by simp)

/-- The packet of a movement means this movement. -/
theorem packetEvent_movement (movement : Movement) (now : Nat) :
    MouseEvent.moved (packetEvent ⟨movement.flags, UInt8.ofNat (movement.dx % 256).toNat,
      UInt8.ofNat (movement.dy % 256).toNat⟩ now) = movement.meant := by
  obtain ⟨left, right, middle, dx, dy, dxRange, dyRange⟩ := movement
  have bits : ∀ left right middle xSign ySign : Bool,
      let flags : UInt8 := (if left then 0x01 else 0) ||| (if right then 0x02 else 0) |||
        (if middle then 0x04 else 0) ||| 0x08 ||| (if xSign then 0x10 else 0) ||| (if ySign then 0x20 else 0)
      (flags &&& ps2PacketButtonLeft ≠ 0 ↔ left) ∧ (flags &&& ps2PacketButtonRight ≠ 0 ↔ right) ∧
        (flags &&& ps2PacketButtonMiddle ≠ 0 ↔ middle) ∧
        flags.toNat <<< 4 &&& 0x100 = (if xSign then 256 else 0) ∧
        flags.toNat <<< 3 &&& 0x100 = (if ySign then 256 else 0) := by decide
  have flags := bits left right middle (decide (dx < 0)) (decide (dy < 0))
  simp only [decide_eq_true_eq] at flags
  obtain ⟨isLeft, isRight, isMiddle, xSign, ySign⟩ := flags
  have byte : ∀ value : Int, (UInt8.ofNat (value % 256).toNat).toNat = (value % 256).toNat := by
    intro value
    rw [UInt8.toNat_ofNat']
    omega
  have x : ((dx % 256).toNat : Int) - ((if dx < 0 then 256 else 0 : Nat) : Int) = dx := by
    split_ifs <;> omega
  have y : -(((dy % 256).toNat : Int) - ((if dy < 0 then 256 else 0 : Nat) : Int)) = -dy := by
    split_ifs <;> omega
  simp only [MouseEvent.moved, packetEvent, packetButtons, packetDelta, Movement.meant, Movement.flags, isLeft,
    isRight, isMiddle, xSign, ySign, byte, x, y]

/-- Complete packets of movements are these movements, in their order. -/
theorem packets_movements (movements : List Movement) (rest sent : List (UInt8 × Nat)) (part : rest.length < 3)
    (split : sent.map Prod.fst = movements.flatMap Movement.packet ++ rest.map Prod.fst) :
    (packets sent).map MouseEvent.moved = movements.map Movement.meant := by
  induction movements generalizing sent with
  | nil =>
    have short : sent.length < 3 := by
      have same := congrArg List.length split
      simp only [List.length_map, List.flatMap_nil, List.nil_append] at same
      omega
    rcases sent with _ | ⟨first, _ | ⟨second, _ | ⟨third, later⟩⟩⟩
    · rfl
    · rfl
    · rfl
    · simp only [List.length_cons] at short
      omega
  | cons movement later ih =>
    rcases sent with _ | ⟨⟨first, _⟩, _ | ⟨⟨second, _⟩, _ | ⟨⟨third, now⟩, others⟩⟩⟩ <;>
      simp only [List.map_nil, List.map_cons, List.flatMap_cons, Movement.packet, List.cons_append, List.nil_append,
        List.cons.injEq, reduceCtorEq, and_false] at split
    obtain ⟨rfl, rfl, rfl, split⟩ := split
    rw [packets, List.map_cons, List.map_cons, packetEvent_movement, ih others split]

/-- A mouse sends whole packets, and perhaps the beginning of one more. A file that is never
overtaken delivers its movements in their order, from the first one of the lap in which the file
was opened, and less than a lap of them is still to be read.

Proof: the events that are stored are those of the packets, and the file delivers them from there. -/
theorem movements_delivered {start : Ps2Mouse} (ready : start.index = 0) (new : start.mouse.writeIndex = 0)
    {file position : Nat} {events : List (Event mouse)} {session : Session mouse}
    (reached : run EventDevices.step (Session.new start) events = some session)
    (spares : Each EventDevices.step (Session.new start) (Spares file) events)
    {movements : List Movement} {rest : List (UInt8 × Nat)} (part : rest.length < 3)
    (sent : (bytes (inputs events)).map Prod.fst = movements.flatMap Movement.packet ++ rest.map Prod.fst)
    (opened : session.position file = some position) :
    ∃ unread : List MouseEvent, unread.length < mouseMaxEvent ∧
      (session.delivered file ++ unread).map MouseEvent.moved =
        (movements.map Movement.meant).drop (session.opened file / mouseMaxEvent * mouseMaxEvent) := by
  obtain ⟨unread, _, inLap, split, _⟩ := run_complete (by decide) new reached spares position opened
  refine ⟨unread, inLap, ?_⟩
  have noPart : partialPacket start = [] := if_pos ready
  rw [split, (run_history events session reached).2, mouse_history start (by omega), noPart, List.nil_append,
    List.map_drop, packets_movements movements rest _ part sent]
  rfl

/-- A new mouse. -/
def idleMouse : Ps2Mouse := ⟨⟨fun _ => noEvent, 0⟩, 0, ⟨0, 0, 0⟩⟩

/-- A movement to the left and up with the left button, which a task reads. -/
def oneMovement : List (Event mouse) :=
  [.opens 0, .input ⟨1, 0x19, 1⟩, .input ⟨1, 0xFD, 2⟩, .input ⟨1, 5, 3⟩, .reads 0 0 32, .takes 0, .finishes 0]

/-- The movement reaches the file. -/
theorem movements_delivered_one : ∃ session : Session mouse,
    run EventDevices.step (Session.new idleMouse) oneMovement = some session ∧
    ∃ unread : List MouseEvent, unread.length < mouseMaxEvent ∧
      (session.delivered 0 ++ unread).map MouseEvent.moved = [(mouseLeft, ⟨-3, -5⟩)] := by
  obtain ⟨session, reached, opened, early⟩ : ∃ session : Session mouse,
      run EventDevices.step (Session.new idleMouse) oneMovement = some session ∧
        session.position 0 = some 1 ∧ session.opened 0 = 0 := ⟨_, rfl, rfl, rfl⟩
  refine ⟨session, reached, ?_⟩
  have moved := @movements_delivered idleMouse rfl rfl 0 1 oneMovement session reached ?_
    [⟨true, false, false, -3, 5, by decide, by decide⟩] [] (by decide) rfl opened
  · rwa [early] at moved
  · refine each_cons trivial rfl ?_
    refine each_cons (fun stores => absurd rfl stores) rfl ?_
    refine each_cons (fun stores => absurd rfl stores) rfl ?_
    refine each_cons ?_ rfl ?_
    · intro _ position place
      obtain rfl := Option.some.inj place
      decide
    · exact each_cons trivial rfl (each_cons trivial rfl (each_cons trivial rfl each_nil))

end Asym.Ps2Devices
