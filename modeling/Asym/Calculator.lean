import Asym.CommandLines
import Asym.EventRuns
import Asym.NumberPrinting
import Asym.OrderedLists
import Asym.WindowDrags
import Mathlib.Data.List.Sort

/-!
# The calculator

From the mouse to the number that is shown. `win_dispatch` gives a message of the mouse to the window,
which may be dragged, and then to each of its buttons. A button tells the window when it is pressed and
when it is released, and `procedure` takes a released button for a key.

Each button remembers for itself whether it is pressed. As no two of them have a common point, one at
most is, and all of them behave as a single keypad that remembers the key that is held. The numbers are
words, and the keys are evaluated from the left to the right; while what is typed fits into a word, the
calculator shows the number that the typed digits mean, and what the operations on the numbers before
come to.

Drawing is left out. The messages that a window sends to itself come in the order in which they were
sent, and none is lost.
-/

namespace Asym.Calculator

open Graphics EventRuns WindowDrags
open Numerals (numeral)
open NumberPrinting (signedChar ulltoa Prints ulltoa_prints)
open CommandLines (text)
open TerminalScreen (edgeWidth padding)

/-! ## Buttons -/

/-- `lmsg_command_type_t`. -/
inductive CommandType where
  | release
  | press
deriving DecidableEq, Repr

/-- `lmsg_command_t`. -/
structure Command where
  type : CommandType
  id : Nat
deriving DecidableEq, Repr

/-- `button_t` with the rectangle and the id of its widget. -/
structure Button where
  id : Nat
  rect : Rect
  toggle : Bool
  pressed : Bool
deriving DecidableEq, Repr

/-- `win_button_proc` with `WMSG_MOUSE`, where the cursor is in the client area: the button and the
commands that it sends. -/
def winButtonProc (button : Button) (cursorPos : Point) (data : MsgMouse) : Button × List Command :=
  if button.toggle then
    if button.rect.Contains cursorPos ∧ data.pressed &&& mouseLeft ≠ 0 then
      ({ button with pressed := !button.pressed }, [⟨if !button.pressed then .press else .release, button.id⟩])
    else (button, [])
  else if button.rect.Contains cursorPos then
    if data.pressed &&& mouseLeft ≠ 0 ∧ button.pressed = false then
      ({ button with pressed := true }, [⟨.press, button.id⟩])
    else if data.released &&& mouseLeft ≠ 0 ∧ button.pressed = true then
      ({ button with pressed := false }, [⟨.release, button.id⟩])
    else (button, [])
  else ({ button with pressed := false }, [])

/-- The buttons of a window with a message of the mouse, one after the other. -/
def dispatch (buttons : List Button) (cursorPos : Point) (data : MsgMouse) : List Button × List Command :=
  (buttons.map fun button => (winButtonProc button cursorPos data).1,
    buttons.flatMap fun button => (winButtonProc button cursorPos data).2)

/-! ## The keypad -/

/-- The key at a point. -/
def keyAt (buttons : List Button) (point : Point) : Option Nat :=
  (buttons.find? fun button => button.rect.Contains point).map Button.id

/-- A keypad with the key that is held, and the mouse at a key or beside all keys: a key is released if it
was held, and a press holds another one. -/
def keypad (held : Option Nat) (data : MsgMouse) : Option Nat → Option Nat × List Command
  | none => (none, [])
  | some key =>
    if held = some key then
      if data.released &&& mouseLeft ≠ 0 then (none, [⟨.release, key⟩]) else (some key, [])
    else if data.pressed &&& mouseLeft ≠ 0 then (some key, [⟨.press, key⟩])
    else (none, [])

/-- A button is pressed if its key is held. -/
def Button.hold (held : Option Nat) (button : Button) : Button :=
  { button with pressed := decide (held = some button.id) }

/-- Buttons that are not switches, have their own ids and no common points. -/
structure Apart (buttons : List Button) : Prop where
  plain : ∀ button ∈ buttons, button.toggle = false
  different : (buttons.map Button.id).Nodup
  disjoint : buttons.Pairwise fun button other =>
    ∀ point, button.rect.Contains point → ¬other.rect.Contains point

variable {buttons : List Button} {held : Option Nat}

/-- Buttons beside the mouse are let go of. -/
theorem dispatch_beside {point : Point} (data : MsgMouse) {next : Option Nat}
    (plain : ∀ button ∈ buttons, button.toggle = false)
    (beside : ∀ button ∈ buttons, ¬button.rect.Contains point) (other : ∀ button ∈ buttons, next ≠ some button.id) :
    dispatch (buttons.map (Button.hold held)) point data = (buttons.map (Button.hold next), []) := by
  have each (button : Button) (member : button ∈ buttons) :
      winButtonProc (button.hold held) point data = (button.hold next, []) := by
    have plainHeld : ¬(button.hold held).toggle = true := Bool.eq_false_iff.mp (plain button member)
    have besideHeld : ¬(button.hold held).rect.Contains point := beside button member
    rw [winButtonProc, if_neg plainHeld, if_neg besideHeld, Button.hold, Button.hold,
      decide_eq_false (other button member)]
  rw [dispatch, List.map_map, List.flatMap_map]
  refine Prod.ext ?_ ?_
  · exact List.map_congr_left fun button member => congrArg Prod.fst (each button member)
  · exact List.flatMap_eq_nil_iff.mpr fun button member => congrArg Prod.snd (each button member)

/-- The button at the mouse is the key. -/
theorem dispatch_at {button : Button} (plain : button.toggle = false) {point : Point}
    (inside : button.rect.Contains point) (data : MsgMouse) :
    winButtonProc (button.hold held) point data =
      (button.hold (keypad held data (some button.id)).1, (keypad held data (some button.id)).2) := by
  have plainHeld : ¬(button.hold held).toggle = true := Bool.eq_false_iff.mp plain
  have insideHeld : (button.hold held).rect.Contains point := inside
  rw [winButtonProc, if_neg plainHeld, if_pos insideHeld, keypad]
  by_cases same : held = some button.id
  · simp only [Button.hold, same, decide_true, Bool.true_eq_false, and_false, if_false, and_true, if_true]
    split_ifs
    · rfl
    · simp
  · simp only [Button.hold, same, decide_false, Bool.false_eq_true, and_false, if_false, and_true]
    split_ifs
    · simp
    · rfl

/-- The buttons of two lists. -/
theorem dispatch_append (first second : List Button) (point : Point) (data : MsgMouse) :
    dispatch (first ++ second) point data =
      ((dispatch first point data).1 ++ (dispatch second point data).1,
        (dispatch first point data).2 ++ (dispatch second point data).2) := by
  simp only [dispatch, List.map_append, List.flatMap_append]

/-- The key that is held next is the one at the mouse. -/
theorem keypad_next {data : MsgMouse} {key other : Nat} (next : (keypad held data (some key)).1 = some other) :
    other = key := by
  rw [keypad] at next
  split_ifs at next
  · exact (Option.some.inj next).symm
  · exact (Option.some.inj next).symm

/-- All buttons together are the keypad. -/
theorem Apart.dispatch (apart : Apart buttons) (held : Option Nat) (point : Point) (data : MsgMouse) :
    dispatch (buttons.map (Button.hold held)) point data =
      (buttons.map (Button.hold (keypad held data (keyAt buttons point)).1),
        (keypad held data (keyAt buttons point)).2) := by
  rw [keyAt]
  cases found : buttons.find? fun button => button.rect.Contains point with
  | none =>
    refine dispatch_beside data apart.plain ?_ fun _ _ => (Option.some_ne_none _).symm
    intro button member
    exact of_decide_eq_false (Bool.eq_false_iff.mpr (List.find?_eq_none.mp found button member))
  | some button =>
    obtain ⟨inside, front, back, rfl, _⟩ := List.find?_eq_some_iff_append.mp found
    have inRect : button.rect.Contains point := of_decide_eq_true inside
    obtain ⟨plain, different, disjoint⟩ := apart
    simp only [List.forall_mem_append, List.forall_mem_cons] at plain
    rw [List.map_append, List.map_cons, List.nodup_middle, List.nodup_cons, List.mem_append, not_or] at different
    rw [List.pairwise_append, List.pairwise_cons] at disjoint
    have rest {others : List Button} (plain : ∀ other ∈ others, other.toggle = false)
        (away : button.id ∉ others.map Button.id) (beside : ∀ other ∈ others, ¬other.rect.Contains point) :
        Calculator.dispatch (others.map (Button.hold held)) point data =
          (others.map (Button.hold (keypad held data (some button.id)).1), []) := by
      refine dispatch_beside data plain beside ?_
      intro other member next
      exact away (keypad_next next ▸ List.mem_map_of_mem member)
    have before := rest plain.1 different.1.1 fun other member at_ =>
      disjoint.2.2 other member button List.mem_cons_self point at_ inRect
    have behind := rest plain.2.2 different.1.2 fun other member =>
      disjoint.2.1.1 other member point inRect
    have here : Calculator.dispatch [button.hold held] point data =
        ([button.hold (keypad held data (some button.id)).1], (keypad held data (some button.id)).2) := by
      rw [Calculator.dispatch, List.map_singleton, List.flatMap_singleton, dispatch_at plain.2.1 inRect]
    rw [List.map_append, List.map_cons, ← List.singleton_append, dispatch_append, dispatch_append, before, behind, here]
    simp only [List.map_append, List.map_cons, Option.map_some, List.append_nil, List.nil_append, List.singleton_append]

/-- A key that a keypad tells of is the one at the mouse. -/
theorem keypad_command {data : MsgMouse} {point : Option Nat} {command : Command}
    (member : command ∈ (keypad held data point).2) : point = some command.id := by
  cases point with
  | none => exact absurd member List.not_mem_nil
  | some key =>
    rw [keypad] at member
    split_ifs at member
    · rw [List.mem_singleton.mp member]
    · exact absurd member List.not_mem_nil
    · rw [List.mem_singleton.mp member]
    · exact absurd member List.not_mem_nil

/-- The key at a point is one of the keys. -/
theorem keyAt_mem {point : Point} {key : Nat} (found : keyAt buttons point = some key) :
    key ∈ buttons.map Button.id := by
  obtain ⟨button, here, rfl⟩ := Option.map_eq_some_iff.mp found
  exact List.mem_map_of_mem (List.mem_of_find?_eq_some here)

/-- Rectangles beside each other have no common point. -/
theorem beside_disjoint {rect other : Rect}
    (beside : rect.right ≤ other.left ∨ other.right ≤ rect.left ∨ rect.bottom ≤ other.top ∨ other.bottom ≤ rect.top)
    (point : Point) (inside : rect.Contains point) : ¬other.Contains point := by
  obtain ⟨left, right, top, bottom⟩ := inside
  rintro ⟨otherLeft, otherRight, otherTop, otherBottom⟩
  omega

/-! ## The buttons of the calculator -/

/-- `WINDOW_WIDTH`. -/
def windowWidth : Nat := 280

/-- `WINDOW_HEIGHT`. -/
def windowHeight : Nat := 330

/-- `NUMPAD_ROWS`. -/
def numpadRows : Nat := 4

/-- `NUMPAD_PADDING`. -/
def numpadPadding : Nat := 6

/-- `NUMPAD_BUTTON_WIDTH`. -/
def numpadButtonWidth : Nat := (windowWidth - numpadPadding * (numpadRows + 1)) / numpadRows

/-- `NUMPAD_WIDTH`. -/
def numpadWidth : Nat := numpadPadding * (numpadRows + 1) + numpadButtonWidth * numpadRows

/-- `NUMPAD_COLUMN_TO_WINDOW`. -/
def numpadColumnToWindow (column : Nat) : Nat := numpadPadding * (column + 1) + numpadButtonWidth * column

/-- `NUMPAD_ROW_TO_WINDOW`. -/
def numpadRowToWindow (row : Nat) : Nat :=
  windowHeight - numpadWidth + numpadPadding * (row + 1) + numpadButtonWidth * row

/-- `numpad_button_create`. -/
def numpadButtonCreate (column row id : Nat) : Button where
  id := id
  rect := rectInitDim (numpadColumnToWindow column) (numpadRowToWindow row) numpadButtonWidth numpadButtonWidth
  toggle := false
  pressed := false

/-- The buttons in the order in which `LMSG_INIT` creates them. -/
def created : List Button :=
  ((List.range 3).flatMap fun column => (List.range 3).map fun row =>
    numpadButtonCreate column row (9 - ((2 - column) + row * 3))) ++
  [numpadButtonCreate 1 3 0, numpadButtonCreate 3 0 47, numpadButtonCreate 3 1 42, numpadButtonCreate 3 2 45,
    numpadButtonCreate 3 3 43, numpadButtonCreate 0 3 60, numpadButtonCreate 2 3 61]

/-- The buttons in the order of the widgets of the window. -/
def numpad : List Button :=
  created.foldl (fun buttons button => OrderedLists.place Button.id button buttons) []

/-- The buttons are apart from each other, and none of them is pressed. -/
theorem numpad_apart : Apart numpad where
  plain := by decide
  different := by decide
  disjoint := by
    have beside : numpad.Pairwise fun button other => button.rect.right ≤ other.rect.left ∨
        other.rect.right ≤ button.rect.left ∨ button.rect.bottom ≤ other.rect.top ∨
          other.rect.bottom ≤ button.rect.top := by decide
    exact beside.imp beside_disjoint

/-! ## The procedure -/

/-- The text that `ulltoa` prints in base 10. -/
def ulltoaText (number : UInt64) : List UInt8 := (numeral 10 number.toNat).map (signedChar 1)

/-- The variables of `procedure` and the name of the label. -/
structure Statics where
  input : UInt64
  accumulator : UInt64
  operation : UInt8
  label : List UInt8
deriving DecidableEq, Repr

/-- `procedure` after `LMSG_INIT`. -/
def Statics.initial : Statics := ⟨0, 0, 61, text "0"⟩

/-- The accumulator after the operation. -/
def Statics.applied (statics : Statics) : UInt64 :=
  if statics.operation = 47 then statics.accumulator / statics.input
  else if statics.operation = 42 then statics.accumulator * statics.input
  else if statics.operation = 45 then statics.accumulator - statics.input
  else if statics.operation = 43 then statics.accumulator + statics.input
  else if statics.operation = 61 then statics.input
  else statics.accumulator

/-- `procedure` with `LMSG_COMMAND`. -/
def Statics.procedure (statics : Statics) (data : Command) : Statics :=
  if data.type = .release then
    if data.id ≤ 9 then
      let input := statics.input * 10 + UInt64.ofNat data.id
      { statics with input := input, label := ulltoaText input }
    else if data.id = 60 then
      let input := statics.input / 10
      { statics with input := input, label := ulltoaText input }
    else if statics.operation = 47 ∧ statics.input = 0 then { statics with label := text "DIV BY ZERO" }
    else
      { input := 0
        accumulator := statics.applied
        operation := UInt8.ofNat data.id
        label := ulltoaText (if data.id = 61 then statics.applied else 0) }
  else statics

/-! ## The client -/

/-- `win_screen_to_client` of a window with `WIN_DECO`. -/
def winScreenToClient (window : Win) (point : Point) : Point :=
  ⟨point.x - (window.pos.x + edgeWidth), point.y - (window.pos.y + (edgeWidth + topbarHeight + padding))⟩

/-- The window with its buttons and what `procedure` remembers, the commands that were sent to the window, and
the number of those that were handled. -/
structure Client where
  win : Win
  buttons : List Button
  sent : List Command
  handled : Nat
  statics : Statics

/-- What the window is told next. -/
inductive Event where
  | mouse (data : MsgMouse)
  | command

/-- `win_dispatch`. -/
def Client.step (client : Client) : Event → Option Client
  | .mouse data =>
    let win := (winHandleDragAndCloseButton client.win data).1
    let told := dispatch client.buttons (winScreenToClient win data.pos) data
    some { client with win := win, buttons := told.1, sent := client.sent ++ told.2 }
  | .command => client.sent[client.handled]?.map fun data =>
    { client with statics := client.statics.procedure data, handled := client.handled + 1 }

/-- The client after its start. -/
def start (win : Win) : Client := ⟨win, numpad, [], 0, .initial⟩

/-! ## The tape -/

/-- An operation on two words. -/
inductive Operation where
  | divide
  | multiply
  | subtract
  | add
  | equals
deriving DecidableEq, Repr

/-- A key of the calculator. -/
inductive Key where
  | digit (value : Nat)
  | erase
  | operation (operation : Operation)
deriving DecidableEq, Repr

/-- What an operation comes to. The operation `=` starts again with the number after it. -/
def Operation.apply (value number : UInt64) : Operation → UInt64
  | .divide => value / number
  | .multiply => value * number
  | .subtract => value - number
  | .add => value + number
  | .equals => number

/-- What the calculator shows. -/
inductive Shown where
  | number
  | value
  | refusal
deriving DecidableEq, Repr

/-- What was entered: numbers after operations, the next operation, and the digits that are typed. -/
structure Tape where
  terms : List (Operation × UInt64)
  next : Operation
  digits : List Nat
  shown : Shown
deriving DecidableEq, Repr

/-- Nothing was entered. -/
def Tape.empty : Tape := ⟨[], .equals, [], .number⟩

/-- The number that digits mean. -/
def numberOf (digits : List Nat) : Nat := Nat.ofDigits 10 digits.reverse

/-- The number that is typed. -/
def Tape.number (tape : Tape) : UInt64 := UInt64.ofNat (numberOf tape.digits)

/-- The operations in their order, from the left to the right. -/
def Tape.value (tape : Tape) : UInt64 :=
  tape.terms.foldl (fun value term => term.1.apply value term.2) 0

/-- A key is pressed. A division by zero is refused. -/
def Tape.enter (tape : Tape) : Key → Tape
  | .digit value => { tape with digits := tape.digits ++ [value], shown := .number }
  | .erase => { tape with digits := tape.digits.dropLast, shown := .number }
  | .operation operation =>
    if tape.next = .divide ∧ numberOf tape.digits = 0 then { tape with shown := .refusal }
    else
      { terms := tape.terms ++ [(tape.next, tape.number)]
        next := operation
        digits := []
        shown := if operation = .equals then .value else .number }

/-- The text that is shown. -/
def Tape.label (tape : Tape) : List UInt8 :=
  match tape.shown with
  | .number => ulltoaText tape.number
  | .value => ulltoaText tape.value
  | .refusal => text "DIV BY ZERO"

/-- The character of an operation. -/
def Operation.char : Operation → UInt8
  | .divide => 47
  | .multiply => 42
  | .subtract => 45
  | .add => 43
  | .equals => 61

/-- The key of a button. -/
def keyOf (id : Nat) : Option Key :=
  if id ≤ 9 then some (.digit id)
  else if id = 60 then some .erase
  else (([.divide, .multiply, .subtract, .add, .equals] : List Operation).find? fun operation =>
    operation.char.toNat = id).map Key.operation

/-- The window with one keypad and the tape of the keys that were released. -/
structure Desk where
  win : Win
  held : Option Nat
  sent : List Command
  handled : Nat
  tape : Tape

/-- What the window is told next. -/
def Desk.step (desk : Desk) : Event → Option Desk
  | .mouse data =>
    let win := (winHandleDragAndCloseButton desk.win data).1
    let told := keypad desk.held data (keyAt numpad (winScreenToClient win data.pos))
    some { desk with win := win, held := told.1, sent := desk.sent ++ told.2 }
  | .command => desk.sent[desk.handled]?.map fun data =>
    { desk with
      tape := if data.type = .release then (keyOf data.id).elim desk.tape desk.tape.enter else desk.tape
      handled := desk.handled + 1 }

/-- The window after its start. -/
def begin (win : Win) : Desk := ⟨win, none, [], 0, .empty⟩

/-- The number that is typed fits into a word. -/
def Desk.Fits (desk : Desk) : Prop := numberOf desk.tape.digits < 2 ^ 64

instance (desk : Desk) : Decidable desk.Fits := inferInstanceAs (Decidable (_ < _))

/-! ## The procedure keeps the tape -/

/-- The variables of `procedure` with a tape. -/
def Tape.statics (tape : Tape) : Statics where
  input := tape.number
  accumulator := tape.value
  operation := tape.next.char
  label := tape.label

/-- What is shown on the way of a tape, with the buttons that are the keypad. -/
def Desk.client (desk : Desk) : Client where
  win := desk.win
  buttons := numpad.map (Button.hold desk.held)
  sent := desk.sent
  handled := desk.handled
  statics := desk.tape.statics

/-- The typed digits are digits, and all commands are of buttons. -/
structure Desk.Sound (desk : Desk) : Prop where
  digits : ∀ digit ∈ desk.tape.digits, digit < 10
  sent : ∀ command ∈ desk.sent, command.id ∈ numpad.map Button.id

/-- Each button has a key. -/
theorem keyOf_numpad {id : Nat} (member : id ∈ numpad.map Button.id) : (keyOf id).isSome = true := by
  have all : ∀ id ∈ numpad.map Button.id, (keyOf id).isSome = true := by decide
  exact all id member

/-- One more digit. -/
theorem numberOf_append (digits : List Nat) (digit : Nat) :
    numberOf (digits ++ [digit]) = numberOf digits * 10 + digit := by
  rw [numberOf, numberOf, List.reverse_append, List.reverse_singleton, List.singleton_append, Nat.ofDigits_cons,
    Nat.add_comm, Nat.mul_comm]

/-- One digit less. -/
theorem numberOf_dropLast {digits : List Nat} (small : ∀ digit ∈ digits, digit < 10) :
    numberOf digits.dropLast = numberOf digits / 10 := by
  rcases List.eq_nil_or_concat digits with rfl | ⟨front, last, rfl⟩
  · rfl
  · have lastSmall := small last (by simp)
    rw [List.concat_eq_append, List.dropLast_concat, numberOf_append]
    omega

/-- The accumulator after the operation is the value of one more term. -/
theorem applied_statics (tape : Tape) : tape.statics.applied =
    tape.next.apply tape.value tape.number := by
  rw [Statics.applied, Tape.statics]
  cases tape.next with
  | divide => rfl
  | multiply => rfl
  | subtract => rfl
  | add => rfl
  | equals => rfl

/-- One more term. -/
theorem value_append (tape : Tape) (next : Operation) (digits : List Nat) (shown : Shown) (number : UInt64) :
    Tape.value ⟨tape.terms ++ [(tape.next, number)], next, digits, shown⟩ = tape.next.apply tape.value number := by
  rw [Tape.value, List.foldl_append, Tape.value]
  rfl

/-- A typed digit. -/
theorem procedure_digit (tape : Tape) {digit : Nat} (small : digit ≤ 9) :
    tape.statics.procedure ⟨.release, digit⟩ = (tape.enter (.digit digit)).statics := by
  have input : tape.number * 10 + UInt64.ofNat digit = (tape.enter (.digit digit)).number := by
    rw [Tape.number, Tape.number, Tape.enter, numberOf_append, UInt64.ofNat_add, UInt64.ofNat_mul]
    rfl
  simp only [Statics.procedure, Tape.statics, if_true, if_pos small, input]
  rfl

/-- An erased digit. -/
theorem procedure_erase {tape : Tape} (small : ∀ digit ∈ tape.digits, digit < 10)
    (fits : numberOf tape.digits < 2 ^ 64) :
    tape.statics.procedure ⟨.release, 60⟩ = (tape.enter .erase).statics := by
  have input : tape.number / 10 = (tape.enter .erase).number := by
    rw [Tape.number, Tape.number, Tape.enter, numberOf_dropLast small, ← UInt64.toNat_inj, UInt64.toNat_div,
      UInt64.toNat_ofNat_of_lt' fits, UInt64.toNat_ofNat_of_lt' (Nat.lt_of_le_of_lt (Nat.div_le_self _ _) fits)]
    rfl
  have large : ¬60 ≤ 9 := by decide
  simp only [Statics.procedure, Tape.statics, if_true, if_neg large, input]
  rfl

/-- An operation. -/
theorem procedure_operation {tape : Tape} (fits : numberOf tape.digits < 2 ^ 64) (operation : Operation) :
    tape.statics.procedure ⟨.release, operation.char.toNat⟩ = (tape.enter (.operation operation)).statics := by
  have large : ¬operation.char.toNat ≤ 9 := by cases operation <;> decide
  have other : operation.char.toNat ≠ 60 := by cases operation <;> decide
  have refuses : tape.statics.operation = 47 ∧ tape.statics.input = 0 ↔
      tape.next = .divide ∧ numberOf tape.digits = 0 := by
    have zero : tape.number = 0 ↔ numberOf tape.digits = 0 := by
      rw [Tape.number, ← UInt64.toNat_inj, UInt64.toNat_ofNat_of_lt' fits, UInt64.toNat_zero]
    have divides : tape.next.char = 47 ↔ tape.next = .divide := by cases tape.next <;> decide
    exact and_congr divides zero
  have equals : operation.char.toNat = 61 ↔ operation = .equals := by cases operation <;> decide
  simp only [Statics.procedure, if_true, if_neg large, if_neg other, refuses, applied_statics, equals, Tape.enter]
  split_ifs
  · rfl
  · rw [Tape.statics, Tape.label, value_append, UInt8.ofNat_toNat]
    rfl
  · rw [Tape.statics, Tape.label, value_append, UInt8.ofNat_toNat]
    rfl

/-! ## Runs -/

/-- A released button is its key on the tape. -/
theorem procedure_statics {desk : Desk} (sound : desk.Sound) (fits : desk.Fits) {data : Command}
    (isButton : data.id ∈ numpad.map Button.id) :
    desk.tape.statics.procedure data =
      (if data.type = .release then (keyOf data.id).elim desk.tape desk.tape.enter else desk.tape).statics := by
  obtain ⟨type, id⟩ := data
  cases type with
  | press => rfl
  | release =>
    rw [if_pos rfl]
    obtain ⟨key, found⟩ := Option.isSome_iff_exists.mp (keyOf_numpad isButton)
    rw [found, Option.elim_some]
    rw [keyOf] at found
    split_ifs at found with small erases
    · obtain rfl := Option.some.inj found
      exact procedure_digit desk.tape small
    · obtain rfl := Option.some.inj found
      subst erases
      exact procedure_erase sound.digits fits
    · obtain ⟨operation, among, rfl⟩ := Option.map_eq_some_iff.mp found
      have same : operation.char.toNat = id := by simpa using List.find?_some among
      exact same ▸ procedure_operation fits operation

/-- The digits of a tape are digits after another key. -/
theorem enter_digits {tape : Tape} (digits : ∀ digit ∈ tape.digits, digit < 10) {id : Nat} {key : Key}
    (found : keyOf id = some key) : ∀ digit ∈ (tape.enter key).digits, digit < 10 := by
  cases key with
  | digit value =>
    rw [keyOf] at found
    split_ifs at found with small erases
    · obtain rfl : id = value := by simpa using found
      rw [Tape.enter, List.forall_mem_append, List.forall_mem_singleton]
      exact ⟨digits, Nat.lt_succ_of_le small⟩
    · cases found
    · obtain ⟨_, _, impossible⟩ := Option.map_eq_some_iff.mp found
      cases impossible
  | erase => exact fun digit member => digits digit (List.mem_of_mem_dropLast member)
  | operation operation =>
    rw [Tape.enter]
    split_ifs
    · exact digits
    · exact fun _ member => absurd member List.not_mem_nil
    · exact fun _ member => absurd member List.not_mem_nil

/-- What happens keeps the digits and the commands. -/
theorem Desk.Sound.step {desk next : Desk} (sound : desk.Sound) {event : Event} (taken : desk.step event = some next) :
    next.Sound := by
  cases event with
  | mouse data =>
    obtain rfl := Option.some.inj taken
    refine ⟨sound.digits, List.forall_mem_append.mpr ⟨sound.sent, ?_⟩⟩
    intro command member
    exact keyAt_mem (keypad_command member)
  | command =>
    obtain ⟨data, _, rfl⟩ := Option.map_eq_some_iff.mp taken
    refine ⟨?_, sound.sent⟩
    dsimp only
    split_ifs
    · cases found : keyOf data.id with
      | none => exact sound.digits
      | some key => exact enter_digits sound.digits found
    · exact sound.digits

/-- The buttons are the keypad, and the variables are those of the tape. -/
theorem Desk.Sound.client {desk : Desk} (sound : desk.Sound) (fits : desk.Fits) (event : Event) :
    desk.client.step event = (desk.step event).map Desk.client := by
  cases event with
  | mouse data =>
    rw [Client.step, Desk.step, Option.map_some, Desk.client, numpad_apart.dispatch]
    rfl
  | command =>
    rw [Client.step, Desk.step, Desk.client]
    cases found : desk.sent[desk.handled]? with
    | none => rfl
    | some data =>
      have entered := procedure_statics sound fits (sound.sent data (List.mem_of_getElem? found))
      simp only [Option.map_some, entered, Desk.client]

/-- The buttons, each on its own, are one keypad that holds one key at most, and the calculator shows what the
tape of the released keys comes to, as long as the typed numbers fit into a word. -/
theorem tape_shown (win : Win) (events : List Event) (fits : Always Desk.step (begin win) Desk.Fits events) :
    run Client.step (start win) events = (run Desk.step (begin win) events).map Desk.client := by
  have first : Desk.client (begin win) = start win := rfl
  have soundFirst : (begin win).Sound :=
    ⟨fun _ member => absurd member List.not_mem_nil, fun _ member => absurd member List.not_mem_nil⟩
  rw [← first]
  refine run_map soundFirst ?_ ?_ events fits
  · intro desk event next sound taken
    exact sound.step taken
  · intro desk event sound fits
    exact sound.client fits event

/-- A click at a point, after which the window is told of both commands. -/
def click (point : Point) : List Event :=
  [.mouse ⟨4, 4, 0, point, ⟨0, 0⟩⟩, .mouse ⟨0, 0, 4, point, ⟨0, 0⟩⟩, .command, .command]

/-- The keys `7` and `=` are clicked. -/
theorem tape_shown_seven : ∃ client, run Client.step (start ⟨⟨0, 0⟩, 286, 378, false, false⟩)
    (click ⟨33, 125⟩ ++ click ⟨163, 325⟩) = some client ∧ client.statics.label = text "7" := by
  have fits : Always Desk.step (begin ⟨⟨0, 0⟩, 286, 378, false, false⟩) Desk.Fits
      (click ⟨33, 125⟩ ++ click ⟨163, 325⟩) :=
    always_cons (by decide) rfl <| always_cons (by decide) rfl <| always_cons (by decide) rfl <|
      always_cons (by decide) rfl <| always_cons (by decide) rfl <| always_cons (by decide) rfl <|
        always_cons (by decide) rfl <| always_cons (by decide) rfl <| always_nil (by decide)
  have shown := tape_shown ⟨⟨0, 0⟩, 286, 378, false, false⟩ (click ⟨33, 125⟩ ++ click ⟨163, 325⟩) fits
  exact ⟨_, shown, by decide⟩

end Asym.Calculator
