import Asym.DwmFocus
import Asym.IndexRings
import Asym.PendingItems

/-!
# Mouse events in batches

A model of `dwm_poll_mouse`. It reads events until a poll finds none, adds up their motions,
joins their buttons, and handles the sum as one event. What the manager remembers of a batch
is so every button that was down in some event of it.

A window is owed the release of a button that it was told is pressed. The manager keeps to one
rule: only the selected window is owed anything, and only for buttons that are remembered.
After a batch, the remembered buttons are those of the last event, and nothing is owed for a
button that this event does not hold, if and only if each button that is down somewhere in the
batch is down in its last event.

The events come out of the ring of `mouse.c`. A poll of the ring reads what was pushed since the
last one, if that is less than the ring has slots.
-/

namespace Asym.MouseBatches

open Graphics Dwm Folds IndexRings PendingItems

/-! ## The source -/

/-- `MOUSE_MAX_EVENT`. -/
def mouseMaxEvent : Nat := 32

/-- `mouse_event_t`. -/
structure MouseEvent where
  time : Nat
  buttons : BitVec 32
  delta : Point
deriving DecidableEq, Repr

/-- `mouse_push`. The ring has the events of `mouse_t` and the position of the manager's file. -/
def mousePush (mouse : IndexRing MouseEvent) (event : MouseEvent) : IndexRing MouseEvent :=
  mouse.push mouseMaxEvent event

/-- `mouse_status`: there is an event to read. -/
def mouseStatus (mouse : IndexRing MouseEvent) : Bool :=
  mouse.writeIndex != mouse.readIndex

/-- `mouse_read` of one event. Without one it waits. -/
def mouseRead (mouse : IndexRing MouseEvent) : Option (MouseEvent × IndexRing MouseEvent) :=
  mouse.pop mouseMaxEvent

/-- An event is added to the total. -/
def MouseEvent.merge (total event : MouseEvent) : MouseEvent where
  time := total.time
  buttons := total.buttons ||| event.buttons
  delta := ⟨total.delta.x + event.delta.x, total.delta.y + event.delta.y⟩

/-- The total before the first event. -/
def noEvent : MouseEvent := ⟨0, 0, ⟨0, 0⟩⟩

/-- The loop of `dwm_poll_mouse` over the ring: the total, and whether an event was received. -/
def pollLoop : Nat → IndexRing MouseEvent → MouseEvent → Bool → Option ((MouseEvent × Bool) × IndexRing MouseEvent)
  | 0, _, _, _ => none
  | fuel + 1, mouse, total, received =>
      if mouseStatus mouse then
        (mouseRead mouse).bind fun read => pollLoop fuel read.2 (total.merge read.1) true
      else some ((total, received), mouse)

/-- What `dwm_poll_mouse` does with the events of a batch. -/
def handleBatch (screen : Screen) (state : State) (cursor : Nat) (total : MouseEvent) (received : Bool) : State :=
  if received then dwmHandleMouseMessage screen state cursor total.buttons total.delta else state

/-- `dwm_poll_mouse`. -/
def dwmPollMouse (screen : Screen) (fuel : Nat) (state : State) (mouse : IndexRing MouseEvent) :
    Option (State × IndexRing MouseEvent) :=
  match state.cursor with
  | none => some (state, mouse)
  | some cursor =>
      (pollLoop fuel mouse noEvent false).map fun polled =>
        (handleBatch screen state cursor polled.1.1 polled.1.2, polled.2)

/-! ## Batches -/

/-- The total of a batch. -/
def total (batch : List MouseEvent) : MouseEvent := batch.foldl MouseEvent.merge noEvent

/-- `dwm_poll_mouse`, when its polls and reads find the events of a batch and then none. -/
def pollBatch (screen : Screen) (state : State) (batch : List MouseEvent) : State :=
  match state.cursor with
  | none => state
  | some cursor => handleBatch screen state cursor (total batch) !batch.isEmpty

/-- The manager after batches. -/
def pollBatches (screen : Screen) (state : State) (batches : List (List MouseEvent)) : State :=
  batches.foldl (pollBatch screen) state

/-- Enough turns read all that is in the ring. -/
theorem pollLoop_contents (fuel : Nat) {mouse : IndexRing MouseEvent} (inside : mouse.Inside mouseMaxEvent)
    (enough : (mouse.contents mouseMaxEvent).length < fuel) (sum : MouseEvent) (received : Bool) :
    ∃ rest, pollLoop fuel mouse sum received =
        some (((mouse.contents mouseMaxEvent).foldl MouseEvent.merge sum,
          received || !(mouse.contents mouseMaxEvent).isEmpty), rest) ∧
      rest.Inside mouseMaxEvent ∧ rest.contents mouseMaxEvent = [] := by
  induction fuel generalizing mouse sum received with
  | zero => exact absurd enough (Nat.not_lt_zero _)
  | succ fuel ih =>
    cases held : mouse.contents mouseMaxEvent with
    | nil =>
      have nothing : mouseStatus mouse = false := by
        have popped := inside.pop_none.mpr held
        rw [IndexRing.pop] at popped
        split_ifs at popped with same
        simp [mouseStatus, same]
      refine ⟨mouse, ?_, inside, held⟩
      simp [pollLoop, nothing]
    | cons event later =>
      obtain ⟨next, popped, nextInside, nextHeld⟩ := inside.pop_cons held
      have something : mouseStatus mouse = true := by
        have nonempty : mouse.pop mouseMaxEvent ≠ none := by simp [popped]
        rw [IndexRing.pop] at nonempty
        split_ifs at nonempty with same
        · exact absurd rfl nonempty
        · simp [mouseStatus, same]
      have shorter : (next.contents mouseMaxEvent).length < fuel := by
        rw [held, List.length_cons] at enough
        rw [nextHeld]
        omega
      obtain ⟨rest, looped, restInside, restHeld⟩ :=
        ih nextInside shorter (sum.merge event) true
      refine ⟨rest, ?_, restInside, restHeld⟩
      rw [pollLoop, if_pos something, mouseRead, popped, Option.bind_some, looped, nextHeld]
      simp

/-- A poll of the ring handles what is in it as a batch, and empties it. -/
theorem dwmPollMouse_contents (screen : Screen) {fuel : Nat} {state : State} {mouse : IndexRing MouseEvent}
    (inside : mouse.Inside mouseMaxEvent) (enough : mouseMaxEvent ≤ fuel) {cursor : Nat}
    (pointed : state.cursor = some cursor) :
    ∃ rest, dwmPollMouse screen fuel state mouse =
        some (pollBatch screen state (mouse.contents mouseMaxEvent), rest) ∧
      rest.Inside mouseMaxEvent ∧ rest.contents mouseMaxEvent = [] := by
  have short : (mouse.contents mouseMaxEvent).length < fuel := by
    rw [IndexRing.contents_length]
    exact Nat.lt_of_lt_of_le inside.length_lt enough
  obtain ⟨rest, looped, restInside, restHeld⟩ := pollLoop_contents fuel inside short noEvent false
  refine ⟨rest, ?_, restInside, restHeld⟩
  simp only [dwmPollMouse, pollBatch, pointed, looped, Option.map_some, Bool.false_or, total]

/-- Fewer events than the ring has slots are all in it after they are pushed. -/
theorem pushed_contents {mouse : IndexRing MouseEvent} (inside : mouse.Inside mouseMaxEvent)
    (batch : List MouseEvent) (room : (mouse.contents mouseMaxEvent).length + batch.length < mouseMaxEvent) :
    (batch.foldl mousePush mouse).Inside mouseMaxEvent ∧
      (batch.foldl mousePush mouse).contents mouseMaxEvent = mouse.contents mouseMaxEvent ++ batch := by
  induction batch generalizing mouse with
  | nil => exact ⟨inside, (List.append_nil _).symm⟩
  | cons event later ih =>
    rw [List.length_cons] at room
    have appended : (mousePush mouse event).contents mouseMaxEvent = mouse.contents mouseMaxEvent ++ [event] := by
      refine inside.push_contents event ?_
      rw [IndexRing.contents_length] at room
      omega
    obtain ⟨insideAfter, contents⟩ := @ih (mousePush mouse event) (inside.push event) (by
      rw [appended, List.length_append, List.length_singleton]
      omega)
    refine ⟨insideAfter, ?_⟩
    rw [List.foldl_cons, contents, appended, List.append_assoc]
    rfl

/-! ## The buttons of a batch -/

/-- A button of the total is down in an event of the batch, or was down before. -/
theorem merged_buttons (batch : List MouseEvent) (sum : MouseEvent) (bit : Nat) :
    (batch.foldl MouseEvent.merge sum).buttons.getLsbD bit = true ↔
      sum.buttons.getLsbD bit = true ∨ ∃ event ∈ batch, event.buttons.getLsbD bit = true := by
  induction batch generalizing sum with
  | nil => simp
  | cons event later ih =>
    rw [List.foldl_cons, ih]
    simp [MouseEvent.merge, or_assoc]

/-- The buttons of a batch are those of its events. -/
theorem total_buttons (batch : List MouseEvent) (bit : Nat) :
    (total batch).buttons.getLsbD bit = true ↔ ∃ event ∈ batch, event.buttons.getLsbD bit = true := by
  rw [total, merged_buttons]
  simp [noEvent]

/-- Each button that is down in a batch is down in its last event. -/
def LastHolds (batch : List MouseEvent) (last : MouseEvent) : Prop :=
  ∀ event ∈ batch, ∀ bit, event.buttons.getLsbD bit = true → last.buttons.getLsbD bit = true

/-- The buttons of a batch are those of its last event, if and only if this event holds all
buttons of the batch. -/
theorem total_buttons_eq (batch : List MouseEvent) (last : MouseEvent) :
    (total (batch ++ [last])).buttons = last.buttons ↔ LastHolds batch last := by
  constructor
  · intro same event inside bit down
    rw [← same, total_buttons]
    exact ⟨event, List.mem_append_left _ inside, down⟩
  · intro holds
    apply BitVec.eq_of_getLsbD_eq
    intro bit _
    rw [Bool.eq_iff_iff, total_buttons]
    constructor
    · rintro ⟨event, inside, down⟩
      rcases List.mem_append.mp inside with before | isLast
      · exact holds event before bit down
      · rw [← List.mem_singleton.mp isLast]
        exact down
    · intro down
      exact ⟨last, List.mem_append_right _ List.mem_cons_self, down⟩

/-! ## Presses and releases -/

/-- A message tells that a button is pressed. -/
def Presses (bit : Nat) : Message → Prop
  | .mouse _ pressed _ _ _ => pressed.getLsbD bit = true
  | _ => False

/-- A message tells that a button is released. -/
def Releases (bit : Nat) : Message → Prop
  | .mouse _ _ released _ _ => released.getLsbD bit = true
  | _ => False

/-- A window was told that a button is pressed, and not that it is released. -/
def Owed (state : State) (id bit : Nat) : Prop :=
  Pending (Presses bit) (Releases bit) (state.heap id).messages

/-- Only the selected window is owed a release, and only of a button that is remembered. -/
def Balanced (state : State) : Prop :=
  ∀ id bit, state.live id = true → Owed state id bit →
    state.selected = some id ∧ state.oldButtons.getLsbD bit = true

/-- A message that is not of the mouse. -/
def NotMouse (message : Message) : Prop :=
  ∀ bit, ¬ Presses bit message ∧ ¬ Releases bit message

/-- Before a window was told anything of the mouse, nothing is owed. -/
theorem balanced_of_untold {state : State}
    (untold : ∀ id, state.live id = true → ∀ message ∈ (state.heap id).messages, NotMouse message) :
    Balanced state := by
  rintro id bit live ⟨earlier, message, later, split, pressed, _⟩
  have inside : message ∈ (state.heap id).messages := by
    rw [split]
    exact List.mem_append_right _ List.mem_cons_self
  exact absurd pressed (untold id live message inside bit).1

/-- What the buttons depend on is the same. -/
structure SameMouse (before after : State) : Prop where
  live : after.live = before.live
  buttons : after.oldButtons = before.oldButtons
  cursor : after.cursor = before.cursor
  owed : ∀ id bit, Owed after id bit ↔ Owed before id bit

instance : IsPreorder State SameMouse where
  refl _ := ⟨rfl, rfl, rfl, fun _ _ => Iff.rfl⟩
  trans _ _ _ first second := ⟨second.live.trans first.live, second.buttons.trans first.buttons,
    second.cursor.trans first.cursor, fun id bit => (second.owed id bit).trans (first.owed id bit)⟩

/-- A change of a window that keeps its messages. -/
theorem SameMouse.modify (state : State) (id : Nat) {change : Window → Window}
    (kept : ∀ window, (change window).messages = window.messages) : SameMouse state (state.modify id change) := by
  refine ⟨rfl, rfl, rfl, ?_⟩
  intro other bit
  by_cases same : other = id
  · rw [Owed, Owed, same, State.modify_self, kept]
  · rw [Owed, Owed, State.modify_of_ne _ _ same]

/-- Drawing keeps the buttons. -/
theorem sameMouse_of_draws {before after : State} (drawn : OnlyDraws before after) :
    SameMouse before after := by
  rw [drawn]
  exact ⟨rfl, rfl, rfl, fun _ _ => Iff.rfl⟩

/-- A change of a window that adds a message that is not of the mouse. -/
theorem SameMouse.push (state : State) (id : Nat) {message : Message} (other : NotMouse message)
    {change : Window → Window} (pushes : ∀ window, (change window).messages = window.messages ++ [message]) :
    SameMouse state (state.modify id change) := by
  refine ⟨rfl, rfl, rfl, ?_⟩
  intro window bit
  by_cases same : window = id
  · rw [Owed, Owed, same, State.modify_self, pushes]
    exact pending_snoc_of_neither _ (other bit).1 (other bit).2
  · rw [Owed, Owed, State.modify_of_ne _ _ same]

/-- Telling the selected window something that is not of the mouse. -/
theorem tellSelected_sameMouse (state : State) {message : Message} (other : NotMouse message) :
    SameMouse state (tellSelected state message) := by
  rw [tellSelected]
  split
  · exact refl_of SameMouse state
  · exact SameMouse.push state _ other (fun _ => rfl)

/-- Selecting a window sends nothing of the mouse. -/
theorem dwmSelect_sameMouse (state : State) (target : Option Nat) : SameMouse state (dwmSelect state target) := by
  have deselect : NotMouse .deselect := fun _ => ⟨False.elim, False.elim⟩
  have select : NotMouse .select := fun _ => ⟨False.elim, False.elim⟩
  rw [dwmSelect]
  split_ifs
  · exact refl_of SameMouse state
  · have deselected := tellSelected_sameMouse state deselect
    cases target with
    | none => exact ⟨deselected.live, deselected.buttons, deselected.cursor, deselected.owed⟩
    | some id =>
      have told := SameMouse.push (tellSelected state .deselect) id select
        (show ∀ window : Window, ((window.push .select).markMoved).messages = window.messages ++ [.select]
          from fun _ => rfl)
      have both := trans_of SameMouse deselected told
      exact ⟨both.live, both.buttons, both.cursor, both.owed⟩

/-- Moving the cursor sends nothing of the mouse. -/
theorem moveCursor_sameMouse (screen : Screen) (state : State) (cursor : Nat) (delta : Point) :
    SameMouse state (moveCursor screen state cursor delta) := by
  simp only [moveCursor]
  split_ifs with motion
  · have drawn (before : State) : SameMouse before (dwmDrawCursor screen before cursor) :=
      sameMouse_of_draws rfl
    apply trans_of SameMouse _ (drawn _)
    apply trans_of SameMouse (sameMouse_of_draws (dwmRedrawOthers_onlyDraws screen state cursor _))
    exact SameMouse.modify _ _ (fun _ => rfl)
  · exact refl_of SameMouse state

/-- The selection by a button sends nothing of the mouse. -/
theorem pressAt_sameMouse (state : State) (pressed : BitVec 32) (pos : Point) :
    SameMouse state (pressAt state pressed pos) := by
  rw [pressAt]
  split_ifs
  · exact dwmSelect_sameMouse _ _
  · exact refl_of SameMouse state

/-- The selection stays while a button is remembered. -/
theorem pressAt_selected {state : State} (remembered : state.oldButtons ≠ 0) (pressed : BitVec 32) (pos : Point) :
    pressAt state pressed pos = state := by
  rw [pressAt, if_neg (fun both => remembered both.2)]

/-! ## A batch -/

/-- The manager before the message of an event of the mouse is sent. -/
def chosen (screen : Screen) (state : State) (cursor : Nat) (buttons : BitVec 32) (delta : Point) : State :=
  let placed := moveCursor screen state cursor delta
  pressAt placed (buttons &&& ~~~state.oldButtons) (placed.heap cursor).pos

/-- What is handled before the message is sent changes nothing of the buttons. -/
theorem chosen_sameMouse (screen : Screen) (state : State) (cursor : Nat) (buttons : BitVec 32) (delta : Point) :
    SameMouse state (chosen screen state cursor buttons delta) :=
  trans_of SameMouse (moveCursor_sameMouse screen state cursor delta) (pressAt_sameMouse _ _ _)

/-- While a button is remembered, an event of the mouse does not change the selection. -/
theorem chosen_selected (screen : Screen) {state : State} (remembered : state.oldButtons ≠ 0) (cursor : Nat)
    (buttons : BitVec 32) (delta : Point) :
    (chosen screen state cursor buttons delta).selected = state.selected := by
  have moved := moveCursor_sameMouse screen state cursor delta
  rw [chosen, pressAt_selected (by rw [moved.buttons]; exact remembered)]
  exact (moveCursor_sameFocus screen state cursor delta).selected

/-- Telling the selected window something keeps the pointers and what is in use. -/
theorem tellSelected_pointers (state : State) (message : Message) :
    (tellSelected state message).selected = state.selected ∧ (tellSelected state message).cursor = state.cursor ∧
      (tellSelected state message).live = state.live := by
  rw [tellSelected]
  split <;> exact ⟨rfl, rfl, rfl⟩

/-- A message of the mouse to the selected window. -/
theorem tellSelected_owed (state : State) (held pressed released : BitVec 32) (pos delta : Point) (id bit : Nat) :
    Owed (tellSelected state (.mouse held pressed released pos delta)) id bit ↔
      if state.selected = some id then
        pressed.getLsbD bit = true ∨ Owed state id bit ∧ ¬ released.getLsbD bit = true
      else Owed state id bit := by
  rw [tellSelected]
  cases target : state.selected with
  | none => simp
  | some window =>
    by_cases same : window = id
    · rw [if_pos (by rw [same]), Owed, same, State.modify_self]
      exact pending_snoc _ _
    · rw [if_neg (fun equal => same (Option.some.inj equal)), Owed, State.modify_of_ne _ _ (Ne.symm same), Owed]

/-- An event of the mouse is remembered, and keeps the rule. -/
theorem Balanced.handle {state : State} (balanced : Balanced state) (screen : Screen) (cursor : Nat)
    (buttons : BitVec 32) (delta : Point) :
    Balanced (dwmHandleMouseMessage screen state cursor buttons delta) := by
  intro id bit live owed
  have same := chosen_sameMouse screen state cursor buttons delta
  have told := (tellSelected_owed (chosen screen state cursor buttons delta) _ _ _ _ _ id bit).mp owed
  have sent : (dwmHandleMouseMessage screen state cursor buttons delta).selected =
      (chosen screen state cursor buttons delta).selected := (tellSelected_pointers _ _).1
  have used : state.live id = true := by
    rw [← same.live]
    exact (congrFun (tellSelected_pointers _ _).2.2 id).symm.trans live
  change _ ∧ buttons.getLsbD bit = true
  rw [sent]
  split_ifs at told with selected
  · refine ⟨selected, ?_⟩
    rcases told with pressed | ⟨before, notReleased⟩
    · exact (by simpa using pressed : _ ∧ _).1
    · have remembered := (balanced id bit used ((same.owed id bit).mp before)).2
      by_contra up
      have inWord := BitVec.lt_of_getLsbD remembered
      exact notReleased (by
        rw [BitVec.getLsbD_and, BitVec.getLsbD_not, remembered, Bool.eq_false_iff.mpr up]
        simp [inWord])
  · -- what is owed to another window would be remembered, and so the selection would have stayed
    obtain ⟨was, remembered⟩ := balanced id bit used ((same.owed id bit).mp told)
    have some_ : state.oldButtons ≠ 0 := by
      intro none
      rw [none] at remembered
      simp at remembered
    exact absurd ((chosen_selected screen some_ cursor buttons delta).trans was) selected

/-- An event of the mouse keeps the cursor. -/
theorem handle_cursor (screen : Screen) (state : State) (cursor : Nat) (buttons : BitVec 32) (delta : Point) :
    (dwmHandleMouseMessage screen state cursor buttons delta).cursor = state.cursor := by
  exact (tellSelected_pointers _ _).2.1.trans (chosen_sameMouse screen state cursor buttons delta).cursor

/-- A batch keeps the cursor and the rule. -/
theorem Balanced.pollBatch {state : State} (balanced : Balanced state) (screen : Screen)
    (batch : List MouseEvent) :
    Balanced (pollBatch screen state batch) ∧ (pollBatch screen state batch).cursor = state.cursor := by
  rw [MouseBatches.pollBatch]
  cases pointed : state.cursor with
  | none => exact ⟨balanced, pointed⟩
  | some cursor =>
    simp only [handleBatch]
    split_ifs with received
    · exact ⟨balanced.handle screen cursor _ _, (handle_cursor screen state cursor _ _).trans pointed⟩
    · exact ⟨balanced, pointed⟩

/-- Batches keep the cursor and the rule. -/
theorem Balanced.pollBatches {state : State} (balanced : Balanced state) (screen : Screen)
    (batches : List (List MouseEvent)) :
    Balanced (pollBatches screen state batches) ∧ (pollBatches screen state batches).cursor = state.cursor := by
  induction batches generalizing state with
  | nil => exact ⟨balanced, rfl⟩
  | cons batch later ih =>
    obtain ⟨kept, sameCursor⟩ := balanced.pollBatch screen batch
    obtain ⟨keptLater, sameLater⟩ := ih kept
    exact ⟨keptLater, sameLater.trans sameCursor⟩

/-- The buttons that are remembered are those of the last event, and the selected window is not owed
the release of a button that the last event does not hold. -/
def Remembers (state : State) (last : MouseEvent) : Prop :=
  state.oldButtons = last.buttons ∧
    ∀ id, state.selected = some id → state.live id = true → ∀ bit, Owed state id bit → last.buttons.getLsbD bit = true

/-- After a batch, the buttons of its last event are remembered and all others were released, if
and only if the last event holds all buttons of the batch. -/
theorem remembers_iff (screen : Screen) {state : State} (balanced : Balanced state) {cursor : Nat}
    (pointed : state.cursor = some cursor) (batches : List (List MouseEvent)) (batch : List MouseEvent)
    (last : MouseEvent) :
    Remembers (pollBatches screen state (batches ++ [batch ++ [last]])) last ↔ LastHolds batch last := by
  obtain ⟨before, sameCursor⟩ := balanced.pollBatches screen batches
  obtain ⟨after, _⟩ := before.pollBatch screen (batch ++ [last])
  have unfolded : pollBatches screen state (batches ++ [batch ++ [last]]) =
      pollBatch screen (pollBatches screen state batches) (batch ++ [last]) := by
    rw [pollBatches, List.foldl_append]
    rfl
  have remembered : (pollBatch screen (pollBatches screen state batches) (batch ++ [last])).oldButtons =
      (total (batch ++ [last])).buttons := by
    rw [pollBatch, sameCursor.trans pointed]
    have received : (!(batch ++ [last]).isEmpty) = true := by simp
    simp only [handleBatch, received, if_true]
    rfl
  rw [unfolded, ← total_buttons_eq]
  constructor
  · intro remembers
    exact remembered.symm.trans remembers.1
  · intro same
    refine ⟨remembered.trans same, ?_⟩
    intro id _ live bit owed
    rw [← same, ← remembered]
    exact (after id bit live owed).2

/-- Pushing a batch and polling the ring handles the batch, if it is shorter than the ring. -/
theorem dwmPollMouse_pushed (screen : Screen) {fuel : Nat} {state : State} {mouse : IndexRing MouseEvent}
    (inside : mouse.Inside mouseMaxEvent) (empty : mouse.contents mouseMaxEvent = []) (enough : mouseMaxEvent ≤ fuel)
    {cursor : Nat} (pointed : state.cursor = some cursor) (batch : List MouseEvent)
    (room : batch.length < mouseMaxEvent) :
    ∃ rest, dwmPollMouse screen fuel state (batch.foldl mousePush mouse) =
        some (pollBatch screen state batch, rest) ∧
      rest.Inside mouseMaxEvent ∧ rest.contents mouseMaxEvent = [] := by
  obtain ⟨pushedInside, pushed⟩ := pushed_contents inside batch (by rwa [empty, List.length_nil, Nat.zero_add])
  rw [empty, List.nil_append] at pushed
  have polled := dwmPollMouse_contents screen pushedInside enough pointed
  rwa [pushed] at polled

/-- A manager with a cursor and a window that is selected. -/
def oneWindow : State :=
  { initial smallScreen blankMemory fun _ => 0 with
    live := fun id => id == 1
    windows := [1]
    selected := some 1
    cursor := some 0 }

/-- The left button is pressed in one batch and released in the next. -/
theorem remembers_oneWindow :
    Remembers (pollBatches smallScreen oneWindow ([[⟨1, 4, ⟨0, 0⟩⟩]] ++ [[] ++ [⟨2, 0, ⟨0, 0⟩⟩]]))
      ⟨2, 0, ⟨0, 0⟩⟩ := by
  have balanced : Balanced oneWindow := balanced_of_untold fun _ _ _ inside => absurd inside List.not_mem_nil
  exact (remembers_iff smallScreen balanced rfl [[⟨1, 4, ⟨0, 0⟩⟩]] [] ⟨2, 0, ⟨0, 0⟩⟩).mpr (List.forall_mem_nil _)

/-- The left button is pressed and released in one batch: the manager remembers it as pressed. -/
theorem click_in_one_batch :
    ¬ Remembers (pollBatches smallScreen oneWindow [[⟨1, 4, ⟨0, 0⟩⟩, ⟨2, 0, ⟨0, 0⟩⟩]]) ⟨2, 0, ⟨0, 0⟩⟩ := by
  rintro ⟨remembered, _⟩
  exact absurd remembered (by decide)

end Asym.MouseBatches
