import Asym.Dwm
import Mathlib.Data.List.Nodup

/-!
# Pointers and focus of the window manager

The list of windows and the pointers to the selected window, to the cursor and to the
wall refer to live windows of the right kind, and the messages about the selection
tell every window in turn that it is selected and that it is not.

Drawing and moving change neither pointers nor messages. What is left are the
selection, the creation of a window and its removal, with one lemma each.
-/

namespace Asym.Dwm

open Graphics EventRuns Folds

/-- A message about the selection. -/
def Message.isFocus : Message → Bool
  | .select | .deselect => true
  | _ => false

/-- The messages about the selection that were pushed to a window. -/
def Window.focus (window : Window) : List Message :=
  window.messages.filter Message.isFocus

/-- Messages that say in turn that a window is selected and that it is not, starting
with the former. -/
def Alternates (messages : List Message) : Prop :=
  ∀ position message, messages[position]? = some message →
    message = if position % 2 = 0 then .select else .deselect

/-- The pointers of the manager and the messages about the selection are consistent. -/
structure Consistent (state : State) : Prop where
  once : state.windows.Nodup
  listed : ∀ id, id ∈ state.windows ↔
    state.live id = true ∧ ((state.heap id).type = .window ∨ (state.heap id).type = .panel)
  cursor : ∀ id, state.cursor = some id →
    state.live id = true ∧ (state.heap id).type = .cursor ∧ id ∉ state.windows
  wall : ∀ id, state.wall = some id →
    state.live id = true ∧ (state.heap id).type = .wall ∧ id ∉ state.windows
  selected : ∀ id, state.selected = some id → state.live id = true ∧ id ∈ state.windows
  alternates : ∀ id, state.live id = true → Alternates (state.heap id).focus
  focused : ∀ id, state.live id = true →
    (state.selected = some id ↔ (state.heap id).focus.getLast? = some .select)

/-- The last of alternating messages tells their number. -/
theorem Alternates.last_iff {messages : List Message} (alternates : Alternates messages) :
    messages.getLast? = some .select ↔ messages.length % 2 = 1 := by
  rw [List.getLast?_eq_getElem?]
  cases found : messages[messages.length - 1]? with
  | none =>
    have empty := List.getElem?_eq_none_iff.mp found
    simp only [reduceCtorEq, false_iff]
    omega
  | some message =>
    obtain ⟨inside, _⟩ := List.getElem?_eq_some_iff.mp found
    rw [alternates _ message found, Option.some.injEq]
    split_ifs with even
    · simp only [true_iff]
      omega
    · simp only [false_iff]
      omega

/-- Alternating messages go on with the message that their number asks for. -/
theorem Alternates.snoc {messages : List Message} (alternates : Alternates messages) {message : Message}
    (next : message = if messages.length % 2 = 0 then .select else .deselect) :
    Alternates (messages ++ [message]) := by
  intro position found held
  rcases Nat.lt_or_ge position messages.length with inside | beyond
  · rw [List.getElem?_append_left inside] at held
    exact alternates position found held
  · rw [List.getElem?_append_right beyond] at held
    obtain ⟨small, same⟩ := List.getElem?_eq_some_iff.mp held
    have last : position = messages.length := by
      simp only [List.length_singleton] at small
      omega
    subst last
    simp only [Nat.sub_self, List.getElem_cons_zero] at same
    rw [← same, next]

/-- Nothing about pointers and messages differs. -/
structure SameFocus (before after : State) : Prop where
  live : after.live = before.live
  windows : after.windows = before.windows
  selected : after.selected = before.selected
  cursor : after.cursor = before.cursor
  wall : after.wall = before.wall
  type : ∀ id, (after.heap id).type = (before.heap id).type
  focus : ∀ id, (after.heap id).focus = (before.heap id).focus

instance : IsPreorder State SameFocus where
  refl _ := ⟨rfl, rfl, rfl, rfl, rfl, fun _ => rfl, fun _ => rfl⟩
  trans _ _ _ first second :=
    ⟨second.live.trans first.live, second.windows.trans first.windows,
      second.selected.trans first.selected, second.cursor.trans first.cursor,
      second.wall.trans first.wall, fun id => (second.type id).trans (first.type id),
      fun id => (second.focus id).trans (first.focus id)⟩

/-- Consistency depends on pointers and messages only. -/
theorem Consistent.of_same {before after : State} (consistent : Consistent before)
    (same : SameFocus before after) : Consistent after := by
  constructor
  · rw [same.windows]
    exact consistent.once
  · intro id
    rw [same.windows, same.live, same.type]
    exact consistent.listed id
  · intro id
    rw [same.windows, same.live, same.type, same.cursor]
    exact consistent.cursor id
  · intro id
    rw [same.windows, same.live, same.type, same.wall]
    exact consistent.wall id
  · intro id
    rw [same.windows, same.live, same.selected]
    exact consistent.selected id
  · intro id
    rw [same.live, same.focus]
    exact consistent.alternates id
  · intro id
    rw [same.live, same.focus, same.selected]
    exact consistent.focused id

/-- A change of a window that keeps its type and its messages about the selection. -/
theorem SameFocus.modify (state : State) (id : Nat) (change : Window → Window)
    (type : ∀ window, (change window).type = window.type)
    (focus : ∀ window, (change window).focus = window.focus) : SameFocus state (state.modify id change) := by
  constructor
  · rfl
  · rfl
  · rfl
  · rfl
  · rfl
  · intro other
    by_cases same : other = id
    · rw [same, State.modify_self, type]
    · rw [State.modify_of_ne _ _ same]
  · intro other
    by_cases same : other = id
    · rw [same, State.modify_self, focus]
    · rw [State.modify_of_ne _ _ same]

/-- Drawing changes neither pointers nor messages. -/
theorem OnlyDraws.sameFocus {before after : State} (drawn : OnlyDraws before after) :
    SameFocus before after := by
  rw [drawn]
  exact ⟨rfl, rfl, rfl, rfl, rfl, fun _ => rfl, fun _ => rfl⟩

variable (screen : Screen)

/-- Marking windows as moved changes neither pointers nor messages. -/
theorem markAllMoved_sameFocus (state : State) (ids : List Nat) : SameFocus state (markAllMoved state ids) := by
  apply foldl_related
  intro id _ before
  exact SameFocus.modify _ _ _ (fun _ => rfl) (fun _ => rfl)

/-- Updating the client rectangle changes neither pointers nor messages. -/
theorem dwmUpdateClientRect_sameFocus (state : State) :
    SameFocus state (dwmUpdateClientRect screen state) := by
  have marked := markAllMoved_sameFocus state state.windows
  exact ⟨marked.live, marked.windows, marked.selected, marked.cursor, marked.wall, marked.type,
    marked.focus⟩

/-- Invalidating changes neither pointers nor messages. -/
theorem dwmInvalidateAbove_sameFocus (state : State) (window : Nat) (rect : Rect) :
    SameFocus state (dwmInvalidateAbove state window rect) := by
  apply foldl_related
  intro other _ before
  rw [invalidateOther]
  split
  · exact SameFocus.modify _ _ _ (fun _ => rfl) (fun _ => rfl)
  · exact refl_of SameFocus before

/-- Drawing a part of a window changes neither pointers nor messages. -/
theorem drawRect_sameFocus (state : State) (id : Nat) (rect : Rect) :
    SameFocus state (drawRect screen state id rect) := by
  have drawn : SameFocus state (dwmTransfer screen state id rect) := OnlyDraws.sameFocus rfl
  apply trans_of SameFocus drawn
  apply trans_of SameFocus (dwmInvalidateAbove_sameFocus _ id rect)
  exact SameFocus.modify _ _ _ (fun _ => rfl) (fun _ => rfl)

/-- Drawing a window changes neither pointers nor messages. -/
theorem drawWindow_sameFocus (state : State) (id : Nat) :
    SameFocus state (drawWindow screen state id) := by
  rw [drawWindow]
  split
  · apply trans_of SameFocus (expose_onlyDraws screen state id).sameFocus
    apply trans_of SameFocus _ (drawRect_sameFocus screen _ id _)
    exact SameFocus.modify _ _ _ (fun _ => rfl) (fun _ => rfl)
  · split
    · apply trans_of SameFocus _ (drawRect_sameFocus screen _ id _)
      exact SameFocus.modify _ _ _ (fun _ => rfl) (fun _ => rfl)
    · exact refl_of SameFocus state

/-- Drawing the wall changes neither pointers nor messages. -/
theorem dwmDrawWall_sameFocus (state : State) (wall : Nat) :
    SameFocus state (dwmDrawWall screen state wall) := by
  rw [dwmDrawWall]
  split
  · exact refl_of SameFocus state
  · apply trans_of SameFocus _ (markAllMoved_sameFocus _ _)
    have drawn (before : State) (rect : Rect) : SameFocus before (dwmTransfer screen before wall rect) :=
      OnlyDraws.sameFocus rfl
    apply trans_of SameFocus _ (drawn _ _)
    exact SameFocus.modify _ _ _ (fun _ => rfl) (fun _ => rfl)

/-- A draw pass changes neither pointers nor messages. -/
theorem drawPass_sameFocus (state : State) : SameFocus state (drawPass screen state) := by
  rw [drawPass]
  split
  · exact refl_of SameFocus state
  · apply trans_of SameFocus (dwmDrawWall_sameFocus screen state _)
    apply foldl_related
    intro id _ before
    exact drawWindow_sameFocus screen before id

/-- An iteration of the loop changes neither pointers nor messages. -/
theorem dwmLoop_sameFocus (state : State) : SameFocus state (dwmLoop screen state) := by
  rw [dwmLoop]
  split
  · exact refl_of SameFocus state
  · exact drawPass_sameFocus screen state
  · have drawn (before : State) (cursor : Nat) : SameFocus before (dwmDrawCursor screen before cursor) :=
      OnlyDraws.sameFocus rfl
    exact trans_of SameFocus (drawPass_sameFocus screen state) (drawn _ _)

/-- Moving the cursor changes neither pointers nor messages. -/
theorem moveCursor_sameFocus (state : State) (cursor : Nat) (delta : Point) :
    SameFocus state (moveCursor screen state cursor delta) := by
  simp only [moveCursor]
  split_ifs with motion
  · have drawn (before : State) : SameFocus before (dwmDrawCursor screen before cursor) :=
      OnlyDraws.sameFocus rfl
    apply trans_of SameFocus _ (drawn _)
    apply trans_of SameFocus (dwmRedrawOthers_onlyDraws screen state cursor _).sameFocus
    exact SameFocus.modify _ _ _ (fun _ => rfl) (fun _ => rfl)
  · exact refl_of SameFocus state

/-- A message that is not about the selection. -/
theorem tellSelected_sameFocus (state : State) {message : Message} (other : message.isFocus = false) :
    SameFocus state (tellSelected state message) := by
  rw [tellSelected]
  split
  · exact refl_of SameFocus state
  · apply SameFocus.modify
    · intro _
      rfl
    · intro window
      simp [Window.focus, Window.push, other]

/-- Telling a window that it is selected or not. -/
theorem focus_push {message : Message} (about : message.isFocus = true) (window : Window) :
    (window.push message).focus = window.focus ++ [message] := by
  simp only [Window.focus, Window.push, List.filter_append, List.filter_cons, about, if_true,
    List.filter_nil]

/-- The selected window is told that it is not selected any more. -/
theorem Consistent.deselect {state : State} (consistent : Consistent state) {old : Nat}
    (current : state.selected = some old) :
    Consistent { state.modify old (Window.push .deselect) with selected := none } := by
  have type (id : Nat) : ((state.modify old (Window.push .deselect)).heap id).type = (state.heap id).type := by
    by_cases same : id = old
    · rw [same, State.modify_self, Window.push]
    · rw [State.modify_of_ne _ _ same]
  have told : ((state.modify old (Window.push .deselect)).heap old).focus =
      (state.heap old).focus ++ [.deselect] := by
    rw [State.modify_self, focus_push rfl]
  constructor
  · exact consistent.once
  · intro id
    simp only [type]
    exact consistent.listed id
  · intro id
    simp only [type]
    exact consistent.cursor id
  · intro id
    simp only [type]
    exact consistent.wall id
  · intro id chosen
    cases chosen
  · intro id live
    by_cases same : id = old
    · subst same
      have alternates := consistent.alternates id live
      have odd := alternates.last_iff.mp ((consistent.focused id live).mp current)
      simp only [told]
      apply alternates.snoc
      rw [if_neg (by omega)]
    · simp only [State.modify_of_ne _ _ same]
      exact consistent.alternates id live
  · intro id live
    by_cases same : id = old
    · subst same
      simp only [told, List.getLast?_concat, reduceCtorEq, Option.some.injEq]
    · have unselected : state.selected ≠ some id := by
        rw [current]
        intro equal
        exact same (Option.some.inj equal).symm
      simp only [State.modify_of_ne _ _ same, reduceCtorEq, false_iff]
      exact mt (consistent.focused id live).mpr unselected

/-- Without a selected window, a window of the list is raised, selected and told so. -/
theorem Consistent.choose {state : State} (consistent : Consistent state)
    (free : state.selected = none) {id : Nat} (listed : id ∈ state.windows) :
    Consistent { state.modify id fun window => (window.push .select).markMoved with
      windows := state.windows.erase id ++ [id]
      selected := some id } := by
  have type (other : Nat) : ((state.modify id fun window => (window.push .select).markMoved).heap other).type =
      (state.heap other).type := by
    by_cases same : other = id
    · rw [same, State.modify_self, Window.markMoved, Window.push]
    · rw [State.modify_of_ne _ _ same]
  have told : ((state.modify id fun window => (window.push .select).markMoved).heap id).focus =
      (state.heap id).focus ++ [.select] := by
    rw [State.modify_self]
    exact focus_push rfl _
  have raised (other : Nat) : other ∈ state.windows.erase id ++ [id] ↔ other ∈ state.windows := by
    rw [List.mem_append, List.mem_singleton, consistent.once.mem_erase_iff]
    by_cases same : other = id
    · rw [same]
      exact iff_of_true (.inr rfl) listed
    · simp only [same, ne_eq, not_false_eq_true, true_and, or_false]
  constructor
  · simp only [← List.concat_eq_append]
    apply List.Nodup.concat _ (consistent.once.erase id)
    intro inErased
    exact (consistent.once.mem_erase_iff.mp inErased).1 rfl
  · intro other
    simp only [raised, type]
    exact consistent.listed other
  · intro other
    simp only [raised, type]
    exact consistent.cursor other
  · intro other
    simp only [raised, type]
    exact consistent.wall other
  · intro other chosen
    obtain rfl := Option.some.inj chosen
    simp only [raised]
    exact ⟨((consistent.listed id).mp listed).1, listed⟩
  · intro other live
    by_cases same : other = id
    · subst same
      have alternates := consistent.alternates other live
      have notLast : ¬ (state.heap other).focus.getLast? = some .select := by
        rw [← consistent.focused other live, free]
        simp only [reduceCtorEq, not_false_eq_true]
      have even := mt alternates.last_iff.mpr notLast
      simp only [told]
      apply alternates.snoc
      rw [if_pos (by omega)]
    · simp only [State.modify_of_ne _ _ same]
      exact consistent.alternates other live
  · intro other live
    by_cases same : other = id
    · subst same
      simp only [told, List.getLast?_concat]
    · simp only [State.modify_of_ne _ _ same, Option.some.injEq, Ne.symm same, false_iff]
      rw [← consistent.focused other live, free]
      simp only [reduceCtorEq, not_false_eq_true]

/-- Selecting a window of the list, or none. -/
theorem Consistent.dwmSelect {state : State} (consistent : Consistent state) (target : Option Nat)
    (listed : ∀ id, target = some id → id ∈ state.windows) : Consistent (dwmSelect state target) := by
  simp only [Dwm.dwmSelect, tellSelected]
  split_ifs with same
  · exact consistent
  · cases current : state.selected with
    | none =>
      cases target with
      | none => exact absurd current same
      | some id => exact consistent.choose current (listed id rfl)
    | some old =>
      have deselected := consistent.deselect current
      cases target with
      | none => exact deselected
      | some id => exact deselected.choose rfl (listed id rfl)

/-- A window without focus messages, in place of another. -/
theorem Consistent.alternates_update {state : State} (consistent : Consistent state) {id : Nat} {window : Window}
    (silent : window.focus = []) (live : Bool) (other : Nat)
    (used : Function.update state.live id live other = true) :
    Alternates (Function.update state.heap id window other).focus := by
  by_cases same : other = id
  · subst same
    rw [Function.update_self, silent]
    intro position message found
    cases found
  · rw [Function.update_of_ne same] at used ⊢
    exact consistent.alternates other used

/-- Such a window, if it is not in the list, is not selected. -/
theorem Consistent.focused_update {state : State} (consistent : Consistent state) {id : Nat} {window : Window}
    (unlisted : id ∉ state.windows) (silent : window.focus = []) (live : Bool) (other : Nat)
    (used : Function.update state.live id live other = true) :
    state.selected = some other ↔ (Function.update state.heap id window other).focus.getLast? = some .select := by
  by_cases same : other = id
  · subst same
    rw [Function.update_self, silent]
    simp only [List.getLast?_nil, reduceCtorEq, iff_false]
    intro chosen
    exact unlisted (consistent.selected other chosen).2
  · rw [Function.update_of_ne same] at used ⊢
    exact consistent.focused other used

/-- Memory that is in use is elsewhere than memory that is not. -/
theorem ne_of_live {live : Nat → Bool} {id other : Nat} (free : live id = false) (used : live other = true) :
    other ≠ id := by
  rintro rfl
  rw [free] at used
  cases used

/-- Memory that is not in use is not in the list. -/
theorem Consistent.unlisted {state : State} (consistent : Consistent state) {id : Nat}
    (free : state.live id = false) : id ∉ state.windows := fun member =>
  ne_of_live free ((consistent.listed id).mp member).1 rfl

/-- A new window or panel at the end of the list. -/
theorem Consistent.append {state : State} (consistent : Consistent state) {id : Nat}
    (free : state.live id = false) (window : Window)
    (type : window.type = .window ∨ window.type = .panel) (new : window.messages = []) :
    Consistent { state with
      heap := Function.update state.heap id window
      live := Function.update state.live id true
      windows := state.windows ++ [id] } := by
  have unlisted := consistent.unlisted free
  have silent : window.focus = [] := by
    rw [Window.focus, new]
    rfl
  constructor
  · simp only [← List.concat_eq_append]
    exact List.Nodup.concat unlisted consistent.once
  · intro other
    by_cases same : other = id
    · subst same
      simp only [List.mem_append, List.mem_singleton, Function.update_self]
      exact iff_of_true (.inr trivial) ⟨trivial, type⟩
    · simp only [List.mem_append, List.mem_singleton, same, or_false, Function.update_of_ne same]
      exact consistent.listed other
  · intro other held
    obtain ⟨live, kind, unlistedOther⟩ := consistent.cursor other held
    have different := ne_of_live free live
    simp only [Function.update_of_ne different, List.mem_append, List.mem_singleton, different, or_false]
    exact ⟨live, kind, unlistedOther⟩
  · intro other held
    obtain ⟨live, kind, unlistedOther⟩ := consistent.wall other held
    have different := ne_of_live free live
    simp only [Function.update_of_ne different, List.mem_append, List.mem_singleton, different, or_false]
    exact ⟨live, kind, unlistedOther⟩
  · intro other held
    obtain ⟨live, member⟩ := consistent.selected other held
    have different := ne_of_live free live
    simp only [Function.update_of_ne different]
    exact ⟨live, List.mem_append_left _ member⟩
  · exact consistent.alternates_update silent _
  · exact consistent.focused_update unlisted silent _

/-- A window at an address that no pointer refers to: memory that is not in use, or a
new cursor or wall. -/
theorem Consistent.unused {state : State} (consistent : Consistent state) {id : Nat}
    (free : state.live id = false) (window : Window) (live : Bool)
    (type : live = true → window.type = .cursor ∨ window.type = .wall) (new : window.messages = []) :
    Consistent { state with
      heap := Function.update state.heap id window
      live := Function.update state.live id live } := by
  have unlisted := consistent.unlisted free
  have silent : window.focus = [] := by
    rw [Window.focus, new]
    rfl
  constructor
  · exact consistent.once
  · intro other
    by_cases same : other = id
    · subst same
      simp only [Function.update_self]
      apply iff_of_false unlisted
      rintro ⟨used, kind⟩
      rcases type used with isCursor | isWall <;> simp_all
    · simp only [Function.update_of_ne same]
      exact consistent.listed other
  · intro other held
    have facts := consistent.cursor other held
    simp only [Function.update_of_ne (ne_of_live free facts.1)]
    exact facts
  · intro other held
    have facts := consistent.wall other held
    simp only [Function.update_of_ne (ne_of_live free facts.1)]
    exact facts
  · intro other held
    have facts := consistent.selected other held
    simp only [Function.update_of_ne (ne_of_live free facts.1)]
    exact facts
  · exact consistent.alternates_update silent _
  · exact consistent.focused_update unlisted silent _

/-- Removing a window and freeing it. -/
theorem Consistent.remove {before after : State} (consistent : Consistent before) {id : Nat}
    (live : after.live = Function.update before.live id false)
    (windows : after.windows = before.windows.erase id)
    (selected : after.selected = if before.selected = some id then none else before.selected)
    (cursor : ∀ other, after.cursor = some other → before.cursor = some other ∧ other ≠ id)
    (wall : ∀ other, after.wall = some other → before.wall = some other ∧ other ≠ id)
    (type : ∀ other, (after.heap other).type = (before.heap other).type)
    (focus : ∀ other, (after.heap other).focus = (before.heap other).focus) : Consistent after := by
  have used (other : Nat) : after.live other = true ↔ before.live other = true ∧ other ≠ id := by
    rw [live]
    by_cases same : other = id
    · simp only [same, Function.update_self, ne_eq, not_true_eq_false, and_false, Bool.false_eq_true]
    · simp only [Function.update_of_ne same, ne_eq, same, not_false_eq_true, and_true]
  have member (other : Nat) : other ∈ after.windows ↔ other ≠ id ∧ other ∈ before.windows := by
    rw [windows, consistent.once.mem_erase_iff]
  have chosen (other : Nat) : after.selected = some other ↔ before.selected = some other ∧ other ≠ id := by
    rw [selected]
    split_ifs with was
    · rw [was, Option.some.injEq]
      simp only [false_iff, not_and, not_not]
      exact Eq.symm
    · constructor
      · intro held
        apply And.intro held
        rintro rfl
        exact was held
      · exact And.left
  constructor
  · rw [windows]
    exact consistent.once.erase id
  · intro other
    rw [member, used, type, consistent.listed]
    tauto
  · intro other held
    obtain ⟨was, different⟩ := cursor other held
    obtain ⟨usedBefore, kind, unlisted⟩ := consistent.cursor other was
    rw [used, member, type]
    exact ⟨⟨usedBefore, different⟩, kind, fun listed => unlisted listed.2⟩
  · intro other held
    obtain ⟨was, different⟩ := wall other held
    obtain ⟨usedBefore, kind, unlisted⟩ := consistent.wall other was
    rw [used, member, type]
    exact ⟨⟨usedBefore, different⟩, kind, fun listed => unlisted listed.2⟩
  · intro other held
    obtain ⟨was, different⟩ := (chosen other).mp held
    obtain ⟨usedBefore, listed⟩ := consistent.selected other was
    rw [used, member]
    exact ⟨⟨usedBefore, different⟩, different, listed⟩
  · intro other live
    rw [focus]
    exact consistent.alternates other ((used other).mp live).1
  · intro other live
    obtain ⟨usedBefore, different⟩ := (used other).mp live
    rw [focus, chosen, ← consistent.focused other usedBefore]
    exact and_iff_left different

/-- A pointer to a live cursor that is not in the list. -/
theorem Consistent.setCursor {state : State} (consistent : Consistent state) {id : Nat}
    (held : state.live id = true ∧ (state.heap id).type = .cursor ∧ id ∉ state.windows) :
    Consistent { state with cursor := some id } := by
  refine { consistent with cursor := ?_ }
  intro other same
  obtain rfl := Option.some.inj same
  exact held

/-- A pointer to a live wall that is not in the list. -/
theorem Consistent.setWall {state : State} (consistent : Consistent state) {id : Nat}
    (held : state.live id = true ∧ (state.heap id).type = .wall ∧ id ∉ state.windows) :
    Consistent { state with wall := some id } := by
  refine { consistent with wall := ?_ }
  intro other same
  obtain rfl := Option.some.inj same
  exact held

/-- A window that is created and freed at once leaves what it found. -/
theorem Consistent.refused {state : State} (consistent : Consistent state) {id : Nat}
    (free : state.live id = false) (window : Window) (new : window.messages = []) :
    Consistent (windowFree { state with
      heap := Function.update state.heap id window
      live := Function.update state.live id true } id) := by
  have unused := consistent.unused free window false (fun used => absurd used Bool.false_ne_true) new
  apply unused.of_same
  refine ⟨?_, rfl, rfl, rfl, rfl, fun _ => rfl, fun _ => rfl⟩
  simp only [windowFree, Function.update_idem]

/-- A request for a window, done or refused. -/
theorem Consistent.dwmCreate {state : State} (consistent : Consistent state) {id : Nat}
    (free : state.live id = false) (pos : Point) (width height : Nat) (type : DwmType) :
    Consistent (dwmCreate screen state id pos width height type).1 := by
  have unlisted : id ∉ state.windows := by
    intro member
    have live := ((consistent.listed id).mp member).1
    rw [free] at live
    cases live
  cases type with
  | window =>
    have appended := consistent.append free (windowNew pos width height .window) (.inl rfl) rfl
    apply appended.dwmSelect
    intro other same
    obtain rfl := Option.some.inj same
    exact List.mem_append_right _ (List.mem_singleton_self id)
  | panel =>
    have appended := consistent.append free (windowNew pos width height .panel) (.inr rfl) rfl
    have updated := dwmUpdateClientRect_sameFocus screen { state with
      heap := Function.update state.heap id (windowNew pos width height .panel)
      live := Function.update state.live id true
      windows := state.windows ++ [id] }
    apply (appended.of_same updated).dwmSelect
    intro other same
    obtain rfl := Option.some.inj same
    rw [updated.windows]
    exact List.mem_append_right _ (List.mem_singleton_self id)
  | cursor =>
    have created := consistent.unused free (windowNew pos width height .cursor) true
      (fun _ => .inl rfl) rfl
    simp only [Dwm.dwmCreate]
    split
    · exact consistent.refused free _ rfl
    · apply created.setCursor
      simp only [Function.update_self]
      exact ⟨trivial, rfl, unlisted⟩
  | wall =>
    have created := consistent.unused free (windowNew pos width height .wall) true
      (fun _ => .inr rfl) rfl
    simp only [Dwm.dwmCreate]
    split
    · exact consistent.refused free _ rfl
    · apply created.setWall
      simp only [Function.update_self]
      exact ⟨trivial, rfl, unlisted⟩

/-- Freeing a window in states with the same pointers and messages. -/
theorem SameFocus.windowFree {before after : State} (same : SameFocus before after) (id : Nat) :
    SameFocus (windowFree before id) (windowFree after id) := by
  refine ⟨?_, same.windows, same.selected, same.cursor, same.wall, same.type, same.focus⟩
  rw [Dwm.windowFree, Dwm.windowFree, same.live]

/-- The pointers that a close takes back. -/
def unlinked (state : State) (id : Nat) : State := { state with
  selected := if state.selected = some id then none else state.selected
  windows := state.windows.erase id
  cursor := if (state.heap id).type = .cursor then none else state.cursor
  wall := if (state.heap id).type = .wall then none else state.wall }

/-- A window that is closed is not selected any more. -/
theorem unselect_eq (state : State) (id : Nat) :
    (if state.selected = some id then { state with selected := none } else state) =
      { state with selected := if state.selected = some id then none else state.selected } := by
  split_ifs with was
  · rfl
  · rfl

/-- A close takes back the pointers to the window and frees it. -/
theorem Consistent.windowCleanup_same {state : State} (consistent : Consistent state) (id : Nat) :
    SameFocus (Dwm.windowFree (unlinked state id) id) (windowCleanup screen state id) := by
  have wallMoved (before : State) : SameFocus before (markWall before) := by
    rw [markWall]
    split
    · exact refl_of SameFocus before
    · exact SameFocus.modify _ _ _ (fun _ => rfl) (fun _ => rfl)
  have unlisted (kind : ¬ ((state.heap id).type = .window ∨ (state.heap id).type = .panel)) :
      state.windows.erase id = state.windows := by
    apply List.erase_of_not_mem
    intro member
    exact kind ((consistent.listed id).mp member).2
  apply SameFocus.windowFree
  simp only [dwmWindowCleanup, unselect_eq]
  apply trans_of SameFocus _ (wallMoved _)
  cases kind : (state.heap id).type with
  | window =>
    simp only [unlinked, kind, reduceCtorEq, if_false]
    exact refl_of SameFocus _
  | panel =>
    simp only [unlinked, kind, reduceCtorEq, if_false]
    exact dwmUpdateClientRect_sameFocus screen _
  | cursor =>
    simp only [unlinked, kind, reduceCtorEq, if_false, if_true, unlisted (by rw [kind]; decide)]
    exact refl_of SameFocus _
  | wall =>
    simp only [unlinked, kind, reduceCtorEq, if_false, if_true, unlisted (by rw [kind]; decide)]
    exact refl_of SameFocus _

/-- Closing a window. -/
theorem Consistent.windowCleanup {state : State} (consistent : Consistent state) (id : Nat) :
    Consistent (windowCleanup screen state id) := by
  apply Consistent.of_same _ (consistent.windowCleanup_same screen id)
  apply consistent.remove rfl rfl rfl
  · intro other held
    simp only [Dwm.windowFree, unlinked, Option.ite_none_left_eq_some] at held
    apply And.intro held.2
    rintro rfl
    exact held.1 (consistent.cursor other held.2).2.1
  · intro other held
    simp only [Dwm.windowFree, unlinked, Option.ite_none_left_eq_some] at held
    apply And.intro held.2
    rintro rfl
    exact held.1 (consistent.wall other held.2).2.1
  · intro _
    rfl
  · intro _
    rfl

/-- The window under a point is in the list. -/
theorem dwmWindowUnderPoint_mem (state : State) (point : Point) (id : Nat)
    (found : dwmWindowUnderPoint state point = some id) : id ∈ state.windows :=
  List.mem_reverse.mp (List.mem_of_find?_eq_some found)

/-- A mouse event. -/
theorem Consistent.dwmHandleMouseMessage {state : State} (consistent : Consistent state) (cursor : Nat)
    (buttons : BitVec 32) (delta : Point) :
    Consistent (dwmHandleMouseMessage screen state cursor buttons delta) := by
  have placed := consistent.of_same (moveCursor_sameFocus screen state cursor delta)
  have chosen (pressed : BitVec 32) (pos : Point) :
      Consistent (pressAt (moveCursor screen state cursor delta) pressed pos) := by
    rw [pressAt]
    split_ifs with press
    · exact placed.dwmSelect _ (dwmWindowUnderPoint_mem _ pos)
    · exact placed
  have kept (told : State) : SameFocus told { told with oldButtons := buttons } :=
    ⟨rfl, rfl, rfl, rfl, rfl, fun _ => rfl, fun _ => rfl⟩
  apply Consistent.of_same _ (kept _)
  apply Consistent.of_same _ (tellSelected_sameFocus _ rfl)
  exact chosen _ _

/-- Every step keeps pointers and messages consistent. -/
theorem step_consistent (state : State) (event : Event) (next : State) (consistent : Consistent state)
    (taken : step screen state event = some next) : Consistent next := by
  cases event with
  | create id pos width height type =>
    simp only [step, Option.ite_none_left_eq_some, Option.some.injEq, Bool.not_eq_true] at taken
    obtain ⟨free, rfl⟩ := taken
    exact consistent.dwmCreate screen free pos width height type
  | close id =>
    simp only [step, Option.ite_none_right_eq_some, Option.some.injEq] at taken
    obtain ⟨_, rfl⟩ := taken
    exact consistent.windowCleanup screen id
  | move id pos width height memory =>
    simp only [step, Option.ite_none_right_eq_some, Option.some.injEq] at taken
    obtain ⟨_, rfl⟩ := taken
    exact consistent.of_same (SameFocus.modify _ _ _ (fun _ => rfl) (fun _ => rfl))
  | updateClientRect =>
    obtain rfl := Option.some.inj taken
    exact consistent.of_same (dwmUpdateClientRect_sameFocus screen state)
  | flush id buffer size rect =>
    simp only [step, Option.ite_none_right_eq_some, Option.some.injEq] at taken
    obtain ⟨_, rfl⟩ := taken
    simp only [windowFlush]
    split
    · exact consistent
    · split
      · exact consistent
      · apply consistent.of_same
        dsimp only
        apply SameFocus.modify
        · intro _
          rfl
        · intro _
          rfl
  | mouse buttons delta =>
    obtain rfl := Option.some.inj taken
    split
    · exact consistent
    · exact consistent.dwmHandleMouseMessage screen _ buttons delta
  | keyboard type code mods =>
    obtain rfl := Option.some.inj taken
    exact consistent.of_same (tellSelected_sameFocus state rfl)
  | select point =>
    obtain rfl := Option.some.inj taken
    exact consistent.dwmSelect _ (dwmWindowUnderPoint_mem state point)
  | draw =>
    obtain rfl := Option.some.inj taken
    exact consistent.of_same (dwmLoop_sameFocus screen state)

/-- The manager starts without pointers. -/
theorem initial_consistent (memory : Nat → Window) (back : Int → Pixel) :
    Consistent (initial screen memory back) := by
  constructor
  · exact List.nodup_nil
  · intro id
    simp [initial]
  all_goals
    intro id held
    cases held

/-- After every run, pointers and messages are consistent: the pointers lead to live windows of their types,
and the focus messages of each window alternate and end with a selection exactly for the selected one.

Proof: consistency holds at the beginning, and each event keeps it. -/
theorem pointers_and_focus_consistent (memory : Nat → Window) (back : Int → Pixel) (events : List Event)
    (state : State) (reached : run (step screen) (initial screen memory back) events = some state) :
    Consistent state :=
  run_sound (initial_consistent screen memory back) (step_consistent screen) events state reached

/-- A wall, a cursor and two windows are created, a second cursor is refused, a press
on the lower window selects it, and it is closed. -/
def pressAndClose : List Event :=
  [.create 0 ⟨0, 0⟩ 4 3 .wall, .create 1 ⟨0, 0⟩ 1 1 .cursor, .create 2 ⟨0, 0⟩ 2 2 .window,
    .create 3 ⟨2, 1⟩ 2 2 .window, .create 4 ⟨0, 0⟩ 1 1 .cursor, .mouse 4 ⟨0, 0⟩, .close 2]

/-- The upper window is left, and everything is consistent. -/
theorem pressAndClose_consistent : ∃ state,
    run (step smallScreen) (initial smallScreen blankMemory fun _ => 0) pressAndClose = some state ∧
      state.windows = [3] ∧ Consistent state :=
  ⟨_, rfl, by decide, pointers_and_focus_consistent smallScreen blankMemory (fun _ => 0) pressAndClose _ rfl⟩

end Asym.Dwm
