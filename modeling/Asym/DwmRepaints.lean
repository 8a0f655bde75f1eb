import Asym.DwmPainting

/-!
# Repaints between draw passes

Between two draw passes windows are created, moved, flushed, selected and closed. Each
of these marks what the next pass has to paint: a window that has moved, a part of a
window that is invalid, or the wall and all windows with it.

The exception is the client rectangle. When it becomes larger because a panel has moved,
the wall is not marked, and what comes into the client rectangle is painted only where a
window was before.
-/

namespace Asym.Dwm

open Graphics EventRuns Folds Grids

/-- A window that stays where it is, and is invalid where its pixels change. -/
structure Refreshed (before after : Window) : Prop where
  rect : after.rect = before.rect
  type : after.type = before.type
  moved : after.moved = before.moved
  previous : after.prevRect = before.prevRect
  invalid : before.invalid = true → after.invalid = true
  damage : ∀ point, before.invalidRect.Contains point → after.invalidRect.Contains point
  shows : ∀ point, before.rect.Contains point → after.shows point = before.shows point ∨
    after.invalid = true ∧ after.invalidRect.Contains point

/-- A window that is at most invalidated. -/
theorem Kept.refreshed {before after : Window} (kept : Kept before after) : Refreshed before after :=
  ⟨kept.rect, kept.type, kept.moved, kept.previous, kept.invalid, fun _ inside => kept.invalidRect inside,
    fun point _ => .inl (kept.shows point)⟩

/-- A window that is left as it is. -/
theorem Refreshed.refl (window : Window) : Refreshed window window :=
  (refl_of Kept window).refreshed

/-- Nothing is drawn, and windows stay where they are, or are marked as
moved with the previous rectangle they had. The wall may be marked too. -/
structure Later (before after : State) : Prop where
  back : after.back = before.back
  client : after.clientRect = before.clientRect
  cursor : after.cursor = before.cursor
  wall : after.wall = before.wall
  wallClean : ∀ wall, before.wall = some wall → (after.heap wall).invalid = false →
    (after.heap wall).moved = false → SameShape (before.heap wall) (after.heap wall) ∧
      (before.heap wall).invalid = false ∧ (before.heap wall).moved = false
  still : ∃ stays : Nat → Bool, stillIds after = (stillIds before).filter stays ∧
    ∀ id ∈ stillIds before, stays id = false → id ∈ after.windows ∧ (after.heap id).moved = true
  moved : ∀ id ∈ before.windows, (before.heap id).moved = true →
    id ∈ after.windows ∧ (after.heap id).moved = true
  previous : ∀ id ∈ before.windows, (after.heap id).prevRect = (before.heap id).prevRect
  kept : ∀ id ∈ stillIds after, Refreshed (before.heap id) (after.heap id)

variable {screen : Screen} {before after : State}

/-- A window that has not moved is in the list. -/
theorem mem_stillIds (state : State) (id : Nat) :
    id ∈ stillIds state ↔ id ∈ state.windows ∧ (state.heap id).moved = false := by
  rw [stillIds, List.mem_filter, decide_eq_true_eq]

/-- A window that has not moved had not moved before. -/
theorem Later.mem_still (later : Later before after) {id : Nat} (member : id ∈ stillIds after) :
    id ∈ stillIds before := by
  obtain ⟨stays, same, _⟩ := later.still
  rw [same] at member
  exact (List.mem_filter.mp member).1

/-- A window that has not moved is drawn where it was. -/
theorem Later.clip (later : Later before after) {id : Nat} (member : id ∈ stillIds after) :
    clip screen after id = clip screen before id := by
  have kept := later.kept id member
  rw [Dwm.clip, Dwm.clip, fitRect, fitRect, kept.rect, kept.type, later.client]

/-- Windows stay settled. -/
theorem Later.settled (later : Later before after) (settled : Settled screen before) : Settled screen after := by
  intro id member still
  have staying := (mem_stillIds after id).mpr ⟨member, still⟩
  obtain ⟨wasListed, wasStill⟩ := (mem_stillIds before id).mp (later.mem_still staying)
  rw [later.clip staying, (later.kept id staying).previous]
  exact settled id wasListed wasStill

/-- The last item that passes two tests, if the last one that passes the first test
passes the second. -/
theorem getLast?_filter_filter {ids : List Nat} {first second : Nat → Bool} {id : Nat}
    (last : (ids.filter first).getLast? = some id) (passes : second id = true) :
    ((ids.filter second).filter first).getLast? = some id := by
  rw [List.filter_filter]
  have swapped : ids.filter (fun id => first id && second id) = (ids.filter first).filter second := by
    rw [List.filter_filter]
    apply List.filter_congr
    intro other _
    exact Bool.and_comm _ _
  obtain ⟨others, parts⟩ := List.getLast?_eq_some_iff.mp last
  rw [swapped, parts, List.filter_append, List.filter_cons, if_pos passes, List.filter_nil,
    List.getLast?_concat]

/-- A point stays ready. A window that is marked as moved was settled, and so its
previous rectangle holds the points that it covered. -/
theorem Later.readyAt (later : Later before after) (settled : Settled screen before) {wall : Nat}
    (shape : SameShape (before.heap wall) (after.heap wall)) {point : Point}
    (ready : ReadyAt screen before wall point) : ReadyAt screen after wall point := by
  have pixel : after.pixel screen point = before.pixel screen point := by
    rw [State.pixel, State.pixel, later.back]
  rcases ready with ⟨id, member, isMoved, inside⟩ | right
  · left
    obtain ⟨memberAfter, movedAfter⟩ := later.moved id member isMoved
    exact ⟨id, memberAfter, movedAfter, by rw [later.previous id member]; exact inside⟩
  · obtain ⟨stays, same, leaves⟩ := later.still
    have covered (id : Nat) (member : id ∈ stillIds after) :
        covers screen after point id = covers screen before point id := by
      rw [covers, covers]
      simp only [later.clip member]
    have tested : (stillIds after).filter (covers screen after point) =
        ((stillIds before).filter stays).filter (covers screen before point) := by
      rw [← same]
      exact List.filter_congr covered
    cases top : topmost screen before (stillIds before) point with
    | none =>
      rw [top] at right
      have none : topmost screen after (stillIds after) point = none := by
        rw [topmost, tested, List.getLast?_eq_none_iff, List.filter_eq_nil_iff]
        intro id member
        rw [topmost, List.getLast?_eq_none_iff, List.filter_eq_nil_iff] at top
        exact top id (List.mem_filter.mp member).1
      right
      rw [none]
      exact pixel.trans (right.trans (shape.shows point).symm)
    | some id =>
      rw [top] at right
      obtain ⟨staying, covering⟩ := List.mem_filter.mp (List.mem_of_getLast? top)
      obtain ⟨member, still⟩ := (mem_stillIds before id).mp staying
      by_cases stay : stays id = true
      · have found : topmost screen after (stillIds after) point = some id := by
          rw [topmost, tested]
          exact getLast?_filter_filter top stay
        have memberAfter : id ∈ stillIds after := by
          rw [same]
          exact List.mem_filter.mpr ⟨staying, stay⟩
        have kept := later.kept id memberAfter
        right
        rw [found]
        rcases right with shown | ⟨invalid, inside⟩
        · have inRect : (before.heap id).rect.Contains point := by
            rw [covers, decide_eq_true_eq, Dwm.clip, Rect.contains_fit] at covering
            exact covering.1
          rcases kept.shows point inRect with same | changed
          · exact .inl (pixel.trans (shown.trans same.symm))
          · exact .inr changed
        · exact .inr ⟨kept.invalid invalid, kept.damage point inside⟩
      · left
        obtain ⟨memberAfter, movedAfter⟩ := leaves id staying (by simpa using stay)
        refine ⟨id, memberAfter, movedAfter, ?_⟩
        rw [later.previous id member, settled id member still]
        simpa [covers] using covering

/-- The client rectangle stays ready. -/
theorem Later.ready (later : Later before after) (settled : Settled screen before)
    (ready : Ready screen before) : Ready screen after := by
  intro wall held invalid isMoved point client
  rw [later.wall] at held
  rw [later.client] at client
  obtain ⟨shape, wasInvalid, wasMoved⟩ := later.wallClean wall held invalid isMoved
  exact later.readyAt settled shape (ready wall held wasInvalid wasMoved point client)

variable (screen)

/-- Between draw passes: windows are settled, the client rectangle is ready, and there is
no cursor. -/
structure Prepared (state : State) : Prop where
  settled : Settled screen state
  ready : Ready screen state
  cursor : state.cursor = none

variable {screen}

/-- The invariant between draw passes stays. -/
theorem Prepared.later (prepared : Prepared screen before) (later : Later before after) :
    Prepared screen after :=
  ⟨later.settled prepared.settled, later.ready prepared.settled prepared.ready,
    later.cursor.trans prepared.cursor⟩

/-- Windows stay where they are if the list and what the invariant speaks about stay. -/
theorem Later.of_refreshed (back : after.back = before.back) (client : after.clientRect = before.clientRect)
    (cursor : after.cursor = before.cursor) (wall : after.wall = before.wall)
    (windows : after.windows = before.windows)
    (wallClean : ∀ wall, before.wall = some wall → (after.heap wall).invalid = false →
      (after.heap wall).moved = false → SameShape (before.heap wall) (after.heap wall) ∧
        (before.heap wall).invalid = false ∧ (before.heap wall).moved = false)
    (kept : ∀ id ∈ before.windows, Refreshed (before.heap id) (after.heap id)) : Later before after := by
  refine ⟨back, client, cursor, wall, wallClean, ⟨fun _ => true, ?_, ?_⟩, ?_, ?_, ?_⟩
  · rw [List.filter_true, stillIds, stillIds, windows]
    apply List.filter_congr
    intro id member
    simp only [(kept id member).moved]
  · intro id _ leaves
    cases leaves
  · intro id member isMoved
    rw [windows, (kept id member).moved]
    exact ⟨member, isMoved⟩
  · intro id member
    exact (kept id member).previous
  · intro id member
    rw [mem_stillIds, windows] at member
    exact kept id member.1

/-- A wall that is at most invalidated was clean if it is. -/
theorem Kept.clean {before after : Window} (kept : Kept before after) (invalid : after.invalid = false)
    (moved : after.moved = false) :
    SameShape before after ∧ before.invalid = false ∧ before.moved = false := by
  rw [kept.moved] at moved
  refine ⟨kept.toSameShape, ?_, moved⟩
  by_contra was
  rw [kept.invalid (by simpa using was)] at invalid
  cases invalid

/-- Changing a window that stays where it is, and a wall only if it becomes invalid or
is at most invalidated. -/
theorem Later.modify (state : State) (id : Nat) (change : Window → Window)
    (wall : state.wall = some id → (change (state.heap id)).invalid = true ∨
      Kept (state.heap id) (change (state.heap id)))
    (kept : id ∈ state.windows → Refreshed (state.heap id) (change (state.heap id))) :
    Later state (state.modify id change) := by
  refine @Later.of_refreshed state (state.modify id change) rfl rfl rfl rfl rfl ?_ ?_
  · intro other held invalid clean
    by_cases same : other = id
    · subst same
      rw [State.modify_self] at invalid clean ⊢
      rcases wall held with marked | keptWall
      · rw [marked] at invalid
        cases invalid
      · exact keptWall.clean invalid clean
    · rw [State.modify_of_ne _ _ same] at invalid clean ⊢
      exact ⟨refl_of SameShape (state.heap other), invalid, clean⟩
  · intro other member
    by_cases same : other = id
    · subst same
      rw [State.modify_self]
      exact kept member
    · rw [State.modify_of_ne _ _ same]
      exact Refreshed.refl (state.heap other)

/-- Changing the memory of a window that is neither in the list nor the wall, and
pointers that the invariant does not speak about. -/
theorem Later.of_unused (back : after.back = before.back) (client : after.clientRect = before.clientRect)
    (cursor : after.cursor = before.cursor) (wall : after.wall = before.wall)
    (windows : after.windows = before.windows)
    (same : ∀ id, id ∈ before.windows ∨ before.wall = some id → after.heap id = before.heap id) :
    Later before after := by
  apply Later.of_refreshed back client cursor wall windows
  · intro id held invalid clean
    rw [same id (.inr held)] at invalid clean ⊢
    exact ⟨refl_of SameShape (before.heap id), invalid, clean⟩
  · intro id member
    rw [same id (.inl member)]
    exact Refreshed.refl (before.heap id)

/-- Marking a window as moved, wherever it is moved to. -/
theorem Later.mark (state : State) (id : Nat) (change : Window → Window)
    (isMoved : (change (state.heap id)).moved = true)
    (previous : (change (state.heap id)).prevRect = (state.heap id).prevRect) :
    Later state (state.modify id change) := by
  refine ⟨rfl, rfl, rfl, rfl, ?_, ⟨fun other => other ≠ id, ?_, ?_⟩, ?_, ?_, ?_⟩
  · intro wall _ invalid clean
    by_cases same : wall = id
    · subst same
      rw [State.modify_self, isMoved] at clean
      cases clean
    · rw [State.modify_of_ne _ _ same] at invalid clean ⊢
      exact ⟨refl_of SameShape (state.heap wall), invalid, clean⟩
  · rw [stillIds, stillIds, List.filter_filter]
    apply List.filter_congr
    intro other _
    by_cases same : other = id
    · subst same
      simp [isMoved]
    · simp [State.modify_of_ne _ _ same, same]
  · intro other member leaves
    obtain rfl : other = id := by simpa using leaves
    rw [State.modify_self]
    exact ⟨((mem_stillIds state other).mp member).1, isMoved⟩
  · intro other member wasMoved
    by_cases same : other = id
    · subst same
      rw [State.modify_self]
      exact ⟨member, isMoved⟩
    · rw [State.modify_of_ne _ _ same]
      exact ⟨member, wasMoved⟩
  · intro other _
    by_cases same : other = id
    · subst same
      rw [State.modify_self]
      exact previous
    · rw [State.modify_of_ne _ _ same]
  · intro other member
    have still := ((mem_stillIds _ other).mp member).2
    by_cases same : other = id
    · subst same
      rw [State.modify_self, isMoved] at still
      cases still
    · rw [State.modify_of_ne _ _ same]
      exact Refreshed.refl (state.heap other)

/-- Raising a window that is marked as moved, and selecting it. -/
theorem Later.raise {state : State} (once : state.windows.Nodup) {id : Nat} (listed : id ∈ state.windows)
    (isMoved : (state.heap id).moved = true) (selected : Option Nat) :
    Later state { state with windows := state.windows.erase id ++ [id], selected := selected } := by
  have raised (other : Nat) (member : other ∈ state.windows) : other ∈ state.windows.erase id ++ [id] := by
    by_cases same : other = id
    · rw [same]
      exact List.mem_append_right _ (List.mem_singleton_self id)
    · exact List.mem_append_left _ ((List.mem_erase_of_ne same).mpr member)
  refine ⟨rfl, rfl, rfl, rfl, ?_, ⟨fun _ => true, ?_, ?_⟩, ?_, fun _ _ => rfl, ?_⟩
  · intro wall _ invalid clean
    exact ⟨refl_of SameShape (state.heap wall), invalid, clean⟩
  · rw [List.filter_true, stillIds, stillIds, List.filter_append, once.erase_eq_filter, List.filter_filter]
    have last : [id].filter (fun other => decide ((state.heap other).moved = false)) = [] := by
      simp [isMoved]
    rw [last, List.append_nil]
    apply List.filter_congr
    intro other _
    by_cases same : other = id
    · subst same
      simp [isMoved]
    · simp [same]
  · intro other _ leaves
    cases leaves
  · intro other member wasMoved
    exact ⟨raised other member, wasMoved⟩
  · intro other _
    exact Refreshed.refl (state.heap other)

/-- Telling the selected window something. -/
theorem Later.tell (state : State) (message : Message) : Later state (tellSelected state message) := by
  have pushed (window : Window) : Kept window (window.push message) :=
    ⟨⟨rfl, rfl, rfl, rfl, rfl, rfl, rfl⟩, rfl, rfl, fun marked => marked, fun _ inside => inside⟩
  rw [tellSelected]
  split
  · exact @Later.of_unused state state rfl rfl rfl rfl rfl fun _ _ => rfl
  · rename_i id _
    exact Later.modify state id _ (fun _ => .inr (pushed _)) (fun _ => (pushed _).refreshed)

/-- Selecting keeps the invariant between draw passes. -/
theorem Prepared.dwmSelect {state : State} (prepared : Prepared screen state) (once : state.windows.Nodup)
    (target : Option Nat) (listed : ∀ id, target = some id → id ∈ state.windows) :
    Prepared screen (dwmSelect state target) := by
  have told := prepared.later (Later.tell state .deselect)
  have windows : (tellSelected state .deselect).windows = state.windows := by
    rw [tellSelected]
    split
    · rfl
    · rfl
  rw [Dwm.dwmSelect]
  split_ifs with same
  · exact prepared
  · cases target with
    | none =>
      exact told.later (@Later.of_unused _ { tellSelected state .deselect with selected := none }
        rfl rfl rfl rfl rfl fun _ _ => rfl)
    | some id =>
      have marked := told.later (Later.mark _ id (fun window => (window.push .select).markMoved) rfl rfl)
      have listedTold : id ∈ (tellSelected state .deselect).windows := windows ▸ listed id rfl
      have raise := @Later.raise ((tellSelected state .deselect).modify id
        fun window => (window.push .select).markMoved) (windows ▸ once) id listedTold
        (by rw [State.modify_self]; rfl) (some id)
      exact marked.later raise

/-- A new window at the end of the list. -/
def appended (state : State) (id : Nat) (window : Window) : State := { state with
  heap := Function.update state.heap id window
  live := Function.update state.live id true
  windows := state.windows ++ [id] }

/-- A new window is marked as moved. -/
theorem Later.append {state : State} {id : Nat} (unlisted : id ∉ state.windows) (unwalled : state.wall ≠ some id)
    {window : Window} (isMoved : window.moved = true) : Later state (appended state id window) := by
  have listed (other : Nat) (member : other ∈ state.windows) :
      (appended state id window).heap other = state.heap other := by
    apply Function.update_of_ne
    rintro rfl
    exact unlisted member
  have same : stillIds (appended state id window) = stillIds state := by
    have last : [id].filter (fun other => decide (((appended state id window).heap other).moved = false)) = [] := by
      simp [appended, isMoved]
    rw [stillIds, stillIds, appended, List.filter_append]
    refine (congrArg _ last).trans ?_
    rw [List.append_nil]
    apply List.filter_congr
    intro other member
    exact congrArg (fun seen : Window => decide (seen.moved = false)) (listed other member)
  refine ⟨rfl, rfl, rfl, rfl, ?_, ⟨fun _ => true, ?_, ?_⟩, ?_, ?_, ?_⟩
  · intro wall held invalid clean
    have heap : (appended state id window).heap wall = state.heap wall := by
      apply Function.update_of_ne
      rintro rfl
      exact unwalled held
    rw [heap] at invalid clean ⊢
    exact ⟨refl_of SameShape (state.heap wall), invalid, clean⟩
  · rw [List.filter_true, same]
  · intro other _ leaves
    cases leaves
  · intro other member wasMoved
    rw [listed other member]
    exact ⟨List.mem_append_left _ member, wasMoved⟩
  · intro other member
    rw [listed other member]
  · intro other member
    rw [same] at member
    rw [listed other ((mem_stillIds state other).mp member).1]
    exact Refreshed.refl (state.heap other)

variable (screen)

/-- What comes into the client rectangle, while the wall is not going to be drawn, was
in it before or is inside of the previous rectangle of a window. -/
def RevealsFilled (state : State) (client : Rect) : Prop :=
  ∀ wall, state.wall = some wall → (state.heap wall).invalid = false → (state.heap wall).moved = false →
    ∀ point, client.Contains point →
      state.clientRect.Contains point ∨ ∃ id ∈ state.windows, (state.heap id).prevRect.Contains point

variable {screen}

/-- Updating the client rectangle marks a window as moved. -/
theorem dwmUpdateClientRect_marks {state : State} {id : Nat} (member : id ∈ state.windows) :
    (dwmUpdateClientRect screen state).heap id = (state.heap id).markMoved := by
  refine (markAllMoved_heap state state.windows id).trans ?_
  rw [if_pos member]

/-- Updating the client rectangle marks all windows as moved. -/
theorem stillIds_dwmUpdateClientRect (state : State) : stillIds (dwmUpdateClientRect screen state) = [] := by
  rw [List.eq_nil_iff_forall_not_mem]
  intro id member
  obtain ⟨listed, still⟩ := (mem_stillIds _ id).mp member
  rw [(dwmUpdateClientRect_sameFocus screen state).windows] at listed
  rw [dwmUpdateClientRect_marks listed] at still
  cases still

/-- Windows are settled if all of them are marked as moved. -/
theorem settled_of_nothing_still {state : State} (nothingStill : stillIds state = []) : Settled screen state := by
  intro id member still
  have staying := (mem_stillIds _ id).mpr ⟨member, still⟩
  rw [nothingStill] at staying
  cases staying

/-- Updating the client rectangle keeps the invariant between draw passes, if what comes
into it is going to be painted. -/
theorem Prepared.dwmUpdateClientRect {state : State} (prepared : Prepared screen state)
    (unlisted : ∀ wall, state.wall = some wall → wall ∉ state.windows)
    (reveals : RevealsFilled state (newClientRect screen state)) :
    Prepared screen (dwmUpdateClientRect screen state) := by
  have same := dwmUpdateClientRect_sameFocus screen state
  have nothingStill := @stillIds_dwmUpdateClientRect screen state
  have back : (Dwm.dwmUpdateClientRect screen state).back = state.back :=
    (markAllMoved_draws state state.windows).1
  refine ⟨settled_of_nothing_still nothingStill, ?_, same.cursor.trans prepared.cursor⟩
  · intro wall held invalid clean point client
    have heldBefore : state.wall = some wall := same.wall.symm.trans held
    have wallSame : (Dwm.dwmUpdateClientRect screen state).heap wall = state.heap wall := by
      refine (markAllMoved_heap state state.windows wall).trans ?_
      rw [if_neg (unlisted wall heldBefore)]
    rw [wallSame] at invalid clean
    -- A previous rectangle at the point is painted over, since its window has moved.
    have painted (id : Nat) (member : id ∈ state.windows) (inside : (state.heap id).prevRect.Contains point) :
        ReadyAt screen (Dwm.dwmUpdateClientRect screen state) wall point := by
      left
      refine ⟨id, same.windows ▸ member, ?_⟩
      rw [dwmUpdateClientRect_marks member]
      exact ⟨rfl, inside⟩
    rcases reveals wall heldBefore invalid clean point client with inside | ⟨id, member, inside⟩
    · rcases prepared.ready wall heldBefore invalid clean point inside with ⟨id, member, _, inPrevious⟩ | right
      · exact painted id member inPrevious
      · cases top : topmost screen state (stillIds state) point with
        | none =>
          rw [top] at right
          right
          rw [nothingStill, topmost, List.filter_nil, List.getLast?_nil, wallSame, State.pixel, back]
          exact right
        | some id =>
          obtain ⟨staying, covering⟩ := List.mem_filter.mp (List.mem_of_getLast? top)
          obtain ⟨member, still⟩ := (mem_stillIds state id).mp staying
          apply painted id member
          rw [prepared.settled id member still]
          simpa [covers] using covering
    · exact painted id member inside

/-- Windows stay settled when the list and pointers change, if no window comes into the
list. -/
theorem Settled.of_heap (settled : Settled screen before) (heap : after.heap = before.heap)
    (client : after.clientRect = before.clientRect) (windows : ∀ id ∈ after.windows, id ∈ before.windows) :
    Settled screen after := by
  intro id member still
  rw [heap] at still
  rw [clip, fitRect, heap, client]
  exact settled id (windows id member) still

/-- The client rectangle is ready if the wall is going to be drawn, or if there is none. -/
theorem ready_of_dirty {state : State} (dirty : ∀ wall, state.wall = some wall → (state.heap wall).moved = true) :
    Ready screen state := by
  intro wall held _ clean
  rw [dirty wall held] at clean
  cases clean

/-- A flush makes the window invalid where its pixels change. -/
theorem Prepared.windowFlush {state : State} (prepared : Prepared screen state) (sized : Sized screen state)
    {id : Nat} (used : state.live id = true) (buffer : Int → Pixel) (size : Nat) {rect : Rect}
    (begins : 0 ≤ rect.left ∧ 0 ≤ rect.top) : Prepared screen (windowFlush state id buffer size rect).1 := by
  simp only [Dwm.windowFlush]
  split
  · exact prepared
  · split
    · exact prepared
    · rename_i _ valid
      dsimp only
      apply prepared.later
      apply Later.modify
      · intro _
        exact .inl rfl
      · intro _
        refine ⟨rfl, rfl, rfl, rfl, fun _ => rfl, ?_, ?_⟩
        · intro point inside
          rw [Window.invalidRect_contains] at *
          exact gfxInvalidate_old _ inside
        · intro point inside
          have stride := (sized.framed id used).stride
          simp only [Window.rect, rectInitDim, Rect.Contains] at inside
          have drawn := gfxTransfer_cell (state.heap id).gfx.buffer (state.heap id).gfx.stride buffer
            (state.heap id).gfx.stride rect ⟨rect.left, rect.top⟩
            ⟨point.x - (state.heap id).pos.x, point.y - (state.heap id).pos.y⟩ begins.1 (by omega)
            (by dsimp only; omega) (by dsimp only; omega)
          by_cases changed : rect.Contains ⟨point.x - (state.heap id).pos.x, point.y - (state.heap id).pos.y⟩
          · right
            apply And.intro rfl
            rw [Window.invalidRect_contains]
            exact gfxInvalidate_new _ changed
          · left
            rw [if_neg changed] at drawn
            exact drawn

/-- Marking the wall as moved, if there is one, makes up for everything but windows that
are not settled. -/
theorem Settled.markWall {state : State} (settled : Settled screen state) (cursor : state.cursor = none) :
    Prepared screen (markWall state) := by
  rw [Dwm.markWall]
  split
  · rename_i none
    refine ⟨settled, ready_of_dirty ?_, cursor⟩
    intro wall held
    rw [none] at held
    cases held
  · rename_i wall held
    refine ⟨(Later.mark state wall Window.markMoved rfl rfl).settled settled, ready_of_dirty ?_, cursor⟩
    intro other heldOther
    obtain rfl : wall = other := Option.some.inj (held.symm.trans heldOther)
    rw [State.modify_self]
    rfl

/-- Closing a window marks the wall as moved. -/
theorem Prepared.windowCleanup {state : State} (prepared : Prepared screen state) (id : Nat) :
    Prepared screen (windowCleanup screen state id) := by
  have cleaned : Prepared screen (dwmWindowCleanup screen state id) := by
    simp only [dwmWindowCleanup, unselect_eq]
    apply Settled.markWall
    · split
      · exact prepared.settled.of_heap rfl rfl fun _ => List.mem_of_mem_erase
      · exact settled_of_nothing_still (stillIds_dwmUpdateClientRect _)
      · exact prepared.settled.of_heap rfl rfl fun _ member => member
      · exact prepared.settled.of_heap rfl rfl fun _ member => member
    · split
      · exact prepared.cursor
      · exact (dwmUpdateClientRect_sameFocus screen _).cursor.trans prepared.cursor
      · rfl
      · exact prepared.cursor
  exact cleaned.later (@Later.of_unused _ (windowFree _ id) rfl rfl rfl rfl rfl fun _ _ => rfl)

/-- A new wall is marked as moved. -/
theorem Prepared.setWall {state : State} (prepared : Prepared screen state) {id : Nat}
    (isMoved : (state.heap id).moved = true) : Prepared screen { state with wall := some id } := by
  refine ⟨prepared.settled.of_heap rfl rfl fun _ member => member, ready_of_dirty ?_, prepared.cursor⟩
  intro wall held
  obtain rfl := Option.some.inj held
  exact isMoved

variable (screen)

/-- The events without a request for a cursor. -/
def Event.cursorFree : Event → Bool
  | .create _ _ _ _ .cursor => false
  | _ => true

/-- What an event needs so that the client rectangle stays painted: a draw pass fills
what it exposes with the right part of the wall, and what comes into the client
rectangle is going to be painted. -/
def Careful (state : State) : Event → Prop
  | .draw => ExposureAligned screen state
  | .updateClientRect => RevealsFilled state (newClientRect screen state)
  | .create id pos width height .panel =>
      RevealsFilled state (newClientRect screen (appended state id (windowNew pos width height .panel)))
  | _ => True

variable {screen}

/-- A request for anything but a cursor keeps the invariant between draw passes. -/
theorem Prepared.dwmCreate {state : State} (prepared : Prepared screen state) (consistent : Consistent state)
    {id : Nat} (free : state.live id = false) (pos : Point) (width height : Nat) {type : DwmType}
    (cursorFree : (Event.create id pos width height type).cursorFree = true)
    (careful : Careful screen state (.create id pos width height type)) :
    Prepared screen (dwmCreate screen state id pos width height type).1 := by
  have unlisted : id ∉ state.windows := by
    intro member
    rw [((consistent.listed id).mp member).1] at free
    cases free
  have unwalled : state.wall ≠ some id := by
    intro held
    rw [(consistent.wall id held).1] at free
    cases free
  have once : (appended state id (windowNew pos width height type)).windows.Nodup :=
    List.nodup_append.mpr ⟨consistent.once, List.nodup_singleton id, by
      rintro other member last inLast rfl
      rw [List.mem_singleton] at inLast
      exact unlisted (inLast ▸ member)⟩
  have last : id ∈ (appended state id (windowNew pos width height type)).windows :=
    List.mem_append_right _ (List.mem_singleton_self id)
  have added := prepared.later (Later.append unlisted unwalled
    (show (windowNew pos width height type).moved = true from rfl))
  have unused (live : Nat → Bool) : Prepared screen { state with
      heap := Function.update state.heap id (windowNew pos width height type), live := live } := by
    refine prepared.later (@Later.of_unused _ _ rfl rfl rfl rfl rfl ?_)
    intro other known
    apply Function.update_of_ne
    rintro rfl
    exact known.elim unlisted unwalled
  cases type with
  | window =>
    apply added.dwmSelect once
    intro other same
    obtain rfl := Option.some.inj same
    exact last
  | panel =>
    have same := dwmUpdateClientRect_sameFocus screen (appended state id (windowNew pos width height .panel))
    have updated : Prepared screen (Dwm.dwmUpdateClientRect screen
        (appended state id (windowNew pos width height .panel))) := by
      apply added.dwmUpdateClientRect
      · intro wall held member
        rcases List.mem_append.mp member with inWindows | isNew
        · exact (consistent.wall wall held).2.2 inWindows
        · rw [List.mem_singleton] at isNew
          exact unwalled (isNew ▸ held)
      · intro wall held invalid clean point client
        have different : wall ≠ id := by
          rintro rfl
          exact unwalled held
        have wallSame : (appended state id (windowNew pos width height .panel)).heap wall = state.heap wall :=
          Function.update_of_ne different ..
        rw [wallSame] at invalid clean
        rcases careful wall held invalid clean point client with inside | ⟨other, member, inside⟩
        · exact .inl inside
        · right
          refine ⟨other, List.mem_append_left _ member, ?_⟩
          have otherSame : (appended state id (windowNew pos width height .panel)).heap other = state.heap other := by
            apply Function.update_of_ne
            rintro rfl
            exact unlisted member
          rw [otherSame]
          exact inside
    refine updated.dwmSelect (same.windows ▸ once) _ ?_
    intro other chosen
    obtain rfl := Option.some.inj chosen
    rw [same.windows]
    exact last
  | cursor => cases cursorFree
  | wall =>
    simp only [Dwm.dwmCreate]
    split
    · exact unused _
    · apply (unused _).setWall
      simp only [Function.update_self]
      rfl

/-- Every step without a cursor keeps the invariant between draw passes, and a draw pass
paints the client rectangle. -/
theorem step_prepared {state : State} {event : Event} {next : State} (sound : Sound screen state)
    (prepared : Prepared screen state) (covering : WallCovers screen state)
    (cursorFree : event.cursorFree = true) (careful : Careful screen state event)
    (taken : stepInRange screen state event = some next) :
    Prepared screen next ∧ (event = .draw → Painted screen next) := by
  rw [stepInRange, Option.ite_none_right_eq_some] at taken
  obtain ⟨ranged, taken⟩ := taken
  obtain ⟨consistent, sized⟩ := sound
  cases event with
  | create id pos width height type =>
    simp only [step, Option.ite_none_left_eq_some, Option.some.injEq, Bool.not_eq_true] at taken
    obtain ⟨free, rfl⟩ := taken
    exact ⟨prepared.dwmCreate consistent free pos width height cursorFree careful, fun same => by cases same⟩
  | close id =>
    simp only [step, Option.ite_none_right_eq_some, Option.some.injEq] at taken
    obtain ⟨_, rfl⟩ := taken
    exact ⟨prepared.windowCleanup id, fun same => by cases same⟩
  | move id pos width height memory =>
    simp only [step, Option.ite_none_right_eq_some, Option.some.injEq] at taken
    obtain ⟨_, rfl⟩ := taken
    exact ⟨prepared.later (Later.mark _ _ _ rfl rfl), fun same => by cases same⟩
  | updateClientRect =>
    obtain rfl := Option.some.inj taken
    exact ⟨prepared.dwmUpdateClientRect (fun wall held => (consistent.wall wall held).2.2) careful,
      fun same => by cases same⟩
  | flush id buffer size rect =>
    simp only [step, Option.ite_none_right_eq_some, Option.some.injEq] at taken
    obtain ⟨used, rfl⟩ := taken
    simp only [Event.inRange, Bool.and_eq_true, decide_eq_true_eq] at ranged
    exact ⟨prepared.windowFlush sized used buffer size ranged, fun same => by cases same⟩
  | mouse buttons delta =>
    simp only [step, prepared.cursor, Option.some.injEq] at taken
    subst taken
    exact ⟨prepared, fun same => by cases same⟩
  | keyboard type code mods =>
    obtain rfl := Option.some.inj taken
    exact ⟨prepared.later (Later.tell state _), fun same => by cases same⟩
  | select point =>
    obtain rfl := Option.some.inj taken
    exact ⟨prepared.dwmSelect consistent.once _ (dwmWindowUnderPoint_mem state point), fun same => by cases same⟩
  | draw =>
    obtain rfl := Option.some.inj taken
    have pass : dwmLoop screen state = drawPass screen state := by
      rw [dwmLoop, prepared.cursor]
      split
      · rename_i none
        rw [drawPass, none]
      · rfl
      · contradiction
    obtain ⟨painted, settled, ready⟩ :=
      sized.drawPass_painted consistent prepared.settled prepared.ready covering careful
    rw [pass]
    exact ⟨⟨settled, ready, (drawPass_sameFocus screen state).cursor.trans prepared.cursor⟩, fun _ => painted⟩

/-- The manager starts prepared. -/
theorem initial_prepared (memory : Nat → Window) (back : Int → Pixel) :
    Prepared screen (initial screen memory back) := by
  refine ⟨?_, ?_, rfl⟩
  · intro id member
    cases member
  · intro wall held
    cases held

/-- What a draw pass shows. With a wall that covers the screen, without a cursor, and
with careful events, the client rectangle is painted after each draw pass.

Proof: between draw passes the windows are settled and the client rectangle is ready, which each careful
event keeps, and a draw pass paints what is ready. -/
theorem painted_after_each_draw (memory : Nat → Window) (back : Int → Pixel) (events : List Event)
    (walled : Always (stepInRange screen) (initial screen memory back) (WallCovers screen) events)
    (cursorFree : ∀ event ∈ events, event.cursorFree = true)
    (careful : Each (stepInRange screen) (initial screen memory back) (Careful screen) events)
    (beginning : List Event) (state : State) (inside : beginning ++ [.draw] <+: events)
    (reached : run (stepInRange screen) (initial screen memory back) (beginning ++ [.draw]) = some state) :
    Painted screen state := by
  have allowed : Each (stepInRange screen) (initial screen memory back) (fun state event =>
      WallCovers screen state ∧ event.cursorFree = true ∧ Careful screen state event) events := by
    intro earlier event before next within reachedBefore taken
    have member : event ∈ events :=
      within.subset (List.mem_append_right _ (List.mem_singleton_self event))
    exact ⟨walled earlier before ((List.prefix_append _ _).trans within) reachedBefore,
      cursorFree event member, careful earlier event before next within reachedBefore taken⟩
  have always : Always (stepInRange screen) (initial screen memory back)
      (fun state => Sound screen state ∧ Prepared screen state) events := by
    refine always_of_each ⟨initial_sound memory back, initial_prepared memory back⟩ ?_ events allowed
    intro before event next facts allows taken
    exact ⟨step_sound before event next facts.1 taken,
      (step_prepared facts.1 facts.2 allows.1 allows.2.1 allows.2.2 taken).1⟩
  obtain ⟨before, reachedBefore, taken⟩ := (run_snoc beginning .draw state).mp reached
  have facts := always beginning before ((List.prefix_append _ _).trans inside) reachedBefore
  have allows := allowed beginning .draw before state inside reachedBefore taken
  exact (step_prepared facts.1 facts.2 allows.1 allows.2.1 allows.2.2 taken).2 rfl

/-- What a window exposes is aligned if its previous rectangle starts where the wall
does. -/
theorem aligned_of_corner {state : State} {wall id : Nat}
    (left : (state.heap id).prevRect.left = (state.heap wall).pos.x)
    (top : (state.heap id).prevRect.top = (state.heap wall).pos.y) (point : Point) :
    Aligned screen state wall point id := by
  intro _ _
  rw [filling, left, top]
  rfl

/-- The wall covers the screen if the one wall does. -/
theorem wallCovers_of {state : State} {wall : Nat} (held : state.wall = some wall)
    (covering : screen.rect.Within (state.heap wall).rect) : WallCovers screen state := by
  intro other heldOther
  obtain rfl : wall = other := Option.some.inj (held.symm.trans heldOther)
  exact covering

/-- A wall with twelve different pixels, and a window of one pixel that leaves its place
after it was drawn. -/
def leaving (place target : Point) : List Event :=
  [.create 0 ⟨0, 0⟩ 4 3 .wall, .flush 0 (fun index => UInt32.ofNat index.toNat) 48 ⟨0, 0, 4, 3⟩,
    .create 1 place 1 1 .window, .draw, .move 1 target 1 1 (fun _ => 0), .draw]

/-- The wall covers the screen all the time. -/
theorem leaving_walled (place target : Point)
    (known : (place = ⟨0, 0⟩ ∧ target = ⟨1, 0⟩) ∨ (place = ⟨2, 1⟩ ∧ target = ⟨0, 0⟩)) :
    Always (stepInRange smallScreen) (initial smallScreen blankMemory fun _ => 0) (WallCovers smallScreen)
      (leaving place target) := by
  rcases known with ⟨rfl, rfl⟩ | ⟨rfl, rfl⟩
  all_goals
    refine always_cons nofun rfl ?_
    refine always_cons (wallCovers_of rfl ⟨by decide, by decide, by decide, by decide⟩) rfl ?_
    refine always_cons (wallCovers_of rfl ⟨by decide, by decide, by decide, by decide⟩) rfl ?_
    refine always_cons (wallCovers_of rfl ⟨by decide, by decide, by decide, by decide⟩) rfl ?_
    refine always_cons (wallCovers_of rfl ⟨by decide, by decide, by decide, by decide⟩) rfl ?_
    refine always_cons (wallCovers_of rfl ⟨by decide, by decide, by decide, by decide⟩) rfl ?_
    exact always_nil (wallCovers_of rfl ⟨by decide, by decide, by decide, by decide⟩)

/-- What a window leaves in the first corner of the wall is filled with the right part
of the wall. -/
theorem leaving_corner_careful : Each (stepInRange smallScreen)
    (initial smallScreen blankMemory fun _ => 0) (Careful smallScreen) (leaving ⟨0, 0⟩ ⟨1, 0⟩) := by
  refine each_cons trivial rfl ?_
  refine each_cons trivial rfl ?_
  refine each_cons trivial rfl ?_
  refine each_cons ?_ rfl ?_
  · intro wall held id member _ _ point _
    obtain rfl := Option.some.inj held
    obtain rfl : id = 1 := List.mem_singleton.mp member
    exact aligned_of_corner rfl rfl point
  · refine each_cons trivial rfl ?_
    refine each_cons ?_ rfl each_nil
    intro wall held id member _ _ point _
    obtain rfl := Option.some.inj held
    obtain rfl : id = 1 := List.mem_singleton.mp member
    exact aligned_of_corner (by decide) (by decide) point

/-- A window that leaves the first corner of the wall. -/
theorem leaving_corner_painted : ∃ state,
    run (stepInRange smallScreen) (initial smallScreen blankMemory fun _ => 0) (leaving ⟨0, 0⟩ ⟨1, 0⟩) =
      some state ∧ (state.heap 1).pos = ⟨1, 0⟩ ∧ Painted smallScreen state :=
  ⟨_, rfl, by decide, painted_after_each_draw blankMemory (fun _ => 0) (leaving ⟨0, 0⟩ ⟨1, 0⟩)
    (leaving_walled _ _ (.inl ⟨rfl, rfl⟩)) (by decide) leaving_corner_careful
    (leaving ⟨0, 0⟩ ⟨1, 0⟩).dropLast _ List.prefix_rfl rfl⟩

/-- A window that leaves another place: the first pixel of the wall is shown there, and
not the seventh. -/
theorem leaving_place_misaligned :
    Always (stepInRange smallScreen) (initial smallScreen blankMemory fun _ => 0) (WallCovers smallScreen)
      (leaving ⟨2, 1⟩ ⟨0, 0⟩) ∧
    (∀ event ∈ leaving ⟨2, 1⟩ ⟨0, 0⟩, event.cursorFree = true) ∧
    ∃ state, run (stepInRange smallScreen) (initial smallScreen blankMemory fun _ => 0)
      (leaving ⟨2, 1⟩ ⟨0, 0⟩) = some state ∧ ¬ Painted smallScreen state := by
  refine ⟨leaving_walled _ _ (.inr ⟨rfl, rfl⟩), by decide, _, rfl, ?_⟩
  intro painted
  have shown := painted 0 rfl ⟨2, 1⟩ (by decide)
  revert shown
  decide

end Asym.Dwm
