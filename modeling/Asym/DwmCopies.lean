import Asym.DwmSizes

/-!
# Copies of the window manager

Every copy into the back buffer should read pixels of its source's buffer and write
pixels of the back buffer. The rectangles are fitted to windows and to the screen, so
that they never leave either of them. One copy is not fitted to its source: what is
exposed is first filled from the wall, from its first pixel on, whatever the size of
the wall is.
-/

namespace Asym.Dwm

open Graphics EventRuns Folds Grids

variable (screen : Screen)

/-- A copy reads only pixels of its source and writes only pixels of the back buffer,
and no row has a negative width. -/
def Copy.Inside (copy : Copy) : Prop :=
  ∀ y, 0 ≤ y → y < copy.rect.height → 0 ≤ copy.rect.width ∧ ∀ x, 0 ≤ x → x < copy.rect.width →
    (0 ≤ copy.rect.left + x + (copy.rect.top + y) * screen.stride ∧
      copy.rect.left + x + (copy.rect.top + y) * screen.stride < screen.capacity) ∧
    (0 ≤ copy.point.x + x + (copy.point.y + y) * copy.stride ∧
      copy.point.x + x + (copy.point.y + y) * copy.stride < copy.capacity)

/-- All copies made so far stay inside their buffers. -/
def CopiesInside (state : State) : Prop :=
  ∀ copy ∈ state.copies, copy.Inside screen

/-- The wall's buffer has room for a rectangle from its first pixel on. -/
def WallFits (state : State) (rect : Rect) : Prop :=
  0 < rect.width → 0 < rect.height → ∃ wall, state.wall = some wall ∧
    rect.width + (rect.height - 1) * (state.heap wall).gfx.stride ≤ (state.heap wall).gfx.capacity

/-- The wall is going to be drawn, and all windows with it. -/
def WallDirty (state : State) : Prop :=
  ∃ wall, state.wall = some wall ∧ ((state.heap wall).invalid = true ∨ (state.heap wall).moved = true)

/-- A window exposes what it covered: it is drawn as moved, and it does not cover its
previous rectangle. -/
def Exposes (state : State) (id : Nat) : Prop :=
  ((state.heap id).moved = true ∨ WallDirty state) ∧
    (state.heap id).prevRect.subtract (clip screen state id) ≠ []

/-- What a draw pass exposes, and what the cursor leaves, fits the wall. -/
def ExposureFits (state : State) : Event → Prop
  | .draw => ∀ wall, state.wall = some wall → ∀ id ∈ state.windows, Exposes screen state id →
      WallFits state (state.heap id).prevRect
  | .mouse _ delta => ∀ cursor, state.cursor = some cursor → delta.x ≠ 0 ∨ delta.y ≠ 0 →
      WallFits state ((state.heap cursor).rect.fit screen.rect)
  | _ => True

/-- A copy whose rectangle is on the screen stays inside if its source has the pixels. -/
theorem OnScreen.copy_inside {rect : Rect} (shown : OnScreen screen rect) (point : Point)
    (stride capacity : Nat)
    (read : ∀ pixel, rect.Contains pixel →
      0 ≤ point.x + (pixel.x - rect.left) + (point.y + (pixel.y - rect.top)) * stride ∧
        point.x + (pixel.x - rect.left) + (point.y + (pixel.y - rect.top)) * stride < capacity) :
    Copy.Inside screen ⟨rect, point, stride, capacity⟩ := by
  obtain ⟨ordered, visible⟩ := shown
  intro y yBegins yEnds
  simp only [Rect.Ordered, Rect.width, Rect.height] at *
  apply And.intro (by omega)
  intro x xBegins xEnds
  have inRect : rect.Contains ⟨rect.left + x, rect.top + y⟩ := by
    simp only [Rect.Contains]
    omega
  constructor
  · have inScreen := visible _ inRect
    simp only [Rect.Contains, Screen.rect] at inScreen
    have rows : (screen.width : Int) ≤ screen.stride := by exact_mod_cast screen.rows
    have room : (screen.stride : Int) * screen.height ≤ screen.capacity := by exact_mod_cast screen.room
    have inBuffer := cell_inside screen.stride screen.height inScreen.1 (by omega) inScreen.2.2.1 inScreen.2.2.2
    rw [Int.mul_comm] at room
    rw [cell] at inBuffer
    omega
  · have source := read _ inRect
    simp only [add_sub_cancel_left] at source
    exact source

/-- A part of a window, copied from where it is in the window. -/
theorem Window.Framed.copy_inside {window : Window} (framed : window.Framed screen) {rect : Rect}
    (shown : OnScreen screen rect) (part : ∀ point, rect.Contains point → window.rect.Contains point) :
    Copy.Inside screen ⟨rect, ⟨rect.left - window.pos.x, rect.top - window.pos.y⟩, window.gfx.stride,
      window.gfx.capacity⟩ := by
  apply shown.copy_inside
  intro pixel inside
  have inWindow := part pixel inside
  simp only [Rect.Contains, Window.rect, rectInitDim] at inWindow
  have inBuffer := cell_inside window.gfx.width window.gfx.height
    (show 0 ≤ pixel.x - window.pos.x by omega) (by omega) (show 0 ≤ pixel.y - window.pos.y by omega) (by omega)
  have xPart : rect.left - window.pos.x + (pixel.x - rect.left) = pixel.x - window.pos.x := by omega
  have yPart : rect.top - window.pos.y + (pixel.y - rect.top) = pixel.y - window.pos.y := by omega
  rw [framed.stride, framed.capacity, xPart, yPart, Nat.cast_mul, Int.mul_comm (window.gfx.width : Int)]
  exact inBuffer

/-- A part of a window, copied from the first pixel of the window. -/
theorem Window.Framed.copy_front_inside {window : Window} (framed : window.Framed screen) {rect : Rect}
    (shown : OnScreen screen rect) (part : ∀ point, rect.Contains point → window.rect.Contains point) :
    Copy.Inside screen ⟨rect, ⟨0, 0⟩, window.gfx.stride, window.gfx.capacity⟩ := by
  apply shown.copy_inside
  intro pixel inside
  have first : rect.Contains ⟨rect.left, rect.top⟩ := by
    simp only [Rect.Contains] at *
    omega
  have inWindow := part pixel inside
  have firstInWindow := part _ first
  simp only [Rect.Contains, Window.rect, rectInitDim] at inWindow firstInWindow inside
  have inBuffer := cell_inside window.gfx.width window.gfx.height
    (show 0 ≤ pixel.x - rect.left by omega) (by omega) (show 0 ≤ pixel.y - rect.top by omega) (by omega)
  rw [framed.stride, framed.capacity, Int.zero_add, Int.zero_add, Nat.cast_mul,
    Int.mul_comm (window.gfx.width : Int)]
  exact inBuffer

/-- The wall, copied from its first pixel on, stays inside exactly if the rectangle
fits. -/
theorem OnScreen.wall_inside_iff {rect : Rect} (shown : OnScreen screen rect) (stride capacity : Nat) :
    Copy.Inside screen ⟨rect, ⟨0, 0⟩, stride, capacity⟩ ↔
      (0 < rect.width → 0 < rect.height → rect.width + (rect.height - 1) * stride ≤ capacity) := by
  constructor
  · intro inside wide high
    -- The last pixel of the last row is the one that is furthest from the start.
    have last := ((inside (rect.height - 1) (by omega) (by simp only; omega)).2 (rect.width - 1) (by omega)
      (by simp only; omega)).2.2
    simp only [Int.zero_add] at last
    omega
  · intro fits
    apply shown.copy_inside
    intro pixel inside
    simp only [Rect.Contains] at inside
    have fitting := fits (by rw [Rect.width]; omega) (by rw [Rect.height]; omega)
    have start : 0 ≤ (pixel.y - rect.top) * (stride : Int) := Int.mul_nonneg (by omega) (by omega)
    have below : (pixel.y - rect.top) * (stride : Int) ≤ (rect.height - 1) * stride := by
      apply Int.mul_le_mul_of_nonneg_right _ (by omega)
      rw [Rect.height]
      omega
    rw [Rect.width] at fitting
    simp only [Int.zero_add]
    omega

variable {screen}

/-- One more copy. -/
theorem copiesInside_cons {before after : State} {copy : Copy} (made : after.copies = copy :: before.copies) :
    CopiesInside screen after ↔ CopiesInside screen before ∧ copy.Inside screen := by
  rw [CopiesInside, made, List.forall_mem_cons, and_comm]
  rfl

/-- Another window in `dwm_redraw_others` is copied from where it is. -/
theorem SizedBut.redrawOther_copies {skipped : Option Nat} {state : State}
    (sized : SizedBut screen skipped state) (window : Nat) {rect : Rect} (ordered : rect.Ordered) {other : Nat}
    (live : state.live other = true) :
    CopiesInside screen (redrawOther screen window rect state other) ↔ CopiesInside screen state := by
  rw [redrawOther]
  split_ifs with same overlaps
  · rfl
  · rw [dwmTransfer, copiesInside_cons rfl]
    apply and_iff_left
    apply (sized.framed other live).copy_inside screen
    · exact sized.fit_onScreen screen (ordered.fit _) other
    · intro point inside
      exact ((rect.contains_fit _ point).mp ((Rect.contains_fit _ _ point).mp inside).1).2
  · rfl

/-- The wall in `dwm_redraw_others` is copied from its first pixel on. -/
theorem OnScreen.redrawWall_copies {rect : Rect} (shown : OnScreen screen rect) (state : State) :
    CopiesInside screen (redrawWall screen state rect) ↔ CopiesInside screen state ∧ WallFits state rect := by
  rw [redrawWall]
  split
  · rename_i missing
    rw [copiesInside_cons rfl, shown.wall_inside_iff screen, WallFits, missing]
    apply and_congr_right
    intro _
    constructor
    · intro fits wide high
      have nothing := fits wide high
      simp only [Nat.cast_zero, Int.mul_zero] at nothing
      omega
    · intro fits wide high
      obtain ⟨_, found, _⟩ := fits wide high
      cases found
  · rename_i wall held
    rw [transfer, copiesInside_cons rfl, shown.wall_inside_iff screen, WallFits, held]
    apply and_congr_right
    intro _
    constructor
    · intro fits wide high
      exact ⟨wall, rfl, fits wide high⟩
    · intro fits wide high
      obtain ⟨_, found, enough⟩ := fits wide high
      obtain rfl := Option.some.inj found
      exact enough

/-- Whether a rectangle fits the wall does not depend on what is drawn. -/
theorem WallFits.of_onlyDraws {before after : State} (drawn : OnlyDraws before after) (rect : Rect) :
    WallFits after rect ↔ WallFits before rect := by
  rw [drawn]
  rfl

/-- `dwm_redraw_others` stays inside exactly if the rectangle fits the wall. -/
theorem SizedBut.dwmRedrawOthers_copies {skipped : Option Nat} {state : State}
    (sized : SizedBut screen skipped state) (live : ∀ id ∈ state.windows, state.live id = true) (window : Nat)
    {rect : Rect} (shown : OnScreen screen rect) :
    CopiesInside screen (dwmRedrawOthers screen state window rect) ↔
      CopiesInside screen state ∧ WallFits state rect := by
  rw [← shown.redrawWall_copies, dwmRedrawOthers]
  have wallDrawn : OnlyDraws state (redrawWall screen state rect) := by
    rw [redrawWall]
    split
    · rfl
    · rfl
  refine (List.foldlRecOn (motive := fun drawn => OnlyDraws state drawn ∧
    (CopiesInside screen drawn ↔ CopiesInside screen (redrawWall screen state rect)))
    state.windows _ ⟨wallDrawn, Iff.rfl⟩ ?_).2
  intro drawn facts other member
  apply And.intro (trans_of OnlyDraws facts.1 (redrawOther_onlyDraws screen window rect drawn other))
  rw [← facts.2]
  apply (sized.of_onlyDraws facts.1).redrawOther_copies window shown.1
  rw [facts.1]
  exact live other member

/-- Exposing a rectangle once for each of some pieces stays inside exactly if there are
none or the rectangle fits the wall. -/
theorem SizedBut.pieces_copies {skipped : Option Nat} {state : State} (sized : SizedBut screen skipped state)
    (live : ∀ id ∈ state.windows, state.live id = true) (id : Nat) {rect : Rect}
    (shown : OnScreen screen rect) (pieces : List Rect) :
    CopiesInside screen (pieces.foldl (fun drawn _ => dwmRedrawOthers screen drawn id rect) state) ↔
      CopiesInside screen state ∧ (pieces ≠ [] → WallFits state rect) := by
  induction pieces generalizing state with
  | nil => simp only [List.foldl_nil, ne_eq, not_true_eq_false, false_imp_iff, and_true]
  | cons piece rest ih =>
    have drawn := dwmRedrawOthers_onlyDraws screen state id rect
    have liveNext : ∀ other ∈ (dwmRedrawOthers screen state id rect).windows,
        (dwmRedrawOthers screen state id rect).live other = true := by
      rw [drawn]
      exact live
    rw [List.foldl_cons, ih (sized.of_onlyDraws drawn) liveNext,
      WallFits.of_onlyDraws drawn, sized.dwmRedrawOthers_copies live id shown]
    constructor
    · intro facts
      exact ⟨facts.1.1, fun _ => facts.1.2⟩
    · intro facts
      have fits := facts.2 (List.cons_ne_nil piece rest)
      exact ⟨⟨facts.1, fits⟩, fun _ => fits⟩

/-- The end of an iteration stays inside if the rectangle is a part of the window. -/
theorem SizedBut.drawRect_copies {skipped : Option Nat} {state : State} (sized : SizedBut screen skipped state)
    {id : Nat} (live : state.live id = true) {rect : Rect} (shown : OnScreen screen rect)
    (part : ∀ point, rect.Contains point → (state.heap id).rect.Contains point) :
    CopiesInside screen (Dwm.drawRect screen state id rect) ↔ CopiesInside screen state := by
  have invalidated := invalidateAll_invalidated rect (dwmTransfer screen state id rect)
    (above (dwmTransfer screen state id rect).windows id)
  have made : (Dwm.drawRect screen state id rect).copies = (dwmTransfer screen state id rect).copies :=
    invalidated.copies
  rw [copiesInside_cons made]
  exact and_iff_left ((sized.framed id live).copy_inside screen shown part)

/-- Drawing a window stays inside exactly if it exposes nothing or its previous
rectangle fits the wall. -/
theorem Sized.drawWindow_copies {state : State} (sized : Sized screen state)
    (live : ∀ id ∈ state.windows, state.live id = true) {id : Nat} (used : state.live id = true)
    (listed : (state.heap id).type = .window ∨ (state.heap id).type = .panel) :
    CopiesInside screen (Dwm.drawWindow screen state id) ↔ CopiesInside screen state ∧
      ((state.heap id).moved = true → (state.heap id).prevRect.subtract (clip screen state id) ≠ [] →
        WallFits state (state.heap id).prevRect) := by
  have inWindow (outer : Rect) (point : Point) (inside : (outer.fit (fitRect screen state id)).Contains point) :
      outer.Contains point := ((outer.contains_fit _ point).mp inside).1
  rw [Dwm.drawWindow]
  split_ifs with isMoved isInvalid
  · have drawn := expose_onlyDraws screen state id
    have settled : SizedBut screen (some id)
        ((expose screen state id).modify id (Window.settle (clip screen state id))) := by
      refine (sized.of_onlyDraws drawn).modify ?_
        (fun framed => ⟨framed.stride, framed.capacity, sized.fit_onScreen screen (state.heap id).rect_ordered id⟩) ?_
      · intro _ _ _ same
        cases same
      · intro _ different
        exact absurd rfl different
    rw [settled.drawRect_copies]
    · have shown := (sized.framed id used).previous
      have exposed := sized.pieces_copies live id shown
        ((state.heap id).prevRect.subtract (clip screen state id))
      simp only [isMoved, true_imp_iff]
      exact exposed
    · show (expose screen state id).live id = true
      rw [drawn]
      exact used
    · exact sized.fit_onScreen screen (state.heap id).rect_ordered id
    · intro point inside
      have same : ((expose screen state id).modify id (Window.settle (clip screen state id))).heap id =
          (state.heap id).settle (clip screen state id) := by
        rw [State.modify_self, drawn]
      rw [same]
      exact inWindow _ point inside
  · have still : (state.heap id).moved = false := by simpa using isMoved
    have damaged := (sized.damaged id used (Option.some_ne_none id).symm).invalidRect listed still
    have cleared : SizedBut screen (some id)
        (state.modify id fun window => { window with invalid := false }) := by
      refine sized.modify ?_ (fun framed => ⟨framed.stride, framed.capacity, framed.previous⟩) ?_
      · intro _ _ _ same
        cases same
      · intro _ different
        exact absurd rfl different
    rw [cleared.drawRect_copies used (sized.fit_onScreen screen damaged.1 id)]
    · exact (and_iff_left (fun moving => absurd moving isMoved)).symm
    · intro point inside
      rw [State.modify_self]
      exact damaged.2 point (inWindow _ point inside)
  · exact (and_iff_left (fun moving => absurd moving isMoved)).symm

/-- Whether a rectangle fits the wall depends on the shapes. -/
theorem SameShapes.wallFits {before after : State} (same : SameShapes before after) (rect : Rect) :
    WallFits after rect ↔ WallFits before rect := by
  simp only [WallFits, same.wall, (same.shape _).stride, (same.shape _).capacity]

/-- Drawing windows in turn stays inside exactly if each of them does. A window that is
drawn later finds its own previous rectangle, its own place and the wall as they were. -/
theorem Sized.drawWindows_copies {state : State} (sized : Sized screen state)
    (consistent : Consistent state) (ids : List Nat) (once : ids.Nodup) (listed : ∀ id ∈ ids, id ∈ state.windows) :
    CopiesInside screen (ids.foldl (Dwm.drawWindow screen) state) ↔ CopiesInside screen state ∧
      ∀ id ∈ ids, (state.heap id).moved = true →
        (state.heap id).prevRect.subtract (clip screen state id) ≠ [] →
        WallFits state (state.heap id).prevRect := by
  induction ids generalizing state with
  | nil => simp only [List.foldl_nil, List.not_mem_nil, false_imp_iff, implies_true, and_true]
  | cons first rest ih =>
    obtain ⟨different, restOnce⟩ := List.nodup_cons.mp once
    obtain ⟨used, kind⟩ := (consistent.listed first).mp (listed first List.mem_cons_self)
    have live (id : Nat) (member : id ∈ state.windows) : state.live id = true :=
      ((consistent.listed id).mp member).1
    have drawn := @drawWindow_drawnBut screen state first
    have restListed (id : Nat) (member : id ∈ rest) : id ∈ (Dwm.drawWindow screen state first).windows := by
      rw [drawn.windows]
      exact listed id (List.mem_cons_of_mem first member)
    have restSame : (∀ id ∈ rest, ((Dwm.drawWindow screen state first).heap id).moved = true →
          ((Dwm.drawWindow screen state first).heap id).prevRect.subtract
            (clip screen (Dwm.drawWindow screen state first) id) ≠ [] →
          WallFits (Dwm.drawWindow screen state first)
            ((Dwm.drawWindow screen state first).heap id).prevRect) ↔
        ∀ id ∈ rest, (state.heap id).moved = true →
          (state.heap id).prevRect.subtract (clip screen state id) ≠ [] →
          WallFits state (state.heap id).prevRect := by
      apply forall₂_congr
      intro id member
      have other : id ≠ first := fun same => different (same ▸ member)
      have kept := drawn.kept id other
      rw [kept.moved, kept.previous, drawn.clip, drawn.wallFits]
    rw [List.foldl_cons, ih (sized.drawWindow used kind)
      (consistent.of_same drawn.toSameFocus) restOnce restListed, sized.drawWindow_copies live used kind,
      restSame, List.forall_mem_cons, and_assoc]

/-- Drawing the wall stays inside. -/
theorem Sized.dwmDrawWall_copies {state : State} (sized : Sized screen state) {wall : Nat}
    (live : state.live wall = true) :
    CopiesInside screen (Dwm.dwmDrawWall screen state wall) ↔ CopiesInside screen state := by
  rw [Dwm.dwmDrawWall]
  split_ifs with clean
  · rfl
  · have made := (markAllMoved_draws (dwmTransfer screen (state.modify wall Window.clean) wall
      ((state.heap wall).rect.fit state.clientRect)) state.windows).2
    rw [copiesInside_cons made]
    apply and_iff_left
    have framed : ((state.modify wall Window.clean).heap wall).Framed screen := by
      rw [State.modify_self]
      have before := sized.framed wall live
      exact ⟨before.stride, before.capacity, before.previous⟩
    apply framed.copy_inside screen
    · apply And.intro ((state.heap wall).rect_ordered.fit _)
      intro point inside
      exact sized.client point ((Rect.contains_fit _ _ point).mp inside).2
    · intro point inside
      rw [State.modify_self]
      exact ((Rect.contains_fit _ _ point).mp inside).1

/-- Drawing the cursor stays inside. -/
theorem Window.Framed.dwmDrawCursor_copies {state : State} {cursor : Nat}
    (framed : (state.heap cursor).Framed screen) :
    CopiesInside screen (dwmDrawCursor screen state cursor) ↔ CopiesInside screen state := by
  rw [dwmDrawCursor, transferBlend, copiesInside_cons rfl]
  apply and_iff_left
  apply framed.copy_front_inside screen
  · apply And.intro ((state.heap cursor).rect_ordered.fit _)
    intro point inside
    exact ((Rect.contains_fit _ _ point).mp inside).2
  · intro point inside
    exact ((Rect.contains_fit _ _ point).mp inside).1

/-- A draw pass stays inside exactly if what it exposes fits the wall. -/
theorem Sized.drawPass_copies {state : State} (sized : Sized screen state) (consistent : Consistent state) :
    CopiesInside screen (Dwm.drawPass screen state) ↔ CopiesInside screen state ∧
      ExposureFits screen state .draw := by
  rw [Dwm.drawPass, ExposureFits]
  split
  · rename_i missing
    simp only [missing, reduceCtorEq, false_imp_iff, implies_true, and_true]
  · rename_i wall held
    obtain ⟨live, type, unlisted⟩ := consistent.wall wall held
    have same := @dwmDrawWall_sameShapes screen state wall
    have wallSized := sized.dwmDrawWall type
    have wallConsistent := consistent.of_same same.toSameFocus
    rw [dwmDrawWindows, wallSized.drawWindows_copies wallConsistent _ wallConsistent.once (fun _ member => member),
      sized.dwmDrawWall_copies live, same.windows]
    apply and_congr_right
    intro _
    simp only [held, Option.some.injEq, forall_eq']
    apply forall₂_congr
    intro id member
    have different : id ≠ wall := fun equal => unlisted (equal ▸ member)
    have seen := @dwmDrawWall_heap screen state wall id different member
    have previous := @dwmDrawWall_prevRect screen state wall id different member
    have moved : ((Dwm.dwmDrawWall screen state wall).heap id).moved = true ↔
        (state.heap id).moved = true ∨ WallDirty state := by
      rw [seen, WallDirty, held]
      simp only [Option.some.injEq, exists_eq_left']
      split_ifs with dirty
      · simp only [Window.markMoved, dirty, or_true]
      · simp only [dirty, or_false]
    rw [previous, moved, same.clip, same.wallFits, Exposes, and_imp]

/-- Moving the cursor stays inside exactly if what it leaves fits the wall. -/
theorem Sized.moveCursor_copies {state : State} (sized : Sized screen state)
    (live : ∀ id ∈ state.windows, state.live id = true) {cursor : Nat} (used : state.live cursor = true)
    (delta : Point) :
    CopiesInside screen (moveCursor screen state cursor delta) ↔ CopiesInside screen state ∧
      (delta.x ≠ 0 ∨ delta.y ≠ 0 → WallFits state ((state.heap cursor).rect.fit screen.rect)) := by
  rw [moveCursor]
  split_ifs with motion
  · have shown : OnScreen screen ((state.heap cursor).rect.fit screen.rect) := by
      apply And.intro ((state.heap cursor).rect_ordered.fit _)
      intro point inside
      exact ((Rect.contains_fit _ _ point).mp inside).2
    have drawn := dwmRedrawOthers_onlyDraws screen state cursor ((state.heap cursor).rect.fit screen.rect)
    rw [Window.Framed.dwmDrawCursor_copies]
    · have redrawn := sized.dwmRedrawOthers_copies live cursor shown
      simp only [motion, true_imp_iff]
      exact redrawn
    · rw [State.modify_self, drawn]
      have framed := sized.framed cursor used
      exact ⟨framed.stride, framed.capacity, framed.previous⟩
  · simp only [motion, false_imp_iff, and_true]

/-- Telling the selected window something copies nothing. -/
theorem tellSelected_copies (state : State) (message : Message) :
    (tellSelected state message).copies = state.copies := by
  rw [tellSelected]
  split
  · rfl
  · rfl

/-- Selecting copies nothing. -/
theorem dwmSelect_copies (state : State) (target : Option Nat) :
    (dwmSelect state target).copies = state.copies := by
  have told := tellSelected_copies state .deselect
  rw [dwmSelect]
  split_ifs with same
  · rfl
  · cases target with
    | none => exact told
    | some id => exact told

/-- A mouse event copies what moving the cursor copies. -/
theorem dwmHandleMouseMessage_copies (state : State) (cursor : Nat) (buttons : BitVec 32) (delta : Point) :
    (dwmHandleMouseMessage screen state cursor buttons delta).copies =
      (moveCursor screen state cursor delta).copies := by
  have chosen (before : State) (pressed : BitVec 32) (pos : Point) :
      (pressAt before pressed pos).copies = before.copies := by
    rw [pressAt]
    split_ifs with press
    · exact dwmSelect_copies before _
    · rfl
  exact (tellSelected_copies _ _).trans (chosen _ _ _)

/-- Updating the client rectangle copies nothing. -/
theorem dwmUpdateClientRect_copies (state : State) :
    (dwmUpdateClientRect screen state).copies = state.copies :=
  (markAllMoved_draws state state.windows).2

/-- A request for a window copies nothing. -/
theorem dwmCreate_copies (state : State) (id : Nat) (pos : Point) (width height : Nat) (type : DwmType) :
    (dwmCreate screen state id pos width height type).1.copies = state.copies := by
  cases type with
  | window => exact dwmSelect_copies _ _
  | panel => exact (dwmSelect_copies _ _).trans (dwmUpdateClientRect_copies _)
  | cursor =>
    simp only [dwmCreate]
    split
    · rfl
    · rfl
  | wall =>
    simp only [dwmCreate]
    split
    · rfl
    · rfl

/-- Closing a window copies nothing. -/
theorem windowCleanup_copies (state : State) (id : Nat) :
    (windowCleanup screen state id).copies = state.copies := by
  have unselected : (if state.selected = some id then { state with selected := none } else state).copies =
      state.copies := by
    split_ifs with was
    · rfl
    · rfl
  have wallMoved (before : State) : (markWall before).copies = before.copies := by
    rw [markWall]
    split
    · rfl
    · rfl
  apply (wallMoved _).trans
  split
  · exact unselected
  · exact (dwmUpdateClientRect_copies _).trans unselected
  · exact unselected
  · exact unselected

/-- A step in range keeps all copies inside exactly if what it exposes fits the wall. -/
theorem step_copies_iff (state : State) (event : Event) (next : State)
    (sound : Sound screen state) (inside : CopiesInside screen state)
    (taken : stepInRange screen state event = some next) :
    CopiesInside screen next ↔ ExposureFits screen state event := by
  rw [stepInRange, Option.ite_none_right_eq_some] at taken
  obtain ⟨_, taken⟩ := taken
  obtain ⟨consistent, sized⟩ := sound
  have unchanged (same : next.copies = state.copies) : CopiesInside screen next ↔ True := by
    rw [CopiesInside, same]
    exact iff_true_intro inside
  cases event with
  | create id pos width height type =>
    simp only [step, Option.ite_none_left_eq_some, Option.some.injEq] at taken
    obtain ⟨_, rfl⟩ := taken
    exact unchanged (dwmCreate_copies state id pos width height type)
  | close id =>
    simp only [step, Option.ite_none_right_eq_some, Option.some.injEq] at taken
    obtain ⟨_, rfl⟩ := taken
    exact unchanged (windowCleanup_copies state id)
  | move id pos width height memory =>
    simp only [step, Option.ite_none_right_eq_some, Option.some.injEq] at taken
    obtain ⟨_, rfl⟩ := taken
    exact unchanged rfl
  | updateClientRect =>
    obtain rfl := Option.some.inj taken
    exact unchanged (dwmUpdateClientRect_copies state)
  | flush id buffer size rect =>
    simp only [step, Option.ite_none_right_eq_some, Option.some.injEq] at taken
    obtain ⟨_, rfl⟩ := taken
    apply unchanged
    simp only [windowFlush]
    split
    · rfl
    · split
      · rfl
      · rfl
  | mouse buttons delta =>
    obtain rfl := Option.some.inj taken
    rw [ExposureFits]
    split
    · rename_i missing
      simp only [missing, reduceCtorEq, false_imp_iff, implies_true, iff_true]
      exact inside
    · rename_i cursor held
      have live (id : Nat) (member : id ∈ state.windows) := ((consistent.listed id).mp member).1
      have moved := sized.moveCursor_copies live (consistent.cursor cursor held).1 delta
      rw [CopiesInside, dwmHandleMouseMessage_copies]
      simp only [held, Option.some.injEq, forall_eq']
      exact moved.trans (and_iff_right inside)
  | keyboard type code mods =>
    obtain rfl := Option.some.inj taken
    exact unchanged (tellSelected_copies state _)
  | select point =>
    obtain rfl := Option.some.inj taken
    exact unchanged (dwmSelect_copies state _)
  | draw =>
    obtain rfl := Option.some.inj taken
    have passed := (sized.drawPass_copies consistent).trans (and_iff_right inside)
    rw [dwmLoop]
    split
    · rename_i missing
      rw [ExposureFits]
      simp only [missing, reduceCtorEq, false_imp_iff, implies_true, iff_true]
      exact inside
    · exact passed
    · rename_i cursor _ held
      have same := drawPass_sameFocus screen state
      have live := (consistent.cursor cursor held).1
      rw [Window.Framed.dwmDrawCursor_copies]
      · exact passed
      · apply (sized.drawPass consistent).framed
        rw [same.live]
        exact live

/-- In every run of requests in range, all copies stay inside their buffers if and only
if what each draw pass exposes, and what the cursor leaves when it moves, fits the
wall. -/
theorem copies_inside_iff (memory : Nat → Window) (back : Int → Pixel) (events : List Event) :
    Always (stepInRange screen) (initial screen memory back) (CopiesInside screen) events ↔
      Each (stepInRange screen) (initial screen memory back) (ExposureFits screen) events := by
  apply always_iff_each (initial_sound memory back) step_sound _ step_copies_iff
  intro copy member
  cases member

/-- A wall of one pixel, and a window of two by two pixels that moves away after it was
drawn. What it leaves is filled from four pixels of the wall's buffer. -/
theorem small_wall_overread : ¬ Always (stepInRange smallScreen)
    (initial smallScreen blankMemory fun _ => 0) (CopiesInside smallScreen)
    [.create 0 ⟨0, 0⟩ 1 1 .wall, .create 1 ⟨0, 0⟩ 2 2 .window, .draw, .move 1 ⟨2, 0⟩ 2 2 (fun _ => 0), .draw] := by
  intro always
  have inside := always _ _ List.prefix_rfl rfl
  have overread : (⟨⟨0, 0, 2, 2⟩, ⟨0, 0⟩, 1, 1⟩ : Copy).Inside smallScreen := by
    apply inside
    decide
  have last := (overread 1 (by decide) (by decide)).2 1 (by decide) (by decide)
  revert last
  decide

end Asym.Dwm
