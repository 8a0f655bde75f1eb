import Asym.DwmFocus

/-!
# Sizes and rectangles of windows

The invariant says of each window that its buffer has the size of the window, that its
previous rectangle is on the screen, and that its invalid rectangle is inside of it
unless it is going to be drawn as a whole. Of the client rectangle it says that it is
on the screen.

Drawing a window changes the other ones in one way only: it invalidates them.
-/

namespace Asym.Dwm

open Graphics Folds

variable (screen : Screen)

/-- Positions below 2^40, windows with fewer than 2^31 pixels, and flushes that start
inside of their window. -/
def Event.inRange : Event → Bool
  | .create _ pos width height _ | .move _ pos width height _ =>
      pos.x.natAbs < 2 ^ 40 && pos.y.natAbs < 2 ^ 40 && width * height < 2 ^ 31
  | .flush _ _ _ rect => 0 ≤ rect.left && 0 ≤ rect.top
  | .mouse _ delta => delta.x.natAbs < 2 ^ 40 && delta.y.natAbs < 2 ^ 40
  | _ => true

/-- The steps with events in range. -/
def stepInRange (state : State) (event : Event) : Option State :=
  if event.inRange then step screen state event else none

/-- A rectangle the right way round with its points on the screen. -/
def OnScreen (rect : Rect) : Prop :=
  rect.Ordered ∧ ∀ point, rect.Contains point → screen.rect.Contains point

/-- The size of a window's buffer, and where its previous rectangle is. -/
structure Window.Framed (window : Window) : Prop where
  stride : window.gfx.stride = window.gfx.width
  capacity : window.gfx.capacity = window.gfx.width * window.gfx.height
  previous : OnScreen screen window.prevRect

/-- The invalid rectangle of a window or panel is inside of it, unless the whole window
is going to be drawn. -/
def Window.Damaged (window : Window) : Prop :=
  window.type = .window ∨ window.type = .panel → window.moved = false → window.gfx.invalidRect.Ordered ∧
    window.gfx.invalidRect.Within ⟨0, 0, window.gfx.width, window.gfx.height⟩

/-- The invariant, with the invalid rectangle of one window left open. -/
structure SizedBut (skipped : Option Nat) (state : State) : Prop where
  framed : ∀ id, state.live id = true → (state.heap id).Framed screen
  damaged : ∀ id, state.live id = true → skipped ≠ some id → (state.heap id).Damaged
  client : ∀ point, state.clientRect.Contains point → screen.rect.Contains point

/-- The invariant. -/
def Sized (state : State) : Prop :=
  SizedBut screen none state

/-- The invariant with the one about pointers. -/
def Sound (state : State) : Prop :=
  Consistent state ∧ Sized screen state

/-- A part of a window is on the screen if it is fitted to what the window is clipped
to. -/
theorem SizedBut.fit_onScreen {skipped : Option Nat} {state : State} (sized : SizedBut screen skipped state)
    {rect : Rect} (ordered : rect.Ordered) (id : Nat) :
    OnScreen screen (rect.fit (fitRect screen state id)) := by
  apply And.intro (ordered.fit _)
  intro point inside
  have fitted := ((rect.contains_fit _ point).mp inside).2
  rw [fitRect] at fitted
  split at fitted
  · exact sized.client point fitted
  · exact fitted

/-- Windows have their edges the right way round. -/
theorem Window.rect_ordered (window : Window) : window.rect.Ordered := by
  simp only [Rect.Ordered, Window.rect, rectInitDim]
  omega

variable {screen}

/-- Drawing keeps the invariant. -/
theorem SizedBut.of_onlyDraws {skipped : Option Nat} {before after : State}
    (sized : SizedBut screen skipped before) (drawn : OnlyDraws before after) :
    SizedBut screen skipped after := by
  rw [drawn]
  exact ⟨sized.framed, sized.damaged, sized.client⟩

/-- Changing a window keeps the invariant, also where the invalid rectangle of this
window was left open before or is left open after. -/
theorem SizedBut.modify {skipped left : Option Nat} {state : State} (sized : SizedBut screen skipped state)
    {id : Nat} {change : Window → Window}
    (others : ∀ other, other ≠ id → left ≠ some other → skipped ≠ some other)
    (framed : (state.heap id).Framed screen → (change (state.heap id)).Framed screen)
    (damaged : state.live id = true → left ≠ some id → (change (state.heap id)).Damaged) :
    SizedBut screen left (state.modify id change) := by
  constructor
  · intro other live
    by_cases same : other = id
    · subst same
      rw [State.modify_self]
      exact framed (sized.framed other live)
    · rw [State.modify_of_ne _ _ same]
      exact sized.framed other live
  · intro other live open_
    by_cases same : other = id
    · subst same
      rw [State.modify_self]
      exact damaged live open_
    · rw [State.modify_of_ne _ _ same]
      exact sized.damaged other live (others other same open_)
  · exact sized.client

/-- Invalidating a window keeps the invariant. -/
theorem SizedBut.invalidateOther {skipped : Option Nat} {state : State}
    (sized : SizedBut screen skipped state) {rect : Rect} (ordered : rect.Ordered) (other : Nat) :
    SizedBut screen skipped (invalidateOther rect state other) := by
  simp only [Dwm.invalidateOther]
  split
  · refine sized.modify (fun _ _ => id) (fun framed => ⟨framed.stride, framed.capacity, framed.previous⟩) ?_
    intro live open_ listed still
    obtain ⟨invalidOrdered, invalidWithin⟩ := sized.damaged other live open_ listed still
    have fittedOrdered := ordered.fit (state.heap other).rect
    have fittedWithin := rect.fit_within (state.heap other).rect_ordered
    generalize rect.fit (state.heap other).rect = fitted at fittedOrdered fittedWithin
    simp only [Rect.Ordered, Rect.Within, Window.rect, rectInitDim] at fittedOrdered fittedWithin
    apply And.symm
    apply gfxInvalidate_within invalidWithin _ invalidOrdered
    · simp only [Rect.Ordered, Window.rect, rectInitDim]
      omega
    · simp only [Rect.Within, Window.rect, rectInitDim]
      omega
  · exact sized

/-- Drawing a part of a window resets its invalid rectangle, and keeps the invariant. -/
theorem SizedBut.drawRect {id : Nat} {state : State} (sized : SizedBut screen (some id) state)
    {rect : Rect} (ordered : rect.Ordered) : Sized screen (drawRect screen state id rect) := by
  have drawn : SizedBut screen (some id) (dwmTransfer screen state id rect) := sized.of_onlyDraws rfl
  have invalidated : SizedBut screen (some id)
      (dwmInvalidateAbove (dwmTransfer screen state id rect) id rect) := by
    apply List.foldlRecOn _ _ drawn
    intro before beforeSized other _
    exact beforeSized.invalidateOther ordered other
  refine invalidated.modify ?_ (fun framed => ⟨framed.stride, framed.capacity, framed.previous⟩) ?_
  · intro other different _ same
    exact different (Option.some.inj same).symm
  · intro _ _ _ _
    simp only [Rect.Ordered, Rect.Within]
    omega

/-- A window's invalid rectangle on the screen is the right way round and inside of the
window. -/
theorem Window.Damaged.invalidRect {window : Window} (damaged : window.Damaged)
    (listed : window.type = .window ∨ window.type = .panel) (still : window.moved = false) :
    window.invalidRect.Ordered ∧
      ∀ point, window.invalidRect.Contains point → window.rect.Contains point := by
  obtain ⟨ordered, within⟩ := damaged listed still
  simp only [Rect.Ordered, Rect.Within, Rect.Contains, Window.invalidRect, Window.rect, rectInitDim,
    Rect.width, Rect.height] at *
  constructor
  · omega
  · intro point
    omega

/-- Drawing a window keeps the invariant. -/
theorem Sized.drawWindow {state : State} (sized : Sized screen state) {id : Nat}
    (live : state.live id = true)
    (listed : (state.heap id).type = .window ∨ (state.heap id).type = .panel) :
    Sized screen (drawWindow screen state id) := by
  have skip (other : Nat) : other ≠ id → some id ≠ some other → (none : Option Nat) ≠ some other := by
    intro _ _ same
    cases same
  rw [Dwm.drawWindow]
  split
  · have exposed := sized.of_onlyDraws (expose_onlyDraws screen state id)
    apply SizedBut.drawRect _ ((state.heap id).rect_ordered.fit _)
    refine exposed.modify skip (fun framed => ⟨framed.stride, framed.capacity, ?_⟩) ?_
    · exact sized.fit_onScreen screen (state.heap id).rect_ordered id
    · intro _ different
      exact absurd rfl different
  · rename_i still
    split
    · have damaged := sized.damaged id live (Option.some_ne_none id).symm
      apply SizedBut.drawRect _ ((damaged.invalidRect listed (by simpa using still)).1.fit _)
      refine sized.modify skip (fun framed => ⟨framed.stride, framed.capacity, framed.previous⟩) ?_
      intro _ different
      exact absurd rfl different
    · exact sized

/-- The parts of windows that the invariant speaks about stay, or more windows are
going to be drawn as a whole. -/
structure Touched (before after : State) : Prop where
  live : after.live = before.live
  client : after.clientRect = before.clientRect
  gfx : ∀ id, (after.heap id).gfx = (before.heap id).gfx
  type : ∀ id, (after.heap id).type = (before.heap id).type
  previous : ∀ id, (after.heap id).prevRect = (before.heap id).prevRect
  moved : ∀ id, (after.heap id).moved = false → (before.heap id).moved = false

instance : IsPreorder State Touched where
  refl _ := ⟨rfl, rfl, fun _ => rfl, fun _ => rfl, fun _ => rfl, fun _ => id⟩
  trans _ _ _ first second :=
    ⟨second.live.trans first.live, second.client.trans first.client,
      fun id => (second.gfx id).trans (first.gfx id), fun id => (second.type id).trans (first.type id),
      fun id => (second.previous id).trans (first.previous id),
      fun id still => first.moved id (second.moved id still)⟩

/-- Touching windows keeps the invariant. -/
theorem Sized.of_touched {before after : State} (sized : Sized screen before) (touched : Touched before after) :
    Sized screen after := by
  constructor
  · intro id live
    rw [touched.live] at live
    have framed := sized.framed id live
    constructor
    · rw [touched.gfx]
      exact framed.stride
    · rw [touched.gfx]
      exact framed.capacity
    · rw [touched.previous]
      exact framed.previous
  · intro id live different listed still
    rw [touched.live] at live
    rw [touched.type] at listed
    rw [touched.gfx]
    exact sized.damaged id live different listed (touched.moved id still)
  · rw [touched.client]
    exact sized.client

/-- Changing other fields of a window. -/
theorem Touched.modify (state : State) (id : Nat) (change : Window → Window)
    (gfx : ∀ window, (change window).gfx = window.gfx)
    (type : ∀ window, (change window).type = window.type)
    (previous : ∀ window, (change window).prevRect = window.prevRect)
    (moved : ∀ window, (change window).moved = false → window.moved = false) :
    Touched state (state.modify id change) := by
  have at_ (other : Nat) : (state.modify id change).heap other = change (state.heap other) ∨
      (state.modify id change).heap other = state.heap other := by
    by_cases same : other = id
    · rw [same, State.modify_self]
      exact .inl rfl
    · rw [State.modify_of_ne _ _ same]
      exact .inr rfl
  constructor
  · rfl
  · rfl
  · intro other
    rcases at_ other with changed | kept
    · rw [changed, gfx]
    · rw [kept]
  · intro other
    rcases at_ other with changed | kept
    · rw [changed, type]
    · rw [kept]
  · intro other
    rcases at_ other with changed | kept
    · rw [changed, previous]
    · rw [kept]
  · intro other
    rcases at_ other with changed | kept
    · rw [changed]
      exact moved _
    · rw [kept]
      exact fun still => still

/-- Drawing touches no window. -/
theorem OnlyDraws.touched {before after : State} (drawn : OnlyDraws before after) : Touched before after := by
  rw [drawn]
  exact ⟨rfl, rfl, fun _ => rfl, fun _ => rfl, fun _ => rfl, fun _ => id⟩

/-- Marking windows as moved touches them. -/
theorem markAllMoved_touched (state : State) (ids : List Nat) : Touched state (markAllMoved state ids) := by
  apply foldl_related
  intro id _ before
  apply Touched.modify
  · intro _
    rfl
  · intro _
    rfl
  · intro _
    rfl
  · intro _ still
    cases still

/-- A message touches no window. -/
theorem tellSelected_touched (state : State) (message : Message) :
    Touched state (tellSelected state message) := by
  rw [tellSelected]
  split
  · exact refl_of Touched state
  · exact Touched.modify _ _ _ (fun _ => rfl) (fun _ => rfl) (fun _ => rfl) (fun _ still => still)

/-- Selecting touches windows. -/
theorem dwmSelect_touched (state : State) (target : Option Nat) : Touched state (dwmSelect state target) := by
  have deselected := tellSelected_touched state .deselect
  simp only [dwmSelect]
  split_ifs with same
  · exact refl_of Touched state
  · cases target with
    | none => exact ⟨deselected.live, deselected.client, deselected.gfx, deselected.type,
        deselected.previous, deselected.moved⟩
    | some id =>
      apply trans_of Touched deselected
      have chosen : Touched (tellSelected state .deselect) ((tellSelected state .deselect).modify id
          fun window => (window.push .select).markMoved) := by
        apply Touched.modify
        · intro _
          rfl
        · intro _
          rfl
        · intro _
          rfl
        · intro _ still
          cases still
      exact ⟨chosen.live, chosen.client, chosen.gfx, chosen.type, chosen.previous, chosen.moved⟩

/-- A panel does not move an edge out of the screen. -/
theorem panelRect_bounded (window : Window) {rect : Rect} (bounded : 0 ≤ rect.left ∧
    rect.right ≤ screen.width ∧ 0 ≤ rect.top ∧ rect.bottom ≤ screen.height) :
    0 ≤ (panelRect screen window rect).left ∧ (panelRect screen window rect).right ≤ screen.width ∧
      0 ≤ (panelRect screen window rect).top ∧ (panelRect screen window rect).bottom ≤ screen.height := by
  simp only [panelRect]
  split_ifs
  · exact bounded
  · dsimp only
    omega
  · dsimp only
    omega
  · dsimp only
    omega
  · dsimp only
    omega
  · exact bounded

/-- The client rectangle is always on the screen. -/
theorem newClientRect_onScreen (state : State) (point : Point)
    (inside : (newClientRect screen state).Contains point) : screen.rect.Contains point := by
  have bounded : 0 ≤ (newClientRect screen state).left ∧ (newClientRect screen state).right ≤ screen.width ∧
      0 ≤ (newClientRect screen state).top ∧ (newClientRect screen state).bottom ≤ screen.height := by
    rw [newClientRect]
    refine List.foldlRecOn (motive := fun rect : Rect => 0 ≤ rect.left ∧ rect.right ≤ screen.width ∧
      0 ≤ rect.top ∧ rect.bottom ≤ screen.height) state.windows _ ?_ ?_
    · simp only [Screen.rect]
      omega
    · intro rect within id _
      exact panelRect_bounded (state.heap id) within
  simp only [Rect.Contains, Screen.rect] at *
  omega

/-- Updating the client rectangle keeps the invariant. -/
theorem Sized.dwmUpdateClientRect {state : State} (sized : Sized screen state) :
    Sized screen (dwmUpdateClientRect screen state) := by
  have marked := sized.of_touched (markAllMoved_touched state state.windows)
  exact ⟨marked.framed, marked.damaged, newClientRect_onScreen state⟩

/-- Drawing the wall keeps the invariant. -/
theorem Sized.dwmDrawWall {state : State} (sized : Sized screen state) {wall : Nat}
    (type : (state.heap wall).type = .wall) : Sized screen (dwmDrawWall screen state wall) := by
  rw [Dwm.dwmDrawWall]
  split
  · exact sized
  · have cleared : Sized screen (state.modify wall Window.clean) := by
      refine sized.modify (fun _ _ => id) (fun framed => ⟨framed.stride, framed.capacity, framed.previous⟩) ?_
      intro _ _ listed
      simp only [Window.clean, type, reduceCtorEq, or_self] at listed
    have drawn (before : State) (rect : Rect) : OnlyDraws before (dwmTransfer screen before wall rect) := rfl
    exact Sized.of_touched (cleared.of_onlyDraws (drawn _ _)) (markAllMoved_touched _ _)

/-- A draw pass keeps the invariant. -/
theorem Sized.drawPass {state : State} (sized : Sized screen state) (consistent : Consistent state) :
    Sized screen (drawPass screen state) := by
  rw [Dwm.drawPass]
  split
  · exact sized
  · rename_i wall held
    have wallDrawn := sized.dwmDrawWall (consistent.wall wall held).2.1
    have same := dwmDrawWall_sameFocus screen state wall
    have started : Sized screen (Dwm.dwmDrawWall screen state wall) ∧
        SameFocus state (Dwm.dwmDrawWall screen state wall) := ⟨wallDrawn, same⟩
    refine (List.foldlRecOn (motive := fun drawn => Sized screen drawn ∧ SameFocus state drawn)
      (Dwm.dwmDrawWall screen state wall).windows _ started ?_).1
    intro before beforeFacts id member
    rw [same.windows] at member
    obtain ⟨live, listed⟩ := (consistent.listed id).mp member
    rw [← beforeFacts.2.live] at live
    rw [← beforeFacts.2.type id] at listed
    exact ⟨beforeFacts.1.drawWindow live listed,
      trans_of SameFocus beforeFacts.2 (drawWindow_sameFocus screen before id)⟩

/-- Moving the cursor touches no window. -/
theorem moveCursor_touched (state : State) (cursor : Nat) (delta : Point) :
    Touched state (moveCursor screen state cursor delta) := by
  simp only [moveCursor]
  split_ifs with motion
  · have drawn (before : State) : OnlyDraws before (dwmDrawCursor screen before cursor) := rfl
    apply trans_of Touched (dwmRedrawOthers_onlyDraws screen state cursor
      ((state.heap cursor).rect.fit screen.rect)).touched
    apply trans_of Touched _ (drawn _).touched
    exact Touched.modify _ _ _ (fun _ => rfl) (fun _ => rfl) (fun _ => rfl) (fun _ still => still)
  · exact refl_of Touched state

/-- A mouse event touches windows. -/
theorem dwmHandleMouseMessage_touched (state : State) (cursor : Nat) (buttons : BitVec 32)
    (delta : Point) : Touched state (dwmHandleMouseMessage screen state cursor buttons delta) := by
  have chosen (before : State) (pressed : BitVec 32) (pos : Point) :
      Touched before (pressAt before pressed pos) := by
    rw [pressAt]
    split_ifs with press
    · exact dwmSelect_touched before _
    · exact refl_of Touched before
  have kept (told : State) : Touched told { told with oldButtons := buttons } :=
    ⟨rfl, rfl, fun _ => rfl, fun _ => rfl, fun _ => rfl, fun _ still => still⟩
  apply trans_of Touched _ (kept _)
  apply trans_of Touched _ (tellSelected_touched _ _)
  exact trans_of Touched (moveCursor_touched state cursor delta) (chosen _ _ _)

/-- A new window of a size in range. -/
theorem windowNew_framed (pos : Point) {width height : Nat} (small : width * height < 2 ^ 31)
    (type : DwmType) : (windowNew pos width height type).Framed screen := by
  constructor
  · rfl
  · exact Nat.mod_eq_of_lt (by omega)
  · constructor
    · simp only [windowNew, rectInitDim, Rect.Ordered]
      omega
    · intro point inside
      simp only [windowNew, rectInitDim, Rect.Contains] at inside
      omega

/-- A new window keeps the invariant, wherever the pointers are. -/
theorem Sized.created {state : State} (sized : Sized screen state) (id : Nat) (pos : Point)
    {width height : Nat} (small : width * height < 2 ^ 31) (type : DwmType) :
    Sized screen { state with
      heap := Function.update state.heap id (windowNew pos width height type)
      live := Function.update state.live id true } := by
  constructor
  · intro other live
    by_cases same : other = id
    · simp only [same, Function.update_self]
      exact windowNew_framed pos small type
    · simp only [Function.update_of_ne same] at live ⊢
      exact sized.framed other live
  · intro other live different
    by_cases same : other = id
    · simp only [same, Function.update_self]
      intro _ still
      cases still
    · simp only [Function.update_of_ne same] at live ⊢
      exact sized.damaged other live different
  · exact sized.client

/-- The invariant does not depend on the pointers, and freeing keeps it. -/
theorem Sized.of_heap {before after : State} (sized : Sized screen before) (heap : after.heap = before.heap)
    (live : ∀ id, after.live id = true → before.live id = true)
    (client : after.clientRect = before.clientRect) : Sized screen after := by
  constructor
  · intro id used
    rw [heap]
    exact sized.framed id (live id used)
  · intro id used
    rw [heap]
    exact sized.damaged id (live id used)
  · rw [client]
    exact sized.client

/-- Freeing a window keeps the invariant. -/
theorem Sized.windowFree {state : State} (sized : Sized screen state) (id : Nat) :
    Sized screen (windowFree state id) := by
  refine @Sized.of_heap screen state (Dwm.windowFree state id) sized rfl ?_ rfl
  intro other used
  by_cases same : other = id
  · simp only [Dwm.windowFree, same, Function.update_self, Bool.false_eq_true] at used
  · simpa only [Dwm.windowFree, Function.update_of_ne same] using used

/-- A request for a window in range keeps the invariant. -/
theorem Sized.dwmCreate {state : State} (sized : Sized screen state) (id : Nat) (pos : Point)
    {width height : Nat} (small : width * height < 2 ^ 31) (type : DwmType) :
    Sized screen (dwmCreate screen state id pos width height type).1 := by
  have created := sized.created id pos small type
  cases type with
  | window =>
    have appended : Sized screen { state with
        heap := Function.update state.heap id (windowNew pos width height .window)
        live := Function.update state.live id true
        windows := state.windows ++ [id] } := created.of_heap rfl (fun _ used => used) rfl
    exact appended.of_touched (dwmSelect_touched _ _)
  | panel =>
    have appended : Sized screen { state with
        heap := Function.update state.heap id (windowNew pos width height .panel)
        live := Function.update state.live id true
        windows := state.windows ++ [id] } := created.of_heap rfl (fun _ used => used) rfl
    exact appended.dwmUpdateClientRect.of_touched (dwmSelect_touched _ _)
  | cursor =>
    simp only [Dwm.dwmCreate]
    split
    · exact created.windowFree id
    · exact created.of_heap rfl (fun _ used => used) rfl
  | wall =>
    simp only [Dwm.dwmCreate]
    split
    · exact created.windowFree id
    · exact created.of_heap rfl (fun _ used => used) rfl

/-- Closing a window keeps the invariant. -/
theorem Sized.windowCleanup {state : State} (sized : Sized screen state) (id : Nat) :
    Sized screen (windowCleanup screen state id) := by
  have unselected : Sized screen
      (if state.selected = some id then { state with selected := none } else state) := by
    split_ifs with was
    · exact sized.of_heap rfl (fun _ used => used) rfl
    · exact sized
  have wallMoved (before : State) : Touched before (markWall before) := by
    rw [markWall]
    split
    · exact refl_of Touched before
    · apply Touched.modify
      · intro _
        rfl
      · intro _
        rfl
      · intro _
        rfl
      · intro _ still
        cases still
  apply Sized.windowFree
  apply Sized.of_touched _ (wallMoved _)
  split
  · exact unselected.of_heap rfl (fun _ used => used) rfl
  · apply Sized.dwmUpdateClientRect
    exact unselected.of_heap rfl (fun _ used => used) rfl
  · exact unselected.of_heap rfl (fun _ used => used) rfl
  · exact unselected.of_heap rfl (fun _ used => used) rfl

/-- Moving a window in range keeps the invariant. -/
theorem Sized.windowMove {state : State} (sized : Sized screen state) (id : Nat) (pos : Point)
    {width height : Nat} (small : width * height < 2 ^ 31) (memory : Int → Pixel) :
    Sized screen (windowMove state id pos width height memory) := by
  refine sized.modify (fun _ _ same => same) ?_ ?_
  · intro framed
    constructor
    · dsimp only
      split_ifs with resized
      · rfl
      · exact framed.stride
    · dsimp only
      split_ifs with resized
      · exact Nat.mod_eq_of_lt (by omega)
      · exact framed.capacity
    · exact framed.previous
  · intro _ _ _ still
    cases still

/-- A flush inside of the window keeps the invariant. -/
theorem Sized.windowFlush {state : State} (sized : Sized screen state) (id : Nat) (buffer : Int → Pixel)
    (size : Nat) {rect : Rect} (begins : 0 ≤ rect.left ∧ 0 ≤ rect.top) :
    Sized screen (windowFlush state id buffer size rect).1 := by
  simp only [Dwm.windowFlush]
  split
  · exact sized
  · split
    · exact sized
    · rename_i valid
      dsimp only
      refine sized.modify (fun _ _ same => same)
        (fun framed => ⟨framed.stride, framed.capacity, framed.previous⟩) ?_
      intro live different listed still
      obtain ⟨ordered, within⟩ := sized.damaged id live different listed still
      apply And.symm
      apply gfxInvalidate_within within _ ordered
      · simp only [Rect.Ordered]
        omega
      · simp only [Rect.Within]
        omega

/-- Every step in range keeps the invariant. -/
theorem step_sound (state : State) (event : Event) (next : State)
    (sound : Sound screen state) (taken : stepInRange screen state event = some next) :
    Sound screen next := by
  rw [stepInRange, Option.ite_none_right_eq_some] at taken
  obtain ⟨ranged, taken⟩ := taken
  obtain ⟨consistent, sized⟩ := sound
  apply And.intro (step_consistent screen state event next consistent taken)
  cases event with
  | create id pos width height type =>
    simp only [step, Option.ite_none_left_eq_some, Option.some.injEq] at taken
    obtain ⟨_, rfl⟩ := taken
    simp only [Event.inRange, Bool.and_eq_true, decide_eq_true_eq] at ranged
    exact sized.dwmCreate id pos ranged.2 type
  | close id =>
    simp only [step, Option.ite_none_right_eq_some, Option.some.injEq] at taken
    obtain ⟨_, rfl⟩ := taken
    exact sized.windowCleanup id
  | move id pos width height memory =>
    simp only [step, Option.ite_none_right_eq_some, Option.some.injEq] at taken
    obtain ⟨_, rfl⟩ := taken
    simp only [Event.inRange, Bool.and_eq_true, decide_eq_true_eq] at ranged
    exact sized.windowMove id pos ranged.2 memory
  | updateClientRect =>
    obtain rfl := Option.some.inj taken
    exact sized.dwmUpdateClientRect
  | flush id buffer size rect =>
    simp only [step, Option.ite_none_right_eq_some, Option.some.injEq] at taken
    obtain ⟨_, rfl⟩ := taken
    simp only [Event.inRange, Bool.and_eq_true, decide_eq_true_eq] at ranged
    exact sized.windowFlush id buffer size ranged
  | mouse buttons delta =>
    obtain rfl := Option.some.inj taken
    split
    · exact sized
    · exact sized.of_touched (dwmHandleMouseMessage_touched state _ buttons delta)
  | keyboard type code mods =>
    obtain rfl := Option.some.inj taken
    exact sized.of_touched (tellSelected_touched state _)
  | select point =>
    obtain rfl := Option.some.inj taken
    exact sized.of_touched (dwmSelect_touched state _)
  | draw =>
    obtain rfl := Option.some.inj taken
    have drawn (before : State) (cursor : Nat) : OnlyDraws before (dwmDrawCursor screen before cursor) := rfl
    rw [dwmLoop]
    split
    · exact sized
    · exact sized.drawPass consistent
    · exact (sized.drawPass consistent).of_touched (drawn _ _).touched

/-- The manager starts with the invariant. -/
theorem initial_sound (memory : Nat → Window) (back : Int → Pixel) :
    Sound screen (initial screen memory back) := by
  apply And.intro (initial_consistent screen memory back)
  constructor
  · intro id live
    cases live
  · intro id live
    cases live
  · intro point inside
    exact inside

/-- Where a window is and what it shows. -/
structure SameShape (before after : Window) : Prop where
  pos : after.pos = before.pos
  type : after.type = before.type
  width : after.gfx.width = before.gfx.width
  height : after.gfx.height = before.gfx.height
  stride : after.gfx.stride = before.gfx.stride
  capacity : after.gfx.capacity = before.gfx.capacity
  buffer : after.gfx.buffer = before.gfx.buffer

/-- A window that is at most invalidated. -/
structure Kept (before after : Window) : Prop extends SameShape before after where
  moved : after.moved = before.moved
  previous : after.prevRect = before.prevRect
  invalid : before.invalid = true → after.invalid = true
  damage : ∀ point, before.gfx.invalidRect.Contains point → after.gfx.invalidRect.Contains point

instance : IsPreorder Window SameShape where
  refl _ := ⟨rfl, rfl, rfl, rfl, rfl, rfl, rfl⟩
  trans _ _ _ first second :=
    ⟨second.pos.trans first.pos, second.type.trans first.type, second.width.trans first.width,
      second.height.trans first.height, second.stride.trans first.stride,
      second.capacity.trans first.capacity, second.buffer.trans first.buffer⟩

instance : IsPreorder Window Kept where
  refl window := ⟨refl_of SameShape window, rfl, rfl, fun marked => marked, fun _ inside => inside⟩
  trans _ _ _ first second :=
    ⟨trans_of SameShape first.toSameShape second.toSameShape, second.moved.trans first.moved,
      second.previous.trans first.previous, fun marked => second.invalid (first.invalid marked),
      fun point inside => second.damage point (first.damage point inside)⟩

/-- Invalidating other windows draws nothing and keeps the client rectangle. -/
structure Invalidated (before after : State) : Prop where
  back : after.back = before.back
  copies : after.copies = before.copies
  client : after.clientRect = before.clientRect
  kept : ∀ id, Kept (before.heap id) (after.heap id)

instance : IsPreorder State Invalidated where
  refl state := ⟨rfl, rfl, rfl, fun id => refl_of Kept (state.heap id)⟩
  trans _ _ _ first second :=
    ⟨second.back.trans first.back, second.copies.trans first.copies, second.client.trans first.client,
      fun id => trans_of Kept (first.kept id) (second.kept id)⟩

/-- Another window in `dwm_invalidate_above` is at most invalidated. -/
theorem invalidateOther_invalidated (rect : Rect) (state : State) (other : Nat) :
    Invalidated state (invalidateOther rect state other) := by
  simp only [invalidateOther]
  split
  · refine ⟨rfl, rfl, rfl, ?_⟩
    intro id
    by_cases same : id = other
    · subst same
      rw [State.modify_self]
      refine ⟨⟨rfl, rfl, rfl, rfl, rfl, rfl, rfl⟩, rfl, rfl, fun _ => rfl, ?_⟩
      intro point inside
      exact gfxInvalidate_old _ inside
    · rw [State.modify_of_ne _ _ same]
      exact refl_of Kept (state.heap id)
  · exact refl_of Invalidated state

/-- The loop of `dwm_invalidate_above` at most invalidates windows. -/
theorem invalidateAll_invalidated (rect : Rect) (state : State) (ids : List Nat) :
    Invalidated state (ids.foldl (invalidateOther rect) state) := by
  apply foldl_related
  intro other _ before
  exact invalidateOther_invalidated rect before other

/-- The pointers, the client rectangle, and the places and pixels of all windows. -/
structure SameShapes (before after : State) : Prop extends SameFocus before after where
  client : after.clientRect = before.clientRect
  shape : ∀ id, SameShape (before.heap id) (after.heap id)

instance : IsPreorder State SameShapes where
  refl state := ⟨refl_of SameFocus state, rfl, fun id => refl_of SameShape (state.heap id)⟩
  trans _ _ _ first second :=
    ⟨trans_of SameFocus first.toSameFocus second.toSameFocus, second.client.trans first.client,
      fun id => trans_of SameShape (first.shape id) (second.shape id)⟩

/-- The rectangle of a window depends on its shape. -/
theorem SameShape.rect {before after : Window} (same : SameShape before after) : after.rect = before.rect := by
  rw [Window.rect, Window.rect, same.pos, same.width, same.height]

/-- What a window is clipped to depends on the shapes. -/
theorem SameShapes.fitRect {before after : State} (same : SameShapes before after) (id : Nat) :
    fitRect screen after id = fitRect screen before id := by
  rw [Dwm.fitRect, Dwm.fitRect, same.type, same.client]

/-- The part of a window that is drawn depends on the shapes. -/
theorem SameShapes.clip {before after : State} (same : SameShapes before after) (id : Nat) :
    clip screen after id = clip screen before id := by
  rw [Dwm.clip, Dwm.clip, same.fitRect, (same.shape id).rect]

/-- Drawing keeps the shapes. -/
theorem OnlyDraws.sameShapes {before after : State} (drawn : OnlyDraws before after) :
    SameShapes before after := by
  rw [drawn]
  exact ⟨⟨rfl, rfl, rfl, rfl, rfl, fun _ => rfl, fun _ => rfl⟩, rfl, fun id => refl_of SameShape (before.heap id)⟩

/-- A change of a window, but not of its place and pixels. -/
theorem SameShapes.modify (state : State) (id : Nat) (change : Window → Window)
    (shape : ∀ window, SameShape window (change window))
    (focus : ∀ window, (change window).focus = window.focus) :
    SameShapes state (state.modify id change) := by
  refine ⟨SameFocus.modify _ _ _ (fun window => (shape window).type) focus, rfl, ?_⟩
  intro other
  by_cases same : other = id
  · rw [same, State.modify_self]
    exact shape _
  · rw [State.modify_of_ne _ _ same]
    exact refl_of SameShape (state.heap other)

/-- Marking windows as moved, seen at one window. -/
theorem markAllMoved_heap (state : State) (ids : List Nat) (id : Nat) :
    (markAllMoved state ids).heap id =
      if id ∈ ids then (state.heap id).markMoved else state.heap id := by
  induction ids generalizing state with
  | nil => rfl
  | cons first rest ih =>
    rw [markAllMoved, List.foldl_cons]
    refine (ih (state.modify first Window.markMoved)).trans ?_
    by_cases same : id = first
    · subst same
      rw [State.modify_self, if_pos List.mem_cons_self]
      split_ifs <;> rfl
    · rw [State.modify_of_ne _ _ same]
      simp only [List.mem_cons, same, false_or]

/-- Marking windows as moved draws nothing. -/
theorem markAllMoved_draws (state : State) (ids : List Nat) :
    (markAllMoved state ids).back = state.back ∧ (markAllMoved state ids).copies = state.copies := by
  induction ids generalizing state with
  | nil => exact ⟨rfl, rfl⟩
  | cons first rest ih => exact ih (state.modify first Window.markMoved)

/-- Marking windows as moved keeps the shapes. -/
theorem markAllMoved_sameShapes (state : State) (ids : List Nat) :
    SameShapes state (markAllMoved state ids) := by
  apply foldl_related
  intro id _ before
  apply SameShapes.modify
  · intro _
    exact ⟨rfl, rfl, rfl, rfl, rfl, rfl, rfl⟩
  · intro _
    rfl

/-- Drawing the wall keeps the shapes. -/
theorem dwmDrawWall_sameShapes (state : State) (wall : Nat) :
    SameShapes state (dwmDrawWall screen state wall) := by
  rw [dwmDrawWall]
  split
  · exact refl_of SameShapes state
  · have drawn (before : State) (rect : Rect) : OnlyDraws before (dwmTransfer screen before wall rect) := rfl
    apply trans_of SameShapes _ (markAllMoved_sameShapes _ _)
    apply trans_of SameShapes _ (drawn _ _).sameShapes
    apply SameShapes.modify
    · intro _
      exact ⟨rfl, rfl, rfl, rfl, rfl, rfl, rfl⟩
    · intro _
      rfl

/-- Drawing the wall, seen at another window: if the wall was going to be drawn, all
windows of the list are now. -/
theorem dwmDrawWall_heap (state : State) {wall id : Nat} (different : id ≠ wall) (member : id ∈ state.windows) :
    (dwmDrawWall screen state wall).heap id =
      if (state.heap wall).invalid = true ∨ (state.heap wall).moved = true then (state.heap id).markMoved
      else state.heap id := by
  simp only [dwmDrawWall, Bool.and_eq_true, Bool.not_eq_true']
  by_cases clean : (state.heap wall).invalid = false ∧ (state.heap wall).moved = false
  · rw [if_pos clean, if_neg (by simp [clean.1, clean.2])]
  · have dirty : (state.heap wall).invalid = true ∨ (state.heap wall).moved = true := by
      simp only [← Bool.not_eq_true] at clean
      tauto
    have other : (state.modify wall Window.clean).heap id = state.heap id := State.modify_of_ne _ _ different
    rw [if_neg clean, if_pos dirty, markAllMoved_heap, if_pos member]
    exact congrArg Window.markMoved other

/-- Drawing the wall leaves the previous rectangles of the other windows. -/
theorem dwmDrawWall_prevRect (state : State) {wall id : Nat} (different : id ≠ wall) (member : id ∈ state.windows) :
    ((dwmDrawWall screen state wall).heap id).prevRect = (state.heap id).prevRect := by
  rw [dwmDrawWall_heap state different member]
  split_ifs
  · rfl
  · rfl

/-- Drawing a window keeps the shapes, and the other windows are at most invalidated. -/
structure DrawnBut (skipped : Nat) (before after : State) : Prop extends SameShapes before after where
  kept : ∀ id, id ≠ skipped → Kept (before.heap id) (after.heap id)

instance (skipped : Nat) : IsPreorder State (DrawnBut skipped) where
  refl state := ⟨refl_of SameShapes state, fun id _ => refl_of Kept (state.heap id)⟩
  trans _ _ _ first second :=
    ⟨trans_of SameShapes first.toSameShapes second.toSameShapes,
      fun id different => trans_of Kept (first.kept id different) (second.kept id different)⟩

/-- Drawing leaves the windows. -/
theorem OnlyDraws.drawnBut {before after : State} (drawn : OnlyDraws before after) (skipped : Nat) :
    DrawnBut skipped before after := by
  apply DrawnBut.mk drawn.sameShapes
  rw [drawn]
  intro id _
  exact refl_of Kept (before.heap id)

/-- A change of the window that is drawn, but not of its place and pixels. -/
theorem DrawnBut.modify (state : State) (id : Nat) (change : Window → Window)
    (shape : ∀ window, SameShape window (change window))
    (focus : ∀ window, (change window).focus = window.focus) :
    DrawnBut id state (state.modify id change) := by
  apply DrawnBut.mk (SameShapes.modify state id change shape focus)
  intro other different
  rw [State.modify_of_ne _ _ different]
  exact refl_of Kept (state.heap other)

/-- The end of an iteration leaves the other windows at most invalidated. -/
theorem drawRect_drawnBut (state : State) (id : Nat) (rect : Rect) :
    DrawnBut id state (drawRect screen state id rect) := by
  have drawn : OnlyDraws state (dwmTransfer screen state id rect) := rfl
  have invalidated := invalidateAll_invalidated rect (dwmTransfer screen state id rect)
    (above (dwmTransfer screen state id rect).windows id)
  have aboveDrawn : DrawnBut id (dwmTransfer screen state id rect)
      (dwmInvalidateAbove (dwmTransfer screen state id rect) id rect) :=
    ⟨⟨dwmInvalidateAbove_sameFocus _ id rect, invalidated.client,
      fun other => (invalidated.kept other).toSameShape⟩, fun other _ => invalidated.kept other⟩
  apply trans_of (DrawnBut id) (drawn.drawnBut id)
  apply trans_of (DrawnBut id) aboveDrawn
  apply DrawnBut.modify
  · intro _
    exact ⟨rfl, rfl, rfl, rfl, rfl, rfl, rfl⟩
  · intro _
    rfl

/-- Drawing a window leaves the other windows at most invalidated. -/
theorem drawWindow_drawnBut (state : State) (id : Nat) : DrawnBut id state (drawWindow screen state id) := by
  rw [drawWindow]
  split
  · apply trans_of (DrawnBut id) ((expose_onlyDraws screen state id).drawnBut id)
    apply trans_of (DrawnBut id) _ (drawRect_drawnBut _ id _)
    apply DrawnBut.modify
    · intro _
      exact ⟨rfl, rfl, rfl, rfl, rfl, rfl, rfl⟩
    · intro _
      rfl
  · split
    · apply trans_of (DrawnBut id) _ (drawRect_drawnBut _ id _)
      apply DrawnBut.modify
      · intro _
        exact ⟨rfl, rfl, rfl, rfl, rfl, rfl, rfl⟩
      · intro _
        rfl
    · exact refl_of (DrawnBut id) state

end Asym.Dwm
