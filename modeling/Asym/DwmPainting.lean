import Asym.DwmSizes

/-!
# What the window manager paints

After a draw pass the client rectangle should show the topmost window at each pixel,
and the wall where there is no window. A draw pass does not paint all of it. It paints
windows that have moved or that are invalid, it fills what they have left, and it
invalidates the windows above what it has painted.

During a pass, each pixel shows what it should, or a window that is still to be drawn is
going to paint it. Between passes the same holds with respect to the windows that have
not moved: a window that has moved is going to paint its previous rectangle.

Two things break this. What a window has left is filled from the first pixel of the
wall on, and not from the pixels of the wall at this place. And when the client
rectangle becomes larger, nothing paints the wall where it was not visible before.
-/

namespace Asym.Dwm

open Graphics EventRuns Folds Grids

variable (screen : Screen)

/-- A pixel of the back buffer. -/
def State.pixel (state : State) (point : Point) : Pixel :=
  state.back (cell screen.stride point.x point.y)

/-- What a window shows at a point of the screen. -/
def Window.shows (window : Window) (point : Point) : Pixel :=
  window.gfx.buffer (cell window.gfx.stride (point.x - window.pos.x) (point.y - window.pos.y))

/-- A window covers a point, clipped to the client rectangle or to the screen. -/
def covers (state : State) (point : Point) (id : Nat) : Bool :=
  (clip screen state id).Contains point

/-- The topmost of some windows at a point. -/
def topmost (state : State) (ids : List Nat) (point : Point) : Option Nat :=
  (ids.filter (covers screen state point)).getLast?

/-- The painter's algorithm: the topmost window at a point, or the wall. -/
def painter (state : State) (wall : Nat) (point : Point) : Pixel :=
  match topmost screen state state.windows point with
  | some id => (state.heap id).shows point
  | none => (state.heap wall).shows point

/-- The client rectangle shows what the painter's algorithm paints. -/
def Painted (state : State) : Prop :=
  ∀ wall, state.wall = some wall → ∀ point, state.clientRect.Contains point →
    state.pixel screen point = painter screen state wall point

/-- What `dwm_redraw_others` fills a rectangle with: the wall from its first pixel on. -/
def filling (state : State) (wall : Nat) (rect : Rect) (point : Point) : Pixel :=
  (state.heap wall).gfx.buffer
    (cell (state.heap wall).gfx.stride (point.x - rect.left) (point.y - rect.top))

variable {screen}

/-- A copy into a rectangle on the screen, pixel by pixel. -/
theorem OnScreen.transfer_pixel {rect : Rect} (shown : OnScreen screen rect) (state : State) (source : Gfx)
    (start : Point) {point : Point} (visible : screen.rect.Contains point) :
    (transfer screen state source rect start).pixel screen point =
      if rect.Contains point then
        source.buffer (cell source.stride (start.x + (point.x - rect.left)) (start.y + (point.y - rect.top)))
      else state.pixel screen point := by
  have rows : (screen.width : Int) ≤ screen.stride := by exact_mod_cast screen.rows
  have inScreen := visible
  simp only [Rect.Contains, Screen.rect] at inScreen
  by_cases empty : rect.width ≤ 0 ∨ rect.height ≤ 0
  · -- Nothing is copied, wherever the edges are.
    have outside : ¬ rect.Contains point := by
      simp only [Rect.Contains, Rect.width, Rect.height] at *
      omega
    rw [if_neg outside, State.pixel, State.pixel, transfer, gfxTransfer]
    rcases empty with narrow | low
    · rw [copyRows_of_narrow _ _ _ _ narrow]
    · have none : rect.height.toNat = 0 := by omega
      rw [none, copyRows]
  · have first : rect.Contains ⟨rect.left, rect.top⟩ := by
      simp only [Rect.Contains, Rect.width, Rect.height] at *
      omega
    have last : rect.Contains ⟨rect.right - 1, rect.top⟩ := by
      simp only [Rect.Contains, Rect.width, Rect.height] at *
      omega
    have firstVisible := shown.2 _ first
    have lastVisible := shown.2 _ last
    simp only [Rect.Contains, Screen.rect] at firstVisible lastVisible
    exact gfxTransfer_cell state.back screen.stride source.buffer source.stride rect start point
      firstVisible.1 (by omega) inScreen.1 (by omega)

/-- A part of a window, copied from where it is, shows the window. -/
theorem OnScreen.dwmTransfer_pixel {rect : Rect} (shown : OnScreen screen rect) (state : State) (id : Nat)
    {point : Point} (visible : screen.rect.Contains point) :
    (dwmTransfer screen state id rect).pixel screen point =
      if rect.Contains point then (state.heap id).shows point else state.pixel screen point := by
  rw [dwmTransfer, shown.transfer_pixel state _ _ visible]
  have xPart : rect.left - (state.heap id).pos.x + (point.x - rect.left) = point.x - (state.heap id).pos.x := by
    omega
  have yPart : rect.top - (state.heap id).pos.y + (point.y - rect.top) = point.y - (state.heap id).pos.y := by
    omega
  rw [xPart, yPart]
  rfl

/-- Another window in `dwm_redraw_others`, seen in the rectangle that is redrawn. -/
theorem SizedBut.redrawOther_pixel {skipped : Option Nat} {state : State}
    (sized : SizedBut screen skipped state) {window other : Nat} (different : other ≠ window) {rect : Rect}
    (ordered : rect.Ordered) {point : Point} (visible : screen.rect.Contains point) :
    (redrawOther screen window rect state other).pixel screen point =
      if rect.Contains point ∧ covers screen state point other = true then (state.heap other).shows point
      else state.pixel screen point := by
  have fitted := sized.fit_onScreen screen (ordered.fit (state.heap other).rect) other
  have inside : ((rect.fit (state.heap other).rect).fit (fitRect screen state other)).Contains point ↔
      rect.Contains point ∧ covers screen state point other = true := by
    rw [covers, decide_eq_true_eq, clip, Rect.contains_fit, Rect.contains_fit, Rect.contains_fit, and_assoc]
  rw [redrawOther, if_neg different]
  split_ifs with overlaps shown shown
  · rw [fitted.dwmTransfer_pixel state other visible, if_pos (inside.mpr shown)]
  · rw [fitted.dwmTransfer_pixel state other visible, if_neg (mt inside.mp shown)]
  · have common := (inside.mpr shown)
    rw [Rect.contains_fit, Rect.contains_fit] at common
    exact absurd (Rect.overlaps_of_contains common.1.1 common.1.2) overlaps
  · rfl

/-- What a window covers does not depend on what is drawn. -/
theorem SameShapes.covers {before after : State} (same : SameShapes before after) (point : Point) (id : Nat) :
    covers screen after point id = covers screen before point id := by
  rw [Dwm.covers, Dwm.covers]
  simp only [same.clip]

/-- What a window shows depends on its shape. -/
theorem SameShape.shows {before after : Window} (same : SameShape before after) (point : Point) :
    after.shows point = before.shows point := by
  rw [Window.shows, Window.shows, same.buffer, same.stride, same.pos]

/-- The topmost window does not depend on what is drawn. -/
theorem SameShapes.topmost {before after : State} (same : SameShapes before after) (ids : List Nat)
    (point : Point) : topmost screen after ids point = topmost screen before ids point := by
  have covered : Dwm.covers screen after point = Dwm.covers screen before point := by
    funext id
    exact same.covers point id
  rw [Dwm.topmost, Dwm.topmost, covered]

/-- What the painter's algorithm paints does not depend on what is drawn. -/
theorem SameShapes.painter {before after : State} (same : SameShapes before after) (wall : Nat)
    (point : Point) : painter screen after wall point = painter screen before wall point := by
  rw [Dwm.painter, Dwm.painter, same.windows, same.topmost]
  split
  · exact (same.shape _).shows point
  · exact (same.shape wall).shows point

/-- `dwm_redraw_others` at a point that its own window does not cover: inside of the
rectangle the topmost window is drawn, or the filling. -/
theorem SizedBut.dwmRedrawOthers_pixel {skipped : Option Nat} {state : State}
    (sized : SizedBut screen skipped state) {wall : Nat} (held : state.wall = some wall) {window : Nat}
    {rect : Rect} (shown : OnScreen screen rect) {point : Point} (visible : screen.rect.Contains point)
    (uncovered : covers screen state point window = false) :
    (dwmRedrawOthers screen state window rect).pixel screen point =
      if rect.Contains point then
        ((topmost screen state state.windows point).map fun id => (state.heap id).shows point).getD
          (filling state wall rect point)
      else state.pixel screen point := by
  have wallDrawn : (redrawWall screen state rect).pixel screen point =
      if rect.Contains point then filling state wall rect point else state.pixel screen point := by
    rw [redrawWall, held]
    refine (shown.transfer_pixel state _ _ visible).trans ?_
    simp only [Int.zero_add, filling]
  have started : OnlyDraws state (redrawWall screen state rect) := by
    rw [redrawWall, held]
    rfl
  have each (other : Nat) (before : State) (drawn : OnlyDraws state before) :
      (redrawOther screen window rect before other).pixel screen point =
        if (decide (rect.Contains point) && covers screen state point other) = true then
          (state.heap other).shows point
        else before.pixel screen point := by
    have same := drawn.sameShapes
    by_cases own : other = window
    · rw [own, uncovered, Bool.and_false, if_neg Bool.false_ne_true, redrawOther, if_pos rfl]
    · rw [(sized.of_onlyDraws drawn).redrawOther_pixel own shown.1 visible, same.covers,
        (same.shape other).shows]
      simp only [Bool.and_eq_true, decide_eq_true_eq]
  refine (foldl_shows (State.pixel screen · point) state.windows _ (OnlyDraws state) started
    (fun other _ before drawn => trans_of OnlyDraws drawn (redrawOther_onlyDraws screen window rect before other))
    (fun other _ => each other)).trans ?_
  rw [wallDrawn]
  split_ifs with inside
  · simp only [inside, decide_true, Bool.true_and, topmost]
  · simp only [inside, decide_false, Bool.false_and, List.filter_false, List.getLast?_nil, Option.map_none,
      Option.getD_none]

/-- Exposing a rectangle at least once, at a point that its window does not cover. -/
theorem SizedBut.pieces_pixel {skipped : Option Nat} {state : State} (sized : SizedBut screen skipped state)
    {wall : Nat} (held : state.wall = some wall) {id : Nat} {rect : Rect} (shown : OnScreen screen rect)
    {point : Point} (visible : screen.rect.Contains point) (uncovered : covers screen state point id = false)
    (piece : Rect) (pieces : List Rect) :
    ((piece :: pieces).foldl (fun drawn _ => dwmRedrawOthers screen drawn id rect) state).pixel screen point =
      if rect.Contains point then
        ((topmost screen state state.windows point).map fun id => (state.heap id).shows point).getD
          (filling state wall rect point)
      else state.pixel screen point := by
  have once := sized.dwmRedrawOthers_pixel held shown visible uncovered
  induction pieces generalizing state piece with
  | nil => exact once
  | cons next rest ih =>
    have drawn := dwmRedrawOthers_onlyDraws screen state id rect
    have same := drawn.sameShapes
    have heldNext : (dwmRedrawOthers screen state id rect).wall = some wall := by rw [same.wall, held]
    have uncoveredNext : covers screen (dwmRedrawOthers screen state id rect) point id = false := by
      rw [same.covers, uncovered]
    have sizedNext := sized.of_onlyDraws drawn
    rw [List.foldl_cons, ih sizedNext heldNext uncoveredNext next
      (sizedNext.dwmRedrawOthers_pixel heldNext shown visible uncoveredNext), once]
    have heap : (dwmRedrawOthers screen state id rect).heap = state.heap := by rw [drawn]
    rw [same.windows, same.topmost, filling, heap]
    split_ifs <;> rfl

/-- Exposing a previous rectangle, at a point that its window does not cover. If nothing
is exposed, the point is outside of it. -/
theorem SizedBut.expose_pixel {skipped : Option Nat} {state : State} (sized : SizedBut screen skipped state)
    {wall : Nat} (held : state.wall = some wall) {id : Nat} (shown : OnScreen screen (state.heap id).prevRect)
    {point : Point} (visible : screen.rect.Contains point) (uncovered : covers screen state point id = false) :
    (expose screen state id).pixel screen point =
      if (state.heap id).prevRect.Contains point then
        ((topmost screen state state.windows point).map fun id => (state.heap id).shows point).getD
          (filling state wall (state.heap id).prevRect point)
      else state.pixel screen point := by
  rw [expose]
  cases exposed : (state.heap id).prevRect.subtract (clip screen state id) with
  | nil =>
    have outside : ¬ (state.heap id).prevRect.Contains point := by
      intro inside
      have covered := Rect.contains_of_subtract_nil exposed inside
      rw [covers, decide_eq_false_iff_not] at uncovered
      exact uncovered covered
    rw [if_neg outside, List.foldl_nil]
  | cons piece pieces => exact sized.pieces_pixel held shown visible uncovered piece pieces

/-- The invalid rectangle of a window on the screen. -/
theorem Window.invalidRect_contains (window : Window) (point : Point) : window.invalidRect.Contains point ↔
    window.gfx.invalidRect.Contains ⟨point.x - window.pos.x, point.y - window.pos.y⟩ := by
  simp only [Rect.Contains, Window.invalidRect, rectInitDim, Rect.width, Rect.height]
  omega

/-- What is invalid of a window stays invalid. -/
theorem Kept.invalidRect {before after : Window} (kept : Kept before after) {point : Point}
    (inside : before.invalidRect.Contains point) : after.invalidRect.Contains point := by
  rw [Window.invalidRect_contains] at *
  rw [kept.pos]
  exact kept.damage _ inside

/-- A window is invalidated where it overlaps with what is drawn. -/
theorem invalidateOther_marks (state : State) {rect : Rect} {other : Nat} {point : Point}
    (drawn : rect.Contains point) (inOther : (state.heap other).rect.Contains point) :
    ((invalidateOther rect state other).heap other).invalid = true ∧
      ((invalidateOther rect state other).heap other).invalidRect.Contains point := by
  have fitted := (rect.contains_fit (state.heap other).rect point).mpr ⟨drawn, inOther⟩
  simp only [invalidateOther]
  rw [if_pos (Rect.overlaps_of_contains drawn inOther), State.modify_self]
  apply And.intro rfl
  rw [Window.invalidRect_contains]
  apply gfxInvalidate_new
  generalize rect.fit (state.heap other).rect = part at fitted
  simp only [Rect.Contains, Window.rect, rectInitDim] at *
  omega

/-- The loop of `dwm_invalidate_above` invalidates each window where it overlaps. -/
theorem invalidateAll_marks (state : State) {rect : Rect} (ids : List Nat) {other : Nat} (member : other ∈ ids)
    {point : Point} (drawn : rect.Contains point) (inOther : (state.heap other).rect.Contains point) :
    ((ids.foldl (invalidateOther rect) state).heap other).invalid = true ∧
      ((ids.foldl (invalidateOther rect) state).heap other).invalidRect.Contains point := by
  induction ids generalizing state with
  | nil => cases member
  | cons first rest ih =>
    rw [List.foldl_cons]
    by_cases same : other = first
    · subst same
      have marked := invalidateOther_marks state drawn inOther
      have later := (invalidateAll_invalidated rect (invalidateOther rect state other) rest).kept other
      exact ⟨later.invalid marked.1, later.invalidRect marked.2⟩
    · apply ih _ (List.mem_of_ne_of_mem same member)
      rw [((invalidateOther_invalidated rect state first).kept other).rect]
      exact inOther

/-- The windows above one, in a list that is split at it. -/
theorem above_split {earlier later : List Nat} {id : Nat} (once : (earlier ++ id :: later).Nodup) :
    above (earlier ++ id :: later) id = later := by
  have different : ∀ other ∈ earlier, other ≠ id := by
    intro other member same
    subst same
    exact (List.nodup_append.mp once).2.2 other member other List.mem_cons_self rfl
  have skipped : (earlier ++ id :: later).dropWhile (· ≠ id) = id :: later := by
    rw [List.dropWhile_append_of_pos]
    · simp
    · intro other member
      simpa using different other member
  rw [above, skipped, List.tail_cons]

/-- The end of an iteration, pixel by pixel. -/
theorem OnScreen.drawRect_pixel {rect : Rect} (shown : OnScreen screen rect) (state : State) (id : Nat)
    {point : Point} (visible : screen.rect.Contains point) :
    (drawRect screen state id rect).pixel screen point =
      if rect.Contains point then (state.heap id).shows point else state.pixel screen point := by
  rw [← shown.dwmTransfer_pixel state id visible]
  have invalidated := invalidateAll_invalidated rect (dwmTransfer screen state id rect)
    (above (dwmTransfer screen state id rect).windows id)
  exact congrFun invalidated.back _

/-- The end of an iteration invalidates the windows above where they overlap with what
is drawn. -/
theorem drawRect_marks (state : State) {rect : Rect} {earlier later : List Nat} {id other : Nat}
    (split : state.windows = earlier ++ id :: later) (once : state.windows.Nodup) (member : other ∈ later)
    {point : Point} (drawn : rect.Contains point) (inOther : (state.heap other).rect.Contains point) :
    ((drawRect screen state id rect).heap other).invalid = true ∧
      ((drawRect screen state id rect).heap other).invalidRect.Contains point := by
  have laterDifferent : other ≠ id := by
    rintro rfl
    rw [split] at once
    exact (List.nodup_cons.mp (List.nodup_append.mp once).2.1).1 member
  have listed : above (dwmTransfer screen state id rect).windows id = later := by
    have windows : (dwmTransfer screen state id rect).windows = state.windows := rfl
    rw [windows, split, above_split (split ▸ once)]
  have marked := invalidateAll_marks (dwmTransfer screen state id rect) later member drawn inOther
  rw [drawRect, State.modify_of_ne _ _ laterDifferent, dwmInvalidateAbove, listed]
  exact marked

/-- The topmost window at a point that a window covers is this window or one above. -/
theorem topmost_split (state : State) (earlier later : List Nat) {id : Nat} {point : Point}
    (covered : covers screen state point id = true) :
    topmost screen state (earlier ++ id :: later) point = some id ∨
      ∃ other ∈ later, topmost screen state (earlier ++ id :: later) point = some other ∧
        covers screen state point other = true := by
  rw [topmost, List.filter_append, List.filter_cons, if_pos covered, List.getLast?_append, List.getLast?_cons]
  cases found : (later.filter (covers screen state point)).getLast? with
  | none => exact .inl rfl
  | some other =>
    have member := List.mem_filter.mp (List.mem_of_getLast? found)
    exact .inr ⟨other, member.1, rfl, member.2⟩

variable (screen)

/-- A window that is going to paint a point: one that is drawn as a whole, at the point
or with a previous rectangle there, or the topmost one if it is invalid there. -/
def Paints (state : State) (point : Point) (id : Nat) : Prop :=
  ((state.heap id).moved = true ∧
      ((state.heap id).prevRect.Contains point ∨ covers screen state point id = true)) ∨
    ((state.heap id).invalid = true ∧ (state.heap id).invalidRect.Contains point ∧
      topmost screen state state.windows point = some id)

/-- During a draw pass, with windows still to be drawn: one of them paints the point, or
the point shows what it should. -/
def PassAt (state : State) (wall : Nat) (ids : List Nat) (point : Point) : Prop :=
  (∃ id ∈ ids, Paints screen state point id) ∨
    state.pixel screen point = painter screen state wall point

/-- What a window exposes at a point is filled with what the wall shows there, unless a
window covers the point. -/
def Aligned (state : State) (wall : Nat) (point : Point) (id : Nat) : Prop :=
  (state.heap id).prevRect.Contains point → topmost screen state state.windows point = none →
    filling state wall (state.heap id).prevRect point = (state.heap wall).shows point

variable {screen}

/-- A window that is at most invalidated paints what it was going to paint. -/
theorem Paints.of_kept {before after : State} (same : SameShapes before after) {point : Point} {id : Nat}
    (kept : Kept (before.heap id) (after.heap id)) (paints : Paints screen before point id) :
    Paints screen after point id := by
  rw [Paints, kept.moved, kept.previous, same.covers, same.windows, same.topmost]
  rcases paints with whole | ⟨invalid, inside, top⟩
  · exact .inl whole
  · exact .inr ⟨kept.invalid invalid, kept.invalidRect inside, top⟩

/-- What is left of an iteration at a point that it painted with its own window: the
window is the topmost one, or the topmost one was invalidated. -/
theorem passAt_of_drawn {before after : State} (same : SameShapes before after) {wall id : Nat}
    {earlier later : List Nat} (split : before.windows = earlier ++ id :: later) {point : Point}
    (covered : covers screen before point id = true)
    (drawn : after.pixel screen point = (before.heap id).shows point)
    (marks : ∀ other ∈ later, (before.heap other).rect.Contains point →
      (after.heap other).invalid = true ∧ (after.heap other).invalidRect.Contains point) :
    PassAt screen after wall later point := by
  rcases topmost_split before earlier later covered with own | ⟨other, member, top, covering⟩
  · right
    rw [drawn, same.painter, painter, split, own]
  · left
    rw [covers, decide_eq_true_eq, clip, Rect.contains_fit] at covering
    have marked := marks other member covering.1
    refine ⟨other, member, .inr ⟨marked.1, marked.2, ?_⟩⟩
    rw [same.windows, same.topmost, split, top]

/-- The windows after one in the list are other ones. -/
theorem Consistent.later_ne {state : State} (consistent : Consistent state) {id other : Nat}
    {earlier later : List Nat} (split : state.windows = earlier ++ id :: later) (member : other ∈ later) :
    other ≠ id := by
  rintro rfl
  have once := consistent.once
  rw [split] at once
  exact (List.nodup_cons.mp (List.nodup_append.mp once).2.1).1 member

/-- A point of the client rectangle is in the rectangle that a window is fitted to. -/
theorem Sized.contains_fitRect {state : State} (sized : Sized screen state) {point : Point}
    (client : state.clientRect.Contains point) (id : Nat) : (fitRect screen state id).Contains point := by
  rw [fitRect]
  split_ifs
  · exact client
  · exact sized.client point client

/-- The topmost window at a point covers it. -/
theorem covers_of_topmost {state : State} {point : Point} {id : Nat}
    (top : topmost screen state state.windows point = some id) : covers screen state point id = true :=
  (List.mem_filter.mp (List.mem_of_getLast? top)).2

/-- What a window was not going to paint is painted by a later one, or it is shown already. -/
theorem Consistent.passAt_others {state : State} (consistent : Consistent state) {wall id : Nat}
    {earlier later : List Nat} (split : state.windows = earlier ++ id :: later) {point : Point}
    (before : PassAt screen state wall (id :: later) point) (unpainted : ¬ Paints screen state point id)
    (unchanged : (Dwm.drawWindow screen state id).pixel screen point = state.pixel screen point) :
    PassAt screen (Dwm.drawWindow screen state id) wall later point := by
  have drawnBut := @drawWindow_drawnBut screen state id
  rcases before with ⟨other, member, paints⟩ | right
  · rcases List.mem_cons.mp member with rfl | inLater
    · exact absurd paints unpainted
    · exact .inl ⟨other, inLater,
        paints.of_kept drawnBut.toSameShapes (drawnBut.kept other (consistent.later_ne split inLater))⟩
  · right
    rw [unchanged, right, drawnBut.painter]

/-- A window that is drawn as a whole, before its own pixels are: what it exposes is drawn,
and it is settled. -/
theorem settle_sameShapes (state : State) (id : Nat) :
    SameShapes state ((expose screen state id).modify id (Window.settle (clip screen state id))) := by
  apply trans_of SameShapes (expose_onlyDraws screen state id).sameShapes
  apply SameShapes.modify
  · intro _
    exact ⟨rfl, rfl, rfl, rfl, rfl, rfl, rfl⟩
  · intro _
    rfl

/-- An iteration of `dwm_draw_windows` with a window that has moved, at a point of the
client rectangle. -/
theorem Sized.drawWindow_moved_passAt {state : State} (sized : Sized screen state)
    (consistent : Consistent state) {wall id : Nat} (held : state.wall = some wall) {earlier later : List Nat}
    (split : state.windows = earlier ++ id :: later) {point : Point} (client : state.clientRect.Contains point)
    (used : state.live id = true) (isMoved : (state.heap id).moved = true)
    (aligned : (state.heap id).prevRect.subtract (clip screen state id) ≠ [] → Aligned screen state wall point id)
    (before : PassAt screen state wall (id :: later) point) :
    PassAt screen (Dwm.drawWindow screen state id) wall later point := by
  have visible := sized.client point client
  have drawnBut := @drawWindow_drawnBut screen state id
  have settled := @settle_sameShapes screen state id
  have shown := sized.fit_onScreen screen (state.heap id).rect_ordered id
  have body : Dwm.drawWindow screen state id = Dwm.drawRect screen
      ((expose screen state id).modify id (Window.settle (clip screen state id))) id (clip screen state id) := by
    rw [Dwm.drawWindow, if_pos isMoved]
  have pixel : (Dwm.drawWindow screen state id).pixel screen point =
      if (clip screen state id).Contains point then (state.heap id).shows point
      else (expose screen state id).pixel screen point := by
    rw [body, ← (settled.shape id).shows point]
    exact shown.drawRect_pixel _ id visible
  by_cases covered : covers screen state point id = true
  · have inClip : (clip screen state id).Contains point := by simpa [covers] using covered
    apply passAt_of_drawn drawnBut.toSameShapes split covered
    · rw [pixel, if_pos inClip]
    · intro other member inOther
      rw [body]
      apply drawRect_marks _ (settled.windows.trans split) _ member inClip
      · rw [(settled.shape other).rect]
        exact inOther
      · rw [settled.windows]
        exact consistent.once
  · have uncovered : covers screen state point id = false := by simpa using covered
    have outside : ¬ (clip screen state id).Contains point := by simpa [covers] using uncovered
    rw [if_neg outside, sized.expose_pixel held (sized.framed id used).previous visible uncovered] at pixel
    by_cases inPrevious : (state.heap id).prevRect.Contains point
    · right
      have exposing : (state.heap id).prevRect.subtract (clip screen state id) ≠ [] := fun nothing =>
        outside (Rect.contains_of_subtract_nil nothing inPrevious)
      rw [pixel, if_pos inPrevious, drawnBut.painter, painter]
      cases top : topmost screen state state.windows point with
      | none => exact aligned exposing inPrevious top
      | some other => rfl
    · apply consistent.passAt_others split before
      · rintro (⟨_, inside | covering⟩ | ⟨_, _, top⟩)
        · exact inPrevious inside
        · exact covered covering
        · exact covered (covers_of_topmost top)
      · rw [pixel, if_neg inPrevious]

/-- An iteration of `dwm_draw_windows` with a window that is invalid and has not moved, at
a point of the client rectangle. -/
theorem Sized.drawWindow_invalid_passAt {state : State} (sized : Sized screen state)
    (consistent : Consistent state) {wall id : Nat} {earlier later : List Nat}
    (split : state.windows = earlier ++ id :: later) {point : Point} (client : state.clientRect.Contains point)
    (damaged : (state.heap id).invalidRect.Ordered ∧
      ∀ point, (state.heap id).invalidRect.Contains point → (state.heap id).rect.Contains point)
    (isMoved : ¬ (state.heap id).moved = true) (isInvalid : (state.heap id).invalid = true)
    (before : PassAt screen state wall (id :: later) point) :
    PassAt screen (Dwm.drawWindow screen state id) wall later point := by
  have visible := sized.client point client
  have fits := sized.contains_fitRect client id
  have shown := sized.fit_onScreen screen damaged.1 id
  have cleared : SameShapes state (state.modify id fun window => { window with invalid := false }) := by
    apply SameShapes.modify
    · intro _
      exact ⟨rfl, rfl, rfl, rfl, rfl, rfl, rfl⟩
    · intro _
      rfl
  have body : Dwm.drawWindow screen state id = Dwm.drawRect screen
      (state.modify id fun window => { window with invalid := false }) id
      ((state.heap id).invalidRect.fit (fitRect screen state id)) := by
    rw [Dwm.drawWindow, if_neg isMoved, if_pos isInvalid]
  have pixel : (Dwm.drawWindow screen state id).pixel screen point =
      if ((state.heap id).invalidRect.fit (fitRect screen state id)).Contains point then
        (state.heap id).shows point
      else state.pixel screen point := by
    rw [body, ← (cleared.shape id).shows point]
    exact shown.drawRect_pixel _ id visible
  by_cases inDamage : (state.heap id).invalidRect.Contains point
  · have drawn := ((state.heap id).invalidRect.contains_fit (fitRect screen state id) point).mpr
      ⟨inDamage, fits⟩
    have covered : covers screen state point id = true := by
      rw [covers, decide_eq_true_eq, clip, Rect.contains_fit]
      exact ⟨damaged.2 point inDamage, fits⟩
    apply passAt_of_drawn (@drawWindow_drawnBut screen state id).toSameShapes split covered
    · rw [pixel, if_pos drawn]
    · intro other member inOther
      rw [body]
      apply drawRect_marks _ (cleared.windows.trans split) _ member drawn
      · rw [(cleared.shape other).rect]
        exact inOther
      · rw [cleared.windows]
        exact consistent.once
  · apply consistent.passAt_others split before
    · rintro (⟨moving, _⟩ | ⟨_, inside, _⟩)
      · exact isMoved moving
      · exact inDamage inside
    · rw [pixel, if_neg]
      intro inside
      exact inDamage ((Rect.contains_fit _ _ point).mp inside).1

/-- An iteration of `dwm_draw_windows` at a point of the client rectangle. The other
windows that are still to be drawn paint what they were going to paint. What this window
was going to paint is painted. -/
theorem Sized.drawWindow_passAt {state : State} (sized : Sized screen state) (consistent : Consistent state)
    {wall id : Nat} (held : state.wall = some wall) {earlier later : List Nat}
    (split : state.windows = earlier ++ id :: later) {point : Point}
    (client : state.clientRect.Contains point)
    (aligned : (state.heap id).moved = true →
      (state.heap id).prevRect.subtract (clip screen state id) ≠ [] → Aligned screen state wall point id)
    (before : PassAt screen state wall (id :: later) point) :
    PassAt screen (Dwm.drawWindow screen state id) wall later point := by
  have listed : id ∈ state.windows := by
    rw [split]
    exact List.mem_append_right _ List.mem_cons_self
  obtain ⟨used, kind⟩ := (consistent.listed id).mp listed
  by_cases isMoved : (state.heap id).moved = true
  · exact sized.drawWindow_moved_passAt consistent held split client used isMoved (aligned isMoved) before
  · have still : (state.heap id).moved = false := by simpa using isMoved
    by_cases isInvalid : (state.heap id).invalid = true
    · have damaged := (sized.damaged id used (Option.some_ne_none id).symm).invalidRect kind still
      exact sized.drawWindow_invalid_passAt consistent split client damaged isMoved isInvalid before
    · apply consistent.passAt_others split before
      · rintro (⟨moving, _⟩ | ⟨invalid, _⟩)
        · exact isMoved moving
        · exact isInvalid invalid
      · rw [Dwm.drawWindow, if_neg isMoved, if_neg isInvalid]

/-- What a window exposes depends on the shapes and on its previous rectangle. -/
theorem Aligned.of_same {before after : State} (same : SameShapes before after) {wall : Nat} {point : Point}
    {id : Nat} (previous : (after.heap id).prevRect = (before.heap id).prevRect)
    (aligned : Aligned screen before wall point id) : Aligned screen after wall point id := by
  have wallShape := same.shape wall
  rw [Aligned, previous, same.windows, same.topmost, filling, wallShape.buffer, wallShape.stride,
    wallShape.shows]
  exact aligned

/-- Drawing all windows that are left, at a point of the client rectangle. The induction
is on these windows; the ones before them in the list are drawn. -/
theorem Sized.drawWindows_passAt {state : State} (sized : Sized screen state) (consistent : Consistent state)
    {wall : Nat} (held : state.wall = some wall) {earlier later : List Nat}
    (split : state.windows = earlier ++ later) {point : Point} (client : state.clientRect.Contains point)
    (aligned : ∀ id ∈ later, (state.heap id).moved = true →
      (state.heap id).prevRect.subtract (clip screen state id) ≠ [] → Aligned screen state wall point id)
    (before : PassAt screen state wall later point) :
    PassAt screen (later.foldl (Dwm.drawWindow screen) state) wall [] point := by
  induction later generalizing state earlier with
  | nil => exact before
  | cons id rest ih =>
    have listed : id ∈ state.windows := by
      rw [split]
      exact List.mem_append_right _ List.mem_cons_self
    obtain ⟨used, kind⟩ := (consistent.listed id).mp listed
    have drawn := @drawWindow_drawnBut screen state id
    have next := sized.drawWindow_passAt consistent held split client (aligned id List.mem_cons_self) before
    rw [List.foldl_cons]
    apply @ih (Dwm.drawWindow screen state id) (sized.drawWindow used kind)
      (consistent.of_same drawn.toSameFocus) (drawn.wall.trans held) (earlier ++ [id])
    · rw [drawn.windows, split, List.append_assoc, List.singleton_append]
    · rw [drawn.client]
      exact client
    · intro other member isMoved exposes
      have kept := drawn.kept other (consistent.later_ne split member)
      rw [kept.moved] at isMoved
      rw [kept.previous, drawn.clip] at exposes
      exact (aligned other (List.mem_cons_of_mem id member) isMoved exposes).of_same drawn.toSameShapes kept.previous
    · exact next

variable (screen)

/-- Windows that have not moved have their previous rectangle where they are. -/
def Settled (state : State) : Prop :=
  ∀ id ∈ state.windows, (state.heap id).moved = false → (state.heap id).prevRect = clip screen state id

variable {screen}

/-- The end of an iteration leaves the window as it is settled. -/
theorem drawRect_own (state : State) (id : Nat) (rect : Rect) :
    ((drawRect screen state id rect).heap id).moved = (state.heap id).moved ∧
      ((drawRect screen state id rect).heap id).prevRect = (state.heap id).prevRect := by
  have kept := (invalidateAll_invalidated rect (dwmTransfer screen state id rect)
    (above (dwmTransfer screen state id rect).windows id)).kept id
  rw [drawRect, State.modify_self]
  exact ⟨kept.moved, kept.previous⟩

/-- An iteration settles its window. -/
theorem drawWindow_settles (state : State) (id : Nat)
    (settled : (state.heap id).moved = false → (state.heap id).prevRect = clip screen state id) :
    ((drawWindow screen state id).heap id).moved = false ∧
      ((drawWindow screen state id).heap id).prevRect = clip screen state id := by
  rw [drawWindow]
  split_ifs with isMoved isInvalid
  · have own := @drawRect_own screen
      ((expose screen state id).modify id (Window.settle (clip screen state id))) id (clip screen state id)
    rw [State.modify_self] at own
    exact own
  · have still : (state.heap id).moved = false := by simpa using isMoved
    have own := @drawRect_own screen (state.modify id fun window => { window with invalid := false }) id
      ((state.heap id).invalidRect.fit (fitRect screen state id))
    rw [State.modify_self] at own
    exact ⟨own.1.trans still, own.2.trans (settled still)⟩
  · have still : (state.heap id).moved = false := by simpa using isMoved
    exact ⟨still, settled still⟩

/-- Drawing windows settles them. -/
theorem drawWindows_settle (state : State) (ids : List Nat) (listed : ∀ id ∈ ids, id ∈ state.windows)
    (settled : Settled screen state) : Settled screen (ids.foldl (drawWindow screen) state) ∧
      ∀ id ∈ state.windows, id ∈ ids ∨ (state.heap id).moved = false →
        ((ids.foldl (drawWindow screen) state).heap id).moved = false := by
  induction ids generalizing state with
  | nil =>
    apply And.intro settled
    intro id _ still
    exact still.resolve_left List.not_mem_nil
  | cons first rest ih =>
    have drawn := @drawWindow_drawnBut screen state first
    have own := @drawWindow_settles screen state first (settled first (listed first List.mem_cons_self))
    have settledNext : Settled screen (drawWindow screen state first) := by
      intro id member still
      rw [drawn.windows] at member
      rw [drawn.clip]
      by_cases same : id = first
      · rw [same]
        exact own.2
      · have kept := drawn.kept id same
        rw [kept.previous]
        rw [kept.moved] at still
        exact settled id member still
    have rest' := ih (drawWindow screen state first)
      (fun id member => drawn.windows ▸ listed id (List.mem_cons_of_mem first member)) settledNext
    apply And.intro rest'.1
    intro id member cases_
    apply rest'.2 id (drawn.windows ▸ member)
    by_cases same : id = first
    · right
      rw [same]
      exact own.1
    · rw [(drawn.kept id same).moved]
      rcases cases_ with inIds | still
      · exact .inl (List.mem_of_ne_of_mem same inIds)
      · exact .inr still

variable (screen)

/-- The windows that have not moved. -/
def stillIds (state : State) : List Nat :=
  state.windows.filter fun id => (state.heap id).moved = false

/-- Between draw passes, with a wall that is not going to be drawn: a moved window was at
the point when it was drawn, or the point shows the topmost of the windows that have not
moved, unless this window is invalid there, or the wall. -/
def ReadyAt (state : State) (wall : Nat) (point : Point) : Prop :=
  (∃ id ∈ state.windows, (state.heap id).moved = true ∧ (state.heap id).prevRect.Contains point) ∨
    match topmost screen state (stillIds state) point with
    | none => state.pixel screen point = (state.heap wall).shows point
    | some id => state.pixel screen point = (state.heap id).shows point ∨
        (state.heap id).invalid = true ∧ (state.heap id).invalidRect.Contains point

/-- Between draw passes: the wall is going to be drawn, or every point of the client
rectangle is ready. -/
def Ready (state : State) : Prop :=
  ∀ wall, state.wall = some wall → (state.heap wall).invalid = false → (state.heap wall).moved = false →
    ∀ point, state.clientRect.Contains point → ReadyAt screen state wall point

/-- The wall covers the screen, if there is one. -/
def WallCovers (state : State) : Prop :=
  ∀ wall, state.wall = some wall → screen.rect.Within (state.heap wall).rect

/-- What a draw pass exposes is aligned. -/
def ExposureAligned (state : State) : Prop :=
  ∀ wall, state.wall = some wall → ∀ id ∈ state.windows,
    (state.heap id).moved = true ∨ (state.heap wall).invalid = true ∨ (state.heap wall).moved = true →
    (state.heap id).prevRect.subtract (clip screen state id) ≠ [] →
    ∀ point, state.clientRect.Contains point → Aligned screen state wall point id

variable {screen}

/-- A point that is ready between passes is ready for a pass. -/
theorem ReadyAt.passAt {state : State} {wall : Nat} {point : Point} (ready : ReadyAt screen state wall point) :
    PassAt screen state wall state.windows point := by
  rcases ready with ⟨id, member, isMoved, inside⟩ | right
  · exact .inl ⟨id, member, .inl ⟨isMoved, .inl inside⟩⟩
  · by_cases moving : ∃ id ∈ state.windows, (state.heap id).moved = true ∧ covers screen state point id = true
    · obtain ⟨id, member, isMoved, covered⟩ := moving
      exact .inl ⟨id, member, .inl ⟨isMoved, .inr covered⟩⟩
    · have same : topmost screen state (stillIds state) point = topmost screen state state.windows point := by
        rw [topmost, topmost, stillIds, List.filter_filter]
        congr 1
        apply List.filter_congr
        intro id member
        by_cases covered : covers screen state point id = true
        · have still : ¬ (state.heap id).moved = true := fun isMoved => moving ⟨id, member, isMoved, covered⟩
          simp [covered, still]
        · simp [covered]
      rw [same] at right
      cases top : topmost screen state state.windows point with
      | none =>
        rw [top] at right
        right
        rw [painter, top]
        exact right
      | some id =>
        rw [top] at right
        rcases right with shown | ⟨invalid, inside⟩
        · right
          rw [painter, top]
          exact shown
        · left
          have listed := (List.mem_filter.mp (List.mem_of_getLast? top)).1
          exact ⟨id, listed, .inr ⟨invalid, inside, top⟩⟩

/-- A painted client rectangle without moved windows is ready. -/
theorem Painted.ready {state : State} (painted : Painted screen state)
    (still : ∀ id ∈ state.windows, (state.heap id).moved = false) : Ready screen state := by
  intro wall held _ _ point client
  have all : stillIds state = state.windows := by
    rw [stillIds, List.filter_eq_self]
    intro id member
    simpa using still id member
  have shown := painted wall held point client
  rw [painter] at shown
  right
  rw [all]
  cases top : topmost screen state state.windows point with
  | none =>
    rw [top] at shown
    exact shown
  | some id =>
    rw [top] at shown
    exact .inl shown

/-- A wall that is going to be drawn is drawn on the whole client rectangle. -/
theorem Sized.dwmDrawWall_pixel {state : State} (sized : Sized screen state) {wall : Nat}
    (dirty : (state.heap wall).invalid = true ∨ (state.heap wall).moved = true)
    (covering : screen.rect.Within (state.heap wall).rect) {point : Point}
    (client : state.clientRect.Contains point) :
    (Dwm.dwmDrawWall screen state wall).pixel screen point = (state.heap wall).shows point := by
  have visible := sized.client point client
  have shown : OnScreen screen ((state.heap wall).rect.fit state.clientRect) := by
    apply And.intro ((state.heap wall).rect_ordered.fit _)
    intro other inside
    exact sized.client other ((Rect.contains_fit _ _ other).mp inside).2
  have inWall : (state.heap wall).rect.Contains point := by
    simp only [Rect.Within, Rect.Contains] at *
    omega
  have notClean : ¬ ((!(state.heap wall).invalid && !(state.heap wall).moved) = true) := by
    rcases dirty with invalid | isMoved
    · simp [invalid]
    · simp [isMoved]
  have drawn := shown.dwmTransfer_pixel (state.modify wall Window.clean) wall visible
  rw [if_pos ((Rect.contains_fit _ _ point).mpr ⟨inWall, client⟩), State.modify_self] at drawn
  rw [Dwm.dwmDrawWall, if_neg notClean]
  exact (congrFun (markAllMoved_draws _ state.windows).1 _).trans drawn

/-- A pass starts with every point of the client rectangle ready for it, and with
settled windows. -/
theorem Sized.dwmDrawWall_ready {state : State} (sized : Sized screen state) (consistent : Consistent state)
    (settled : Settled screen state) (ready : Ready screen state) {wall : Nat} (held : state.wall = some wall)
    (covering : screen.rect.Within (state.heap wall).rect) :
    Settled screen (Dwm.dwmDrawWall screen state wall) ∧ ∀ point, state.clientRect.Contains point →
      PassAt screen (Dwm.dwmDrawWall screen state wall) wall (Dwm.dwmDrawWall screen state wall).windows point := by
  have unlisted := (consistent.wall wall held).2.2
  have same := @dwmDrawWall_sameShapes screen state wall
  by_cases dirty : (state.heap wall).invalid = true ∨ (state.heap wall).moved = true
  · have marked (id : Nat) (member : id ∈ state.windows) :
        ((Dwm.dwmDrawWall screen state wall).heap id).moved = true := by
      have different : id ≠ wall := fun equal => unlisted (equal ▸ member)
      rw [dwmDrawWall_heap state different member, if_pos dirty]
      rfl
    constructor
    · intro id member still
      rw [same.windows] at member
      rw [marked id member] at still
      cases still
    · intro point client
      cases top : topmost screen state state.windows point with
      | none =>
        right
        rw [sized.dwmDrawWall_pixel dirty covering client, same.painter, painter, top]
      | some id =>
        left
        obtain ⟨member, covered⟩ := List.mem_filter.mp (List.mem_of_getLast? top)
        refine ⟨id, same.windows ▸ member, .inl ⟨marked id member, .inr ?_⟩⟩
        rw [same.covers]
        exact covered
  · have clean : (state.heap wall).invalid = false ∧ (state.heap wall).moved = false := by
      simpa using dirty
    have unchanged : Dwm.dwmDrawWall screen state wall = state := by
      rw [Dwm.dwmDrawWall, clean.1, clean.2]
      rfl
    rw [unchanged]
    apply And.intro settled
    intro point client
    exact (ready wall held clean.1 clean.2 point client).passAt

/-- A draw pass paints the client rectangle, and leaves it ready and settled. -/
theorem Sized.drawPass_painted {state : State} (sized : Sized screen state) (consistent : Consistent state)
    (settled : Settled screen state) (ready : Ready screen state) (covering : WallCovers screen state)
    (aligned : ExposureAligned screen state) :
    Painted screen (Dwm.drawPass screen state) ∧ Settled screen (Dwm.drawPass screen state) ∧
      Ready screen (Dwm.drawPass screen state) := by
  cases held : state.wall with
  | none =>
    have unchanged : Dwm.drawPass screen state = state := by rw [Dwm.drawPass, held]
    rw [unchanged]
    refine ⟨?_, settled, ready⟩
    intro wall found
    rw [held] at found
    cases found
  | some wall =>
    have body : Dwm.drawPass screen state =
        (Dwm.dwmDrawWall screen state wall).windows.foldl (Dwm.drawWindow screen)
          (Dwm.dwmDrawWall screen state wall) := by
      rw [Dwm.drawPass, held]
      rfl
    have focus := drawPass_sameFocus screen state
    have same := @dwmDrawWall_sameShapes screen state wall
    obtain ⟨_, type, unlisted⟩ := consistent.wall wall held
    obtain ⟨settledStart, readyStart⟩ :=
      sized.dwmDrawWall_ready consistent settled ready held (covering wall held)
    have settledEnd := drawWindows_settle (Dwm.dwmDrawWall screen state wall)
      (Dwm.dwmDrawWall screen state wall).windows (fun _ member => member) settledStart
    rw [← body] at settledEnd
    have still : ∀ id ∈ (Dwm.drawPass screen state).windows,
        ((Dwm.drawPass screen state).heap id).moved = false := by
      intro id member
      rw [focus.windows, ← same.windows] at member
      exact settledEnd.2 id member (.inl member)
    have alignedStart (point : Point) (client : state.clientRect.Contains point) :
        ∀ id ∈ (Dwm.dwmDrawWall screen state wall).windows,
          ((Dwm.dwmDrawWall screen state wall).heap id).moved = true →
          ((Dwm.dwmDrawWall screen state wall).heap id).prevRect.subtract
            (clip screen (Dwm.dwmDrawWall screen state wall) id) ≠ [] →
          Aligned screen (Dwm.dwmDrawWall screen state wall) wall point id := by
      intro id member isMoved exposes
      rw [same.windows] at member
      have different : id ≠ wall := fun equal => unlisted (equal ▸ member)
      have seen := @dwmDrawWall_heap screen state wall id different member
      have previous := @dwmDrawWall_prevRect screen state wall id different member
      rw [previous, same.clip] at exposes
      apply (aligned wall held id member _ exposes point client).of_same same previous
      rw [seen] at isMoved
      split_ifs at isMoved with dirty
      · exact .inr dirty
      · exact .inl isMoved
    have painted : Painted screen (Dwm.drawPass screen state) := by
      intro other found point client
      rw [focus.wall, held] at found
      obtain rfl := Option.some.inj found
      have shapes : SameShapes (Dwm.dwmDrawWall screen state wall) (Dwm.drawPass screen state) := by
        rw [body]
        apply foldl_related
        intro id _ before
        exact (@drawWindow_drawnBut screen before id).toSameShapes
      rw [shapes.client, same.client] at client
      have passed := (sized.dwmDrawWall type).drawWindows_passAt (consistent.of_same same.toSameFocus)
        (same.wall.trans held) (List.nil_append _).symm (by rw [same.client]; exact client)
        (alignedStart point client) (readyStart point client)
      rw [← body] at passed
      exact passed.resolve_left (fun paints => List.not_mem_nil paints.choose_spec.1)
    exact ⟨painted, settledEnd.1, painted.ready still⟩

end Asym.Dwm
