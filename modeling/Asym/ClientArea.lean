import Asym.DwmSizes

/-!
# The area beside the panels

`dwm_update_client_rect_unlocked` starts with the rectangle of the screen and moves, for each
panel, the side that the panel is closest to. The distances are unsigned, and one of a panel
that is off the screen wraps. But among four numbers one is the smallest, so each panel moves
some side, and whichever it moves, the panel is on the other side of it.

The screen here has any width and height. The update of the manager is the one at the size of
its screen.
-/

namespace Asym.ClientArea

open Graphics Dwm Folds

/-- The turn of the loop of `dwm_update_client_rect_unlocked` for one window, on a back buffer of
a width and a height. -/
def updateSide (width height : Nat) (window : Window) (newRect : Rect) : Rect :=
  if window.type ≠ .panel then newRect
  else
    let leftDist := toWord (window.pos.x + window.gfx.width)
    let topDist := toWord (window.pos.y + window.gfx.height)
    let rightDist := toWord (width - window.pos.x)
    let bottomDist := toWord (height - window.pos.y)
    if leftDist ≤ topDist ∧ leftDist ≤ rightDist ∧ leftDist ≤ bottomDist then
      { newRect with left := max (window.pos.x + window.gfx.width) newRect.left }
    else if topDist ≤ leftDist ∧ topDist ≤ rightDist ∧ topDist ≤ bottomDist then
      { newRect with top := max (window.pos.y + window.gfx.height) newRect.top }
    else if rightDist ≤ leftDist ∧ rightDist ≤ topDist ∧ rightDist ≤ bottomDist then
      { newRect with right := min window.pos.x newRect.right }
    else if bottomDist ≤ leftDist ∧ bottomDist ≤ topDist ∧ bottomDist ≤ rightDist then
      { newRect with bottom := min window.pos.y newRect.bottom }
    else newRect

/-- `dwm_update_client_rect_unlocked` on a back buffer of a width and a height. -/
def updateClientRect (width height : Nat) (state : State) : State :=
  { markAllMoved state state.windows with
    clientRect := state.windows.foldl (fun newRect id => updateSide width height (state.heap id) newRect)
      (rectInitDim 0 0 width height) }

/-- Two rectangles with a side between them. -/
def Apart (rect other : Rect) : Prop :=
  other.right ≤ rect.left ∨ other.bottom ≤ rect.top ∨ rect.right ≤ other.left ∨ rect.bottom ≤ other.top

/-- Rectangles that are apart have no common point. -/
theorem Apart.disjoint {rect other : Rect} (apart : Apart rect other) (point : Point)
    (inRect : rect.Contains point) : ¬ other.Contains point := by
  rintro ⟨atLeft, beforeRight, atTop, beforeBottom⟩
  obtain ⟨fromLeft, toRight, fromTop, toBottom⟩ := inRect
  rcases apart with left | top | right | bottom <;> omega

/-- What is apart from a rectangle is apart from all that is in it. -/
theorem Apart.within {inner rect other : Rect} (apart : Apart rect other) (within : inner.Within rect) :
    Apart inner other := by
  obtain ⟨left, right, top, bottom⟩ := within
  rcases apart with atLeft | atTop | atRight | atBottom
  · exact .inl (by omega)
  · exact .inr (.inl (by omega))
  · exact .inr (.inr (.inl (by omega)))
  · exact .inr (.inr (.inr (by omega)))

/-- What a window does to the client rectangle: nothing if it is no panel, and else it moves one
side inward to an edge of its own that it is behind. -/
theorem updateSide_cases (width height : Nat) (window : Window) (rect : Rect) :
    window.type ≠ .panel ∧ updateSide width height window rect = rect ∨
      window.type = .panel ∧
        (updateSide width height window rect = { rect with left := max window.rect.right rect.left } ∨
          updateSide width height window rect = { rect with top := max window.rect.bottom rect.top } ∨
          updateSide width height window rect = { rect with right := min window.rect.left rect.right } ∨
          updateSide width height window rect = { rect with bottom := min window.rect.top rect.bottom }) := by
  unfold updateSide
  by_cases panel : window.type = .panel
  · refine .inr ⟨panel, ?_⟩
    rw [if_neg (not_not_intro panel)]
    dsimp only
    generalize toWord (window.pos.x + window.gfx.width) = leftDist
    generalize toWord (window.pos.y + window.gfx.height) = topDist
    generalize toWord (width - window.pos.x) = rightDist
    generalize toWord (height - window.pos.y) = bottomDist
    split_ifs with left top right bottom
    · exact .inl rfl
    · exact .inr (.inl rfl)
    · exact .inr (.inr (.inl rfl))
    · exact .inr (.inr (.inr rfl))
    · -- one of the four distances is the smallest
      omega
  · exact .inl ⟨panel, if_pos panel⟩

/-- The client rectangle only gets smaller. -/
theorem updateSide_within (width height : Nat) (window : Window) (rect : Rect) :
    (updateSide width height window rect).Within rect := by
  rcases updateSide_cases width height window rect with ⟨_, same⟩ | ⟨_, left | top | right | bottom⟩
  · rw [same]
    exact ⟨le_refl _, le_refl _, le_refl _, le_refl _⟩
  · rw [left]
    exact ⟨le_max_right _ _, le_refl _, le_refl _, le_refl _⟩
  · rw [top]
    exact ⟨le_refl _, le_refl _, le_max_right _ _, le_refl _⟩
  · rw [right]
    exact ⟨le_refl _, min_le_right _ _, le_refl _, le_refl _⟩
  · rw [bottom]
    exact ⟨le_refl _, le_refl _, le_refl _, min_le_right _ _⟩

/-- A panel is apart from the client rectangle after its turn. -/
theorem updateSide_apart (width height : Nat) {window : Window} (panel : window.type = .panel) (rect : Rect) :
    Apart (updateSide width height window rect) window.rect := by
  rcases updateSide_cases width height window rect with ⟨other, _⟩ | ⟨_, left | top | right | bottom⟩
  · exact absurd panel other
  · rw [left]
    exact .inl (le_max_left _ _)
  · rw [top]
    exact .inr (.inl (le_max_left _ _))
  · rw [right]
    exact .inr (.inr (.inl (min_le_left _ _)))
  · rw [bottom]
    exact .inr (.inr (.inr (min_le_left _ _)))

/-- Each side of a rectangle is the one of another, or an edge of a panel. -/
structure SidesOf (panels : Window → Prop) (rect start : Rect) : Prop where
  left : rect.left = start.left ∨ ∃ panel, panels panel ∧ rect.left = panel.rect.right
  top : rect.top = start.top ∨ ∃ panel, panels panel ∧ rect.top = panel.rect.bottom
  right : rect.right = start.right ∨ ∃ panel, panels panel ∧ rect.right = panel.rect.left
  bottom : rect.bottom = start.bottom ∨ ∃ panel, panels panel ∧ rect.bottom = panel.rect.top

/-- Sides that nothing has moved. -/
theorem SidesOf.refl (panels : Window → Prop) (rect : Rect) : SidesOf panels rect rect :=
  ⟨.inl rfl, .inl rfl, .inl rfl, .inl rfl⟩

/-- A window moves a side to an edge of its own, or leaves it. -/
theorem SidesOf.updateSide {panels : Window → Prop} {rect start : Rect} (sides : SidesOf panels rect start)
    (width height : Nat) {window : Window} (listed : window.type = .panel → panels window) :
    SidesOf panels (updateSide width height window rect) start := by
  rcases updateSide_cases width height window rect with ⟨_, same⟩ | ⟨panel, left | top | right | bottom⟩
  · rw [same]
    exact sides
  · rw [left]
    refine ⟨?_, sides.top, sides.right, sides.bottom⟩
    rcases max_choice window.rect.right rect.left with moved | stays
    · exact .inr ⟨window, listed panel, moved⟩
    · simpa only [stays] using sides.left
  · rw [top]
    refine ⟨sides.left, ?_, sides.right, sides.bottom⟩
    rcases max_choice window.rect.bottom rect.top with moved | stays
    · exact .inr ⟨window, listed panel, moved⟩
    · simpa only [stays] using sides.top
  · rw [right]
    refine ⟨sides.left, sides.top, ?_, sides.bottom⟩
    rcases min_choice window.rect.left rect.right with moved | stays
    · exact .inr ⟨window, listed panel, moved⟩
    · simpa only [stays] using sides.right
  · rw [bottom]
    refine ⟨sides.left, sides.top, sides.right, ?_⟩
    rcases min_choice window.rect.top rect.bottom with moved | stays
    · exact .inr ⟨window, listed panel, moved⟩
    · simpa only [stays] using sides.bottom

/-- The loop over the windows. -/
def updateSides (width height : Nat) (heap : Nat → Window) (ids : List Nat) (newRect : Rect) : Rect :=
  ids.foldl (fun newRect id => updateSide width height (heap id) newRect) newRect

/-- The loop only makes the client rectangle smaller. -/
theorem updateSides_within (width height : Nat) (heap : Nat → Window) (ids : List Nat) (rect : Rect) :
    (updateSides width height heap ids rect).Within rect := by
  induction ids generalizing rect with
  | nil => exact ⟨le_refl _, le_refl _, le_refl _, le_refl _⟩
  | cons id rest ih =>
    obtain ⟨left, right, top, bottom⟩ := updateSide_within width height (heap id) rect
    obtain ⟨restLeft, restRight, restTop, restBottom⟩ := ih (updateSide width height (heap id) rect)
    exact ⟨left.trans restLeft, restRight.trans right, top.trans restTop, restBottom.trans bottom⟩

/-- After the loop, every panel is apart from the client rectangle. -/
theorem updateSides_apart (width height : Nat) (heap : Nat → Window) {ids : List Nat} {id : Nat}
    (listed : id ∈ ids) (panel : (heap id).type = .panel) (rect : Rect) :
    Apart (updateSides width height heap ids rect) (heap id).rect := by
  induction ids generalizing rect with
  | nil => exact absurd listed List.not_mem_nil
  | cons first rest ih =>
    rcases List.mem_cons.mp listed with rfl | later
    · -- the panel's own turn separates it, and the later ones keep it so
      exact (updateSide_apart width height panel rect).within (updateSides_within width height heap rest _)
    · exact ih later (updateSide width height (heap first) rect)

/-- After the loop, each side is the one at the start or an edge of a panel. -/
theorem SidesOf.updateSides {panels : Window → Prop} {rect start : Rect} (sides : SidesOf panels rect start)
    (width height : Nat) (heap : Nat → Window) (ids : List Nat)
    (listed : ∀ id ∈ ids, (heap id).type = .panel → panels (heap id)) :
    SidesOf panels (updateSides width height heap ids rect) start := by
  induction ids generalizing rect with
  | nil => exact sides
  | cons id rest ih =>
    have first := sides.updateSide width height (listed id List.mem_cons_self)
    exact ih first fun other member => listed other (List.mem_cons_of_mem id member)

/-- The client rectangle after an update has no point of a panel and is in the screen. A side of it
that is not the side of the screen is the edge of a panel. Every window is marked as moved and keeps
its place. -/
theorem clientRect_avoids_panels (width height : Nat) (state : State) :
    let after := updateClientRect width height state
    (∀ id ∈ state.windows, (state.heap id).type = .panel → ∀ point, after.clientRect.Contains point →
      ¬ (state.heap id).rect.Contains point) ∧
    after.clientRect.Within (rectInitDim 0 0 width height) ∧
    SidesOf (fun panel => panel.type = .panel ∧ ∃ id ∈ state.windows, panel = state.heap id) after.clientRect
      (rectInitDim 0 0 width height) ∧
    ∀ id ∈ state.windows, (after.heap id).moved = true ∧ (after.heap id).rect = (state.heap id).rect ∧
      (after.heap id).type = (state.heap id).type := by
  refine ⟨?_, ?_, ?_, ?_⟩
  · intro id listed panel point inside
    exact (updateSides_apart width height state.heap listed panel _).disjoint point inside
  · exact updateSides_within width height state.heap state.windows _
  · refine (SidesOf.refl _ _).updateSides width height state.heap state.windows ?_
    intro id listed panel
    exact ⟨panel, id, listed, rfl⟩
  · intro id listed
    have marked : (updateClientRect width height state).heap id = (state.heap id).markMoved := by
      refine (markAllMoved_heap state state.windows id).trans ?_
      rw [if_pos listed]
    rw [marked]
    exact ⟨rfl, rfl, rfl⟩

end Asym.ClientArea
