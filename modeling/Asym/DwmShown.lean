import Asym.DwmFocus

/-!
# Windows that are shown

A window is shown if it is in the list of windows, or is the cursor or the wall. In every
reachable state the windows that are shown are those in use, so a window that was freed is
not shown and none is in use that the manager does not know.

Creating a window that is not refused adds it to the windows that are shown, closing one
takes it away, and all else leaves them as they are.
-/

namespace Asym.Dwm

open Graphics

/-- In the list of windows, or the cursor or the wall. -/
def Shown (state : State) (id : Nat) : Prop :=
  id ∈ state.windows ∨ state.cursor = some id ∨ state.wall = some id

/-- The windows that are in use. -/
def used (state : State) : Set Nat := {id | state.live id = true}

/-- Being in use. -/
theorem mem_used {state : State} {id : Nat} : id ∈ used state ↔ state.live id = true := Iff.rfl

/-- Pointers are consistent, and no window is in use without being shown. -/
structure AllShown (state : State) : Prop extends Consistent state where
  shown : ∀ id, state.live id = true → Shown state id

/-- The windows that are shown are those in use. -/
theorem AllShown.shown_iff {state : State} (allShown : AllShown state) (id : Nat) :
    Shown state id ↔ id ∈ used state := by
  constructor
  · rintro (listed | pointed | pointed)
    · exact ((allShown.listed id).mp listed).1
    · exact (allShown.cursor id pointed).1
    · exact (allShown.wall id pointed).1
  · exact allShown.shown id

/-- A cursor or a wall in use is pointed to. -/
theorem AllShown.pointed {state : State} (allShown : AllShown state) {id : Nat} (live : state.live id = true)
    (type : (state.heap id).type = .cursor ∨ (state.heap id).type = .wall) :
    state.cursor = some id ∨ state.wall = some id := by
  rcases allShown.shown id live with listed | pointed
  · have listedType := ((allShown.listed id).mp listed).2
    rcases type with cursor | wall
    · rw [cursor] at listedType
      simp at listedType
    · rw [wall] at listedType
      simp at listedType
  · exact pointed

/-- A cursor in use is the cursor. -/
theorem AllShown.cursor_eq {state : State} (allShown : AllShown state) {id : Nat}
    (live : state.live id = true) (type : (state.heap id).type = .cursor) : state.cursor = some id := by
  rcases allShown.pointed live (.inl type) with pointed | other
  · exact pointed
  · have wallType := (allShown.wall id other).2.1
    rw [type] at wallType
    cases wallType

/-- A wall in use is the wall. -/
theorem AllShown.wall_eq {state : State} (allShown : AllShown state) {id : Nat}
    (live : state.live id = true) (type : (state.heap id).type = .wall) : state.wall = some id := by
  rcases allShown.pointed live (.inr type) with other | pointed
  · have cursorType := (allShown.cursor id other).2.1
    rw [type] at cursorType
    cases cursorType
  · exact pointed

/-- Every cursor and every wall in use is pointed to, and that is enough. -/
theorem Consistent.allShown {state : State} (consistent : Consistent state)
    (cursor : ∀ id, state.live id = true → (state.heap id).type = .cursor → state.cursor = some id)
    (wall : ∀ id, state.live id = true → (state.heap id).type = .wall → state.wall = some id) :
    AllShown state := by
  refine ⟨consistent, fun id live => ?_⟩
  cases type : (state.heap id).type with
  | window => exact .inl ((consistent.listed id).mpr ⟨live, .inl type⟩)
  | panel => exact .inl ((consistent.listed id).mpr ⟨live, .inr type⟩)
  | cursor => exact .inr (.inl (cursor id live type))
  | wall => exact .inr (.inr (wall id live type))

/-- The windows in use, their types, and the pointers to the cursor and the wall are the
same. -/
structure SameUse (before after : State) : Prop where
  live : after.live = before.live
  cursor : after.cursor = before.cursor
  wall : after.wall = before.wall
  type : ∀ id, before.live id = true → (after.heap id).type = (before.heap id).type

instance : IsPreorder State SameUse where
  refl _ := ⟨rfl, rfl, rfl, fun _ _ => rfl⟩
  trans _ _ _ first second :=
    ⟨second.live.trans first.live, second.cursor.trans first.cursor, second.wall.trans first.wall,
      fun id live => (second.type id (first.live ▸ live)).trans (first.type id live)⟩

/-- What keeps the focus keeps the use. -/
theorem SameFocus.sameUse {before after : State} (same : SameFocus before after) : SameUse before after :=
  ⟨same.live, same.cursor, same.wall, fun id _ => same.type id⟩

/-- Everything stays shown if the use stays the same. -/
theorem AllShown.of_sameUse {before after : State} (allShown : AllShown before) (same : SameUse before after)
    (consistent : Consistent after) : AllShown after := by
  apply consistent.allShown
  · intro id live type
    rw [same.live] at live
    rw [same.type id live] at type
    rw [same.cursor]
    exact allShown.cursor_eq live type
  · intro id live type
    rw [same.live] at live
    rw [same.type id live] at type
    rw [same.wall]
    exact allShown.wall_eq live type

/-- A change of a window that keeps its type keeps the use. -/
theorem SameUse.modify (state : State) (id : Nat) (change : Window → Window)
    (type : ∀ window, (change window).type = window.type) : SameUse state (state.modify id change) := by
  refine ⟨rfl, rfl, rfl, fun other _ => ?_⟩
  by_cases same : other = id
  · rw [same, State.modify_self, type]
  · rw [State.modify_of_ne _ _ same]

/-- Messages keep the use. -/
theorem tellSelected_sameUse (state : State) (message : Message) :
    SameUse state (tellSelected state message) := by
  rw [tellSelected]
  split
  · exact refl_of SameUse state
  · exact SameUse.modify _ _ _ fun _ => rfl

/-- Selecting keeps the use. -/
theorem dwmSelect_sameUse (state : State) (target : Option Nat) :
    SameUse state (dwmSelect state target) := by
  have told := tellSelected_sameUse state .deselect
  simp only [dwmSelect]
  split_ifs with same
  · exact refl_of SameUse state
  · cases target with
    | none => exact ⟨told.live, told.cursor, told.wall, told.type⟩
    | some id =>
      apply trans_of SameUse told
      have chosen := SameUse.modify (tellSelected state .deselect) id
        (fun window => (window.push .select).markMoved) (fun _ => rfl)
      exact ⟨chosen.live, chosen.cursor, chosen.wall, chosen.type⟩

variable (screen : Screen)

/-- A mouse event keeps the use. -/
theorem dwmHandleMouseMessage_sameUse (state : State) (cursor : Nat) (buttons : BitVec 32) (delta : Point) :
    SameUse state (dwmHandleMouseMessage screen state cursor buttons delta) := by
  have chosen (before : State) (pressed : BitVec 32) (pos : Point) :
      SameUse before (pressAt before pressed pos) := by
    rw [pressAt]
    split_ifs with press
    · exact dwmSelect_sameUse before _
    · exact refl_of SameUse before
  have kept (told : State) : SameUse told { told with oldButtons := buttons } :=
    ⟨rfl, rfl, rfl, fun _ _ => rfl⟩
  apply trans_of SameUse _ (kept _)
  apply trans_of SameUse _ (tellSelected_sameUse _ _)
  exact trans_of SameUse (moveCursor_sameFocus screen state cursor delta).sameUse (chosen _ _ _)

/-- The events that neither create nor close a window. -/
def Event.standing : Event → Bool
  | .create .. | .close _ => false
  | _ => true

/-- Every event that neither creates nor closes a window keeps the use. -/
theorem step_sameUse (state : State) (event : Event) (next : State) (standing : event.standing = true)
    (taken : step screen state event = some next) : SameUse state next := by
  cases event with
  | create => cases standing
  | close => cases standing
  | move id pos width height memory =>
    simp only [step, Option.ite_none_right_eq_some, Option.some.injEq] at taken
    obtain ⟨_, rfl⟩ := taken
    exact SameUse.modify _ _ _ fun _ => rfl
  | updateClientRect =>
    obtain rfl := Option.some.inj taken
    exact (dwmUpdateClientRect_sameFocus screen state).sameUse
  | flush id buffer size rect =>
    simp only [step, Option.ite_none_right_eq_some, Option.some.injEq] at taken
    obtain ⟨_, rfl⟩ := taken
    simp only [windowFlush]
    split
    · exact refl_of SameUse state
    · split
      · exact refl_of SameUse state
      · dsimp only
        apply SameUse.modify
        intro _
        rfl
  | mouse buttons delta =>
    obtain rfl := Option.some.inj taken
    split
    · exact refl_of SameUse state
    · exact dwmHandleMouseMessage_sameUse screen state _ buttons delta
  | keyboard type code mods =>
    obtain rfl := Option.some.inj taken
    exact tellSelected_sameUse state _
  | select point =>
    obtain rfl := Option.some.inj taken
    exact dwmSelect_sameUse state _
  | draw =>
    obtain rfl := Option.some.inj taken
    exact (dwmLoop_sameFocus screen state).sameUse

/-- A second cursor and a second wall are refused. -/
def Accepts (state : State) (type : DwmType) : Prop :=
  (type = .cursor → state.cursor = none) ∧ (type = .wall → state.wall = none)

instance (state : State) (type : DwmType) : Decidable (Accepts state type) :=
  inferInstanceAs (Decidable (_ ∧ _))

/-- A window is created if it is not refused. -/
theorem dwmCreate_done_iff (state : State) (id : Nat) (pos : Point) (width height : Nat) (type : DwmType) :
    (dwmCreate screen state id pos width height type).2 = none ↔ Accepts state type := by
  cases type with
  | window => simp [dwmCreate, Accepts]
  | panel => simp [dwmCreate, Accepts]
  | cursor => cases pointed : state.cursor <;> simp [dwmCreate, Accepts, pointed]
  | wall => cases pointed : state.wall <;> simp [dwmCreate, Accepts, pointed]

/-- The pointers and the use that a new window brings. -/
def linked (state : State) (id : Nat) (window : Window) : State := { state with
  heap := Function.update state.heap id window
  live := Function.update state.live id true
  cursor := if window.type = .cursor then some id else state.cursor
  wall := if window.type = .wall then some id else state.wall }

/-- A window that is created is in use, and pointed to if it is the cursor or the wall. -/
theorem dwmCreate_linked {state : State} {type : DwmType} (accepts : Accepts state type) (id : Nat)
    (pos : Point) (width height : Nat) :
    SameUse (linked state id (windowNew pos width height type))
      (dwmCreate screen state id pos width height type).1 := by
  cases type with
  | window =>
    have selected := dwmSelect_sameUse { state with
      heap := Function.update state.heap id (windowNew pos width height .window)
      live := Function.update state.live id true
      windows := state.windows ++ [id] } (some id)
    exact ⟨selected.live, selected.cursor, selected.wall, selected.type⟩
  | panel =>
    have updated := (dwmUpdateClientRect_sameFocus screen { state with
      heap := Function.update state.heap id (windowNew pos width height .panel)
      live := Function.update state.live id true
      windows := state.windows ++ [id] }).sameUse
    have selected := trans_of SameUse updated (dwmSelect_sameUse _ (some id))
    exact ⟨selected.live, selected.cursor, selected.wall, selected.type⟩
  | cursor =>
    have free := accepts.1 rfl
    simp only [dwmCreate, free, Option.isSome_none, Bool.false_eq_true, if_false]
    exact ⟨rfl, rfl, rfl, fun _ _ => rfl⟩
  | wall =>
    have free := accepts.2 rfl
    simp only [dwmCreate, free, Option.isSome_none, Bool.false_eq_true, if_false]
    exact ⟨rfl, rfl, rfl, fun _ _ => rfl⟩

/-- A window that is created and freed again leaves the use as it is. -/
theorem refused_sameUse {state : State} {id : Nat} (free : state.live id = false) (window : Window) :
    SameUse state (windowFree { state with
      heap := Function.update state.heap id window
      live := Function.update state.live id true } id) := by
  refine ⟨?_, rfl, rfl, fun other live => ?_⟩
  · simp only [windowFree, Function.update_idem]
    rw [← free, Function.update_eq_self]
  · have different : other ≠ id := by
      rintro rfl
      rw [free] at live
      cases live
    simp only [windowFree, Function.update_of_ne different]

/-- A request that is refused leaves the use as it is. -/
theorem dwmCreate_refused {state : State} {type : DwmType} (refuses : ¬ Accepts state type) {id : Nat}
    (free : state.live id = false) (pos : Point) (width height : Nat) :
    SameUse state (dwmCreate screen state id pos width height type).1 := by
  cases type with
  | window => simp [Accepts] at refuses
  | panel => simp [Accepts] at refuses
  | cursor =>
    have taken : state.cursor.isSome = true := by simpa [Accepts, Option.isSome_iff_ne_none] using refuses
    simp only [dwmCreate, taken, if_true]
    exact refused_sameUse free _
  | wall =>
    have taken : state.wall.isSome = true := by simpa [Accepts, Option.isSome_iff_ne_none] using refuses
    simp only [dwmCreate, taken, if_true]
    exact refused_sameUse free _

/-- The windows in use after one is created. -/
theorem used_created {state : State} {type : DwmType} (accepts : Accepts state type) (id : Nat)
    (pos : Point) (width height : Nat) :
    used (dwmCreate screen state id pos width height type).1 = insert id (used state) := by
  ext other
  rw [mem_used, (dwmCreate_linked screen accepts id pos width height).live, Set.mem_insert_iff]
  by_cases same : other = id
  · simp [linked, same]
  · simp [linked, same, mem_used]

/-- A request for a window, done or refused. -/
theorem AllShown.dwmCreate {state : State} (allShown : AllShown state) {id : Nat}
    (free : state.live id = false) (pos : Point) (width height : Nat) (type : DwmType) :
    AllShown (dwmCreate screen state id pos width height type).1 := by
  have consistent := allShown.toConsistent.dwmCreate screen free pos width height type
  by_cases accepts : Accepts state type
  · have same := dwmCreate_linked screen accepts id pos width height
    have here : ((linked state id (windowNew pos width height type)).heap id).type = type := by
      simp [linked, windowNew]
    have there {other : Nat} (different : other ≠ id) :
        (linked state id (windowNew pos width height type)).heap other = state.heap other ∧
          (linked state id (windowNew pos width height type)).live other = state.live other := by
      simp [linked, different]
    apply consistent.allShown
    · intro other live kind
      rw [same.live] at live
      rw [same.type other live] at kind
      rw [same.cursor]
      by_cases isNew : other = id
      · subst isNew
        rw [here] at kind
        simp [linked, windowNew, kind]
      · rw [(there isNew).1] at kind
        rw [(there isNew).2] at live
        have pointed := allShown.cursor_eq live kind
        have other_ : type ≠ .cursor := by
          intro isCursor
          rw [accepts.1 isCursor] at pointed
          cases pointed
        simpa [linked, windowNew, other_] using pointed
    · intro other live kind
      rw [same.live] at live
      rw [same.type other live] at kind
      rw [same.wall]
      by_cases isNew : other = id
      · subst isNew
        rw [here] at kind
        simp [linked, windowNew, kind]
      · rw [(there isNew).1] at kind
        rw [(there isNew).2] at live
        have pointed := allShown.wall_eq live kind
        have other_ : type ≠ .wall := by
          intro isWall
          rw [accepts.2 isWall] at pointed
          cases pointed
        simpa [linked, windowNew, other_] using pointed
  · exact allShown.of_sameUse (dwmCreate_refused screen accepts free pos width height) consistent

/-- The windows in use after one is closed. -/
theorem Consistent.used_closed {state : State} (consistent : Consistent state) (id : Nat) :
    used (Dwm.windowCleanup screen state id) = used state \ {id} := by
  ext other
  rw [mem_used, (consistent.windowCleanup_same screen id).live, Set.mem_sdiff]
  by_cases same : other = id
  · simp [windowFree, same]
  · simp [windowFree, unlinked, same, mem_used]

/-- Closing a window that is in use. -/
theorem AllShown.windowCleanup {state : State} (allShown : AllShown state) {id : Nat}
    (live : state.live id = true) : AllShown (windowCleanup screen state id) := by
  have consistent := allShown.toConsistent.windowCleanup screen id
  have same := allShown.toConsistent.windowCleanup_same screen id
  have earlier {other : Nat} (stays : (Dwm.windowCleanup screen state id).live other = true) :
      state.live other = true ∧ other ≠ id := by
    have inUse : other ∈ used (Dwm.windowCleanup screen state id) := stays
    rw [allShown.toConsistent.used_closed screen id] at inUse
    exact inUse
  apply consistent.allShown
  · intro other stays kind
    obtain ⟨liveOther, different⟩ := earlier stays
    rw [same.type] at kind
    have pointed := allShown.cursor_eq liveOther kind
    have other_ : (state.heap id).type ≠ .cursor := by
      intro isCursor
      rw [allShown.cursor_eq live isCursor, Option.some.injEq] at pointed
      exact different pointed.symm
    rw [same.cursor]
    simpa [windowFree, unlinked, other_] using pointed
  · intro other stays kind
    obtain ⟨liveOther, different⟩ := earlier stays
    rw [same.type] at kind
    have pointed := allShown.wall_eq liveOther kind
    have other_ : (state.heap id).type ≠ .wall := by
      intro isWall
      rw [allShown.wall_eq live isWall, Option.some.injEq] at pointed
      exact different pointed.symm
    rw [same.wall]
    simpa [windowFree, unlinked, other_] using pointed

/-- The manager starts with no window. -/
theorem initial_allShown (memory : Nat → Window) (back : Int → Pixel) :
    AllShown (initial screen memory back) := by
  refine ⟨initial_consistent screen memory back, fun id live => ?_⟩
  cases live

end Asym.Dwm
