import Mathlib.Logic.Function.Basic
import Mathlib.Order.Defs.Unbundled
import Mathlib.Tactic.Common

/-!
# Loops over lists

A loop that threads a state through the items of a list. A preorder that relates the
state before and after each iteration relates the state before and after the loop.
A loop that runs while a condition holds, and whose iterations decrease a measure, keeps
what every iteration keeps.
-/

namespace Asym.Folds

universe u v w
variable {State : Type u} {Item : Type v}

/-- A preorder that every iteration respects is respected by the loop. -/
theorem foldl_related {related : State → State → Prop} [IsPreorder State related]
    {iteration : State → Item → State} (items : List Item) (state : State)
    (each : ∀ item ∈ items, ∀ before, related before (iteration before item)) :
    related state (items.foldl iteration state) := by
  induction items generalizing state with
  | nil => exact refl_of related state
  | cons item rest ih =>
    apply trans_of related (each item List.mem_cons_self state)
    apply ih
    intro other member
    exact each other (List.mem_cons_of_mem item member)

/-- A loop in which some items decide what a state shows: what it shows after the loop
is decided by the last of these items. -/
theorem foldl_shows {Shown : Type w} (shows : State → Shown) {iteration : State → Item → State}
    {decides : Item → Bool} {value : Item → Shown} (items : List Item) (state : State) (holds : State → Prop)
    (starts : holds state) (keeps : ∀ item ∈ items, ∀ before, holds before → holds (iteration before item))
    (each : ∀ item ∈ items, ∀ before, holds before →
      shows (iteration before item) = if decides item then value item else shows before) :
    shows (items.foldl iteration state) =
      ((items.filter decides).getLast?.map value).getD (shows state) := by
  induction items generalizing state with
  | nil => rfl
  | cons item rest ih =>
    have next := keeps item List.mem_cons_self state starts
    have here := each item List.mem_cons_self state starts
    rw [List.foldl_cons, ih _ next
      (fun other member => keeps other (List.mem_cons_of_mem item member))
      (fun other member => each other (List.mem_cons_of_mem item member)), here, List.filter_cons]
    split_ifs with decided
    · rw [List.getLast?_cons, Option.map_some, Option.getD_some]
      cases (rest.filter decides).getLast? with
      | none => rfl
      | some last => rfl
    · rfl

/-- A loop that runs while a condition holds. -/
def loopWhile (measure : State → Nat) (guard : State → Prop) [DecidablePred guard] (body : State → State)
    (decreases : ∀ state, guard state → measure (body state) < measure state) (state : State) : State :=
  if _holds : guard state then loopWhile measure guard body decreases (body state) else state
termination_by measure state
decreasing_by exact decreases state _holds

/-- What every iteration keeps holds after the loop, where the condition fails. -/
theorem loopWhile_rule {measure : State → Nat} {guard : State → Prop} [DecidablePred guard] {body : State → State}
    {decreases : ∀ state, guard state → measure (body state) < measure state} {invariant : State → Prop}
    (keeps : ∀ state, invariant state → guard state → invariant (body state)) (state : State)
    (starts : invariant state) :
    invariant (loopWhile measure guard body decreases state) ∧
      ¬ guard (loopWhile measure guard body decreases state) := by
  fun_induction loopWhile measure guard body decreases state with
  | case1 state holds ih => exact ih (keeps state starts holds)
  | case2 state fails => exact ⟨starts, fails⟩

/-- A change that sets the covered cells to a value, and no others. -/
def Paints {Cell : Type u} {Value : Type w} (covers : Cell → Prop) (value : Value) (before after : Cell → Value) :
    Prop :=
  ∀ cell, (covers cell → after cell = value) ∧ (¬ covers cell → after cell = before cell)

section Paints

variable {Cell : Type u} {Value : Type w} {value : Value} {first second : Cell → Prop}
  {before between after : Cell → Value}

/-- The covered cells in other words. -/
theorem Paints.congr (paints : Paints first value before after) (same : ∀ cell, second cell ↔ first cell) :
    Paints second value before after := by
  intro cell
  rw [same]
  exact paints cell

/-- One change after another. -/
theorem Paints.trans (paints : Paints first value before between) (later : Paints second value between after) :
    Paints (fun cell => first cell ∨ second cell) value before after := by
  intro cell
  obtain ⟨painted, kept⟩ := paints cell
  obtain ⟨paintedLater, keptLater⟩ := later cell
  constructor
  · intro covered
    by_cases here : second cell
    · exact paintedLater here
    · rw [keptLater here]
      exact painted (covered.resolve_right here)
  · intro uncovered
    rw [not_or] at uncovered
    rw [keptLater uncovered.2, kept uncovered.1]

/-- Changes that set the same cells to the same value have one result. -/
theorem Paints.unique (paints : Paints first value before between) (other : Paints first value before after) :
    between = after := by
  funext cell
  by_cases covered : first cell
  · rw [(paints cell).1 covered, (other cell).1 covered]
  · rw [(paints cell).2 covered, (other cell).2 covered]

/-- A change of one cell. -/
theorem update_paints [DecidableEq Cell] (cells : Cell → Value) (cell : Cell) (value : Value) :
    Paints (fun tested => tested = cell) value cells (Function.update cells cell value) := by
  intro tested
  constructor
  · rintro rfl
    exact Function.update_self _ _ _
  · exact fun different => Function.update_of_ne different _ _

/-- A loop whose iterations set the cells that they cover to one value. -/
theorem foldl_paints {iteration : (Cell → Value) → Item → Cell → Value} {covers : Item → Cell → Prop}
    (items : List Item) (cells : Cell → Value)
    (each : ∀ item ∈ items, ∀ state, Paints (covers item) value state (iteration state item)) :
    Paints (fun cell => ∃ item ∈ items, covers item cell) value cells (items.foldl iteration cells) := by
  induction items generalizing cells with
  | nil => exact fun cell => ⟨nofun, fun _ => rfl⟩
  | cons item rest ih =>
    have here := each item List.mem_cons_self cells
    have later := ih (iteration cells item) fun other member =>
      each other (List.mem_cons_of_mem item member)
    refine (here.trans later).congr fun cell => ?_
    simp only [List.mem_cons, exists_eq_or_imp]

end Paints

/-- A loop whose iterations change one cell each, all of them different ones: each of these cells
is changed once, and the others are kept. -/
theorem foldl_modify {Cell : Type u} {Value : Type w} [DecidableEq Cell] {place : Item → Cell}
    {change : Item → Value → Value} (items : List Item)
    (apart : items.Pairwise fun first second => place first ≠ place second) (cells : Cell → Value) :
    (∀ item ∈ items, items.foldl (fun cells item =>
      Function.update cells (place item) (change item (cells (place item)))) cells (place item) =
        change item (cells (place item))) ∧
    ∀ cell, (∀ item ∈ items, place item ≠ cell) → items.foldl (fun cells item =>
      Function.update cells (place item) (change item (cells (place item)))) cells cell = cells cell := by
  induction items generalizing cells with
  | nil => exact ⟨fun _ inside => absurd inside List.not_mem_nil, fun _ _ => rfl⟩
  | cons first later ih =>
    obtain ⟨firstApart, laterApart⟩ := List.pairwise_cons.mp apart
    obtain ⟨changed, kept⟩ := ih laterApart
      (Function.update cells (place first) (change first (cells (place first))))
    simp only [List.foldl_cons]
    refine ⟨fun item inside => ?_, fun cell untouched => ?_⟩
    · rcases List.mem_cons.mp inside with rfl | inLater
      · rw [kept _ fun other inLater => (firstApart other inLater).symm, Function.update_self]
      · rw [changed item inLater, Function.update_of_ne (firstApart item inLater).symm]
    · rw [kept cell fun item inLater => untouched item (List.mem_cons_of_mem first inLater),
        Function.update_of_ne (untouched first List.mem_cons_self).symm]

end Asym.Folds
