import Mathlib.Logic.Function.Basic
import Mathlib.Tactic.Common

/-!
# Writes through a placement

Values are written at consecutive positions. A placement says which cell lies behind a
position, if any; a write at a position without a cell has no result. Two positions may share a
cell, and then the later write counts. Where the positions of a write have cells of their own,
each cell holds its value afterwards, and no other cell has changed.
-/

namespace Asym.PlacedWrites

universe u v
variable {Cell : Type u} {Value : Type v}

/-- The positions from one on, up to a number of them, have cells of their own. -/
structure Placed (place : Nat → Option Cell) (cell : Nat → Cell) (start count : Nat) : Prop where
  placed : ∀ position, start ≤ position → position < start + count → place position = some (cell position)
  apart : ∀ first second, start ≤ first → first < start + count → start ≤ second → second < start + count →
    cell first = cell second → first = second

/-- Fewer positions. -/
theorem Placed.part {place : Nat → Option Cell} {cell : Nat → Cell} {start count : Nat}
    (placed : Placed place cell start count) {position fewer : Nat} (low : start ≤ position)
    (high : position + fewer ≤ start + count) : Placed place cell position fewer := by
  refine ⟨fun position above below => placed.placed position (by omega) (by omega), ?_⟩
  intro first second aboveFirst belowFirst aboveSecond belowSecond
  exact placed.apart first second (by omega) (by omega) (by omega) (by omega)

variable [DecidableEq Cell]

/-- Write values at the positions from one on. -/
def write (place : Nat → Option Cell) : (Cell → Value) → Nat → List Value → Option (Cell → Value)
  | cells, _, [] => some cells
  | cells, start, value :: rest =>
      (place start).bind fun cell => write place (Function.update cells cell value) (start + 1) rest

/-- A write at positions with cells of their own succeeds. Each of their cells holds its value,
and the others are as before. -/
theorem write_exact {place : Nat → Option Cell} {cell : Nat → Cell} (cells : Cell → Value) {start : Nat}
    (values : List Value) (placed : Placed place cell start values.length) :
    ∃ after, write place cells start values = some after ∧
      (∀ offset, ∀ (inside : offset < values.length), after (cell (start + offset)) = values[offset]) ∧
      ∀ tested, (∀ offset < values.length, tested ≠ cell (start + offset)) → after tested = cells tested := by
  induction values generalizing cells start with
  | nil => exact ⟨cells, rfl, fun _ inside => absurd inside (Nat.not_lt_zero _), fun _ _ => rfl⟩
  | cons value rest ih =>
    rw [List.length_cons] at placed
    have here := placed.placed start (Nat.le_refl start) (by omega)
    obtain ⟨after, written, holds, others⟩ := ih
      (Function.update cells (cell start) value) (placed.part (Nat.le_add_right start 1) (by omega))
    refine ⟨after, by rw [write, here, Option.bind_some, written], fun offset inside => ?_, fun tested outside => ?_⟩
    · cases offset with
      | zero =>
        have kept := others (cell start) fun offset later same => by
          have equal := placed.apart start (start + 1 + offset) (by omega) (by omega) (by omega) (by omega) same
          omega
        rw [Nat.add_zero, kept, Function.update_self]
        rfl
      | succ offset =>
        rw [List.length_cons] at inside
        have held := holds offset (by omega)
        rw [Nat.add_assoc, Nat.add_comm 1 offset] at held
        rw [held]
        rfl
    · have first : tested ≠ cell start := outside 0 (by simp)
      rw [others tested fun offset later => ?_, Function.update_of_ne first]
      rw [Nat.add_assoc, Nat.add_comm 1 offset]
      exact outside (offset + 1) (by rw [List.length_cons]; omega)

end Asym.PlacedWrites
