import Mathlib.Data.List.GetD
import Mathlib.Tactic.Common

/-!
# Windows of cells on a cycle

Cells are indexed by natural numbers and used modulo a bound. A window is a
number of consecutive cells from a start, read around the bound. A copy into
consecutive cells is done in one piece, or in two when it passes the bound; it
extends the window that ends where the copy starts. Reading a window in one or
two pieces gives its values, and cutting values off its front gives the window
that starts later.
-/

namespace Asym.CyclicWindows

universe u
variable {Value : Type u}

/-- Copy values into consecutive cells from an index on. -/
def place (cells : Nat → Value) (index : Nat) (values : List Value) : Nat → Value := fun tested =>
  if tested < index then cells tested else (values[tested - index]?).getD (cells tested)

/-- The values of consecutive cells from an index on. -/
def slice (cells : Nat → Value) (index count : Nat) : List Value :=
  (List.range count).map fun position => cells (index + position)

/-- Copy values around the bound, in two pieces when they reach it. -/
def placeAround (bound : Nat) (cells : Nat → Value) (index : Nat) (values : List Value) :
    Nat → Value :=
  if values.length < bound - index then place cells index values
  else place (place cells index (values.take (bound - index))) 0 (values.drop (bound - index))

/-- Read values around the bound, in two pieces when they reach it. -/
def sliceAround (bound : Nat) (cells : Nat → Value) (index count : Nat) : List Value :=
  if count < bound - index then slice cells index count
  else slice cells index (bound - index) ++ slice cells 0 (count - (bound - index))

/-- The values of a window. -/
def window (bound : Nat) (cells : Nat → Value) (start count : Nat) : List Value :=
  (List.range count).map fun position => cells ((start + position) % bound)

/-- A sum of two positions wraps at most once. -/
theorem wrap_eq (bound sum : Nat) (once : sum < bound + bound) :
    sum % bound = if sum < bound then sum else sum - bound := by
  split_ifs with small
  · exact Nat.mod_eq_of_lt small
  · rw [Nat.mod_eq_sub_mod (by omega)]
    exact Nat.mod_eq_of_lt (by omega)

/-- Length of a window. -/
@[simp] theorem window_length (bound : Nat) (cells : Nat → Value) (start count : Nat) :
    (window bound cells start count).length = count := by
  simp [window]

/-- A window in two parts. -/
theorem window_add (bound : Nat) (cells : Nat → Value) (start first second : Nat) :
    window bound cells start (first + second) =
      window bound cells start first ++ window bound cells ((start + first) % bound) second := by
  have shifted : ∀ position, cells ((start + (first + position)) % bound) =
      cells (((start + first) % bound + position) % bound) := by
    intro position
    rw [Nat.mod_add_mod, Nat.add_assoc]
  simp only [window, List.range_add, List.map_append, List.map_map, Function.comp_def, shifted]

/-- Length of a slice. -/
@[simp] theorem slice_length (cells : Nat → Value) (index count : Nat) : (slice cells index count).length = count := by
  simp [slice]

/-- A slice in two parts. -/
theorem slice_add (cells : Nat → Value) (index first second : Nat) :
    slice cells index (first + second) = slice cells index first ++ slice cells (index + first) second := by
  simp only [slice, List.range_add, List.map_append, List.map_map, Function.comp_def, Nat.add_assoc]

/-- A slice depends on its cells. -/
theorem slice_congr {cells others : Nat → Value} {index start count : Nat}
    (same : ∀ position < count, cells (index + position) = others (start + position)) :
    slice cells index count = slice others start count :=
  List.map_congr_left fun position member => same position (List.mem_range.mp member)

/-- A window depends on the cells below its bound. -/
theorem window_congr {bound : Nat} {cells others : Nat → Value} (positive : 0 < bound)
    (same : ∀ index < bound, cells index = others index) (start count : Nat) :
    window bound cells start count = window bound others start count :=
  List.map_congr_left fun _ _ => same _ (Nat.mod_lt _ positive)

/-- A copy of a slice, cell by cell. -/
theorem place_slice (cells others : Nat → Value) (index start count tested : Nat) :
    place cells index (slice others start count) tested =
      if index ≤ tested ∧ tested < index + count then others (start + (tested - index)) else cells tested := by
  rw [place, slice, List.getElem?_map]
  rcases Nat.lt_or_ge tested index with before | behind
  · rw [if_pos before, if_neg (by omega)]
  · rw [if_neg (Nat.not_lt_of_le behind)]
    split_ifs with inside
    · rw [List.getElem?_range (by omega)]
      rfl
    · rw [List.getElem?_eq_none (by rw [List.length_range]; omega)]
      rfl

/-- Reading a window in pieces. -/
theorem sliceAround_eq (bound : Nat) (cells : Nat → Value) (start count : Nat)
    (inside : start < bound) (short : count ≤ bound) :
    sliceAround bound cells start count = window bound cells start count := by
  have plain : ∀ amount, amount ≤ bound - start →
      slice cells start amount = window bound cells start amount := by
    intro amount fits
    apply List.map_congr_left
    intro position member
    have small := List.mem_range.mp member
    rw [Nat.mod_eq_of_lt (by omega)]
  rw [sliceAround]
  split_ifs with direct
  · exact plain count (by omega)
  · have total : count = (bound - start) + (count - (bound - start)) := by omega
    have back : (start + (bound - start)) % bound = 0 := by
      rw [Nat.add_sub_cancel' (by omega), Nat.mod_self]
    conv_rhs => rw [total, window_add, back]
    rw [plain _ (Nat.le_refl _)]
    congr 1
    apply List.map_congr_left
    intro position member
    have small := List.mem_range.mp member
    rw [Nat.mod_eq_of_lt (by omega)]

/-- A copy around the bound, cell by cell: the cell at a distance from the start
of the copy gets the value at this distance, if there is one. -/
theorem placeAround_at (bound : Nat) (cells : Nat → Value) (index : Nat) (values : List Value)
    (tested : Nat) (inside : index < bound) (short : values.length ≤ bound)
    (within : tested < bound) :
    placeAround bound cells index values tested =
      (values[(bound - index + tested) % bound]?).getD (cells tested) := by
  have distance := wrap_eq bound (bound - index + tested) (by omega)
  rw [placeAround]
  split_ifs with direct
  · rw [place, distance]
    by_cases before : tested < index
    · rw [if_pos before, if_pos (by omega), List.getElem?_eq_none (by omega), Option.getD_none]
    · rw [if_neg before, if_neg (by omega)]
      have same : bound - index + tested - bound = tested - index := by omega
      rw [same]
  · rw [place, if_neg (by omega), Nat.sub_zero, List.getElem?_drop, place, distance]
    by_cases before : tested < index
    · rw [if_pos before, if_pos (by omega)]
    · rw [if_neg before, if_neg (by omega), List.getElem?_eq_none (by omega), Option.getD_none,
        List.getElem?_take_of_lt (by omega)]
      have same : bound - index + tested - bound = tested - index := by omega
      rw [same]

/-- A copy to the end of a window extends the window. -/
theorem window_placeAround (bound : Nat) (cells : Nat → Value) (start count : Nat)
    (values : List Value) (inside : start < bound) (room : count + values.length ≤ bound) :
    window bound (placeAround bound cells ((start + count) % bound) values) start
        (count + values.length) =
      window bound cells start count ++ values := by
  have positive : 0 < bound := by omega
  have last := wrap_eq bound (start + count) (by omega)
  apply List.ext_getElem?
  intro position
  rcases Nat.lt_or_ge position (count + values.length) with inWindow | beyond
  · have here := wrap_eq bound (start + position) (by omega)
    have cell : (window bound (placeAround bound cells ((start + count) % bound) values) start
        (count + values.length))[position]? =
        some (placeAround bound cells ((start + count) % bound) values
          ((start + position) % bound)) := by
      simp [window, inWindow]
    rw [cell, placeAround_at bound cells _ values _ (Nat.mod_lt _ positive) (by omega)
      (Nat.mod_lt _ positive)]
    have distance := wrap_eq bound
      (bound - (start + count) % bound + (start + position) % bound)
      (by have := Nat.mod_lt (start + position) positive; omega)
    rcases Nat.lt_or_ge position count with old | new
    · have far : values.length ≤
          (bound - (start + count) % bound + (start + position) % bound) % bound := by
        rw [distance, last, here]
        split_ifs <;> omega
      rw [List.getElem?_eq_none far, Option.getD_none, List.getElem?_append_left (by simpa using old)]
      simp [window, old]
    · have near : (bound - (start + count) % bound + (start + position) % bound) % bound =
          position - count := by
        rw [distance, last, here]
        split_ifs <;> omega
      have member : position - count < values.length := by omega
      rw [near, List.getElem?_append_right (by simpa using new), window_length,
        List.getElem?_eq_getElem member, Option.getD_some]
  · rw [List.getElem?_eq_none (by simpa using beyond), List.getElem?_eq_none (by simpa using beyond)]

end Asym.CyclicWindows
