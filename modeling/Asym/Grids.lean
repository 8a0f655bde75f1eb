import Asym.Folds
import Mathlib.Logic.Function.Basic
import Mathlib.Tactic.Linarith

/-!
# Copies between grids

A grid is an array of cells in rows of one length, its stride: the cell in a column
and a row stands at the column plus the row times the stride. A copy is a number of
rows of one width, each copied in one piece. If the rows lie between the ends of the
rows of the grid, a copy changes exactly the cells of a rectangle.
-/

namespace Asym.Grids

universe u
variable {Value : Type u}

/-- Where a cell stands. -/
def cell (stride column row : Int) : Int :=
  column + row * stride

/-- Copy consecutive cells. -/
def copyRow (target source : Int → Value) (targetStart sourceStart width : Int) : Int → Value :=
  fun index =>
    if targetStart ≤ index ∧ index < targetStart + width then source (sourceStart + (index - targetStart))
    else target index

/-- Copy rows in turn, each from and to a start of its own. -/
def copyRows (target source : Int → Value) (targetStart sourceStart : Int → Int) (width : Int) :
    Nat → Int → Value
  | 0 => target
  | rows + 1 =>
      copyRow (copyRows target source targetStart sourceStart width rows) source (targetStart rows)
        (sourceStart rows) width

/-- The cells of a grid lie between its first and its last. -/
theorem cell_inside (stride height : Int) {column row : Int} (columnBegins : 0 ≤ column)
    (columnEnds : column < stride) (rowBegins : 0 ≤ row) (rowEnds : row < height) :
    0 ≤ cell stride column row ∧ cell stride column row < height * stride := by
  have start : 0 ≤ row * stride := Int.mul_nonneg rowBegins (by omega)
  have below : (row + 1) * stride ≤ height * stride := Int.mul_le_mul_of_nonneg_right (by omega) (by omega)
  rw [Int.add_mul, Int.one_mul] at below
  rw [cell]
  omega

/-- A cell lies in a piece of a row exactly if it is in the row and in its columns. -/
theorem cell_between_iff {stride left width column row tested : Int} (begins : 0 ≤ left)
    (ends : left + width ≤ stride) (columnBegins : 0 ≤ column) (columnEnds : column < stride) :
    cell stride left tested ≤ cell stride column row ∧
        cell stride column row < cell stride left tested + width ↔
      row = tested ∧ left ≤ column ∧ column < left + width := by
  rw [cell, cell]
  constructor
  · intro ⟨low, high⟩
    have same : row = tested := by
      -- Otherwise the cell is a whole row away, and no piece of a row is that long.
      rcases Int.lt_trichotomy row tested with below | same | above
      · have away : (row + 1) * stride ≤ tested * stride :=
          Int.mul_le_mul_of_nonneg_right below (by omega)
        rw [Int.add_mul] at away
        omega
      · exact same
      · have away : (tested + 1) * stride ≤ row * stride :=
          Int.mul_le_mul_of_nonneg_right above (by omega)
        rw [Int.add_mul] at away
        omega
    subst same
    omega
  · rintro ⟨rfl, low, high⟩
    omega

/-- A copy of rows, cell by cell. -/
theorem copyRows_cell (target source : Int → Value) (sourceStart : Int → Int)
    {stride left width column : Int} (top row : Int) (rows : Nat) (begins : 0 ≤ left)
    (ends : left + width ≤ stride) (columnBegins : 0 ≤ column) (columnEnds : column < stride) :
    copyRows target source (fun line => cell stride left (line + top)) sourceStart width rows
        (cell stride column row) =
      if left ≤ column ∧ column < left + width ∧ top ≤ row ∧ row < top + rows then
        source (sourceStart (row - top) + (column - left))
      else target (cell stride column row) := by
  induction rows with
  | zero =>
    rw [copyRows, if_neg (by omega)]
  | succ rows ih =>
    have between := @cell_between_iff stride left width column row (rows + top) begins ends
      columnBegins columnEnds
    rw [copyRows, copyRow]
    by_cases here : row = rows + top ∧ left ≤ column ∧ column < left + width
    · rw [if_pos (between.mpr here), if_pos (by omega)]
      obtain ⟨rfl, _⟩ := here
      have distance : cell stride column (rows + top) - cell stride left (rows + top) = column - left := by
        rw [cell, cell]
        omega
      rw [distance, Int.add_sub_cancel]
    · rw [if_neg (fun inside => here (between.mp inside)), ih]
      by_cases earlier : left ≤ column ∧ column < left + width ∧ top ≤ row ∧ row < top + rows
      · rw [if_pos earlier, if_pos (by omega)]
      · rw [if_neg earlier, if_neg (by omega)]

/-- Rows that are moved up in place, the first one first, get what stood below them: a row is read
before it is written. -/
theorem moveRows_cell (buffer : Int → Value) {stride left width column : Int} (top row : Int) (offset rows : Nat)
    (begins : 0 ≤ left) (ends : left + width ≤ stride) (columnBegins : 0 ≤ column) (columnEnds : column < stride) :
    (List.range rows).foldl (fun buffer (line : Nat) => copyRow buffer buffer (cell stride left (top + line))
        (cell stride left (top + line + offset)) width) buffer (cell stride column row) =
      if left ≤ column ∧ column < left + width ∧ top ≤ row ∧ row < top + rows then
        buffer (cell stride column (row + offset))
      else buffer (cell stride column row) := by
  induction rows generalizing row with
  | zero =>
    rw [List.range_zero, List.foldl_nil, if_neg (by omega)]
  | succ rows ih =>
    have between := @cell_between_iff stride left width column row (top + rows) begins ends columnBegins columnEnds
    rw [List.range_succ, List.foldl_append, List.foldl_cons, List.foldl_nil, copyRow]
    by_cases here : row = top + rows ∧ left ≤ column ∧ column < left + width
    · have distance : cell stride left (row + offset) + (cell stride column row - cell stride left row) =
          cell stride column (row + offset) := by
        simp only [cell, Int.add_mul]
        omega
      rw [if_pos (between.mpr here), ← here.1, distance, ih, if_neg (by omega), if_pos (by omega)]
    · rw [if_neg (fun inside => here (between.mp inside)), ih]
      by_cases earlier : left ≤ column ∧ column < left + width ∧ top ≤ row ∧ row < top + rows
      · rw [if_pos earlier, if_pos (by omega)]
      · rw [if_neg earlier, if_neg (by omega)]

/-- Rows without a width copy nothing. -/
theorem copyRows_of_narrow (target source : Int → Value) (targetStart sourceStart : Int → Int) {width : Int}
    (narrow : width ≤ 0) (rows : Nat) : copyRows target source targetStart sourceStart width rows = target := by
  induction rows with
  | zero => rfl
  | succ rows ih =>
    funext index
    rw [copyRows, copyRow, if_neg (by omega), ih]

/-- Two cells of the grid stand at one place only if they are the same. -/
theorem cell_inj {stride column row other tested : Int} (begins : 0 ≤ column) (ends : column < stride)
    (otherBegins : 0 ≤ other) (otherEnds : other < stride) (same : cell stride column row = cell stride other tested) :
    column = other ∧ row = tested := by
  have between := (@cell_between_iff stride other 1 column row tested otherBegins (by omega) begins ends).mp
    ⟨by omega, by omega⟩
  omega

/-- Only cells at certain places change. -/
def Confined (inside : Int → Prop) (before after : Int → Value) : Prop :=
  ∀ index, ¬ inside index → after index = before index

instance (inside : Int → Prop) : IsPreorder (Int → Value) (Confined inside) where
  refl _ _ _ := rfl
  trans _ _ _ first second index outside := (second index outside).trans (first index outside)

/-- Changes that are confined to some places are confined to more. -/
theorem Confined.mono {inside larger : Int → Prop} {before after : Int → Value}
    (confined : Confined inside before after) (enough : ∀ index, inside index → larger index) :
    Confined larger before after :=
  fun index outside => confined index (mt (enough index) outside)

/-- A change of one cell. -/
theorem confined_update {inside : Int → Prop} (buffer : Int → Value) {index : Int} (here : inside index)
    (value : Value) : Confined inside buffer (Function.update buffer index value) := by
  intro other outside
  refine Function.update_of_ne ?_ value buffer
  rintro rfl
  exact outside here

/-- A copy of consecutive cells. -/
theorem confined_copyRow {inside : Int → Prop} (target source : Int → Value) {targetStart width : Int}
    (sourceStart : Int) (here : ∀ index, targetStart ≤ index → index < targetStart + width → inside index) :
    Confined inside target (copyRow target source targetStart sourceStart width) := by
  intro index outside
  rw [copyRow, if_neg fun between => outside (here index between.1 between.2)]

/-- A copy of rows. -/
theorem confined_copyRows {inside : Int → Prop} (target source : Int → Value) {targetStart : Int → Int} {width : Int}
    (sourceStart : Int → Int) {rows : Nat}
    (here : ∀ row < rows, ∀ index, targetStart row ≤ index → index < targetStart row + width → inside index) :
    Confined inside target (copyRows target source targetStart sourceStart width rows) := by
  induction rows with
  | zero => exact refl_of _ _
  | succ rows ih =>
    have earlier := ih fun row later => here row (Nat.lt_succ_of_lt later)
    exact trans_of _ earlier (confined_copyRow _ source _ (here rows (Nat.lt_succ_self rows)))

/-- Rows that start at multiples of a stride from the first one, counted modulo a number,
all end inside a limit exactly if the last one does without counting modulo: a step that is
short of the modulus by the limit does not wrap from inside. -/
theorem wrapped_rows_iff {modulus first stride width limit rows : Nat} (small : limit + stride ≤ modulus)
    (started : first < modulus) (wide : 0 < width) :
    (∀ row < rows, (first + row * stride) % modulus + width ≤ limit) ↔
      rows = 0 ∨ first + (rows - 1) * stride + width ≤ limit := by
  constructor
  · intro each
    -- From inside the limit, the next row does not wrap.
    have unwrapped (row : Nat) (inside : row < rows) : (first + row * stride) % modulus = first + row * stride := by
      induction row with
      | zero => rw [Nat.zero_mul, Nat.add_zero, Nat.mod_eq_of_lt started]
      | succ row ih =>
        have earlier : row < rows := Nat.lt_of_succ_lt inside
        have fits := each row earlier
        rw [ih earlier] at fits
        rw [Nat.succ_mul]
        exact Nat.mod_eq_of_lt (by omega)
    rcases Nat.eq_zero_or_pos rows with none | positive
    · exact .inl none
    · have last := each (rows - 1) (Nat.sub_one_lt_of_lt positive)
      rw [unwrapped _ (Nat.sub_one_lt_of_lt positive)] at last
      exact .inr last
  · rintro (rfl | fits) row inside
    · exact absurd inside (Nat.not_lt_zero row)
    · have before : row * stride ≤ (rows - 1) * stride := Nat.mul_le_mul_right stride (by omega)
      rw [Nat.mod_eq_of_lt (by omega)]
      omega

end Asym.Grids
