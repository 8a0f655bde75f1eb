import Mathlib.Algebra.Group.Nat.Defs
import Mathlib.Tactic.Common

/-!
# Unsigned 64-bit arithmetic and page rounding

The kernel computes addresses, lengths and counters in `uint64_t`, so sums,
differences and products wrap at `2 ^ 64`. The rounding macros of `sys/math.h`
and the page macros of `sys/proc.h` are written over that arithmetic: rounding
up can wrap to zero near the top of the range, and no caller is protected from
it here.
-/

namespace Asym.MachineWords

/-- Number of values of a `uint64_t`. -/
def wordSize : Nat := 2 ^ 64

/-- `PAGE_SIZE`. -/
def pageSize : Nat := 0x1000

/-- Sum in `uint64_t`. -/
def add (left right : Nat) : Nat := (left + right) % wordSize

/-- Difference in `uint64_t` of values below `2 ^ 64`. -/
def sub (left right : Nat) : Nat := (left + wordSize - right) % wordSize

/-- Product in `uint64_t`. -/
def mul (left right : Nat) : Nat := (left * right) % wordSize

/-- `ROUND_UP`: the sum `number + multiple - 1` wraps; the final product is at
most that sum and does not. -/
def roundUp (number multiple : Nat) : Nat := sub (add number multiple) 1 / multiple * multiple

/-- `ROUND_DOWN`. -/
def roundDown (number multiple : Nat) : Nat := number / multiple * multiple

/-- `SIZE_IN_PAGES`: the sum `size + PAGE_SIZE - 1` wraps. -/
def sizeInPages (size : Nat) : Nat := sub (add size pageSize) 1 / pageSize

/-- A wrapped sum of values that fit is the sum itself. -/
theorem add_of_lt (left right : Nat) (fits : left + right < wordSize) :
    add left right = left + right :=
  Nat.mod_eq_of_lt fits

/-- A wrapped difference that stays nonnegative is the difference itself. -/
theorem sub_of_le (left right : Nat) (ordered : right ≤ left) (fits : left < wordSize) :
    sub left right = left - right := by
  simp only [sub, wordSize] at *
  omega

/-- Every wrapped sum is a machine word. -/
theorem add_lt (left right : Nat) : add left right < wordSize :=
  Nat.mod_lt _ (by decide)

end Asym.MachineWords
