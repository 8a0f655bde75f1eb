import Mathlib.Tactic.Common

/-!
# Masks that nest

A flag that is cleared by every one of several nested sections, and that is to be what it was
when the outermost is left. Each section could keep the flag that it found. A counter of open
sections and one slot are enough: inside of a section the flag is cleared, so only the outermost
can have found it set.

Nothing here says what the flag is for.
-/

namespace Asym.NestedMasks

/-- A counter of open sections, and the flag that the outermost found. -/
structure Mask where
  count : Nat
  saved : Bool
  deriving DecidableEq, Repr

/-- A section is opened. -/
def Mask.push (mask : Mask) (flag : Bool) : Mask :=
  ⟨mask.count + 1, if mask.count = 0 then flag else mask.saved⟩

/-- A section is left. -/
def Mask.pop (mask : Mask) : Mask := ⟨mask.count - 1, mask.saved⟩

/-- A mask stands for the flags that the open sections found, innermost first: the last of them is
in the slot, and the others are cleared. -/
def Mask.Holds (mask : Mask) (found : List Bool) : Prop :=
  mask.count = found.length ∧ (found ≠ [] → found = List.replicate (mask.count - 1) false ++ [mask.saved])

/-- A mask without open sections may have anything in its slot. -/
theorem holds_nil (saved : Bool) : (Mask.mk 0 saved).Holds [] :=
  ⟨rfl, fun some_ => absurd rfl some_⟩

/-- There are open sections as long as the counter is not zero. -/
theorem Mask.Holds.count_eq_zero {mask : Mask} {found : List Bool} (holds : mask.Holds found) :
    mask.count = 0 ↔ found = [] := by
  rw [holds.1, List.length_eq_zero_iff]

/-- A section that is opened finds the flag. Inside of another it finds it cleared. -/
theorem Mask.Holds.push {mask : Mask} {found : List Bool} (holds : mask.Holds found) {flag : Bool}
    (cleared : found ≠ [] → flag = false) : (mask.push flag).Holds (flag :: found) := by
  refine ⟨congrArg (· + 1) holds.1, fun _ => ?_⟩
  by_cases outermost : found = []
  · have none_ := holds.count_eq_zero.mpr outermost
    simp only [Mask.push, none_, if_true, outermost, Nat.zero_add, Nat.sub_self, List.replicate_zero, List.nil_append]
  · have some_ := mt holds.count_eq_zero.mp outermost
    obtain ⟨rest, counted⟩ := Nat.exists_eq_succ_of_ne_zero some_
    have earlier := holds.2 outermost
    rw [cleared outermost]
    simp only [Mask.push, if_neg some_, Nat.add_sub_cancel]
    rw [earlier, counted, Nat.succ_sub_one, List.replicate_succ, List.cons_append]

/-- A section that is left is the innermost. It found the flag set exactly if it is the outermost
as well, and the slot says so. -/
theorem Mask.Holds.pop {mask : Mask} {flag : Bool} {found : List Bool} (holds : mask.Holds (flag :: found)) :
    mask.count ≠ 0 ∧ mask.pop.Holds found ∧ flag = (decide (mask.pop.count = 0) && mask.saved) := by
  have counted : mask.count = found.length + 1 := holds.1
  have listed := holds.2 (List.cons_ne_nil _ _)
  rw [counted, Nat.add_sub_cancel] at listed
  refine ⟨by omega, ⟨by simp only [Mask.pop, counted, Nat.add_sub_cancel], ?_⟩, ?_⟩
  · intro some_
    obtain ⟨rest, length⟩ := Nat.exists_eq_succ_of_ne_zero (mt List.length_eq_zero_iff.mp some_)
    rw [length, List.replicate_succ, List.cons_append] at listed
    simp only [Mask.pop, counted, length, Nat.succ_sub_one]
    exact (List.cons.inj listed).2
  · simp only [Mask.pop, counted, Nat.add_sub_cancel]
    cases found with
    | nil => exact (List.cons.inj listed).1
    | cons next rest =>
      rw [List.length_cons, List.replicate_succ, List.cons_append] at listed
      exact (List.cons.inj listed).1

end Asym.NestedMasks
