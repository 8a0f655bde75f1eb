import Mathlib.Logic.Function.Basic
import Mathlib.Tactic.Common

/-!
# Consecutive updates of a map on a cycle

A loop that visits consecutive keys modulo a bound and rewrites the value of
each one. The value written may depend on the position in the loop and on the
value found. A run that does not pass the bound has a closed form, and a key
that the run does not visit keeps its value in every case.
-/

namespace Asym.CyclicUpdates

universe u
variable {Value : Type u}

/-- Rewrite `count` consecutive keys modulo `bound`, from `key` on. -/
def rewrite (bound : Nat) (map : Nat → Value) (key : Nat) (change : Nat → Value → Value) :
    Nat → Nat → Value
  | 0 => map
  | count + 1 =>
      rewrite bound (Function.update map key (change 0 (map key))) ((key + 1) % bound)
        (fun position => change (position + 1)) count

/-- A key that is not visited keeps its value. -/
theorem rewrite_outside (bound : Nat) (map : Nat → Value) (key : Nat)
    (change : Nat → Value → Value) (count tested : Nat) (inside : key < bound)
    (avoided : ∀ position < count, tested ≠ (key + position) % bound) :
    rewrite bound map key change count tested = map tested := by
  induction count generalizing map key change with
  | zero => rfl
  | succ count ih =>
    have first : tested ≠ key := by simpa [Nat.mod_eq_of_lt inside] using avoided 0 (by omega)
    have rest : ∀ position < count, tested ≠ ((key + 1) % bound + position) % bound := by
      intro position small
      rw [Nat.mod_add_mod, Nat.add_assoc, Nat.add_comm 1 position]
      exact avoided (position + 1) (by omega)
    have next : (key + 1) % bound < bound := Nat.mod_lt _ (by omega)
    rw [rewrite, ih _ _ _ next rest, Function.update_of_ne first]

/-- What every change keeps of the values holds after any run. -/
theorem rewrite_all (bound : Nat) (map : Nat → Value) (key : Nat) (change : Nat → Value → Value)
    (count : Nat) (property : Nat → Value → Prop) (initial : ∀ tested, property tested (map tested))
    (kept : ∀ tested position value, property tested value → property tested (change position value))
    (tested : Nat) : property tested (rewrite bound map key change count tested) := by
  induction count generalizing map key change with
  | zero => exact initial tested
  | succ count ih =>
    rw [rewrite]
    refine ih _ _ _ ?_ fun other position => kept other (position + 1)
    intro other
    by_cases same : other = key
    · rw [same, Function.update_self]
      exact kept key 0 _ (initial key)
    · rw [Function.update_of_ne same]
      exact initial other

/-- A run that stays below the bound rewrites exactly its interval, each key
once. After the first key the run continues on the remaining interval; if it
has reached the bound, nothing remains. -/
theorem rewrite_interval (bound : Nat) (map : Nat → Value) (key : Nat)
    (change : Nat → Value → Value) (count tested : Nat) (inside : key + count ≤ bound) :
    rewrite bound map key change count tested =
      if key ≤ tested ∧ tested < key + count then change (tested - key) (map tested)
      else map tested := by
  induction count generalizing map key change with
  | zero => rw [rewrite, if_neg (by omega)]
  | succ count ih =>
    rw [rewrite]
    generalize updated : Function.update map key (change 0 (map key)) = next
    have rest : rewrite bound next ((key + 1) % bound) (fun position => change (position + 1))
        count tested = if key + 1 ≤ tested ∧ tested < key + 1 + count then
          change (tested - (key + 1) + 1) (next tested) else next tested := by
      rcases Nat.eq_zero_or_pos count with rfl | positive
      · rw [rewrite, if_neg (by omega)]
      · rw [Nat.mod_eq_of_lt (by omega), ih _ _ _ (by omega)]
    rw [rest, ← updated]
    by_cases same : tested = key
    · subst same
      rw [if_neg (by omega), if_pos (by omega), Function.update_self, Nat.sub_self]
    · rw [Function.update_of_ne same]
      by_cases here : key + 1 ≤ tested ∧ tested < key + 1 + count
      · rw [if_pos here, if_pos (by omega)]
        exact congrArg (fun position => change position (map tested)) (by omega)
      · rw [if_neg here, if_neg (by omega)]

end Asym.CyclicUpdates
