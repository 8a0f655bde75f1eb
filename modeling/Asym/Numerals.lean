import Mathlib.Data.Nat.Digits.Lemmas

/-!
# Numerals

The digits of a number in a base, the most significant one first. Zero has one digit, and no other
number starts with a zero. A number that is divided by the base loses its last digit, so the digits
come out from the last one on.
-/

namespace Asym.Numerals

/-- The digits of a number. -/
def numeral (base number : Nat) : List Nat := if number = 0 then [0] else (Nat.digits base number).reverse

/-- Digits below the base without a leading zero, except zero itself, that have a number as their
value. -/
structure IsNumeral (base number : Nat) (digits : List Nat) : Prop where
  some_ : digits ≠ []
  below : ∀ digit ∈ digits, digit < base
  leading : digits.head? = some 0 → digits = [0]
  value : Nat.ofDigits base digits.reverse = number

variable {base number : Nat}

/-- The digits of a number that is divided by the base, and the last digit. -/
theorem numeral_step (many : 1 < base) (number : Nat) :
    numeral base number = (if number / base = 0 then [] else numeral base (number / base)) ++ [number % base] := by
  rcases Nat.eq_zero_or_pos number with rfl | positive
  · rw [Nat.zero_div, if_pos rfl, Nat.zero_mod]
    rfl
  · rw [numeral, if_neg (Nat.ne_of_gt positive), Nat.digits_def' many positive, List.reverse_cons]
    split_ifs with done
    · rw [done, Nat.digits_zero]
      rfl
    · rw [numeral, if_neg done]

/-- The digits of a number are a numeral. -/
theorem numeral_isNumeral (many : 1 < base) (number : Nat) : IsNumeral base number (numeral base number) := by
  rw [numeral]
  split_ifs with zero
  · subst zero
    refine ⟨List.cons_ne_nil _ _, fun digit member => ?_, fun _ => rfl, rfl⟩
    rw [List.mem_singleton.mp member]
    exact Nat.zero_lt_of_lt many
  · have some_ : Nat.digits base number ≠ [] := Nat.digits_ne_nil_iff_ne_zero.mpr zero
    refine ⟨mt List.reverse_eq_nil_iff.mp some_, fun digit member => ?_, fun leading => ?_, ?_⟩
    · exact Nat.digits_lt_base many (List.mem_reverse.mp member)
    · rw [List.head?_reverse, List.getLast?_eq_some_getLast some_] at leading
      exact absurd (Option.some.inj leading) (Nat.getLast_digit_ne_zero base zero)
    · rw [List.reverse_reverse, Nat.ofDigits_digits]

/-- A number that is divided by the base is below a power less, and there is one unless nothing is
left of the number. -/
theorem div_fits {digits : Nat} (fits : number < base ^ (digits + 1)) (more : number / base ≠ 0) :
    0 < digits ∧ number / base < base ^ digits := by
  have smaller : number / base < base ^ digits := Nat.div_lt_of_lt_mul (by rwa [← Nat.pow_succ'])
  refine ⟨Nat.pos_of_ne_zero fun none => ?_, smaller⟩
  rw [none, Nat.pow_zero] at smaller
  exact more (Nat.lt_one_iff.mp smaller)

end Asym.Numerals
