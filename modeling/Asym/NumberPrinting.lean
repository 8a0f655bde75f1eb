import Asym.LogLines
import Asym.Numerals
import Asym.WordCopies
import Mathlib.Data.List.GetD

/-!
# Printed numbers

`ulltoa` and `lltoa` count the digits of a number in a first loop, which leaves the place behind the
last digit, and write them in a second one, from there back to the first.

The two loops of `ulltoa` agree, so what it leaves is the numeral of the number. `lltoa` takes the
absolute value in the signed type, where the least number has none: its digits are then remainders
with the wrong sign, and every digit but zero is another character.
-/

namespace Asym.NumberPrinting

open ByteMemory CStrings MachineWords WordCopies Numerals LogLines

section Model

/-- A conversion to `uint64_t`. -/
def unsigned (value : Int) : Nat := (value % wordSize).toNat

/-- The first loop: the place behind the last digit. No result means too little fuel. -/
def countLoop (base : Nat) : Nat → Nat → Nat → Option Nat
  | 0, _, _ => none
  | fuel + 1, p, shifter =>
      let p := add p 1
      let shifter := shifter / base
      if shifter ≠ 0 then countLoop base fuel p shifter else some p

/-- The second loop, on a number of either type. The digit is converted to `uint8_t`. -/
def digitLoop (base : Int) : Nat → Machine → Nat → Int → Option Machine
  | 0, _, _, _ => none
  | fuel + 1, machine, p, i =>
      let digit := (i.tmod base % 256).toNat
      let p := sub p 1
      let machine := machine.put 1 p (digitChar digit).toNat
      let i := i.tdiv base
      if i ≠ 0 then digitLoop base fuel machine p i else some machine

/-- `ulltoa`: its result and the machine. The base is converted to the type of the number. -/
def ulltoa (fuel : Nat) (machine : Machine) (number : UInt64) (str : Nat) (base : Int) : Option (Nat × Machine) :=
  (countLoop (unsigned base) fuel str number.toNat).bind fun p =>
    (digitLoop (unsigned base) fuel (machine.put 1 p 0) p number.toNat).map fun machine => (str, machine)

/-- `lltoa`: its result and the machine. The negation wraps. -/
def lltoa (fuel : Nat) (machine : Machine) (number : Int64) (str : Nat) (base : Int) : Option (Nat × Machine) :=
  let start := if number < 0 then (machine.put 1 str 45, add str 1, -number) else (machine, str, number)
  (countLoop (unsigned base) fuel start.2.1 (unsigned start.2.2.toInt)).bind fun p =>
    (digitLoop base fuel (start.1.put 1 p 0) p start.2.2.toInt).map fun machine => (str, machine)

end Model

section Written

/-- A text was written from a place on, each of its bytes once. -/
structure Written (before : Machine) (start : Nat) (text : List UInt8) (after : Machine) : Prop where
  memory : after.memory = fill before.memory start (fun offset => text.getD offset 0) text.length
  reads : after.reads = before.reads
  writes : after.writes.Perm (before.writes ++ List.range' start text.length)

variable {before after machine : Machine} {start str : Nat} {text : List UInt8} {byte : UInt8}

/-- The memory after a byte is stored. -/
theorem put_byte (machine : Machine) (address : Nat) (byte : UInt8) :
    (machine.put 1 address byte.toNat).memory = Function.update machine.memory address byte :=
  congrArg (Function.update machine.memory address) UInt8.ofNat_toNat

/-- Nothing is written. -/
theorem Written.nil (machine : Machine) (start : Nat) : Written machine start [] machine where
  memory := funext fun tested => (fill_outside _ _ _ (by rw [List.length_nil]; omega)).symm
  reads := rfl
  writes := by rw [List.length_nil, List.range'_zero, List.append_nil]

/-- A byte is written first, behind the text. -/
theorem Written.behind (written : Written (before.put 1 (start + text.length) byte.toNat) start text after) :
    Written before start (text ++ [byte]) after where
  memory := by
    rw [written.memory, put_byte, List.length_append, List.length_singleton]
    funext tested
    by_cases inText : start ≤ tested ∧ tested < start + text.length
    · obtain ⟨offset, rfl⟩ := Nat.exists_eq_add_of_le inText.1
      have small : offset < text.length := by omega
      rw [fill_at _ _ _ small, fill_at _ _ _ (by omega), List.getD_append _ _ _ _ small]
    · rw [fill_outside _ _ _ (by omega)]
      by_cases last : tested = start + text.length
      · rw [last, Function.update_self, fill_at _ _ _ (Nat.lt_succ_self _),
          List.getD_append_right _ _ _ _ (Nat.le_refl _), Nat.sub_self]
        rfl
      · rw [Function.update_of_ne last, fill_outside _ _ _ (by omega)]
  reads := written.reads
  writes := by
    refine written.writes.trans ?_
    rw [List.length_append, List.length_singleton, List.range'_1_concat, Machine.put, List.append_assoc]
    exact List.Perm.append_left _ List.perm_append_comm

/-- A byte is written first, in front of the text. -/
theorem Written.front (written : Written (before.put 1 start byte.toNat) (start + 1) text after) :
    Written before start (byte :: text) after where
  memory := by
    rw [written.memory, put_byte, List.length_cons]
    funext tested
    by_cases inText : start + 1 ≤ tested ∧ tested < start + 1 + text.length
    · obtain ⟨offset, rfl⟩ := Nat.exists_eq_add_of_le inText.1
      have next : start + 1 + offset = start + (offset + 1) := by omega
      rw [fill_at _ _ _ (by omega), next, fill_at _ _ _ (by omega), List.getD_cons_succ]
    · rw [fill_outside _ _ _ (by omega)]
      by_cases first : tested = start
      · have here := fill_at before.memory start (fun offset => (byte :: text).getD offset 0) (Nat.succ_pos text.length)
        rw [first, Function.update_self]
        exact here.symm
      · rw [Function.update_of_ne first, fill_outside _ _ _ (by omega)]
  reads := written.reads
  writes := by
    refine written.writes.trans ?_
    rw [List.length_cons, List.range'_succ, Machine.put, List.append_assoc]
    exact List.Perm.refl _

end Written

section Loops

variable {base number fuel : Nat}

/-- The first loop counts the digits. -/
theorem countLoop_eq (many : 1 < base) (nonzero : 0 < fuel) (enough : number < base ^ fuel) {p : Nat}
    (fits : p + (numeral base number).length < wordSize) :
    countLoop base fuel p number = some (p + (numeral base number).length) := by
  induction fuel generalizing number p with
  | zero => exact absurd nonzero (Nat.lt_irrefl 0)
  | succ fuel ih =>
    have step := congrArg List.length (numeral_step many number)
    rw [List.length_append, List.length_singleton] at step
    rw [countLoop, add_of_lt _ _ (by omega)]
    by_cases done : number / base = 0
    · rw [if_neg (not_not_intro done), step, if_pos done]
      rfl
    · obtain ⟨left, smaller⟩ := div_fits enough done
      rw [if_neg done] at step
      rw [if_pos done, ih left smaller (by omega), step]
      congr 1
      omega

/-- The character of a digit that was taken from a number with a sign. -/
def signedChar (sign : Int) (digit : Nat) : UInt8 := digitChar ((sign * digit % 256).toNat)

/-- The second loop writes the digits in front of its place. -/
theorem digitLoop_written (many : 1 < base) {sign : Int} (signs : sign = 1 ∨ sign = -1) (nonzero : 0 < fuel)
    (enough : number < base ^ fuel) {start : Nat} (fits : start + (numeral base number).length < wordSize)
    (machine : Machine) :
    ∃ after, digitLoop base fuel machine (start + (numeral base number).length) (sign * number) = some after ∧
      Written machine start ((numeral base number).map (signedChar sign)) after := by
  induction fuel generalizing number machine with
  | zero => exact absurd nonzero (Nat.lt_irrefl 0)
  | succ fuel ih =>
    have digit : (sign * number).tmod base = sign * (number % base : Nat) := by
      rcases signs with rfl | rfl
      · rw [Int.one_mul, Int.one_mul, Int.ofNat_tmod]
      · rw [Int.neg_one_mul, Int.neg_one_mul, Int.neg_tmod, Int.ofNat_tmod]
    have quotient : (sign * number).tdiv base = sign * (number / base : Nat) := by
      rcases signs with rfl | rfl
      · rw [Int.one_mul, Int.one_mul, Int.ofNat_tdiv]
      · rw [Int.neg_one_mul, Int.neg_one_mul, Int.neg_tdiv, Int.ofNat_tdiv]
    have more : sign * (number / base : Nat) ≠ 0 ↔ number / base ≠ 0 := by
      rcases signs with rfl | rfl <;> omega
    have step := numeral_step many number
    generalize ahead : (if number / base = 0 then [] else numeral base (number / base)) = front at step
    rw [step, List.length_append, List.length_singleton] at fits ⊢
    have place : sub (start + (front.length + 1)) 1 = start + front.length := by
      rw [sub_of_le _ _ (by omega) fits]
      omega
    simp only [digitLoop, digit, quotient, more, place, List.map_append, List.map_singleton]
    by_cases done : number / base = 0
    · rw [if_pos done] at ahead
      subst ahead
      rw [if_neg (not_not_intro done)]
      exact ⟨_, rfl, Written.behind (Written.nil _ _)⟩
    · rw [if_neg done] at ahead
      subst ahead
      rw [if_pos done]
      obtain ⟨left, smaller⟩ := div_fits enough done
      obtain ⟨after, result, written⟩ := ih left smaller (by omega) _
      refine ⟨after, result, Written.behind ?_⟩
      rwa [List.length_map]

end Loops

section Strings

/-- A string stands at a place. Its bytes and its end were written, each once, and nothing else. -/
structure Printed (before : Machine) (str : Nat) (text : List UInt8) (after : Machine) : Prop where
  holds : Holds after.memory str text
  elsewhere : ∀ address, address < str ∨ str + text.length < address → after.memory address = before.memory address
  writes : after.writes.Perm (before.writes ++ List.range' str (text.length + 1))
  reads : after.reads = before.reads

/-- A call returns its place with a string there. -/
def Prints (before : Machine) (str : Nat) (text : List UInt8) (result : Option (Nat × Machine)) : Prop :=
  ∃ after, result = some (str, after) ∧ Printed before str text after

/-- The value of a character `0` to `9` or `A` to `Z`. -/
def digitValue (chr : UInt8) : Option Nat :=
  if 48 ≤ chr ∧ chr ≤ 57 then some (chr.toNat - 48) else if 65 ≤ chr ∧ chr ≤ 90 then some (chr.toNat - 55) else none

/-- The characters of a numeral. -/
def Reads (base number : Nat) (text : List UInt8) : Prop :=
  ∃ digits, text.map digitValue = digits.map some ∧ IsNumeral base number digits

variable {machine after : Machine} {start str : Nat} {text : List UInt8}

/-- A text that is written with its end is printed. -/
theorem Written.printed (written : Written machine str (text ++ [0]) after) (nonzero : ∀ byte ∈ text, byte ≠ 0) :
    Printed machine str text after := by
  have length : (text ++ [0]).length = text.length + 1 := by rw [List.length_append, List.length_singleton]
  refine ⟨holds_iff.mpr ⟨?_, fun index byte found => ?_⟩, fun address outside => ?_, ?_, written.reads⟩
  · rw [written.memory, fill_at _ _ _ (by omega), List.getD_append_right _ _ _ _ (Nat.le_refl _), Nat.sub_self]
    rfl
  · obtain ⟨inside, same⟩ := List.getElem?_eq_some_iff.mp found
    refine ⟨nonzero byte (List.mem_of_getElem? found), ?_⟩
    rw [written.memory, fill_at _ _ _ (by omega), List.getD_append _ _ _ _ inside,
      List.getD_eq_getElem _ _ inside, same]
  · rw [written.memory, fill_outside _ _ _ (by omega)]
  · rw [← length]
    exact written.writes

/-- The characters of digits below 36. -/
theorem digitChar_reads {digit : Nat} (small : digit < 36) :
    signedChar 1 digit = digitChar digit ∧ digitValue (digitChar digit) = some digit := by
  have all : ∀ digit < 36, signedChar 1 digit = digitChar digit ∧ digitValue (digitChar digit) = some digit := by
    decide
  exact all digit small

/-- No digit below 36 is the end of a string, and no other than zero has the same character with both
signs. -/
theorem signedChar_differs {digit : Nat} (small : digit < 36) :
    signedChar 1 digit ≠ 0 ∧ signedChar (-1) digit ≠ 0 ∧ (digit ≠ 0 → signedChar (-1) digit ≠ signedChar 1 digit) := by
  have all : ∀ digit < 36, signedChar 1 digit ≠ 0 ∧ signedChar (-1) digit ≠ 0 ∧
      (digit ≠ 0 → signedChar (-1) digit ≠ signedChar 1 digit) := by
    decide
  exact all digit small

end Strings

section Calls

variable {base number fuel : Nat} {machine : Machine} {str : Nat}

/-- A base is the same in every type. -/
theorem unsigned_base (small : base ≤ 36) : unsigned base = base := by
  rw [unsigned, wordSize]
  omega

/-- The two loops print the digits of a number with a sign. -/
theorem loops_written (many : 1 < base) (small : base ≤ 36) (word : number < wordSize) (enough : 64 ≤ fuel)
    {sign : Int} (signs : sign = 1 ∨ sign = -1) (fits : str + (numeral base number).length < wordSize)
    (machine : Machine) :
    ∃ p after, countLoop (unsigned base) fuel str number = some p ∧
      digitLoop base fuel (machine.put 1 p 0) p (sign * number) = some after ∧
      Written machine str ((numeral base number).map (signedChar sign) ++ [0]) after := by
  have power : number < base ^ fuel :=
    Nat.lt_of_lt_of_le word (Nat.le_trans (Nat.pow_le_pow_left many 64) (Nat.pow_le_pow_right (by omega) enough))
  obtain ⟨after, result, written⟩ := digitLoop_written many signs (by omega) power fits
    (machine.put 1 (str + (numeral base number).length) 0)
  refine ⟨_, after, ?_, result, Written.behind ?_⟩
  · rw [unsigned_base small]
    exact countLoop_eq many (by omega) power fits
  · rwa [List.length_map]

/-- The digits of a numeral are below 36. -/
theorem numeral_small (many : 1 < base) (small : base ≤ 36) {digit : Nat} (member : digit ∈ numeral base number) :
    digit < 36 :=
  Nat.lt_of_lt_of_le ((numeral_isNumeral many number).below digit member) small

/-- No digit is the end of a string. -/
theorem text_nonzero (many : 1 < base) (small : base ≤ 36) {sign : Int} (signs : sign = 1 ∨ sign = -1) :
    ∀ byte ∈ (numeral base number).map (signedChar sign), byte ≠ 0 := by
  intro byte member
  obtain ⟨digit, inside, rfl⟩ := List.mem_map.mp member
  obtain ⟨plain, negated, -⟩ := signedChar_differs (numeral_small many small inside)
  rcases signs with rfl | rfl
  · exact plain
  · exact negated

/-- `ulltoa` prints the digits of a number. -/
theorem ulltoa_prints (many : 1 < base) (small : base ≤ 36) (enough : 64 ≤ fuel) (number : UInt64)
    (fits : str + (numeral base number.toNat).length < wordSize) (machine : Machine) :
    Prints machine str ((numeral base number.toNat).map (signedChar 1)) (ulltoa fuel machine number str base) := by
  obtain ⟨p, after, counted, looped, written⟩ :=
    loops_written many small number.toNat_lt enough (.inl rfl) fits machine
  rw [Int.one_mul] at looped
  refine ⟨after, ?_, written.printed (text_nonzero many small (.inl rfl))⟩
  rw [ulltoa, counted, Option.bind_some, unsigned_base small, looped, Option.map_some]

/-- The sign of what `lltoa` takes for the absolute value. -/
def leftSign (number : Int64) : Int := if number = Int64.minValue then -1 else 1

/-- It is one of the two. -/
theorem leftSign_cases (number : Int64) : leftSign number = 1 ∨ leftSign number = -1 := by
  rw [leftSign]
  split_ifs
  · exact .inr rfl
  · exact .inl rfl

/-- A number with the least value. -/
theorem least_iff (number : Int64) : number = Int64.minValue ↔ number.toInt = -2 ^ 63 := by
  rw [← Int64.toInt_inj, Int64.toInt_minValue]

/-- A negative number. -/
theorem negative_iff (number : Int64) : number < 0 ↔ number.toInt < 0 := by
  rw [Int64.lt_iff_toInt_lt, Int64.toInt_zero]

/-- What `lltoa` takes for the absolute value of a number. -/
theorem absolute_eq (number : Int64) :
    (if number < 0 then -number else number).toInt = leftSign number * number.toInt.natAbs := by
  have low := number.le_toInt
  rw [leftSign]
  split_ifs with negative least least
  · rw [least]
    rfl
  · rw [negative_iff] at negative
    rw [least_iff] at least
    rw [Int64.toInt_neg, Int.bmod_eq_of_le (by omega) (by omega)]
    omega
  · rw [least] at negative
    exact absurd (by decide) negative
  · rw [negative_iff] at negative
    omega

/-- The text that `lltoa` prints: the sign, and the digits as they come out. -/
def lltoaText (base : Nat) (number : Int64) : List UInt8 :=
  (if number < 0 then [45] else []) ++ (numeral base number.toInt.natAbs).map (signedChar (leftSign number))

/-- `lltoa` prints its text. -/
theorem lltoa_prints (many : 1 < base) (small : base ≤ 36) (enough : 64 ≤ fuel) (number : Int64)
    (fits : str + (lltoaText base number).length < wordSize) (machine : Machine) :
    Prints machine str (lltoaText base number) (lltoa fuel machine number str base) := by
  have low := number.le_toInt
  have high := number.toInt_lt
  have absolute := absolute_eq number
  have word : number.toInt.natAbs < wordSize := by
    rw [wordSize]
    omega
  have shifter : unsigned (leftSign number * number.toInt.natAbs) = number.toInt.natAbs := by
    rw [unsigned, wordSize, leftSign]
    split_ifs with least
    · rw [least_iff] at least
      omega
    · omega
  rw [lltoaText, List.length_append, List.length_map] at fits
  rw [lltoaText, lltoa]
  split_ifs at fits absolute ⊢ with negative
  · rw [List.length_singleton, ← Nat.add_assoc] at fits
    obtain ⟨p, after, counted, looped, written⟩ :=
      loops_written many small word enough (leftSign_cases number) fits (machine.put 1 str 45)
    refine ⟨after, ?_, ?_⟩
    · rw [add_of_lt _ _ (by omega), absolute, shifter, counted, Option.bind_some, looped, Option.map_some]
    · refine Written.printed (Written.front written) fun byte member => ?_
      rcases List.mem_cons.mp member with rfl | digit
      · decide
      · exact text_nonzero many small (leftSign_cases number) byte digit
  · rw [List.length_nil, Nat.zero_add] at fits
    obtain ⟨p, after, counted, looped, written⟩ :=
      loops_written many small word enough (leftSign_cases number) fits machine
    refine ⟨after, ?_, written.printed (text_nonzero many small (leftSign_cases number))⟩
    rw [absolute, shifter, counted, Option.bind_some, looped, Option.map_some]

/-- A call prints one string. -/
theorem Prints.unique {text other : List UInt8} {result : Option (Nat × Machine)}
    (prints : Prints machine str text result) (also : Prints machine str other result) : text = other := by
  obtain ⟨after, returned, printed⟩ := prints
  obtain ⟨_, same, alsoPrinted⟩ := also
  obtain rfl : after = _ := (Prod.ext_iff.mp (Option.some.inj (returned.symm.trans same))).2
  exact printed.holds.unique alsoPrinted.holds

/-- The characters of a number's digits read as the number. -/
theorem numeral_reads (many : 1 < base) (small : base ≤ 36) (number : Nat) :
    Reads base number ((numeral base number).map (signedChar 1)) := by
  refine ⟨numeral base number, ?_, numeral_isNumeral many number⟩
  rw [List.map_map]
  refine List.map_congr_left fun digit member => ?_
  obtain ⟨plain, value⟩ := digitChar_reads (numeral_small many small member)
  rw [Function.comp_apply, plain, value]

/-- `lltoa` prints what `ulltoa` prints of the absolute value, behind the sign of a negative number. -/
def Agrees (fuel : Nat) (machine : Machine) (number : Int64) (str base : Nat) : Prop :=
  ∃ text, Prints machine str text (ulltoa fuel machine (UInt64.ofNat number.toInt.natAbs) str base) ∧
    Prints machine str (if number < 0 then 45 :: text else text) (lltoa fuel machine number str base)

/-- What `ulltoa` prints of an absolute value. -/
theorem absolute_prints (many : 1 < base) (small : base ≤ 36) (enough : 64 ≤ fuel) (number : Int64)
    (fits : str + (lltoaText base number).length < wordSize) (machine : Machine) :
    Prints machine str ((numeral base number.toInt.natAbs).map (signedChar 1))
      (ulltoa fuel machine (UInt64.ofNat number.toInt.natAbs) str base) := by
  have low := number.le_toInt
  have high := number.toInt_lt
  have word : (UInt64.ofNat number.toInt.natAbs).toNat = number.toInt.natAbs := by
    rw [UInt64.toNat_ofNat']
    omega
  rw [lltoaText, List.length_append, List.length_map] at fits
  have fewer : str + (numeral base (UInt64.ofNat number.toInt.natAbs).toNat).length < wordSize := by
    rw [word]
    omega
  have prints := ulltoa_prints many small enough (UInt64.ofNat number.toInt.natAbs) fewer machine
  rwa [word] at prints

/-- The first digit of the least number has another character in what `lltoa` prints. -/
theorem least_differs (many : 1 < base) (small : base ≤ 36) (enough : 64 ≤ fuel)
    (fits : str + (lltoaText base Int64.minValue).length < wordSize) (machine : Machine) :
    ¬ Agrees fuel machine Int64.minValue str base := by
  rintro ⟨text, unsigned, signed⟩
  have same := signed.unique (lltoa_prints many small enough Int64.minValue fits machine)
  have digits := unsigned.unique (absolute_prints many small enough Int64.minValue fits machine)
  have isNumeral := numeral_isNumeral many Int64.minValue.toInt.natAbs
  rw [if_pos (by decide), lltoaText, if_pos (by decide), leftSign, if_pos rfl, digits] at same
  have tails := (List.cons.inj same).2
  cases split : numeral base Int64.minValue.toInt.natAbs with
  | nil => exact isNumeral.some_ split
  | cons digit rest =>
    rw [split] at tails isNumeral
    have positive : digit ≠ 0 := by
      rintro rfl
      have value := isNumeral.value
      rw [isNumeral.leading rfl, List.reverse_singleton, Nat.ofDigits_singleton] at value
      exact absurd value (by decide)
    exact (signedChar_differs (numeral_small many small (split ▸ List.mem_cons_self))).2.2 positive
      (List.cons.inj tails).1.symm

/-- For every number and every base from 2 to 36, `ulltoa` returns a string whose characters are the
digits of the number, without a leading zero. It writes each of them and the end once, and nothing
else. -/
theorem ulltoa_exact (many : 2 ≤ base) (small : base ≤ 36) (enough : 64 ≤ fuel) (number : UInt64)
    (fits : str + (numeral base number.toNat).length < wordSize) (machine : Machine) :
    ∃ text, Reads base number.toNat text ∧ Prints machine str text (ulltoa fuel machine number str base) :=
  ⟨_, numeral_reads many small number.toNat, ulltoa_prints many small enough number fits machine⟩

/-- The largest number is printed in base 36. -/
theorem ulltoa_exact_sample : ∃ text, Reads 36 (UInt64.toNat 0xFFFFFFFFFFFFFFFF) text ∧
    Prints ⟨fun _ => 7, [], []⟩ 4096 text (ulltoa 64 ⟨fun _ => 7, [], []⟩ 0xFFFFFFFFFFFFFFFF 4096 (36 : Nat)) :=
  ulltoa_exact (by decide) (by decide) (by decide) 0xFFFFFFFFFFFFFFFF (by decide) ⟨fun _ => 7, [], []⟩

/-- For every number and every base from 2 to 36, `lltoa` prints the sign and the digits that `ulltoa`
prints of the absolute value, if and only if the number is not the least. -/
theorem lltoa_agrees_iff (many : 2 ≤ base) (small : base ≤ 36) (enough : 64 ≤ fuel) (number : Int64)
    (fits : str + (lltoaText base number).length < wordSize) (machine : Machine) :
    Agrees fuel machine number str base ↔ number ≠ Int64.minValue := by
  constructor
  · rintro agrees rfl
    exact least_differs many small enough fits machine agrees
  · intro absolute
    refine ⟨_, absolute_prints many small enough number fits machine, ?_⟩
    have prints := lltoa_prints many small enough number fits machine
    rw [lltoaText, leftSign, if_neg absolute] at prints
    split_ifs at prints ⊢
    · exact prints
    · exact prints

/-- A negative number is printed. -/
theorem lltoa_agrees_sample : Agrees 64 ⟨fun _ => 7, [], []⟩ (-42) 4096 10 :=
  (lltoa_agrees_iff (by decide) (by decide) (by decide) (-42) (by decide) ⟨fun _ => 7, [], []⟩).mpr (by decide)

/-- The least number is printed as `-.554405041/23002/0/`. -/
theorem least_printed : lltoaText 10 Int64.minValue =
      [45, 46, 53, 53, 52, 52, 48, 53, 48, 52, 49, 47, 50, 51, 48, 48, 50, 47, 48, 47] ∧
    ¬ Agrees 64 ⟨fun _ => 7, [], []⟩ Int64.minValue 4096 10 :=
  ⟨by decide, least_differs (by decide) (by decide) (by decide) (by decide) _⟩

end Calls

end Asym.NumberPrinting
