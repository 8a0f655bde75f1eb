import Asym.CStrings
import Asym.MachineWords
import Asym.Numerals

/-!
# Lines of the log

A model of `log_print_va`. It writes a line into an array of `MAX_PATH` bytes, without a look at
its end, and numbers go through smaller arrays on the way. Every write to one of the arrays is
recorded with its index; the arrays themselves have no end here.

What is written inside is decided by what is printed: the array for `%d` has room for 16 digits
and not for the 20 that a word can have, and the line has room for what is left of `MAX_PATH`
behind the time. The time and addresses always fit.
-/

namespace Asym.LogLines

open ByteMemory CStrings MachineWords Numerals

/-! ## The source -/

/-- The arrays of `log_print_va` and `log_padd_number`. -/
inductive Place where
  | buffer
  | str
  | addrStr
  | numStr
  deriving DecidableEq, Repr

/-- `MAX_PATH`. -/
def maxPath : Nat := 256

/-- The bytes of an array. -/
def Place.size : Place → Nat
  | .buffer => maxPath
  | .str => 20
  | .addrStr => 17
  | .numStr => 17

/-- The array `buffer`, the index of `out` in it, and all writes to the arrays so far. -/
structure Frame where
  buffer : Memory
  out : Nat
  writes : List (Place × Nat)

/-- `*out++ = chr`. -/
def Frame.put (frame : Frame) (chr : UInt8) : Frame where
  buffer := Function.update frame.buffer frame.out chr
  out := frame.out + 1
  writes := (.buffer, frame.out) :: frame.writes

/-- `*out++ = chr`, a number of times. -/
def Frame.putRepeated (frame : Frame) (chr : UInt8) (count : Nat) : Frame :=
  (List.range count).foldl (fun frame _ => frame.put chr) frame

/-- `*out++ = array[i]` for `i` below a bound. -/
def Frame.putFrom (frame : Frame) (array : Memory) (count : Nat) : Frame :=
  (List.range count).foldl (fun frame index => frame.put (array index)) frame

/-- `SEC`. -/
def sec : Nat := 1000000000

/-- The most turns that a loop of `ulltoa` takes for a 64-bit number, in any base. -/
def ulltoaTurns : Nat := 64

/-- The first loop of `ulltoa`: its turns. -/
def ulltoaLength (base : Nat) : Nat → Nat → Nat
  | 0, _ => 0
  | turns + 1, shifter => 1 + if shifter / base ≠ 0 then ulltoaLength base turns (shifter / base) else 0

/-- The character of a digit. -/
def digitChar (digit : Nat) : UInt8 :=
  if digit < 10 then UInt8.ofNat (48 + digit) else UInt8.ofNat (65 + digit - 10)

/-- The second loop of `ulltoa`, with `p` behind the digit that is written next: the indices and
characters that it writes. -/
def ulltoaDigits (base : Nat) : Nat → Nat → Nat → List (Nat × UInt8)
  | 0, _, _ => []
  | turns + 1, i, p =>
      (p - 1, digitChar (i % base)) :: if i / base ≠ 0 then ulltoaDigits base turns (i / base) (p - 1) else []

/-- `ulltoa`: what it writes to `str`. -/
def ulltoa (number base : Nat) : List (Nat × UInt8) :=
  (ulltoaLength base ulltoaTurns number, 0) ::
    ulltoaDigits base ulltoaTurns number (ulltoaLength base ulltoaTurns number)

/-- An array after writes. -/
def stored (array : Memory) (written : List (Nat × UInt8)) : Memory :=
  written.foldl (fun array write => Function.update array write.1 write.2) array

/-- `ulltoa` into one of the arrays, and its `strlen` then. The arrays are not initialised. -/
def convert (garbage : Place → Memory) (frame : Frame) (place : Place) (number base : Nat) :
    Option (Frame × Memory × Nat) :=
  let written := ulltoa number base
  let array := stored (garbage place) written
  (strlen (ulltoaTurns + 1) array 0).map fun len =>
    ({ frame with writes := (written.map fun write => (place, write.1)) ++ frame.writes }, array, len)

/-- `log_padd_number`. The padding is an unsigned difference. -/
def logPaddNumber (garbage : Place → Memory) (frame : Frame) (padding : Nat) (chr : UInt8) (number : Nat) :
    Option Frame :=
  (convert garbage frame .str number 10).map fun converted =>
    (converted.1.putRepeated chr (sub padding converted.2.2)).putFrom converted.2.1 converted.2.2

/-- An argument of `log_print`: a word, or the bytes of a string before its end. -/
inductive Arg where
  | word (value : UInt64)
  | str (bytes : List UInt8)
  deriving DecidableEq

/-- The `LOG_ADDR` case. -/
def printAddr (garbage : Place → Memory) (frame : Frame) (addr : Nat) : Option Frame :=
  (convert garbage ((frame.put 48).put 120) .addrStr addr 16).map fun converted =>
    (converted.1.putRepeated 48 (sub 16 converted.2.2)).putFrom converted.2.1 converted.2.2

/-- The `LOG_STR` case. -/
def printStr (frame : Frame) (str : List UInt8) : Frame := str.foldl Frame.put frame

/-- The `LOG_INT` case. -/
def printInt (garbage : Place → Memory) (frame : Frame) (num : Nat) : Option Frame :=
  (convert garbage frame .numStr num 10).map fun converted => converted.1.putFrom converted.2.1 converted.2.2

/-- `LOG_BREAK`, and `LOG_ADDR`, `LOG_STR` and `LOG_INT` after it. -/
def logBreak : UInt8 := 37
def logAddr : UInt8 := 97
def logStr : UInt8 := 115
def logInt : UInt8 := 100

/-- The loop of `log_print_va`, and whether it got to the end of the format. The arguments have to
be of the types that the format asks for. -/
def printLoop (garbage : Place → Memory) : List UInt8 → List Arg → Frame → Option (Frame × Bool)
  | [], _, frame => some (frame, true)
  | chr :: rest, args, frame =>
      if chr ≠ logBreak then printLoop garbage rest args (frame.put chr)
      else
        match rest with
        | [] => some (frame, false)
        | conversion :: later =>
            if conversion = logAddr then
              match args with
              | .word addr :: others =>
                  (printAddr garbage frame addr.toNat).bind fun printed => printLoop garbage later others printed
              | _ => none
            else if conversion = logStr then
              match args with
              | .str str :: others => printLoop garbage later others (printStr frame str)
              | _ => none
            else if conversion = logInt then
              match args with
              | .word num :: others =>
                  (printInt garbage frame num.toNat).bind fun printed => printLoop garbage later others printed
              | _ => none
            else some (frame, false)

/-- The time at the start of a line. -/
def printTime (garbage : Place → Memory) (frame : Frame) (time : Nat) : Option Frame :=
  (logPaddNumber garbage (frame.put 91) 11 32 (time / sec)).bind fun seconds =>
    (logPaddNumber garbage (seconds.put 46) 3 48 (time % sec / (sec / 1000))).map fun milliseconds =>
      (milliseconds.put 93).put 32

/-- `log_print_va` up to `log_write`, with what the arrays hold at first. -/
def logPrintVa (garbage : Place → Memory) (timeEnabled : Bool) (uptime : UInt64) (string : List UInt8)
    (args : List Arg) : Option Frame :=
  let time := if timeEnabled then uptime.toNat else 0
  (printTime garbage ⟨garbage .buffer, 0, []⟩ time).bind fun started =>
    (printLoop garbage string args started).map fun printed =>
      if printed.2 then (printed.1.put 10).put 0 else printed.1

/-! ## What is printed -/

/-- A part of a line. -/
inductive Item where
  | chr (chr : UInt8)
  | addr (addr : UInt64)
  | str (bytes : List UInt8)
  | num (num : UInt64)
  deriving DecidableEq

/-- The parts that a format and its arguments give, up to the end of the format or to what is no
conversion, and whether the end was reached. -/
def items : List UInt8 → List Arg → Option (List Item × Bool)
  | [], _ => some ([], true)
  | chr :: rest, args =>
      if chr ≠ logBreak then (items rest args).map fun parsed => (.chr chr :: parsed.1, parsed.2)
      else
        match rest with
        | [] => some ([], false)
        | conversion :: later =>
            if conversion = logAddr then
              match args with
              | .word addr :: others => (items later others).map fun parsed => (.addr addr :: parsed.1, parsed.2)
              | _ => none
            else if conversion = logStr then
              match args with
              | .str str :: others => (items later others).map fun parsed => (.str str :: parsed.1, parsed.2)
              | _ => none
            else if conversion = logInt then
              match args with
              | .word num :: others => (items later others).map fun parsed => (.num num :: parsed.1, parsed.2)
              | _ => none
            else some ([], false)

/-- The number of digits of a number. Zero has one. -/
def digitCount (base number : Nat) : Nat := max 1 (Nat.digits base number).length

/-- The characters of a part of a line. -/
def Item.length : Item → Nat
  | .chr _ => 1
  | .addr _ => 18
  | .str bytes => bytes.length
  | .num value => digitCount 10 value.toNat

/-- The characters of a line: the time, the parts, and the end of the line if it is reached. -/
def lineLength (parsed : List Item × Bool) : Nat :=
  18 + (parsed.1.map Item.length).sum + if parsed.2 then 2 else 0

/-- All writes of a call are in their arrays. -/
def Inside (frame : Frame) : Prop := ∀ write ∈ frame.writes, write.2 < write.1.size

instance (frame : Frame) : Decidable (Inside frame) := inferInstanceAs (Decidable (∀ write ∈ frame.writes, _))

/-- A line fits: every number has at most 16 digits, and the line is at most as long as its array. -/
def Fits (parsed : List Item × Bool) : Prop :=
  (∀ number, Item.num number ∈ parsed.1 → number.toNat < 10 ^ 16) ∧ lineLength parsed ≤ maxPath

/-! ## Numbers -/

/-- A number has at most so many digits as its bound has. -/
theorem digitCount_le_iff {base digits : Nat} (some_ : 1 < base) (nonzero : 0 < digits) (number : Nat) :
    digitCount base number ≤ digits ↔ number < base ^ digits := by
  rw [digitCount, Nat.max_le, Nat.digits_length_le_iff some_]
  exact and_iff_right nonzero

/-- The digits of a number are as many as those of its numeral. -/
theorem numeral_length (base number : Nat) : (numeral base number).length = digitCount base number := by
  rw [numeral, digitCount]
  split_ifs with zero
  · rw [zero, Nat.digits_zero]
    rfl
  · rw [List.length_reverse, Nat.max_eq_right]
    exact List.length_pos_of_ne_nil (Nat.digits_ne_nil_iff_ne_zero.mpr zero)

/-- A number that is divided by the base has one digit less. -/
theorem digitCount_step {base number : Nat} (some_ : 1 < base) :
    digitCount base number = 1 + if number / base ≠ 0 then digitCount base (number / base) else 0 := by
  rw [← numeral_length, numeral_step some_, List.length_append, List.length_singleton, Nat.add_comm]
  by_cases more : number / base = 0
  · rw [if_pos more, if_neg (not_not_intro more), List.length_nil]
  · rw [if_neg more, if_pos more, numeral_length]

/-- The first loop of `ulltoa` counts the digits. -/
theorem ulltoaLength_eq {base : Nat} (some_ : 1 < base) {turns : Nat} {number : Nat} (nonzero : 0 < turns)
    (fits : number < base ^ turns) : ulltoaLength base turns number = digitCount base number := by
  induction turns generalizing number with
  | zero => exact absurd nonzero (Nat.lt_irrefl 0)
  | succ turns ih =>
    rw [ulltoaLength, digitCount_step some_]
    by_cases more : number / base ≠ 0
    · obtain ⟨left, smaller⟩ := div_fits fits more
      rw [if_pos more, if_pos more, ih left smaller]
    · rw [if_neg more, if_neg more]

/-- The second loop of `ulltoa` writes every index once, from the last to the first. -/
theorem ulltoaDigits_indices (base turns number : Nat) :
    (ulltoaDigits base turns number (ulltoaLength base turns number)).map Prod.fst =
      (List.range (ulltoaLength base turns number)).reverse := by
  induction turns generalizing number with
  | zero => rfl
  | succ turns ih =>
    rw [ulltoaDigits, ulltoaLength, List.map_cons, Nat.add_sub_cancel_left, Nat.add_comm 1, List.range_succ,
      List.reverse_concat]
    split_ifs with more
    · rw [ih]
    · rfl

/-- The digits that `ulltoa` writes are not the end of a string. -/
theorem ulltoaDigits_nonzero {base : Nat} (positive : 0 < base) (small : base ≤ 16) (turns number p : Nat) :
    ∀ write ∈ ulltoaDigits base turns number p, write.2 ≠ 0 := by
  induction turns generalizing number p with
  | zero => exact fun _ inside => absurd inside List.not_mem_nil
  | succ turns ih =>
    have digits : ∀ digit < 16, digitChar digit ≠ 0 := by decide
    intro write inside
    rcases List.mem_cons.mp inside with rfl | later
    · exact digits _ (Nat.lt_of_lt_of_le (Nat.mod_lt _ positive) small)
    · split_ifs at later with more
      · exact ih _ _ write later
      · exact absurd later List.not_mem_nil

/-! ## Arrays -/

/-- An index that is not written keeps its byte. -/
theorem stored_other (array : Memory) {written : List (Nat × UInt8)} {index : Nat}
    (other : index ∉ written.map Prod.fst) : stored array written index = array index := by
  induction written generalizing array with
  | nil => rfl
  | cons write rest ih =>
    rw [List.map_cons, List.mem_cons, not_or] at other
    rw [stored, List.foldl_cons]
    exact (ih _ other.2).trans (Function.update_of_ne other.1 _ _)

/-- An index that is written has one of the bytes that are written. -/
theorem stored_nonzero (array : Memory) {written : List (Nat × UInt8)} (nonzero : ∀ write ∈ written, write.2 ≠ 0)
    {index : Nat} (inside : index ∈ written.map Prod.fst) : stored array written index ≠ 0 := by
  induction written generalizing array with
  | nil => exact absurd inside List.not_mem_nil
  | cons write rest ih =>
    rw [stored, List.foldl_cons]
    by_cases again : index ∈ rest.map Prod.fst
    · exact ih _ (fun other member => nonzero other (List.mem_cons_of_mem _ member)) again
    · obtain same | later := List.mem_cons.mp inside
      · refine ne_of_eq_of_ne (stored_other _ again) ?_
        rw [same, Function.update_self]
        exact nonzero write List.mem_cons_self
      · exact absurd later again

/-- After `ulltoa`, an array holds a string of the digits. -/
theorem ulltoa_strlen (array : Memory) {number base : Nat} (some_ : 1 < base) (small : base ≤ 16)
    (word : number < 2 ^ 64) :
    strlen (ulltoaTurns + 1) (stored array (ulltoa number base)) 0 = some (digitCount base number) := by
  have fits : number < base ^ ulltoaTurns := Nat.lt_of_lt_of_le word (Nat.pow_le_pow_left some_ _)
  have length := ulltoaLength_eq some_ (by decide) fits
  have indices := ulltoaDigits_indices base ulltoaTurns number
  have nonzero := ulltoaDigits_nonzero (Nat.zero_lt_of_lt some_) small ulltoaTurns number
    (ulltoaLength base ulltoaTurns number)
  rw [length] at indices nonzero
  have written : ∀ index, index ∈ (ulltoaDigits base ulltoaTurns number (digitCount base number)).map Prod.fst ↔
      index < digitCount base number := by
    intro index
    rw [indices, List.mem_reverse, List.mem_range]
  have ended : stored array (ulltoa number base) = stored (Function.update array (digitCount base number) 0)
      (ulltoaDigits base ulltoaTurns number (digitCount base number)) := by
    rw [ulltoa, length]
    rfl
  rw [ended]
  refine strlen_eq ?_ ?_ ?_
  · rw [Nat.zero_add, stored_other _ ((written _).not.mpr (Nat.lt_irrefl _)), Function.update_self]
  · intro index inside
    rw [Nat.zero_add]
    exact stored_nonzero _ nonzero ((written index).mpr inside)
  · exact Nat.lt_succ_of_le ((digitCount_le_iff some_ (by decide) number).mpr fits)

/-! ## Lines -/

/-- The line has a number of characters, and all writes were inside, if and only if these fit and
the numbers in the other arrays did. -/
structure Tally (frame : Frame) (count : Nat) (numbers : Prop) : Prop where
  out : frame.out = count
  inside : Inside frame ↔ count ≤ maxPath ∧ numbers

variable {frame : Frame} {count : Nat} {numbers : Prop}

/-- At the start nothing is written. -/
theorem Tally.start (buffer : Memory) : Tally ⟨buffer, 0, []⟩ 0 True :=
  ⟨rfl, iff_of_true (fun _ inside => absurd inside List.not_mem_nil) ⟨Nat.zero_le _, trivial⟩⟩

/-- A condition that is the same. -/
theorem Tally.congr (tally : Tally frame count numbers) {other : Prop} (same : numbers ↔ other) :
    Tally frame count other :=
  ⟨tally.out, tally.inside.trans (and_congr_right fun _ => same)⟩

/-- One more character. -/
theorem Tally.put (tally : Tally frame count numbers) (chr : UInt8) : Tally (frame.put chr) (count + 1) numbers := by
  refine ⟨congrArg (· + 1) tally.out, ?_⟩
  rw [Inside, Frame.put, List.forall_mem_cons, tally.out]
  constructor
  · rintro ⟨here, before⟩
    exact ⟨here, (tally.inside.mp before).2⟩
  · rintro ⟨room, fine⟩
    exact ⟨room, tally.inside.mpr ⟨Nat.le_of_succ_le room, fine⟩⟩

/-- Characters in turn. -/
theorem Tally.puts {Source : Type} (tally : Tally frame count numbers) (sources : List Source) (chr : Source → UInt8) :
    Tally (sources.foldl (fun frame source => frame.put (chr source)) frame) (count + sources.length) numbers := by
  induction sources generalizing frame count with
  | nil => exact tally
  | cons source rest ih =>
    rw [List.foldl_cons, List.length_cons, Nat.add_comm rest.length 1, ← Nat.add_assoc]
    exact ih (tally.put (chr source))

/-- The same character a number of times. -/
theorem Tally.putRepeated (tally : Tally frame count numbers) (chr : UInt8) (times : Nat) :
    Tally (frame.putRepeated chr times) (count + times) numbers := by
  have all := tally.puts (List.range times) (fun _ => chr)
  rwa [List.length_range] at all

/-- The front of an array. -/
theorem Tally.putFrom (tally : Tally frame count numbers) (array : Memory) (times : Nat) :
    Tally (frame.putFrom array times) (count + times) numbers := by
  have all := tally.puts (List.range times) array
  rwa [List.length_range] at all

/-- The indices that `ulltoa` writes are those of the digits and of the end. -/
theorem mem_ulltoa_iff {number base : Nat} (some_ : 1 < base) (word : number < 2 ^ 64) (index : Nat) :
    index ∈ (ulltoa number base).map Prod.fst ↔ index ≤ digitCount base number := by
  have fits : number < base ^ ulltoaTurns := Nat.lt_of_lt_of_le word (Nat.pow_le_pow_left some_ _)
  have length := ulltoaLength_eq some_ (by decide) fits
  have indices := ulltoaDigits_indices base ulltoaTurns number
  rw [length] at indices
  rw [ulltoa, length, List.map_cons, List.mem_cons, indices, List.mem_reverse, List.mem_range]
  omega

/-- A number goes into an array that has room for its digits and the end. -/
theorem convert_spec (garbage : Place → Memory) (frame : Frame) (place : Place)
    {number base : Nat} (some_ : 1 < base) (small : base ≤ 16) (word : number < 2 ^ 64) :
    ∃ converted, convert garbage frame place number base = some converted ∧
      converted.2.2 = digitCount base number ∧
      ∀ count numbers, Tally frame count numbers →
        Tally converted.1 count (numbers ∧ digitCount base number < place.size) := by
  have counted := ulltoa_strlen (garbage place) some_ small word
  refine ⟨_, congrArg (Option.map _) counted, rfl, ?_⟩
  intro count numbers tally
  refine ⟨tally.out, ?_⟩
  have written : (∀ write ∈ (ulltoa number base).map fun write => (place, write.1), write.2 < write.1.size) ↔
      digitCount base number < place.size := by
    constructor
    · intro inside
      obtain ⟨write, member, last⟩ := List.mem_map.mp ((mem_ulltoa_iff some_ word _).mpr (Nat.le_refl _))
      have room := inside (place, write.1) (List.mem_map.mpr ⟨write, member, rfl⟩)
      rwa [last] at room
    · intro room write member
      obtain ⟨source, inSource, rfl⟩ := List.mem_map.mp member
      have bound := (mem_ulltoa_iff some_ word _).mp (List.mem_map_of_mem inSource)
      exact Nat.lt_of_le_of_lt bound room
  have all : Inside { frame with writes := ((ulltoa number base).map fun write => (place, write.1)) ++ frame.writes } ↔
      digitCount base number < place.size ∧ Inside frame := by
    rw [Inside, List.forall_mem_append, written]
    rfl
  rw [all, tally.inside]
  tauto

/-- A number with padding before it, that is at most as long as the padding. -/
theorem padded_spec (garbage : Place → Memory) (frame : Frame) (place : Place) {base padding number : Nat}
    (some_ : 1 < base) (small : base ≤ 16) (nonzero : 0 < padding) (room : padding < place.size) (chr : UInt8)
    (short : number < base ^ padding) (word : number < 2 ^ 64) (padds : padding < wordSize) :
    ∃ printed, (convert garbage frame place number base).map (fun converted =>
        (converted.1.putRepeated chr (sub padding converted.2.2)).putFrom converted.2.1 converted.2.2) = some printed ∧
      ∀ count numbers, Tally frame count numbers → Tally printed (count + padding) numbers := by
  obtain ⟨converted, result, length, tallied⟩ := convert_spec garbage frame place some_ small word
  have digits : digitCount base number ≤ padding := (digitCount_le_iff some_ nonzero number).mpr short
  refine ⟨_, congrArg (Option.map _) result, ?_⟩
  intro count numbers tally
  have printed := ((tallied count numbers tally).putRepeated chr (sub padding converted.2.2)).putFrom
    converted.2.1 converted.2.2
  have all : count + sub padding converted.2.2 + converted.2.2 = count + padding := by
    rw [length, sub_of_le _ _ digits padds, Nat.add_assoc, Nat.sub_add_cancel digits]
  rw [all] at printed
  exact printed.congr (and_iff_left (Nat.lt_of_le_of_lt digits room))

/-- The time takes 18 characters, whatever it is. -/
theorem printTime_spec (garbage : Place → Memory) (frame : Frame) {time : Nat} (word : time < 2 ^ 64) :
    ∃ started, printTime garbage frame time = some started ∧
      ∀ count numbers, Tally frame count numbers → Tally started (count + 18) numbers := by
  have shortSeconds : time / sec < 10 ^ 11 := by
    rw [sec]
    omega
  have shortMilliseconds : time % sec / (sec / 1000) < 10 ^ 3 := by
    rw [sec]
    omega
  obtain ⟨seconds, first, tallySeconds⟩ := padded_spec garbage (frame.put 91) .str (by decide) (by decide) (by decide)
    (by decide) 32 shortSeconds (by omega) (by decide)
  obtain ⟨milliseconds, second, tallyMilliseconds⟩ := padded_spec garbage (seconds.put 46) .str (by decide)
    (by decide) (by decide) (by decide) 48 shortMilliseconds (by omega) (by decide)
  refine ⟨(milliseconds.put 93).put 32, ?_, ?_⟩
  · rw [printTime, logPaddNumber, first, Option.bind_some, logPaddNumber, second, Option.map_some]
  · intro count numbers tally
    exact ((tallyMilliseconds _ _ ((tallySeconds _ _ (tally.put 91)).put 46)).put 93).put 32

/-- An address takes 18 characters. -/
theorem printAddr_spec (garbage : Place → Memory) (frame : Frame) (addr : UInt64) :
    ∃ printed, printAddr garbage frame addr.toNat = some printed ∧
      ∀ count numbers, Tally frame count numbers → Tally printed (count + 18) numbers := by
  obtain ⟨printed, result, tallied⟩ := padded_spec garbage ((frame.put 48).put 120) .addrStr (by decide) (by decide)
    (by decide) (by decide) 48 (show addr.toNat < 16 ^ 16 from addr.toNat_lt) addr.toNat_lt (by decide)
  exact ⟨printed, result, fun count numbers tally => tallied _ _ ((tally.put 48).put 120)⟩

/-- A number takes its digits, and fits if it has at most 16. -/
theorem printInt_spec (garbage : Place → Memory) (frame : Frame) (num : UInt64) :
    ∃ printed, printInt garbage frame num.toNat = some printed ∧
      ∀ count numbers, Tally frame count numbers →
        Tally printed (count + digitCount 10 num.toNat) (numbers ∧ num.toNat < 10 ^ 16) := by
  obtain ⟨converted, result, length, tallied⟩ := convert_spec garbage frame .numStr (show 1 < 10 by decide) (by decide)
    num.toNat_lt
  refine ⟨converted.1.putFrom converted.2.1 converted.2.2, congrArg (Option.map _) result, ?_⟩
  intro count numbers tally
  have printed := (tallied count numbers tally).putFrom converted.2.1 converted.2.2
  rw [length] at printed ⊢
  refine printed.congr (and_congr_right fun _ => ?_)
  exact Nat.lt_succ_iff.trans (digitCount_le_iff (by decide) (by decide) _)

/-- What a part of a line asks of the arrays for numbers. -/
def Item.Short : Item → Prop
  | .num value => value.toNat < 10 ^ 16
  | _ => True

/-- The parts of a line that begins with an address. -/
theorem items_addr (later : List UInt8) (args : List Arg) : items (logBreak :: logAddr :: later) args =
    match args with
    | .word addr :: others => (items later others).map fun parsed => (.addr addr :: parsed.1, parsed.2)
    | _ => none := rfl

/-- The parts of a line that begins with a string. -/
theorem items_str (later : List UInt8) (args : List Arg) : items (logBreak :: logStr :: later) args =
    match args with
    | .str str :: others => (items later others).map fun parsed => (.str str :: parsed.1, parsed.2)
    | _ => none := rfl

/-- The parts of a line that begins with a number. -/
theorem items_num (later : List UInt8) (args : List Arg) : items (logBreak :: logInt :: later) args =
    match args with
    | .word num :: others => (items later others).map fun parsed => (.num num :: parsed.1, parsed.2)
    | _ => none := rfl

section Conversions

variable (garbage : Place → Memory) (later : List UInt8) (others : List Arg) (frame : Frame)

/-- The loop at an address. -/
theorem printLoop_addr (addr : UInt64) :
    printLoop garbage (logBreak :: logAddr :: later) (.word addr :: others) frame =
      (printAddr garbage frame addr.toNat).bind fun printed => printLoop garbage later others printed := rfl

/-- The loop at a string. -/
theorem printLoop_str (str : List UInt8) :
    printLoop garbage (logBreak :: logStr :: later) (.str str :: others) frame =
      printLoop garbage later others (printStr frame str) := rfl

/-- The loop at a number. -/
theorem printLoop_num (num : UInt64) :
    printLoop garbage (logBreak :: logInt :: later) (.word num :: others) frame =
      (printInt garbage frame num.toNat).bind fun printed => printLoop garbage later others printed := rfl

end Conversions

/-- A frame after another, with so many characters more and a condition on numbers. -/
def Prints (before after : Frame) (length : Nat) (short : Prop) : Prop :=
  ∀ count numbers, Tally before count numbers → Tally after (count + length) (numbers ∧ short)

/-- One part of a line and the parts after it. -/
theorem Prints.cons {before middle after : Frame} {item : Item} {rest : List Item}
    (first : Prints before middle item.length item.Short)
    (later : Prints middle after (rest.map Item.length).sum (∀ other ∈ rest, other.Short)) :
    Prints before after ((item :: rest).map Item.length).sum (∀ other ∈ item :: rest, other.Short) := by
  intro count numbers tally
  have all := later _ _ (first count numbers tally)
  rw [Nat.add_assoc] at all
  rw [List.map_cons, List.sum_cons]
  exact all.congr (by rw [List.forall_mem_cons, and_assoc])

/-- Nothing is printed. -/
theorem Prints.nil (frame : Frame) :
    Prints frame frame (([] : List Item).map Item.length).sum (∀ item ∈ ([] : List Item), item.Short) :=
  fun _ _ tally => tally.congr (by simp)

/-- The loop prints the parts of the line, with all that they take. -/
theorem printLoop_spec (garbage : Place → Memory) (frame : Frame) {string : List UInt8} {args : List Arg}
    {parsed : List Item × Bool} (parses : items string args = some parsed) :
    ∃ printed, printLoop garbage string args frame = some (printed, parsed.2) ∧
      Prints frame printed (parsed.1.map Item.length).sum (∀ item ∈ parsed.1, item.Short) := by
  induction string, args using items.induct generalizing frame parsed with
  | case1 args =>
    obtain rfl := Option.some.inj parses
    exact ⟨frame, rfl, Prints.nil frame⟩
  | case2 chr rest args plain ih =>
    unfold items at parses
    rw [if_pos plain] at parses
    obtain ⟨later, parsesLater, rfl⟩ := Option.map_eq_some_iff.mp parses
    obtain ⟨printed, result, prints⟩ := @ih (frame.put chr) _ parsesLater
    refine ⟨printed, ?_, Prints.cons (fun _ _ tally => (tally.put chr).congr (iff_of_eq (and_true _)).symm) prints⟩
    unfold printLoop
    rw [if_pos plain, result]
  | case3 chr args isBreak =>
    unfold items at parses
    rw [if_neg isBreak] at parses
    obtain rfl := Option.some.inj parses
    refine ⟨frame, ?_, Prints.nil frame⟩
    unfold printLoop
    rw [if_neg isBreak]
  | case4 chr isBreak later addr others ih =>
    obtain rfl := not_not.mp isBreak
    rw [items_addr] at parses
    obtain ⟨rest, parsesRest, rfl⟩ := Option.map_eq_some_iff.mp parses
    obtain ⟨middle, first, tallied⟩ := printAddr_spec garbage frame addr
    obtain ⟨printed, result, prints⟩ := @ih middle _ parsesRest
    refine ⟨printed, ?_, Prints.cons (fun _ _ tally => (tallied _ _ tally).congr (iff_of_eq (and_true _)).symm) prints⟩
    rw [printLoop_addr, first, Option.bind_some, result]
  | case5 chr args isBreak later mismatch =>
    obtain rfl := not_not.mp isBreak
    rw [items_addr] at parses
    split at parses
    · exact absurd rfl (mismatch _ _)
    · cases parses
  | case6 chr isBreak later str others _ ih =>
    obtain rfl := not_not.mp isBreak
    rw [items_str] at parses
    obtain ⟨rest, parsesRest, rfl⟩ := Option.map_eq_some_iff.mp parses
    obtain ⟨printed, result, prints⟩ := @ih (printStr frame str) _ parsesRest
    refine ⟨printed, ?_, Prints.cons (fun _ _ tally => (tally.puts str id).congr (iff_of_eq (and_true _)).symm) prints⟩
    rw [printLoop_str, result]
  | case7 chr args isBreak later mismatch _ =>
    obtain rfl := not_not.mp isBreak
    rw [items_str] at parses
    split at parses
    · exact absurd rfl (mismatch _ _)
    · cases parses
  | case8 chr isBreak later num others _ _ ih =>
    obtain rfl := not_not.mp isBreak
    rw [items_num] at parses
    obtain ⟨rest, parsesRest, rfl⟩ := Option.map_eq_some_iff.mp parses
    obtain ⟨middle, first, tallied⟩ := printInt_spec garbage frame num
    obtain ⟨printed, result, prints⟩ := @ih middle _ parsesRest
    refine ⟨printed, ?_, Prints.cons tallied prints⟩
    rw [printLoop_num, first, Option.bind_some, result]
  | case9 chr args isBreak later mismatch _ _ =>
    obtain rfl := not_not.mp isBreak
    rw [items_num] at parses
    split at parses
    · exact absurd rfl (mismatch _ _)
    · cases parses
  | case10 chr args isBreak conversion later notAddr notStr notInt =>
    unfold items at parses
    rw [if_neg isBreak] at parses
    dsimp only at parses
    rw [if_neg notAddr, if_neg notStr, if_neg notInt] at parses
    obtain rfl := Option.some.inj parses
    refine ⟨frame, ?_, Prints.nil frame⟩
    unfold printLoop
    rw [if_neg isBreak]
    dsimp only
    rw [if_neg notAddr, if_neg notStr, if_neg notInt]

/-- Every number of a line is short, if and only if every part is. -/
theorem short_iff (parsed : List Item) :
    (∀ item ∈ parsed, item.Short) ↔ ∀ number, Item.num number ∈ parsed → number.toNat < 10 ^ 16 := by
  constructor
  · exact fun all number member => all (.num number) member
  · intro all item member
    cases item with
    | num number => exact all number member
    | chr _ => trivial
    | addr _ => trivial
    | str _ => trivial

/-- A line is printed, and all its writes are in their arrays, if and only if it fits.

Proof: each piece writes as many characters as its text has, so the line buffer has room exactly if the
sum fits. A number stays in its own buffer exactly if it has at most sixteen digits. -/
theorem writes_inside_iff (garbage : Place → Memory) (timeEnabled : Bool) (uptime : UInt64) {string : List UInt8}
    {args : List Arg} {parsed : List Item × Bool} (parses : items string args = some parsed) :
    ∃ frame, logPrintVa garbage timeEnabled uptime string args = some frame ∧ (Inside frame ↔ Fits parsed) := by
  have word : (if timeEnabled then uptime.toNat else 0) < 2 ^ 64 := by
    split_ifs
    · exact uptime.toNat_lt
    · decide
  obtain ⟨started, first, tallyStarted⟩ := printTime_spec garbage ⟨garbage .buffer, 0, []⟩ word
  obtain ⟨printed, second, prints⟩ := printLoop_spec garbage started parses
  have tally := prints _ _ (tallyStarted 0 True (Tally.start _))
  have fits : ∀ ending, (18 + (parsed.1.map Item.length).sum + ending ≤ maxPath ∧
      True ∧ ∀ item ∈ parsed.1, item.Short) ↔ (∀ number, Item.num number ∈ parsed.1 → number.toNat < 10 ^ 16) ∧
        18 + (parsed.1.map Item.length).sum + ending ≤ maxPath := by
    intro ending
    rw [short_iff, true_and, and_comm]
  refine ⟨if parsed.2 then (printed.put 10).put 0 else printed, ?_, ?_⟩
  · simp only [logPrintVa, first, Option.bind_some, second, Option.map_some]
  · cases complete : parsed.2 with
    | true =>
      refine ((tally.put 10).put 0).inside.trans ?_
      rw [Fits, lineLength, complete, Nat.zero_add]
      exact fits 2
    | false =>
      refine tally.inside.trans ?_
      rw [Fits, lineLength, complete, Nat.zero_add]
      exact fits 0

/-- A line with a number of 16 digits. -/
theorem sixteen_digits_inside : ∃ frame,
    logPrintVa (fun _ _ => 0) true 5000000000 [logBreak, logInt] [.word 9999999999999999] = some frame ∧
      Inside frame := by
  obtain ⟨frame, printed, inside⟩ := writes_inside_iff (fun _ _ => 0) true 5000000000
    (show items [logBreak, logInt] [.word 9999999999999999] = some ([.num 9999999999999999], true) from rfl)
  refine ⟨frame, printed, inside.mpr ⟨fun number only => ?_, by decide⟩⟩
  obtain rfl := Item.num.inj (List.mem_singleton.mp only)
  decide

/-- A number of 17 digits is written behind the end of its array. -/
theorem seventeen_digits_outside : ¬ ∀ frame,
    logPrintVa (fun _ _ => 0) true 5000000000 [logBreak, logInt] [.word 10000000000000000] = some frame →
      Inside frame := by
  intro inside
  exact absurd (inside _ rfl) (by decide)

end Asym.LogLines
