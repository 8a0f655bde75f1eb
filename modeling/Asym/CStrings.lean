import Asym.ByteMemory

/-!
# Strings in a byte memory

A string is the bytes from an address up to the first that is zero. The usual functions walk
over it: they count its bytes, up to a limit or not, and copy it to another place. A walk
without a limit has fuel, and a string is found with more fuel than it has bytes.
-/

namespace Asym.CStrings

open ByteMemory

/-- The number of bytes before the first zero. -/
def strlen : Nat → Memory → Nat → Option Nat
  | 0, _, _ => none
  | fuel + 1, memory, str => if memory str = 0 then some 0 else (strlen fuel memory (str + 1)).map (· + 1)

/-- The number of bytes before the first zero, at most a maximum. -/
def strnlen (memory : Memory) : Nat → Nat → Nat
  | _, 0 => 0
  | str, max + 1 => if memory str = 0 then 0 else strnlen memory (str + 1) max + 1

/-- Copy bytes up to the first zero, and the zero. -/
def strcpy : Nat → Memory → Nat → Nat → Option Memory
  | 0, _, _, _ => none
  | fuel + 1, memory, dest, src =>
      if memory src = 0 then some (Function.update memory dest 0)
      else strcpy fuel (Function.update memory dest (memory src)) (dest + 1) (src + 1)

/-- The bytes from an address up to the first zero. -/
def Holds (memory : Memory) : Nat → List UInt8 → Prop
  | address, [] => memory address = 0
  | address, byte :: rest => byte ≠ 0 ∧ memory address = byte ∧ Holds memory (address + 1) rest

variable {memory : Memory} {address : Nat} {bytes : List UInt8}

/-- Bytes that are not zero before one that is. -/
theorem strlen_eq {length fuel : Nat} (ends : memory (address + length) = 0)
    (nonzero : ∀ index < length, memory (address + index) ≠ 0) (enough : length < fuel) :
    strlen fuel memory address = some length := by
  induction length generalizing address fuel with
  | zero =>
    obtain ⟨fuel, rfl⟩ := Nat.exists_eq_succ_of_ne_zero (Nat.ne_of_gt enough)
    exact if_pos ends
  | succ length ih =>
    obtain ⟨fuel, rfl⟩ := Nat.exists_eq_succ_of_ne_zero (Nat.ne_of_gt (Nat.zero_lt_of_lt enough))
    have later := @ih (address + 1) fuel (by rwa [Nat.add_assoc, Nat.add_comm 1])
      (fun index inside => by
        rw [Nat.add_assoc, Nat.add_comm 1]
        exact nonzero (index + 1) (Nat.succ_lt_succ inside)) (Nat.lt_of_succ_lt_succ enough)
    have here : memory address ≠ 0 := nonzero 0 (Nat.succ_pos _)
    rw [strlen, if_neg here, later, Option.map_some]

/-- The length of a string, up to a maximum. -/
theorem Holds.strnlen (holds : Holds memory address bytes) (max : Nat) :
    strnlen memory address max = min bytes.length max := by
  induction max generalizing address bytes with
  | zero => rw [CStrings.strnlen, Nat.min_zero]
  | succ max ih =>
    cases bytes with
    | nil =>
      have ends : memory address = 0 := holds
      rw [CStrings.strnlen, if_pos ends, List.length_nil, Nat.zero_min]
    | cons byte rest =>
      obtain ⟨nonzero, here, later⟩ := holds
      rw [CStrings.strnlen, if_neg (by rw [here]; exact nonzero), ih later, List.length_cons,
        Nat.add_min_add_right]

/-- A string depends only on its bytes and the zero. -/
theorem Holds.congr {other : Memory} (holds : Holds memory address bytes)
    (same : ∀ offset ≤ bytes.length, other (address + offset) = memory (address + offset)) :
    Holds other address bytes := by
  induction bytes generalizing address with
  | nil => exact (same 0 (Nat.le_refl 0)).trans holds
  | cons byte rest ih =>
    obtain ⟨nonzero, here, later⟩ := holds
    refine ⟨nonzero, (same 0 (Nat.zero_le _)).trans here, ih later ?_⟩
    intro offset inside
    have shifted := same (offset + 1) (by rw [List.length_cons]; omega)
    rwa [Nat.add_comm offset 1, ← Nat.add_assoc] at shifted

/-- The bytes of a string by their places. -/
theorem holds_iff : Holds memory address bytes ↔ memory (address + bytes.length) = 0 ∧
    ∀ index byte, bytes[index]? = some byte → byte ≠ 0 ∧ memory (address + index) = byte := by
  induction bytes generalizing address with
  | nil => simp [Holds]
  | cons first rest ih =>
    rw [Holds, ih, List.length_cons, Nat.add_assoc address 1, Nat.add_comm 1]
    constructor
    · rintro ⟨nonzero, here, ends, later⟩
      refine ⟨ends, ?_⟩
      intro index byte found
      cases index with
      | zero =>
        obtain rfl := Option.some.inj found
        exact ⟨nonzero, here⟩
      | succ index =>
        have shifted := later index byte found
        rwa [Nat.add_assoc, Nat.add_comm 1] at shifted
    · rintro ⟨ends, all⟩
      refine ⟨(all 0 first rfl).1, (all 0 first rfl).2, ends, ?_⟩
      intro index byte found
      have shifted := all (index + 1) byte found
      rwa [Nat.add_comm index 1, ← Nat.add_assoc] at shifted

/-- There is one string at a place. -/
theorem Holds.unique {other : List UInt8} (holds : Holds memory address bytes) (also : Holds memory address other) :
    bytes = other := by
  induction bytes generalizing address other with
  | nil =>
    cases other with
    | nil => rfl
    | cons byte rest => exact absurd (also.2.1.symm.trans holds) also.1
  | cons byte rest ih =>
    cases other with
    | nil => exact absurd (holds.2.1.symm.trans also) holds.1
    | cons first later => rw [holds.2.1.symm.trans also.2.1, ih holds.2.2 also.2.2]

/-- The length of a string. -/
theorem Holds.strlen (holds : Holds memory address bytes) {fuel : Nat} (enough : bytes.length < fuel) :
    strlen fuel memory address = some bytes.length := by
  obtain ⟨ends, nonzero⟩ := holds_iff.mp holds
  refine strlen_eq ends ?_ enough
  intro index inside
  have byte := nonzero index bytes[index] (List.getElem?_eq_getElem inside)
  rw [byte.2]
  exact byte.1

/-- A byte that is put at the end of a string, with a zero behind it. -/
theorem Holds.snoc (holds : Holds memory address bytes) {byte : UInt8} (nonzero : byte ≠ 0) :
    Holds (Function.update (Function.update memory (address + bytes.length) byte) (address + (bytes.length + 1)) 0)
      address (bytes ++ [byte]) := by
  obtain ⟨_, all⟩ := holds_iff.mp holds
  rw [holds_iff, List.length_append, List.length_singleton]
  refine ⟨Function.update_self _ _ _, ?_⟩
  intro index other found
  rcases Nat.lt_trichotomy index bytes.length with inside | rfl | beyond
  · rw [List.getElem?_append_left inside] at found
    rw [Function.update_of_ne (by omega), Function.update_of_ne (by omega)]
    exact all index other found
  · rw [List.getElem?_concat_length] at found
    obtain rfl := Option.some.inj found
    rw [Function.update_of_ne (by omega), Function.update_self]
    exact ⟨nonzero, rfl⟩
  · rw [List.getElem?_eq_none (by rw [List.length_append, List.length_singleton]; omega)] at found
    cases found

/-- A zero that is put over the last byte of a string. -/
theorem Holds.dropLast (holds : Holds memory address bytes) :
    Holds (Function.update memory (address + (bytes.length - 1)) 0) address bytes.dropLast := by
  obtain ⟨_, all⟩ := holds_iff.mp holds
  rw [holds_iff, List.length_dropLast]
  refine ⟨Function.update_self _ _ _, ?_⟩
  intro index other found
  have inside : index < bytes.length - 1 := by
    rw [← List.length_dropLast]
    exact (List.getElem?_eq_some_iff.mp found).1
  rw [List.getElem?_dropLast, if_pos inside] at found
  rw [Function.update_of_ne (by omega)]
  exact all index other found

/-- A copy of a string to a place apart from it. -/
theorem Holds.strcpy (holds : Holds memory address bytes) {fuel dest : Nat} (enough : bytes.length < fuel)
    (apart : dest + bytes.length < address ∨ address + bytes.length < dest) :
    ∃ copied, strcpy fuel memory dest address = some copied ∧ Holds copied dest bytes ∧
      ∀ other, other < dest ∨ dest + bytes.length < other → copied other = memory other := by
  induction fuel generalizing memory address bytes dest with
  | zero => exact absurd enough (Nat.not_lt_zero _)
  | succ fuel ih =>
    cases bytes with
    | nil =>
      refine ⟨Function.update memory dest 0, if_pos holds, Function.update_self _ _ _, ?_⟩
      intro other outside
      rw [List.length_nil] at outside
      exact Function.update_of_ne (by omega) _ _
    | cons byte rest =>
      obtain ⟨nonzero, here, later⟩ := holds
      rw [List.length_cons] at enough apart ⊢
      have laterKept : Holds (Function.update memory dest byte) (address + 1) rest :=
        later.congr fun offset inside => Function.update_of_ne (by omega) _ _
      have laterApart : dest + 1 + rest.length < address + 1 ∨ address + 1 + rest.length < dest + 1 := by omega
      obtain ⟨copied, result, held, kept⟩ := ih laterKept (by omega) laterApart
      refine ⟨copied, ?_, ⟨nonzero, ?_, held⟩, ?_⟩
      · rw [CStrings.strcpy, if_neg (by rw [here]; exact nonzero), here]
        exact result
      · rw [kept dest (by omega), Function.update_self]
      · intro other outside
        rw [kept other (by omega)]
        exact Function.update_of_ne (by omega) _ _

end Asym.CStrings
