import Mathlib.Algebra.Group.Nat.Defs
import Mathlib.Logic.Function.Basic
import Mathlib.Tactic.Common

/-!
# A flat byte memory

Every natural address holds one byte. Multi-byte values are stored with the
least significant byte first, as the machine does. The laws are the usual ones:
a load sees the last store to exactly its bytes, and a store leaves every byte
outside its own interval alone. Wraparound of computed addresses belongs to the
program that computes them; no law here depends on an address width.
-/

namespace Asym.ByteMemory

/-- One byte at every address. -/
abbrev Memory := Nat → UInt8

/-- Read `width` bytes upward from an address, least significant first. -/
def load (memory : Memory) (address : Nat) : Nat → Nat
  | 0 => 0
  | width + 1 => (memory address).toNat + 256 * load memory (address + 1) width

/-- Write the `width` low bytes of a value upward from an address. Higher bytes
of the value are dropped, as a store through a narrower type does. -/
def store (memory : Memory) (address : Nat) : Nat → Nat → Memory
  | 0, _ => memory
  | width + 1, value =>
      store (Function.update memory address (UInt8.ofNat value)) (address + 1) width (value / 256)

/-- A 64-bit load. -/
def load64 (memory : Memory) (address : Nat) : Nat := load memory address 8

/-- A 64-bit store. -/
def store64 (memory : Memory) (address value : Nat) : Memory := store memory address 8 value

/-- Replace `count` bytes from `destination` by the bytes that stood from
`source` on, all read before any is written. -/
def copy (memory : Memory) (destination source count : Nat) : Memory := fun tested =>
  if destination ≤ tested ∧ tested < destination + count then
    memory (source + (tested - destination))
  else memory tested

/-- A store changes no byte outside its interval. -/
theorem store_outside (memory : Memory) (address width value tested : Nat)
    (outside : tested < address ∨ address + width ≤ tested) :
    store memory address width value tested = memory tested := by
  induction width generalizing memory address value with
  | zero => rfl
  | succ width ih =>
    have different : tested ≠ address := by omega
    rw [store, ih _ _ _ (by omega), Function.update_of_ne different]

/-- A load has as many bytes as it reads. -/
theorem load_lt (memory : Memory) (address width : Nat) : load memory address width < 256 ^ width := by
  induction width generalizing address with
  | zero => exact Nat.one_pos
  | succ width ih =>
    have byte := (memory address).toNat_lt
    have later := ih (address + 1)
    simp only [load, Nat.pow_succ]
    omega

/-- Loads of the same bytes from two places. -/
theorem load_moved {first second : Memory} {address other width : Nat}
    (same : ∀ offset < width, first (address + offset) = second (other + offset)) :
    load first address width = load second other width := by
  induction width generalizing address other with
  | zero => rfl
  | succ width ih =>
    have head : first address = second other := same 0 (by omega)
    have tail : load first (address + 1) width = load second (other + 1) width := by
      apply ih
      intro offset inside
      have shifted := same (offset + 1) (by omega)
      rwa [Nat.add_comm offset 1, ← Nat.add_assoc, ← Nat.add_assoc] at shifted
    rw [load, load, head, tail]

/-- A load depends only on the bytes of its interval. -/
theorem load_congr (first second : Memory) (address width : Nat)
    (same : ∀ offset < width, first (address + offset) = second (address + offset)) :
    load first address width = load second address width :=
  load_moved same

/-- A load of the stored interval returns the stored value, reduced to the
width of the store. -/
theorem load_store_same (memory : Memory) (address width value : Nat) :
    load (store memory address width value) address width = value % 256 ^ width := by
  induction width generalizing memory address value with
  | zero => simp [load, Nat.mod_one]
  | succ width ih =>
    have head : store memory address (width + 1) value address = UInt8.ofNat value := by
      rw [store, store_outside _ _ _ _ _ (by omega), Function.update_self]
    have tail : load (store memory address (width + 1) value) (address + 1) width =
        value / 256 % 256 ^ width := by
      rw [store, ih]
    have byte : (UInt8.ofNat value).toNat = value % 256 := UInt8.toNat_ofNat'
    rw [load, head, tail, byte, Nat.pow_succ', Nat.mod_mul]

/-- A load does not see a store to a disjoint interval. -/
theorem load_store_disjoint (memory : Memory) (address width written count value : Nat)
    (disjoint : address + width ≤ written ∨ written + count ≤ address) :
    load (store memory written count value) address width = load memory address width := by
  apply load_congr
  intro offset inside
  exact store_outside _ _ _ _ _ (by omega)

/-- A 64-bit load returns a stored 64-bit value. -/
theorem load64_store64_same (memory : Memory) (address value : Nat) (fits : value < 2 ^ 64) :
    load64 (store64 memory address value) address = value := by
  rw [load64, store64, load_store_same]
  exact Nat.mod_eq_of_lt (by simpa using fits)

/-- A 64-bit load does not see a disjoint 64-bit store. -/
theorem load64_store64_disjoint (memory : Memory) (address written value : Nat)
    (disjoint : address + 8 ≤ written ∨ written + 8 ≤ address) :
    load64 (store64 memory written value) address = load64 memory address :=
  load_store_disjoint memory address 8 written 8 value disjoint

/-- A 64-bit load depends only on its eight bytes. -/
theorem load64_congr (first second : Memory) (address : Nat)
    (same : ∀ offset < 8, first (address + offset) = second (address + offset)) :
    load64 first address = load64 second address :=
  load_congr first second address 8 same

/-- A 64-bit store changes no byte outside its eight. -/
theorem store64_outside (memory : Memory) (address value tested : Nat)
    (outside : tested < address ∨ address + 8 ≤ tested) :
    store64 memory address value tested = memory tested :=
  store_outside memory address 8 value tested outside

/-- Replace `count` bytes from `destination` by the bytes that a function gives to their offsets. -/
def fill (memory : Memory) (destination : Nat) (bytes : Nat → UInt8) (count : Nat) : Memory := fun tested =>
  if destination ≤ tested ∧ tested < destination + count then bytes (tested - destination)
  else memory tested

/-- A fill gives each offset its byte. -/
theorem fill_at (memory : Memory) (destination : Nat) (bytes : Nat → UInt8) {count offset : Nat}
    (inside : offset < count) : fill memory destination bytes count (destination + offset) = bytes offset := by
  rw [fill, if_pos ⟨Nat.le_add_right _ _, Nat.add_lt_add_left inside _⟩, Nat.add_sub_cancel_left]

/-- A fill changes no byte outside its interval. -/
theorem fill_outside (memory : Memory) (destination : Nat) (bytes : Nat → UInt8) {count tested : Nat}
    (outside : tested < destination ∨ destination + count ≤ tested) :
    fill memory destination bytes count tested = memory tested :=
  if_neg (by omega)

/-- The bytes of a store. -/
theorem store_at (memory : Memory) (address value : Nat) {width offset : Nat} (inside : offset < width) :
    store memory address width value (address + offset) = UInt8.ofNat (value / 256 ^ offset) := by
  induction width generalizing memory address value offset with
  | zero => exact absurd inside (Nat.not_lt_zero _)
  | succ width ih =>
    cases offset with
    | zero =>
      rw [store, Nat.add_zero address, store_outside _ _ _ _ _ (.inl (Nat.lt_succ_self _)), Function.update_self,
        Nat.pow_zero, Nat.div_one]
    | succ offset =>
      have shifted := ih (Function.update memory address (UInt8.ofNat value)) (address + 1)
        (value / 256) (Nat.lt_of_succ_lt_succ inside)
      rw [Nat.add_right_comm, Nat.div_div_eq_div_mul, ← Nat.pow_succ'] at shifted
      exact shifted

/-- The bytes of a load. -/
theorem load_at (memory : Memory) (address : Nat) {width offset : Nat} (inside : offset < width) :
    UInt8.ofNat (load memory address width / 256 ^ offset) = memory (address + offset) := by
  induction width generalizing address offset with
  | zero => exact absurd inside (Nat.not_lt_zero _)
  | succ width ih =>
    have byte := (memory address).toNat_lt
    cases offset with
    | zero =>
      rw [load, Nat.pow_zero, Nat.div_one, Nat.add_zero address]
      apply UInt8.toNat_inj.mp
      rw [UInt8.toNat_ofNat', Nat.add_mul_mod_self_left, Nat.mod_eq_of_lt byte]
    | succ offset =>
      have quotient : ((memory address).toNat + 256 * load memory (address + 1) width) / 256 =
          load memory (address + 1) width := by omega
      rw [load, Nat.pow_succ', ← Nat.div_div_eq_div_mul, quotient,
        ih (address + 1) (Nat.lt_of_succ_lt_succ inside), Nat.add_right_comm, Nat.add_assoc]

/-- A store behind a fill extends it. -/
theorem store_fill (memory : Memory) (destination : Nat) (bytes : Nat → UInt8) {count width value : Nat}
    (same : ∀ offset < width, UInt8.ofNat (value / 256 ^ offset) = bytes (count + offset)) :
    store (fill memory destination bytes count) (destination + count) width value =
      fill memory destination bytes (count + width) := by
  funext tested
  rcases Nat.lt_or_ge tested (destination + count) with before | behind
  · rw [store_outside _ _ _ _ _ (.inl before), fill, fill]
    exact if_congr (by omega) rfl rfl
  · rcases Nat.lt_or_ge tested (destination + count + width) with inside | beyond
    · obtain ⟨offset, rfl⟩ := Nat.exists_eq_add_of_le behind
      rw [store_at _ _ _ (Nat.lt_of_add_lt_add_left inside), same _ (Nat.lt_of_add_lt_add_left inside), Nat.add_assoc,
        fill_at _ _ _ (Nat.add_lt_add_left (Nat.lt_of_add_lt_add_left inside) _)]
    · rw [store_outside _ _ _ _ _ (.inr beyond), fill_outside _ _ _ (.inr (by omega)),
        fill_outside _ _ _ (.inr (by omega))]

/-- A store of the byte before a fill extends it. -/
theorem store_fill_back (memory : Memory) (destination : Nat) (bytes : Nat → UInt8) {count value : Nat}
    (same : UInt8.ofNat value = bytes 0) :
    store (fill memory (destination + 1) (fun offset => bytes (1 + offset)) count) destination 1 value =
      fill memory destination bytes (1 + count) := by
  funext tested
  rcases Nat.lt_trichotomy tested destination with before | rfl | behind
  · rw [store_outside _ _ _ _ _ (.inl before), fill_outside _ _ _ (.inl (by omega)),
      fill_outside _ _ _ (.inl before)]
  · have byte := store_at (fill memory (tested + 1) (fun offset => bytes (1 + offset)) count) tested value Nat.one_pos
    rw [Nat.pow_zero, Nat.div_one, same, ← fill_at memory tested bytes (Nat.add_pos_left Nat.one_pos count)] at byte
    exact byte
  · obtain ⟨offset, rfl⟩ := Nat.exists_eq_add_of_le behind
    rw [store_outside _ _ _ _ _ (.inr (by omega))]
    rcases Nat.lt_or_ge offset count with inside | beyond
    · rw [Nat.succ_eq_add_one, fill_at _ _ _ inside, Nat.add_assoc, fill_at _ _ _ (Nat.add_lt_add_left inside 1)]
    · rw [fill_outside _ _ _ (.inr (by omega)), fill_outside _ _ _ (.inr (by omega))]

end Asym.ByteMemory
