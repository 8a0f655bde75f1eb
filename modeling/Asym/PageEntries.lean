import Asym.PhysicalMemory
import Mathlib.Tactic.Common

/-!
# Page table entries

An entry of `pml.c` packs a 40-bit frame number into bits 12 to 51 and flags
into the remaining bits. The macros that build and take apart an entry are
translated with the masks and shifts of the source. The laws read an entry as a
frame and a set of flags: building keeps both apart as long as the flags stay
below bit 12.
-/

namespace Asym.PageEntries

open MachineWords PhysicalMemory

/-- `PAGE_PRESENT`. -/
def pagePresent : Nat := 1 <<< 0

/-- `PAGE_WRITE`. -/
def pageWrite : Nat := 1 <<< 1

/-- `PAGE_USER`. -/
def pageUser : Nat := 1 <<< 2

/-- `PAGE_GLOBAL`. -/
def pageGlobal : Nat := 1 <<< 8

/-- `PAGE_OWNED`: the frame is released when the page is unmapped. -/
def pageOwned : Nat := 1 <<< 9

/-- `VMM_HIGHER_TO_LOWER`. -/
def higherToLower (address : Nat) : Nat := sub address vmmHigherHalfBase

/-- `page_entry_create`. -/
def pageEntryCreate (physAddr flags : Nat) : Nat :=
  (((physAddr >>> 12) &&& 0x000000FFFFFFFFFF) <<< 12) ||| (flags ||| pagePresent)

/-- Physical address bits of an entry, as `PAGE_ENTRY_GET_ADDRESS` masks them. -/
def entryPhysical (entry : Nat) : Nat := entry &&& 0x000FFFFFFFFFF000

/-- `PAGE_ENTRY_GET_ADDRESS`: the higher-half address of the entry's frame. -/
def pageEntryGetAddress (entry : Nat) : Nat := lowerToHigher (entryPhysical entry)

/-- `PML_GET_INDEX`. -/
def pmlGetIndex (address level : Nat) : Fin 512 :=
  ⟨(address >>> ((level - 1) * 9 + 12)) &&& 0x1FF, Nat.lt_succ_of_le Nat.and_le_right⟩

/-- Test of the present bit. -/
def present (entry : Nat) : Bool := entry &&& pagePresent != 0

/-- Frame number of an entry. -/
def entryFrame (entry : Nat) : Nat := entryPhysical entry / pageSize

/-- All bits of an entry outside the frame number. -/
def entryFlags (entry : Nat) : Nat := entry &&& 0xFFF0000000000FFF

/-- The frame mask selects bits 12 to 51. -/
theorem physical_mask_bit (position : Nat) :
    Nat.testBit 0x000FFFFFFFFFF000 position = decide (12 ≤ position ∧ position < 52) := by
  have shifted : 0x000FFFFFFFFFF000 = (2 ^ 40 - 1) <<< 12 := by decide
  rw [shifted, Nat.testBit_shiftLeft, Nat.testBit_two_pow_sub_one]
  by_cases low : 12 ≤ position <;> simp [low]
  omega

/-- Masking an entry keeps its frame number, at its place. -/
theorem physical_eq (entry : Nat) : entryPhysical entry = entry / 4096 % 2 ^ 40 * 4096 := by
  apply Nat.eq_of_testBit_eq
  intro position
  have scaled : entry / 4096 % 2 ^ 40 * 4096 = (entry >>> 12 % 2 ^ 40) <<< 12 := by
    rw [Nat.shiftLeft_eq, Nat.shiftRight_eq_div_pow]
  rw [entryPhysical, scaled, Nat.testBit_and, physical_mask_bit, Nat.testBit_shiftLeft,
    Nat.testBit_mod_two_pow, Nat.testBit_shiftRight]
  by_cases low : 12 ≤ position
  · have place : 12 + (position - 12) = position := by omega
    have range : position - 12 < 40 ↔ position < 52 := by omega
    simp [low, place, range, Bool.and_comm]
  · simp [low]

/-- The present bit is the lowest one. -/
theorem present_eq (entry : Nat) : present entry = entry.testBit 0 := by
  have parity : entry % 2 = 0 ∨ entry % 2 = 1 := by omega
  rcases parity with even | odd
  · simp [present, pagePresent, Nat.testBit_zero, Nat.and_one_is_mod, even]
  · simp [present, pagePresent, Nat.testBit_zero, Nat.and_one_is_mod, odd]

/-- Masking with a single bit leaves that bit or nothing. -/
theorem and_single_bit (value bit : Nat) :
    value &&& 2 ^ bit = if value.testBit bit then 2 ^ bit else 0 := by
  apply Nat.eq_of_testBit_eq
  intro position
  rw [Nat.testBit_and, Nat.testBit_two_pow]
  by_cases same : bit = position
  · subst same
    cases value.testBit bit <;> simp
  · cases value.testBit bit <;> simp [same]

/-- A built entry is a frame number at bit 12 over twelve bits of flags. -/
theorem create_eq (physAddr flags : Nat) (small : flags < 2 ^ 12) :
    pageEntryCreate physAddr flags = physAddr / 4096 % 2 ^ 40 * 4096 + (flags ||| pagePresent) := by
  have low : flags ||| pagePresent < 2 ^ 12 := Nat.or_lt_two_pow small (by decide)
  have frame : (physAddr >>> 12) &&& 0x000000FFFFFFFFFF = physAddr / 4096 % 2 ^ 40 := by
    have mask : 0x000000FFFFFFFFFF = 2 ^ 40 - 1 := by decide
    rw [mask, Nat.and_two_pow_sub_one_eq_mod, Nat.shiftRight_eq_div_pow]
  rw [pageEntryCreate, frame, ← Nat.shiftLeft_add_eq_or_of_lt low, Nat.shiftLeft_eq]

/-- A built entry is present. -/
theorem create_present (physAddr flags : Nat) : present (pageEntryCreate physAddr flags) = true := by
  rw [present_eq, pageEntryCreate, Nat.testBit_or, Nat.testBit_or]
  simp [pagePresent]

/-- A built entry carries the frame it was built from. -/
theorem create_physical (physAddr flags : Nat) (small : flags < 2 ^ 12) :
    entryPhysical (pageEntryCreate physAddr flags) = physAddr / 4096 % 2 ^ 40 * 4096 := by
  have low : flags ||| pagePresent < 2 ^ 12 := Nat.or_lt_two_pow small (by decide)
  rw [physical_eq, create_eq physAddr flags small]
  omega

/-- The flag mask of an entry below bit 52 selects its twelve low bits. -/
theorem flags_eq (entry : Nat) (bounded : entry < 2 ^ 52) : entryFlags entry = entry % 2 ^ 12 := by
  apply Nat.eq_of_testBit_eq
  intro position
  rw [entryFlags, Nat.testBit_and, Nat.testBit_mod_two_pow]
  by_cases low : position < 12
  · have set : ∀ position < 12, Nat.testBit 0xFFF0000000000FFF position = true := by decide
    simp [low, set position low]
  · by_cases middle : position < 52
    · have clear : ∀ position < 52, 12 ≤ position → Nat.testBit 0xFFF0000000000FFF position = false := by
        decide
      simp [low, clear position middle (by omega)]
    · have absent : entry.testBit position = false :=
        Nat.testBit_lt_two_pow (Nat.lt_of_lt_of_le bounded (Nat.pow_le_pow_right (by decide) (by omega)))
      simp [low, absent]

/-- A built entry carries exactly the flags it was built from, and the present
bit. -/
theorem create_flags (physAddr flags : Nat) (small : flags < 2 ^ 12) :
    entryFlags (pageEntryCreate physAddr flags) = flags ||| pagePresent := by
  have low : flags ||| pagePresent < 2 ^ 12 := Nat.or_lt_two_pow small (by decide)
  rw [flags_eq _ (by rw [create_eq physAddr flags small]; omega), create_eq physAddr flags small]
  omega

/-- The link built for a higher-half page leads back to that page. -/
theorem create_address {page flags : Nat} (small : flags < 2 ^ 12) (aligned : page % pageSize = 0)
    (higher : vmmHigherHalfBase ≤ page) (bounded : page < wordSize) :
    pageEntryGetAddress (pageEntryCreate (higherToLower page) flags) = page := by
  rw [pageEntryGetAddress, create_physical _ _ small]
  simp only [lowerToHigher, higherToLower, add, sub, vmmHigherHalfBase, pageSize, wordSize] at *
  omega

/-- Rebuilding an entry from its own address keeps its frame. -/
theorem rebuild_physical (entry flags : Nat) (small : flags < 2 ^ 12) :
    entryPhysical (pageEntryCreate (higherToLower (pageEntryGetAddress entry)) flags) =
      entryPhysical entry := by
  rw [create_physical _ _ small, pageEntryGetAddress, physical_eq]
  simp only [lowerToHigher, higherToLower, add, sub, vmmHigherHalfBase, wordSize] at *
  omega

/-- Page number of a virtual address: bits 12 to 47. -/
def pageNumber (address : Nat) : Nat := address / pageSize % 2 ^ 36

/-- The index of a level is nine bits of the page number. -/
theorem index_val (address level : Nat) (low : 1 ≤ level) (high : level ≤ 4) :
    (pmlGetIndex address level).val = pageNumber address / 2 ^ ((level - 1) * 9) % 512 := by
  have mask : (0x1FF : Nat) = 2 ^ 9 - 1 := by decide
  have read : (pmlGetIndex address level).val = address / 2 ^ ((level - 1) * 9 + 12) % 512 := by
    rw [pmlGetIndex]
    simp only [mask]
    rw [Nat.and_two_pow_sub_one_eq_mod, Nat.shiftRight_eq_div_pow]
  rw [read]
  simp only [pageNumber, pageSize]
  have levels : level = 1 ∨ level = 2 ∨ level = 3 ∨ level = 4 := by omega
  rcases levels with rfl | rfl | rfl | rfl <;> omega

end Asym.PageEntries
