import Asym.PhysicalMemory
import Mathlib.Tactic.Common

/-!
# The bitmap of special pages

A set bit marks a reserved page. The byte arithmetic of `pmm.c` is related once
to single bits: reserving a range sets exactly its bits, releasing a page clears
exactly its bit. The search is then sound in terms of bits: a range it returns
has the requested length and none of its bits was set.
-/

namespace Asym.PageBitmap

open MachineWords PhysicalMemory

/-- The bit of one special page. -/
def reservedBit (map : List (BitVec 8)) (index : Nat) : Bool :=
  (map.getD (index / 8) 0#8).getLsbD (index % 8)

/-- Testing a byte against a one-bit mask reads that bit. -/
theorem mask_test (byte : BitVec 8) (bit : Nat) (inside : bit < 8) :
    (byte &&& (1#8 <<< bit) != 0#8) = byte.getLsbD bit := by
  rw [← BitVec.twoPow_eq, BitVec.and_twoPow]
  cases byte.getLsbD bit
  · simp
  · have nonzero : BitVec.twoPow 8 bit ≠ 0#8 := by
      intro zero
      have read : (BitVec.twoPow 8 bit).getLsbD bit = (0#8).getLsbD bit := by rw [zero]
      simp [inside] at read
    simpa using nonzero

/-- The bounds-checked test reads the page's bit. -/
theorem reserved_eq (bitmap : PageBitmap) (index : Nat) (inside : index < specialPages) :
    pageBitmapReserved bitmap index = some (reservedBit bitmap.map index) := by
  rw [pageBitmapReserved, if_pos inside, mask_test _ _ (Nat.mod_lt _ (by decide)), reservedBit]

/-- Replacing the byte of one page changes other pages' bits only inside that
byte. -/
theorem bit_set (map : List (BitVec 8)) (index tested : Nat) (byte : BitVec 8)
    (stored : index / 8 < map.length) :
    reservedBit (map.set (index / 8) byte) tested =
      if tested / 8 = index / 8 then byte.getLsbD (tested % 8) else reservedBit map tested := by
  by_cases sameByte : tested / 8 = index / 8
  · simp [reservedBit, sameByte, List.getD_eq_getElem?_getD, List.getElem?_set_self stored]
  · simp [reservedBit, sameByte, List.getD_eq_getElem?_getD, List.getElem?_set_ne (Ne.symm sameByte)]

/-- Setting one page's bit leaves every other bit alone. -/
theorem bit_reserve (map : List (BitVec 8)) (index tested : Nat) (stored : index / 8 < map.length) :
    reservedBit (map.set (index / 8) (map.getD (index / 8) 0#8 ||| (1#8 <<< (index % 8)))) tested =
      (reservedBit map tested || decide (tested = index)) := by
  rw [bit_set map index tested _ stored]
  by_cases sameByte : tested / 8 = index / 8
  · have samePage : tested % 8 = index % 8 ↔ tested = index := by omega
    rw [if_pos sameByte, ← BitVec.twoPow_eq, BitVec.getLsbD_or, BitVec.getLsbD_twoPow]
    simp [reservedBit, sameByte, Nat.mod_lt _ (by decide : 0 < 8), ← samePage, eq_comm]
  · have different : tested ≠ index := fun same => sameByte (same ▸ rfl)
    simp [sameByte, different]

/-- Clearing one page's bit leaves every other bit alone. -/
theorem bit_release {map : List (BitVec 8)} (index tested : Nat) (stored : index / 8 < map.length) :
    reservedBit (map.set (index / 8) (map.getD (index / 8) 0#8 &&& ~~~(1#8 <<< (index % 8)))) tested =
      (reservedBit map tested && decide (tested ≠ index)) := by
  rw [bit_set map index tested _ stored]
  by_cases sameByte : tested / 8 = index / 8
  · have samePage : tested % 8 = index % 8 ↔ tested = index := by omega
    rw [if_pos sameByte, ← BitVec.twoPow_eq, BitVec.getLsbD_and, BitVec.getLsbD_not,
      BitVec.getLsbD_twoPow]
    simp [reservedBit, sameByte, Nat.mod_lt _ (by decide : 0 < 8), ← samePage, eq_comm]
  · have different : tested ≠ index := fun same => sameByte (same ▸ rfl)
    simp [sameByte, different]

/-- Reserving a range keeps the size of the map and sets exactly the bits of the
range. -/
theorem reserve_bits (map : List (BitVec 8)) (low count : Nat) (stored : low + count ≤ 8 * map.length) :
    (reserveBits map low count).length = map.length ∧
      ∀ tested, reservedBit (reserveBits map low count) tested =
        (reservedBit map tested || decide (low ≤ tested ∧ tested < low + count)) := by
  induction count generalizing map low with
  | zero =>
    refine ⟨rfl, fun tested => ?_⟩
    have empty : ¬ (low ≤ tested ∧ tested < low + 0) := by omega
    rw [reserveBits, decide_eq_false empty, Bool.or_false]
  | succ count ih =>
    have first : low / 8 < map.length := by omega
    obtain ⟨length, bits⟩ := ih
      (map.set (low / 8) (map.getD (low / 8) 0#8 ||| (1#8 <<< (low % 8)))) (low + 1)
      (by rw [List.length_set]; omega)
    refine ⟨by rw [reserveBits, length, List.length_set], fun tested => ?_⟩
    have range : (low ≤ tested ∧ tested < low + (count + 1)) ↔
        tested = low ∨ (low + 1 ≤ tested ∧ tested < low + 1 + count) := by omega
    rw [reserveBits, bits, bit_reserve map low tested first, decide_eq_decide.mpr range,
      Bool.decide_or, Bool.or_assoc]

/-- A run that reached the requested count consists of unreserved pages. The
loop has already passed the pages from `first` up to `next`. -/
theorem run_sound (bitmap : PageBitmap) (count first remaining next stop : Nat)
    (started : first ≤ next) (bounded : next + remaining ≤ specialPages)
    (passed : ∀ index, first ≤ index → index < next → reservedBit bitmap.map index = false)
    (found : pageBitmapRun bitmap count first remaining next = some (true, stop)) :
    stop = first + count ∧ stop < specialPages ∧
      ∀ index, first ≤ index → index < stop → reservedBit bitmap.map index = false := by
  induction remaining generalizing next with
  | zero => simp [pageBitmapRun] at found
  | succ remaining ih =>
    by_cases enough : next - first = count
    · have same : next = stop := by simpa [pageBitmapRun, enough] using found
      subst same
      exact ⟨by omega, by omega, passed⟩
    · have inside : next < specialPages := by omega
      rw [pageBitmapRun, if_neg enough, reserved_eq bitmap next inside] at found
      cases free : reservedBit bitmap.map next with
      | true => simp [free] at found
      | false =>
        refine ih (next + 1) (by omega) (by omega) ?_ (by simpa [free] using found)
        intro index lower upper
        rcases Nat.lt_succ_iff_lt_or_eq.mp upper with earlier | rfl
        · exact passed index lower earlier
        · exact free

/-- Every range the search returns has the requested length and consists of
unreserved pages. -/
theorem search_sound (bitmap : PageBitmap) (count limit stride fuel start first stop : Nat)
    (bounded : limit ≤ specialPages)
    (found : pageBitmapSearch bitmap count limit stride fuel start = some (some (first, stop))) :
    stop = first + count ∧ stop < specialPages ∧
      ∀ index, first ≤ index → index < stop → reservedBit bitmap.map index = false := by
  induction fuel generalizing start with
  | zero =>
    by_cases inside : start < limit <;> simp [pageBitmapSearch, inside] at found
  | succ fuel ih =>
    by_cases inside : start < limit
    · rw [pageBitmapSearch, if_pos inside, reserved_eq bitmap start (by omega)] at found
      cases taken : reservedBit bitmap.map start with
      | true => exact ih _ (by simpa [taken] using found)
      | false =>
        cases run : pageBitmapRun bitmap count start (limit - (start + 1)) (start + 1) with
        | none => simp [taken, run] at found
        | some answer =>
          obtain ⟨complete, stopped⟩ := answer
          cases complete with
          | false => exact ih _ (by simpa [taken, run] using found)
          | true =>
            have same : start = first ∧ stopped = stop := by simpa [taken, run] using found
            obtain ⟨rfl, rfl⟩ := same
            refine run_sound bitmap count start _ _ stopped (by omega) (by omega) ?_ run
            intro index lower upper
            have here : index = start := by omega
            exact here ▸ taken
    · simp [pageBitmapSearch, inside] at found

end Asym.PageBitmap
