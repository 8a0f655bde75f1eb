import Asym.PageBitmap
import Asym.PageStack
import Asym.Runs
import Mathlib.Data.Finset.Basic
import Mathlib.Data.Finset.Lattice.Lemmas

/-!
# Physical pages are held by one owner at a time

A world is the allocator together with the pages somebody holds. Its steps are
the public operations of `pmm.c`, in any order, and arbitrary writes by holders
into the pages they hold. Holders free only what they hold, and `pmm_alloc` is
called only while the stack has a buffer.

The invariant separates three kinds of pages: those of the stack's chain, those
whose bit is clear, and those that are held. Loading the memory map is itself a
sequence of frees by an owner that holds every available page first, so the
invariant of runs also covers initialization.
-/

namespace Asym.PhysicalRuns

open ByteMemory MachineWords PhysicalMemory PageBitmap PageStack

/-- The allocator and the pages that are currently held. -/
structure World where
  pmm : Pmm
  held : Finset Nat

/-- One public operation, or one byte written by the holder of its page. -/
inductive Step : World → World → Prop
  | alloc (pmm next : Pmm) (held : Finset Nat) (page : Nat) (available : pmm.stack.last ≠ 0)
      (returned : pmmAlloc pmm = some (page, next)) :
      Step ⟨pmm, held⟩ ⟨next, insert page held⟩
  | allocSpecial (pmm next : Pmm) (held : Finset Nat) (count maxAddr alignment address : Nat)
      (returned : pmmAllocSpecial pmm count maxAddr alignment = some (address, next)) :
      Step ⟨pmm, held⟩ ⟨next, held ∪ (pagesFrom address count).toFinset⟩
  | free (pmm next : Pmm) (held : Finset Nat) (address : Nat)
      (owned : roundDown address pageSize ∈ held) (released : pmmFree pmm address = some next) :
      Step ⟨pmm, held⟩ ⟨next, held.erase (roundDown address pageSize)⟩
  | freePages (pmm next : Pmm) (held : Finset Nat) (address count : Nat)
      (distinct : (pagesFrom (roundDown address pageSize) count).Nodup)
      (owned : ∀ page ∈ pagesFrom (roundDown address pageSize) count, page ∈ held)
      (released : pmmFreePages pmm address count = some next) :
      Step ⟨pmm, held⟩ ⟨next, held \ (pagesFrom (roundDown address pageSize) count).toFinset⟩
  | write (pmm : Pmm) (held : Finset Nat) (address : Nat) (value : UInt8)
      (owned : roundDown address pageSize ∈ held) :
      Step ⟨pmm, held⟩ ⟨{ pmm with memory := Function.update pmm.memory address value }, held⟩

/-- Higher-half address of the special page with the given bit. -/
def specialPage (index : Nat) : Nat := index * pageSize + vmmHigherHalfBase

/-- No page that an allocator could return is held: the chain of the stack avoids
the held pages, and a held special page has its bit set. -/
structure Separated (world : World) : Prop where
  stack : ∃ chain, Represents world.pmm chain ∧ ∀ page ∈ stacked chain, page ∉ world.held
  size : world.pmm.bitmap.map.length = specialPages / 8
  aligned : ∀ page ∈ world.held, page % pageSize = 0 ∧ page < wordSize
  reserved : ∀ index < specialPages, specialPage index ∈ world.held →
    reservedBit world.pmm.bitmap.map index = true

/-- The pages of the special range lie below every stack page. -/
theorem special_lt (index : Nat) (inside : index < specialPages) :
    specialPage index < pmmMaxSpecialAddr + vmmHigherHalfBase := by
  simp only [specialPage, specialPages, pmmMaxSpecialAddr, pageSize, vmmHigherHalfBase] at *
  omega

/-- A special page is an aligned machine address. -/
theorem special_aligned (index : Nat) (inside : index < specialPages) :
    specialPage index % pageSize = 0 ∧ specialPage index < wordSize := by
  simp only [specialPage, specialPages, pmmMaxSpecialAddr, pageSize, vmmHigherHalfBase, wordSize] at *
  omega

/-- A successful bitmap release is of a page of the special range. Below the
higher half the wrapped difference indexes far beyond the map. -/
theorem bitmap_free_page {pmm next : Pmm} {page : Nat} (aligned : page % pageSize = 0)
    (bounded : page < wordSize) (released : pageBitmapFree pmm page = some next) :
    ∃ index, index < specialPages ∧ page = specialPage index ∧
      sub page vmmHigherHalfBase / pageSize = index := by
  by_cases inside : sub page vmmHigherHalfBase / pageSize < specialPages
  · refine ⟨_, inside, ?_, rfl⟩
    simp only [sub, specialPage, specialPages, pmmMaxSpecialAddr, pageSize, vmmHigherHalfBase,
      wordSize] at *
    omega
  · simp [pageBitmapFree, inside] at released

/-- Releasing one held page keeps the separation; the page is no longer held. -/
theorem free_separated (pmm next : Pmm) (held : Finset Nat) (page : Nat)
    (separated : Separated ⟨pmm, held⟩) (owned : page ∈ held)
    (released : pmmFreeUnlocked pmm page = some next) : Separated ⟨next, held.erase page⟩ := by
  obtain ⟨⟨chain, represented, apart⟩, size, aligned, reserved⟩ := separated
  have stillAligned : ∀ other ∈ held.erase page, other % pageSize = 0 ∧ other < wordSize :=
    fun other member => aligned other (Finset.mem_of_mem_erase member)
  by_cases onStack : pmmMaxSpecialAddr + vmmHigherHalfBase ≤ page
  · have result : pageStackFree pmm page = next := by
      simpa [pmmFreeUnlocked, onStack] using released
    have valid : StackPage page := ⟨(aligned page owned).1, onStack, (aligned page owned).2⟩
    obtain ⟨grown, nextRepresented, reorder, bitmap⟩ := free_represents represented
      valid (fun member => apart page member owned)
    rw [result] at nextRepresented bitmap
    refine ⟨⟨grown, nextRepresented, ?_⟩, bitmap ▸ size, stillAligned, ?_⟩
    · intro other member stillHeld
      rcases List.mem_cons.mp (reorder.subset member) with rfl | old
      · exact Finset.notMem_erase other held stillHeld
      · exact apart other old (Finset.mem_of_mem_erase stillHeld)
    · intro index inside stillHeld
      rw [bitmap]
      exact reserved index inside (Finset.mem_of_mem_erase stillHeld)
  · have result : pageBitmapFree pmm page = some next := by
      simpa [pmmFreeUnlocked, onStack] using released
    obtain ⟨index, inside, here, indexed⟩ :=
      bitmap_free_page (aligned page owned).1 (aligned page owned).2 result
    have effect : next = { pmm with
        bitmap := {
          map := pmm.bitmap.map.set (index / 8)
            (pmm.bitmap.map.getD (index / 8) 0#8 &&& ~~~(1#8 <<< (index % 8)))
          firstFreeIndex := min pmm.bitmap.firstFreeIndex index }
        freePageAmount := add pmm.freePageAmount 1 } := by
      simpa [pageBitmapFree, indexed, inside, eq_comm] using result
    subst effect
    have stored : index / 8 < pmm.bitmap.map.length := by
      rw [size]
      simp only [specialPages, pmmMaxSpecialAddr, pageSize] at *
      omega
    refine ⟨⟨chain, ⟨represented.buffers, represented.bounded, represented.distinct,
      represented.pages⟩, ?_⟩, by simpa using size, stillAligned, ?_⟩
    · intro other member stillHeld
      exact apart other member (Finset.mem_of_mem_erase stillHeld)
    · intro tested testedInside stillHeld
      have different : tested ≠ index := by
        rintro rfl
        exact Finset.notMem_erase page held (here ▸ stillHeld)
      rw [bit_release _ _ stored,
        reserved tested testedInside (Finset.mem_of_mem_erase stillHeld)]
      simp [different]

/-- Releasing distinct held pages one after the other keeps the separation. -/
theorem free_pages_separated (pages : List Nat) (pmm next : Pmm) (held : Finset Nat)
    (separated : Separated ⟨pmm, held⟩) (distinct : pages.Nodup) (owned : ∀ page ∈ pages, page ∈ held)
    (released : pages.foldlM pmmFreeUnlocked pmm = some next) :
    Separated ⟨next, held \ pages.toFinset⟩ := by
  induction pages generalizing pmm held with
  | nil =>
    have same : pmm = next := by simpa using released
    subst same
    simpa using separated
  | cons page rest ih =>
    obtain ⟨absent, restDistinct⟩ := List.nodup_cons.mp distinct
    cases first : pmmFreeUnlocked pmm page with
    | none => simp [first] at released
    | some middle =>
      have step := free_separated pmm middle held page separated (owned page List.mem_cons_self) first
      have restOwned : ∀ other ∈ rest, other ∈ held.erase page := by
        intro other member
        refine Finset.mem_erase.mpr ⟨?_, owned other (List.mem_cons_of_mem _ member)⟩
        rintro rfl
        exact absent member
      have done := ih middle _ step restDistinct restOwned
        (by simpa [first] using released)
      rwa [List.toFinset_cons, Finset.sdiff_insert, ← Finset.erase_sdiff_comm]

/-- An allocation from a stack with a buffer returns a page of the chain, and the
page leaves the chain. -/
theorem alloc_returns {pmm : Pmm} {held : Finset Nat} (separated : Separated ⟨pmm, held⟩)
    (available : pmm.stack.last ≠ 0) :
    ∃ page next, pmmAlloc pmm = some (page, next) ∧ page ∉ held ∧
      Separated ⟨next, insert page held⟩ := by
  obtain ⟨⟨chain, represented, apart⟩, size, aligned, reserved⟩ := separated
  obtain ⟨rest, lost, remaining, pages, -, -, bitmap, -⟩ :=
    alloc_represents pmm chain represented available
  have taken : ((pageStackAlloc pmm).1 :: stacked rest).Sublist
      ((pageStackAlloc pmm).1 :: (lost ++ stacked rest)) :=
    (List.sublist_append_right lost _).cons_cons _
  have within : ∀ page ∈ (pageStackAlloc pmm).1 :: stacked rest, page ∈ stacked chain :=
    fun page member => pages.mem_iff.mpr (taken.subset member)
  have member : (pageStackAlloc pmm).1 ∈ stacked chain := within _ List.mem_cons_self
  have valid : StackPage (pageStackAlloc pmm).1 := represented.pages _ member
  have unique : ((pageStackAlloc pmm).1 :: stacked rest).Nodup :=
    (pages.nodup_iff.mp represented.distinct).sublist taken
  refine ⟨(pageStackAlloc pmm).1, (pageStackAlloc pmm).2, ?_, apart _ member,
    ⟨⟨rest, remaining, ?_⟩, bitmap ▸ size, ?_, ?_⟩⟩
  · simp [pmmAlloc, stack_page_nonzero _ valid]
  · intro page inRest nowHeld
    rcases Finset.mem_insert.mp nowHeld with rfl | before
    · exact (List.nodup_cons.mp unique).1 inRest
    · exact apart page (within page (List.mem_cons_of_mem _ inRest)) before
  · intro page nowHeld
    rcases Finset.mem_insert.mp nowHeld with rfl | before
    · exact ⟨valid.1, valid.2.2⟩
    · exact aligned page before
  · intro index inside nowHeld
    have below : specialPage index ≠ (pageStackAlloc pmm).1 :=
      Nat.ne_of_lt (Nat.lt_of_lt_of_le (special_lt index inside) valid.2.1)
    rw [bitmap]
    exact reserved index inside ((Finset.mem_insert.mp nowHeld).resolve_left below)

/-- The pages of a returned special range are consecutive special pages. -/
theorem special_range (first count : Nat) (inside : first + count < specialPages) (page : Nat) :
    page ∈ pagesFrom (add (first * pageSize) vmmHigherHalfBase) count ↔
      ∃ index, first ≤ index ∧ index < first + count ∧ page = specialPage index := by
  simp only [pagesFrom, List.mem_map, List.mem_range]
  constructor
  · rintro ⟨offset, within, rfl⟩
    refine ⟨first + offset, by omega, by omega, ?_⟩
    simp only [add, specialPage, specialPages, pmmMaxSpecialAddr, pageSize, vmmHigherHalfBase,
      wordSize] at *
    omega
  · rintro ⟨index, lower, upper, rfl⟩
    refine ⟨index - first, by omega, ?_⟩
    simp only [add, specialPage, specialPages, pmmMaxSpecialAddr, pageSize, vmmHigherHalfBase,
      wordSize] at *
    omega

/-- Distinct bits have distinct pages. -/
theorem special_injective (first second : Nat) (same : specialPage first = specialPage second) :
    first = second := by
  simp only [specialPage, pageSize] at same
  omega

/-- A returned special range is a range that `page_bitmap_alloc` found. -/
theorem alloc_special_found {pmm next : Pmm} {count maxAddr alignment address : Nat}
    (returned : pmmAllocSpecial pmm count maxAddr alignment = some (address, next)) :
    pageBitmapAlloc pmm count maxAddr alignment = some (address, next) ∧ address ≠ 0 := by
  cases attempt : pageBitmapAlloc pmm count maxAddr alignment with
  | none => simp [pmmAllocSpecial, attempt] at returned
  | some result =>
    by_cases null : result.1 = 0
    · simp [pmmAllocSpecial, attempt, null] at returned
    · have same : result = (address, next) := by simpa [pmmAllocSpecial, attempt, null] using returned
      subst same
      exact ⟨rfl, null⟩

/-- A successful special allocation reserves a range of clear bits and returns the
address of its first page. -/
theorem alloc_special_effect {pmm next : Pmm} {count maxAddr alignment address : Nat}
    (returned : pmmAllocSpecial pmm count maxAddr alignment = some (address, next)) :
    ∃ first, first + count < specialPages ∧ address = add (first * pageSize) vmmHigherHalfBase ∧
      (∀ index, first ≤ index → index < first + count →
        reservedBit pmm.bitmap.map index = false) ∧
      next = { pmm with
        bitmap := { pmm.bitmap with map := reserveBits pmm.bitmap.map first count }
        freePageAmount := sub pmm.freePageAmount count } := by
  obtain ⟨found, nonzero⟩ := alloc_special_found returned
  simp only [pageBitmapAlloc] at found
  cases search : pageBitmapSearch pmm.bitmap count (min maxAddr pmmMaxSpecialAddr / pageSize)
      (max (roundUp alignment pageSize) pageSize / pageSize)
      (min maxAddr pmmMaxSpecialAddr / pageSize) pmm.bitmap.firstFreeIndex with
  | none => simp [search] at found
  | some answer =>
    cases answer with
    | none =>
      simp only [search, Option.bind_eq_bind, Option.bind_some, Option.some.injEq,
        Prod.mk.injEq] at found
      exact absurd found.1.symm nonzero
    | some range =>
      obtain ⟨first, stop⟩ := range
      have limited : min maxAddr pmmMaxSpecialAddr / pageSize ≤ specialPages :=
        Nat.div_le_div_right (Nat.min_le_right _ _)
      obtain ⟨length, bounded, clear⟩ := search_sound pmm.bitmap count _ _ _ _ first stop limited search
      subst length
      have counted : first + count - first = count := by omega
      simp only [search, pageBitmapReserve, bounded, if_true, Option.bind_eq_bind, Option.bind_some,
        counted, Option.some.injEq, Prod.mk.injEq] at found
      exact ⟨first, bounded, found.1.symm, clear, found.2.symm⟩

/-- A special allocation returns pages whose bits were clear, hence not held, and
sets those bits. -/
theorem alloc_special_returns {pmm next : Pmm} {held : Finset Nat}
    {count maxAddr alignment address : Nat} (separated : Separated ⟨pmm, held⟩)
    (returned : pmmAllocSpecial pmm count maxAddr alignment = some (address, next)) :
    (∀ page ∈ pagesFrom address count, page ∉ held) ∧
      Separated ⟨next, held ∪ (pagesFrom address count).toFinset⟩ := by
  obtain ⟨⟨chain, represented, apart⟩, size, aligned, reserved⟩ := separated
  obtain ⟨first, within, atFirst, clear, effect⟩ :=
    alloc_special_effect returned
  have special : ∀ page ∈ pagesFrom address count,
      ∃ index, first ≤ index ∧ index < first + count ∧ page = specialPage index := by
    intro page member
    rw [atFirst] at member
    exact (special_range first count within page).mp member
  have stored : first + count ≤ 8 * pmm.bitmap.map.length := by
    rw [size]
    simp only [specialPages, pmmMaxSpecialAddr, pageSize] at within ⊢
    omega
  obtain ⟨newSize, bits⟩ := reserve_bits pmm.bitmap.map first count stored
  subst effect
  refine ⟨?_, ⟨⟨chain, ⟨represented.buffers, represented.bounded, represented.distinct,
    represented.pages⟩, ?_⟩, newSize.trans size, ?_, ?_⟩⟩
  · intro page member isHeld
    obtain ⟨index, lower, upper, rfl⟩ := special page member
    have set : reservedBit pmm.bitmap.map index = true := reserved index (by omega) isHeld
    rw [clear index lower upper] at set
    exact Bool.false_ne_true set
  · intro page member isHeld
    rcases Finset.mem_union.mp isHeld with before | added
    · exact apart page member before
    · obtain ⟨index, _, upper, rfl⟩ := special page (List.mem_toFinset.mp added)
      exact Nat.not_lt.mpr (represented.pages _ member).2.1 (special_lt index (by omega))
  · intro page isHeld
    rcases Finset.mem_union.mp isHeld with before | added
    · exact aligned page before
    · obtain ⟨index, _, upper, rfl⟩ := special page (List.mem_toFinset.mp added)
      exact special_aligned index (by omega)
  · intro index inside isHeld
    rcases Finset.mem_union.mp isHeld with before | added
    · simp [bits, reserved index inside before]
    · obtain ⟨found, lower, upper, same⟩ := special _ (List.mem_toFinset.mp added)
      have here : index = found := special_injective index found same
      simp [bits, here, lower, upper]

/-- A holder's write lands in its own page, which the stack does not read. -/
theorem write_separated {pmm : Pmm} {held : Finset Nat} {address : Nat} (value : UInt8)
    (separated : Separated ⟨pmm, held⟩) (owned : roundDown address pageSize ∈ held) :
    Separated ⟨{ pmm with memory := Function.update pmm.memory address value }, held⟩ := by
  obtain ⟨⟨chain, represented, apart⟩, size, aligned, reserved⟩ := separated
  have inPage : InPage (roundDown address pageSize) address := by
    simp only [InPage, roundDown, pageSize]
    omega
  refine ⟨⟨chain, ⟨?_, represented.bounded, represented.distinct, represented.pages⟩, apart⟩,
    size, aligned, reserved⟩
  refine buffers_congr pmm.memory _ chain _ _ represented.bounded ?_ represented.buffers
  intro buffer member tested inside
  have ownedByStack := buffer_stacked member
  have different : tested ≠ address := by
    rintro rfl
    have distinct : buffer.1 ≠ roundDown tested pageSize := fun same => apart _ ownedByStack (same ▸ owned)
    exact page_disjoint (represented.pages _ ownedByStack).1 (aligned _ owned).1 distinct
      inside inPage
  exact (Function.update_of_ne different _ _).symm

/-- Every step keeps the separation. -/
theorem step_separated (before after : World) (separated : Separated before)
    (step : Step before after) : Separated after := by
  cases step with
  | alloc pmm next held page available returned =>
    obtain ⟨result, state, actual, _, kept⟩ := alloc_returns separated available
    have same : (result, state) = (page, next) := Option.some.inj (actual.symm.trans returned)
    obtain ⟨rfl, rfl⟩ := Prod.mk.inj same
    exact kept
  | allocSpecial pmm next held count maxAddr alignment address returned =>
    exact (alloc_special_returns separated returned).2
  | free pmm next held address owned released =>
    exact free_separated pmm next held _ separated owned released
  | freePages pmm next held address count distinct owned released =>
    exact free_pages_separated _ pmm next held separated distinct owned released
  | write pmm held address value owned =>
    exact write_separated value separated owned

/-- Physical addresses of a descriptor, as unbounded integers. -/
def Covers (descriptor : MemoryDescriptor) (address : Nat) : Prop :=
  descriptor.physicalStart ≤ address ∧
    address < descriptor.physicalStart + descriptor.amountOfPages * pageSize

/-- Pages released while a memory map is loaded, in order. -/
def availablePages (memoryMap : List MemoryDescriptor) : List Nat :=
  (memoryMap.filter (fun descriptor => efiIsMemoryAvail descriptor.type)).flatMap
    (fun descriptor => pagesFrom (lowerToHigher descriptor.physicalStart) descriptor.amountOfPages)

/-- A firmware memory map: available descriptors start at page boundaries and are
pairwise disjoint. The pages of `boot` are held by the boot data from the start,
outside the available descriptors; the set may be empty. -/
structure WellFormed (memoryMap : List MemoryDescriptor) (boot : Finset Nat) : Prop where
  aligned : ∀ descriptor ∈ memoryMap, efiIsMemoryAvail descriptor.type = true →
    descriptor.physicalStart % pageSize = 0 ∧ descriptor.physicalStart < wordSize
  disjoint : memoryMap.Pairwise (fun first second =>
    efiIsMemoryAvail first.type = true → efiIsMemoryAvail second.type = true →
      ∀ address, Covers first address → ¬ Covers second address)
  boot : ∀ page ∈ boot, page % pageSize = 0 ∧ page < wordSize ∧ page ∉ availablePages memoryMap

/-- Only higher-half addresses can be released without a failed assertion. -/
theorem free_higher_half {pmm next : Pmm} {address : Nat} (bounded : address < wordSize)
    (released : pmmFreeUnlocked pmm address = some next) : vmmHigherHalfBase ≤ address := by
  by_cases onStack : pmmMaxSpecialAddr + vmmHigherHalfBase ≤ address
  · omega
  · by_cases inside : sub address vmmHigherHalfBase / pageSize < specialPages
    · simp only [sub, specialPages, pmmMaxSpecialAddr, pageSize, vmmHigherHalfBase, wordSize] at *
      omega
    · simp [pmmFreeUnlocked, onStack, pageBitmapFree, inside] at released

/-- A completed sequence of releases only names higher-half addresses. -/
theorem free_all_higher_half (pages : List Nat) (pmm next : Pmm)
    (bounded : ∀ page ∈ pages, page < wordSize)
    (released : pages.foldlM pmmFreeUnlocked pmm = some next) :
    ∀ page ∈ pages, vmmHigherHalfBase ≤ page := by
  induction pages generalizing pmm with
  | nil => simp
  | cons page rest ih =>
    cases first : pmmFreeUnlocked pmm page with
    | none => simp [first] at released
    | some middle =>
      have tail := ih middle
        (fun other member => bounded other (List.mem_cons_of_mem _ member))
        (by simpa [first] using released)
      intro other member
      rcases List.mem_cons.mp member with rfl | later
      · exact free_higher_half (bounded other List.mem_cons_self) first
      · exact tail other later

/-- The mapped address of a descriptor's page is its physical address plus the
base, wrapped once. -/
theorem mapped_page (start offset : Nat) :
    add (lowerToHigher start) (offset * pageSize) =
      (start + offset * pageSize + vmmHigherHalfBase) % wordSize := by
  rw [add, lowerToHigher, add, Nat.mod_add_mod]
  congr 1
  omega

/-- A physical address that is mapped into the higher half lies below `2 ^ 47`. -/
theorem mapped_low (physical : Nat) (bounded : physical < wordSize)
    (higher : vmmHigherHalfBase ≤ (physical + vmmHigherHalfBase) % wordSize) :
    physical < 2 ^ 47 ∧
      (physical + vmmHigherHalfBase) % wordSize = physical + vmmHigherHalfBase := by
  simp only [vmmHigherHalfBase, wordSize] at *
  omega

/-- When every page of a descriptor maps to the higher half, its physical pages
lie below `2 ^ 47` and their addresses do not wrap. Induct over the offset: the
page before bounds the next one, so the sum cannot skip the lower half. -/
theorem descriptor_pages (descriptor : MemoryDescriptor)
    (bounded : descriptor.physicalStart < wordSize)
    (higher : ∀ page ∈ pagesFrom (lowerToHigher descriptor.physicalStart) descriptor.amountOfPages,
      vmmHigherHalfBase ≤ page) (offset : Nat) (inside : offset < descriptor.amountOfPages) :
    descriptor.physicalStart + offset * pageSize < 2 ^ 47 ∧
      add (lowerToHigher descriptor.physicalStart) (offset * pageSize) =
        descriptor.physicalStart + offset * pageSize + vmmHigherHalfBase := by
  have here : vmmHigherHalfBase ≤
      (descriptor.physicalStart + offset * pageSize + vmmHigherHalfBase) % wordSize := by
    rw [← mapped_page]
    exact higher _ (List.mem_map.mpr ⟨offset, List.mem_range.mpr inside, rfl⟩)
  have fits : descriptor.physicalStart + offset * pageSize < wordSize := by
    clear here
    induction offset with
    | zero => simpa using bounded
    | succ offset ih =>
      have earlier : vmmHigherHalfBase ≤
          (descriptor.physicalStart + offset * pageSize + vmmHigherHalfBase) % wordSize := by
        rw [← mapped_page]
        exact higher _ (List.mem_map.mpr ⟨offset, List.mem_range.mpr (by omega), rfl⟩)
      have low := (mapped_low _ (ih (by omega)) earlier).1
      rw [Nat.succ_mul, ← Nat.add_assoc]
      exact Nat.lt_trans (Nat.add_lt_add_right low pageSize) (by decide)
  rw [mapped_page]
  exact mapped_low _ fits here

/-- Loading a map touches every available descriptor with its pages released. -/
theorem load_higher_half (memoryMap : List MemoryDescriptor) (pmm next : Pmm)
    (loaded : pmmLoadMemory pmm memoryMap = some next) :
    ∀ descriptor ∈ memoryMap, efiIsMemoryAvail descriptor.type = true →
      ∀ page ∈ pagesFrom (lowerToHigher descriptor.physicalStart) descriptor.amountOfPages,
        vmmHigherHalfBase ≤ page := by
  induction memoryMap generalizing pmm with
  | nil => simp
  | cons descriptor rest ih =>
    cases first : pmmLoadDescriptor pmm descriptor with
    | none => simp [pmmLoadMemory, first] at loaded
    | some middle =>
      have tail := ih middle (by simpa [pmmLoadMemory, first] using loaded)
      intro other member available
      rcases List.mem_cons.mp member with rfl | later
      · cases released : pmmFreePagesUnlocked pmm (lowerToHigher other.physicalStart)
            other.amountOfPages with
        | none => simp [pmmLoadDescriptor, available, released] at first
        | some freed =>
          refine free_all_higher_half _ pmm freed ?_ released
          intro page inRange
          obtain ⟨offset, _, rfl⟩ := List.mem_map.mp inRange
          exact add_lt _ _
      · exact tail other later available

/-- The pages released by a completed load are distinct: within a descriptor the
addresses grow, and two descriptors share no physical address. -/
theorem available_distinct {memoryMap : List MemoryDescriptor} {boot : Finset Nat} {pmm next : Pmm}
    (wellFormed : WellFormed memoryMap boot) (loaded : pmmLoadMemory pmm memoryMap = some next) :
    (availablePages memoryMap).Nodup := by
  have higher := load_higher_half memoryMap pmm next loaded
  have exact : ∀ descriptor ∈ memoryMap.filter (fun d => efiIsMemoryAvail d.type),
      ∀ offset < descriptor.amountOfPages,
        add (lowerToHigher descriptor.physicalStart) (offset * pageSize) =
          descriptor.physicalStart + offset * pageSize + vmmHigherHalfBase := by
    intro descriptor member offset inside
    obtain ⟨listed, available⟩ := List.mem_filter.mp member
    exact (descriptor_pages descriptor (wellFormed.aligned descriptor listed available).2
      (higher descriptor listed available) offset inside).2
  refine List.nodup_flatMap.mpr ⟨?_, ?_⟩
  · intro descriptor member
    refine List.Nodup.map_on ?_ List.nodup_range
    intro first firstInside second secondInside same
    rw [exact descriptor member first (List.mem_range.mp firstInside),
      exact descriptor member second (List.mem_range.mp secondInside)] at same
    simp only [pageSize] at same
    omega
  · have apart : (memoryMap.filter (fun d => efiIsMemoryAvail d.type)).Pairwise
        (fun first second => ∀ address, Covers first address → ¬ Covers second address) := by
      refine List.pairwise_filter.mpr (wellFormed.disjoint.imp ?_)
      intro first second disjoint firstAvailable secondAvailable
      exact disjoint firstAvailable secondAvailable
    refine apart.imp_of_mem ?_
    intro first second firstMember secondMember disjoint page inFirst inSecond
    obtain ⟨left, leftInside, rfl⟩ := List.mem_map.mp inFirst
    obtain ⟨right, rightInside, same⟩ := List.mem_map.mp inSecond
    have leftBound := List.mem_range.mp leftInside
    have rightBound := List.mem_range.mp rightInside
    rw [exact first firstMember left leftBound, exact second secondMember right rightBound] at same
    apply disjoint (first.physicalStart + left * pageSize)
    · simp only [Covers, pageSize]
      omega
    · simp only [Covers, pageSize] at *
      omega

/-- The page counter plays no part in the separation. -/
theorem recount_separated (pmm : Pmm) (held : Finset Nat) (amount : Nat)
    (separated : Separated ⟨pmm, held⟩) : Separated ⟨{ pmm with pageAmount := amount }, held⟩ := by
  obtain ⟨⟨chain, represented, apart⟩, size, aligned, reserved⟩ := separated
  exact ⟨⟨chain, ⟨represented.buffers, represented.bounded, represented.distinct,
    represented.pages⟩, apart⟩, size, aligned, reserved⟩

/-- Loading a memory map whose available pages are all held releases exactly
those pages. -/
theorem load_separated (memoryMap : List MemoryDescriptor) (pmm next : Pmm) (held : Finset Nat)
    (separated : Separated ⟨pmm, held⟩) (distinct : (availablePages memoryMap).Nodup)
    (owned : ∀ page ∈ availablePages memoryMap, page ∈ held)
    (loaded : pmmLoadMemory pmm memoryMap = some next) :
    Separated ⟨next, held \ (availablePages memoryMap).toFinset⟩ := by
  induction memoryMap generalizing pmm held with
  | nil =>
    have same : pmm = next := by simpa [pmmLoadMemory] using loaded
    subst same
    simpa [availablePages] using separated
  | cons descriptor rest ih =>
    cases first : pmmLoadDescriptor pmm descriptor with
    | none => simp [pmmLoadMemory, first] at loaded
    | some middle =>
      have restLoaded : pmmLoadMemory middle rest = some next := by
        simpa [pmmLoadMemory, first] using loaded
      cases available : efiIsMemoryAvail descriptor.type with
      | false =>
        have skipped : availablePages (descriptor :: rest) = availablePages rest := by
          simp [availablePages, available]
        have result : middle =
            { pmm with pageAmount := add pmm.pageAmount descriptor.amountOfPages } := by
          simpa [pmmLoadDescriptor, available, eq_comm] using first
        subst result
        rw [skipped] at distinct owned ⊢
        exact ih _ held (recount_separated pmm held _ separated) distinct owned
          restLoaded
      | true =>
        have split : availablePages (descriptor :: rest) =
            pagesFrom (lowerToHigher descriptor.physicalStart) descriptor.amountOfPages ++
              availablePages rest := by
          simp [availablePages, available]
        rw [split] at distinct owned ⊢
        obtain ⟨firstDistinct, restDistinct, apart⟩ := List.nodup_append'.mp distinct
        cases released : pmmFreePagesUnlocked pmm (lowerToHigher descriptor.physicalStart)
            descriptor.amountOfPages with
        | none => simp [pmmLoadDescriptor, available, released] at first
        | some freed =>
          have result : middle =
              { freed with pageAmount := add freed.pageAmount descriptor.amountOfPages } := by
            simpa [pmmLoadDescriptor, available, released, eq_comm] using first
          subst result
          have step := free_pages_separated _ pmm freed held separated firstDistinct
            (fun page member => owned page (List.mem_append_left _ member)) released
          have restOwned : ∀ page ∈ availablePages rest, page ∈
              held \ (pagesFrom (lowerToHigher descriptor.physicalStart)
                descriptor.amountOfPages).toFinset := by
            intro page member
            exact Finset.mem_sdiff.mpr ⟨owned page (List.mem_append_right _ member),
              fun inFirst => apart (List.mem_toFinset.mp inFirst) member⟩
          have done := ih _ _ (recount_separated freed _ _ step) restDistinct
            restOwned restLoaded
          rwa [List.toFinset_append, ← Finset.sup_eq_union, ← sdiff_sdiff_left]

/-- Before any page is loaded every special page is reserved. -/
theorem initially_reserved (index : Nat) (inside : index < specialPages) :
    reservedBit pageBitmapInit.map index = true := by
  have stored : index / 8 < specialPages / 8 := by
    simp only [specialPages, pmmMaxSpecialAddr, pageSize] at *
    omega
  have bit : ∀ position < 8, (255#8).getLsbD position = true := by decide
  have full : pageBitmapInit.map.getD (index / 8) 0#8 = 255#8 := by
    simp [pageBitmapInit, List.getD_eq_getElem?_getD, stored]
  rw [reservedBit, full]
  exact bit _ (Nat.mod_lt _ (by decide))

/-- Every page of an available descriptor is an aligned machine address. -/
theorem available_aligned {memoryMap : List MemoryDescriptor} {boot : Finset Nat}
    (wellFormed : WellFormed memoryMap boot) (page : Nat) (member : page ∈ availablePages memoryMap) :
    page % pageSize = 0 ∧ page < wordSize := by
  obtain ⟨descriptor, listed, inRange⟩ := List.mem_flatMap.mp member
  obtain ⟨present, available⟩ := List.mem_filter.mp listed
  obtain ⟨offset, _, same⟩ := List.mem_map.mp inRange
  have aligned := (wellFormed.aligned descriptor present available).1
  rw [← same]
  refine ⟨?_, add_lt _ _⟩
  rw [mapped_page]
  simp only [vmmHigherHalfBase, pageSize, wordSize] at *
  omega

/-- Initialization establishes the separation with only the boot pages held. The
available pages are treated as held until the load releases them. -/
theorem init_separated {memory : Memory} {memoryMap : List MemoryDescriptor} {boot : Finset Nat}
    {start : Pmm} (wellFormed : WellFormed memoryMap boot)
    (started : pmmInit memory memoryMap = some start) : Separated ⟨start, boot⟩ := by
  have distinct := available_distinct wellFormed started
  have empty : Separated ⟨pmmEmpty memory, boot ∪ (availablePages memoryMap).toFinset⟩ := by
    refine ⟨⟨[], ⟨rfl, Nat.zero_le _, List.nodup_nil, by simp⟩, by simp⟩, rfl, ?_, ?_⟩
    · intro page isHeld
      rcases Finset.mem_union.mp isHeld with before | available
      · exact ⟨(wellFormed.boot page before).1, (wellFormed.boot page before).2.1⟩
      · exact available_aligned wellFormed page (List.mem_toFinset.mp available)
    · intro index inside _
      exact initially_reserved index inside
  have loaded := load_separated memoryMap _ start _ empty distinct
    (fun page member => Finset.mem_union_right _ (List.mem_toFinset.mpr member)) started
  have remaining : (boot ∪ (availablePages memoryMap).toFinset) \ (availablePages memoryMap).toFinset =
      boot := by
    rw [Finset.union_sdiff_right, Finset.sdiff_eq_self_iff_disjoint, Finset.disjoint_left]
    intro page before available
    exact (wellFormed.boot page before).2.2 (List.mem_toFinset.mp available)
  rwa [remaining] at loaded

/-- In every state that a run reaches, an allocation returns only pages nobody
holds. A call of `pmm_alloc` with a buffer on the stack does return a page, and
no page of a range returned by `pmm_alloc_special` is held, whatever holders
wrote into their pages before. -/
theorem allocation_not_held (memory : Memory) (memoryMap : List MemoryDescriptor)
    (boot : Finset Nat) (start : Pmm) (world : World) (wellFormed : WellFormed memoryMap boot)
    (started : pmmInit memory memoryMap = some start)
    (run : Relation.ReflTransGen Step ⟨start, boot⟩ world) :
    (world.pmm.stack.last ≠ 0 →
      ∃ page next, pmmAlloc world.pmm = some (page, next) ∧ page ∉ world.held) ∧
    (∀ count maxAddr alignment address next,
      pmmAllocSpecial world.pmm count maxAddr alignment = some (address, next) →
        ∀ page ∈ pagesFrom address count, page ∉ world.held) := by
  have separated : Separated world := Runs.run_preserves step_separated run
    (init_separated wellFormed started)
  constructor
  · intro available
    obtain ⟨page, next, returned, free, _⟩ :=
      alloc_returns separated available
    exact ⟨page, next, returned, free⟩
  · intro count maxAddr alignment address next returned
    exact (alloc_special_returns separated returned).1

/-- Three conventional pages at one megabyte and four special pages. -/
def sampleMap : List MemoryDescriptor :=
  [{ type := 7, physicalStart := 0x100000, amountOfPages := 3 },
    { type := 7, physicalStart := 0x1000, amountOfPages := 4 }]

/-- The sample map is a firmware map without boot pages. -/
theorem sample_well_formed : WellFormed sampleMap ∅ := by
  refine ⟨by decide, ?_, by simp⟩
  refine List.pairwise_pair.mpr ?_
  intro _ _ address first second
  simp only [Covers, pageSize] at first second
  omega

/-- After one page is taken from the sample map, further allocations avoid it. -/
theorem allocation_not_held_sample :
    ∃ start world, pmmInit (fun _ => 0) sampleMap = some start ∧
      Relation.ReflTransGen Step ⟨start, ∅⟩ world ∧ world.held = {0xFFFF800000102000} ∧
      (∃ page next, pmmAlloc world.pmm = some (page, next) ∧ page ∉ world.held) ∧
      (∀ count maxAddr alignment address next,
        pmmAllocSpecial world.pmm count maxAddr alignment = some (address, next) →
          ∀ page ∈ pagesFrom address count, page ∉ world.held) := by
  have observed : (pmmInit (fun _ => 0) sampleMap).bind (fun start =>
      (pmmAlloc start).map (fun result => (start.stack.last, result.1, result.2.stack.last))) =
        some (0xFFFF800000100000, 0xFFFF800000102000, 0xFFFF800000100000) := by decide +kernel
  cases started : pmmInit (fun _ => 0) sampleMap with
  | none => simp [started] at observed
  | some start =>
    cases returned : pmmAlloc start with
    | none => simp [started, returned] at observed
    | some result =>
      obtain ⟨page, next⟩ := result
      obtain ⟨buffer, taken, stillBuffer⟩ : start.stack.last = 0xFFFF800000100000 ∧
          page = 0xFFFF800000102000 ∧ next.stack.last = 0xFFFF800000100000 := by
        simpa [started, returned] using observed
      have run : Relation.ReflTransGen Step ⟨start, ∅⟩ ⟨next, {page}⟩ :=
        .single (.alloc start next ∅ page (by simp [buffer]) returned)
      have conclusion := allocation_not_held _ _ ∅ start ⟨next, {page}⟩ sample_well_formed started run
      exact ⟨start, ⟨next, {page}⟩, rfl, run, by rw [taken],
        conclusion.1 (by simp [stillBuffer]), conclusion.2⟩

end Asym.PhysicalRuns
