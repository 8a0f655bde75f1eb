import Asym.PageTables

/-!
# Virtual memory requests

A model of the request functions of `vmm.c` on the calling process's address
space. Lengths and addresses are 64-bit and every sum wraps as in the source:
aligning a region adds to the length, and a length is turned into a number of
pages by another sum.

The search for a free region is a loop without a bound of its own, so it takes
fuel. A search that panics, one that runs out of fuel and a failed allocation of
a page are all `none`: none of them returns to the caller.
-/

namespace Asym.VirtualMemory

open MachineWords PhysicalMemory PageEntries PageTables

/-- `space_t`, with the memory its page table lives in. -/
structure Space where
  memory : Pml
  pml : Nat
  freeAddress : Nat

/-- The error codes of the virtual memory functions. -/
inductive Errno where
  | einval
  | eacces
  | eexist
  | efault
  deriving DecidableEq, Repr

/-- `PROT_READ`. -/
def protRead : Nat := 1 <<< 0

/-- `PROT_WRITE`. -/
def protWrite : Nat := 1 <<< 1

/-- `vmm_align_region`: the aligned address and the lengthened length. -/
def vmmAlignRegion (virtAddr length : Nat) : Nat × Nat :=
  let aligned := roundDown virtAddr pageSize
  (aligned, add length (sub virtAddr aligned))

/-- `vmm_prot_to_flags`. The result `ERR` is `none`. -/
def vmmProtToFlags (prot : Nat) : Option Nat :=
  if prot &&& protRead = 0 then none
  else some ((if prot &&& protWrite ≠ 0 then pageWrite else 0) ||| pageUser)

/-- The loop of `vmm_find_free_region` from one address on. -/
def findFreeRegionFrom (space : Space) (pageAmount : Nat) : Nat → Nat → Option (Nat × Space)
  | 0, _ => none
  | fuel + 1, addr =>
      if addr < roundDown (wordSize - 1) 0x1000 then
        let next := add addr (mul pageAmount pageSize)
        if !pmlMapped space.memory.tables space.pml addr pageAmount then
          some (addr, { space with freeAddress := next })
        else findFreeRegionFrom space pageAmount fuel next
      else none

/-- `vmm_find_free_region`. -/
def vmmFindFreeRegion (fuel : Nat) (space : Space) (length : Nat) : Option (Nat × Space) :=
  findFreeRegionFrom space (sizeInPages length) fuel space.freeAddress

/-- The choice at the start of `vmm_alloc` and `vmm_map`: the caller's address,
or a free region when it is `NULL`. -/
def chooseRegion (fuel : Nat) (space : Space) (virtAddr length : Nat) : Option (Nat × Space) :=
  if virtAddr = 0 then vmmFindFreeRegion fuel space length else some (virtAddr, space)

/-- One call of `pmm_alloc` for a frame. -/
def takeFrame (pml : Pml) : Option (Nat × Pml) :=
  match pml.supply with
  | [] => none
  | address :: supply => some (address, { pml with supply := supply })

/-- The loop of `vmm_alloc` over `count` pages from the page at `position` on:
each page gets a frame of its own. -/
def allocPages (pml : Pml) (table virtAddr flags : Nat) : Nat → Nat → Option Pml
  | _, 0 => some pml
  | position, count + 1 => do
      let address := add virtAddr (mul position pageSize)
      let (frame, taken) ← takeFrame pml
      let next ← pmlMap taken table address (higherToLower frame) 1 flags
      allocPages next table virtAddr flags (position + 1) count

/-- One turn of the loop of `vmm_alloc` takes a frame and maps it. -/
theorem allocPages_succ {pml next : Pml} {table virtAddr flags position count : Nat}
    (taken : allocPages pml table virtAddr flags position (count + 1) = some next) :
    ∃ frame framed mapped, takeFrame pml = some (frame, framed) ∧
      pmlMap framed table (add virtAddr (mul position pageSize)) (higherToLower frame) 1 flags =
        some mapped ∧
      allocPages mapped table virtAddr flags (position + 1) count = some next := by
  rw [allocPages, Option.bind_eq_bind, Option.bind_eq_some_iff] at taken
  obtain ⟨⟨frame, framed⟩, frameTaken, taken⟩ := taken
  simp only [Option.bind_eq_bind, Option.bind_eq_some_iff] at taken
  obtain ⟨mapped, mapTaken, rest⟩ := taken
  exact ⟨frame, framed, mapped, frameTaken, mapTaken, rest⟩

/-- `vmm_alloc`. -/
def vmmAlloc (fuel : Nat) (space : Space) (virtAddr length prot : Nat) :
    Option (Except Errno Nat × Space) :=
  if length = 0 then some (.error .einval, space)
  else match vmmProtToFlags prot with
    | none => some (.error .eacces, space)
    | some flags => do
      let (chosen, searched) ← chooseRegion fuel space virtAddr length
      let (aligned, total) := vmmAlignRegion chosen length
      if pmlMapped searched.memory.tables searched.pml aligned (sizeInPages total) then
        some (.error .eexist, searched)
      else do
        let memory ← allocPages searched.memory searched.pml aligned (flags ||| pageOwned) 0
          (sizeInPages total)
        some (.ok aligned, { searched with memory := memory })

/-- `vmm_map`. -/
def vmmMap (fuel : Nat) (space : Space) (virtAddr physAddr length prot : Nat) :
    Option (Except Errno Nat × Space) :=
  if physAddr = 0 then some (.error .efault, space)
  else if length = 0 then some (.error .einval, space)
  else match vmmProtToFlags prot with
    | none => some (.error .eacces, space)
    | some flags => do
      let (chosen, searched) ← chooseRegion fuel space virtAddr length
      let physical := roundDown physAddr pageSize
      let (aligned, total) := vmmAlignRegion chosen length
      if pmlMapped searched.memory.tables searched.pml aligned (sizeInPages total) then
        some (.error .eexist, searched)
      else do
        let memory ← pmlMap searched.memory searched.pml aligned physical (sizeInPages total) flags
        some (.ok aligned, { searched with memory := memory })

/-- `vmm_unmap`. -/
def vmmUnmap (space : Space) (virtAddr length : Nat) : Except Errno Unit × Space :=
  let (aligned, total) := vmmAlignRegion virtAddr length
  if pmlMapped space.memory.tables space.pml aligned (sizeInPages total) then
    (.ok (), { space with memory := pmlUnmap space.memory space.pml aligned (sizeInPages total) })
  else (.error .efault, space)

/-- `vmm_protect`. -/
def vmmProtect (space : Space) (virtAddr length prot : Nat) : Except Errno Unit × Space :=
  match vmmProtToFlags prot with
  | none => (.error .eacces, space)
  | some flags =>
      let (aligned, total) := vmmAlignRegion virtAddr length
      if pmlMapped space.memory.tables space.pml aligned (sizeInPages total) then
        (.ok (), { space with
          memory := pmlChangeFlags space.memory space.pml aligned (sizeInPages total) flags })
      else (.error .efault, space)

/-- `vmm_mapped`. -/
def vmmMapped (space : Space) (virtAddr length : Nat) : Bool :=
  let (aligned, total) := vmmAlignRegion virtAddr length
  pmlMapped space.memory.tables space.pml aligned (sizeInPages total)

end Asym.VirtualMemory
