import Asym.ByteMemory
import Asym.MachineWords

/-!
# The physical page allocator

A model of `pmm.c`. Pages below `PMM_MAX_SPECIAL_ADDR` are kept in a bitmap and
handed out in contiguous ranges; all other pages are kept on a stack whose
storage is the free pages themselves. Each stack buffer is one free page: its
first word is the previous buffer and its remaining 511 words are free pages.

Addresses are the higher-half addresses the kernel uses for physical memory.
Pointers are natural numbers with zero for `NULL`. A failed `LOG_ASSERT` stops
the machine and is `none`. Callers hold the allocator's lock around each public
operation, so an operation is one function of the allocator state.
-/

namespace Asym.PhysicalMemory

open ByteMemory MachineWords

/-- `VMM_HIGHER_HALF_BASE`. -/
def vmmHigherHalfBase : Nat := 0xFFFF800000000000

/-- `PMM_MAX_SPECIAL_ADDR`. -/
def pmmMaxSpecialAddr : Nat := 0x100000

/-- `PAGE_BUFFER_MAX`: pointers that fit after the first word of a page. -/
def pageBufferMax : Nat := (pageSize - 8) / 8

/-- `VMM_LOWER_TO_HIGHER`. -/
def lowerToHigher (address : Nat) : Nat := add address vmmHigherHalfBase

/-- `page_stack_t`: the newest buffer and the number of its used slots. -/
structure PageStack where
  last : Nat
  index : Nat

/-- `page_bitmap_t`: one bit per special page, set while the page is reserved. -/
structure PageBitmap where
  map : List (BitVec 8)
  firstFreeIndex : Nat

/-- The static variables of `pmm.c` with the memory the allocator reads and
writes through its pointers. -/
structure Pmm where
  memory : Memory
  stack : PageStack
  bitmap : PageBitmap
  pageAmount : Nat
  freePageAmount : Nat

/-- Address of `buffer->pages[index]`. The first word of a buffer is `prev`. -/
def pagesSlot (buffer index : Nat) : Nat := buffer + 8 + 8 * index

/-- `page_stack_alloc`. An empty top buffer is itself the page returned, and the
buffer below it becomes the top with `PAGE_BUFFER_MAX - 1` slots in use. -/
def pageStackAlloc (pmm : Pmm) : Nat × Pmm :=
  if pmm.stack.index = 0 then
    if pmm.stack.last = 0 then (0, pmm)
    else (pmm.stack.last, { pmm with
      stack := { last := load64 pmm.memory pmm.stack.last, index := pageBufferMax - 1 }
      freePageAmount := sub pmm.freePageAmount 1 })
  else (load64 pmm.memory (pagesSlot pmm.stack.last (pmm.stack.index - 1)), { pmm with
    stack := { pmm.stack with index := pmm.stack.index - 1 }
    freePageAmount := sub pmm.freePageAmount 1 })

/-- `page_stack_free`. The freed page becomes a new buffer when there is no
buffer or the top one is full; otherwise it takes the top buffer's next slot. -/
def pageStackFree (pmm : Pmm) (address : Nat) : Pmm :=
  if pmm.stack.last = 0 then { pmm with
    memory := store64 pmm.memory address 0
    stack := { last := address, index := 0 }
    freePageAmount := add pmm.freePageAmount 1 }
  else if pmm.stack.index = pageBufferMax then { pmm with
    memory := store64 pmm.memory address pmm.stack.last
    stack := { last := address, index := 0 }
    freePageAmount := add pmm.freePageAmount 1 }
  else { pmm with
    memory := store64 pmm.memory (pagesSlot pmm.stack.last pmm.stack.index) address
    stack := { pmm.stack with index := pmm.stack.index + 1 }
    freePageAmount := add pmm.freePageAmount 1 }

/-- Number of pages, and of bits, below `PMM_MAX_SPECIAL_ADDR`. -/
def specialPages : Nat := pmmMaxSpecialAddr / pageSize

/-- `page_bitmap_init`: every page starts reserved. -/
def pageBitmapInit : PageBitmap := { map := List.replicate (specialPages / 8) 255#8, firstFreeIndex := 0 }

/-- `page_bitmap_reserved`, with its bounds assertion. -/
def pageBitmapReserved (bitmap : PageBitmap) (index : Nat) : Option Bool :=
  if index < specialPages then
    some (bitmap.map.getD (index / 8) 0#8 &&& (1#8 <<< (index % 8)) != 0#8)
  else none

/-- The loop of `page_bitmap_reserve` over `count` bits from `low` on. -/
def reserveBits (map : List (BitVec 8)) (low : Nat) : Nat → List (BitVec 8)
  | 0 => map
  | count + 1 =>
      reserveBits (map.set (low / 8) (map.getD (low / 8) 0#8 ||| (1#8 <<< (low % 8)))) (low + 1) count

/-- `page_bitmap_reserve`, with its bounds assertion. -/
def pageBitmapReserve (pmm : Pmm) (low high : Nat) : Option Pmm :=
  if high < specialPages then some { pmm with
    bitmap := { pmm.bitmap with map := reserveBits pmm.bitmap.map low (high - low) }
    freePageAmount := sub pmm.freePageAmount (high - low) }
  else none

/-- The inner loop of `page_bitmap_alloc`: extend the free run that starts at
`first` while the limit is not reached. The answer says whether the run reached
the requested count, and where the loop stopped. -/
def pageBitmapRun (bitmap : PageBitmap) (count first : Nat) : Nat → Nat → Option (Bool × Nat)
  | 0, next => some (false, next)
  | remaining + 1, next =>
      if next - first = count then some (true, next)
      else do
        if ← pageBitmapReserved bitmap next then some (false, next)
        else pageBitmapRun bitmap count first remaining (next + 1)

/-- The outer loop of `page_bitmap_alloc`. The start index strictly increases,
so fuel equal to the limit is never exhausted; a completed search without a
large enough run is `some none`. -/
def pageBitmapSearch (bitmap : PageBitmap) (count limit stride : Nat) :
    Nat → Nat → Option (Option (Nat × Nat))
  | fuel, start =>
    if start < limit then
      match fuel with
      | 0 => none
      | remaining + 1 => do
        if ← pageBitmapReserved bitmap start then
          pageBitmapSearch bitmap count limit stride remaining (add start stride)
        else
          let (found, stop) ← pageBitmapRun bitmap count start (limit - (start + 1)) (start + 1)
          let resumed := add (sub (max (roundUp stop stride) stride) stride) stride
          if found then some (some (start, stop))
          else pageBitmapSearch bitmap count limit stride remaining resumed
    else some none

/-- `page_bitmap_alloc`. Zero is `NULL`. -/
def pageBitmapAlloc (pmm : Pmm) (count maxAddr alignment : Nat) : Option (Nat × Pmm) := do
  let stride := max (roundUp alignment pageSize) pageSize / pageSize
  let limit := min maxAddr pmmMaxSpecialAddr / pageSize
  match ← pageBitmapSearch pmm.bitmap count limit stride limit pmm.bitmap.firstFreeIndex with
  | none => some (0, pmm)
  | some (first, stop) =>
      let reserved ← pageBitmapReserve pmm first stop
      some (add (first * pageSize) vmmHigherHalfBase, reserved)

/-- `page_bitmap_free`, with its bounds assertion. -/
def pageBitmapFree (pmm : Pmm) (address : Nat) : Option Pmm :=
  let index := sub address vmmHigherHalfBase / pageSize
  if index < specialPages then some { pmm with
    bitmap := {
      map := pmm.bitmap.map.set (index / 8)
        (pmm.bitmap.map.getD (index / 8) 0#8 &&& ~~~(1#8 <<< (index % 8)))
      firstFreeIndex := min pmm.bitmap.firstFreeIndex index }
    freePageAmount := add pmm.freePageAmount 1 }
  else none

/-- `pmm_free_unlocked`: the address decides between the two allocators. -/
def pmmFreeUnlocked (pmm : Pmm) (address : Nat) : Option Pmm :=
  if pmmMaxSpecialAddr + vmmHigherHalfBase ≤ address then some (pageStackFree pmm address)
  else pageBitmapFree pmm address

/-- The `count` page addresses from an address on. -/
def pagesFrom (address count : Nat) : List Nat :=
  (List.range count).map (fun offset => add address (offset * pageSize))

/-- `pmm_free_pages_unlocked`. -/
def pmmFreePagesUnlocked (pmm : Pmm) (address count : Nat) : Option Pmm :=
  (pagesFrom address count).foldlM pmmFreeUnlocked pmm

/-- The fields of `efi_mem_desc_t` that the allocator reads. -/
structure MemoryDescriptor where
  type : Nat
  physicalStart : Nat
  amountOfPages : Nat

/-- `EFI_IS_MEMORY_AVAIL`: conventional memory, persistent memory, loader code
and boot-services code and data. -/
def efiIsMemoryAvail (type : Nat) : Bool :=
  type == 7 || type == 14 || type == 1 || type == 3 || type == 4

/-- One turn of the loop of `pmm_load_memory`. -/
def pmmLoadDescriptor (pmm : Pmm) (descriptor : MemoryDescriptor) : Option Pmm := do
  let loaded ←
    if efiIsMemoryAvail descriptor.type then
      pmmFreePagesUnlocked pmm (lowerToHigher descriptor.physicalStart) descriptor.amountOfPages
    else some pmm
  some { loaded with pageAmount := add loaded.pageAmount descriptor.amountOfPages }

/-- `pmm_load_memory`. -/
def pmmLoadMemory (pmm : Pmm) (memoryMap : List MemoryDescriptor) : Option Pmm :=
  memoryMap.foldlM pmmLoadDescriptor pmm

/-- The allocator before any page is loaded: an empty stack, every special page
reserved, both counters zero. -/
def pmmEmpty (memory : Memory) : Pmm where
  memory := memory
  stack := { last := 0, index := 0 }
  bitmap := pageBitmapInit
  pageAmount := 0
  freePageAmount := 0

/-- `pmm_init` over arbitrary initial memory contents. -/
def pmmInit (memory : Memory) (memoryMap : List MemoryDescriptor) : Option Pmm :=
  pmmLoadMemory (pmmEmpty memory) memoryMap

/-- `pmm_alloc`, with its assertion that a page was found. -/
def pmmAlloc (pmm : Pmm) : Option (Nat × Pmm) :=
  let (address, next) := pageStackAlloc pmm
  if address ≠ 0 then some (address, next) else none

/-- `pmm_alloc_special`, with its assertion that a range was found. -/
def pmmAllocSpecial (pmm : Pmm) (count maxAddr alignment : Nat) : Option (Nat × Pmm) := do
  let (address, next) ← pageBitmapAlloc pmm count maxAddr alignment
  if address ≠ 0 then some (address, next) else none

/-- `pmm_free`. -/
def pmmFree (pmm : Pmm) (address : Nat) : Option Pmm :=
  pmmFreeUnlocked pmm (roundDown address pageSize)

/-- `pmm_free_pages`. -/
def pmmFreePages (pmm : Pmm) (address count : Nat) : Option Pmm :=
  pmmFreePagesUnlocked pmm (roundDown address pageSize) count

end Asym.PhysicalMemory
