import Asym.ByteMemory
import Asym.Intervals
import Asym.MachineWords

/-!
# The heap

A model of `malloc_unlocked`, `free_unlocked`, `realloc` and the heap blocks they
work on. The block list lives in the memory itself: a header of 64 bytes stands
before every payload. The kernel and the user library are two builds of the same
source; they differ in how `_HeapBlockNew` computes the size of a fresh block, in
the size of the first block and in the checks before a block is freed.

Where the memory of a fresh block comes from is left open: `_HeapBlockNew` is
given an address, zero when none was obtained, and the world records what was
obtained so far.
-/

namespace Asym.Heap

open ByteMemory Intervals MachineWords

/-- The two builds of the source: with `__EMBED__` and without. -/
inductive Build where
  | kernel
  | user
  deriving DecidableEq, Repr

/-- `HEAP_ALIGNMENT`. -/
def heapAlignment : Nat := 64

/-- The size of `heap_header_t`. -/
def headerSize : Nat := 64

/-- `HEAP_HEADER_MAGIC`. -/
def heapHeaderMagic : Nat := 0xBC709F7DE48C8381

/-- The field `magic`. -/
def magicField (block : Nat) : Nat := block

/-- The field `size`. -/
def sizeField (block : Nat) : Nat := block + 8

/-- The field `reserved`. -/
def reservedField (block : Nat) : Nat := block + 16

/-- The field `next`. -/
def nextField (block : Nat) : Nat := block + 24

/-- `HEAP_HEADER_GET_START`. -/
def headerGetStart (block : Nat) : Nat := add block headerSize

/-- The header of a pointer that was handed out. -/
def headerOf (pointer : Nat) : Nat := sub pointer headerSize

/-- The memory, and the intervals of it obtained for blocks so far. -/
structure World where
  memory : Memory
  regions : List Interval

/-- An assignment to a field. -/
def World.set (world : World) (field value : Nat) : World :=
  { world with memory := store64 world.memory field value }

/-- `_HeapBlockSplit`. -/
def heapBlockSplit (world : World) (block size : Nat) : World :=
  let newBlock := add (add block headerSize) size
  let remaining := sub (sub (load64 world.memory (sizeField block)) headerSize) size
  let sized := world.set (sizeField newBlock) remaining
  let linked := sized.set (nextField newBlock) (load64 sized.memory (nextField block))
  let freed := linked.set (reservedField newBlock) 0
  let marked := freed.set (magicField newBlock) heapHeaderMagic
  (marked.set (sizeField block) size).set (nextField block) newBlock

/-- The bytes of a fresh block, its header included. -/
def blockBytes : Build → Nat → Nat
  | .kernel, size => mul (sizeInPages (add size headerSize)) pageSize
  | .user, size => roundUp (add size headerSize) pageSize

/-- `_HeapBlockNew`, given the address obtained for the block. -/
def heapBlockNew (build : Build) (world : World) (address size : Nat) : Nat × World :=
  if address = 0 then (0, world)
  else
    let bytes := blockBytes build size
    let obtained := { world with regions := ⟨address, bytes⟩ :: world.regions }
    let sized := obtained.set (sizeField address) (sub bytes headerSize)
    let linked := sized.set (nextField address) 0
    let freed := linked.set (reservedField address) 0
    (address, freed.set (magicField address) heapHeaderMagic)

/-- How the search for a block ends. -/
inductive Found where
  | exact (block : Nat)
  | larger (block : Nat)
  | absent (last : Nat)
  deriving DecidableEq, Repr

/-- The tests of one block in the search. -/
def suits (memory : Memory) (size block : Nat) : Option Found :=
  if load64 memory (reservedField block) = 0 then
    if load64 memory (sizeField block) = size then some (.exact block)
    else if load64 memory (sizeField block) > add (add size headerSize) heapAlignment then
      some (.larger block)
    else none
  else none

/-- The loop of `malloc_unlocked`. -/
def search (memory : Memory) (size : Nat) : Nat → Nat → Option Found
  | 0, _ => none
  | fuel + 1, current =>
      match suits memory size current with
      | some found => some found
      | none =>
          if load64 memory (nextField current) ≠ 0 then
            search memory size fuel (load64 memory (nextField current))
          else some (.absent current)

/-- The end of `malloc_unlocked`, when no block of the list suits. -/
def appendBlock (build : Build) (world : World) (last size address : Nat) : Nat × World :=
  match heapBlockNew build world address size with
  | (0, unchanged) => (0, unchanged)
  | (newBlock, obtained) =>
      let split := if load64 obtained.memory (sizeField newBlock) >
          add (add size headerSize) heapAlignment then heapBlockSplit obtained newBlock size
        else obtained
      (headerGetStart newBlock, (split.set (nextField last) newBlock).set (reservedField newBlock) 1)

/-- `malloc_unlocked`, with `NULL` as zero. No result means that the fuel given
to the loop was too little. -/
def mallocUnlocked (build : Build) (world : World) (firstBlock fuel size address : Nat) :
    Option (Nat × World) :=
  if size = 0 then some (0, world)
  else
    let rounded := roundUp size heapAlignment
    match search world.memory rounded fuel firstBlock with
    | none => none
    | some (.exact block) => some (headerGetStart block, world.set (reservedField block) 1)
    | some (.larger block) =>
        some (headerGetStart block,
          heapBlockSplit (world.set (reservedField block) 1) block rounded)
    | some (.absent last) => some (appendBlock build world last rounded address)

/-- The checks of `free_unlocked` and `realloc`. Only the kernel makes them, and a
check that fails is a panic. -/
def checkMagic (build : Build) (world : World) (block : Nat) : Bool :=
  build = .user || load64 world.memory (magicField block) = heapHeaderMagic

/-- The check that a block to be freed is reserved. -/
def checkReserved (build : Build) (world : World) (block : Nat) : Bool :=
  build = .user || load64 world.memory (reservedField block) ≠ 0

/-- `free_unlocked`. No result means a panic. -/
def freeUnlocked (build : Build) (world : World) (pointer : Nat) : Option World :=
  let block := headerOf pointer
  if checkMagic build world block && checkReserved build world block then
    some (world.set (reservedField block) 0)
  else none

/-- `realloc`. No result means a panic or too little fuel. -/
def realloc (build : Build) (world : World) (firstBlock fuel pointer size address : Nat) :
    Option (Nat × World) :=
  let block := headerOf pointer
  if checkMagic build world block then
    match mallocUnlocked build world firstBlock fuel size address with
    | none => none
    | some (newPointer, allocated) =>
        let amount := min size (load64 allocated.memory (sizeField block))
        let copied := { allocated with memory := copy allocated.memory newPointer pointer amount }
        match freeUnlocked build copied pointer with
        | none => none
        | some freed => some (newPointer, freed)
  else none

/-- The size with which `_HeapInit` obtains the first block. -/
def firstSize : Build → Nat
  | .kernel => pageSize
  | .user => sub pageSize headerSize

/-- `_HeapInit`, given the address obtained: the first block and the world. -/
def heapInit (build : Build) (memory : Memory) (address : Nat) : Nat × World :=
  heapBlockNew build ⟨memory, []⟩ address (firstSize build)

end Asym.Heap
