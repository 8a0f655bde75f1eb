import Asym.Heap

/-!
# The block list of the heap

The headers in memory spell a list of blocks. The list is related to the memory
by a predicate that can be cut between any two blocks, so a change of one block
concerns its own header and nothing else. Three changes occur: a block is
reserved or freed, a free block is split, and a fresh block is appended.
-/

namespace Asym.HeapBlocks

open ByteMemory Intervals MachineWords Heap

/-- A block of the list. -/
structure Block where
  address : Nat
  size : Nat
  reserved : Bool
  deriving DecidableEq, Repr

/-- The header and the payload. -/
def Block.region (block : Block) : Interval := ⟨block.address, headerSize + block.size⟩

/-- The header. -/
def Block.header (block : Block) : Interval := ⟨block.address, headerSize⟩

/-- The payload. -/
def Block.payload (block : Block) : Interval := ⟨block.address + headerSize, block.size⟩

/-- A header in memory. -/
structure Header (memory : Memory) (block : Block) (next : Nat) : Prop where
  magic : load64 memory (magicField block.address) = heapHeaderMagic
  size : load64 memory (sizeField block.address) = block.size
  reserved : load64 memory (reservedField block.address) = if block.reserved then 1 else 0
  next : load64 memory (nextField block.address) = next

/-- The address of the first block of a list, or of what follows an empty one. -/
def start : List Block → Nat → Nat
  | [], after => after
  | block :: _, _ => block.address

/-- The headers in memory spell a list of blocks, and the last one points to what
follows. -/
def Linked (memory : Memory) : List Block → Nat → Prop
  | [], _ => True
  | block :: rest, after => Header memory block (start rest after) ∧ Linked memory rest after

/-- The start of a list in two parts. -/
theorem start_append (front back : List Block) (after : Nat) :
    start (front ++ back) after = start front (start back after) := by
  cases front <;> rfl

/-- A list in two parts is linked when both parts are. -/
theorem linked_append (memory : Memory) (front back : List Block) (after : Nat) :
    Linked memory (front ++ back) after ↔
      Linked memory front (start back after) ∧ Linked memory back after := by
  induction front with
  | nil => simp [Linked]
  | cons block rest ih =>
    rw [List.cons_append, Linked, Linked, ih, start_append, and_assoc]

/-- Every block of a linked list has its header in memory. -/
theorem linked_header {memory : Memory} {blocks : List Block} {after : Nat}
    (linked : Linked memory blocks after) (block : Block) (member : block ∈ blocks) :
    ∃ next, Header memory block next := by
  obtain ⟨front, back, rfl⟩ := List.append_of_mem member
  exact ⟨_, ((linked_append memory front (block :: back) after).mp linked).2.1⟩

/-- A header depends only on its bytes. -/
theorem header_frame {before after : Memory} {block : Block} {next : Nat}
    (same : ∀ place, block.header.Holds place → after place = before place)
    (header : Header before block next) : Header after block next := by
  have field : ∀ offset, offset + 8 ≤ headerSize →
      load64 after (block.address + offset) = load64 before (block.address + offset) := by
    intro offset inside
    apply load64_congr
    intro place short
    apply same
    simp only [Interval.Holds, Block.header]
    omega
  refine ⟨?_, ?_, ?_, ?_⟩
  · rw [← header.magic]
    exact field 0 (by decide)
  · rw [← header.size]
    exact field 8 (by decide)
  · rw [← header.reserved]
    exact field 16 (by decide)
  · rw [← header.next]
    exact field 24 (by decide)

/-- A list stays linked when no header changes. -/
theorem linked_frame {before after : Memory} {blocks : List Block} {last : Nat}
    (same : ∀ block ∈ blocks, ∀ place, block.header.Holds place → after place = before place)
    (linked : Linked before blocks last) : Linked after blocks last := by
  induction blocks with
  | nil => trivial
  | cons block rest ih =>
    refine ⟨header_frame (same block List.mem_cons_self) linked.1, ?_⟩
    exact ih (fun other member => same other (List.mem_cons_of_mem block member))
      linked.2

/-- The header lies inside the block. -/
theorem header_within (block : Block) : block.header.Within block.region := by
  simp only [Interval.Within, Block.header, Block.region]
  omega

/-- The payload lies inside the block. -/
theorem payload_within (block : Block) : block.payload.Within block.region := by
  simp only [Interval.Within, Block.payload, Block.region]
  omega

/-- The payload does not meet the header. -/
theorem payload_apart_header (block : Block) : block.payload.Apart block.header := by
  simp only [Interval.Apart, Block.payload, Block.header]
  omega

/-- Replacing one block of a linked list by blocks at the same place. -/
theorem linked_replace {before after : Memory} {front back parts : List Block} {whole : Block}
    (linked : Linked before (front ++ whole :: back) 0)
    (disjoint : ((front ++ whole :: back).map Block.region).Pairwise Interval.Apart)
    (frame : ∀ place, ¬ whole.region.Holds place → after place = before place)
    (begins : start parts (start back 0) = whole.address)
    (replaced : Linked after parts (start back 0)) :
    Linked after (front ++ (parts ++ back)) 0 := by
  rw [List.map_append, List.map_cons, List.pairwise_append, List.pairwise_cons] at disjoint
  obtain ⟨-, ⟨wholeApart, -⟩, across⟩ := disjoint
  rw [linked_append] at linked
  have untouched : ∀ block ∈ front ++ back, ∀ place, block.header.Holds place →
      after place = before place := by
    intro block member place here
    have inside := holds_of_within (header_within block) place here
    apply frame
    rcases List.mem_append.mp member with earlier | later
    · exact not_holds_of_apart (across _ (List.mem_map_of_mem earlier) _ List.mem_cons_self) place
        inside
    · exact not_holds_of_apart (apart_symm (wholeApart _ (List.mem_map_of_mem later))) place inside
  rw [linked_append, linked_append, start_append, begins]
  refine ⟨?_, replaced, ?_⟩
  · exact linked_frame (fun block member => untouched block (List.mem_append_left back member)) linked.1
  · exact linked_frame (fun block member => untouched block (List.mem_append_right front member)) linked.2.2

/-- What the search found in a list of blocks. -/
inductive FoundIn (blocks : List Block) (size : Nat) : Found → Prop where
  | exact (front : List Block) (block : Block) (back : List Block)
      (shape : blocks = front ++ block :: back) (unreserved : block.reserved = false)
      (fits : block.size = size) : FoundIn blocks size (.exact block.address)
  | larger (front : List Block) (block : Block) (back : List Block)
      (shape : blocks = front ++ block :: back) (unreserved : block.reserved = false)
      (fits : size + headerSize + heapAlignment < block.size) :
      FoundIn blocks size (.larger block.address)
  | absent (front : List Block) (block : Block) (shape : blocks = front ++ [block]) :
      FoundIn blocks size (.absent block.address)

/-- What is found in the rest of a list is found in the list. -/
theorem foundIn_append (passed blocks : List Block) (size : Nat) (found : Found)
    (later : FoundIn blocks size found) : FoundIn (passed ++ blocks) size found := by
  cases later with
  | exact front block back shape unreserved fits =>
    exact .exact (passed ++ front) block back (by rw [shape, List.append_assoc]) unreserved fits
  | larger front block back shape unreserved fits =>
    exact .larger (passed ++ front) block back (by rw [shape, List.append_assoc]) unreserved fits
  | absent front block shape =>
    exact .absent (passed ++ front) block (by rw [shape, List.append_assoc])

/-- The tests of one block find it only if it is free and fits. -/
theorem suits_foundIn (memory : Memory) (block : Block) (rest : List Block) (next size : Nat)
    (found : Found) (header : Header memory block next)
    (small : size + headerSize + heapAlignment < wordSize)
    (suited : suits memory size block.address = some found) :
    FoundIn (block :: rest) size found := by
  have sum : add (add size headerSize) heapAlignment = size + headerSize + heapAlignment := by
    rw [add_of_lt size headerSize (by omega), add_of_lt _ _ small]
  rw [suits, header.reserved, header.size, sum] at suited
  cases reserved : block.reserved with
  | true => simp [reserved] at suited
  | false =>
    rw [reserved, if_pos (by rfl)] at suited
    split_ifs at suited with exactly larger
    · rw [Option.some.injEq] at suited
      subst suited
      exact .exact [] block rest rfl reserved exactly
    · rw [Option.some.injEq] at suited
      subst suited
      exact .larger [] block rest rfl reserved larger

/-- The search passes by the blocks in front of the one that suits, or all of the list. -/
theorem search_stops (memory : Memory) (size fuel : Nat) (blocks : List Block) (found : Found)
    (present : blocks ≠ []) (nonzero : ∀ block ∈ blocks, block.address ≠ 0)
    (linked : Linked memory blocks 0)
    (returned : search memory size fuel (start blocks 0) = some found) :
    ∃ front block back, blocks = front ++ block :: back ∧
      (∀ passed ∈ front, suits memory size passed.address = none) ∧
      (suits memory size block.address = some found ∨
        back = [] ∧ suits memory size block.address = none ∧ found = .absent block.address) := by
  induction fuel generalizing blocks with
  | zero => simp [search] at returned
  | succ fuel ih =>
    obtain ⟨block, rest, rfl⟩ := List.exists_cons_of_ne_nil present
    rw [start, search] at returned
    cases suited : suits memory size block.address with
    | some early =>
      rw [suited] at returned
      obtain rfl := Option.some.inj returned
      exact ⟨[], block, rest, rfl, List.forall_mem_nil _, .inl suited⟩
    | none =>
      rw [suited] at returned
      simp only [linked.1.next] at returned
      cases rest with
      | nil =>
        simp only [start, ne_eq, not_true_eq_false, if_false, Option.some.injEq] at returned
        exact ⟨[], block, [], rfl, List.forall_mem_nil _, .inr ⟨rfl, suited, returned.symm⟩⟩
      | cons second others =>
        have further : start (second :: others) 0 ≠ 0 :=
          nonzero second (List.mem_cons_of_mem block List.mem_cons_self)
        rw [if_pos further] at returned
        obtain ⟨front, last, back, shape, passed, stops⟩ := ih (second :: others)
          (List.cons_ne_nil _ _)
          (fun other member => nonzero other (List.mem_cons_of_mem block member)) linked.2 returned
        exact ⟨block :: front, last, back, by rw [shape, List.cons_append],
          List.forall_mem_cons.mpr ⟨suited, passed⟩, stops⟩

/-- Whatever the search returns is found in the list. -/
theorem search_foundIn {memory : Memory} {size fuel : Nat} {blocks : List Block} {found : Found}
    (present : blocks ≠ []) (nonzero : ∀ block ∈ blocks, block.address ≠ 0)
    (linked : Linked memory blocks 0) (small : size + headerSize + heapAlignment < wordSize)
    (returned : search memory size fuel (start blocks 0) = some found) :
    FoundIn blocks size found := by
  obtain ⟨front, block, back, rfl, -, suited | ⟨rfl, -, rfl⟩⟩ := search_stops memory size fuel blocks
    found present nonzero linked returned
  · have header := ((linked_append memory front (block :: back) 0).mp linked).2.1
    apply foundIn_append
    exact suits_foundIn memory block back _ size found header small suited
  · exact .absent front block rfl

/-- The search ends within as many turns as there are blocks. -/
theorem search_ends (memory : Memory) (size fuel : Nat) (blocks : List Block)
    (present : blocks ≠ []) (linked : Linked memory blocks 0) (enough : blocks.length ≤ fuel) :
    ∃ found, search memory size fuel (start blocks 0) = some found := by
  induction fuel generalizing blocks with
  | zero => exact absurd (List.eq_nil_of_length_eq_zero (by omega)) present
  | succ fuel ih =>
    obtain ⟨block, rest, rfl⟩ := List.exists_cons_of_ne_nil present
    rw [start, search]
    cases suited : suits memory size block.address with
    | some early => exact ⟨early, rfl⟩
    | none =>
      simp only [linked.1.next]
      cases rest with
      | nil => exact ⟨.absent block.address, by simp [start]⟩
      | cons second others =>
        by_cases ends : start (second :: others) 0 = 0
        · exact ⟨.absent block.address, by simp [ends]⟩
        · rw [if_pos ends]
          exact ih (second :: others) (List.cons_ne_nil _ _) linked.2
            (by simpa using enough)

/-- Writing the reserved field of a block. -/
theorem header_reserve {memory : Memory} {block : Block} {next : Nat} (flag : Bool)
    (header : Header memory block next) :
    Header (store64 memory (reservedField block.address) (if flag then 1 else 0))
      { block with reserved := flag } next := by
  obtain ⟨magic, size, -, link⟩ := header
  have fits : (if flag then 1 else 0) < 2 ^ 64 := by cases flag <;> decide
  simp only [magicField, sizeField, reservedField, nextField] at *
  refine ⟨?_, ?_, ?_, ?_⟩
  · simp (disch := omega) only [magicField, load64_store64_disjoint, magic]
  · simp (disch := omega) only [sizeField, load64_store64_disjoint, size]
  · exact load64_store64_same _ _ _ fits
  · simp (disch := omega) only [nextField, load64_store64_disjoint, link]

/-- Writing the next field of a block. -/
theorem header_link {memory : Memory} {block : Block} {next after : Nat} (fits : after < 2 ^ 64)
    (header : Header memory block next) :
    Header (store64 memory (nextField block.address) after) block after := by
  obtain ⟨magic, size, reserved, -⟩ := header
  simp only [magicField, sizeField, reservedField, nextField] at *
  refine ⟨?_, ?_, ?_, ?_⟩
  · simp (disch := omega) only [magicField, load64_store64_disjoint, magic]
  · simp (disch := omega) only [sizeField, load64_store64_disjoint, size]
  · simp (disch := omega) only [reservedField, load64_store64_disjoint, reserved]
  · exact load64_store64_same _ _ _ fits

/-- Writing a field of a header changes no byte outside the header. -/
theorem set_outside (world : World) (block : Block) (field value place : Nat)
    (inside : block.address ≤ field ∧ field + 8 ≤ block.address + headerSize)
    (outside : ¬ block.header.Holds place) : (world.set field value).memory place = world.memory place := by
  apply store64_outside
  simp only [Interval.Holds, Block.header] at outside
  omega

/-- The reserved field lies in the header. -/
theorem reservedField_inside (block : Block) : block.address ≤ reservedField block.address ∧
    reservedField block.address + 8 ≤ block.address + headerSize := by
  simp only [reservedField, headerSize]
  omega

/-- The next field lies in the header. -/
theorem nextField_inside (block : Block) : block.address ≤ nextField block.address ∧
    nextField block.address + 8 ≤ block.address + headerSize := by
  simp only [nextField, headerSize]
  omega

/-- Writing the reserved field of a block changes no byte outside the block. -/
theorem reserve_outside (world : World) (block : Block) (value place : Nat)
    (outside : ¬ block.region.Holds place) :
    (world.set (reservedField block.address) value).memory place = world.memory place := by
  apply set_outside world block _ _ place (reservedField_inside block)
  exact fun here => outside (holds_of_within (header_within block) place here)

/-- The two blocks of a split. -/
def splitParts (block : Block) (size : Nat) : List Block :=
  [{ block with size := size },
    ⟨block.address + headerSize + size, block.size - headerSize - size, false⟩]

/-- The address of the second part of a split does not wrap. -/
theorem split_place {block : Block} {size : Nat} (larger : size + headerSize < block.size)
    (bounded : block.address + headerSize + block.size ≤ wordSize) :
    add (add block.address headerSize) size = block.address + headerSize + size := by
  have first : add block.address headerSize = block.address + headerSize :=
    add_of_lt _ _ (by omega)
  rw [first]
  exact add_of_lt _ _ (by omega)

/-- Splitting a block writes the headers of its two parts. -/
theorem heapBlockSplit_linked (world : World) (block : Block) (next size : Nat)
    (header : Header world.memory block next) (larger : size + headerSize < block.size)
    (bounded : block.address + headerSize + block.size ≤ wordSize) (nextFits : next < 2 ^ 64) :
    Linked (heapBlockSplit world block.address size).memory (splitParts block size) next := by
  have place := split_place larger bounded
  have remaining : sub (sub block.size headerSize) size = block.size - headerSize - size := by
    rw [sub_of_le block.size headerSize (by omega) (by simp only [headerSize] at *; omega),
      sub_of_le _ _ (by omega) (by simp only [headerSize] at *; omega)]
  obtain ⟨magic, sized, reserved, link⟩ := header
  have word : wordSize = 2 ^ 64 := rfl
  have magicFits : heapHeaderMagic < 2 ^ 64 := by decide
  have head : headerSize = 64 := rfl
  simp only [heapBlockSplit, World.set, sized, place, remaining, splitParts, Linked, start,
    magicField, sizeField, reservedField, nextField] at *
  refine ⟨⟨?_, ?_, ?_, ?_⟩, ⟨?_, ?_, ?_, ?_⟩, trivial⟩ <;>
    simp (disch := omega) only [magicField, sizeField, reservedField, nextField,
      load64_store64_same, load64_store64_disjoint, magic, reserved, link, if_false,
      Bool.false_eq_true]

/-- Splitting a block changes no byte outside it. -/
theorem heapBlockSplit_frame (world : World) (block : Block) (size place : Nat)
    (larger : size + headerSize < block.size)
    (bounded : block.address + headerSize + block.size ≤ wordSize)
    (sized : load64 world.memory (sizeField block.address) = block.size)
    (outside : ¬ block.region.Holds place) :
    (heapBlockSplit world block.address size).memory place = world.memory place := by
  have part := split_place larger bounded
  have head : headerSize = 64 := rfl
  simp only [Interval.Holds, Block.region] at outside
  simp only [heapBlockSplit, World.set, part, magicField, sizeField, reservedField, nextField]
  simp (disch := omega) only [store64_outside]

/-- A fresh block has whole pages, and room for a header and the size asked. -/
theorem blockBytes_spec (build : Build) (size : Nat) (bounded : size + headerSize + pageSize ≤ wordSize) :
    blockBytes build size % pageSize = 0 ∧ size + headerSize ≤ blockBytes build size ∧
      blockBytes build size < wordSize := by
  cases build with
  | kernel =>
    simp only [blockBytes, mul, sizeInPages, sub, add, wordSize, pageSize, headerSize] at *
    omega
  | user =>
    simp only [blockBytes, roundUp, sub, add, wordSize, pageSize, headerSize] at *
    omega

/-- The block that `_HeapBlockNew` writes. -/
def freshBlock (build : Build) (address size : Nat) : Block :=
  ⟨address, blockBytes build size - headerSize, false⟩

/-- `_HeapBlockNew` writes the header of the fresh block. -/
theorem heapBlockNew_header (build : Build) (world : World) (address size : Nat)
    (obtained : address ≠ 0) (bounded : size + headerSize + pageSize ≤ wordSize) :
    Header (heapBlockNew build world address size).2.memory (freshBlock build address size) 0 := by
  obtain ⟨-, room, fits⟩ := blockBytes_spec build size bounded
  have remaining : sub (blockBytes build size) headerSize = blockBytes build size - headerSize :=
    sub_of_le _ _ (by omega) fits
  have word : wordSize = 2 ^ 64 := rfl
  have magicFits : heapHeaderMagic < 2 ^ 64 := by decide
  simp only [heapBlockNew, if_neg obtained, World.set, remaining, freshBlock, magicField,
    sizeField, reservedField, nextField]
  refine ⟨?_, ?_, ?_, ?_⟩ <;>
    simp (disch := omega) only [magicField, sizeField, reservedField, nextField,
      load64_store64_same, load64_store64_disjoint, if_false, Bool.false_eq_true]

/-- `_HeapBlockNew` changes no byte outside the header of the fresh block. -/
theorem heapBlockNew_frame (build : Build) (world : World) (address size place : Nat)
    (obtained : address ≠ 0)
    (outside : ¬ (freshBlock build address size).header.Holds place) :
    (heapBlockNew build world address size).2.memory place = world.memory place := by
  simp only [Interval.Holds, Block.header, freshBlock, headerSize] at outside
  simp only [heapBlockNew, if_neg obtained, World.set, magicField, sizeField, reservedField,
    nextField]
  simp (disch := omega) only [store64_outside]

/-- `_HeapBlockNew` records what was obtained. -/
theorem heapBlockNew_regions (build : Build) (world : World) (address size : Nat)
    (obtained : address ≠ 0) :
    (heapBlockNew build world address size).2.regions =
      ⟨address, blockBytes build size⟩ :: world.regions := by
  simp only [heapBlockNew, if_neg obtained, World.set]

/-- Splitting a block obtains nothing. -/
theorem heapBlockSplit_regions (world : World) (block size : Nat) :
    (heapBlockSplit world block size).regions = world.regions := rfl

end Asym.HeapBlocks
