import Asym.HeapBlocks

/-!
# The layout of the heap

A layout is a list of blocks that the memory spells, with disjoint, aligned
blocks inside the memory obtained. Each heap operation turns a layout into a
layout: the search ends in one of three ways, and each of them replaces a free
block by parts of it or appends parts of a fresh one. The payload of a reserved
block is neither moved nor written by an allocation.
-/

namespace Asym.HeapLayout

open ByteMemory Intervals MachineWords Heap HeapBlocks

/-- Memory was obtained in disjoint intervals that start on pages, as
`_HeapBlockNew` gets it from the address counter of the kernel or from `mmap`. -/
structure Obtained (regions : List Interval) : Prop where
  nonzero : ∀ region ∈ regions, region.start ≠ 0
  aligned : ∀ region ∈ regions, region.start % pageSize = 0
  bounded : ∀ region ∈ regions, region.start + region.length ≤ wordSize
  apart : regions.Pairwise Interval.Apart

/-- A block lies on a multiple of the alignment and inside the address space. -/
structure Placed (block : Block) : Prop where
  nonzero : block.address ≠ 0
  aligned : block.address % heapAlignment = 0
  whole : block.size % heapAlignment = 0
  bounded : block.address + headerSize + block.size ≤ wordSize

/-- The memory spells a list of disjoint blocks inside the memory obtained. -/
structure Layout (world : World) (firstBlock : Nat) (blocks : List Block) : Prop where
  linked : Linked world.memory blocks 0
  first : firstBlock = start blocks 0
  present : blocks ≠ []
  placed : ∀ block ∈ blocks, Placed block
  apart : (blocks.map Block.region).Pairwise Interval.Apart
  inside : ∀ block ∈ blocks, ∃ region ∈ world.regions, block.region.Within region

/-- Every block has a payload. -/
def Sized (blocks : List Block) : Prop := ∀ block ∈ blocks, 1 ≤ block.size

/-- What a successful allocation hands out: the payload of a block with room for
the size asked, and with little more. -/
structure Served (blocks new : List Block) (block : Block) (size pointer : Nat) : Prop where
  room : size ≤ block.size
  close : block.size < size + headerSize + heapAlignment + heapAlignment
  points : pointer = block.address + headerSize
  sized : Sized blocks → Sized new

/-- Two lists of blocks with payloads. -/
theorem sized_append {front back : List Block} (first : Sized front) (second : Sized back) :
    Sized (front ++ back) :=
  List.forall_mem_append.mpr ⟨first, second⟩

/-- A reserved or freed block keeps its payload. -/
theorem sized_reserve {block : Block} {flag : Bool} (sized : 1 ≤ block.size) :
    Sized [{ block with reserved := flag }] := by
  intro part member
  rw [List.mem_singleton.mp member]
  exact sized

/-- Replacing one block by parts with payloads. -/
theorem sized_replace {front back parts : List Block} {whole : Block}
    (sized : Sized (front ++ whole :: back)) (replaced : Sized parts) :
    Sized (front ++ (parts ++ back)) := by
  obtain ⟨first, second⟩ := List.forall_mem_append.mp sized
  exact sized_append first (sized_append replaced (List.forall_mem_cons.mp second).2)

/-- The parts of a split have payloads. -/
theorem splitParts_sized (block : Block) (size : Nat) (positive : 1 ≤ size)
    (larger : size + headerSize < block.size) : Sized (splitParts block size) := by
  simp only [Sized, splitParts, List.mem_cons, List.not_mem_nil, or_false, forall_eq_or_imp, forall_eq]
  omega

/-- The address of what follows a block fits a machine word. -/
theorem start_lt (blocks : List Block) (placed : ∀ block ∈ blocks, Placed block) :
    start blocks 0 < 2 ^ 64 := by
  cases blocks with
  | nil => decide
  | cons block rest =>
    have bounded := (placed block List.mem_cons_self).bounded
    simp only [wordSize, headerSize, start] at *
    omega

/-- Different blocks of a layout have different addresses. -/
theorem address_ne {world : World} {firstBlock : Nat} {blocks : List Block}
    (layout : Layout world firstBlock blocks) (first second : Block) (firstMember : first ∈ blocks)
    (secondMember : second ∈ blocks) (different : first ≠ second) :
    first.address ≠ second.address := by
  have apart := apart_of_mem layout.apart first second firstMember secondMember different
  simp only [Interval.Apart, Block.region, headerSize] at apart
  omega

/-- The payload of a block meets no header. -/
theorem payload_apart_headers {world : World} {firstBlock : Nat} {blocks : List Block}
    (layout : Layout world firstBlock blocks) (block other : Block) (member : block ∈ blocks)
    (otherMember : other ∈ blocks) : block.payload.Apart other.header := by
  by_cases same : block = other
  · rw [same]
    exact payload_apart_header other
  · exact apart_of_within
      (apart_of_mem layout.apart block other member otherMember same)
      (payload_within block) (header_within other)

/-- Replacing one block by parts of it. -/
theorem layout_replace (world after : World) (firstBlock : Nat) (front back parts : List Block)
    (whole : Block) (layout : Layout world firstBlock (front ++ whole :: back))
    (regions : after.regions = world.regions)
    (frame : ∀ place, ¬ whole.region.Holds place → after.memory place = world.memory place)
    (begins : start parts (start back 0) = whole.address)
    (linked : Linked after.memory parts (start back 0)) (present : parts ≠ [])
    (placed : ∀ part ∈ parts, Placed part)
    (within : ∀ part ∈ parts, part.region.Within whole.region)
    (apart : (parts.map Block.region).Pairwise Interval.Apart) :
    Layout after firstBlock (front ++ (parts ++ back)) where
  linked := linked_replace layout.linked layout.apart frame begins linked
  first := by
    rw [layout.first, start_append, start_append, start_append, begins, start]
  present := by simp [present]
  placed block member := by
    rcases List.mem_append.mp member with earlier | others
    · exact layout.placed block (List.mem_append_left _ earlier)
    · rcases List.mem_append.mp others with part | later
      · exact placed block part
      · exact layout.placed block (List.mem_append_right _ (List.mem_cons_of_mem whole later))
  apart := by
    have disjoint := layout.apart
    rw [List.map_append, List.map_cons] at disjoint
    rw [List.map_append, List.map_append]
    refine pairwise_replace _ _ _ _ disjoint ?_ apart
    intro interval member
    obtain ⟨part, partMember, rfl⟩ := List.mem_map.mp member
    exact within part partMember
  inside block member := by
    rw [regions]
    rcases List.mem_append.mp member with earlier | others
    · exact layout.inside block (List.mem_append_left _ earlier)
    · rcases List.mem_append.mp others with part | later
      · obtain ⟨region, known, inside⟩ := layout.inside whole
          (List.mem_append_right front List.mem_cons_self)
        exact ⟨region, known, within_trans (within block part) inside⟩
      · exact layout.inside block (List.mem_append_right _ (List.mem_cons_of_mem whole later))

/-- What an allocation does: a block that no holder had becomes reserved, and the
blocks that were reserved stay as they are. -/
structure Allocated (before after : World) (firstBlock : Nat) (old new : List Block)
    (block : Block) : Prop where
  layout : Layout after firstBlock new
  member : block ∈ new
  reserved : block.reserved = true
  kept : ∀ other ∈ old, other.reserved = true → other ∈ new
  unheld : ∀ other ∈ old, other.reserved = true → other.address ≠ block.address
  unharmed : ∀ other ∈ old, other.reserved = true → ∀ place, other.payload.Holds place →
    after.memory place = before.memory place

/-- Replacing a free block by parts of which the first is reserved. -/
theorem allocated_replace (world after : World) (firstBlock : Nat) (front back rest : List Block)
    (whole block : Block) (layout : Layout world firstBlock (front ++ whole :: back))
    (unreserved : whole.reserved = false) (reserved : block.reserved = true)
    (frame : ∀ place, ¬ whole.region.Holds place → after.memory place = world.memory place)
    (same : block.address = whole.address)
    (replaced : Layout after firstBlock (front ++ ((block :: rest) ++ back))) :
    Allocated world after firstBlock (front ++ whole :: back) (front ++ ((block :: rest) ++ back))
      block := by
  have wholeMember : whole ∈ front ++ whole :: back :=
    List.mem_append_right front List.mem_cons_self
  have different : ∀ other : Block, other.reserved = true → other ≠ whole := by
    rintro other held rfl
    rw [unreserved] at held
    contradiction
  refine ⟨replaced, ?_, reserved, ?_, ?_, ?_⟩
  · exact List.mem_append_right front (List.mem_append_left back List.mem_cons_self)
  · intro other member held
    rcases List.mem_append.mp member with earlier | others
    · exact List.mem_append_left _ earlier
    · rcases List.mem_cons.mp others with isWhole | later
      · exact absurd isWhole (different other held)
      · exact List.mem_append_right front (List.mem_append_right _ later)
  · intro other member held
    rw [same]
    exact address_ne layout other whole member wholeMember (different other held)
  · intro other member held place here
    apply frame
    exact not_holds_of_apart (apart_of_mem layout.apart other whole member
      wholeMember (different other held)) place (holds_of_within (payload_within other) place here)

/-- Writing the reserved field of a block gives a layout again. -/
theorem layout_reserve {world : World} {firstBlock : Nat} {front back : List Block} {block : Block}
    (flag : Bool) (layout : Layout world firstBlock (front ++ block :: back)) :
    Layout (world.set (reservedField block.address) (if flag then 1 else 0)) firstBlock
      (front ++ ([{ block with reserved := flag }] ++ back)) := by
  have member : block ∈ front ++ block :: back := List.mem_append_right front List.mem_cons_self
  obtain ⟨nonzero, aligned, whole, bounded⟩ := layout.placed block member
  have linked := (linked_append _ _ _ _).mp layout.linked
  refine layout_replace world _ firstBlock front back _ block layout rfl ?_ rfl
    ⟨header_reserve flag linked.2.1, trivial⟩ (List.cons_ne_nil _ _) ?_ ?_ ?_
  · exact fun place outside => reserve_outside world block _ place outside
  · intro part isPart
    obtain rfl := List.mem_singleton.mp isPart
    exact ⟨nonzero, aligned, whole, bounded⟩
  · intro part isPart
    obtain rfl := List.mem_singleton.mp isPart
    exact within_refl _
  · exact List.pairwise_singleton _ _

/-- The first end of the search: a free block of the size asked is reserved. -/
theorem allocated_exact {world : World} {firstBlock : Nat} {front back : List Block} {block : Block}
    (layout : Layout world firstBlock (front ++ block :: back))
    (unreserved : block.reserved = false) :
    Allocated world (world.set (reservedField block.address) 1) firstBlock (front ++ block :: back)
      (front ++ ([{ block with reserved := true }] ++ back)) { block with reserved := true } := by
  refine allocated_replace world _ firstBlock front back [] block { block with reserved := true }
    layout unreserved rfl ?_ rfl (layout_reserve true layout)
  exact fun place outside => reserve_outside world block 1 place outside

/-- The parts of a split lie apart inside the block. -/
theorem splitParts_apart (block : Block) (size : Nat) (larger : size + headerSize < block.size) :
    ((splitParts block size).map Block.region).Pairwise Interval.Apart ∧
      ∀ part ∈ splitParts block size, part.region.Within block.region := by
  constructor
  · simp only [splitParts, List.map_cons, List.map_nil, List.pairwise_cons, List.mem_singleton,
      forall_eq, List.not_mem_nil, false_implies, implies_true, List.Pairwise.nil, and_true]
    simp only [Interval.Apart, Block.region]
    omega
  · intro part member
    simp only [splitParts, List.mem_cons, List.not_mem_nil, or_false] at member
    rcases member with rfl | rfl
    · simp only [Interval.Within, Block.region]
      omega
    · simp only [Interval.Within, Block.region]
      omega

/-- The parts of a split are placed. -/
theorem splitParts_placed (block : Block) (size : Nat) (larger : size + headerSize < block.size)
    (whole : size % heapAlignment = 0) (placed : Placed block) (part : Block)
    (member : part ∈ splitParts block size) : Placed part := by
  obtain ⟨nonzero, aligned, multiple, bounded⟩ := placed
  simp only [heapAlignment, headerSize] at *
  simp only [splitParts, List.mem_cons, List.not_mem_nil, or_false] at member
  rcases member with rfl | rfl
  · refine ⟨nonzero, aligned, whole, ?_⟩
    simp only [headerSize]
    omega
  · refine ⟨?_, ?_, ?_, ?_⟩
    all_goals
      simp only [headerSize, heapAlignment]
      omega

/-- The second end of the search: a larger free block is reserved and split. -/
theorem allocated_larger {world : World} {firstBlock size : Nat} {front back : List Block}
    {block : Block} (layout : Layout world firstBlock (front ++ block :: back))
    (unreserved : block.reserved = false) (whole : size % heapAlignment = 0)
    (larger : size + headerSize < block.size) :
    Allocated world (heapBlockSplit (world.set (reservedField block.address) 1) block.address size)
      firstBlock (front ++ block :: back)
      (front ++ (splitParts { block with reserved := true } size ++ back))
      { block with size := size, reserved := true } := by
  have member : block ∈ front ++ block :: back := List.mem_append_right front List.mem_cons_self
  have placed := layout.placed block member
  have marked := layout_reserve true layout
  have header := ((linked_append _ _ _ _).mp marked.linked).2.1
  have nextFits : start back 0 < 2 ^ 64 := by
    apply start_lt
    intro other later
    exact layout.placed other (List.mem_append_right front (List.mem_cons_of_mem block later))
  have markedMember : { block with reserved := true } ∈
      front ++ ([{ block with reserved := true }] ++ back) :=
    List.mem_append_right front List.mem_cons_self
  obtain ⟨partsApart, partsWithin⟩ := splitParts_apart { block with reserved := true } size larger
  have splitFrame := heapBlockSplit_frame (world.set (reservedField block.address) 1)
    { block with reserved := true } size
  have replaced := layout_replace _ (heapBlockSplit (world.set (reservedField block.address) 1)
      block.address size) firstBlock front back
    (splitParts { block with reserved := true } size) { block with reserved := true } marked rfl
    (fun place outside => splitFrame place larger placed.bounded header.size outside) rfl
    (heapBlockSplit_linked _ _ _ size header larger placed.bounded nextFits)
    (List.cons_ne_nil _ _)
    (splitParts_placed { block with reserved := true } size larger whole
      (marked.placed _ markedMember)) partsWithin partsApart
  refine allocated_replace world _ firstBlock front back _ block _ layout unreserved rfl ?_ rfl
    replaced
  intro place outside
  rw [splitFrame place larger placed.bounded header.size outside]
  exact reserve_outside world block 1 place outside

/-- Memory that was just obtained meets no block. -/
theorem fresh_unmet {world : World} {firstBlock : Nat} {blocks : List Block} (fresh : Interval)
    (layout : Layout world firstBlock blocks) (obtained : Obtained (fresh :: world.regions))
    (block : Block) (member : block ∈ blocks) : block.region.Apart fresh := by
  obtain ⟨region, known, inside⟩ := layout.inside block member
  have apart := (List.pairwise_cons.mp obtained.apart).1 region known
  exact apart_of_within (apart_symm apart) inside (within_refl fresh)

/-- Linking parts of a fresh block behind the last block. -/
theorem layout_append {world middle : World} {firstBlock : Nat} {front parts : List Block}
    {last : Block} {fresh : Interval} (layout : Layout world firstBlock (front ++ [last]))
    (regions : middle.regions = fresh :: world.regions)
    (obtained : Obtained (fresh :: world.regions))
    (frame : ∀ place, ¬ fresh.Holds place → middle.memory place = world.memory place)
    (linked : Linked middle.memory parts 0) (placed : ∀ part ∈ parts, Placed part)
    (within : ∀ part ∈ parts, part.region.Within fresh)
    (apart : (parts.map Block.region).Pairwise Interval.Apart) :
    Layout (middle.set (nextField last.address) (start parts 0)) firstBlock
      ((front ++ [last]) ++ parts) := by
  have unmet := fresh_unmet fresh layout obtained
  have lastMember : last ∈ front ++ [last] := List.mem_append_right front List.mem_cons_self
  have outsideLast : ∀ block : Block, block.region.Apart last.region → ∀ place,
      block.header.Holds place → (middle.set (nextField last.address) (start parts 0)).memory place =
        middle.memory place := by
    intro block blockApart place here
    apply set_outside middle last _ _ place (nextField_inside last)
    exact not_holds_of_apart
      (apart_of_within blockApart (header_within block) (header_within last)) place here
  have outsideFresh : ∀ block ∈ front ++ [last], ∀ place, block.header.Holds place →
      middle.memory place = world.memory place := by
    intro block member place here
    apply frame
    exact not_holds_of_apart (unmet block member) place
      (holds_of_within (header_within block) place here)
  obtain ⟨frontLinked, lastHeader, -⟩ := (linked_append _ _ _ _).mp layout.linked
  have disjoint := layout.apart
  rw [List.map_append, List.pairwise_append] at disjoint
  obtain ⟨-, -, across⟩ := disjoint
  refine ⟨?_, ?_, ?_, ?_, ?_, ?_⟩
  · rw [linked_append, linked_append]
    refine ⟨⟨?_, ?_, trivial⟩, ?_⟩
    · refine linked_frame (fun block member place here => ?_) frontLinked
      rw [outsideLast block (across _ (List.mem_map_of_mem member) _ List.mem_cons_self) place here]
      exact outsideFresh block (List.mem_append_left _ member) place here
    · exact header_link (start_lt parts placed)
        (header_frame (outsideFresh last lastMember) lastHeader)
    · refine linked_frame (fun part member place here => ?_) linked
      exact outsideLast part (apart_of_within (apart_symm (unmet last lastMember))
        (within part member) (within_refl _)) place here
  · rw [layout.first, start_append, start_append, start_append]
    rfl
  · simp
  · intro block member
    rcases List.mem_append.mp member with older | part
    · exact layout.placed block older
    · exact placed block part
  · rw [List.map_append]
    refine pairwise_extend _ _ fresh layout.apart ?_ ?_ apart
    · intro interval member
      obtain ⟨block, older, rfl⟩ := List.mem_map.mp member
      exact unmet block older
    · intro interval member
      obtain ⟨part, partMember, rfl⟩ := List.mem_map.mp member
      exact within part partMember
  · intro block member
    have known : (middle.set (nextField last.address) (start parts 0)).regions =
        fresh :: world.regions := regions
    rw [known]
    rcases List.mem_append.mp member with older | part
    · obtain ⟨region, earlier, inside⟩ := layout.inside block older
      exact ⟨region, List.mem_cons_of_mem fresh earlier, inside⟩
    · exact ⟨fresh, List.mem_cons_self, within block part⟩

/-- Appending parts of a fresh block and reserving the first of them. -/
theorem allocated_append {world middle : World} {firstBlock : Nat} {front rest : List Block}
    {last head : Block} {fresh : Interval} (layout : Layout world firstBlock (front ++ [last]))
    (regions : middle.regions = fresh :: world.regions)
    (obtained : Obtained (fresh :: world.regions))
    (frame : ∀ place, ¬ fresh.Holds place → middle.memory place = world.memory place)
    (linked : Linked middle.memory (head :: rest) 0) (placed : ∀ part ∈ head :: rest, Placed part)
    (within : ∀ part ∈ head :: rest, part.region.Within fresh)
    (apart : ((head :: rest).map Block.region).Pairwise Interval.Apart) :
    Allocated world
      ((middle.set (nextField last.address) head.address).set (reservedField head.address) 1)
      firstBlock (front ++ [last])
      ((front ++ [last]) ++ ([{ head with reserved := true }] ++ rest))
      { head with reserved := true } := by
  have appended := layout_append layout regions obtained frame linked placed within apart
  have unmet := fresh_unmet fresh layout obtained
  have lastMember : last ∈ front ++ [last] := List.mem_append_right front List.mem_cons_self
  refine ⟨layout_reserve true appended, ?_, rfl, ?_, ?_, ?_⟩
  · exact List.mem_append_right _ List.mem_cons_self
  · intro other member _
    exact List.mem_append_left _ member
  · intro other member _
    have clear := apart_of_within (unmet other member) (within_refl _)
      (within head List.mem_cons_self)
    simp only [Interval.Apart, Block.region, headerSize] at clear
    change other.address ≠ head.address
    omega
  · intro other member _ place here
    have outsideFresh := not_holds_of_apart (unmet other member) place
      (holds_of_within (payload_within other) place here)
    have outsideHead : ¬ head.header.Holds place := fun inside => outsideFresh
      (holds_of_within (within_trans (header_within head) (within head List.mem_cons_self)) place
        inside)
    have outsideLast := not_holds_of_apart
      (payload_apart_headers layout other last member lastMember) place here
    rw [set_outside _ head _ _ place (reservedField_inside head) outsideHead,
      set_outside _ last _ _ place (nextField_inside last) outsideLast, frame place outsideFresh]

/-- A fresh block is placed. -/
theorem freshBlock_placed (build : Build) (world : World) (address size : Nat)
    (bounded : size + headerSize + pageSize ≤ wordSize)
    (obtained : Obtained (⟨address, blockBytes build size⟩ :: world.regions)) :
    Placed (freshBlock build address size) := by
  obtain ⟨pages, room, -⟩ := blockBytes_spec build size bounded
  have nonzero := obtained.nonzero _ List.mem_cons_self
  have aligned := obtained.aligned _ List.mem_cons_self
  have fits := obtained.bounded _ List.mem_cons_self
  simp only [pageSize, headerSize] at *
  refine ⟨nonzero, ?_, ?_, ?_⟩
  all_goals
    simp only [freshBlock, heapAlignment, headerSize]
    omega

/-- A fresh block is all of the memory obtained for it. -/
theorem freshBlock_region (build : Build) (address size : Nat)
    (bounded : size + headerSize + pageSize ≤ wordSize) :
    (freshBlock build address size).region = ⟨address, blockBytes build size⟩ := by
  obtain ⟨-, room, -⟩ := blockBytes_spec build size bounded
  simp only [Block.region, freshBlock, Interval.mk.injEq, true_and]
  omega

/-- The blocks of a fresh block after it is split when it is much larger. -/
def freshParts (build : Build) (address size : Nat) : List Block :=
  if size + headerSize + heapAlignment < (freshBlock build address size).size then
    splitParts (freshBlock build address size) size
  else [freshBlock build address size]

/-- The world after a fresh block is written and split when it is much larger. -/
def freshWorld (build : Build) (world : World) (address size : Nat) : World :=
  if size + headerSize + heapAlignment < (freshBlock build address size).size then
    heapBlockSplit (heapBlockNew build world address size).2 address size
  else (heapBlockNew build world address size).2

/-- The end of `malloc_unlocked` in terms of the fresh block. -/
theorem appendBlock_eq (build : Build) (world : World) (last size address : Nat)
    (given : address ≠ 0) (bounded : size + headerSize + pageSize ≤ wordSize) :
    appendBlock build world last size address =
      (headerGetStart address, ((freshWorld build world address size).set (nextField last)
        address).set (reservedField address) 1) := by
  have header := heapBlockNew_header build world address size given bounded
  have result : (heapBlockNew build world address size).1 = address := by
    simp only [heapBlockNew, if_neg given]
  have sum : add (add size headerSize) heapAlignment = size + headerSize + heapAlignment := by
    simp only [add, wordSize, headerSize, heapAlignment, pageSize] at *
    omega
  have sizeLoad : load64 (heapBlockNew build world address size).2.memory (sizeField address) =
      (freshBlock build address size).size := header.size
  rw [appendBlock, freshWorld]
  generalize heapBlockNew build world address size = created at *
  obtain ⟨newBlock, obtained⟩ := created
  obtain rfl : newBlock = address := result
  cases newBlock with
  | zero => contradiction
  | succ place => simp only [sizeLoad, sum, gt_iff_lt]

/-- A fresh block, split when it is much larger, is linked and changes nothing
outside the memory obtained. -/
theorem freshWorld_spec (build : Build) (world : World) (address size : Nat) (given : address ≠ 0)
    (bounded : size + headerSize + pageSize ≤ wordSize)
    (placed : Placed (freshBlock build address size)) :
    Linked (freshWorld build world address size).memory (freshParts build address size) 0 ∧
      (∀ place, ¬ (freshBlock build address size).region.Holds place →
        (freshWorld build world address size).memory place = world.memory place) := by
  have header := heapBlockNew_header build world address size given bounded
  have frame : ∀ place, ¬ (freshBlock build address size).region.Holds place →
      (heapBlockNew build world address size).2.memory place = world.memory place := by
    intro place outside
    apply heapBlockNew_frame build world address size place given
    exact fun here => outside (holds_of_within (header_within _) place here)
  rw [freshWorld, freshParts]
  split_ifs with larger
  · have split : size + headerSize < (freshBlock build address size).size := by omega
    constructor
    · exact heapBlockSplit_linked (heapBlockNew build world address size).2
        (freshBlock build address size) 0 size header split placed.bounded (Nat.two_pow_pos 64)
    · intro place outside
      rw [← frame place outside]
      exact heapBlockSplit_frame (heapBlockNew build world address size).2
        (freshBlock build address size) size place split placed.bounded header.size outside
  · exact ⟨⟨header, trivial⟩, frame⟩

/-- The parts of a fresh block are placed and apart inside it, and the first of
them has the size asked, or little more. -/
theorem freshParts_spec {build : Build} {address size : Nat}
    (bounded : size + headerSize + pageSize ≤ wordSize) (whole : size % heapAlignment = 0)
    (placed : Placed (freshBlock build address size)) :
    ∃ head rest, freshParts build address size = head :: rest ∧ head.address = address ∧
      (size ≤ head.size ∧ head.size ≤ size + headerSize + heapAlignment) ∧
      (∀ part ∈ head :: rest, Placed part) ∧
      (∀ part ∈ head :: rest, part.region.Within (freshBlock build address size).region) ∧
      ((head :: rest).map Block.region).Pairwise Interval.Apart := by
  obtain ⟨-, room, -⟩ := blockBytes_spec build size bounded
  rw [freshParts]
  split_ifs with larger
  · have split : size + headerSize < (freshBlock build address size).size := by omega
    obtain ⟨apart, within⟩ := splitParts_apart (freshBlock build address size) size split
    exact ⟨_, _, rfl, rfl, ⟨Nat.le_refl _, by simp only [Nat.add_assoc, Nat.le_add_right]⟩,
      splitParts_placed (freshBlock build address size) size split whole placed, within, apart⟩
  · refine ⟨_, _, rfl, rfl, ⟨?_, by omega⟩, ?_, ?_, List.pairwise_singleton _ _⟩
    · simp only [freshBlock]
      omega
    · intro part member
      rwa [List.mem_singleton.mp member]
    · intro part member
      rw [List.mem_singleton.mp member]
      exact within_refl _

/-- The parts of a fresh block have payloads. -/
theorem freshParts_sized (build : Build) (address size : Nat) (positive : 1 ≤ size)
    (bounded : size + headerSize + pageSize ≤ wordSize) :
    Sized (freshParts build address size) := by
  obtain ⟨-, room, -⟩ := blockBytes_spec build size bounded
  rw [freshParts]
  split_ifs with larger
  · exact splitParts_sized (freshBlock build address size) size positive (by omega)
  · intro part member
    rw [List.mem_singleton.mp member]
    simp only [freshBlock]
    omega

/-- The third end of the search: a fresh block is obtained, split when it is much
larger, reserved and appended. -/
theorem allocated_absent (build : Build) (world : World) (firstBlock size address : Nat)
    (front : List Block) (last : Block) (layout : Layout world firstBlock (front ++ [last]))
    (positive : 1 ≤ size) (bounded : size + headerSize + pageSize ≤ wordSize)
    (whole : size % heapAlignment = 0)
    (answered : (appendBlock build world last.address size address).1 ≠ 0)
    (obtained : Obtained (appendBlock build world last.address size address).2.regions) :
    ∃ new block, Allocated world (appendBlock build world last.address size address).2 firstBlock
      (front ++ [last]) new block ∧
      (size ≤ block.size ∧ block.size ≤ size + headerSize + heapAlignment) ∧
      (appendBlock build world last.address size address).1 = headerGetStart block.address ∧
      (Sized (front ++ [last]) → Sized new) := by
  have given : address ≠ 0 := by
    rintro rfl
    exact answered rfl
  have regions := heapBlockNew_regions build world address size given
  rw [appendBlock_eq build world last.address size address given bounded] at obtained ⊢
  have known : (freshWorld build world address size).regions =
      ⟨address, blockBytes build size⟩ :: world.regions := by
    rw [freshWorld]
    split_ifs
    · rw [heapBlockSplit_regions, regions]
    · exact regions
  have fresh : Obtained (⟨address, blockBytes build size⟩ :: world.regions) := by
    rw [← known]
    exact obtained
  have placed := freshBlock_placed build world address size bounded fresh
  obtain ⟨linked, frame⟩ := freshWorld_spec build world address size given bounded placed
  obtain ⟨head, rest, shape, rfl, room, partsPlaced, within, apart⟩ :=
    freshParts_spec bounded whole placed
  have partsSized := freshParts_sized build head.address size positive bounded
  rw [shape] at linked partsSized
  rw [freshBlock_region build head.address size bounded] at frame within
  refine ⟨_, _, allocated_append layout known fresh frame
    linked partsPlaced within apart, room, rfl, fun sized => ?_⟩
  exact sized_append sized (sized_append (sized_reserve (partsSized head List.mem_cons_self))
    fun part member => partsSized part (List.mem_cons_of_mem head member))

/-- The size asked, rounded up to the alignment. -/
theorem roundUp_spec (size : Nat) (bounded : size + headerSize + pageSize ≤ wordSize) :
    (size ≤ roundUp size heapAlignment ∧ roundUp size heapAlignment < size + heapAlignment) ∧
      roundUp size heapAlignment % heapAlignment = 0 ∧
      roundUp size heapAlignment + headerSize + pageSize ≤ wordSize := by
  simp only [roundUp, sub, add, wordSize, heapAlignment, headerSize, pageSize] at *
  omega

/-- The pointer handed out for a block with a payload. -/
theorem headerGetStart_eq (block : Block) (placed : Placed block) (sized : 1 ≤ block.size) :
    headerGetStart block.address = block.address + headerSize := by
  have bounded := placed.bounded
  exact add_of_lt _ _ (by omega)

/-- The header of a pointer handed out for a block with a payload. -/
theorem headerOf_eq {block : Block} (placed : Placed block) (sized : 1 ≤ block.size) :
    headerOf (block.address + headerSize) = block.address := by
  have bounded := placed.bounded
  rw [headerOf, sub_of_le _ _ (by omega) (by omega)]
  omega

/-- A call of `malloc_unlocked` that returns an address allocates a block with
room for the size asked. -/
theorem mallocUnlocked_allocated {build : Build} {world after : World}
    {firstBlock fuel size address pointer : Nat} {blocks : List Block}
    (layout : Layout world firstBlock blocks) (positive : 1 ≤ size)
    (bounded : size + headerSize + pageSize ≤ wordSize)
    (returned : mallocUnlocked build world firstBlock fuel size address = some (pointer, after))
    (answered : pointer ≠ 0) (obtained : Obtained after.regions) :
    ∃ new block, Allocated world after firstBlock blocks new block ∧
      Served blocks new block size pointer := by
  obtain ⟨room, whole, small⟩ := roundUp_spec size bounded
  have served : ∀ new block, Allocated world after firstBlock blocks new block →
      roundUp size heapAlignment ≤ block.size ∧
        block.size ≤ roundUp size heapAlignment + headerSize + heapAlignment →
      pointer = headerGetStart block.address → (Sized blocks → Sized new) →
      ∃ new block, Allocated world after firstBlock blocks new block ∧
        Served blocks new block size pointer := by
    intro new block allocated fits start sized
    rw [headerGetStart_eq block (allocated.layout.placed block allocated.member) (by omega)] at start
    exact ⟨new, block, allocated, by omega, by omega, start, sized⟩
  rw [mallocUnlocked, if_neg (by omega)] at returned
  simp only [] at returned
  have roundedPositive : 1 ≤ roundUp size heapAlignment := by omega
  generalize roundUp size heapAlignment = rounded at *
  have fits : rounded + headerSize + heapAlignment < wordSize := by
    simp only [headerSize, heapAlignment, wordSize, pageSize] at *
    omega
  cases searched : search world.memory rounded fuel firstBlock with
  | none =>
    rw [searched] at returned
    contradiction
  | some found =>
    rw [searched] at returned
    rw [layout.first] at searched
    have place := search_foundIn layout.present
      (fun block member => (layout.placed block member).nonzero) layout.linked fits searched
    cases place with
    | exact front block back shape unreserved exactly =>
      obtain ⟨rfl, rfl⟩ := Prod.mk.inj (Option.some.inj returned)
      subst shape
      refine served _ _ (allocated_exact layout unreserved)
        ⟨Nat.le_of_eq exactly.symm, ?_⟩ rfl fun sized => ?_
      · exact Nat.le_trans (Nat.le_of_eq exactly) (by omega)
      · exact sized_replace sized
          (sized_reserve (sized block (List.mem_append_right front List.mem_cons_self)))
    | larger front block back shape unreserved larger =>
      obtain ⟨rfl, rfl⟩ := Prod.mk.inj (Option.some.inj returned)
      subst shape
      have split : rounded + headerSize < block.size := by omega
      refine served _ _ (allocated_larger layout
        unreserved whole split) ⟨Nat.le_refl _, ?_⟩ rfl fun sized => ?_
      · simp only [Nat.add_assoc, Nat.le_add_right]
      · exact sized_replace sized
          (splitParts_sized { block with reserved := true } rounded roundedPositive split)
    | absent front last shape =>
      have result := Option.some.inj returned
      subst shape
      have first : (appendBlock build world last.address rounded address).1 = pointer := by
        rw [result]
      have second : (appendBlock build world last.address rounded address).2 = after := by
        rw [result]
      obtain ⟨new, block, allocated, room, start, sized⟩ := allocated_absent build world firstBlock
        rounded address front last layout roundedPositive small whole (by rwa [first])
        (by rwa [second])
      rw [second] at allocated
      rw [first] at start
      exact served new block allocated room start sized

/-- `malloc_unlocked` returns within as many turns as there are blocks. -/
theorem mallocUnlocked_ends (build : Build) (world : World) (firstBlock fuel size address : Nat)
    (blocks : List Block) (layout : Layout world firstBlock blocks)
    (enough : blocks.length ≤ fuel) :
    ∃ result, mallocUnlocked build world firstBlock fuel size address = some result := by
  rw [mallocUnlocked]
  split_ifs
  · exact ⟨_, rfl⟩
  · obtain ⟨found, searched⟩ := search_ends world.memory (roundUp size heapAlignment) fuel blocks
      layout.present layout.linked enough
    rw [← layout.first] at searched
    simp only [searched]
    cases found with
    | exact block => exact ⟨_, rfl⟩
    | larger block => exact ⟨_, rfl⟩
    | absent last => exact ⟨_, rfl⟩

/-- The check of the magic number passes for a block of the layout. -/
theorem checkMagic_passes (build : Build) (world : World) (firstBlock : Nat) (blocks : List Block)
    (layout : Layout world firstBlock blocks) (block : Block) (member : block ∈ blocks) :
    checkMagic build world block.address = true := by
  obtain ⟨next, header⟩ := linked_header layout.linked block member
  rw [checkMagic, header.magic]
  simp

/-- Freeing a reserved block passes its checks and writes its reserved field. -/
theorem freeUnlocked_eq (build : Build) (world : World) (firstBlock : Nat) (blocks : List Block)
    (layout : Layout world firstBlock blocks) (block : Block) (member : block ∈ blocks)
    (reserved : block.reserved = true) (sized : 1 ≤ block.size) :
    freeUnlocked build world (block.address + headerSize) =
      some (world.set (reservedField block.address) 0) := by
  have magic := checkMagic_passes build world firstBlock blocks layout block member
  obtain ⟨next, header⟩ := linked_header layout.linked block member
  have flag := header.reserved
  rw [reserved, if_pos rfl] at flag
  simp only [freeUnlocked, headerOf_eq (layout.placed block member) sized, magic,
    checkReserved, flag]
  simp

/-- Writing inside a payload keeps the layout. -/
theorem layout_payload {world : World} {firstBlock : Nat} {blocks : List Block}
    (layout : Layout world firstBlock blocks) (block : Block) (member : block ∈ blocks)
    (memory : Memory)
    (frame : ∀ place, ¬ block.payload.Holds place → memory place = world.memory place) :
    Layout { world with memory := memory } firstBlock blocks where
  linked := by
    refine linked_frame (fun other otherMember place here => ?_) layout.linked
    apply frame
    exact not_holds_of_apart
      (apart_symm (payload_apart_headers layout block other member otherMember)) place here
  first := layout.first
  present := layout.present
  placed := layout.placed
  apart := layout.apart
  inside := layout.inside

/-- The header of a block in a layout. -/
theorem layout_size {world : World} {firstBlock : Nat} {blocks : List Block}
    (layout : Layout world firstBlock blocks) (block : Block) (member : block ∈ blocks) :
    load64 world.memory (sizeField block.address) = block.size := by
  obtain ⟨next, header⟩ := linked_header layout.linked block member
  exact header.size

end Asym.HeapLayout
