import Asym.HeapIntegrity

/-!
# Allocations that are too small

`malloc` rounds the size up, adds a header and compares, all in 64 bits; `calloc`
multiplies in 64 bits, and the number of pixels of a window is a product of 32.
An allocation is enough when it is `NULL` or has as many usable bytes as the exact
product says: as many as its header gives it, in memory that was obtained.

The sums of `malloc` wrap for the last 191 sizes only, and for these it is enough
only when it fails: no block of the list passes the wrapped tests, and nothing is
obtained for a new one. The products are enough when they do not wrap, or wrap to
nothing, for which `malloc` gives `NULL`.
-/

namespace Asym.AllocationSizes

open ByteMemory Intervals MachineWords Runs Heap HeapBlocks HeapLayout HeapIntegrity

/-- `memset`. -/
def memset (memory : Memory) (destination : Nat) (byte : UInt8) (count : Nat) : Memory := fun tested =>
  if destination ≤ tested ∧ tested < destination + count then byte else memory tested

/-- `calloc`. No result means too little fuel. -/
def calloc (build : Build) (world : World) (firstBlock fuel num size address : Nat) :
    Option (Nat × World) :=
  match mallocUnlocked build world firstBlock fuel (mul num size) address with
  | none => none
  | some (data, allocated) =>
      if data = 0 then some (0, allocated)
      else some (data, { allocated with memory := memset allocated.memory data 0 (mul num size) })

/-- `sizeof(pixel_t)`. -/
def pixelSize : Nat := 4

/-- `sizeof(window_t)`. -/
def windowSize : Nat := 840

/-- `DWM_MAX`. -/
def dwmMax : Int := 4

/-- The fields of `window_t` that say how large its buffer is, the buffer itself as an
address, and its type. -/
structure Window where
  type : Int
  buffer : Nat
  width : BitVec 32
  height : BitVec 32
  stride : BitVec 32

/-- `window_new`: the window with its address, or `NULL` for a type that is none. No result
means too little fuel, or a window that got no memory and is written all the same. -/
def windowNew (world : World) (firstBlock fuel : Nat) (width height : BitVec 32) (type : Int)
    (windowAddress bufferAddress : Nat) : Option (Option (Nat × Window) × World) :=
  if type < 0 ∨ type > dwmMax then some (none, world)
  else
    match mallocUnlocked .kernel world firstBlock fuel windowSize windowAddress with
    | none => none
    | some (window, created) =>
        if window = 0 then none
        else
          match calloc .kernel created firstBlock fuel (width * height).toNat pixelSize
              bufferAddress with
          | none => none
          | some (buffer, after) => some (some (window, ⟨type, buffer, width, height, width⟩), after)

/-- `free` in the kernel. The header of `NULL` lies at the very end of the address space,
where nothing is mapped, so to free `NULL` is no less a panic than to fail a check. -/
def free (world : World) (pointer : Nat) : Option World :=
  if pointer = 0 then none else freeUnlocked .kernel world pointer

/-- The part of `IOCTL_WINDOW_MOVE` in `window_ioctl` that changes the size of a window. -/
def windowMove (world : World) (firstBlock fuel : Nat) (window : Window) (width height : BitVec 32)
    (address : Nat) : Option (Window × World) :=
  if window.width ≠ width ∨ window.height ≠ height then
    match free world window.buffer with
    | none => none
    | some freed =>
        match mallocUnlocked .kernel freed firstBlock fuel (mul (width * height).toNat pixelSize)
            address with
        | none => none
        | some (buffer, after) => some ({ window with
            buffer := buffer, width := width, height := height, stride := width }, after)
  else some (window, world)

/-- At least so many bytes can be used: the header of the pointer says so, and they lie in
memory that was obtained. -/
def Has (world : World) (pointer bytes : Nat) : Prop :=
  bytes ≤ usable world pointer ∧ ∃ region ∈ world.regions, (Interval.mk pointer bytes).Within region

/-- An allocation failed or has at least so many bytes. -/
def Enough (world : World) (pointer bytes : Nat) : Prop :=
  pointer = 0 ∨ Has world pointer bytes

/-- An allocation failed or has at least so many bytes, all of them zero. -/
def EnoughZeros (world : World) (pointer bytes : Nat) : Prop :=
  pointer = 0 ∨ Has world pointer bytes ∧ ∀ offset < bytes, world.memory (pointer + offset) = 0

/-- The last size for which no sum of `malloc_unlocked` wraps. -/
def sizeLimit : Nat := wordSize - headerSize - heapAlignment - heapAlignment

/-- A block that the search takes for a size that was rounded up. The sum wraps. -/
def Takes (size : Nat) (block : Block) : Prop :=
  block.reserved = false ∧
    (block.size = size ∨ add (add size headerSize) heapAlignment < block.size)

/-- The search takes no block of the list, and nothing is obtained for a new one. -/
def Refused (state : State) (size address : Nat) : Prop :=
  address = 0 ∧ ∃ blocks, Layout state.world state.firstBlock blocks ∧
    ∀ block ∈ blocks, ¬ Takes (roundUp size heapAlignment) block

/-- What was obtained has bytes: `mmap` refuses a length of zero, and the kernel could not
write the header of a block for which it mapped no page. -/
def Backed (regions : List Interval) : Prop := ∀ region ∈ regions, 0 < region.length

/-- One step of a run: an allocation that the tests of `malloc_unlocked` can serve, a
release, or a write of a holder into its payload. Calls of `calloc` and `realloc` are runs of these. -/
inductive Call (build : Build) : State → State → Prop where
  | malloc (state : State) (after : World) (size fuel address pointer : Nat)
      (returned : mallocUnlocked build state.world state.firstBlock fuel size address =
        some (pointer, after))
      (obtained : Obtained after.regions) (backed : Backed after.regions)
      (served : size ≤ sizeLimit ∨ Refused state size address) :
      Call build state ⟨after, state.firstBlock,
        if pointer = 0 then state.held else ⟨pointer, size⟩ :: state.held⟩
  | free (state : State) (after : World) (allocation : Allocation)
      (outstanding : allocation ∈ state.held)
      (returned : freeUnlocked build state.world allocation.pointer = some after) :
      Call build state ⟨after, state.firstBlock, release state.held allocation.pointer⟩
  | write (state : State) (allocation : Allocation) (memory : Memory)
      (outstanding : allocation ∈ state.held)
      (inside : ∀ place, ¬ (payloadOf state.world allocation).Holds place →
        memory place = state.world.memory place) :
      Call build state { state with world := { state.world with memory := memory } }

/-- The invariant: the heap is sound, with a payload in every block. -/
def Kept (state : State) : Prop :=
  (∃ blocks, Sound state blocks ∧ Sized blocks) ∧ Obtained state.world.regions

/-- A block that the tests find is taken. -/
theorem suits_takes {memory : Memory} {block : Block} {next size : Nat} {found : Found}
    (header : Header memory block next) (suited : suits memory size block.address = some found) :
    Takes size block ∧ (found = .exact block.address ∨ found = .larger block.address) := by
  rw [suits, header.reserved, header.size] at suited
  rw [Takes]
  cases reserved : block.reserved with
  | true => simp [reserved] at suited
  | false =>
    rw [reserved, if_neg Bool.false_ne_true, if_pos rfl] at suited
    split_ifs at suited with exactly larger
    · exact ⟨⟨rfl, .inl exactly⟩, .inl (Option.some.inj suited).symm⟩
    · exact ⟨⟨rfl, .inr larger⟩, .inr (Option.some.inj suited).symm⟩

/-- A block that the tests pass by is not taken. -/
theorem suits_passes {memory : Memory} {block : Block} {next size : Nat}
    (header : Header memory block next) (unsuited : suits memory size block.address = none) :
    ¬ Takes size block := by
  rintro ⟨free, fits⟩
  rw [suits, header.reserved, header.size, free, if_neg Bool.false_ne_true, if_pos rfl] at unsuited
  split_ifs at unsuited with exactly larger
  exact fits.elim exactly larger

/-- The search ends at a block that it takes, or passes every block by. -/
theorem search_cases {memory : Memory} {size fuel : Nat} {blocks : List Block} {found : Found}
    (present : blocks ≠ []) (nonzero : ∀ block ∈ blocks, block.address ≠ 0)
    (linked : Linked memory blocks 0)
    (returned : search memory size fuel (start blocks 0) = some found) :
    (∃ block ∈ blocks, Takes size block ∧
        (found = .exact block.address ∨ found = .larger block.address)) ∨
      ((∃ last, found = .absent last) ∧ ∀ block ∈ blocks, ¬ Takes size block) := by
  obtain ⟨front, block, back, rfl, passed, suited | ⟨rfl, unsuited, ended⟩⟩ := search_stops memory
    size fuel blocks found present nonzero linked returned
  · obtain ⟨next, header⟩ := linked_header linked block List.mem_append_cons_self
    exact .inl ⟨block, List.mem_append_cons_self,
      suits_takes header suited⟩
  · refine .inr ⟨⟨block.address, ended⟩, fun other member => ?_⟩
    obtain ⟨next, header⟩ := linked_header linked other member
    apply suits_passes header
    rcases List.mem_append.mp member with earlier | last
    · exact passed other earlier
    · rw [List.mem_singleton.mp last]
      exact unsuited

/-- No block is appended when nothing is obtained. -/
theorem appendBlock_refused (build : Build) (world : World) (last size : Nat) :
    appendBlock build world last size 0 = (0, world) := rfl

/-- A block is appended where memory is obtained. -/
theorem appendBlock_given (build : Build) (world : World) (last size address : Nat)
    (given : address ≠ 0) :
    (appendBlock build world last size address).1 = headerGetStart address ∧
      (appendBlock build world last size address).2.regions =
        ⟨address, blockBytes build size⟩ :: world.regions := by
  have regions := heapBlockNew_regions build world address size given
  have result : (heapBlockNew build world address size).1 = address := by
    simp only [heapBlockNew, if_neg given]
  rw [appendBlock]
  generalize heapBlockNew build world address size = created at *
  obtain ⟨newBlock, obtained⟩ := created
  obtain rfl : newBlock = address := result
  cases newBlock with
  | zero => contradiction
  | succ place =>
    refine ⟨rfl, ?_⟩
    rw [← regions]
    simp only [World.set]
    split_ifs <;> rfl

/-- The pointer into memory that was obtained is not `NULL`. -/
theorem headerGetStart_ne {region : Interval} {regions : List Interval} (member : region ∈ regions)
    (obtained : Obtained regions) (backed : Backed regions) : headerGetStart region.start ≠ 0 := by
  have aligned := obtained.aligned region member
  have bounded := obtained.bounded region member
  have bytes := backed region member
  simp only [headerGetStart, add, headerSize, wordSize, pageSize] at *
  omega

/-- The three ways in which `malloc_unlocked` ends for a size that is not zero. -/
inductive Outcome (build : Build) (world after : World) (blocks : List Block)
    (size address pointer : Nat) : Prop where
  | taken (block : Block) (member : block ∈ blocks) (takes : Takes size block)
      (points : pointer = headerGetStart block.address) (regions : after.regions = world.regions)
  | refused (passes : ∀ block ∈ blocks, ¬ Takes size block) (nothing : address = 0)
      (null : pointer = 0) (unchanged : after = world)
  | grown (passes : ∀ block ∈ blocks, ¬ Takes size block) (given : address ≠ 0)
      (points : pointer = headerGetStart address)
      (regions : after.regions = ⟨address, blockBytes build size⟩ :: world.regions)

/-- A call of `malloc_unlocked` that returned ended in one of the three ways. -/
theorem mallocUnlocked_outcome {build : Build} {world after : World}
    {firstBlock fuel size address pointer : Nat} {blocks : List Block}
    (layout : Layout world firstBlock blocks) (positive : size ≠ 0)
    (returned : mallocUnlocked build world firstBlock fuel size address = some (pointer, after)) :
    Outcome build world after blocks (roundUp size heapAlignment) address pointer := by
  rw [mallocUnlocked, if_neg positive] at returned
  simp only [] at returned
  cases searched : search world.memory (roundUp size heapAlignment) fuel firstBlock with
  | none =>
    rw [searched] at returned
    contradiction
  | some found =>
    rw [searched] at returned
    rw [layout.first] at searched
    rcases search_cases layout.present
      (fun block member => (layout.placed block member).nonzero) layout.linked searched with
      ⟨block, member, takes, ended⟩ | ⟨⟨last, rfl⟩, passes⟩
    · rcases ended with rfl | rfl
      · obtain ⟨rfl, rfl⟩ := Prod.mk.inj (Option.some.inj returned)
        exact .taken block member takes rfl rfl
      · obtain ⟨rfl, rfl⟩ := Prod.mk.inj (Option.some.inj returned)
        exact .taken block member takes rfl rfl
    · simp only [Option.some.injEq] at returned
      by_cases given : address = 0
      · rw [given, appendBlock_refused, Prod.mk.injEq] at returned
        exact .refused passes given returned.1.symm returned.2.symm
      · obtain ⟨points, regions⟩ := appendBlock_given build world last
          (roundUp size heapAlignment) address given
        rw [returned] at points regions
        exact .grown passes given points regions

/-- An allocation adds at most one interval to the memory obtained. -/
theorem mallocUnlocked_regions {build : Build} {world after : World}
    {firstBlock fuel size address pointer : Nat}
    (returned : mallocUnlocked build world firstBlock fuel size address = some (pointer, after)) :
    ∃ fresh, after.regions = fresh ++ world.regions := by
  rw [mallocUnlocked] at returned
  split_ifs at returned
  · obtain ⟨-, rfl⟩ := Prod.mk.inj (Option.some.inj returned)
    exact ⟨[], rfl⟩
  simp only [] at returned
  cases searched : search world.memory (roundUp size heapAlignment) fuel firstBlock with
  | none =>
    rw [searched] at returned
    contradiction
  | some found =>
    rw [searched] at returned
    cases found with
    | exact block =>
      obtain ⟨-, rfl⟩ := Prod.mk.inj (Option.some.inj returned)
      exact ⟨[], rfl⟩
    | larger block =>
      obtain ⟨-, rfl⟩ := Prod.mk.inj (Option.some.inj returned)
      exact ⟨[], rfl⟩
    | absent last =>
      simp only [Option.some.injEq] at returned
      by_cases given : address = 0
      · rw [given, appendBlock_refused, Prod.mk.injEq] at returned
        exact ⟨[], by rw [returned.2]; rfl⟩
      · have regions := (appendBlock_given build world last (roundUp size heapAlignment) address
          given).2
        rw [returned] at regions
        exact ⟨[_], regions⟩

/-- Memory obtained earlier was obtained as well. -/
theorem obtained_earlier {fresh regions : List Interval} (obtained : Obtained (fresh ++ regions)) :
    Obtained regions where
  nonzero region member := obtained.nonzero region (List.mem_append_right fresh member)
  aligned region member := obtained.aligned region (List.mem_append_right fresh member)
  bounded region member := obtained.bounded region (List.mem_append_right fresh member)
  apart := (List.pairwise_append.mp obtained.apart).2.1

/-- When `malloc_unlocked` gives `NULL`, the size was zero or it was refused, and nothing
has changed. -/
theorem mallocUnlocked_null {build : Build} {state : State} {after : World}
    {fuel size address pointer : Nat} (kept : Kept state)
    (returned : mallocUnlocked build state.world state.firstBlock fuel size address =
      some (pointer, after))
    (obtained : Obtained after.regions) (backed : Backed after.regions) (null : pointer = 0) :
    (size = 0 ∨ Refused state size address) ∧ after = state.world := by
  obtain ⟨⟨blocks, sound, sized⟩, -⟩ := kept
  have layout := sound.layout
  by_cases positive : size = 0
  · rw [mallocUnlocked, if_pos positive] at returned
    exact ⟨.inl positive, (Prod.mk.inj (Option.some.inj returned)).2.symm⟩
  cases mallocUnlocked_outcome layout positive returned with
  | taken block member takes points regions =>
    rw [headerGetStart_eq block (layout.placed block member) (sized block member)] at points
    simp only [headerSize] at points
    omega
  | refused passes nothing _ unchanged => exact ⟨.inr ⟨nothing, blocks, layout, passes⟩, unchanged⟩
  | grown passes given points regions =>
    refine absurd (points.symm.trans null) ?_
    exact headerGetStart_ne (by rw [regions]; exact List.mem_cons_self) obtained backed

/-- `malloc_unlocked` gives `NULL` exactly for a size of zero and when it is refused. -/
theorem mallocUnlocked_null_iff {build : Build} {state : State} {after : World}
    {fuel size address pointer : Nat} (kept : Kept state)
    (returned : mallocUnlocked build state.world state.firstBlock fuel size address =
      some (pointer, after))
    (obtained : Obtained after.regions) (backed : Backed after.regions) :
    pointer = 0 ↔ size = 0 ∨ Refused state size address := by
  refine ⟨fun null => (mallocUnlocked_null kept returned
    obtained backed null).1, fun unserved => ?_⟩
  by_cases positive : size = 0
  · rw [mallocUnlocked, if_pos positive] at returned
    exact (Prod.mk.inj (Option.some.inj returned)).1.symm
  · obtain ⟨nothing, blocks, layout, passes⟩ := unserved.resolve_left positive
    cases mallocUnlocked_outcome layout positive returned with
    | taken block member takes _ _ => exact absurd takes (passes block member)
    | refused _ _ null _ => exact null
    | grown _ given _ _ => exact absurd nothing given

/-- Usable bytes lie above the first page of the address space. -/
theorem has_bounded {world : World} {pointer bytes : Nat} (obtained : Obtained world.regions)
    (has : Has world pointer bytes) : bytes + pageSize ≤ wordSize := by
  obtain ⟨-, region, member, within⟩ := has
  have nonzero := obtained.nonzero region member
  have aligned := obtained.aligned region member
  have bounded := obtained.bounded region member
  simp only [Interval.Within, pageSize] at *
  omega

/-- The last sizes whose sums do not wrap are larger than any memory, and are refused. -/
theorem mallocUnlocked_huge {build : Build} {state : State} {after : World}
    {fuel size address pointer : Nat} (kept : Kept state)
    (returned : mallocUnlocked build state.world state.firstBlock fuel size address =
      some (pointer, after))
    (backed : Backed after.regions) (small : size ≤ sizeLimit)
    (huge : wordSize < size + headerSize + pageSize) : pointer = 0 := by
  obtain ⟨⟨blocks, sound, -⟩, earlier⟩ := kept
  have rounded : size ≤ roundUp size heapAlignment ∧ roundUp size heapAlignment ≤ sizeLimit := by
    simp only [roundUp, sub, add, wordSize, heapAlignment, headerSize, pageSize, sizeLimit] at *
    omega
  have positive : size ≠ 0 := by
    rintro rfl
    exact absurd huge (by decide)
  cases mallocUnlocked_outcome sound.layout positive returned with
  | taken block member takes _ _ =>
    have sum : add (add (roundUp size heapAlignment) headerSize) heapAlignment =
        roundUp size heapAlignment + headerSize + heapAlignment := by
      simp only [add, wordSize, heapAlignment, headerSize, sizeLimit] at *
      omega
    have larger : roundUp size heapAlignment ≤ block.size := by
      rcases takes.2 with exactly | larger
      · exact Nat.le_of_eq exactly.symm
      · rw [sum] at larger
        omega
    obtain ⟨region, known, within⟩ := sound.layout.inside block member
    have nonzero := earlier.nonzero region known
    have aligned := earlier.aligned region known
    have bounded := earlier.bounded region known
    simp only [Interval.Within, Block.region, pageSize] at *
    omega
  | refused _ _ null _ => exact null
  | grown _ _ _ regions =>
    have bytes := backed ⟨address, _⟩ (by rw [regions]; exact List.mem_cons_self)
    have none : blockBytes build (roundUp size heapAlignment) = 0 := by
      have whole : roundUp size heapAlignment % heapAlignment = 0 := Nat.mul_mod_left _ _
      generalize roundUp size heapAlignment = amount at *
      cases build with
      | kernel =>
        simp only [blockBytes, mul, sizeInPages, sub, add, wordSize, pageSize, headerSize,
          heapAlignment, sizeLimit] at *
        omega
      | user =>
        simp only [blockBytes, roundUp, sub, add, wordSize, pageSize, headerSize, heapAlignment,
          sizeLimit] at *
        omega
    simp only [none, Nat.lt_irrefl] at bytes

/-- What a served allocation leaves: a sound heap with one more block held, which has room
for the size and little more. -/
structure Granted (state : State) (after : World) (size pointer : Nat) (new : List Block)
    (block : Block) : Prop where
  sound : Sound ⟨after, state.firstBlock, ⟨pointer, size⟩ :: state.held⟩ new
  sized : Sized new
  member : block ∈ new
  room : size ≤ block.size
  close : block.size < size + headerSize + heapAlignment + heapAlignment
  points : pointer = block.address + headerSize

/-- The usable bytes of a block are its payload. -/
theorem Granted.has_iff {state : State} {after : World} {size pointer : Nat} {new : List Block}
    {block : Block} (granted : Granted state after size pointer new block) (bytes : Nat) :
    Has after pointer bytes ↔ bytes ≤ block.size := by
  obtain ⟨sound, sized, member, -, -, points⟩ := granted
  have size_eq : usable after pointer = block.size := by
    rw [points]
    exact usable_eq sound.layout block member (sized block member)
  rw [Has, size_eq]
  refine ⟨And.left, fun fits => ⟨fits, ?_⟩⟩
  obtain ⟨region, known, within⟩ := sound.layout.inside block member
  refine ⟨region, known, ?_⟩
  simp only [Interval.Within, Block.region] at *
  omega

/-- An allocation of a size for which no sum wraps is served unless it gives `NULL`. -/
theorem mallocUnlocked_granted {build : Build} {state : State} {after : World}
    {fuel size address pointer : Nat} (kept : Kept state)
    (returned : mallocUnlocked build state.world state.firstBlock fuel size address =
      some (pointer, after))
    (obtained : Obtained after.regions) (backed : Backed after.regions) (small : size ≤ sizeLimit)
    (succeeded : pointer ≠ 0) : ∃ new block, Granted state after size pointer new block := by
  have positive : size ≠ 0 := fun zero =>
    succeeded ((mallocUnlocked_null_iff kept returned obtained backed).mpr (.inl zero))
  have bounded : size + headerSize + pageSize ≤ wordSize := by
    by_contra huge
    exact succeeded (mallocUnlocked_huge kept returned backed small (Nat.lt_of_not_le huge))
  obtain ⟨⟨blocks, sound, sized⟩, -⟩ := kept
  obtain ⟨new, block, grown, allocated, served⟩ :=
    sound_malloc sound (Nat.pos_of_ne_zero positive) bounded returned succeeded obtained
  exact ⟨new, block, grown, served.sized sized, allocated.member, served.room, served.close,
    served.points⟩

/-- One step of a run keeps the invariant. -/
theorem call_kept (build : Build) (state after : State) (kept : Kept state)
    (call : Call build state after) : Kept after := by
  cases call with
  | malloc world size fuel address pointer returned obtained backed served =>
    by_cases null : pointer = 0
    · obtain ⟨-, rfl⟩ := mallocUnlocked_null kept returned obtained backed null
      rw [if_pos null]
      exact kept
    · have small : size ≤ sizeLimit := by
        rcases served with small | refused
        · exact small
        · exact absurd ((mallocUnlocked_null_iff kept
            returned obtained backed).mpr (.inr refused)) null
      obtain ⟨new, block, granted⟩ := mallocUnlocked_granted kept returned obtained backed small null
      rw [if_neg null]
      exact ⟨⟨new, granted.sound, granted.sized⟩, obtained⟩
  | free world allocation outstanding returned =>
    obtain ⟨⟨blocks, sound, sized⟩, obtained⟩ := kept
    obtain ⟨freed, -, new, -, answered, final, all⟩ := sound_free build state blocks sound
      allocation outstanding
    obtain rfl := Option.some.inj (answered.symm.trans returned)
    exact ⟨⟨new, final, all sized⟩, obtained⟩
  | write allocation memory outstanding inside =>
    obtain ⟨⟨blocks, sound, sized⟩, obtained⟩ := kept
    obtain ⟨block, member, -, points, -, positive⟩ := sound.owned allocation outstanding
    rw [payloadOf_eq sound.layout block member allocation points positive] at inside
    exact ⟨⟨blocks, sound_payload sound block member memory inside, sized⟩, obtained⟩

/-- The invariant holds in every state of a run. -/
theorem reachable_kept (build : Build) (state : State)
    (reached : Reachable (Initial build) (Call build) state) : Kept state := by
  refine reachable_invariant (fun start initial => ⟨sound_initial build start initial, ?_⟩)
    (fun before after => call_kept build before after) reached
  obtain ⟨memory, address, -, obtained, rfl⟩ := initial
  exact obtained

/-- `malloc` is enough exactly when its sums do not wrap or it is refused. -/
theorem malloc_iff {build : Build} {state : State} {after : World} {fuel size address pointer : Nat}
    (kept : Kept state)
    (returned : mallocUnlocked build state.world state.firstBlock fuel size address =
      some (pointer, after))
    (obtained : Obtained after.regions) (backed : Backed after.regions) :
    Enough after pointer size ↔ size ≤ sizeLimit ∨ Refused state size address := by
  have null := mallocUnlocked_null_iff kept returned obtained backed
  constructor
  · rintro (failed | has)
    · rcases null.mp failed with rfl | refused
      · exact .inl (Nat.zero_le _)
      · exact .inr refused
    · have bounded := has_bounded obtained has
      simp only [pageSize, sizeLimit, headerSize, heapAlignment, wordSize] at *
      omega
  · rintro (small | refused)
    · by_cases failed : pointer = 0
      · exact .inl failed
      · obtain ⟨new, block, granted⟩ :=
          mallocUnlocked_granted kept returned obtained backed small failed
        exact .inr ((granted.has_iff size).mpr granted.room)
    · exact .inl (null.mpr (.inr refused))

/-- `memset` changes nothing outside its destination. -/
theorem memset_outside (memory : Memory) (destination count place : Nat) (byte : UInt8)
    (outside : ¬ (Interval.mk destination count).Holds place) :
    memset memory destination byte count place = memory place :=
  if_neg outside

/-- A call of `calloc` that returned is an allocation, and a `memset` unless it failed. -/
theorem calloc_inv {build : Build} {world after : World} {firstBlock fuel num size address data : Nat}
    (returned : calloc build world firstBlock fuel num size address = some (data, after)) :
    ∃ allocated, mallocUnlocked build world firstBlock fuel (mul num size) address =
        some (data, allocated) ∧ after.regions = allocated.regions ∧
      (data ≠ 0 → after.memory = memset allocated.memory data 0 (mul num size)) := by
  rw [calloc] at returned
  cases allocation : mallocUnlocked build world firstBlock fuel (mul num size) address with
  | none =>
    rw [allocation] at returned
    contradiction
  | some result =>
    obtain ⟨pointer, allocated⟩ := result
    rw [allocation] at returned
    dsimp only at returned
    split_ifs at returned with failed
    · obtain ⟨rfl, rfl⟩ := Prod.mk.inj (Option.some.inj returned)
      exact ⟨allocated, by rw [failed], rfl, fun succeeded => absurd rfl succeeded⟩
    · obtain ⟨rfl, rfl⟩ := Prod.mk.inj (Option.some.inj returned)
      exact ⟨allocated, rfl, rfl, fun _ => rfl⟩

/-- A call of `calloc` that is served is an allocation that is served, and a `memset` of it. -/
theorem calloc_stages {build : Build} {state : State} {after : World}
    {fuel num size address data : Nat} (kept : Kept state)
    (returned : calloc build state.world state.firstBlock fuel num size address = some (data, after))
    (obtained : Obtained after.regions) (backed : Backed after.regions)
    (small : mul num size ≤ sizeLimit) (succeeded : data ≠ 0) :
    ∃ allocated new block,
      Call build state ⟨allocated, state.firstBlock, ⟨data, mul num size⟩ :: state.held⟩ ∧
        Granted state allocated (mul num size) data new block ∧
        after = ⟨memset allocated.memory data 0 (mul num size), allocated.regions⟩ := by
  obtain ⟨allocated, allocating, regions, cleared⟩ := calloc_inv returned
  rw [regions] at obtained backed
  obtain ⟨new, block, granted⟩ := mallocUnlocked_granted kept allocating obtained backed small succeeded
  have call := Call.malloc state allocated _ fuel address data allocating obtained backed (.inl small)
  rw [if_neg succeeded] at call
  refine ⟨allocated, new, block, call, granted, ?_⟩
  rw [← cleared succeeded, ← regions]

/-- `calloc` of a product for which no sum of `malloc` wraps is served unless it gives
`NULL`, and the bytes of the wrapped product are zero. -/
theorem calloc_granted {build : Build} {state : State} {after : World}
    {fuel num size address data : Nat} (kept : Kept state)
    (returned : calloc build state.world state.firstBlock fuel num size address = some (data, after))
    (obtained : Obtained after.regions) (backed : Backed after.regions)
    (small : mul num size ≤ sizeLimit) (succeeded : data ≠ 0) :
    ∃ new block, Granted state after (mul num size) data new block ∧
      ∀ offset < mul num size, after.memory (data + offset) = 0 := by
  obtain ⟨allocated, new, block, -, granted, rfl⟩ :=
    calloc_stages kept returned obtained backed small succeeded
  have sound := sound_payload granted.sound block granted.member
    (memset allocated.memory data 0 (mul num size)) (by
      intro place outside
      apply memset_outside
      have room := granted.room
      have points := granted.points
      simp only [Interval.Holds, Block.payload] at *
      omega)
  refine ⟨new, block, ⟨sound, granted.sized, granted.member, granted.room, granted.close,
    granted.points⟩, fun offset inside => ?_⟩
  exact if_pos ⟨Nat.le_add_right _ _, Nat.add_lt_add_left inside _⟩

/-- `calloc` gives `NULL` exactly for a wrapped product of zero and when it is refused. -/
theorem calloc_null_iff {build : Build} {state : State} {after : World}
    {fuel num size address data : Nat} (kept : Kept state)
    (returned : calloc build state.world state.firstBlock fuel num size address = some (data, after))
    (obtained : Obtained after.regions) (backed : Backed after.regions) :
    data = 0 ↔ mul num size = 0 ∨ Refused state (mul num size) address := by
  obtain ⟨allocated, allocating, regions, -⟩ := calloc_inv returned
  rw [regions] at obtained backed
  exact mallocUnlocked_null_iff kept allocating obtained backed

/-- `calloc` is enough exactly when neither its product nor a sum of `malloc` wraps, when the
product wraps to zero, or when it is refused. -/
theorem calloc_iff {build : Build} {state : State} {after : World}
    {fuel num size address data : Nat} (kept : Kept state)
    (returned : calloc build state.world state.firstBlock fuel num size address = some (data, after))
    (obtained : Obtained after.regions) (backed : Backed after.regions) :
    EnoughZeros after data (num * size) ↔
      num * size ≤ sizeLimit ∨ mul num size = 0 ∨ Refused state (mul num size) address := by
  have null := calloc_null_iff kept returned obtained backed
  constructor
  · rintro (failed | ⟨has, -⟩)
    · exact .inr (null.mp failed)
    · have bounded := has_bounded obtained has
      simp only [pageSize, sizeLimit, headerSize, heapAlignment, wordSize] at *
      omega
  · rintro (small | unserved)
    · have exactly : mul num size = num * size := Nat.mod_eq_of_lt (by
        simp only [sizeLimit, headerSize, heapAlignment, wordSize] at *
        omega)
      by_cases failed : data = 0
      · exact .inl failed
      · obtain ⟨new, block, granted, zeros⟩ :=
          calloc_granted kept returned obtained backed (by rwa [exactly]) failed
        rw [← exactly]
        exact .inr ⟨(granted.has_iff _).mpr granted.room, zeros⟩
    · exact .inl (null.mpr unserved)

/-- The bytes asked for a number of pixels never reach the limit of `malloc`. -/
theorem pixels_small (pixels : BitVec 32) :
    mul pixels.toNat pixelSize = pixels.toNat * pixelSize ∧ mul pixels.toNat pixelSize ≤ sizeLimit := by
  have word := pixels.isLt
  simp only [mul, pixelSize, sizeLimit, wordSize, headerSize, heapAlignment]
  omega

/-- The buffer of a window, allocated for a product of 32 bits, is enough exactly when that
product does not wrap, or wraps to zero. -/
theorem buffer_iff {state : State} {after : World} {width height : BitVec 32} {address buffer : Nat}
    (given : address ≠ 0)
    (null : buffer = 0 ↔ mul (width * height).toNat pixelSize = 0 ∨
      Refused state (mul (width * height).toNat pixelSize) address)
    (granted : buffer ≠ 0 → ∃ new block,
      Granted state after (mul (width * height).toNat pixelSize) buffer new block) :
    Enough after buffer (width.toNat * height.toNat * pixelSize) ↔
      width.toNat * height.toNat < 2 ^ 32 ∨ width.toNat * height.toNat % 2 ^ 32 = 0 := by
  have amount := (pixels_small (width * height)).1
  rw [amount] at null granted
  rw [BitVec.toNat_mul] at null granted
  generalize width.toNat * height.toNat = product at *
  have notRefused : ¬ Refused state (product % 2 ^ 32 * pixelSize) address :=
    fun refused => given refused.1
  constructor
  · rintro (failed | has)
    · have nothing := (null.mp failed).resolve_right notRefused
      simp only [pixelSize] at nothing
      omega
    · by_cases failed : buffer = 0
      · have nothing := (null.mp failed).resolve_right notRefused
        simp only [pixelSize] at nothing
        omega
      · obtain ⟨new, block, grant⟩ := granted failed
        have fits := (grant.has_iff _).mp has
        have close := grant.close
        simp only [pixelSize, headerSize, heapAlignment] at *
        omega
  · intro unwrapped
    by_cases failed : buffer = 0
    · exact .inl failed
    · obtain ⟨new, block, grant⟩ := granted failed
      have room := grant.room
      have something : product % 2 ^ 32 * pixelSize ≠ 0 := fun nothing =>
        failed (null.mpr (.inl nothing))
      refine .inr ((grant.has_iff _).mpr ?_)
      simp only [pixelSize] at *
      omega

/-- A call of `window_new` that returned a window made two allocations. -/
theorem windowNew_inv {world after : World} {firstBlock fuel : Nat} {width height : BitVec 32}
    {type : Int} {windowAddress bufferAddress window : Nat} {created : Window}
    (returned : windowNew world firstBlock fuel width height type windowAddress bufferAddress =
      some (some (window, created), after)) :
    ∃ middle, mallocUnlocked .kernel world firstBlock fuel windowSize windowAddress =
        some (window, middle) ∧ window ≠ 0 ∧
      calloc .kernel middle firstBlock fuel (width * height).toNat pixelSize bufferAddress =
        some (created.buffer, after) := by
  rw [windowNew] at returned
  split_ifs at returned
  · simp at returned
  cases allocation : mallocUnlocked .kernel world firstBlock fuel windowSize windowAddress with
  | none =>
    rw [allocation] at returned
    contradiction
  | some result =>
    obtain ⟨pointer, middle⟩ := result
    rw [allocation] at returned
    dsimp only at returned
    split_ifs at returned with failed
    cases filling : calloc .kernel middle firstBlock fuel (width * height).toNat pixelSize
        bufferAddress with
    | none =>
      rw [filling] at returned
      contradiction
    | some filled =>
      rw [filling] at returned
      simp only [Option.some.injEq, Prod.mk.injEq] at returned
      obtain ⟨⟨rfl, rfl⟩, rfl⟩ := returned
      exact ⟨middle, rfl, failed, filling⟩

/-- A call of `window_ioctl` that changed the size of a window freed its buffer and allocated
another one. -/
theorem windowMove_inv {world after : World} {firstBlock fuel address : Nat} {window moved : Window}
    {width height : BitVec 32} (resized : window.width ≠ width ∨ window.height ≠ height)
    (returned : windowMove world firstBlock fuel window width height address = some (moved, after)) :
    ∃ freed, window.buffer ≠ 0 ∧ freeUnlocked .kernel world window.buffer = some freed ∧
      mallocUnlocked .kernel freed firstBlock fuel (mul (width * height).toNat pixelSize) address =
        some (moved.buffer, after) := by
  rw [windowMove, if_pos resized, free] at returned
  by_cases null : window.buffer = 0
  · rw [if_pos null] at returned
    contradiction
  rw [if_neg null] at returned
  cases freeing : freeUnlocked .kernel world window.buffer with
  | none =>
    rw [freeing] at returned
    contradiction
  | some freed =>
    rw [freeing] at returned
    dsimp only at returned
    cases allocation : mallocUnlocked .kernel freed firstBlock fuel
        (mul (width * height).toNat pixelSize) address with
    | none => simp only [allocation, reduceCtorEq] at returned
    | some result =>
      obtain ⟨buffer, allocated⟩ := result
      rw [allocation] at returned
      simp only [Option.some.injEq, Prod.mk.injEq] at returned
      obtain ⟨rfl, rfl⟩ := returned
      exact ⟨freed, null, rfl, allocation⟩

/-- The buffer of a new window. -/
theorem windowNew_iff {state : State} {after : World} {fuel : Nat} {width height : BitVec 32}
    {type : Int} {windowAddress bufferAddress window : Nat} {created : Window} (kept : Kept state)
    (returned : windowNew state.world state.firstBlock fuel width height type windowAddress
      bufferAddress = some (some (window, created), after))
    (given : bufferAddress ≠ 0) (obtained : Obtained after.regions) (backed : Backed after.regions) :
    Enough after created.buffer (width.toNat * height.toNat * pixelSize) ↔
      width.toNat * height.toNat < 2 ^ 32 ∨ width.toNat * height.toNat % 2 ^ 32 = 0 := by
  obtain ⟨middle, allocating, succeeded, filling⟩ := windowNew_inv returned
  obtain ⟨filled, refilling, regions, -⟩ := calloc_inv filling
  obtain ⟨fresh, grown⟩ := mallocUnlocked_regions refilling
  rw [← regions] at grown
  have middleObtained := obtained_earlier (by rwa [← grown])
  have middleBacked : Backed middle.regions := fun region member =>
    backed region (by rw [grown]; exact List.mem_append_right fresh member)
  obtain ⟨new, block, granted⟩ :=
    mallocUnlocked_granted kept allocating middleObtained middleBacked (by decide) succeeded
  have middleKept : Kept ⟨middle, state.firstBlock, ⟨window, windowSize⟩ :: state.held⟩ :=
    ⟨⟨new, granted.sound, granted.sized⟩, middleObtained⟩
  refine buffer_iff given (calloc_null_iff middleKept filling obtained backed) fun nonzero => ?_
  obtain ⟨others, buffer, final, -⟩ :=
    calloc_granted middleKept filling obtained backed (pixels_small _).2 nonzero
  exact ⟨others, buffer, final⟩

/-- The buffer of a window that changed its size. -/
theorem windowMove_iff {state : State} {after : World} {fuel address : Nat} {window moved : Window}
    {width height : BitVec 32} (kept : Kept state)
    (owned : window.buffer ≠ 0 → ∃ allocation ∈ state.held, allocation.pointer = window.buffer)
    (resized : window.width ≠ width ∨ window.height ≠ height)
    (returned : windowMove state.world state.firstBlock fuel window width height address =
      some (moved, after))
    (given : address ≠ 0) (obtained : Obtained after.regions) (backed : Backed after.regions) :
    Enough after moved.buffer (width.toNat * height.toNat * pixelSize) ↔
      width.toNat * height.toNat < 2 ^ 32 ∨ width.toNat * height.toNat % 2 ^ 32 = 0 := by
  obtain ⟨freed, nonzero, freeing, allocating⟩ := windowMove_inv resized returned
  obtain ⟨allocation, held, points⟩ := owned nonzero
  rw [← points] at freeing
  have freedKept := call_kept .kernel state _ kept (.free state freed allocation held freeing)
  refine buffer_iff given (mallocUnlocked_null_iff freedKept allocating obtained
      backed) fun succeeded => ?_
  exact mallocUnlocked_granted freedKept allocating obtained backed (pixels_small _).2 succeeded

/-- The calls of a state are enough exactly when the conditions on their sizes hold. In the
kernel, which makes the windows, memory is always obtained. -/
structure EnoughExactly (build : Build) (state : State) : Prop where
  ends : ∃ turns, ∀ fuel size address, turns ≤ fuel →
    ∃ result, mallocUnlocked build state.world state.firstBlock fuel size address = some result
  malloc : ∀ after fuel size address pointer,
    mallocUnlocked build state.world state.firstBlock fuel size address = some (pointer, after) →
    Obtained after.regions → Backed after.regions →
    (Enough after pointer size ↔ size ≤ sizeLimit ∨ Refused state size address)
  calloc : ∀ after fuel num size address data,
    calloc build state.world state.firstBlock fuel num size address = some (data, after) →
    Obtained after.regions → Backed after.regions →
    (EnoughZeros after data (num * size) ↔
      num * size ≤ sizeLimit ∨ mul num size = 0 ∨ Refused state (mul num size) address)
  windowNew : build = .kernel → ∀ after fuel width height type windowAddress bufferAddress window
    created, windowNew state.world state.firstBlock fuel width height type windowAddress
      bufferAddress = some (some (window, created), after) →
    bufferAddress ≠ 0 → Obtained after.regions → Backed after.regions →
    (Enough after created.buffer (width.toNat * height.toNat * pixelSize) ↔
      width.toNat * height.toNat < 2 ^ 32 ∨ width.toNat * height.toNat % 2 ^ 32 = 0)
  windowMove : build = .kernel → ∀ after fuel address window moved width height,
    (window.buffer ≠ 0 → ∃ allocation ∈ state.held, allocation.pointer = window.buffer) →
    (window.width ≠ width ∨ window.height ≠ height) →
    windowMove state.world state.firstBlock fuel window width height address = some (moved, after) →
    address ≠ 0 → Obtained after.regions → Backed after.regions →
    (Enough after moved.buffer (width.toNat * height.toNat * pixelSize) ↔
      width.toNat * height.toNat < 2 ^ 32 ∨ width.toNat * height.toNat % 2 ^ 32 = 0)

/-- In every state of a run, the allocations are enough exactly when neither the sums of `malloc`
nor the products of its callers wrap, when a product wraps to nothing, or when the allocation
is refused. -/
theorem allocations_enough_iff (build : Build) (state : State)
    (reached : Reachable (Initial build) (Call build) state) : EnoughExactly build state where
  ends := by
    obtain ⟨⟨blocks, sound, -⟩, -⟩ := reachable_kept build state reached
    exact ⟨blocks.length, fun fuel size address => mallocUnlocked_ends build state.world
      state.firstBlock fuel size address blocks sound.layout⟩
  malloc after fuel size address pointer := malloc_iff (reachable_kept build state reached)
  calloc after fuel num size address data := calloc_iff (reachable_kept build state reached)
  windowNew kernel := by
    subst kernel
    intro after fuel width height type windowAddress bufferAddress window created
    exact windowNew_iff (reachable_kept .kernel state reached)
  windowMove kernel := by
    subst kernel
    intro after fuel address window moved width height
    exact windowMove_iff (reachable_kept .kernel state reached)

/-- The heap that was just initialized is the start of a run. -/
theorem sampleStart_reached : Reachable (Initial .kernel) (Call .kernel) sampleStart :=
  ⟨sampleStart, ⟨fun _ => 0, 0x100000, by decide, sample_obtained, rfl⟩, .refl⟩

/-- Three rows of a hundred bytes are allocated and cleared in the heap that was just
initialized. -/
theorem threeRows_enough : ∃ data after,
    calloc .kernel sampleStart.world sampleStart.firstBlock 1 3 100 0 = some (data, after) ∧
      EnoughZeros after data (3 * 100) := by
  have searched : search sampleStart.world.memory (roundUp (mul 3 100) heapAlignment) 1
      sampleStart.firstBlock = some (.larger 0x100000) := by decide +kernel
  have positive : mul 3 100 ≠ 0 := by decide
  have regions : sampleStart.world.regions = [⟨0x100000, 0x2000⟩] := by decide +kernel
  have returned : ∃ after, calloc .kernel sampleStart.world sampleStart.firstBlock 1 3 100 0 =
      some (0x100040, after) ∧ after.regions = sampleStart.world.regions := by
    rw [calloc, mallocUnlocked, if_neg positive]
    simp only [searched]
    exact ⟨_, rfl, rfl⟩
  obtain ⟨after, returned, same⟩ := returned
  refine ⟨_, after, returned, ((allocations_enough_iff .kernel sampleStart sampleStart_reached).calloc
    after 1 3 100 0 _ returned (same ▸ sample_obtained) ?_).mpr (.inl (by decide))⟩
  intro region member
  rw [same, regions] at member
  rw [List.mem_singleton.mp member]
  decide

/-- A window of 65536 times 65537 pixels, made in the heap that was just initialized, gets a
buffer for the first 65536 of them. -/
theorem wideWindow_short : ∃ window created after,
    windowNew sampleStart.world sampleStart.firstBlock 2 0x10000 0x10001 0 0x200000 0x200000 =
        some (some (window, created), after) ∧
      created.buffer ≠ 0 ∧ usable after created.buffer = 65536 * pixelSize ∧
      ¬ Enough after created.buffer (65536 * 65537 * pixelSize) := by
  have outcome : (windowNew sampleStart.world sampleStart.firstBlock 2 0x10000 0x10001 0 0x200000
      0x200000).map (fun result => result.1.map fun created =>
        (created.2.buffer, usable result.2 created.2.buffer)) =
        some (some (0x200040, 65536 * pixelSize)) := by decide +kernel
  obtain ⟨⟨made, after⟩, returned, observed⟩ := Option.map_eq_some_iff.mp outcome
  obtain ⟨⟨window, created⟩, rfl, observed⟩ := Option.map_eq_some_iff.mp observed
  obtain ⟨buffer, room⟩ := Prod.mk.inj observed
  refine ⟨window, created, after, returned, by rw [buffer]; decide, room, ?_⟩
  rintro (null | ⟨fits, -⟩)
  · rw [buffer] at null
    exact absurd null (by decide)
  · rw [room] at fits
    exact absurd fits (by decide)

end Asym.AllocationSizes
