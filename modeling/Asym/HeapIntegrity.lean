import Asym.HeapLayout
import Asym.Runs

/-!
# Runs of the heap

A run interleaves the heap calls with arbitrary writes of holders into their
payloads. A holder gets a pointer from `malloc` or `realloc` and gives it back to
`free` or `realloc`; the outstanding pointers are recorded with the sizes asked.
Every size is between 1 and 2^63, every allocation succeeds, and what
`_HeapBlockNew` obtains is disjoint from what it obtained before.

The invariant relates the outstanding pointers to reserved blocks of a layout.
Each call keeps it, and `realloc` is an allocation, a copy into the new payload
and a release.
-/

namespace Asym.HeapIntegrity

open ByteMemory Intervals MachineWords Heap HeapBlocks HeapLayout Runs

/-- An outstanding pointer and the size asked for it. -/
structure Allocation where
  pointer : Nat
  requested : Nat
  deriving DecidableEq, Repr

/-- The heap with its outstanding allocations. -/
structure State where
  world : World
  firstBlock : Nat
  held : List Allocation

/-- The usable size of an allocation: the size in its header. -/
def usable (world : World) (pointer : Nat) : Nat :=
  load64 world.memory (sizeField (headerOf pointer))

/-- The payload of an allocation. -/
def payloadOf (world : World) (allocation : Allocation) : Interval :=
  ⟨allocation.pointer, usable world allocation.pointer⟩

/-- The allocations left when a pointer is given back. -/
def release (held : List Allocation) (pointer : Nat) : List Allocation :=
  held.filter fun allocation => allocation.pointer ≠ pointer

/-- The calls of a run, with their results, and the writes of holders. -/
inductive Event where
  | malloc (size pointer : Nat)
  | free (pointer : Nat)
  | realloc (old size pointer : Nat)
  | write (place : Nat) (byte : UInt8)

/-- The pointer that a call gives back. -/
def Event.consumed : Event → Option Nat
  | malloc _ _ => none
  | free pointer => some pointer
  | realloc old _ _ => some old
  | write _ _ => none

/-- An event is a call of the heap. -/
def Event.isCall : Event → Bool
  | write _ _ => false
  | _ => true

/-- One event of a run. -/
inductive Step (build : Build) : Event → State → State → Prop where
  | malloc (state : State) (after : World) (size fuel address pointer : Nat)
      (positive : 1 ≤ size) (bounded : size ≤ 2 ^ 63)
      (returned : mallocUnlocked build state.world state.firstBlock fuel size address =
        some (pointer, after))
      (succeeded : pointer ≠ 0) (obtained : Obtained after.regions) :
      Step build (.malloc size pointer) state
        ⟨after, state.firstBlock, ⟨pointer, size⟩ :: state.held⟩
  | free (state : State) (after : World) (allocation : Allocation)
      (outstanding : allocation ∈ state.held)
      (returned : freeUnlocked build state.world allocation.pointer = some after) :
      Step build (.free allocation.pointer) state
        ⟨after, state.firstBlock, release state.held allocation.pointer⟩
  | realloc (state : State) (after : World) (allocation : Allocation)
      (size fuel address pointer : Nat) (outstanding : allocation ∈ state.held)
      (positive : 1 ≤ size) (bounded : size ≤ 2 ^ 63)
      (returned : Heap.realloc build state.world state.firstBlock fuel allocation.pointer size
        address = some (pointer, after))
      (succeeded : pointer ≠ 0) (obtained : Obtained after.regions) :
      Step build (.realloc allocation.pointer size pointer) state
        ⟨after, state.firstBlock, release (⟨pointer, size⟩ :: state.held) allocation.pointer⟩
  | write (state : State) (allocation : Allocation) (offset : Nat) (byte : UInt8)
      (outstanding : allocation ∈ state.held)
      (inside : offset < usable state.world allocation.pointer) :
      Step build (.write (allocation.pointer + offset) byte) state
        { state with world := { state.world with
          memory := Function.update state.world.memory (allocation.pointer + offset) byte } }

/-- A heap that was just initialized. -/
def Initial (build : Build) (state : State) : Prop :=
  ∃ memory address, address ≠ 0 ∧ Obtained (heapInit build memory address).2.regions ∧
    state = ⟨(heapInit build memory address).2, (heapInit build memory address).1, []⟩

/-- The invariant: outstanding pointers are those of different reserved blocks. -/
structure Sound (state : State) (blocks : List Block) : Prop where
  layout : Layout state.world state.firstBlock blocks
  owned : ∀ allocation ∈ state.held, ∃ block ∈ blocks, block.reserved = true ∧
    allocation.pointer = block.address + headerSize ∧ allocation.requested ≤ block.size ∧
    1 ≤ block.size
  distinct : (state.held.map Allocation.pointer).Nodup

/-- The usable size of a block's pointer. -/
theorem usable_eq {world : World} {firstBlock : Nat} {blocks : List Block}
    (layout : Layout world firstBlock blocks) (block : Block) (member : block ∈ blocks)
    (sized : 1 ≤ block.size) : usable world (block.address + headerSize) = block.size := by
  rw [usable, headerOf_eq (layout.placed block member) sized,
    layout_size layout block member]

/-- The payload of an allocation is that of its block. -/
theorem payloadOf_eq {world : World} {firstBlock : Nat} {blocks : List Block}
    (layout : Layout world firstBlock blocks) (block : Block) (member : block ∈ blocks)
    (allocation : Allocation) (points : allocation.pointer = block.address + headerSize)
    (sized : 1 ≤ block.size) : payloadOf world allocation = block.payload := by
  rw [payloadOf, points, usable_eq layout block member sized]
  rfl

/-- A byte of an outstanding payload lies in the payload of a reserved block. -/
theorem owner_of_payload {state : State} {blocks : List Block} (sound : Sound state blocks)
    (allocation : Allocation) (held : allocation ∈ state.held) (place : Nat)
    (here : (payloadOf state.world allocation).Holds place) :
    ∃ owner ∈ blocks, owner.reserved = true ∧ owner.payload.Holds place := by
  obtain ⟨owner, known, reserved, points, -, sized⟩ := sound.owned allocation held
  rw [payloadOf_eq sound.layout owner known allocation points sized] at here
  exact ⟨owner, known, reserved, here⟩

/-- The heap is sound when it was just initialized. -/
theorem sound_initial (build : Build) (state : State) (initial : Initial build state) :
    ∃ blocks, Sound state blocks ∧ Sized blocks := by
  obtain ⟨memory, address, given, obtained, rfl⟩ := initial
  have bounded : firstSize build + headerSize + pageSize ≤ wordSize := by cases build <;> decide
  have regions := heapBlockNew_regions build ⟨memory, []⟩ address (firstSize build) given
  have header := heapBlockNew_header build ⟨memory, []⟩ address (firstSize build) given bounded
  have result : (heapInit build memory address).1 = address := by
    simp only [heapInit, heapBlockNew, if_neg given]
  have fresh : Obtained [⟨address, blockBytes build (firstSize build)⟩] := by
    rw [heapInit, regions] at obtained
    exact obtained
  refine ⟨[freshBlock build address (firstSize build)], ⟨⟨⟨header, trivial⟩, result,
    List.cons_ne_nil _ _, ?_, List.pairwise_singleton _ _, ?_⟩, by simp, by simp⟩, ?_⟩
  · intro block member
    rw [List.mem_singleton.mp member]
    exact freshBlock_placed build ⟨memory, []⟩ address (firstSize build) bounded fresh
  · intro block member
    rw [List.mem_singleton.mp member]
    refine ⟨⟨address, blockBytes build (firstSize build)⟩, ?_, ?_⟩
    · rw [heapInit, regions]
      exact List.mem_cons_self
    · rw [freshBlock_region build address (firstSize build) bounded]
      exact within_refl _
  · intro block member
    have room := (blockBytes_spec build (firstSize build) bounded).2.1
    have positive : 1 ≤ firstSize build := by cases build <;> decide
    rw [List.mem_singleton.mp member]
    simp only [freshBlock]
    omega

/-- A size of at most 2^63 leaves room for a header and for rounding up. -/
theorem bounded_of_le {size : Nat} (bounded : size ≤ 2 ^ 63) :
    size + headerSize + pageSize ≤ wordSize := by
  simp only [headerSize, pageSize, wordSize]
  omega

/-- Allocating keeps the heap sound. -/
theorem sound_malloc {build : Build} {state : State} {after : World} {blocks : List Block}
    {size fuel address pointer : Nat} (sound : Sound state blocks) (positive : 1 ≤ size)
    (bounded : size + headerSize + pageSize ≤ wordSize)
    (returned : mallocUnlocked build state.world state.firstBlock fuel size address =
      some (pointer, after))
    (succeeded : pointer ≠ 0) (obtained : Obtained after.regions) :
    ∃ new block, Sound ⟨after, state.firstBlock, ⟨pointer, size⟩ :: state.held⟩ new ∧
      Allocated state.world after state.firstBlock blocks new block ∧
      Served blocks new block size pointer := by
  obtain ⟨new, block, allocated, served⟩ :=
    mallocUnlocked_allocated sound.layout positive bounded returned
    succeeded obtained
  have room := served.room
  have points := served.points
  refine ⟨new, block, ⟨allocated.layout, ?_, ?_⟩, allocated, served⟩
  · intro allocation member
    rcases List.mem_cons.mp member with rfl | older
    · exact ⟨block, allocated.member, allocated.reserved, points, room, by omega⟩
    · obtain ⟨other, known, reserved, rest⟩ := sound.owned allocation older
      exact ⟨other, allocated.kept other known reserved, reserved, rest⟩
  · rw [List.map_cons, List.nodup_cons]
    refine ⟨?_, sound.distinct⟩
    intro repeated
    obtain ⟨allocation, older, same⟩ := List.mem_map.mp repeated
    obtain ⟨other, known, reserved, place, -⟩ := sound.owned allocation older
    have different := allocated.unheld other known reserved
    have equal : block.address + headerSize = other.address + headerSize := by
      rw [← points, ← place]
      exact same.symm
    omega

/-- Writing inside a payload keeps the heap sound. -/
theorem sound_payload {state : State} {blocks : List Block} (sound : Sound state blocks)
    (block : Block) (member : block ∈ blocks) (memory : Memory)
    (frame : ∀ place, ¬ block.payload.Holds place → memory place = state.world.memory place) :
    Sound { state with world := { state.world with memory := memory } } blocks where
  layout := layout_payload sound.layout block member memory frame
  owned := sound.owned
  distinct := sound.distinct

/-- Giving an outstanding pointer back keeps the heap sound. It is answered, and
writes one field of the header. -/
theorem sound_free (build : Build) (state : State) (blocks : List Block)
    (sound : Sound state blocks) (allocation : Allocation) (outstanding : allocation ∈ state.held) :
    ∃ block ∈ blocks, ∃ new, allocation.pointer = block.address + headerSize ∧
      freeUnlocked build state.world allocation.pointer =
        some (state.world.set (reservedField block.address) 0) ∧
      Sound ⟨state.world.set (reservedField block.address) 0, state.firstBlock,
        release state.held allocation.pointer⟩ new ∧ (Sized blocks → Sized new) := by
  obtain ⟨block, member, reserved, points, -, sized⟩ := sound.owned allocation outstanding
  have answered := freeUnlocked_eq build state.world state.firstBlock blocks sound.layout block
    member reserved sized
  obtain ⟨front, back, shape⟩ := List.append_of_mem member
  have layout := sound.layout
  rw [shape] at layout
  have freed := layout_reserve false layout
  refine ⟨block, member, _, points, by rw [points]; exact answered, ⟨freed, ?_, ?_⟩, fun all => ?_⟩
  · intro other remains
    obtain ⟨older, different⟩ := List.mem_filter.mp remains
    obtain ⟨owner, known, rest⟩ := sound.owned other older
    refine ⟨owner, ?_, rest⟩
    have notBlock : owner ≠ block := by
      rintro rfl
      simp [points, rest.2.1] at different
    rw [shape] at known
    rcases List.mem_append.mp known with earlier | later
    · exact List.mem_append_left _ earlier
    · rcases List.mem_cons.mp later with same | behind
      · exact absurd same notBlock
      · exact List.mem_append_right front (List.mem_append_right _ behind)
  · exact sound.distinct.sublist (List.filter_sublist.map _)
  · rw [shape] at all
    exact sized_replace all (sized_reserve sized)

/-- The world after the copy of a payload. -/
def copyPayload (world : World) (destination source count : Nat) : World :=
  ⟨copy world.memory destination source count, world.regions⟩

/-- Freeing obtains nothing. -/
theorem freeUnlocked_regions {build : Build} {world after : World} {pointer : Nat}
    (freed : freeUnlocked build world pointer = some after) : after.regions = world.regions := by
  unfold freeUnlocked at freed
  simp only [] at freed
  split_ifs at freed
  rw [← Option.some.inj freed]
  rfl

/-- What a call of `realloc` that returned did, one call after the other. -/
theorem realloc_inv {build : Build} {world after : World}
    {firstBlock fuel old size address pointer : Nat}
    (returned : Heap.realloc build world firstBlock fuel old size address = some (pointer, after)) :
    ∃ allocated, mallocUnlocked build world firstBlock fuel size address =
        some (pointer, allocated) ∧
      freeUnlocked build (copyPayload allocated pointer old (min size (usable allocated old))) old =
        some after ∧ after.regions = allocated.regions := by
  unfold Heap.realloc at returned
  simp only [] at returned
  split_ifs at returned
  cases allocation : mallocUnlocked build world firstBlock fuel size address with
  | none => simp [allocation] at returned
  | some result =>
    obtain ⟨newPointer, allocated⟩ := result
    simp only [allocation] at returned
    split at returned
    · cases returned
    · next freed freeing =>
      simp only [Option.some.injEq, Prod.mk.injEq] at returned
      obtain ⟨rfl, rfl⟩ := returned
      have regions := freeUnlocked_regions freeing
      exact ⟨allocated, rfl, freeing, regions⟩

/-- A copy changes nothing outside its destination. -/
theorem copy_outside (memory : Memory) (destination source count place : Nat)
    (outside : ¬ (Interval.mk destination count).Holds place) :
    copy memory destination source count place = memory place :=
  if_neg outside

/-- No call changes the payload of an allocation that it does not give back. -/
def Preserves (event : Event) (state after : State) : Prop :=
  ∀ allocation ∈ state.held, event.consumed ≠ some allocation.pointer → ∀ place,
    (payloadOf state.world allocation).Holds place →
      after.world.memory place = state.world.memory place

/-- The result of `realloc` begins with the bytes of the old payload. -/
def Carries (event : Event) (state after : State) : Prop :=
  ∀ old size pointer, event = .realloc old size pointer →
    ∀ offset < min (usable state.world old) size,
      after.world.memory (pointer + offset) = state.world.memory (old + offset)

/-- The stages of a reallocation: a block is allocated, the old payload is copied
into it and the old block is freed. -/
structure Reallocated (state : State) (after : World) (blocks new : List Block)
    (allocation : Allocation) (size pointer : Nat) (allocated : World) (old block : Block) :
    Prop where
  oldMember : old ∈ blocks
  oldReserved : old.reserved = true
  oldPoints : allocation.pointer = old.address + headerSize
  oldUsable : usable state.world allocation.pointer = old.size
  fresh : Allocated state.world allocated state.firstBlock blocks new block
  room : size ≤ block.size
  points : pointer = block.address + headerSize
  freed : ∃ freed ∈ new, after =
    (copyPayload allocated pointer allocation.pointer (min size old.size)).set
      (reservedField freed.address) 0
  sound : ∃ final, Sound ⟨after, state.firstBlock,
    release (⟨pointer, size⟩ :: state.held) allocation.pointer⟩ final

/-- A copy of no more than a payload stays inside it. -/
theorem copy_payload_outside (memory : Memory) (block : Block) (source count place : Nat)
    (fits : count ≤ block.size) (outside : ¬ block.payload.Holds place) :
    copy memory (block.address + headerSize) source count place = memory place := by
  apply copy_outside
  simp only [Interval.Holds, Block.payload] at outside ⊢
  omega

/-- A call of `realloc` that returned an address goes through these stages. -/
theorem realloc_stages {build : Build} {state : State} {after : World} {blocks : List Block}
    {allocation : Allocation} {size fuel address pointer : Nat} (sound : Sound state blocks)
    (outstanding : allocation ∈ state.held) (positive : 1 ≤ size)
    (bounded : size + headerSize + pageSize ≤ wordSize)
    (returned : Heap.realloc build state.world state.firstBlock fuel allocation.pointer size
      address = some (pointer, after))
    (succeeded : pointer ≠ 0) (obtained : Obtained after.regions) :
    ∃ new allocated old block,
      Reallocated state after blocks new allocation size pointer allocated old block := by
  obtain ⟨old, oldMember, oldReserved, oldPoints, -, oldSized⟩ := sound.owned allocation outstanding
  obtain ⟨allocated, allocating, freeing, regions⟩ := realloc_inv returned
  rw [regions] at obtained
  obtain ⟨new, block, grown, fresh, served⟩ :=
    sound_malloc sound positive bounded allocating succeeded obtained
  have room := served.room
  have points := served.points
  have oldNew : old ∈ new := fresh.kept old oldMember oldReserved
  have copyUsable : usable allocated allocation.pointer = old.size := by
    rw [oldPoints]
    exact usable_eq fresh.layout old oldNew oldSized
  have oldUsable : usable state.world allocation.pointer = old.size := by
    rw [oldPoints]
    exact usable_eq sound.layout old oldMember oldSized
  rw [copyUsable] at freeing
  have copied := sound_payload grown block fresh.member
    (copy allocated.memory pointer allocation.pointer (min size old.size)) (by
      intro place outside
      rw [points]
      exact copy_payload_outside allocated.memory block _ _ place (by omega) outside)
  obtain ⟨freed, freedMember, final, -, answered, finalSound, -⟩ := sound_free build _ new
    copied allocation (List.mem_cons_of_mem _ outstanding)
  obtain rfl := Option.some.inj (answered.symm.trans freeing)
  exact ⟨new, allocated, old, block, oldMember, oldReserved, oldPoints, oldUsable, fresh, room,
    points, ⟨freed, freedMember, rfl⟩, final, finalSound⟩

/-- After the stages, every payload of the allocated layout is as the copy left
it. -/
theorem realloc_payload {state : State} {after : World} {blocks new : List Block}
    {allocation : Allocation} {size pointer : Nat} {allocated : World} {old block : Block}
    (stages : Reallocated state after blocks new allocation size pointer allocated old block)
    (other : Block) (member : other ∈ new) (place : Nat) (here : other.payload.Holds place) :
    after.memory place =
      copy allocated.memory pointer allocation.pointer (min size old.size) place := by
  obtain ⟨freed, freedMember, rfl⟩ := stages.freed
  apply set_outside _ freed _ _ place (reservedField_inside freed)
  exact not_holds_of_apart
    (payload_apart_headers stages.fresh.layout other freed member freedMember) place here

/-- Reallocating keeps the heap sound, the other payloads and the bytes of the
old one. -/
theorem sound_realloc {build : Build} {state : State} {after : World} {blocks : List Block}
    {allocation : Allocation} {size fuel address pointer : Nat} (sound : Sound state blocks)
    (outstanding : allocation ∈ state.held) (positive : 1 ≤ size)
    (bounded : size + headerSize + pageSize ≤ wordSize)
    (returned : Heap.realloc build state.world state.firstBlock fuel allocation.pointer size
      address = some (pointer, after))
    (succeeded : pointer ≠ 0) (obtained : Obtained after.regions) :
    let final : State :=
      ⟨after, state.firstBlock, release (⟨pointer, size⟩ :: state.held) allocation.pointer⟩
    (∃ new, Sound final new) ∧
      Preserves (.realloc allocation.pointer size pointer) state final ∧
      Carries (.realloc allocation.pointer size pointer) state final := by
  obtain ⟨new, allocated, old, block, stages⟩ :=
    realloc_stages sound outstanding positive bounded returned succeeded obtained
  have payload := realloc_payload stages
  have fresh := stages.fresh
  have room := stages.room
  have points := stages.points
  refine ⟨stages.sound, ?_, ?_⟩
  · intro other held _ place inside
    obtain ⟨owner, known, reserved, here⟩ := owner_of_payload sound other held place inside
    have ownerNew : owner ∈ new := fresh.kept owner known reserved
    have notBlock : owner ≠ block := by
      rintro rfl
      exact fresh.unheld owner known reserved rfl
    have clear := apart_of_mem fresh.layout.apart owner block ownerNew fresh.member notBlock
    have outside := not_holds_of_apart
      (apart_of_within clear (payload_within owner) (payload_within block)) place here
    change after.memory place = state.world.memory place
    rw [payload owner ownerNew place here, points,
      copy_payload_outside allocated.memory block _ _ place (by omega) outside]
    exact fresh.unharmed owner known reserved place here
  · intro source amount target same offset short
    obtain ⟨rfl, rfl, rfl⟩ := Event.realloc.inj same
    rw [stages.oldUsable] at short
    have inBlock : block.payload.Holds (pointer + offset) := by
      simp only [Interval.Holds, Block.payload]
      omega
    have inOld : old.payload.Holds (allocation.pointer + offset) := by
      have oldPoints := stages.oldPoints
      simp only [Interval.Holds, Block.payload]
      omega
    change after.memory (pointer + offset) = state.world.memory (allocation.pointer + offset)
    rw [payload block fresh.member _ inBlock, copy, if_pos (by omega), Nat.add_sub_cancel_left]
    exact fresh.unharmed old stages.oldMember stages.oldReserved _ inOld

/-- One event keeps the heap sound, and the payloads it has no business with. -/
theorem step_sound (build : Build) (event : Event) (state after : State) (blocks : List Block)
    (sound : Sound state blocks) (step : Step build event state after) :
    (∃ new, Sound after new) ∧ (event.isCall = true → Preserves event state after) ∧
      Carries event state after := by
  cases step with
  | malloc _ world size fuel address pointer positive bounded returned succeeded obtained =>
    obtain ⟨new, block, grown, fresh, -⟩ :=
      sound_malloc sound positive (bounded_of_le bounded) returned succeeded obtained
    refine ⟨⟨new, grown⟩, ?_, ?_⟩
    · intro _ other held _ place inside
      obtain ⟨owner, known, reserved, here⟩ := owner_of_payload sound other held place inside
      exact fresh.unharmed owner known reserved place here
    · intro _ _ _ different
      contradiction
  | free _ world allocation outstanding returned =>
    obtain ⟨freed, freedMember, new, -, answered, final, -⟩ := sound_free build state blocks sound
      allocation outstanding
    obtain rfl := Option.some.inj (answered.symm.trans returned)
    refine ⟨⟨new, final⟩, ?_, ?_⟩
    · intro _ other held _ place inside
      obtain ⟨owner, known, -, here⟩ := owner_of_payload sound other held place inside
      apply set_outside state.world freed _ _ place (reservedField_inside freed)
      exact not_holds_of_apart
        (payload_apart_headers sound.layout owner freed known freedMember) place here
    · intro _ _ _ different
      contradiction
  | realloc _ world allocation size fuel address pointer outstanding positive bounded returned
      succeeded obtained =>
    obtain ⟨final, preserved, carried⟩ :=
      sound_realloc sound outstanding positive (bounded_of_le bounded) returned succeeded
      obtained
    exact ⟨final, fun _ => preserved, carried⟩
  | write _ allocation offset byte outstanding inside =>
    obtain ⟨block, member, -, points, -, sized⟩ := sound.owned allocation outstanding
    rw [points, usable_eq sound.layout block member sized]
      at inside
    refine ⟨⟨blocks, sound_payload sound block member _ ?_⟩, ?_, ?_⟩
    · intro place outside
      apply Function.update_of_ne
      rintro rfl
      apply outside
      simp only [Interval.Holds, Block.payload]
      omega
    · intro call
      contradiction
    · intro _ _ _ different
      contradiction

/-- The heap is sound at every point of a run. -/
theorem reachable_sound (build : Build) (state : State)
    (reached : Reachable (Initial build) (fun before after => ∃ event, Step build event before after)
      state) : ∃ blocks, Sound state blocks := by
  have start : ∀ start, Initial build start → ∃ blocks, Sound start blocks := by
    intro start initial
    obtain ⟨blocks, sound, -⟩ := sound_initial build start initial
    exact ⟨blocks, sound⟩
  refine reachable_invariant start ?_ reached
  rintro before after ⟨blocks, sound⟩ ⟨event, step⟩
  exact (step_sound build event before after blocks sound step).1

/-- The block list and the outstanding allocations fit together. -/
structure Integrity (state : State) (blocks : List Block) : Prop where
  spelled : Linked state.world.memory blocks 0 ∧ state.firstBlock = start blocks 0
  disjoint : (blocks.map Block.region).Pairwise Interval.Apart
  aligned : ∀ allocation ∈ state.held, allocation.pointer % heapAlignment = 0
  roomy : ∀ allocation ∈ state.held,
    allocation.requested ≤ usable state.world allocation.pointer
  payloads : state.held.Pairwise fun first second =>
    (payloadOf state.world first).Apart (payloadOf state.world second)
  headers : ∀ allocation ∈ state.held, ∀ block ∈ blocks,
    (payloadOf state.world allocation).Apart block.header

/-- A sound heap has integrity. -/
theorem integrity_of_sound (state : State) (blocks : List Block) (sound : Sound state blocks) :
    Integrity state blocks := by
  have layout := sound.layout
  refine ⟨⟨layout.linked, layout.first⟩, layout.apart, ?_, ?_, ?_, ?_⟩
  · intro allocation held
    obtain ⟨block, member, -, points, -, -⟩ := sound.owned allocation held
    have aligned := (layout.placed block member).aligned
    rw [points]
    simp only [heapAlignment, headerSize] at *
    omega
  · intro allocation held
    obtain ⟨block, member, -, points, room, sized⟩ := sound.owned allocation held
    rw [points, usable_eq layout block member sized]
    exact room
  · have different : state.held.Pairwise fun first second => first.pointer ≠ second.pointer :=
      List.pairwise_map.mp sound.distinct
    refine different.imp_of_mem fun {first second} firstHeld secondHeld unequal => ?_
    obtain ⟨block, member, -, points, -, sized⟩ := sound.owned first firstHeld
    obtain ⟨other, otherMember, -, otherPoints, -, otherSized⟩ := sound.owned second secondHeld
    rw [payloadOf_eq layout block member first points sized,
      payloadOf_eq layout other otherMember second otherPoints otherSized]
    have distinct : block ≠ other := by
      rintro rfl
      exact unequal (points.trans otherPoints.symm)
    exact apart_of_within
      (apart_of_mem layout.apart block other member otherMember distinct)
      (payload_within block) (payload_within other)
  · intro allocation held block member
    obtain ⟨owner, known, -, points, -, sized⟩ := sound.owned allocation held
    rw [payloadOf_eq layout owner known allocation points sized]
    exact payload_apart_headers layout owner block known member

/-- The calls come back: the search of `malloc_unlocked` ends, and no check of
`free` or `realloc` panics for an outstanding pointer. -/
structure Answered (build : Build) (state : State) : Prop where
  malloc : ∃ enough, ∀ fuel size address, enough ≤ fuel →
    ∃ result, mallocUnlocked build state.world state.firstBlock fuel size address = some result
  free : ∀ allocation ∈ state.held,
    ∃ after, freeUnlocked build state.world allocation.pointer = some after
  realloc : ∀ allocation ∈ state.held, ∀ size fuel address pointer allocated, 1 ≤ size →
    size ≤ 2 ^ 63 → pointer ≠ 0 → Obtained allocated.regions →
    mallocUnlocked build state.world state.firstBlock fuel size address =
      some (pointer, allocated) →
    ∃ after, Heap.realloc build state.world state.firstBlock fuel allocation.pointer size address =
      some (pointer, after)

/-- A sound heap answers its calls. -/
theorem answered_of_sound (build : Build) (state : State) (blocks : List Block)
    (sound : Sound state blocks) : Answered build state where
  malloc := ⟨blocks.length, fun fuel size address enough => mallocUnlocked_ends build state.world
    state.firstBlock fuel size address blocks sound.layout enough⟩
  free allocation held := by
    obtain ⟨_, _, _, _, answered, _⟩ := sound_free build state blocks sound allocation held
    exact ⟨_, answered⟩
  realloc allocation held size fuel address pointer allocated positive bounded succeeded obtained
      returned := by
    obtain ⟨old, oldMember, oldReserved, oldPoints, -, oldSized⟩ := sound.owned allocation held
    obtain ⟨new, block, grown, fresh, served⟩ :=
      sound_malloc sound positive (bounded_of_le bounded) returned succeeded obtained
    have room := served.room
    have points := served.points
    have magic : checkMagic build state.world (headerOf allocation.pointer) = true := by
      rw [oldPoints, headerOf_eq (sound.layout.placed old oldMember) oldSized]
      exact checkMagic_passes build state.world state.firstBlock blocks sound.layout old oldMember
    have copied := sound_payload grown block fresh.member
      (copy allocated.memory pointer allocation.pointer
        (min size (usable allocated allocation.pointer))) (by
        intro place outside
        rw [points]
        exact copy_payload_outside allocated.memory block _ _ place (by omega) outside)
    obtain ⟨freed, -, -, -, answered, -⟩ := sound_free build _ new copied allocation
      (List.mem_cons_of_mem _ held)
    simp only [usable] at answered
    simp only [Heap.realloc, magic, if_true, returned, answered]
    exact ⟨_, rfl⟩

/-- Heap integrity over every run. In each state the headers spell blocks that do not overlap, and each
allocation has an aligned payload of its own with room for its size. The calls come back, and each keeps
the bytes of the other allocations.

Proof: that there are blocks for which the heap is sound is kept by every call, and the rest is read off
the blocks. -/
theorem heap_integrity (build : Build) (state : State)
    (reached : Reachable (Initial build) (fun before after => ∃ event, Step build event before after)
      state) :
    (∃ blocks, Integrity state blocks) ∧ Answered build state ∧
      ∀ event after, Step build event state after →
        (event.isCall = true → Preserves event state after) ∧ Carries event state after := by
  obtain ⟨blocks, sound⟩ := reachable_sound build state reached
  refine ⟨⟨blocks, integrity_of_sound state blocks sound⟩,
    answered_of_sound build state blocks sound, fun event after step => ?_⟩
  exact (step_sound build event state after blocks sound step).2

/-- The kernel's heap with a first block at one mebibyte. -/
def sampleStart : State :=
  ⟨(heapInit .kernel (fun _ => 0) 0x100000).2, (heapInit .kernel (fun _ => 0) 0x100000).1, []⟩

/-- The heap after 100 bytes were allocated. -/
def sampleState : State :=
  ⟨heapBlockSplit (sampleStart.world.set (reservedField 0x100000) 1) 0x100000 128,
    sampleStart.firstBlock, [⟨0x100040, 100⟩]⟩

/-- The memory obtained in the sample. -/
theorem sample_obtained : Obtained sampleState.world.regions := by
  have regions : sampleState.world.regions = [⟨0x100000, 0x2000⟩] := by decide +kernel
  rw [regions]
  exact ⟨by decide, by decide, by decide, List.pairwise_singleton _ _⟩

/-- The heap with 100 bytes allocated is reached by one call. -/
theorem sample_reached : Reachable (Initial .kernel)
    (fun before after => ∃ event, Step .kernel event before after) sampleState := by
  have searched : search sampleStart.world.memory (roundUp 100 heapAlignment) 1
      sampleStart.firstBlock = some (.larger 0x100000) := by decide +kernel
  have rounded : roundUp 100 heapAlignment = 128 := by decide
  have returned : mallocUnlocked .kernel sampleStart.world sampleStart.firstBlock 1 100 0 =
      some (0x100040, sampleState.world) := by
    rw [mallocUnlocked, if_neg (by decide)]
    simp only [searched]
    rw [rounded]
    rfl
  refine ⟨sampleStart, ⟨fun _ => 0, 0x100000, by decide, sample_obtained, rfl⟩, .single ?_⟩
  exact ⟨_, .malloc sampleStart sampleState.world 100 1 0 0x100040 (by decide) (by decide) returned
    (by decide) sample_obtained⟩

/-- Integrity of the sample. -/
theorem heap_integrity_sample :
    (∃ blocks, Integrity sampleState blocks) ∧ sampleState.held = [⟨0x100040, 100⟩] :=
  ⟨(heap_integrity .kernel sampleState sample_reached).1, rfl⟩

end Asym.HeapIntegrity
