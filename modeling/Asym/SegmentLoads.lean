import Asym.FrameSupplies
import Asym.KernelHalf
import Asym.PlacedWrites
import Asym.Ramfs

/-!
# Loading a segment

A model of one turn of the loop of `loader_load_program`, for a program that is a file of the
ram disk. Memory is allocated for the segment, the place in the file is sought, the memory is
cleared, the file is read into it, and a segment that is not to be written is protected.

An address space is taken together with what is in its frames. Bytes are stored through virtual
addresses, one after the other. Storing through `NULL`, and at an address that is not mapped, has
no result. The frames are kept apart from the tables: the frames of a segment come from the
allocator, and what the allocator returns is not a table.

The size that is read is the size in memory and not the size in the file. So a segment is loaded
exactly if the file goes on for that size.
-/

namespace Asym.SegmentLoads

open MachineWords PhysicalMemory PageEntries PageTables PageTree PageRefinement CyclicUpdates
open VirtualMemory MappingRequests SpaceLayout KernelHalf UserBuffers FrameSupplies PlacedWrites Ramfs

section Model

/-- `seek_origin_t`, and any other number. -/
inductive SeekOrigin where
  | seekSet
  | seekCur
  | seekEnd
  | other
  deriving DecidableEq, Repr

/-- `ramfs_seek`: the position that it returns, and the file. A position behind the end is
returned, but the file does not get there. -/
def ramfsSeek (memory : Memory) (file : File) (offset : Nat) (origin : SeekOrigin) : Nat × File :=
  let size := (memory.ramFiles file.privateAddress).size
  let position := match origin with
    | .seekSet => offset
    | .seekCur => add file.pos offset
    | .seekEnd => sub size offset
    | .other => 0
  (position, { file with pos := min position size })

/-- An address space, and what is in the frames. -/
structure Machine where
  space : Space
  frames : Nat × Nat → UInt8

instance (address : Nat) : Decidable (Canonical address) := inferInstanceAs (Decidable (_ ∨ _))

/-- Where the byte at an address is: a frame, and an offset in it. -/
def place (space : Space) (address : Nat) : Option (Nat × Nat) :=
  if Canonical (address % wordSize) then
    (mapping space (pageNumber address)).map fun found => (found.1, address % pageSize)
  else none

/-- The byte at an address. -/
def byteAt (machine : Machine) (address : Nat) : Option UInt8 := (place machine.space address).map machine.frames

/-- Bytes are stored through a pointer, by `memset` and `memcpy`. -/
def store (machine : Machine) (address : Nat) (values : List UInt8) : Option Machine :=
  if address = 0 then none
  else (write (place machine.space) machine.frames address values).map fun frames => { machine with frames := frames }

/-- The memory of a segment is cleared, and the file read into it: the file, if it goes on for
the size of the segment. -/
def fillSegment (memory : Memory) (machine : Machine) (file : File) (programHeader : ElfPhdr) :
    Option (Option File × Machine) :=
  let sought := ramfsSeek memory file programHeader.offset .seekSet
  if sought.1 ≠ programHeader.offset then some (none, machine)
  else
    (store machine programHeader.virtAddr (List.replicate (segmentSize programHeader) 0)).bind fun cleared =>
      let read := ramfsRead memory sought.2 (segmentSize programHeader)
      (store cleared programHeader.virtAddr read.1).map fun filled =>
        (if read.1.length ≠ segmentSize programHeader then none else some read.2, filled)

/-- A segment that is not to be written is protected: the file, if that succeeds. -/
def protectSegment (machine : Machine) (file : File) (programHeader : ElfPhdr) : Option File × Machine :=
  if programHeader.flags &&& pfWrite = 0 then
    let changed := vmmProtect machine.space programHeader.virtAddr (segmentSize programHeader) protRead
    (if changed.1.isOk then some file else none, { machine with space := changed.2 })
  else (some file, machine)

/-- The `PT_LOAD` case of the loop of `loader_load_program`: the file, if the loop goes on. -/
def loadSegment (memory : Memory) (fuel : Nat) (machine : Machine) (file : File) (programHeader : ElfPhdr) :
    Option (Option File × Machine) :=
  (vmmAlloc fuel machine.space programHeader.virtAddr (segmentSize programHeader) (protRead ||| protWrite)).bind
    fun allocated =>
      let machine := { machine with space := allocated.2 }
      if pointer allocated.1 = 0 then some (none, machine)
      else (fillSegment memory machine file programHeader).map fun filled =>
        match filled.1 with
        | none => (none, filled.2)
        | some file => protectSegment filled.2 file programHeader

end Model

section Regions

/-- A page has a byte of a segment on it. -/
def Occupies (programHeader : ElfPhdr) (page : Nat) : Prop :=
  ∃ byte, programHeader.virtAddr ≤ byte ∧ byte < programHeader.virtAddr + programHeader.memorySize ∧
    byte / pageSize = page

/-- A segment whose size in the file is not larger than the one in memory, in the lower half. -/
structure LowerSegment (programHeader : ElfPhdr) : Prop where
  sizes : programHeader.fileSize ≤ programHeader.memorySize
  lower : programHeader.virtAddr + programHeader.memorySize ≤ vmmLowerHalfMax

/-- Such a segment takes its size in memory. -/
theorem LowerSegment.size {programHeader : ElfPhdr} (low : LowerSegment programHeader) :
    segmentSize programHeader = programHeader.memorySize := Nat.max_eq_left low.sizes

/-- The number of pages of a region of the lower half. -/
theorem requestPages_lower {virtAddr length : Nat} (lower : virtAddr + length ≤ vmmLowerHalfMax) :
    requestPages virtAddr length = (virtAddr % pageSize + length + (pageSize - 1)) / pageSize := by
  simp only [requestPages, vmmAlignRegion, sizeInPages, roundDown, add, sub, pageSize, wordSize, vmmLowerHalfMax] at *
  omega

/-- The page of an address of the lower half. -/
theorem pageNumber_lower {address : Nat} (lower : address ≤ vmmLowerHalfMax) :
    pageNumber address = address / pageSize := by
  simp only [pageNumber, pageSize, vmmLowerHalfMax] at *
  omega

/-- A region of the lower half does not wrap around. -/
theorem region_inside {virtAddr length : Nat} (lower : virtAddr + length ≤ vmmLowerHalfMax) :
    pageNumber virtAddr + requestPages virtAddr length ≤ pageCount := by
  rw [requestPages_lower lower, pageNumber_lower (by omega)]
  simp only [pageSize, pageCount, vmmLowerHalfMax] at *
  omega

/-- The page of a byte of a region of the lower half. -/
theorem region_page {virtAddr length byte : Nat} (lower : virtAddr + length ≤ vmmLowerHalfMax)
    (above : virtAddr ≤ byte) (below : byte < virtAddr + length) :
    pageNumber virtAddr ≤ byte / pageSize ∧ byte / pageSize < pageNumber virtAddr + requestPages virtAddr length := by
  rw [requestPages_lower lower, pageNumber_lower (by omega)]
  simp only [pageSize]
  omega

/-- A segment occupies the pages of its region. -/
theorem LowerSegment.occupies_iff {programHeader : ElfPhdr} (low : LowerSegment programHeader)
    (positive : 1 ≤ programHeader.memorySize) (page : Nat) :
    Occupies programHeader page ↔ pageNumber programHeader.virtAddr ≤ page ∧
      page < pageNumber programHeader.virtAddr + requestPages programHeader.virtAddr programHeader.memorySize := by
  have lower := low.lower
  constructor
  · rintro ⟨byte, above, below, rfl⟩
    exact region_page lower above below
  · rw [requestPages_lower lower, pageNumber_lower (by omega)]
    simp only [Occupies, pageSize]
    rintro ⟨above, below⟩
    exact ⟨max programHeader.virtAddr (page * 0x1000), by omega, by omega, by omega⟩

/-- The page of a byte of the lower half. -/
theorem page_lower {byte : Nat} (lower : byte < vmmLowerHalfMax) : byte / pageSize < lowerPages := by
  simp only [pageSize, lowerPages, vmmLowerHalfMax] at *
  omega

/-- `vmm_alloc` gives frames to a region of the lower half that is not mapped. -/
theorem vmmAlloc_given {space : Space} (sound : Sound space.memory space.pml) {virtAddr length : Nat} (fuel : Nat)
    (positive : 1 ≤ length) (addressed : virtAddr ≠ 0) (lower : virtAddr + length ≤ vmmLowerHalfMax)
    (free : ∀ page, pageNumber virtAddr ≤ page → page < pageNumber virtAddr + requestPages virtAddr length →
      mapping space page = none)
    (supplied : 4 * requestPages virtAddr length ≤ space.memory.supply.length) :
    ∃ next given, vmmAlloc fuel space virtAddr length (protRead ||| protWrite) =
        some (.ok (roundDown virtAddr pageSize), { space with memory := next }) ∧
      Given space.memory next space.pml ((pageWrite ||| pageUser) ||| pageOwned) (pageNumber virtAddr)
        (requestPages virtAddr length) given := by
  have inside := region_inside lower
  have present : 0 < requestPages virtAddr length := by
    rw [requestPages_lower lower]
    simp only [pageSize]
    omega
  have unmapped : pmlMapped space.memory.tables space.pml (roundDown virtAddr pageSize)
      (requestPages virtAddr length) = false := by
    rw [Bool.eq_false_iff]
    intro mapped
    have first := (mapped_iff space.pml _ _ sound.tree).mp mapped 0 present
    have unfilled := free (pageNumber virtAddr) (Nat.le_refl _) (by omega)
    rw [page_roundDown, Nat.add_zero, Nat.mod_eq_of_lt (page_lt virtAddr)] at first
    rw [mapping] at unfilled
    rw [unfilled] at first
    cases first
  obtain ⟨next, taken⟩ := Option.isSome_iff_exists.mp (@allocPages_total space.pml
    (roundDown virtAddr pageSize) ((pageWrite ||| pageUser) ||| pageOwned) space.memory 0 _ supplied)
  have here := page_roundDown virtAddr
  obtain ⟨given, effect⟩ := allocPages_given (by decide) 0 _ sound (by rw [here, Nat.add_zero]; exact inside) taken
  rw [here, Nat.add_zero] at effect
  refine ⟨next, given, ?_, effect⟩
  rw [vmmAlloc_eq fuel space virtAddr length _ (pageWrite ||| pageUser) positive (by decide), serveRequest,
    chooseRegion, if_neg addressed]
  rw [Option.bind_eq_bind, Option.bind_some]
  dsimp only
  rw [unmapped, if_neg Bool.false_ne_true, taken]
  rfl

/-- Changing flags takes no page. -/
theorem changeFlags_supply (pml : Pml) (table virtAddr pageAmount flags : Nat) :
    (pmlChangeFlags pml table virtAddr pageAmount flags).supply = pml.supply := by
  induction pageAmount generalizing pml virtAddr with
  | zero => rfl
  | succ pageAmount ih =>
    rw [pmlChangeFlags, ih]
    rfl

/-- `vmm_protect` keeps the frames of a mapped region of the lower half, and changes the flags. -/
theorem vmmProtect_region {space : Space} (sound : Sound space.memory space.pml) {virtAddr length prot flags : Nat}
    (readable : vmmProtToFlags prot = some flags) (lower : virtAddr + length ≤ vmmLowerHalfMax)
    (mapped : ∀ page, pageNumber virtAddr ≤ page → page < pageNumber virtAddr + requestPages virtAddr length →
      (mapping space page).isSome) :
    ∃ next, vmmProtect space virtAddr length prot = (.ok (), { space with memory := next }) ∧
      Sound next space.pml ∧ next.supply = space.memory.supply ∧
      (∀ page, pageNumber virtAddr ≤ page → page < pageNumber virtAddr + requestPages virtAddr length →
        translation next.tables space.pml page =
          (mapping space page).map fun found => (found.1, protectFlags flags found.2)) ∧
      ∀ page, ¬(pageNumber virtAddr ≤ page ∧ page < pageNumber virtAddr + requestPages virtAddr length) →
        translation next.tables space.pml page = mapping space page := by
  have inside := region_inside lower
  have here := page_roundDown virtAddr
  have run : RunMapped (mapping space) (pageNumber (roundDown virtAddr pageSize)) (requestPages virtAddr length) := by
    intro position less
    rw [here, Nat.mod_eq_of_lt (by omega)]
    exact mapped _ (by omega) (by omega)
  obtain ⟨changedSound, changed⟩ := changeFlags_rewrites space.memory space.pml (roundDown virtAddr pageSize)
    (requestPages virtAddr length) flags sound (protToFlags_small readable) run
  rw [here] at changed
  have visited := (mapped_iff space.pml (roundDown virtAddr pageSize)
    (requestPages virtAddr length) sound.tree).mpr run
  refine ⟨pmlChangeFlags space.memory space.pml (roundDown virtAddr pageSize) (requestPages virtAddr length) flags,
    ?_, changedSound, changeFlags_supply _ _ _ _ _, ?_, ?_⟩
  · rw [requestPages] at visited
    rw [vmmProtect, readable]
    dsimp only
    rw [vmmAlignRegion] at visited ⊢
    dsimp only at visited ⊢
    rw [if_pos visited]
    rfl
  · intro page above below
    rw [changed, rewrite_interval _ _ _ _ _ _ inside, if_pos ⟨above, below⟩]
    rfl
  · intro page outside
    rw [changed, rewrite_interval _ _ _ _ _ _ inside, if_neg outside]
    rfl

end Regions

section Stores

/-- The cell of a byte of a region whose pages were given frames. -/
def cellOf (given : Nat → Nat) (byte : Nat) : Nat × Nat := (frameOf (given (byte / pageSize)), byte % pageSize)

/-- Where a byte of the lower half is. -/
theorem place_lower (space : Space) {byte : Nat} (lower : byte < vmmLowerHalfMax) :
    place space byte = (mapping space (byte / pageSize)).map fun found => (found.1, byte % pageSize) := by
  have canonical : Canonical (byte % wordSize) := by
    left
    simp only [wordSize, vmmLowerHalfMax] at *
    omega
  rw [place, if_pos canonical, pageNumber_lower (Nat.le_of_lt lower)]

/-- The bytes of a region whose pages were given frames have cells of their own. -/
theorem placed_region {space : Space} (sound : Sound space.memory space.pml) {next : Pml} {flags virtAddr length : Nat}
    (lower : virtAddr + length ≤ vmmLowerHalfMax) {given : Nat → Nat}
    (effect : Given space.memory next space.pml flags (pageNumber virtAddr) (requestPages virtAddr length) given) :
    Placed (place { space with memory := next }) (cellOf given) virtAddr length := by
  constructor
  · intro position above below
    obtain ⟨pageAbove, pageBelow⟩ := region_page lower above below
    have mapped := effect.mapped _ pageAbove pageBelow
    rw [place_lower _ (by omega), mapping, mapped]
    rfl
  · intro first second firstAbove firstBelow secondAbove secondBelow same
    obtain ⟨firstLow, firstHigh⟩ := region_page lower firstAbove firstBelow
    obtain ⟨secondLow, secondHigh⟩ := region_page lower secondAbove secondBelow
    obtain ⟨sameFrame, sameOffset⟩ := Prod.mk.inj same
    have higher := sound.fresh.pages
    have sameGiven := frameOf_inj (higher _ (effect.supplied _ firstLow firstHigh).1)
      (higher _ (effect.supplied _ secondLow secondHigh).1) sameFrame
    have samePage := effect.apart _ _ firstLow firstHigh secondLow secondHigh sameGiven
    simp only [pageSize] at samePage sameOffset
    omega

/-- A store at bytes with cells of their own succeeds. Each of the cells holds its value, and
the others are as before. -/
theorem store_exact {machine : Machine} {cell : Nat → Nat × Nat} {address : Nat} {values : List UInt8}
    (addressed : address ≠ 0) (placed : Placed (place machine.space) cell address values.length) :
    ∃ frames, store machine address values = some { machine with frames := frames } ∧
      (∀ offset, ∀ (inside : offset < values.length), frames (cell (address + offset)) = values[offset]) ∧
      ∀ tested, (∀ offset < values.length, tested ≠ cell (address + offset)) →
        frames tested = machine.frames tested := by
  obtain ⟨frames, written, holds, others⟩ := write_exact machine.frames values placed
  exact ⟨frames, by rw [store, if_neg addressed, written, Option.map_some], holds, others⟩

/-- Nothing is stored through `NULL`. -/
theorem store_addressed {machine after : Machine} {address : Nat} {values : List UInt8}
    (stored : store machine address values = some after) : address ≠ 0 := by
  rintro rfl
  rw [store, if_pos rfl] at stored
  cases stored

end Stores

section Turns

/-- The bytes of a file of the ram disk. -/
def fileBytes (memory : Memory) (file : File) : List UInt8 :=
  (List.range (memory.ramFiles file.privateAddress).size).map
    (memory.blocks (memory.ramFiles file.privateAddress).data)

/-- A segment that the loader takes: it is not empty, it does not start on the first page, and
the file goes on for its size in memory. -/
structure Loadable (bytes : List UInt8) (programHeader : ElfPhdr) : Prop where
  nonempty : 1 ≤ programHeader.memorySize
  addressed : pageSize ≤ programHeader.virtAddr
  inFile : programHeader.offset + programHeader.memorySize ≤ bytes.length

/-- The bytes of a segment are those of the file, and its pages are writable as it says. -/
structure Copied (bytes : List UInt8) (programHeader : ElfPhdr) (machine : Machine) : Prop where
  content : ∀ offset < programHeader.memorySize,
    byteAt machine (programHeader.virtAddr + offset) = bytes[programHeader.offset + offset]?
  pages : ∀ page, Occupies programHeader page → ∃ frame flags, mapping machine.space page = some (frame, flags) ∧
    (flags &&& pageWrite ≠ 0 ↔ programHeader.flags &&& pfWrite ≠ 0)

/-- The effect of a turn that goes on. -/
structure Loads (bytes : List UInt8) (programHeader : ElfPhdr) (before after : Machine) : Prop where
  sound : Sound after.space.memory after.space.pml
  root : after.space.pml = before.space.pml
  taken : Taken before.space.memory.supply after.space.memory.supply
    (4 * requestPages programHeader.virtAddr programHeader.memorySize)
  copied : Copied bytes programHeader after
  spent : ∀ page, Occupies programHeader page → ∀ frame flags, mapping after.space page = some (frame, flags) →
    ¬Stock after.space.memory.supply frame
  others : ∀ page, ¬Occupies programHeader page → mapping after.space page = mapping before.space page
  kept : ∀ cell : Nat × Nat, ¬Stock before.space.memory.supply cell.1 → after.frames cell = before.frames cell

/-- A seek from the start returns the offset. -/
theorem seekSet_position (memory : Memory) (file : File) (offset : Nat) :
    (ramfsSeek memory file offset .seekSet).1 = offset := rfl

/-- What is read after a seek. -/
theorem seek_read (memory : Memory) (file : File) (offset count : Nat) :
    (ramfsRead memory (ramfsSeek memory file offset .seekSet).2 count).1 =
        ((fileBytes memory file).drop offset).take count ∧
      (ramfsRead memory (ramfsSeek memory file offset .seekSet).2 count).2.privateAddress = file.privateAddress := by
  have length : (fileBytes memory file).length = (memory.ramFiles file.privateAddress).size := by
    rw [fileBytes, List.length_map, List.length_range]
  obtain ⟨read, _, _, same⟩ := @ramfsRead_eq memory (ramfsSeek memory file offset .seekSet).2 (fileBytes memory file)
    rfl (by rw [length]; exact Nat.min_le_right _ _) count
  refine ⟨?_, same⟩
  rw [read]
  change ((fileBytes memory file).drop (min offset _)).take count = _
  rw [← length]
  rcases Nat.le_total offset (fileBytes memory file).length with short | long
  · rw [Nat.min_eq_left short]
  · rw [Nat.min_eq_right long, List.drop_length, List.drop_eq_nil_of_le long]

/-- `vmm_alloc` at an address does not return `NULL` if the length is not zero and the address
is not on the first page. -/
theorem vmmAlloc_pointer {fuel virtAddr length prot : Nat} {space next : Space}
    {answer : Except VirtualMemory.Errno Nat}
    (taken : vmmAlloc fuel space virtAddr length prot = some (answer, next)) (addressed : virtAddr ≠ 0)
    (found : pointer answer ≠ 0) : 1 ≤ length ∧ pageSize ≤ virtAddr := by
  rw [vmmAlloc] at taken
  split at taken
  · obtain ⟨rfl, -⟩ := Prod.mk.inj (Option.some.inj taken)
    exact absurd rfl found
  · next positive =>
    split at taken
    · obtain ⟨rfl, -⟩ := Prod.mk.inj (Option.some.inj taken)
      exact absurd rfl found
    · rw [chooseRegion, if_neg addressed, Option.bind_eq_bind, Option.bind_some] at taken
      dsimp only at taken
      split at taken
      · obtain ⟨rfl, -⟩ := Prod.mk.inj (Option.some.inj taken)
        exact absurd rfl found
      · obtain ⟨memory, _, same⟩ := Option.bind_eq_some_iff.mp taken
        obtain ⟨rfl, -⟩ := Prod.mk.inj (Option.some.inj same)
        refine ⟨Nat.one_le_iff_ne_zero.mpr positive, ?_⟩
        by_contra small
        apply found
        simp only [pointer, vmmAlignRegion, roundDown, Nat.div_eq_of_lt (Nat.lt_of_not_le small), Nat.zero_mul]

/-- A segment is filled only if its address is not `NULL` and the file goes on for its size. -/
theorem fillSegment_inFile {memory : Memory} {machine after : Machine} {file read : File} {programHeader : ElfPhdr}
    (low : LowerSegment programHeader)
    (filled : fillSegment memory machine file programHeader = some (some read, after)) :
    programHeader.virtAddr ≠ 0 ∧
      programHeader.memorySize ≤ (fileBytes memory file).length - programHeader.offset := by
  rw [fillSegment, low.size] at filled
  dsimp only at filled
  rw [if_neg (not_not_intro (seekSet_position memory file _))] at filled
  obtain ⟨cleared, clearing, filled⟩ := Option.bind_eq_some_iff.mp filled
  obtain ⟨last, _, same⟩ := Option.map_eq_some_iff.mp filled
  have complete := (Prod.mk.inj same).1
  refine ⟨store_addressed clearing, ?_⟩
  by_contra short
  rw [if_pos] at complete
  · cases complete
  · rw [(seek_read memory file _ _).1, List.length_take, List.length_drop]
    omega

/-- A turn that goes on had a segment that the loader takes. -/
theorem loadSegment_loadable {memory : Memory} {fuel : Nat} {machine after : Machine} {file read : File}
    {programHeader : ElfPhdr} (low : LowerSegment programHeader)
    (loaded : loadSegment memory fuel machine file programHeader = some (some read, after)) :
    Loadable (fileBytes memory file) programHeader := by
  rw [loadSegment, Option.bind_eq_some_iff] at loaded
  obtain ⟨allocated, taken, loaded⟩ := loaded
  dsimp only at loaded
  by_cases null : pointer allocated.1 = 0
  · rw [if_pos null] at loaded
    cases (Prod.mk.inj (Option.some.inj loaded)).1
  · rw [if_neg null] at loaded
    obtain ⟨⟨went, filled⟩, filling, same⟩ := Option.map_eq_some_iff.mp loaded
    cases went with
    | none => cases (Prod.mk.inj same).1
    | some next =>
      obtain ⟨address, inFile⟩ := fillSegment_inFile low filling
      rw [low.size] at taken
      obtain ⟨positive, addressed⟩ := vmmAlloc_pointer taken address null
      exact ⟨positive, addressed, by omega⟩

/-- What a turn has made of its segment, from what was allocated and stored, when the last
tables still have the frames that were given. -/
theorem loads_of_given {bytes : List UInt8} {programHeader : ElfPhdr} (low : LowerSegment programHeader)
    (loadable : Loadable bytes programHeader) {machine : Machine} (sound : Sound machine.space.memory machine.space.pml)
    {next last : Pml} {given : Nat → Nat} {flags : Nat} {frames : Nat × Nat → UInt8}
    (effect : Given machine.space.memory next machine.space.pml flags (pageNumber programHeader.virtAddr)
      (requestPages programHeader.virtAddr programHeader.memorySize) given)
    (holds : ∀ offset < programHeader.memorySize,
      some (frames (cellOf given (programHeader.virtAddr + offset))) = bytes[programHeader.offset + offset]?)
    (kept : ∀ tested, (∀ offset < programHeader.memorySize, tested ≠ cellOf given (programHeader.virtAddr + offset)) →
      frames tested = machine.frames tested)
    (lastSound : Sound last machine.space.pml) (supply : last.supply = next.supply)
    (inside : ∀ page, Occupies programHeader page → ∃ changed,
      translation last.tables machine.space.pml page = some (frameOf (given page), changed) ∧
        (changed &&& pageWrite ≠ 0 ↔ programHeader.flags &&& pfWrite ≠ 0))
    (outside : ∀ page, ¬Occupies programHeader page →
      translation last.tables machine.space.pml page = translation next.tables machine.space.pml page) :
    Loads bytes programHeader machine ⟨{ machine.space with memory := last }, frames⟩ := by
  have occupies := low.occupies_iff loadable.nonempty
  have lower := low.lower
  refine ⟨lastSound, rfl, ?_, ⟨?_, ?_⟩, ?_, ?_, ?_⟩
  · rw [supply]
    exact effect.taken
  · intro offset less
    obtain ⟨changed, mapped, _⟩ := inside ((programHeader.virtAddr + offset) / pageSize)
      ⟨_, Nat.le_add_right _ _, by omega, rfl⟩
    rw [byteAt, place_lower _ (by omega), mapping, mapped]
    exact holds offset less
  · intro page occupied
    obtain ⟨changed, mapped, writable⟩ := inside page occupied
    exact ⟨_, changed, mapped, writable⟩
  · rintro page occupied frame flags mapped ⟨again, member, same⟩
    obtain ⟨above, below⟩ := (occupies page).mp occupied
    obtain ⟨changed, here, _⟩ := inside page occupied
    obtain ⟨old, gone⟩ := effect.supplied page above below
    rw [mapping, here, Option.some.injEq, Prod.mk.injEq] at mapped
    rw [supply] at member
    have higher := sound.fresh.pages
    have equal := frameOf_inj (higher again (effect.taken.left.subset member)) (higher _ old) (same.trans mapped.1.symm)
    exact gone (equal ▸ member)
  · intro page free
    rw [mapping, outside page free]
    exact effect.others page fun run => free ((occupies page).mpr run)
  · intro cell unstocked
    apply kept
    rintro offset less rfl
    obtain ⟨above, below⟩ := region_page lower (Nat.le_add_right programHeader.virtAddr offset) (by omega)
    exact unstocked ⟨_, (effect.supplied _ above below).1, rfl⟩

/-- A segment whose bytes have cells of their own is filled from the file. -/
theorem fillSegment_fills {memory : Memory} {machine : Machine} {file : File} {programHeader : ElfPhdr}
    (low : LowerSegment programHeader) (loadable : Loadable (fileBytes memory file) programHeader)
    {cell : Nat → Nat × Nat}
    (placed : Placed (place machine.space) cell programHeader.virtAddr programHeader.memorySize) :
    ∃ read frames, fillSegment memory machine file programHeader =
        some (some read, { machine with frames := frames }) ∧ read.privateAddress = file.privateAddress ∧
      (∀ offset < programHeader.memorySize, some (frames (cell (programHeader.virtAddr + offset))) =
        (fileBytes memory file)[programHeader.offset + offset]?) ∧
      ∀ tested, (∀ offset < programHeader.memorySize, tested ≠ cell (programHeader.virtAddr + offset)) →
        frames tested = machine.frames tested := by
  have addressed : programHeader.virtAddr ≠ 0 := by
    have positive := loadable.addressed
    simp only [pageSize] at positive
    omega
  have inFile := loadable.inFile
  obtain ⟨reads, same⟩ := seek_read memory file programHeader.offset programHeader.memorySize
  generalize outcome : ramfsRead memory (ramfsSeek memory file programHeader.offset .seekSet).2
    programHeader.memorySize = read at reads same
  have length : read.1.length = programHeader.memorySize := by
    rw [reads, List.length_take, List.length_drop]
    omega
  obtain ⟨zeros, clearing, _, zerosKept⟩ := @store_exact machine cell programHeader.virtAddr
    (List.replicate programHeader.memorySize 0) addressed (by rw [List.length_replicate]; exact placed)
  obtain ⟨frames, filling, holds, kept⟩ := @store_exact { machine with frames := zeros } cell
    programHeader.virtAddr read.1 addressed (by rw [length]; exact placed)
  refine ⟨read.2, frames, ?_, same, ?_, ?_⟩
  · rw [fillSegment, low.size]
    dsimp only
    rw [if_neg (not_not_intro (seekSet_position memory file _)), clearing, Option.bind_some, outcome, filling,
      Option.map_some, if_neg (not_not_intro length)]
  · intro offset less
    rw [holds offset (by omega), ← List.getElem?_eq_getElem, reads, List.getElem?_take_of_lt less, List.getElem?_drop]
  · intro tested outside
    rw [kept tested fun offset less => outside offset (by omega)]
    exact zerosKept tested fun offset less => outside offset (by rwa [List.length_replicate] at less)

/-- A turn with a segment that the loader takes goes on. -/
theorem loadSegment_loads {memory : Memory} {machine : Machine} {file : File} {programHeader : ElfPhdr} (fuel : Nat)
    (low : LowerSegment programHeader) (loadable : Loadable (fileBytes memory file) programHeader)
    (sound : Sound machine.space.memory machine.space.pml)
    (free : ∀ page, Occupies programHeader page → mapping machine.space page = none)
    (supplied : 4 * requestPages programHeader.virtAddr programHeader.memorySize ≤
      machine.space.memory.supply.length) :
    ∃ read after, loadSegment memory fuel machine file programHeader = some (some read, after) ∧
      read.privateAddress = file.privateAddress ∧ Loads (fileBytes memory file) programHeader machine after := by
  have occupies := low.occupies_iff loadable.nonempty
  have lower := low.lower
  have positive := loadable.addressed
  have addressed : programHeader.virtAddr ≠ 0 := by
    simp only [pageSize] at positive
    omega
  have found : pointer (.ok (roundDown programHeader.virtAddr pageSize)) ≠ 0 := by
    simp only [pointer, roundDown, pageSize] at *
    omega
  obtain ⟨next, given, allocated, effect⟩ := vmmAlloc_given sound fuel loadable.nonempty addressed lower
    (fun page above below => free page ((occupies page).mpr ⟨above, below⟩)) supplied
  obtain ⟨read, frames, filling, same, holds, kept⟩ := @fillSegment_fills memory
    ⟨{ machine.space with memory := next }, machine.frames⟩ file programHeader low loadable _
    (placed_region sound lower effect)
  have turn : loadSegment memory fuel machine file programHeader =
      some (protectSegment ⟨{ machine.space with memory := next }, frames⟩ read programHeader) := by
    rw [loadSegment, low.size, allocated, Option.bind_some]
    dsimp only
    rw [if_neg found, filling, Option.map_some]
  rw [turn, protectSegment, low.size]
  by_cases readOnly : programHeader.flags &&& pfWrite = 0
  · obtain ⟨last, changed, lastSound, supply, inside, outside⟩ := @vmmProtect_region
      { machine.space with memory := next } effect.sound programHeader.virtAddr programHeader.memorySize protRead
      pageUser (by decide) lower fun page above below => by
        rw [mapping, effect.mapped page above below]
        rfl
    rw [if_pos readOnly, changed]
    refine ⟨read, _, rfl, same, loads_of_given low loadable sound effect holds kept lastSound supply ?_ ?_⟩
    · intro page occupied
      obtain ⟨above, below⟩ := (occupies page).mp occupied
      refine ⟨_, by rw [inside page above below, mapping, effect.mapped page above below, Option.map_some], ?_⟩
      have fixed : protectFlags pageUser ((pageWrite ||| pageUser ||| pageOwned) ||| pagePresent) &&&
          pageWrite = 0 := by decide
      exact iff_of_false (not_not_intro fixed) (not_not_intro readOnly)
    · intro page unoccupied
      exact outside page fun run => unoccupied ((occupies page).mpr run)
  · rw [if_neg readOnly]
    refine ⟨read, _, rfl, same, loads_of_given low loadable sound effect holds kept effect.sound rfl ?_ fun _ _ => rfl⟩
    intro page occupied
    obtain ⟨above, below⟩ := (occupies page).mp occupied
    exact ⟨_, effect.mapped page above below, iff_of_true (by decide) readOnly⟩

end Turns

end Asym.SegmentLoads
