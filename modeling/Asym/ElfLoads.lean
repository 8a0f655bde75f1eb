import Asym.ProgramLoads
import Asym.SegmentLoads
import Mathlib.Algebra.BigOperators.Intervals
import Mathlib.Algebra.Order.BigOperators.Group.Finset

/-!
# Loading a program

A model of `loader_load_program` as a whole: the program is opened and the directory changed,
the header of the file is read, and one program header after the other. A program is a file of
the ram disk. A resource brings operations of its own, which are not part of the model, so there
is no result for one.

For a program whose segments lie in the lower half of an address space on pages of their own
that are not mapped, memory gets what the program headers say exactly if each segment is not
empty, does not start on the first page, and is followed in the file by as many zeros as it is
larger in memory. What the file has behind the segment is loaded with it, and the loader gives up
where the file ends.
-/

namespace Asym.ElfLoads

open MachineWords PhysicalMemory PageEntries PageTables PageTree PageRefinement VirtualMemory MappingRequests
open LinkedWalks SpaceLayout PageAccounting KernelHalf UserBuffers FrameSupplies SegmentLoads
open PathParser PathShapes PathLookup Ramfs

section Model

/-- `sizeof(elf_phdr_t)`. -/
def elfPhdrSize : Nat := 56

/-- A field of a structure in memory, of a width in bytes. -/
def field (bytes : List UInt8) (start width : Nat) : Nat :=
  ((bytes.drop start).take width).foldr (fun byte rest => byte.toNat + 256 * rest) 0

/-- The bytes of an `elf_hdr_t`. -/
def decodeHdr (bytes : List UInt8) : ElfHdr where
  ident := (bytes.take 16).map UInt8.toNat
  entry := field bytes 24 8
  programHeaderSize := field bytes 54 2
  programHeaderAmount := field bytes 56 2

/-- The bytes of an `elf_phdr_t`. -/
def decodePhdr (bytes : List UInt8) : ElfPhdr where
  type := field bytes 0 4
  flags := field bytes 4 4
  offset := field bytes 8 8
  virtAddr := field bytes 16 8
  fileSize := field bytes 32 8
  memorySize := field bytes 40 8

/-- The start of a turn of the loop of `loader_load_program`: the program header, if it can be
read, and the file. -/
def readProgramHeader (memory : Memory) (header : ElfHdr) (index : Nat) (file : File) : Option (ElfPhdr × File) :=
  let offset := add elfHdrSize (mul header.programHeaderSize index)
  let sought := ramfsSeek memory file offset .seekSet
  if sought.1 ≠ offset then none
  else
    let read := ramfsRead memory sought.2 elfPhdrSize
    if read.1.length ≠ elfPhdrSize then none else some (decodePhdr read.1, read.2)

/-- The loop of `loader_load_program` over the remaining program headers from an index on. `NULL`
is `none`, and is told apart from an entry point of zero. -/
def loadSegments (memory : Memory) (fuel : Nat) (header : ElfHdr) :
    Nat → Nat → File → Machine → Option (Option Nat × Machine)
  | 0, _, _, machine => some (some header.entry, machine)
  | remaining + 1, index, file, machine =>
      match readProgramHeader memory header index file with
      | none => some (none, machine)
      | some (programHeader, file) =>
          if programHeader.type = ptLoad then
            (loadSegment memory fuel machine file programHeader).bind fun turn =>
              match turn.1 with
              | none => some (none, turn.2)
              | some file => loadSegments memory fuel header remaining (index + 1) file turn.2
          else loadSegments memory fuel header remaining (index + 1) file machine

/-- `loader_load_program` from the reading of the header on. -/
def loadFile (memory : Memory) (fuel : Nat) (file : File) (machine : Machine) : Option (Option Nat × Machine) :=
  let read := ramfsRead memory file elfHdrSize
  if read.1.length ≠ elfHdrSize then some (none, machine)
  else
    let header := decodeHdr read.1
    if elfMagic header = false then some (none, machine)
    else loadSegments memory fuel header header.programHeaderAmount 0 read.2 machine

/-- `loader_load_program`. -/
def loaderLoadProgram (system : System) (fuel : Nat) (opening parentDir parsing status : Nat → UInt8)
    (argv0 : List UInt8) (machine : Machine) : Option (Option Nat × Machine) :=
  (ProgramLoads.loaderLoadProgram system opening parentDir parsing status argv0).bind fun opened =>
    match opened with
    | .error _ => some (none, machine)
    | .ok (file, _) =>
        match file.ops with
        | .ramfs => loadFile system.memory fuel file machine
        | .resource _ => none

end Model

section Images

/-- The header of a file. -/
def headerOf (bytes : List UInt8) : ElfHdr := decodeHdr (bytes.take elfHdrSize)

/-- A program header of a file, in the table behind the header. -/
def programHeaderAt (bytes : List UInt8) (index : Nat) : ElfPhdr :=
  decodePhdr ((bytes.drop (elfHdrSize + (headerOf bytes).programHeaderSize * index)).take elfPhdrSize)

/-- A file has a segment to load at an index. -/
def Segment (bytes : List UInt8) (index : Nat) : Prop :=
  index < (headerOf bytes).programHeaderAmount ∧ (programHeaderAt bytes index).type = ptLoad

/-- An ELF file. The header and the table of program headers behind it are complete. The
segments are not larger in the file than in memory, and lie in the file, in the lower half of an
address space, and on pages of their own. -/
structure Image (bytes : List UInt8) : Prop where
  header : elfHdrSize ≤ bytes.length
  magic : elfMagic (headerOf bytes) = true
  table : ∀ index < (headerOf bytes).programHeaderAmount,
    elfHdrSize + (headerOf bytes).programHeaderSize * index + elfPhdrSize ≤ bytes.length
  low : ∀ index, Segment bytes index → LowerSegment (programHeaderAt bytes index)
  inFile : ∀ index, Segment bytes index →
    (programHeaderAt bytes index).offset + (programHeaderAt bytes index).fileSize ≤ bytes.length
  apart : ∀ first second, Segment bytes first → Segment bytes second → first ≠ second → ∀ page,
    Occupies (programHeaderAt bytes first) page → ¬Occupies (programHeaderAt bytes second) page

/-- The number of pages that a program header asks for. -/
def loadPages (bytes : List UInt8) (index : Nat) : Nat :=
  if (programHeaderAt bytes index).type = ptLoad then
    requestPages (programHeaderAt bytes index).virtAddr (programHeaderAt bytes index).memorySize
  else 0

/-- No page of the lower half has a frame that the allocator is going to return. -/
def Unshared (space : Space) : Prop :=
  ∀ page < lowerPages, ∀ frame flags, mapping space page = some (frame, flags) → ¬Stock space.memory.supply frame

/-- An address space with room for the segments of a file: their pages are not mapped, and the
allocator has pages for them and for the tables. -/
structure Room (bytes : List UInt8) (space : Space) : Prop where
  sound : Sound space.memory space.pml
  unshared : Unshared space
  free : ∀ index, Segment bytes index → ∀ page, Occupies (programHeaderAt bytes index) page →
    mapping space page = none
  supplied : 4 * ∑ index ∈ Finset.range (headerOf bytes).programHeaderAmount, loadPages bytes index ≤
    space.memory.supply.length

/-- A page has a byte of a segment of a file on it. -/
def SegmentPage (bytes : List UInt8) (page : Nat) : Prop :=
  ∃ index, Segment bytes index ∧ Occupies (programHeaderAt bytes index) page

/-- The segments of a file are in memory: what the file has of them, and zeros behind it. Their
pages are writable as they say, and no other page has changed. -/
structure Loaded (bytes : List UInt8) (before after : Machine) : Prop where
  copied : ∀ index, Segment bytes index → ∀ offset < (programHeaderAt bytes index).fileSize,
    byteAt after ((programHeaderAt bytes index).virtAddr + offset) =
      bytes[(programHeaderAt bytes index).offset + offset]?
  cleared : ∀ index, Segment bytes index → ∀ offset, (programHeaderAt bytes index).fileSize ≤ offset →
    offset < (programHeaderAt bytes index).memorySize →
    byteAt after ((programHeaderAt bytes index).virtAddr + offset) = some 0
  pages : ∀ index, Segment bytes index → ∀ page, Occupies (programHeaderAt bytes index) page →
    ∃ frame flags, mapping after.space page = some (frame, flags) ∧
      (flags &&& pageWrite ≠ 0 ↔ (programHeaderAt bytes index).flags &&& pfWrite ≠ 0)
  others : ∀ page, ¬SegmentPage bytes page → mapping after.space page = mapping before.space page
  kept : ∀ byte < vmmLowerHalfMax, ¬SegmentPage bytes (byte / pageSize) → byteAt after byte = byteAt before byte

/-- A segment that the loader takes, and that the file continues with zeros where it is larger in
memory. -/
structure ZeroFilled (bytes : List UInt8) (programHeader : ElfPhdr) : Prop where
  loadable : Loadable bytes programHeader
  zeros : ∀ offset, programHeader.fileSize ≤ offset → offset < programHeader.memorySize →
    bytes[programHeader.offset + offset]? = some 0

end Images

section Rooms

/-- The frame of an entry is that of the page that the entry leads to. -/
theorem frameOf_entry {entry : Nat} (higher : HigherPage (pageEntryGetAddress entry)) :
    frameOf (pageEntryGetAddress entry) = entryFrame entry := by
  obtain ⟨_, low, high⟩ := higher
  rw [pageEntryGetAddress, entryFrame, physical_eq] at *
  simp only [frameOf, higherToLower, lowerToHigher, add, sub, pageSize, vmmHigherHalfBase, wordSize] at *
  omega

/-- In a well laid out address space the allocator has no page of the lower half, as all those are
owned. -/
theorem unshared_of_layout {space : Space} {kernel : Nat} (layout : Layout space.memory space.pml kernel)
    (exclusive : Exclusive (mapping space)) : Unshared space := by
  rintro page low frame flags mapped ⟨given, member, same⟩
  obtain ⟨table, place, _, read⟩ := translated_place (by
    rw [mapping] at mapped
    rw [mapped]
    rfl)
  have owning := exclusive page low frame flags mapped
  rw [mapping, read, Option.some.injEq, Prod.mk.injEq] at mapped
  obtain ⟨rfl, rfl⟩ := mapped
  rw [owned_flags] at owning
  have held : pageEntryGetAddress (space.memory.tables table (pageSlot page)) ∈
      spacePages space.memory.tables space.pml := frames_subset layout page table place ⟨owning, rfl⟩
  have higher := layout.higher _ held
  have equal := frameOf_inj (layout.stocked.higher given member) higher (same.trans (frameOf_entry higher).symm)
  exact (layout.stocked.unused given member).1 (equal ▸ held)

/-- A well laid out address space has room for the segments of a file if their pages are not
mapped and the allocator has enough. -/
theorem room_of_layout {bytes : List UInt8} {space : Space} {kernel : Nat}
    (layout : Layout space.memory space.pml kernel) (exclusive : Exclusive (mapping space))
    (free : ∀ index, Segment bytes index → ∀ page, Occupies (programHeaderAt bytes index) page →
      mapping space page = none)
    (supplied : 4 * ∑ index ∈ Finset.range (headerOf bytes).programHeaderAmount, loadPages bytes index ≤
      space.memory.supply.length) : Room bytes space :=
  ⟨layout.sound, unshared_of_layout layout exclusive, free, supplied⟩

end Rooms

section Headers

/-- A field is smaller than its width allows. -/
theorem field_lt (bytes : List UInt8) (start width : Nat) : field bytes start width < 256 ^ width := by
  have short : ((bytes.drop start).take width).length ≤ width := List.length_take_le _ _
  rw [field]
  generalize (bytes.drop start).take width = part at short
  induction part generalizing width with
  | nil => exact Nat.pow_pos (by decide)
  | cons byte rest ih =>
    cases width with
    | zero => cases short
    | succ width =>
      have later := ih width (Nat.le_of_succ_le_succ short)
      have small := byte.toNat_lt
      rw [List.foldr_cons, Nat.pow_succ]
      omega

/-- Files with one private address have the same bytes. -/
theorem fileBytes_same (memory : Memory) {file read : File} (same : read.privateAddress = file.privateAddress) :
    fileBytes memory read = fileBytes memory file := by
  rw [fileBytes, fileBytes, same]

/-- The program headers of an ELF file can be read. -/
theorem readProgramHeader_image {memory : Memory} {bytes : List UInt8} (image : Image bytes) {file : File}
    (stored : fileBytes memory file = bytes) {index : Nat} (inside : index < (headerOf bytes).programHeaderAmount) :
    ∃ read, readProgramHeader memory (headerOf bytes) index file = some (programHeaderAt bytes index, read) ∧
      fileBytes memory read = bytes := by
  have complete := image.table index inside
  have sizeSmall : (headerOf bytes).programHeaderSize < 2 ^ 16 := field_lt _ 54 2
  have amountSmall : (headerOf bytes).programHeaderAmount < 2 ^ 16 := field_lt _ 56 2
  have product : (headerOf bytes).programHeaderSize * index < 2 ^ 16 * 2 ^ 16 :=
    Nat.mul_lt_mul'' sizeSmall (Nat.lt_trans inside amountSmall)
  have offset : add elfHdrSize (mul (headerOf bytes).programHeaderSize index) =
      elfHdrSize + (headerOf bytes).programHeaderSize * index := by
    rw [mul, Nat.mod_eq_of_lt (Nat.lt_trans product (by decide)), add, Nat.mod_eq_of_lt]
    simp only [elfHdrSize, wordSize]
    omega
  obtain ⟨reads, same⟩ := seek_read memory file (elfHdrSize + (headerOf bytes).programHeaderSize * index) elfPhdrSize
  rw [stored] at reads
  refine ⟨_, ?_, (fileBytes_same memory same).trans stored⟩
  rw [readProgramHeader, offset]
  dsimp only
  rw [if_neg (not_not_intro (seekSet_position memory file _)), reads, if_neg, programHeaderAt]
  rw [not_not, List.length_take, List.length_drop]
  omega

end Headers

section Progress

variable {bytes : List UInt8} {before machine : Machine} {index : Nat}

/-- How far loading has come: the segments before an index are in memory. The other pages, and
what the allocator was not going to return, are as they were. -/
structure Progress (bytes : List UInt8) (before : Machine) (index : Nat) (machine : Machine) : Prop where
  sound : Sound machine.space.memory machine.space.pml
  unshared : Unshared machine.space
  taken : Taken before.space.memory.supply machine.space.memory.supply
    (4 * ∑ earlier ∈ Finset.range index, loadPages bytes earlier)
  copied : ∀ earlier < index, Segment bytes earlier → Copied bytes (programHeaderAt bytes earlier) machine
  others : ∀ page, (∀ earlier < index, Segment bytes earlier → ¬Occupies (programHeaderAt bytes earlier) page) →
    mapping machine.space page = mapping before.space page
  kept : ∀ cell : Nat × Nat, ¬Stock before.space.memory.supply cell.1 → machine.frames cell = before.frames cell

/-- Before the first turn nothing has changed. -/
theorem progress_start (room : Room bytes before.space) : Progress bytes before 0 before := by
  refine ⟨room.sound, room.unshared, ⟨List.suffix_refl _, Nat.le_add_right _ _⟩, ?_, fun _ _ => rfl, fun _ _ => rfl⟩
  intro earlier less
  exact absurd less (Nat.not_lt_zero earlier)

/-- A turn of another type changes nothing. -/
theorem Progress.skip (progress : Progress bytes before index machine)
    (other : (programHeaderAt bytes index).type ≠ ptLoad) : Progress bytes before (index + 1) machine := by
  have gone : ∀ earlier < index + 1, Segment bytes earlier → earlier < index := by
    intro earlier less segment
    rcases Nat.lt_succ_iff_lt_or_eq.mp less with smaller | rfl
    · exact smaller
    · exact absurd segment.2 other
  refine ⟨progress.sound, progress.unshared, ?_, ?_, ?_, progress.kept⟩
  · rw [Finset.sum_range_succ, loadPages, if_neg other]
    exact progress.taken
  · intro earlier less segment
    exact progress.copied earlier (gone earlier less segment) segment
  · intro page free
    exact progress.others page fun earlier less => free earlier (Nat.lt_succ_of_lt less)

/-- A byte of the lower half is left alone if its page is, and no frame was written but those
that the allocator was going to return. -/
theorem byteAt_kept {after : Machine} (unshared : Unshared before.space) {byte : Nat} (lower : byte < vmmLowerHalfMax)
    (same : mapping after.space (byte / pageSize) = mapping before.space (byte / pageSize))
    (kept : ∀ cell : Nat × Nat, ¬Stock before.space.memory.supply cell.1 → after.frames cell = before.frames cell) :
    byteAt after byte = byteAt before byte := by
  rw [byteAt, byteAt, place_lower _ lower, place_lower _ lower, same]
  cases mapped : mapping before.space (byte / pageSize) with
  | none => rfl
  | some found =>
    have unstocked := unshared _ (page_lower lower) found.1 found.2 mapped
    rw [Option.map_some, Option.map_some, Option.map_some, kept (found.1, byte % pageSize) unstocked]

/-- A turn leaves a segment on other pages in memory. -/
theorem copied_kept {after : Machine} {earlier programHeader : ElfPhdr} (unshared : Unshared machine.space)
    (low : LowerSegment earlier) (copied : Copied bytes earlier machine)
    (loads : Loads bytes programHeader machine after)
    (apart : ∀ page, Occupies earlier page → ¬Occupies programHeader page) : Copied bytes earlier after := by
  have lower := low.lower
  refine ⟨?_, ?_⟩
  · intro offset less
    have occupied : Occupies earlier ((earlier.virtAddr + offset) / pageSize) :=
      ⟨_, Nat.le_add_right _ _, by omega, rfl⟩
    rw [byteAt_kept unshared (by omega) (loads.others _ (apart _ occupied)) loads.kept]
    exact copied.content offset less
  · intro page occupied
    rw [loads.others page (apart page occupied)]
    exact copied.pages page occupied

/-- A turn that loads a segment. -/
theorem Progress.load {after : Machine} (image : Image bytes) (progress : Progress bytes before index machine)
    (segment : Segment bytes index) (loads : Loads bytes (programHeaderAt bytes index) machine after) :
    Progress bytes before (index + 1) after := by
  refine ⟨loads.sound, ?_, ?_, ?_, ?_, ?_⟩
  · intro page low frame flags mapped
    by_cases occupied : Occupies (programHeaderAt bytes index) page
    · exact loads.spent page occupied frame flags mapped
    · rw [loads.others page occupied] at mapped
      rintro ⟨given, member, same⟩
      exact progress.unshared page low frame flags mapped ⟨given, loads.taken.left.subset member, same⟩
  · rw [Finset.sum_range_succ, Nat.mul_add, loadPages, if_pos segment.2]
    exact progress.taken.trans loads.taken
  · intro earlier less earlierSegment
    rcases Nat.lt_succ_iff_lt_or_eq.mp less with smaller | rfl
    · exact copied_kept progress.unshared (image.low earlier earlierSegment)
        (progress.copied earlier smaller earlierSegment) loads
        (image.apart earlier index earlierSegment segment (Nat.ne_of_lt smaller))
    · exact loads.copied
  · intro page free
    rw [loads.others page (free index (Nat.lt_succ_self index) segment)]
    exact progress.others page fun earlier less => free earlier (Nat.lt_succ_of_lt less)
  · intro cell unstocked
    have still : ¬Stock machine.space.memory.supply cell.1 := by
      rintro ⟨given, member, same⟩
      exact unstocked ⟨given, progress.taken.left.subset member, same⟩
    rw [loads.kept cell still, progress.kept cell unstocked]

end Progress

section Runs

variable {memory : Memory} {bytes : List UInt8} {before machine : Machine} {file : File}

/-- A turn with a segment that the loader takes. -/
theorem load_turn (fuel : Nat) (image : Image bytes) (room : Room bytes before.space) {index : Nat}
    (segment : Segment bytes index) (stored : fileBytes memory file = bytes)
    (progress : Progress bytes before index machine) (loadable : Loadable bytes (programHeaderAt bytes index)) :
    ∃ read next, loadSegment memory fuel machine file (programHeaderAt bytes index) = some (some read, next) ∧
      fileBytes memory read = bytes ∧ Progress bytes before (index + 1) next := by
  have free : ∀ page, Occupies (programHeaderAt bytes index) page → mapping machine.space page = none := by
    intro page occupied
    rw [progress.others page fun earlier less earlierSegment earlierOccupied =>
      image.apart earlier index earlierSegment segment (Nat.ne_of_lt less) page earlierOccupied occupied]
    exact room.free index segment page occupied
  have supplied : 4 * requestPages (programHeaderAt bytes index).virtAddr (programHeaderAt bytes index).memorySize ≤
      machine.space.memory.supply.length := by
    have most := progress.taken.most
    have all := room.supplied
    have part : ∑ earlier ∈ Finset.range (index + 1), loadPages bytes earlier ≤
        ∑ earlier ∈ Finset.range (headerOf bytes).programHeaderAmount, loadPages bytes earlier :=
      Finset.sum_le_sum_of_subset (Finset.range_mono segment.1)
    rw [Finset.sum_range_succ, loadPages, if_pos segment.2] at part
    omega
  obtain ⟨read, next, turn, same, loads⟩ := loadSegment_loads fuel (image.low index segment)
    (by rw [stored]; exact loadable) progress.sound free supplied
  rw [stored] at loads
  exact ⟨read, next, turn, (fileBytes_same memory same).trans stored, progress.load image segment loads⟩

/-- A run that comes to its end has taken all segments. The induction is on the program headers
that remain. -/
theorem loadSegments_loadable {fuel : Nat} (image : Image bytes) (room : Room bytes before.space) (remaining : Nat)
    {index entry : Nat} {after : Machine} (total : index + remaining = (headerOf bytes).programHeaderAmount)
    (stored : fileBytes memory file = bytes) (progress : Progress bytes before index machine)
    (finished : loadSegments memory fuel (headerOf bytes) remaining index file machine = some (some entry, after)) :
    Progress bytes before (headerOf bytes).programHeaderAmount after ∧
      ∀ later, index ≤ later → Segment bytes later → Loadable bytes (programHeaderAt bytes later) := by
  induction remaining generalizing index file machine with
  | zero =>
    obtain ⟨-, rfl⟩ := Prod.mk.inj (Option.some.inj finished)
    rw [Nat.add_zero] at total
    subst total
    exact ⟨progress, fun later beyond segment => absurd segment.1 (Nat.not_lt_of_le beyond)⟩
  | succ remaining ih =>
    obtain ⟨read, header, same⟩ := @readProgramHeader_image memory bytes image file stored index (by omega)
    rw [loadSegments, header] at finished
    dsimp only at finished
    by_cases type : (programHeaderAt bytes index).type = ptLoad
    · have segment : Segment bytes index := ⟨by omega, type⟩
      rw [if_pos type, Option.bind_eq_some_iff] at finished
      obtain ⟨⟨went, next⟩, turn, rest⟩ := finished
      cases went with
      | none => cases (Prod.mk.inj (Option.some.inj rest)).1
      | some went =>
        have loadable := loadSegment_loadable (image.low index segment) turn
        rw [same] at loadable
        obtain ⟨read, last, again, kept, further⟩ := load_turn fuel image room segment same progress loadable
        rw [turn, Option.some.injEq, Prod.mk.injEq, Option.some.injEq] at again
        obtain ⟨rfl, rfl⟩ := again
        obtain ⟨done, others⟩ := ih (by omega) kept further rest
        refine ⟨done, fun later above laterSegment => ?_⟩
        rcases Nat.eq_or_lt_of_le above with rfl | beyond
        · exact loadable
        · exact others later beyond laterSegment
    · rw [if_neg type] at finished
      obtain ⟨done, others⟩ := ih (by omega) same (progress.skip type) finished
      refine ⟨done, fun later above laterSegment => ?_⟩
      rcases Nat.eq_or_lt_of_le above with rfl | beyond
      · exact absurd laterSegment.2 type
      · exact others later beyond laterSegment

/-- A run over segments that the loader takes comes to its end. The induction is on the program
headers that remain. -/
theorem loadSegments_finishes (fuel : Nat) (image : Image bytes) (room : Room bytes before.space) (remaining : Nat)
    {index : Nat} (total : index + remaining = (headerOf bytes).programHeaderAmount)
    (stored : fileBytes memory file = bytes) (progress : Progress bytes before index machine)
    (loadable : ∀ later, Segment bytes later → Loadable bytes (programHeaderAt bytes later)) :
    ∃ after, loadSegments memory fuel (headerOf bytes) remaining index file machine =
      some (some (headerOf bytes).entry, after) := by
  induction remaining generalizing index file machine with
  | zero => exact ⟨machine, rfl⟩
  | succ remaining ih =>
    obtain ⟨read, header, same⟩ := @readProgramHeader_image memory bytes image file stored index (by omega)
    rw [loadSegments, header]
    dsimp only
    by_cases type : (programHeaderAt bytes index).type = ptLoad
    · have segment : Segment bytes index := ⟨by omega, type⟩
      obtain ⟨read, next, turn, kept, further⟩ := load_turn fuel image room segment same progress
        (loadable index segment)
      rw [if_pos type, turn, Option.bind_some]
      exact ih (by omega) kept further
    · rw [if_neg type]
      exact ih (by omega) same (progress.skip type)

end Runs

section Programs

/-- A file that was opened is at its start. -/
theorem vfsOpen_start {system : System} {cwd : Cwd} {out : Buffer} {path : List UInt8} {file : File}
    (opened : vfsOpen system cwd out path = .ok file) : file.pos = 0 := by
  have looked := ProgramLoads.onVolume_lookup system cwd out path (opening_acts system)
  rw [vfsOpen] at opened
  rw [opened] at looked
  cases found : (parsedText cwd out path).bind (ProgramLoads.lookup system) with
  | none =>
    rw [found] at looked
    cases looked
  | some place =>
    rw [found, Option.elim_some, openNode] at looked
    split at looked
    · rw [ramfsOpenNode] at looked
      split at looked
      · cases looked
      · cases looked
        rfl
    · rw [sysfsOpenNode] at looked
      dsimp only at looked
      split at looked
      · cases looked
      · split at looked
        · cases looked
        · cases looked
          rfl

/-- The file of a program is at its start. -/
theorem loaderLoadProgram_start {system : System} {opening parentDir parsing status : Nat → UInt8} {argv0 : List UInt8}
    {file : File} {cwd : Cwd}
    (opened : ProgramLoads.loaderLoadProgram system opening parentDir parsing status argv0 = some (.ok (file, cwd))) :
    file.pos = 0 := by
  rw [ProgramLoads.loaderLoadProgram] at opened
  split at opened
  · cases opened
  · next found =>
    split at opened
    · obtain ⟨outcome, _, same⟩ := Option.map_eq_some_iff.mp opened
      cases changed : outcome.1 with
      | error error =>
        rw [changed] at same
        cases same
      | ok _ =>
        rw [changed] at same
        cases same
        exact vfsOpen_start found
    · cases opened

/-- The header of an ELF file is read, and then its segments are loaded. -/
theorem loadFile_image {memory : Memory} {bytes : List UInt8} (image : Image bytes) {file : File}
    (stored : fileBytes memory file = bytes) (start : file.pos = 0) (fuel : Nat) (machine : Machine) :
    ∃ read, fileBytes memory read = bytes ∧ loadFile memory fuel file machine =
      loadSegments memory fuel (headerOf bytes) (headerOf bytes).programHeaderAmount 0 read machine := by
  have complete := image.header
  obtain ⟨reads, _, _, same⟩ := ramfsRead_eq stored (by rw [start]; exact Nat.zero_le _) elfHdrSize
  rw [start, List.drop_zero] at reads
  have length : (bytes.take elfHdrSize).length = elfHdrSize := List.length_take_of_le complete
  have magic := image.magic
  refine ⟨_, (fileBytes_same memory same).trans stored, ?_⟩
  rw [headerOf] at magic ⊢
  rw [loadFile, reads]
  dsimp only
  rw [if_neg (not_not_intro length), magic, if_neg nofun]

/-- After the last turn the segments are in memory if they end with zeros. -/
theorem Progress.loaded {bytes : List UInt8} {before after : Machine} (image : Image bytes)
    (room : Room bytes before.space)
    (progress : Progress bytes before (headerOf bytes).programHeaderAmount after)
    (filled : ∀ index, Segment bytes index → ZeroFilled bytes (programHeaderAt bytes index)) :
    Loaded bytes before after := by
  have others : ∀ page, ¬SegmentPage bytes page → mapping after.space page = mapping before.space page :=
    fun page free => progress.others page fun index _ segment occupied => free ⟨index, segment, occupied⟩
  refine ⟨?_, ?_, ?_, others, ?_⟩
  · intro index segment offset less
    have sizes := (image.low index segment).sizes
    exact (progress.copied index segment.1 segment).content offset (by omega)
  · intro index segment offset above below
    rw [(progress.copied index segment.1 segment).content offset below]
    exact (filled index segment).zeros offset above below
  · intro index segment page occupied
    exact (progress.copied index segment.1 segment).pages page occupied
  · intro byte lower free
    exact byteAt_kept room.unshared lower (others _ free) progress.kept

/-- A program of the ram disk is loaded as its program headers say exactly if its segments are
not empty, do not start on the first page, and are followed in the file by as many zeros as they
are larger in memory. -/
theorem program_loaded_iff {system : System} {fuel : Nat} {opening parentDir parsing status : Nat → UInt8}
    {argv0 bytes : List UInt8} {file : File} {cwd : Cwd} {machine : Machine}
    (opened : ProgramLoads.loaderLoadProgram system opening parentDir parsing status argv0 = some (.ok (file, cwd)))
    (ram : file.ops = .ramfs) (stored : fileBytes system.memory file = bytes) (image : Image bytes)
    (room : Room bytes machine.space) :
    (∃ after, loaderLoadProgram system fuel opening parentDir parsing status argv0 machine =
        some (some (headerOf bytes).entry, after) ∧ Loaded bytes machine after) ↔
      ∀ index, Segment bytes index → ZeroFilled bytes (programHeaderAt bytes index) := by
  obtain ⟨read, same, loads⟩ := loadFile_image image stored (loaderLoadProgram_start opened) fuel machine
  have whole : loaderLoadProgram system fuel opening parentDir parsing status argv0 machine =
      loadSegments system.memory fuel (headerOf bytes) (headerOf bytes).programHeaderAmount 0 read machine := by
    rw [loaderLoadProgram, opened, Option.bind_some]
    dsimp only
    rw [ram]
    exact loads
  rw [whole]
  constructor
  · rintro ⟨after, finished, loaded⟩ index segment
    obtain ⟨progress, loadable⟩ := loadSegments_loadable image room _ (Nat.zero_add _) same (progress_start room)
      finished
    refine ⟨loadable index (Nat.zero_le index) segment, fun offset above below => ?_⟩
    rw [← (progress.copied index segment.1 segment).content offset below]
    exact loaded.cleared index segment offset above below
  · intro filled
    obtain ⟨after, finished⟩ := loadSegments_finishes fuel image room _ (Nat.zero_add _) same (progress_start room)
      fun index segment => (filled index segment).loadable
    obtain ⟨progress, _⟩ := loadSegments_loadable image room _ (Nat.zero_add _) same (progress_start room) finished
    exact ⟨after, finished, progress.loaded image room filled⟩

end Programs

section Samples

/-- A header, and one program header: a writable segment of two bytes, of which the file has the
first. -/
def sampleHeaders : List UInt8 :=
  [0x7F, 0x45, 0x4C, 0x46] ++ List.replicate 20 0 ++ [0, 0, 0x40, 0, 0, 0, 0, 0] ++ List.replicate 22 0 ++
    [56, 0, 1, 0] ++ List.replicate 6 0 ++
    [1, 0, 0, 0, 2, 0, 0, 0, 120, 0, 0, 0, 0, 0, 0, 0, 0, 0, 0x40, 0, 0, 0, 0, 0] ++ List.replicate 8 0 ++
    [1, 0, 0, 0, 0, 0, 0, 0, 2, 0, 0, 0, 0, 0, 0, 0] ++ List.replicate 8 0

/-- An ELF file with this segment, and what follows its first byte. -/
def sampleElf (rest : List UInt8) : List UInt8 := sampleHeaders ++ 42 :: rest

/-- The header of the sample. -/
theorem sample_header (rest : List UInt8) : headerOf (sampleElf rest) = decodeHdr (sampleHeaders.take elfHdrSize) := by
  rw [headerOf, sampleElf, List.take_append_of_le_length (by decide)]

/-- The program header of the sample. -/
theorem sample_programHeader (rest : List UInt8) :
    programHeaderAt (sampleElf rest) 0 = decodePhdr ((sampleHeaders.drop elfHdrSize).take elfPhdrSize) := by
  rw [programHeaderAt, Nat.mul_zero, Nat.add_zero, sampleElf, List.drop_append_of_le_length (by decide),
    List.take_append_of_le_length (by decide)]

/-- The sample has one program header. -/
theorem sample_amount (rest : List UInt8) : (headerOf (sampleElf rest)).programHeaderAmount = 1 := by
  rw [sample_header]
  decide +kernel

/-- The sample has one segment. -/
theorem sample_segment {rest : List UInt8} {index : Nat} (segment : Segment (sampleElf rest) index) : index = 0 := by
  have inside := segment.1
  rw [sample_amount] at inside
  omega

/-- The sample is an ELF file. -/
theorem sampleElf_image (rest : List UInt8) : Image (sampleElf rest) := by
  have length : (sampleElf rest).length = 121 + rest.length := by
    rw [sampleElf, List.length_append, List.length_cons, show sampleHeaders.length = 120 by decide +kernel]
    omega
  refine ⟨?_, ?_, ?_, ?_, ?_, ?_⟩
  · rw [length, elfHdrSize]
    omega
  · rw [sample_header]
    decide +kernel
  · intro index inside
    rw [sample_amount] at inside
    have size : (decodeHdr (sampleHeaders.take elfHdrSize)).programHeaderSize = 56 := by decide +kernel
    rw [sample_header, size, length, elfHdrSize, elfPhdrSize]
    omega
  · intro index segment
    rw [sample_segment segment, sample_programHeader]
    exact ⟨by decide +kernel, by decide +kernel⟩
  · intro index segment
    have ends : (decodePhdr ((sampleHeaders.drop elfHdrSize).take elfPhdrSize)).offset +
        (decodePhdr ((sampleHeaders.drop elfHdrSize).take elfPhdrSize)).fileSize = 121 := by decide +kernel
    rw [sample_segment segment, sample_programHeader, ends, length]
    omega
  · intro first second firstSegment secondSegment different
    exact absurd ((sample_segment firstSegment).trans (sample_segment secondSegment).symm) different

/-- No page of the empty space is mapped. -/
theorem emptySpace_unmapped (page : Nat) : mapping emptySpace page = none :=
  congrFun (cleared_translation fun _ => rfl) page

/-- The empty space has room for the sample. -/
theorem sampleElf_room (rest : List UInt8) : Room (sampleElf rest) emptySpace := by
  refine ⟨sampleTables_sound, ?_, fun _ _ page _ => emptySpace_unmapped page, ?_⟩
  · intro page _ frame flags mapped
    rw [emptySpace_unmapped] at mapped
    cases mapped
  · rw [sample_amount, Finset.sum_range_one, loadPages, sample_programHeader]
    decide +kernel

/-- The sample system with other contents of its file. -/
def programSystem (bytes : List UInt8) : System :=
  { sampleSystem with memory := { sampleSystem.memory with
      ramFiles := fun _ => ⟨0, bytes.length⟩
      blocks := fun _ offset => bytes.getD offset 0 } }

/-- The file has these contents. -/
theorem programSystem_bytes (bytes : List UInt8) (file : File) :
    fileBytes (programSystem bytes).memory file = bytes := by
  apply List.ext_getElem
  · simp [fileBytes, programSystem]
  · intro index _ inside
    simp [fileBytes, programSystem, inside]

/-- The program that ends with its segment is not loaded, though its segment lies in the file. -/
theorem program_refused : Image (sampleElf []) ∧ Room (sampleElf []) emptySpace ∧
    (ProgramLoads.loaderLoadProgram (programSystem (sampleElf [])) (fun _ => 0) (fun _ => 0) (fun _ => 0) (fun _ => 0)
      [97, 58, 47, 99, 47, 100]).map (·.toOption.map Prod.fst) = some (some ⟨1, 0, 3, none, .ramfs⟩) ∧
    (loaderLoadProgram (programSystem (sampleElf [])) 0 (fun _ => 0) (fun _ => 0) (fun _ => 0) (fun _ => 0)
      [97, 58, 47, 99, 47, 100] ⟨emptySpace, fun _ => 0⟩).map Prod.fst = some none :=
  ⟨sampleElf_image [], sampleElf_room [], by decide +kernel, by decide +kernel⟩

/-- A zero behind the segment makes it load. -/
theorem program_loaded_sample : ∃ after,
    loaderLoadProgram (programSystem (sampleElf [0])) 0 (fun _ => 0) (fun _ => 0) (fun _ => 0) (fun _ => 0)
      [97, 58, 47, 99, 47, 100] ⟨emptySpace, fun _ => 0⟩ = some (some (headerOf (sampleElf [0])).entry, after) ∧
    Loaded (sampleElf [0]) ⟨emptySpace, fun _ => 0⟩ after := by
  have seen : (ProgramLoads.loaderLoadProgram (programSystem (sampleElf [0])) (fun _ => 0) (fun _ => 0) (fun _ => 0)
      (fun _ => 0) [97, 58, 47, 99, 47, 100]).map (·.toOption.map Prod.fst) = some (some ⟨1, 0, 3, none, .ramfs⟩) := by
    decide +kernel
  obtain ⟨outcome, opened, same⟩ := Option.map_eq_some_iff.mp seen
  cases outcome with
  | error error => cases same
  | ok opening =>
    obtain ⟨file, cwd⟩ := opening
    obtain rfl := Option.some.inj same
    refine (program_loaded_iff opened rfl (programSystem_bytes _ _) (sampleElf_image [0]) (sampleElf_room [0])).mpr ?_
    intro index segment
    rw [sample_segment segment, sample_programHeader]
    refine ⟨⟨by decide +kernel, by decide +kernel, by decide +kernel⟩, fun offset above below => ?_⟩
    have sizes : (decodePhdr ((sampleHeaders.drop elfHdrSize).take elfPhdrSize)).fileSize = 1 ∧
        (decodePhdr ((sampleHeaders.drop elfHdrSize).take elfPhdrSize)).memorySize = 2 := by decide +kernel
    obtain rfl : offset = 1 := by omega
    decide +kernel

end Samples

end Asym.ElfLoads
