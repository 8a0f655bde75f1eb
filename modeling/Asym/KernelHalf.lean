import Asym.FrameOwnership

/-!
# The kernel half of an address space

The upper half of every address space leads to the kernel's own tables. A model
of the system calls and of the program loader that reach the virtual memory
functions: `mmap` on the files `sys:/zero` and `sys:/one`, `munmap`, `mprotect`,
`loader_load_program` and `loader_allocate_stack`. Only `munmap` and `mprotect`
look at where a region lies, through the wrapping sum of `verify_pointer`; the
others pass any address on, and so do the virtual memory functions.

A request is confined if it is refused for another reason or visits no page of
the upper half. Runs of confined requests leave all translations of the upper
half alone, in the process's table and in the kernel's. The system calls do not
enforce it.

Memory is written through virtual addresses, byte by byte, until the first
address that is not canonical or not mapped. Written pages get arbitrary
contents.
-/

namespace Asym.KernelHalf

open MachineWords PhysicalMemory PageEntries PageTables LinkedWalks CyclicUpdates PageTree
open PageRefinement VirtualMemory MappingRequests UserBuffers Descents SpaceLayout PageAccounting
open FrameOwnership

/-- The pointer that a virtual memory function returns: `ERRPTR` is `NULL`. -/
def pointer : Except Errno Nat → Nat
  | .ok address => address
  | .error _ => 0

/-- An address whose bits 47 to 63 are equal. -/
def Canonical (address : Nat) : Prop := address < 2 ^ 47 ∨ wordSize - 2 ^ 47 ≤ address

/-- A write of `length` bytes from `start` on gets to a page: all addresses up to
one on the page are canonical. -/
def Touches (start length page : Nat) : Prop :=
  ∃ offset < length, (∀ earlier ≤ offset, Canonical (add start earlier)) ∧
    pageNumber (add start offset) = page

/-- Memory changes only in frames that are mapped at touched pages. -/
def Written (tables next : Tables) (root : Nat) (touched : Nat → Prop) : Prop :=
  ∀ table index, next table index ≠ tables table index → ∃ page frame flags, touched page ∧
    translation tables root page = some (frame, flags) ∧ table = lowerToHigher (frame * pageSize)

/-- A space whose memory has other contents. -/
def refill (space : Space) (tables : Tables) : Space :=
  { space with memory := { space.memory with tables := tables } }

/-- `PT_LOAD`. -/
def ptLoad : Nat := 0x1

/-- `PF_WRITE`. -/
def pfWrite : Nat := 1 <<< 1

/-- `sizeof(elf_hdr_t)`. -/
def elfHdrSize : Nat := 64

/-- The fields of `elf_hdr_t` that the loader reads. -/
structure ElfHdr where
  ident : List Nat
  entry : Nat
  programHeaderSize : Nat
  programHeaderAmount : Nat

/-- The fields of `elf_phdr_t` that the loader reads. -/
structure ElfPhdr where
  type : Nat
  flags : Nat
  offset : Nat
  virtAddr : Nat
  fileSize : Nat
  memorySize : Nat

/-- An executable file, through the answers of `vfs_seek` and `vfs_read`: the
file header if it can be read, the program header that can be read at an offset,
whether an offset can be sought, and whether a number of bytes can be read from
an offset. -/
structure ElfFile where
  header : Option ElfHdr
  programHeaderAt : Nat → Option ElfPhdr
  seeks : Nat → Bool
  reads : Nat → Nat → Bool

/-- The magic numbers that the loader requires. -/
def elfMagic (header : ElfHdr) : Bool := header.ident.take 4 == [0x7F, 0x45, 0x4C, 0x46]

/-- Size of a segment in memory. -/
def segmentSize (programHeader : ElfPhdr) : Nat := max programHeader.memorySize programHeader.fileSize

/-- `CONFIG_USER_STACK`. -/
def configUserStack : Nat := pageSize

/-- Where `loader_allocate_stack` puts the stack of a thread. -/
def stackAddress (thread : Nat) : Nat :=
  sub vmmLowerHalfMax (add (mul configUserStack (add thread 1)) (mul pageSize thread))

section Executions

variable (allowed : Space → Request → Prop)

/-- An allowed call of `vmm_alloc` with the pointer it returns. -/
structure Allocated (fuel : Nat) (space : Space) (virtAddr length prot address : Nat) (next : Space) :
    Prop where
  request : allowed space (.alloc fuel virtAddr length prot)
  served : ∃ answer, vmmAlloc fuel space virtAddr length prot = some (answer, next) ∧
    pointer answer = address

/-- A segment was allocated, its place in the file found, its memory cleared, and
the file read into it as far as it goes. -/
structure Filled (fuel : Nat) (file : ElfFile) (programHeader : ElfPhdr) (space after : Space) :
    Prop where
  allocated : ∃ address next tables, address ≠ 0 ∧
    Allocated allowed fuel space programHeader.virtAddr (segmentSize programHeader)
      (protRead ||| protWrite) address next ∧
    Written next.memory.tables tables next.pml
      (Touches programHeader.virtAddr (segmentSize programHeader)) ∧
    after = refill next tables
  sought : file.seeks programHeader.offset = true

/-- The `PT_LOAD` case of the loop of `loader_load_program`, with whether the loop
goes on. -/
inductive LoadSegment (fuel : Nat) (file : ElfFile) (programHeader : ElfPhdr) (space : Space) :
    Space → Bool → Prop where
  | null (next : Space)
      (allocated : Allocated allowed fuel space programHeader.virtAddr (segmentSize programHeader)
        (protRead ||| protWrite) 0 next) :
      LoadSegment fuel file programHeader space next false
  | unseekable (address : Nat) (next : Space) (found : address ≠ 0)
      (allocated : Allocated allowed fuel space programHeader.virtAddr (segmentSize programHeader)
        (protRead ||| protWrite) address next)
      (unsought : file.seeks programHeader.offset = false) :
      LoadSegment fuel file programHeader space next false
  | short (after : Space) (filled : Filled allowed fuel file programHeader space after)
      (unread : file.reads programHeader.offset (segmentSize programHeader) = false) :
      LoadSegment fuel file programHeader space after false
  | writable (after : Space) (filled : Filled allowed fuel file programHeader space after)
      (read : file.reads programHeader.offset (segmentSize programHeader) = true)
      (flags : programHeader.flags &&& pfWrite ≠ 0) :
      LoadSegment fuel file programHeader space after true
  | protect (after : Space) (filled : Filled allowed fuel file programHeader space after)
      (read : file.reads programHeader.offset (segmentSize programHeader) = true)
      (flags : programHeader.flags &&& pfWrite = 0)
      (request : allowed after (.protect programHeader.virtAddr (segmentSize programHeader) protRead)) :
      LoadSegment fuel file programHeader space
        (vmmProtect after programHeader.virtAddr (segmentSize programHeader) protRead).2
        (vmmProtect after programHeader.virtAddr (segmentSize programHeader) protRead).1.isOk

/-- The loop of `loader_load_program` from an index on. -/
inductive LoadProgram (fuel : Nat) (file : ElfFile) (header : ElfHdr) : Nat → Space → Space → Prop where
  | finished (index : Nat) (space : Space) (beyond : header.programHeaderAmount ≤ index) :
      LoadProgram fuel file header index space space
  | unreadable (index : Nat) (space : Space) (inside : index < header.programHeaderAmount)
      (missing : file.programHeaderAt (elfHdrSize + header.programHeaderSize * index) = none) :
      LoadProgram fuel file header index space space
  | skipped (index : Nat) (space last : Space) (programHeader : ElfPhdr)
      (inside : index < header.programHeaderAmount)
      (found : file.programHeaderAt (elfHdrSize + header.programHeaderSize * index) = some programHeader)
      (other : programHeader.type ≠ ptLoad) (later : LoadProgram fuel file header (index + 1) space last) :
      LoadProgram fuel file header index space last
  | stopped (index : Nat) (space last : Space) (programHeader : ElfPhdr)
      (inside : index < header.programHeaderAmount)
      (found : file.programHeaderAt (elfHdrSize + header.programHeaderSize * index) = some programHeader)
      (segment : programHeader.type = ptLoad)
      (failed : LoadSegment allowed fuel file programHeader space last false) :
      LoadProgram fuel file header index space last
  | loaded (index : Nat) (space next last : Space) (programHeader : ElfPhdr)
      (inside : index < header.programHeaderAmount)
      (found : file.programHeaderAt (elfHdrSize + header.programHeaderSize * index) = some programHeader)
      (segment : programHeader.type = ptLoad)
      (placed : LoadSegment allowed fuel file programHeader space next true)
      (later : LoadProgram fuel file header (index + 1) next last) :
      LoadProgram fuel file header index space last

/-- What a process can ask for: `mmap` on a file of `const.c`, `munmap`,
`mprotect`, being loaded from a file, and the stack of a new thread. -/
inductive Call where
  | mmap (fuel address length prot : Nat)
  | munmap (address length : Nat)
  | mprotect (address length prot : Nat)
  | load (fuel : Nat) (file : ElfFile)
  | stack (fuel thread : Nat)

/-- The executions of a call. `const_zero_mmap` and `const_one_mmap` write from
the returned address on. -/
inductive Executes (space : Space) : Call → Space → Prop where
  | mmapNull (fuel address length prot : Nat) (next : Space)
      (allocated : Allocated allowed fuel space address length prot 0 next) :
      Executes space (.mmap fuel address length prot) next
  | mmap (fuel address length prot start : Nat) (next : Space) (tables : Tables) (found : start ≠ 0)
      (allocated : Allocated allowed fuel space address length prot start next)
      (written : Written next.memory.tables tables next.pml (Touches start length)) :
      Executes space (.mmap fuel address length prot) (refill next tables)
  | munmapRefused (address length : Nat) (refused : verifyPointer address length = false) :
      Executes space (.munmap address length) space
  | munmap (address length : Nat) (verified : verifyPointer address length = true)
      (request : allowed space (.unmap address length)) :
      Executes space (.munmap address length) (vmmUnmap space address length).2
  | mprotectRefused (address length prot : Nat) (refused : verifyPointer address length = false) :
      Executes space (.mprotect address length prot) space
  | mprotect (address length prot : Nat) (verified : verifyPointer address length = true)
      (request : allowed space (.protect address length prot)) :
      Executes space (.mprotect address length prot) (vmmProtect space address length prot).2
  | loadRefused (fuel : Nat) (file : ElfFile)
      (refused : ∀ header ∈ file.header, elfMagic header = false) :
      Executes space (.load fuel file) space
  | load (fuel : Nat) (file : ElfFile) (header : ElfHdr) (last : Space)
      (opened : file.header = some header) (magic : elfMagic header = true)
      (loading : LoadProgram allowed fuel file header 0 space last) :
      Executes space (.load fuel file) last
  | stack (fuel thread address : Nat) (next : Space)
      (allocated : Allocated allowed fuel space (stackAddress thread) configUserStack
        (protRead ||| protWrite) address next) :
      Executes space (.stack fuel thread) next

/-- A history of a process: its calls, its own writes into the lower half, and
changes of what the allocator is going to return. -/
inductive History (kernel : Nat) : Space → List Call → Space → Prop where
  | done (space : Space) : History kernel space [] space
  | call {space next last : Space} {calls : List Call} (call : Call)
      (executed : Executes allowed space call next) (later : History kernel next calls last) :
      History kernel space (call :: calls) last
  | write {space last : Space} {calls : List Call} (tables : Tables)
      (written : Written space.memory.tables tables space.pml (· < lowerPages))
      (later : History kernel (refill space tables) calls last) : History kernel space calls last
  | restock {space last : Space} {calls : List Call} (supply : List Nat)
      (stocked : Stocked supply (pagesOf space) (kernelTables space.memory.tables kernel))
      (later : History kernel { space with memory := { space.memory with supply := supply } } calls last) :
      History kernel space calls last

end Executions

/-- All pages of a cyclic run lie in the lower half. -/
def LowerRun (page count : Nat) : Prop := ∀ position < count, (page + position) % pageCount < lowerPages

/-- A request that changes nothing in the upper half: it is refused, because its
length is zero, its protection is not readable or its region is mapped wholly
(for a new region) or not wholly (for an existing one); or it visits no page of
the upper half. -/
def Confined (space : Space) : Request → Prop
  | .alloc fuel virtAddr length prot | .map fuel virtAddr _ length prot =>
      length = 0 ∨ vmmProtToFlags prot = none ∨
      ∀ chosen searched, chooseRegion fuel space virtAddr length = some (chosen, searched) →
        RunMapped (mapping space) (pageNumber chosen) (requestPages chosen length) ∨
          LowerRun (pageNumber chosen) (requestPages chosen length)
  | .unmap virtAddr length =>
      ¬RunMapped (mapping space) (pageNumber virtAddr) (requestPages virtAddr length) ∨
        LowerRun (pageNumber virtAddr) (requestPages virtAddr length)
  | .protect virtAddr length prot => vmmProtToFlags prot = none ∨
      ¬RunMapped (mapping space) (pageNumber virtAddr) (requestPages virtAddr length) ∨
        LowerRun (pageNumber virtAddr) (requestPages virtAddr length)

/-- Every mapped page of the lower half owns its frame. Nothing but `vmm_alloc`
maps pages there. -/
def Exclusive (flat : FlatMap) : Prop :=
  ∀ page < lowerPages, ∀ frame flags, flat page = some (frame, flags) → owned flags = true

/-- What a step leaves alone: the space stays well laid out, and every
translation of the upper half is kept. -/
structure Kept (kernel : Nat) (space next : Space) : Prop where
  root : next.pml = space.pml
  layout : Layout next.memory next.pml kernel
  exclusive : Exclusive (mapping next)
  upper : ∀ page, lowerPages ≤ page → mapping next page = mapping space page

/-- Two steps after each other. -/
theorem Kept.trans {kernel : Nat} {space middle next : Space} (early : Kept kernel space middle)
    (late : Kept kernel middle next) : Kept kernel space next where
  root := late.root.trans early.root
  layout := late.layout
  exclusive := late.exclusive
  upper page high := (late.upper page high).trans (early.upper page high)

section Steps

variable {kernel : Nat} {space : Space}

/-- The upper half of a space is translated as by the kernel's table. -/
theorem upper_translation (layout : Layout space.memory space.pml kernel) (page : Nat)
    (high : lowerPages ≤ page) :
    mapping space page = translation space.memory.tables kernel page := by
  rw [mapping, translation, translation]
  split
  · rename_i inside
    have upper : ¬Lower (pagePath page) := by
      rw [lower_page inside]
      omega
    rw [layout.upper_walk (pagePath page) upper]
  · rfl

/-- A run of the lower half is not longer than the lower half. -/
theorem LowerRun.bounded {page count : Nat} (lower : LowerRun page count) : count ≤ lowerPages := by
  by_contra longer
  -- Among more consecutive pages than the lower half has, one lies in the upper half.
  have first := lower (lowerPages - page % lowerPages) (by simp only [lowerPages] at *; omega)
  have second := lower 0 (by omega)
  simp only [lowerPages, pageCount] at *
  omega

/-- The first page and the remaining run of a run of the lower half. -/
theorem LowerRun.first {page count : Nat} (lower : LowerRun page (count + 1)) (inside : page < pageCount) :
    page < lowerPages ∧ LowerRun ((page + 1) % pageCount) count := by
  constructor
  · have here := lower 0 (by omega)
    rwa [Nat.add_zero, Nat.mod_eq_of_lt inside] at here
  · intro position less
    rw [Nat.mod_add_mod, Nat.add_assoc, Nat.add_comm 1 position]
    exact lower (position + 1) (by omega)

/-- Pages of the upper half are not visited by a run of the lower half. -/
theorem LowerRun.avoids {page count tested : Nat} (lower : LowerRun page count)
    (high : lowerPages ≤ tested) : ∀ position < count, tested ≠ (page + position) % pageCount := by
  rintro position less rfl
  have low := lower position less
  omega

/-- Stacks lie at the top of the lower half, each with a free page above it but
for the first. -/
theorem stackAddress_eq (thread : Nat) (few : thread < 2 ^ 34) :
    stackAddress thread = (lowerPages - (2 * thread + 1)) * pageSize := by
  simp only [stackAddress, configUserStack, vmmLowerHalfMax, lowerPages, sub, add, mul, wordSize, pageSize]
  omega

/-- The loader's own allocations are confined as long as a process has made
fewer than `2 ^ 34` threads. -/
theorem stack_confined (space : Space) (fuel thread prot : Nat) (few : thread < 2 ^ 34) :
    Confined space (.alloc fuel (stackAddress thread) configUserStack prot) := by
  have place := stackAddress_eq thread few
  refine .inr (.inr fun chosen searched choice => .inr ?_)
  have nonzero : stackAddress thread ≠ 0 := by
    simp only [place, lowerPages, pageSize]
    omega
  rw [chooseRegion, if_neg nonzero, Option.some.injEq, Prod.mk.injEq] at choice
  have single : requestPages chosen configUserStack = 1 := by
    simp only [← choice.1, place, requestPages, vmmAlignRegion, sizeInPages, configUserStack, roundDown,
      add, sub, wordSize, lowerPages, pageSize]
    omega
  intro position less
  rw [single] at less
  simp only [← choice.1, place, pageNumber, pageCount, lowerPages, pageSize]
  omega

/-- The loop of `vmm_alloc` over a run of the lower half, mapped or not. -/
theorem allocPages_kept {pml next : Pml} {root : Nat} (layout : Layout pml root kernel)
    (exclusive : Exclusive (translation pml.tables root)) (virtAddr flags position count : Nat)
    (small : flags < 2 ^ 12) (set : owned flags = true)
    (lower : LowerRun ((pageNumber virtAddr + position) % pageCount) count)
    (taken : allocPages pml root virtAddr flags position count = some next) :
    Layout next root kernel ∧ Exclusive (translation next.tables root) ∧
      ∀ page, lowerPages ≤ page → translation next.tables root page = translation pml.tables root page := by
  induction count generalizing pml position with
  | zero =>
    obtain rfl : pml = next := Option.some.inj taken
    exact ⟨layout, exclusive, fun _ _ => rfl⟩
  | succ count ih =>
    obtain ⟨frame, framed, mapped, frameTaken, mapTaken, rest⟩ := allocPages_succ taken
    have pageHere := page_position virtAddr position
    have inside : (pageNumber virtAddr + position) % pageCount < pageCount := Nat.mod_lt _ (by decide)
    obtain ⟨low, later⟩ := lower.first inside
    rw [Nat.mod_add_mod, Nat.add_assoc] at later
    have updated := allocPage_translation layout _ frame flags small frameTaken mapTaken
    rw [pageHere] at updated
    have lowerPath := (lower_page inside).mpr low
    rw [← pageHere] at lowerPath
    obtain ⟨made, table, tablesMade, _, writable⟩ := allocPage_tables layout _ frame flags small set
      lowerPath frameTaken mapTaken
    have leaf := tablesMade.performed.layout.setLeaf _ made.freed tablesMade.place writable
    rw [← tablesMade.written] at leaf
    have exclusiveHere : Exclusive (translation mapped.tables root) := by
      intro page below tested found translated
      rw [updated] at translated
      by_cases same : page = (pageNumber virtAddr + position) % pageCount
      · rw [same, Function.update_self, Option.some.injEq, Prod.mk.injEq] at translated
        rw [← translated.2, owned_present]
        exact set
      · rw [Function.update_of_ne same] at translated
        exact exclusive page below tested found translated
    obtain ⟨nextLayout, nextExclusive, upper⟩ := ih leaf.layout exclusiveHere
      (position + 1) later rest
    refine ⟨nextLayout, nextExclusive, ?_⟩
    intro page high
    have other : page ≠ (pageNumber virtAddr + position) % pageCount := by omega
    rw [upper page high, updated, Function.update_of_ne other]

/-- What a granted allocation did: the region it chose was not wholly mapped, and
every page of it got a frame. -/
structure Granted (fuel : Nat) (space : Space) (virtAddr length prot address flags chosen : Nat)
    (searched next : Space) (memory : Pml) : Prop where
  positive : length ≠ 0
  readable : vmmProtToFlags prot = some flags
  choice : chooseRegion fuel space virtAddr length = some (chosen, searched)
  unfilled : pmlMapped space.memory.tables space.pml (roundDown chosen pageSize)
    (requestPages chosen length) = false
  allocated : allocPages space.memory space.pml (roundDown chosen pageSize) (flags ||| pageOwned) 0
    (requestPages chosen length) = some memory
  returned : address = roundDown chosen pageSize
  after : next = { searched with memory := memory }

/-- `vmm_alloc` refuses and leaves memory alone, or grants the region. -/
theorem alloc_cases {fuel virtAddr length prot : Nat} {answer : Except Errno Nat} {next : Space}
    (taken : vmmAlloc fuel space virtAddr length prot = some (answer, next)) :
    (∃ error, answer = .error error ∧ next.memory = space.memory ∧ next.pml = space.pml) ∨
      ∃ address flags chosen searched memory, answer = .ok address ∧
        Granted fuel space virtAddr length prot address flags chosen searched next memory := by
  by_cases empty : length = 0
  · rw [vmmAlloc, if_pos empty, Option.some.injEq, Prod.mk.injEq] at taken
    obtain ⟨rfl, rfl⟩ := taken
    exact .inl ⟨_, rfl, rfl, rfl⟩
  cases readable : vmmProtToFlags prot with
  | none =>
    simp only [vmmAlloc, if_neg empty, readable, Option.some.injEq, Prod.mk.injEq] at taken
    obtain ⟨rfl, rfl⟩ := taken
    exact .inl ⟨_, rfl, rfl, rfl⟩
  | some flags =>
    rw [vmmAlloc_eq fuel space virtAddr length prot flags (by omega) readable, serveRequest,
      Option.bind_eq_bind, Option.bind_eq_some_iff] at taken
    obtain ⟨⟨chosen, searched⟩, choice, taken⟩ := taken
    obtain ⟨sameMemory, sameRoot⟩ := choose_memory choice
    simp only [sameMemory, sameRoot] at taken
    split at taken
    · simp only [Option.some.injEq, Prod.mk.injEq] at taken
      obtain ⟨rfl, rfl⟩ := taken
      exact .inl ⟨_, rfl, sameMemory, sameRoot⟩
    · rename_i unfilled
      simp only [Option.bind_eq_bind, Option.bind_eq_some_iff, Option.some.injEq, Prod.mk.injEq] at taken
      obtain ⟨memory, allocated, rfl, rfl⟩ := taken
      refine .inr ⟨_, flags, chosen, searched, memory, rfl, empty, readable, choice, ?_, allocated, rfl, ?_⟩
      · simpa using unfilled
      · rw [← sameRoot]

/-- A step that leaves memory alone keeps the upper half. -/
theorem kept_of_memory (layout : Layout space.memory space.pml kernel)
    (exclusive : Exclusive (mapping space)) (next : Space) (sameMemory : next.memory = space.memory)
    (sameRoot : next.pml = space.pml) : Kept kernel space next := by
  have same : mapping next = mapping space := by rw [mapping, mapping, sameMemory, sameRoot]
  refine ⟨sameRoot, ?_, same ▸ exclusive, fun page _ => congrFun same page⟩
  rw [sameMemory, sameRoot]
  exact layout

/-- The region of a granted and confined allocation lies in the lower half and is
not empty. -/
theorem Granted.lower {fuel virtAddr length prot address flags chosen : Nat} {searched next : Space}
    {memory : Pml} (layout : Layout space.memory space.pml kernel)
    (granted : Granted fuel space virtAddr length prot address flags chosen searched next memory)
    (confined : Confined space (.alloc fuel virtAddr length prot)) :
    LowerRun (pageNumber chosen) (requestPages chosen length) ∧ 0 < requestPages chosen length := by
  have unfilled : ¬RunMapped (mapping space) (pageNumber chosen) (requestPages chosen length) := by
    intro mapped
    rw [← page_roundDown] at mapped
    have filled := (mapped_iff _ _ _ layout.tree).mpr mapped
    exact Bool.false_ne_true (granted.unfilled.symm.trans filled)
  constructor
  · rcases confined with empty | unreadable | inside
    · exact absurd empty granted.positive
    · rw [granted.readable] at unreadable
      contradiction
    · exact (inside chosen searched granted.choice).resolve_left unfilled
  · by_contra none
    refine unfilled fun position less => ?_
    omega

/-- A confined allocation is kept out of the upper half, and so are the address
it was asked for and the address it returns. -/
theorem vmmAlloc_kept (layout : Layout space.memory space.pml kernel)
    (exclusive : Exclusive (mapping space)) (fuel virtAddr length prot : Nat)
    (answer : Except Errno Nat) (next : Space) (confined : Confined space (.alloc fuel virtAddr length prot))
    (taken : vmmAlloc fuel space virtAddr length prot = some (answer, next)) :
    Kept kernel space next ∧ (pointer answer ≠ 0 →
      pageNumber (pointer answer) < lowerPages ∧ pageNumber virtAddr < lowerPages) := by
  rcases alloc_cases taken with
    ⟨error, rfl, sameMemory, sameRoot⟩ | ⟨address, flags, chosen, searched, memory, rfl, granted⟩
  · exact ⟨kept_of_memory layout exclusive next sameMemory sameRoot, fun found => absurd rfl found⟩
  · obtain ⟨lower, positive⟩ := granted.lower layout confined
    have small : flags ||| pageOwned < 2 ^ 12 :=
      Nat.or_lt_two_pow (protToFlags_small granted.readable) (by decide)
    have run := lower
    rw [← page_roundDown, ← Nat.mod_eq_of_lt (page_lt (roundDown chosen pageSize)),
      ← Nat.add_zero (pageNumber _)] at run
    obtain ⟨nextLayout, nextExclusive, upper⟩ := allocPages_kept layout exclusive _ _ 0 _ small
      (owned_or flags) run granted.allocated
    obtain ⟨_, sameRoot⟩ := choose_memory granted.choice
    have first := lower 0 positive
    rw [Nat.add_zero, Nat.mod_eq_of_lt (page_lt chosen)] at first
    refine ⟨?_, fun _ => ⟨?_, ?_⟩⟩
    · rw [granted.after]
      refine ⟨sameRoot, ?_, ?_, ?_⟩
      · rw [sameRoot]
        exact nextLayout
      · rw [mapping, sameRoot]
        exact nextExclusive
      · rw [mapping, sameRoot]
        exact upper
    · rw [pointer, granted.returned, page_roundDown]
      exact first
    · by_cases null : virtAddr = 0
      · rw [null]
        decide
      · have choice := granted.choice
        rw [chooseRegion, if_neg null, Option.some.injEq, Prod.mk.injEq] at choice
        rw [choice.1]
        exact first

/-- A step that rewrites a run of the lower half, and never into a mapping that
does not own its frame, keeps the upper half. -/
theorem kept_of_rewrite (exclusive : Exclusive (mapping space)) (memory : Pml) (page count : Nat)
    (change : Nat → Option (Nat × Nat) → Option (Nat × Nat)) (layout : Layout memory space.pml kernel)
    (inside : page < pageCount) (lower : LowerRun page count)
    (rewrites : translation memory.tables space.pml = rewrite pageCount (mapping space) page change count)
    (owns : ∀ position value, (∀ frame flags, value = some (frame, flags) → owned flags = true) →
      ∀ frame flags, change position value = some (frame, flags) → owned flags = true) :
    Kept kernel space { space with memory := memory } := by
  refine ⟨rfl, layout, ?_, ?_⟩
  · intro tested below
    rw [mapping, rewrites]
    exact rewrite_all pageCount _ page change count
      (fun key value => key < lowerPages → ∀ frame flags, value = some (frame, flags) → owned flags = true)
      exclusive (fun key position value before low => owns position value (before low)) tested below
  · intro tested high
    rw [mapping, rewrites]
    exact rewrite_outside _ _ _ _ _ _ inside (lower.avoids high)

/-- A confined `vmm_unmap` is kept out of the upper half. -/
theorem vmmUnmap_kept (layout : Layout space.memory space.pml kernel)
    (exclusive : Exclusive (mapping space)) (virtAddr length : Nat)
    (confined : Confined space (.unmap virtAddr length)) :
    Kept kernel space (vmmUnmap space virtAddr length).2 := by
  have performed := (vmmUnmap_performed layout virtAddr length).2.layout
  have aligned : (vmmAlignRegion virtAddr length).1 = roundDown virtAddr pageSize := rfl
  rw [Confined, ← page_roundDown] at confined
  generalize counted : requestPages virtAddr length = count at confined
  simp only [vmmUnmap, aligned, show sizeInPages (vmmAlignRegion virtAddr length).2 = count from counted]
    at performed ⊢
  cases mapped : pmlMapped space.memory.tables space.pml (roundDown virtAddr pageSize) count with
  | false => exact kept_of_memory layout exclusive space rfl rfl
  | true =>
    have run : RunMapped (mapping space) (pageNumber (roundDown virtAddr pageSize)) count :=
      (mapped_iff _ _ _ layout.tree).mp mapped
    have lower := confined.resolve_left (not_not_intro run)
    have bounded : count ≤ pageCount := Nat.le_trans lower.bounded (by decide)
    obtain ⟨_, rewrites⟩ := unmap_rewrites space.memory space.pml _ count layout.sound bounded run
    simp only [mapped, if_true] at performed ⊢
    refine kept_of_rewrite exclusive _ _ count _ performed (page_lt _) lower rewrites ?_
    intro position value _ frame flags impossible
    contradiction

/-- A confined `vmm_protect` is kept out of the upper half. -/
theorem vmmProtect_kept (layout : Layout space.memory space.pml kernel)
    (exclusive : Exclusive (mapping space)) (virtAddr length prot : Nat)
    (confined : Confined space (.protect virtAddr length prot)) :
    Kept kernel space (vmmProtect space virtAddr length prot).2 := by
  have performed := (vmmProtect_performed layout virtAddr length prot).2.layout
  have aligned : (vmmAlignRegion virtAddr length).1 = roundDown virtAddr pageSize := rfl
  rw [Confined, ← page_roundDown] at confined
  generalize counted : requestPages virtAddr length = count at confined
  cases readable : vmmProtToFlags prot with
  | none =>
    simp only [vmmProtect, readable]
    exact kept_of_memory layout exclusive space rfl rfl
  | some flags =>
    simp only [vmmProtect, readable, aligned,
      show sizeInPages (vmmAlignRegion virtAddr length).2 = count from counted] at performed ⊢
    cases mapped : pmlMapped space.memory.tables space.pml (roundDown virtAddr pageSize) count with
    | false => exact kept_of_memory layout exclusive space rfl rfl
    | true =>
      have run : RunMapped (mapping space) (pageNumber (roundDown virtAddr pageSize)) count :=
        (mapped_iff _ _ _ layout.tree).mp mapped
      have readableHere : ¬vmmProtToFlags prot = none := by simp [readable]
      have lower := (confined.resolve_left readableHere).resolve_left (not_not_intro run)
      obtain ⟨_, rewrites⟩ := changeFlags_rewrites space.memory space.pml _ count flags layout.sound
        (protToFlags_small readable) run
      simp only [mapped, if_true] at performed ⊢
      refine kept_of_rewrite exclusive _ _ count _ performed (page_lt _) lower rewrites ?_
      intro position value before frame found changed
      obtain ⟨⟨oldFrame, oldFlags⟩, wasMapped, same⟩ := Option.map_eq_some_iff.mp changed
      have bit : owned oldFlags = true := before oldFrame oldFlags wasMapped
      rw [← (Prod.mk.inj same).2, protectFlags, owned_present]
      rcases owned_cases oldFlags with clear | set
      · rw [owned, clear] at bit
        contradiction
      · rw [set]
        exact owned_or flags

/-- The frame number of an entry leads to the entry's address. -/
theorem frame_address (entry : Nat) :
    lowerToHigher (entryFrame entry * pageSize) = pageEntryGetAddress entry := by
  have whole : entryFrame entry * pageSize = entryPhysical entry := by
    rw [entryFrame, physical_eq]
    simp only [pageSize]
    omega
  rw [whole, pageEntryGetAddress]

/-- What is written through pages of the lower half are frames of the space, and
no table is among them. -/
theorem written_stored (layout : Layout space.memory space.pml kernel)
    (exclusive : Exclusive (mapping space)) (tables : Tables) (touched : Nat → Prop)
    (low : ∀ page, touched page → page < lowerPages)
    (written : Written space.memory.tables tables space.pml touched) :
    Stored space.memory.tables tables space.pml kernel := by
  -- A changed page is a frame of the space, at the end of a descent of four steps.
  have changedFrame : ∀ table index, tables table index ≠ space.memory.tables table index →
      ∃ path, path.length = 4 ∧
        walk (owns space.memory.tables) (4, space.pml) path = some (0, table) := by
    intro table index changed
    obtain ⟨page, frame, flags, touches, translated, same⟩ := written table index changed
    have bit := exclusive page (low page touches) frame flags translated
    obtain ⟨leaf, place, _, read⟩ := translated_place (by rw [translated]; rfl)
    rw [translated, Option.some.injEq, Prod.mk.injEq] at read
    rw [read.2, owned_flags] at bit
    refine ⟨pagePath page ++ [pageSlot page], by simp [pagePath], ?_⟩
    rw [frame_descent layout page leaf place bit, same, read.1, frame_address]
  constructor
  · intro path table short place index
    by_contra changed
    obtain ⟨descent, long, reached⟩ := changedFrame table index changed
    by_cases lower : Lower path
    · have toTable : walk (owns space.memory.tables) (4, space.pml) path =
          some (4 - path.length, table) := by
        rw [walk_owns _ 4 _ path (by omega) (Nat.le_refl 4) (fun _ => lower), place]
        rfl
      have samePath := layout.distinct path descent _ _ toTable reached rfl
      rw [samePath] at short
      omega
    · rw [layout.upper_walk path lower] at place
      exact layout.apart table ⟨descent, _, reached, rfl⟩ ⟨path, short, place⟩
  · intro table member index
    by_contra changed
    obtain ⟨descent, _, reached⟩ := changedFrame table index changed
    exact layout.apart table ⟨descent, _, reached, rfl⟩ member

/-- Writing through pages of the lower half keeps the upper half. -/
theorem written_kept (layout : Layout space.memory space.pml kernel)
    (exclusive : Exclusive (mapping space)) (tables : Tables) (touched : Nat → Prop)
    (low : ∀ page, touched page → page < lowerPages)
    (written : Written space.memory.tables tables space.pml touched) :
    Kept kernel space (refill space tables) := by
  have stored := written_stored layout exclusive tables touched low written
  have same : mapping (refill space tables) = mapping space := stored.translations
  exact ⟨rfl, (layout.store tables stored).1, same ▸ exclusive, fun page _ => congrFun same page⟩

/-- A write that starts in the lower half stays there: it would have to pass
addresses that are not canonical. -/
theorem touches_lower {start length page : Nat} (low : pageNumber start < lowerPages)
    (touches : Touches start length page) : page < lowerPages := by
  obtain ⟨offset, _, canonical, rfl⟩ := touches
  have below : ∀ earlier ≤ offset, add start earlier < 2 ^ 47 := by
    intro earlier
    induction earlier with
    | zero =>
      intro first
      have here := canonical 0 first
      simp only [Canonical, add, pageNumber, pageSize, lowerPages, wordSize] at *
      omega
    | succ earlier ih =>
      intro inside
      have before := ih (by omega)
      have here := canonical (earlier + 1) inside
      simp only [Canonical, add, wordSize] at *
      omega
  have last := below offset (Nat.le_refl offset)
  simp only [pageNumber, pageSize, lowerPages]
  omega

end Steps

section Histories

variable {kernel : Nat}

/-- An allowed allocation, where every allowed request is confined. -/
theorem Allocated.kept {fuel virtAddr length prot address : Nat} {space next : Space}
    (layout : Layout space.memory space.pml kernel) (exclusive : Exclusive (mapping space))
    (allocated : Allocated Confined fuel space virtAddr length prot address next) :
    Kept kernel space next ∧ (address ≠ 0 →
      pageNumber address < lowerPages ∧ pageNumber virtAddr < lowerPages) := by
  obtain ⟨answer, taken, rfl⟩ := allocated.served
  exact vmmAlloc_kept layout exclusive fuel virtAddr length prot answer next allocated.request taken

/-- A filled segment. -/
theorem Filled.kept {fuel : Nat} {file : ElfFile} {programHeader : ElfPhdr} {space after : Space}
    (layout : Layout space.memory space.pml kernel) (exclusive : Exclusive (mapping space))
    (filled : Filled Confined fuel file programHeader space after) : Kept kernel space after := by
  obtain ⟨address, next, tables, found, allocated, written, rfl⟩ := filled.allocated
  obtain ⟨kept, lower⟩ := allocated.kept layout exclusive
  refine kept.trans (written_kept kept.layout kept.exclusive tables _ ?_ written)
  exact fun page => touches_lower (lower found).2

/-- One segment of a program. -/
theorem LoadSegment.kept {fuel : Nat} {file : ElfFile} {programHeader : ElfPhdr} {space next : Space}
    {goesOn : Bool} (layout : Layout space.memory space.pml kernel)
    (exclusive : Exclusive (mapping space))
    (segment : LoadSegment Confined fuel file programHeader space next goesOn) :
    Kept kernel space next := by
  cases segment with
  | null next allocated => exact (allocated.kept layout exclusive).1
  | unseekable address next _ allocated _ => exact (allocated.kept layout exclusive).1
  | short after filled _ => exact filled.kept layout exclusive
  | writable after filled _ _ => exact filled.kept layout exclusive
  | protect after filled _ _ request =>
    have kept := filled.kept layout exclusive
    exact kept.trans (vmmProtect_kept kept.layout kept.exclusive _ _ _ request)

/-- The loop over the program headers. -/
theorem LoadProgram.kept {fuel index : Nat} {file : ElfFile} {header : ElfHdr} {space last : Space}
    (layout : Layout space.memory space.pml kernel) (exclusive : Exclusive (mapping space))
    (loading : LoadProgram Confined fuel file header index space last) : Kept kernel space last := by
  induction loading with
  | finished index space _ => exact kept_of_memory layout exclusive space rfl rfl
  | unreadable index space _ _ => exact kept_of_memory layout exclusive space rfl rfl
  | skipped index space last programHeader _ _ _ _ ih =>
    exact ih layout exclusive
  | stopped index space last programHeader _ _ _ failed => exact failed.kept layout exclusive
  | loaded index space next last programHeader _ _ _ placed _ ih =>
    have kept := placed.kept layout exclusive
    exact kept.trans (ih kept.layout kept.exclusive)

/-- One call whose requests are all confined. -/
theorem Executes.kept {space next : Space} {call : Call} (layout : Layout space.memory space.pml kernel)
    (exclusive : Exclusive (mapping space)) (executed : Executes Confined space call next) :
    Kept kernel space next := by
  cases executed with
  | mmapNull fuel address length prot next allocated => exact (allocated.kept layout exclusive).1
  | mmap fuel address length prot start next tables found allocated written =>
    obtain ⟨kept, lower⟩ := allocated.kept layout exclusive
    refine kept.trans (written_kept kept.layout kept.exclusive tables _ ?_ written)
    exact fun page => touches_lower (lower found).1
  | munmapRefused address length _ => exact kept_of_memory layout exclusive space rfl rfl
  | munmap address length _ request => exact vmmUnmap_kept layout exclusive address length request
  | mprotectRefused address length prot _ => exact kept_of_memory layout exclusive space rfl rfl
  | mprotect address length prot _ request =>
    exact vmmProtect_kept layout exclusive address length prot request
  | loadRefused fuel file _ => exact kept_of_memory layout exclusive space rfl rfl
  | load fuel file header last _ _ loading => exact loading.kept layout exclusive
  | stack fuel thread address next allocated => exact (allocated.kept layout exclusive).1

/-- A history of confined requests. The induction is on the history, with the
layout and the ownership of the lower half as its invariant. -/
theorem History.kept {space last : Space} {calls : List Call}
    (layout : Layout space.memory space.pml kernel) (exclusive : Exclusive (mapping space))
    (history : History Confined kernel space calls last) : Kept kernel space last := by
  induction history with
  | done space => exact kept_of_memory layout exclusive space rfl rfl
  | call call executed _ ih =>
    have kept := executed.kept layout exclusive
    exact kept.trans (ih kept.layout kept.exclusive)
  | write tables written _ ih =>
    have kept := written_kept layout exclusive tables _ (fun _ low => low) written
    exact kept.trans (ih kept.layout kept.exclusive)
  | @restock space _ _ supply stocked _ ih =>
    have kept : Kept kernel space { space with memory := { space.memory with supply := supply } } :=
      ⟨rfl, layout.restock supply stocked, exclusive, fun _ _ => rfl⟩
    exact kept.trans (ih kept.layout kept.exclusive)

/-- A new space maps nothing in the lower half. -/
theorem init_exclusive (memory : Pml) (space : Space) (created : spaceInit memory kernel = some space) :
    Exclusive (mapping space) := by
  obtain ⟨_, _, same⟩ := spaceInit_cases created
  rw [mapping, same]
  intro page low frame flags translated
  obtain ⟨table, place, _⟩ := translated_place (by
    rw [translated]
    rfl)
  have inside : page < pageCount := Nat.lt_of_lt_of_le low (by decide)
  have lower := (lower_page inside).mpr low
  have empty := newRoot_lower memory.tables kernel space.pml _ (lower _ rfl)
  rw [pagePath, walk, links] at place
  simp only [empty] at place
  contradiction

/-- In every history of a process, from `space_init` on, whose requests are all
confined, every translation of the upper half is the one the new space and the
kernel's table had at the start, in the process's table and in the kernel's. -/
theorem kernel_half_kept (memory : Pml) (space last : Space) (calls : List Call)
    (kernelLayout : KernelLayout memory.tables kernel)
    (stocked : Stocked memory.supply ∅ (kernelTables memory.tables kernel))
    (created : spaceInit memory kernel = some space)
    (history : History Confined kernel space calls last) (page : Nat) (high : lowerPages ≤ page) :
    translation last.memory.tables last.pml page = translation space.memory.tables space.pml page ∧
      translation last.memory.tables kernel page = translation space.memory.tables kernel page := by
  have newSpace := init_newSpace kernelLayout stocked created
  have kept := history.kept newSpace.layout (init_exclusive memory space created)
  have own := kept.upper page high
  refine ⟨own, ?_⟩
  rw [← upper_translation kept.layout page high, ← upper_translation newSpace.layout page high]
  exact own

end Histories

section Boot

variable {kernel : Nat} {pml next : Pml}

/-- `vmm_kernel_map`: a page of the kernel is global and not owned. -/
def vmmKernelMap (pml : Pml) (kernelPml virtAddr physAddr length : Nat) : Option (Nat × Pml) := do
  let chosen := if virtAddr = 0 then lowerToHigher physAddr else virtAddr
  let next ← pmlMap pml kernelPml chosen physAddr (sizeInPages length) (pageWrite ||| pageGlobal)
  some (chosen, next)

/-- Mapping pages without the owned bit keeps the kernel's layout. -/
theorem map_kernelLayout (layout : KernelLayout pml.tables kernel) (sound : Sound pml kernel)
    (virtAddr physAddr pageAmount flags : Nat) (small : flags < 2 ^ 12) (unowned : owned flags = false)
    (taken : pmlMap pml kernel virtAddr physAddr pageAmount flags = some next) :
    KernelLayout next.tables kernel ∧ Sound next kernel := by
  induction pageAmount generalizing pml virtAddr physAddr with
  | zero =>
    obtain rfl : pml = next := Option.some.inj taken
    exact ⟨layout, sound⟩
  | succ pageAmount ih =>
    rw [pmlMap, Option.bind_eq_bind, Option.bind_eq_some_iff] at taken
    obtain ⟨middle, here, rest⟩ := taken
    have entryUnowned := (owned_create physAddr flags small).trans unowned
    have middleLayout := layout.mapPage sound virtAddr physAddr flags small entryUnowned here
    obtain ⟨middleSound, _⟩ := mapPage_spec pml middle kernel virtAddr physAddr flags sound small here
    exact ih middleLayout middleSound _ _ rest

/-- The kernel's own mappings keep the layout that every space relies on. -/
theorem vmmKernelMap_layout (layout : KernelLayout pml.tables kernel) (sound : Sound pml kernel)
    (virtAddr physAddr length address : Nat)
    (taken : vmmKernelMap pml kernel virtAddr physAddr length = some (address, next)) :
    KernelLayout next.tables kernel ∧ Sound next kernel := by
  rw [vmmKernelMap, Option.bind_eq_bind, Option.bind_eq_some_iff] at taken
  obtain ⟨mapped, here, ended⟩ := taken
  obtain rfl : mapped = next := congrArg Prod.snd (Option.some.inj ended)
  exact map_kernelLayout layout sound _ _ _ _ (by decide) (by decide) here

end Boot

/-- An empty kernel table with twelve pages to allocate. -/
def bootMemory : Pml := { sampleTables with supply := pagesFrom (lowerToHigher 0x200000) 12 }

/-- The boot memory is sound. -/
theorem bootMemory_sound : Sound bootMemory sampleRoot := by
  have apart : ∀ page ∈ bootMemory.supply, page ≠ sampleRoot := by decide +kernel
  have pages : ∀ page ∈ bootMemory.supply,
      page % pageSize = 0 ∧ vmmHigherHalfBase ≤ page ∧ page < wordSize := by decide +kernel
  refine ⟨sampleTables_sound.tree, by decide +kernel, pages, ?_⟩
  intro page member path _ reached
  exact apart page member (cleared_walk (fun _ => rfl) path page reached).2

/-- The boot memory after one page of the kernel was mapped. -/
def kernelMemory : Pml :=
  ((vmmKernelMap bootMemory sampleRoot 0xFFFFFF8000000000 0x7000 0x1000).map Prod.snd).getD bootMemory

/-- The kernel's table with one mapped page has the kernel's layout. -/
theorem kernelMemory_layout : KernelLayout kernelMemory.tables sampleRoot ∧ Sound kernelMemory sampleRoot := by
  have returns : (vmmKernelMap bootMemory sampleRoot 0xFFFFFF8000000000 0x7000 0x1000).isSome := by
    decide +kernel
  obtain ⟨⟨address, next⟩, taken⟩ := Option.isSome_iff_exists.mp returns
  have result : kernelMemory = next := by rw [kernelMemory, taken, Option.map_some, Option.getD_some]
  rw [result]
  have empty : KernelLayout bootMemory.tables sampleRoot := sampleTables_kernel
  exact vmmKernelMap_layout empty bootMemory_sound _ _ _ _ taken

/-- A new process beside the kernel's table with one mapped page. -/
def kernelSpace : Space := (spaceInit kernelMemory sampleRoot).getD emptySpace

/-- The new process is created. -/
theorem kernelSpace_created : spaceInit kernelMemory sampleRoot = some kernelSpace := by
  have returns : (spaceInit kernelMemory sampleRoot).isSome := by decide +kernel
  obtain ⟨space, taken⟩ := Option.isSome_iff_exists.mp returns
  rw [kernelSpace, taken, Option.getD_some]

/-- The process after `mmap` of one page, from an address on. -/
def kernelSpaceAfter (address : Nat) : Space :=
  ((vmmAlloc 0 kernelSpace address 0x1000 protRead).map Prod.snd).getD kernelSpace

/-- `mmap` of one page executes, where the pages it gets are already clear. -/
theorem mmap_executes {allowed : Space → Request → Prop} {address : Nat}
    (request : allowed kernelSpace (.alloc 0 address 0x1000 protRead))
    (granted : (vmmAlloc 0 kernelSpace address 0x1000 protRead).map (fun answer => pointer answer.1) =
      some address) (found : address ≠ 0) :
    Executes allowed kernelSpace (.mmap 0 address 0x1000 protRead) (kernelSpaceAfter address) := by
  obtain ⟨⟨answer, next⟩, taken, returned⟩ := Option.map_eq_some_iff.mp granted
  have result : kernelSpaceAfter address = next := by
    rw [kernelSpaceAfter, taken, Option.map_some, Option.getD_some]
  rw [result]
  refine .mmap 0 address 0x1000 protRead address next next.memory.tables found
    ⟨request, answer, taken, returned⟩ ?_
  intro table index changed
  exact absurd rfl changed

/-- A process that maps one page of the lower half keeps the translation of the
kernel's page, in its own table and in the kernel's. -/
theorem kernel_half_kept_sample :
    History Confined sampleRoot kernelSpace [.mmap 0 0x400000 0x1000 protRead] (kernelSpaceAfter 0x400000) ∧
      translation (kernelSpaceAfter 0x400000).memory.tables (kernelSpaceAfter 0x400000).pml
        (pageNumber 0xFFFFFF8000000000) = some (7, 0x103) ∧
      translation (kernelSpaceAfter 0x400000).memory.tables sampleRoot
        (pageNumber 0xFFFFFF8000000000) = some (7, 0x103) := by
  have confined : Confined kernelSpace (.alloc 0 0x400000 0x1000 protRead) := by
    refine .inr (.inr fun chosen searched choice => .inr ?_)
    obtain rfl : 0x400000 = chosen := congrArg Prod.fst (Option.some.inj choice)
    have counted : requestPages 0x400000 0x1000 = 1 := by decide
    have lower : ∀ position < 1, (pageNumber 0x400000 + position) % pageCount < lowerPages := by decide
    rw [← counted] at lower
    exact lower
  have history : History Confined sampleRoot kernelSpace [.mmap 0 0x400000 0x1000 protRead]
      (kernelSpaceAfter 0x400000) :=
    .call _ (mmap_executes confined (by decide +kernel) (by decide)) (.done _)
  obtain ⟨own, shared⟩ := kernel_half_kept kernelMemory kernelSpace _ _ kernelMemory_layout.1
    (stocked_of_sound kernelMemory_layout.2) kernelSpace_created history
    (pageNumber 0xFFFFFF8000000000) (by decide)
  refine ⟨history, own.trans ?_, shared.trans ?_⟩
  · decide +kernel
  · decide +kernel

/-- `mmap` takes an address of the upper half: a new process that maps the page
after the kernel's page changes its own table and the kernel's. -/
theorem mmap_changes_kernel_half :
    KernelLayout kernelMemory.tables sampleRoot ∧
      Stocked kernelMemory.supply ∅ (kernelTables kernelMemory.tables sampleRoot) ∧
      spaceInit kernelMemory sampleRoot = some kernelSpace ∧
      History (fun _ _ => True) sampleRoot kernelSpace [.mmap 0 0xFFFFFF8000001000 0x1000 protRead]
        (kernelSpaceAfter 0xFFFFFF8000001000) ∧
      lowerPages ≤ pageNumber 0xFFFFFF8000001000 ∧
      translation kernelSpace.memory.tables kernelSpace.pml (pageNumber 0xFFFFFF8000001000) = none ∧
      translation (kernelSpaceAfter 0xFFFFFF8000001000).memory.tables
        (kernelSpaceAfter 0xFFFFFF8000001000).pml (pageNumber 0xFFFFFF8000001000) =
          some (0x204, 0x205) ∧
      translation kernelSpace.memory.tables sampleRoot (pageNumber 0xFFFFFF8000001000) = none ∧
      translation (kernelSpaceAfter 0xFFFFFF8000001000).memory.tables sampleRoot
        (pageNumber 0xFFFFFF8000001000) = some (0x204, 0x205) := by
  refine ⟨kernelMemory_layout.1, stocked_of_sound kernelMemory_layout.2, kernelSpace_created,
    .call _ (mmap_executes trivial (by decide +kernel) (by decide)) (.done _),
    by decide, ?_, ?_, ?_, ?_⟩
  all_goals decide +kernel

end Asym.KernelHalf
