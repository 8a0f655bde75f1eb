import Asym.BootTables
import Asym.SpaceSharing

/-!
# Taking over from the boot loader

The kernel starts on the boot loader's page tables and builds its own in `vmm_init`: from the memory map
with the addresses that `vm_map_init` wrote into it, the pages of the kernel itself, and the frame buffer.
Then it loads them, while its code, its stack and what the boot loader left for it are in use.

Every page of the kernel and every frame of the memory map has the same place in both. With the new
tables the address spaces of the kernel start, and what is known of all their runs holds from there on.

The two memory maps need not be the same: the boot loader allocates between the first and the last one.
-/

namespace Asym.KernelHandover

open MachineWords PhysicalMemory PageEntries PageTables LinkedWalks PageTree PageRefinement
open SpaceLayout KernelHalf KernelMappings EventRuns
open SpaceSharing (Event Agree Rooted lend lend_eq settle initial initial_kept)
open BootTables (Boot Region Describes Described Firmware directMap directMap_nil directMap_snoc upperPage
  bootTranslation vmInit vmAllocPages vmInit_direct pmlMapPages_spec sampleBoot samplePage)

/-! ## The source -/

/-- The fields of `efi_mem_desc_t` that `vmm_load_memory_map` reads. -/
structure EfiMemDesc where
  physicalStart : Nat
  virtualStart : Nat
  amountOfPages : Nat

/-- `vm_map_init`: a descriptor with its address in the upper half. -/
def vmMapInit (memoryMap : List MemoryDescriptor) : List EfiMemDesc :=
  memoryMap.map fun desc =>
    ⟨desc.physicalStart, add vmmHigherHalfBase desc.physicalStart, desc.amountOfPages⟩

/-- The fields of `boot_kernel_t` that `vmm_init` reads. -/
structure BootKernel where
  physStart : Nat
  virtStart : Nat
  length : Nat

/-- The fields of `gop_buffer_t` that `vmm_init` reads. -/
structure GopBuffer where
  base : Nat
  size : Nat

/-- `vmm_load_memory_map`, with the page for the root. -/
def vmmLoadMemoryMap (pml : Pml) (kernelPml : Nat) (memoryMap : List EfiMemDesc) : Option Pml :=
  memoryMap.foldlM (fun pml desc => pmlMap pml kernelPml desc.virtualStart desc.physicalStart desc.amountOfPages
      (pageWrite ||| pageGlobal))
    { pml with tables := clearTable pml.tables kernelPml }

/-- `vmm_init`: where the frame buffer is, and the tables. -/
def vmmInit (pml : Pml) (kernelPml : Nat) (memoryMap : List EfiMemDesc) (kernel : BootKernel)
    (gopBuffer : GopBuffer) : Option (Nat × Pml) := do
  let loaded ← vmmLoadMemoryMap pml kernelPml memoryMap
  let mapped ← pmlMap loaded kernelPml kernel.virtStart kernel.physStart (sizeInPages kernel.length)
    (pageWrite ||| pageGlobal)
  vmmKernelMap mapped kernelPml 0 gopBuffer.base gopBuffer.size

/-! ## The tables of the kernel -/

variable {start pml next : Pml} {kernelPml : Nat} {memory : SpaceSharing.Boot} {supply : List Nat}

/-- Tables of the kernel that map what a flat map says, from a start on. -/
structure Maps (start : Pml) (kernelPml : Nat) (flat : FlatMap) (pml : Pml) : Prop where
  layout : KernelLayout pml.tables kernelPml
  mapped : ∃ pages, Mapped kernelPml start pml pages
  translates : translation pml.tables kernelPml = flat

/-- A cleared root maps nothing. -/
theorem cleared_maps (lent : lend (initial memory) supply = some start) :
    Maps start memory.kernel (fun _ => none) start := by
  have kept := initial_kept memory
  have sound := kept.sound lent
  obtain ⟨rfl, _⟩ := lend_eq lent
  exact ⟨kept.layout, ⟨∅, Mapped.refl sound⟩, cleared_translation fun _ => if_pos rfl⟩

/-- The kernel maps a region. -/
theorem Maps.region {flat : FlatMap} (maps : Maps start kernelPml flat pml) {virtAddr physAddr pageAmount : Nat}
    (region : Region virtAddr physAddr pageAmount)
    (taken : pmlMap pml kernelPml virtAddr physAddr pageAmount (pageWrite ||| pageGlobal) = some next) :
    Maps start kernelPml
      (mapRange flat (pageNumber virtAddr) (physAddr / pageSize) pageAmount (pageWrite ||| pageGlobal)) next := by
  obtain ⟨layout, ⟨pages, mapped⟩, translates⟩ := maps
  obtain ⟨nextLayout, _⟩ := map_kernelLayout layout mapped.sound virtAddr physAddr pageAmount _ (by decide)
    (by decide) taken
  have refined := map_refines mapped.sound (by decide)
    region.aligned region.pages region.frames taken
  have more := mapped.trans (map_mapped mapped.sound (by decide) taken)
  exact ⟨nextLayout, ⟨_, more⟩, refined.2.trans (by rw [translates])⟩

/-- The loop over the memory map. -/
theorem Maps.loadAll (rest : List MemoryDescriptor) {done : List MemoryDescriptor}
    (maps : Maps start kernelPml (directMap done (pageWrite ||| pageGlobal)) pml)
    (describes : ∀ desc ∈ rest, Describes desc)
    (taken : (vmMapInit rest).foldlM (fun pml desc => pmlMap pml kernelPml desc.virtualStart desc.physicalStart
      desc.amountOfPages (pageWrite ||| pageGlobal)) pml = some next) :
    Maps start kernelPml (directMap (done ++ rest) (pageWrite ||| pageGlobal)) next := by
  induction rest generalizing pml done with
  | nil =>
    obtain rfl := Option.some.inj taken
    rwa [List.append_nil]
  | cons desc rest ih =>
    rw [vmMapInit, List.map_cons, List.foldlM_cons, Option.bind_eq_bind, Option.bind_eq_some_iff] at taken
    obtain ⟨middle, here, later⟩ := taken
    have describesHere := describes desc List.mem_cons_self
    have mapped := maps.region describesHere.region here
    rw [directMap_snoc _ describesHere] at mapped
    have all := ih mapped (List.forall_mem_of_forall_mem_cons describes) later
    rwa [List.append_assoc, List.singleton_append] at all

/-- The number of pages of a length. -/
theorem sizeInPages_pages {pageAmount : Nat} (small : pageAmount * pageSize ≤ 2 ^ 52) :
    sizeInPages (pageAmount * pageSize) = pageAmount := by
  simp only [sizeInPages, sub, add, pageSize, wordSize] at *
  omega

/-- The pages of the kernel. -/
def KernelPage (virtAddr pageAmount page : Nat) : Prop :=
  pageNumber virtAddr ≤ page ∧ page < pageNumber virtAddr + pageAmount

/-- A page of the kernel leads to its frame. -/
theorem mapRange_own {virtAddr pageAmount page : Nat} (own : KernelPage virtAddr pageAmount page) (flat : FlatMap)
    (frame flags : Nat) : mapRange flat (pageNumber virtAddr) frame pageAmount flags page =
      some (frame + (page - pageNumber virtAddr), flags ||| pagePresent) := if_pos own

/-- Another page does not change. -/
theorem mapRange_other {virtAddr pageAmount page : Nat} (other : ¬KernelPage virtAddr pageAmount page) (flat : FlatMap)
    (frame flags : Nat) : mapRange flat (pageNumber virtAddr) frame pageAmount flags page = flat page := if_neg other

/-- The address space of the kernel: each frame of the memory map at its place in the upper half, its own
pages, and the frame buffer. -/
def kernelMap (memoryMap : List MemoryDescriptor) (kernel : BootKernel) (pageAmount : Nat) (gopBuffer : GopBuffer) :
    FlatMap :=
  mapRange
    (mapRange (directMap memoryMap (pageWrite ||| pageGlobal)) (pageNumber kernel.virtStart)
      (kernel.physStart / pageSize) pageAmount (pageWrite ||| pageGlobal))
    (upperPage + gopBuffer.base / pageSize) (gopBuffer.base / pageSize) (sizeInPages gopBuffer.size)
    (pageWrite ||| pageGlobal)

/-- The memory of the frame buffer. Its type is memory-mapped I/O. -/
def GopBuffer.descriptor (gopBuffer : GopBuffer) : MemoryDescriptor :=
  ⟨11, gopBuffer.base, sizeInPages gopBuffer.size⟩

/-- `vmm_init` builds the address space of the kernel. -/
theorem vmmInit_maps {memoryMap : List MemoryDescriptor} {kernel : BootKernel} {gopBuffer : GopBuffer}
    {pageAmount base : Nat} (lent : lend (initial memory) supply = some start)
    (describes : ∀ desc ∈ memoryMap, Describes desc) (region : Region kernel.virtStart kernel.physStart pageAmount)
    (length : kernel.length = pageAmount * pageSize) (frameBuffer : Describes gopBuffer.descriptor)
    (taken : vmmInit ⟨memory.tables, supply, []⟩ memory.kernel (vmMapInit memoryMap) kernel gopBuffer =
      some (base, next)) :
    Maps start memory.kernel (kernelMap memoryMap kernel pageAmount gopBuffer) next := by
  simp only [vmmInit, Option.bind_eq_bind, Option.bind_eq_some_iff] at taken
  obtain ⟨loaded, loads, mapped, maps, buffer⟩ := taken
  have small : pageAmount * pageSize ≤ 2 ^ 52 := Nat.le_trans (Nat.le_add_left _ _) region.frames
  rw [length, sizeInPages_pages small] at maps
  have empty := cleared_maps lent
  obtain ⟨rfl, _⟩ := lend_eq lent
  rw [← directMap_nil] at empty
  have direct := empty.loadAll memoryMap describes loads
  have own := direct.region region maps
  simp only [vmmKernelMap, if_true, Option.bind_eq_bind, Option.bind_eq_some_iff] at buffer
  obtain ⟨last, shown, done⟩ := buffer
  obtain rfl : last = next := congrArg Prod.snd (Option.some.inj done)
  have place : lowerToHigher gopBuffer.base = add vmmHigherHalfBase gopBuffer.base := by
    rw [lowerToHigher, add, add, Nat.add_comm]
  rw [place] at shown
  have all := own.region frameBuffer.region shown
  rw [frameBuffer.page] at all
  exact all

/-- The kernel takes over: its own tables lead from every page of the kernel, and from the place of every
frame of its memory map, to the frame to which the boot loader's tables lead. From there on all spaces
always agree with the kernel on the higher half, if and only if a page of it that is mapped for the
kernel while there are spaces has an entry in the kernel's root already. Both memory maps and the frame
buffer are below `2 ^ 47`, and the place of the frame buffer is apart from the pages of the kernel.

Proof: both translations are known page by page, and the runs begin in the state that is left. -/
theorem handover_kept {boot started last : Boot} {cr3 pageTable : Nat} {bootMap memoryMap : List MemoryDescriptor}
    {kernel : BootKernel} {gopBuffer : GopBuffer} {pageAmount base : Nat} (firmware : Firmware boot.supply)
    (inUse : cr3 ∉ boot.supply) (bootDescribes : ∀ desc ∈ bootMap, Describes desc)
    (starts : vmInit boot cr3 bootMap = some (pageTable, started))
    (region : Region kernel.virtStart kernel.physStart pageAmount)
    (allocated : vmAllocPages started pageTable kernel.physStart kernel.virtStart pageAmount = some last)
    (length : kernel.length = pageAmount * pageSize) (distinct : supply.Nodup)
    (free : ∀ page ∈ supply, page ∈ memory.free) (describes : ∀ desc ∈ memoryMap, Describes desc)
    (frameBuffer : Describes gopBuffer.descriptor)
    (apart : ∀ page, KernelPage kernel.virtStart pageAmount page →
      ¬(upperPage + gopBuffer.base / pageSize ≤ page ∧
        page < upperPage + gopBuffer.base / pageSize + sizeInPages gopBuffer.size))
    (taken : vmmInit ⟨memory.tables, supply, []⟩ memory.kernel (vmMapInit memoryMap) kernel gopBuffer =
      some (base, next)) :
    (∀ page frame flags, upperPage ≤ page → bootTranslation last.tables pageTable page = some (frame, flags) →
      KernelPage kernel.virtStart pageAmount page ∨ Described memoryMap frame →
      (translation next.tables memory.kernel page).map Prod.fst = some frame) ∧
    ∀ events : List Event,
      Always (SpaceSharing.step memory.kernel) (settle (initial memory) supply next) (Agree memory.kernel) events ↔
        Each (SpaceSharing.step memory.kernel) (settle (initial memory) supply next) (Rooted memory.kernel) events := by
  obtain ⟨built, _, direct⟩ := vmInit_direct firmware inUse bootDescribes starts
  obtain ⟨builtLast, _, mapped⟩ := pmlMapPages_spec built (by decide) region allocated
  have lent : lend (initial memory) supply = some ⟨_, supply, []⟩ := if_pos ⟨distinct, free⟩
  obtain ⟨layout, ⟨_, grown⟩, translates⟩ := vmmInit_maps lent describes region length frameBuffer taken
  refine ⟨?_, ((initial_kept memory).settle lent grown layout).agrees_iff rfl⟩
  intro page frame flags upper found kept
  rw [builtLast.translation_seen upper, mapped, direct] at found
  rw [translates, kernelMap]
  by_cases own : KernelPage kernel.virtStart pageAmount page
  · rw [mapRange_own own] at found
    rw [mapRange, if_neg (apart page own), mapRange_own own]
    obtain ⟨rfl, _⟩ := Prod.mk.inj (Option.some.inj found)
    rfl
  · rw [mapRange_other own, directMap] at found
    split_ifs at found
    obtain ⟨rfl, _⟩ := Prod.mk.inj (Option.some.inj found)
    have described := kept.resolve_left own
    rw [mapRange]
    split_ifs with shown
    · generalize gopBuffer.base / pageSize = buffer at *
      have frame : buffer + (page - (upperPage + buffer)) = page - upperPage := by omega
      rw [frame, Option.map_some]
    · rw [mapRange_other own, directMap, if_pos ⟨upper, described⟩, Option.map_some]

/-- The memory that the kernel starts with. -/
abbrev sampleMemory : SpaceSharing.Boot := SpaceSharing.sampleBoot

/-- A kernel of one page. -/
def sampleImage : BootKernel := ⟨0x600000, 0xFFFFFFFF80000000, 0x1000⟩

/-- A frame buffer of one page. -/
def sampleBuffer : GopBuffer := ⟨0x400000, 0x1000⟩

/-- The page of the kernel is not the one of the frame buffer. -/
theorem sample_apart (page : Nat) (own : KernelPage sampleImage.virtStart 1 page) :
    ¬(upperPage + sampleBuffer.base / pageSize ≤ page ∧
      page < upperPage + sampleBuffer.base / pageSize + sizeInPages sampleBuffer.size) := by
  have kernelPage : pageNumber sampleImage.virtStart = upperPage + 0x7FFF80000 := by decide
  have buffer : sampleBuffer.base / pageSize = 0x400 ∧ sizeInPages sampleBuffer.size = 1 := by decide
  rw [KernelPage, kernelPage] at own
  rw [buffer.1, buffer.2]
  omega

/-- The boot loader starts on one page of memory and maps the page of the kernel, and the kernel takes over. -/
theorem handover_kept_sample : ∃ base next,
    vmmInit ⟨sampleMemory.tables, sampleMemory.free, []⟩ sampleMemory.kernel (vmMapInit samplePage) sampleImage
        sampleBuffer = some (base, next) ∧
      (translation next.tables sampleMemory.kernel (pageNumber sampleImage.virtStart)).map Prod.fst = some 0x600 := by
  have firmware : Firmware sampleBoot.supply := ⟨by decide, by decide⟩
  have describes : ∀ desc ∈ samplePage, Describes desc :=
    List.forall_mem_singleton.mpr ⟨by decide, by decide, by decide⟩
  have region : Region sampleImage.virtStart sampleImage.physStart 1 := ⟨by decide, by decide, by decide, by decide⟩
  have distinct : sampleMemory.free.Nodup := by decide +kernel
  have frameBuffer : Describes sampleBuffer.descriptor := ⟨by decide, by decide, by decide⟩
  obtain ⟨pageTable, started, last, starts, allocated, found⟩ : ∃ pageTable started last,
      vmInit sampleBoot 0x500000 samplePage = some (pageTable, started) ∧
        vmAllocPages started pageTable sampleImage.physStart sampleImage.virtStart 1 = some last ∧
          bootTranslation last.tables pageTable (pageNumber sampleImage.virtStart) = some (0x600, 3) :=
    ⟨_, _, _, rfl, rfl, by decide +kernel⟩
  have returns : (vmmInit ⟨sampleMemory.tables, sampleMemory.free, []⟩ sampleMemory.kernel (vmMapInit samplePage)
      sampleImage sampleBuffer).isSome := by decide +kernel
  obtain ⟨⟨base, next⟩, taken⟩ := Option.isSome_iff_exists.mp returns
  obtain ⟨kept, _⟩ := handover_kept firmware (by decide) describes starts region allocated rfl distinct
    (fun _ member => member) describes frameBuffer sample_apart taken
  have own : KernelPage sampleImage.virtStart 1 (pageNumber sampleImage.virtStart) :=
    ⟨Nat.le_refl _, Nat.lt_succ_self _⟩
  exact ⟨base, next, taken, kept _ 0x600 3 (by decide) found (.inl own)⟩

end Asym.KernelHandover
