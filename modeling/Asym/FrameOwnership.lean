import Asym.PageAccounting
import Asym.UserBuffers

/-!
# Ownership of frames over the life of an address space

The log of a run is the concatenation of the logs of its calls. It starts with
nothing held; at every moment between two calls the held pages are the pages of
the space; and the release of the space gives all of them back.

Between the calls the rest of the system may change any memory outside the
tables, which covers what programs write into their frames, and may decide anew
what the allocator is going to return.
-/

namespace Asym.FrameOwnership

open MachineWords PhysicalMemory PageEntries PageTables LinkedWalks PageTree PageRefinement
open VirtualMemory MappingRequests UserBuffers Leases Descents SpaceLayout PageAccounting

/-- Log of `space_init`. -/
def initLog (kernelPml table : Nat) : List (Event Nat) :=
  .take table :: .use table ::
    (List.range upperIndex).flatMap (fun _ => [.use kernelPml, .use table])

/-- Log of `space_cleanup`. -/
def cleanupLog (space : Space) : List (Event Nat) :=
  (List.replicate upperIndex space.pml).map .use ++
    freeLevelLog (clearUpper space.memory.tables space.pml) 5 space.pml

/-- Tables that the loop of `vmm_find_free_region` accesses. -/
def findReads (space : Space) (pageAmount : Nat) : Nat → Nat → List Nat
  | 0, _ => []
  | fuel + 1, addr =>
      if addr < roundDown (wordSize - 1) 0x1000 then
        mappedReads space.memory.tables space.pml addr pageAmount ++
          if !pmlMapped space.memory.tables space.pml addr pageAmount then []
          else findReads space pageAmount fuel (add addr (mul pageAmount pageSize))
      else []

/-- Tables that the choice of a region accesses. -/
def chooseReads (fuel : Nat) (space : Space) (virtAddr length : Nat) : List Nat :=
  if virtAddr = 0 then findReads space (sizeInPages length) fuel space.freeAddress else []

/-- Log of the common part of `vmm_alloc` and `vmm_map`, over the log of the
step that installs the pages. -/
def serveLog (fuel : Nat) (space : Space) (virtAddr length : Nat)
    (installLog : Pml → Nat → Nat → Nat → List (Event Nat)) : List (Event Nat) :=
  (chooseReads fuel space virtAddr length).map .use ++
    match chooseRegion fuel space virtAddr length with
    | none => []
    | some (chosen, searched) =>
      (mappedReads searched.memory.tables searched.pml (roundDown chosen pageSize)
          (requestPages chosen length)).map .use ++
        if pmlMapped searched.memory.tables searched.pml (roundDown chosen pageSize)
            (requestPages chosen length) then []
        else installLog searched.memory searched.pml (roundDown chosen pageSize)
          (requestPages chosen length)

/-- Log of `vmm_alloc`. -/
def vmmAllocLog (fuel : Nat) (space : Space) (virtAddr length prot : Nat) : List (Event Nat) :=
  if length = 0 then []
  else match vmmProtToFlags prot with
    | none => []
    | some flags => serveLog fuel space virtAddr length
        (fun pml table aligned pages => allocLog pml table aligned (flags ||| pageOwned) 0 pages)

/-- Log of `vmm_map`. -/
def vmmMapLog (fuel : Nat) (space : Space) (virtAddr physAddr length prot : Nat) : List (Event Nat) :=
  if physAddr = 0 then []
  else if length = 0 then []
  else match vmmProtToFlags prot with
    | none => []
    | some flags => serveLog fuel space virtAddr length
        (fun pml table aligned pages => mapLog pml table aligned (roundDown physAddr pageSize) pages flags)

/-- Log of `vmm_unmap`. -/
def vmmUnmapLog (space : Space) (virtAddr length : Nat) : List (Event Nat) :=
  let (aligned, total) := vmmAlignRegion virtAddr length
  (mappedReads space.memory.tables space.pml aligned (sizeInPages total)).map .use ++
    if pmlMapped space.memory.tables space.pml aligned (sizeInPages total) then
      unmapLog space.memory space.pml aligned (sizeInPages total)
    else []

/-- Log of `vmm_protect`. -/
def vmmProtectLog (space : Space) (virtAddr length prot : Nat) : List (Event Nat) :=
  match vmmProtToFlags prot with
  | none => []
  | some flags =>
      let (aligned, total) := vmmAlignRegion virtAddr length
      (mappedReads space.memory.tables space.pml aligned (sizeInPages total)).map .use ++
        if pmlMapped space.memory.tables space.pml aligned (sizeInPages total) then
          changeFlagsLog space.memory space.pml aligned (sizeInPages total) flags
        else []

section Calls

variable {kernel : Nat} {space : Space}

/-- The pages of a space, in the memory it lives in. -/
abbrev pagesOf (space : Space) : Set Nat := spacePages space.memory.tables space.pml

/-- What a call on a space does to the space's memory. -/
abbrev Served (kernel : Nat) (space next : Space) (events : List (Event Nat)) : Prop :=
  next.pml = space.pml ∧
    Performed space.pml kernel space.memory next.memory (pagesOf space) (pagesOf next) events

/-- A search for a free region changes only where the next one starts. -/
theorem find_memory (pageAmount fuel addr address : Nat) (searched : Space)
    (found : findFreeRegionFrom space pageAmount fuel addr = some (address, searched)) :
    searched.memory = space.memory ∧ searched.pml = space.pml := by
  induction fuel generalizing addr with
  | zero => contradiction
  | succ fuel ih =>
    rw [findFreeRegionFrom] at found
    split at found
    · split at found
      · simp only [Option.some.injEq, Prod.mk.injEq] at found
        rw [← found.2]
        exact ⟨rfl, rfl⟩
      · exact ih _ found
    · contradiction

/-- The choice of a region changes only where the next search starts. -/
theorem choose_memory {fuel virtAddr length chosen : Nat} {searched : Space}
    (choice : chooseRegion fuel space virtAddr length = some (chosen, searched)) :
    searched.memory = space.memory ∧ searched.pml = space.pml := by
  rw [chooseRegion] at choice
  split at choice
  · exact find_memory _ _ _ _ searched choice
  · simp only [Option.some.injEq, Prod.mk.injEq] at choice
    rw [← choice.2]
    exact ⟨rfl, rfl⟩

/-- The choice of a region accesses tables of the space or of the kernel. -/
theorem chooseReads_allowed (layout : Layout space.memory space.pml kernel) (fuel virtAddr length : Nat) :
    ∀ page ∈ chooseReads fuel space virtAddr length,
      page ∈ pagesOf space ∨ page ∈ kernelTables space.memory.tables kernel := by
  have loop : ∀ (fuel addr pageAmount : Nat), ∀ page ∈ findReads space pageAmount fuel addr,
      page ∈ pagesOf space ∨ page ∈ kernelTables space.memory.tables kernel := by
    intro fuel
    induction fuel with
    | zero => simp [findReads]
    | succ fuel ih =>
      intro addr pageAmount page member
      rw [findReads] at member
      split at member
      · rcases List.mem_append.mp member with here | later
        · exact mappedReads_allowed layout addr pageAmount page here
        · split at later
          · contradiction
          · exact ih _ _ page later
      · contradiction
  intro page member
  rw [chooseReads] at member
  split at member
  · exact loop _ _ _ page member
  · contradiction

/-- The common part of `vmm_alloc` and `vmm_map`, over what installing the pages
does. -/
theorem serve_performed (layout : Layout space.memory space.pml kernel) (fuel virtAddr length : Nat)
    (install : Pml → Nat → Nat → Nat → Option Pml)
    (installLog : Pml → Nat → Nat → Nat → List (Event Nat)) (answer : Except Errno Nat) (next : Space)
    (taken : serveRequest fuel space virtAddr length install = some (answer, next))
    (installs : ∀ chosen searched memory, chooseRegion fuel space virtAddr length = some (chosen, searched) →
      (∃ address, answer = .ok address) →
      install space.memory space.pml (roundDown chosen pageSize) (requestPages chosen length) = some memory →
      Performed space.pml kernel space.memory memory (pagesOf space) (spacePages memory.tables space.pml)
        (installLog space.memory space.pml (roundDown chosen pageSize) (requestPages chosen length))) :
    Served kernel space next (serveLog fuel space virtAddr length installLog) := by
  rw [serveRequest, Option.bind_eq_bind, Option.bind_eq_some_iff] at taken
  obtain ⟨⟨chosen, searched⟩, choice, taken⟩ := taken
  obtain ⟨sameMemory, sameRoot⟩ := choose_memory choice
  have choosing := performed_uses layout (pagesOf space) _ (chooseReads_allowed layout fuel virtAddr length)
  have testing := performed_uses layout (pagesOf space) _
    (mappedReads_allowed layout (roundDown chosen pageSize) (requestPages chosen length))
  simp only [serveLog, choice, sameMemory, sameRoot] at taken ⊢
  split at taken
  · rename_i mapped
    simp only [Option.some.injEq, Prod.mk.injEq] at taken
    obtain ⟨_, rfl⟩ := taken
    rw [if_pos mapped, List.append_nil, Served, pagesOf, pagesOf, sameMemory, sameRoot]
    exact ⟨rfl, choosing.append testing⟩
  · rename_i unmapped
    simp only [Option.bind_eq_bind, Option.bind_eq_some_iff, Option.some.injEq, Prod.mk.injEq] at taken
    obtain ⟨memory, installed, accepted, rfl⟩ := taken
    rw [if_neg unmapped, Served, pagesOf, pagesOf]
    exact ⟨rfl, choosing.append (testing.append
      (installs chosen searched memory choice ⟨_, accepted.symm⟩ installed))⟩

/-- The region that a request is about, chosen or searched for, lies in the lower
half and has no mapped page. The end is computed without wrapping. -/
def Targets (fuel : Nat) (space : Space) (virtAddr length : Nat) : Prop :=
  ∀ chosen searched, chooseRegion fuel space virtAddr length = some (chosen, searched) →
    chosen + length ≤ vmmLowerHalfMax ∧
      RunUnmapped (mapping space) (pageNumber chosen) (requestPages chosen length)

/-- The pages of a region of the lower half, counted without wrapping. -/
theorem lower_region {chosen length : Nat} (inside : chosen + length ≤ vmmLowerHalfMax) :
    pageNumber chosen + requestPages chosen length ≤ lowerPages := by
  simp only [vmmLowerHalfMax] at inside
  simp only [pageNumber, requestPages, vmmAlignRegion, sizeInPages, roundDown, add, sub, pageSize,
    wordSize, lowerPages]
  omega

/-- The region of a request is an open run. -/
theorem Targets.openRun {fuel virtAddr length chosen : Nat} {searched : Space}
    (targets : Targets fuel space virtAddr length)
    (choice : chooseRegion fuel space virtAddr length = some (chosen, searched)) :
    OpenRun (mapping space) (pageNumber chosen) (requestPages chosen length) := by
  obtain ⟨inside, unmapped⟩ := targets chosen searched choice
  have fits := lower_region inside
  refine ⟨?_, ?_, unmapped⟩
  · simp only [lowerPages, pageCount] at *
    omega
  · intro position less
    simp only [lowerPages, pageCount] at *
    omega

/-- Flags of a request have no owned bit. -/
theorem protToFlags_unowned {prot flags : Nat} (readable : vmmProtToFlags prot = some flags) :
    owned flags = false := by
  rw [vmmProtToFlags] at readable
  split at readable
  · contradiction
  · rw [← Option.some.inj readable]
    split <;> decide

/-- `vmm_alloc` on an unmapped region of the lower half. -/
theorem vmmAlloc_performed (layout : Layout space.memory space.pml kernel)
    (fuel virtAddr length prot : Nat) (answer : Except Errno Nat) (next : Space)
    (taken : vmmAlloc fuel space virtAddr length prot = some (answer, next))
    (targets : (∃ address, answer = .ok address) → Targets fuel space virtAddr length) :
    Served kernel space next (vmmAllocLog fuel space virtAddr length prot) := by
  by_cases empty : length = 0
  · rw [vmmAlloc, if_pos empty, Option.some.injEq, Prod.mk.injEq] at taken
    obtain ⟨_, rfl⟩ := taken
    rw [vmmAllocLog, if_pos empty]
    exact ⟨rfl, performed_uses layout _ [] (by simp)⟩
  · cases readable : vmmProtToFlags prot with
    | none =>
      simp only [vmmAlloc, if_neg empty, readable, Option.some.injEq, Prod.mk.injEq] at taken
      obtain ⟨_, rfl⟩ := taken
      simp only [vmmAllocLog, if_neg empty, readable]
      exact ⟨rfl, performed_uses layout _ [] (by simp)⟩
    | some flags =>
      have small : flags ||| pageOwned < 2 ^ 12 :=
        Nat.or_lt_two_pow (protToFlags_small readable) (by decide)
      rw [vmmAlloc_eq fuel space virtAddr length prot flags (by omega) readable] at taken
      simp only [vmmAllocLog, if_neg empty, readable]
      refine serve_performed layout fuel virtAddr length _ _ answer next taken ?_
      intro chosen searched memory choice accepted installed
      have openRun := (targets accepted).openRun choice
      rw [← page_roundDown, ← Nat.mod_eq_of_lt (page_lt (roundDown chosen pageSize)),
        ← Nat.add_zero (pageNumber _)] at openRun
      exact alloc_performed layout _ _ 0 _ small (owned_or flags) openRun installed

/-- `vmm_map` on an unmapped region of the lower half. -/
theorem vmmMap_performed (layout : Layout space.memory space.pml kernel)
    (fuel virtAddr physAddr length prot : Nat) (answer : Except Errno Nat) (next : Space)
    (taken : vmmMap fuel space virtAddr physAddr length prot = some (answer, next))
    (targets : (∃ address, answer = .ok address) → Targets fuel space virtAddr length) :
    Served kernel space next (vmmMapLog fuel space virtAddr physAddr length prot) := by
  by_cases null : physAddr = 0
  · rw [vmmMap, if_pos null, Option.some.injEq, Prod.mk.injEq] at taken
    obtain ⟨_, rfl⟩ := taken
    rw [vmmMapLog, if_pos null]
    exact ⟨rfl, performed_uses layout _ [] (by simp)⟩
  by_cases empty : length = 0
  · rw [vmmMap, if_neg null, if_pos empty, Option.some.injEq, Prod.mk.injEq] at taken
    obtain ⟨_, rfl⟩ := taken
    rw [vmmMapLog, if_neg null, if_pos empty]
    exact ⟨rfl, performed_uses layout _ [] (by simp)⟩
  · cases readable : vmmProtToFlags prot with
    | none =>
      simp only [vmmMap, if_neg null, if_neg empty, readable, Option.some.injEq, Prod.mk.injEq] at taken
      obtain ⟨_, rfl⟩ := taken
      simp only [vmmMapLog, if_neg null, if_neg empty, readable]
      exact ⟨rfl, performed_uses layout _ [] (by simp)⟩
    | some flags =>
      rw [vmmMap_eq fuel space virtAddr physAddr length prot flags null (by omega) readable] at taken
      simp only [vmmMapLog, if_neg null, if_neg empty, readable]
      refine serve_performed layout fuel virtAddr length _ _ answer next taken ?_
      intro chosen searched memory choice accepted installed
      have openRun := (targets accepted).openRun choice
      rw [← page_roundDown] at openRun
      exact map_performed layout _ _ _ flags (protToFlags_small readable)
        (protToFlags_unowned readable) openRun installed

/-- `vmm_unmap`, on any region. -/
theorem vmmUnmap_performed (layout : Layout space.memory space.pml kernel) (virtAddr length : Nat) :
    Served kernel space (vmmUnmap space virtAddr length).2 (vmmUnmapLog space virtAddr length) := by
  generalize aligned : (vmmAlignRegion virtAddr length).1 = start
  generalize counted : sizeInPages (vmmAlignRegion virtAddr length).2 = count
  have testing := performed_uses layout (pagesOf space) _ (mappedReads_allowed layout start count)
  simp only [vmmUnmap, vmmUnmapLog, aligned, counted]
  cases mapped : pmlMapped space.memory.tables space.pml start count with
  | false =>
    simp only [Bool.false_eq_true, if_false, List.append_nil]
    exact ⟨rfl, testing⟩
  | true =>
    have rooted := rooted_of_mapped ((mapped_iff _ _ _ layout.tree).mp mapped)
    simp only [if_true]
    exact ⟨rfl, testing.append (unmap_performed layout start count rooted)⟩

/-- `vmm_protect`, on any region. -/
theorem vmmProtect_performed (layout : Layout space.memory space.pml kernel)
    (virtAddr length prot : Nat) :
    Served kernel space (vmmProtect space virtAddr length prot).2
      (vmmProtectLog space virtAddr length prot) := by
  generalize aligned : (vmmAlignRegion virtAddr length).1 = start
  generalize counted : sizeInPages (vmmAlignRegion virtAddr length).2 = count
  have testing := performed_uses layout (pagesOf space) _ (mappedReads_allowed layout start count)
  cases readable : vmmProtToFlags prot with
  | none =>
    simp only [vmmProtect, vmmProtectLog, readable]
    exact ⟨rfl, performed_uses layout _ [] (by simp)⟩
  | some flags =>
    simp only [vmmProtect, vmmProtectLog, readable, aligned, counted]
    cases mapped : pmlMapped space.memory.tables space.pml start count with
    | false =>
      simp only [Bool.false_eq_true, if_false, List.append_nil]
      exact ⟨rfl, testing⟩
    | true =>
      have rooted := rooted_of_mapped ((mapped_iff _ _ _ layout.tree).mp mapped)
      simp only [if_true]
      exact ⟨rfl, testing.append (changeFlags_performed layout start count flags
        (protToFlags_small readable) (protToFlags_unowned readable) rooted)⟩

end Calls

/-- The requests of a process on its space, with the fuel of a search where
there is one. -/
inductive Request where
  | alloc (fuel virtAddr length prot : Nat)
  | map (fuel virtAddr physAddr length prot : Nat)
  | unmap (virtAddr length : Nat)
  | protect (virtAddr length prot : Nat)

/-- The space after a request. A call that does not return has none. -/
def Request.perform (space : Space) : Request → Option Space
  | .alloc fuel virtAddr length prot => (vmmAlloc fuel space virtAddr length prot).map Prod.snd
  | .map fuel virtAddr physAddr length prot =>
      (vmmMap fuel space virtAddr physAddr length prot).map Prod.snd
  | .unmap virtAddr length => some (vmmUnmap space virtAddr length).2
  | .protect virtAddr length prot => some (vmmProtect space virtAddr length prot).2

/-- Log of a request. -/
def Request.log (space : Space) : Request → List (Event Nat)
  | .alloc fuel virtAddr length prot => vmmAllocLog fuel space virtAddr length prot
  | .map fuel virtAddr physAddr length prot => vmmMapLog fuel space virtAddr physAddr length prot
  | .unmap virtAddr length => vmmUnmapLog space virtAddr length
  | .protect virtAddr length prot => vmmProtectLog space virtAddr length prot

/-- An allocation or mapping that goes through targets an unmapped region of the
lower half. Unmapping and protecting are free. -/
def Request.Allowed (space : Space) : Request → Prop
  | .alloc fuel virtAddr length prot => ∀ address next,
      vmmAlloc fuel space virtAddr length prot = some (.ok address, next) →
        Targets fuel space virtAddr length
  | .map fuel virtAddr physAddr length prot => ∀ address next,
      vmmMap fuel space virtAddr physAddr length prot = some (.ok address, next) →
        Targets fuel space virtAddr length
  | .unmap _ _ => True
  | .protect _ _ _ => True

/-- The frames that a request passes to `vmm_map`, as `pmm_free` would be given
them. -/
def Request.mappedFrames : Request → Set Nat
  | .map _ _ physAddr _ _ => {frame | ∃ position,
      frame = lowerToHigher (add (roundDown physAddr pageSize) (mul position pageSize))}
  | _ => ∅

/-- What can happen to a space between its creation and its release: a request;
memory outside the tables is written; and the allocator is going to return other
pages. -/
inductive Action where
  | call (request : Request)
  | store (tables : Tables)
  | restock (supply : List Nat)

/-- The space after an action. -/
def Action.perform (space : Space) : Action → Option Space
  | .call request => request.perform space
  | .store tables => some { space with memory := { space.memory with tables := tables } }
  | .restock supply => some { space with memory := { space.memory with supply := supply } }

/-- Log of an action. -/
def Action.log (space : Space) : Action → List (Event Nat)
  | .call request => request.log space
  | .store _ => []
  | .restock _ => []

/-- What a run asks of its actions. The rest of the system writes no table, and
the allocator returns no page that is in use as a table or as a frame of the
space. -/
def Action.Allowed (kernel : Nat) (space : Space) : Action → Prop
  | .call request => request.Allowed space
  | .store tables => Stored space.memory.tables tables space.pml kernel
  | .restock supply => Stocked supply (pagesOf space) (kernelTables space.memory.tables kernel)

/-- A run of allowed actions, with its log. -/
inductive Run (kernel : Nat) : Space → List Action → List (Event Nat) → Space → Prop where
  | done (space : Space) : Run kernel space [] [] space
  | step {space next last : Space} {rest : List Action} {log : List (Event Nat)} (action : Action)
      (allowed : action.Allowed kernel space) (performed : action.perform space = some next)
      (later : Run kernel next rest log last) :
      Run kernel space (action :: rest) (action.log space ++ log) last

/-- What one action does: it keeps the layout, its log is orderly from the pages
of the space to the pages of the space, and what it gives back is freed. -/
structure Advanced (kernel : Nat) (space next : Space) (events : List (Event Nat)) : Prop where
  root : next.pml = space.pml
  layout : Layout next.memory next.pml kernel
  orderly : Orderly (kernelTables space.memory.tables kernel) (pagesOf space) events (pagesOf next)
  freed : next.memory.freed = (gives events).reverse ++ space.memory.freed
  kernelSame : kernelTables next.memory.tables kernel = kernelTables space.memory.tables kernel

/-- A served call advances the space. -/
theorem Served.advanced {kernel : Nat} {space next : Space} {events : List (Event Nat)}
    (served : Served kernel space next events) : Advanced kernel space next events where
  root := served.1
  layout := by
    rw [served.1]
    exact served.2.layout
  orderly := served.2.orderly
  freed := served.2.freed
  kernelSame := served.2.kernelSame

/-- One allowed request: the pages it takes leave the supply, and those it gives
back are freed. -/
theorem request_served {kernel : Nat} {space next : Space} {request : Request}
    (layout : Layout space.memory space.pml kernel) (allowed : request.Allowed space)
    (performed : request.perform space = some next) : Served kernel space next (request.log space) := by
  cases request with
  | alloc fuel virtAddr length prot =>
    obtain ⟨⟨answer, after⟩, taken, rfl⟩ := Option.map_eq_some_iff.mp performed
    refine vmmAlloc_performed layout fuel virtAddr length prot answer after taken ?_
    rintro ⟨address, rfl⟩
    exact allowed address after taken
  | map fuel virtAddr physAddr length prot =>
    obtain ⟨⟨answer, after⟩, taken, rfl⟩ := Option.map_eq_some_iff.mp performed
    refine vmmMap_performed layout fuel virtAddr physAddr length prot answer after taken ?_
    rintro ⟨address, rfl⟩
    exact allowed address after taken
  | unmap virtAddr length =>
    obtain rfl := Option.some.inj performed
    exact vmmUnmap_performed layout virtAddr length
  | protect virtAddr length prot =>
    obtain rfl := Option.some.inj performed
    exact vmmProtect_performed layout virtAddr length prot

/-- One allowed action. -/
theorem action_advanced {kernel : Nat} {space next : Space} {action : Action}
    (layout : Layout space.memory space.pml kernel) (allowed : action.Allowed kernel space)
    (performed : action.perform space = some next) : Advanced kernel space next (action.log space) := by
  cases action with
  | call request =>
    exact (request_served layout allowed performed).advanced
  | store tables =>
    obtain rfl := Option.some.inj performed
    obtain ⟨stored, samePages, kernelSame⟩ := layout.store tables allowed
    refine ⟨rfl, stored, ?_, rfl, kernelSame⟩
    rw [pagesOf, pagesOf, samePages]
    exact .done _
  | restock supply =>
    obtain rfl := Option.some.inj performed
    exact ⟨rfl, layout.restock supply allowed, .done _, rfl, rfl⟩

/-- A run of allowed actions. The induction is on the run, with the layout as
its invariant. -/
theorem run_advanced {kernel : Nat} {space last : Space} {actions : List Action}
    {log : List (Event Nat)} (layout : Layout space.memory space.pml kernel)
    (run : Run kernel space actions log last) : Advanced kernel space last log := by
  induction run with
  | done space => exact ⟨rfl, layout, .done _, rfl, rfl⟩
  | step action allowed performed _ ih =>
    have here := action_advanced layout allowed performed
    have after := ih here.layout
    refine ⟨after.root.trans here.root, after.layout, here.orderly.append ?_, ?_,
      after.kernelSame.trans here.kernelSame⟩
    · rw [← here.kernelSame]
      exact after.orderly
    · rw [after.freed, here.freed, gives_append, List.reverse_append, List.append_assoc]

/-- The log of the creation of a space. -/
theorem init_orderly {memory : Pml} {kernel : Nat} {space : Space} (newSpace : NewSpace memory kernel space)
    (notKernel : space.pml ∉ kernelTables memory.tables kernel) :
    Orderly (kernelTables memory.tables kernel) ∅ (initLog kernel space.pml) (pagesOf space) := by
  rw [pagesOf, newSpace.pages, initLog]
  refine .take space.pml (Set.notMem_empty _) notKernel ?_
  rw [insert_empty_eq]
  refine .use space.pml (.inl rfl) ?_
  induction List.range upperIndex with
  | nil => exact .done _
  | cons index rest ih =>
    exact .use kernel (.inr (kernel_mem memory.tables kernel)) (.use space.pml (.inl rfl) ih)

/-- The log of the release of a space gives all its pages back. -/
theorem cleanup_orderly (kernel : Nat) (space : Space) (layout : Layout space.memory space.pml kernel) :
    Orderly (kernelTables space.memory.tables kernel) (pagesOf space) (cleanupLog space) ∅ := by
  refine (orderly_uses ?_).append (free_orderly layout _)
  intro page member
  rw [List.eq_of_mem_replicate member]
  exact .inl (root_mem _ _)

/-- The release of a space frees what its log gives back. -/
theorem cleanup_freed (space : Space) :
    (spaceCleanup space).freed = (gives (cleanupLog space)).reverse ++ space.memory.freed := by
  rw [spaceCleanup, pmlFree, freeLevel_freed, cleanupLog, gives_append, gives_uses, List.nil_append]

/-- The log of the whole life of a space. -/
def lifeLog (kernel : Nat) (space last : Space) (log : List (Event Nat)) : List (Event Nat) :=
  initLog kernel space.pml ++ log ++ cleanupLog last

/-- Ownership balances over a life. Every page is given to `pmm_free` exactly as
often as it was obtained from `pmm_alloc`, obtaining and giving back alternate,
no table of the kernel is given back, and no page is accessed as a table between
being given back and being obtained again. Frames passed to `vmm_map` that the
life did not obtain are never given back, and the kernel keeps its tables. The
log is that of the code: what it gives back is what the code has freed. -/
structure OwnershipBalances (memory : Pml) (kernel : Nat) (space last : Space) (actions : List Action)
    (log : List (Event Nat)) : Prop where
  balanced : Balanced (kernelTables memory.tables kernel) (lifeLog kernel space last log)
  mapped : ∀ request, .call request ∈ actions → ∀ frame ∈ request.mappedFrames,
    frame ∉ takes (lifeLog kernel space last log) → frame ∉ gives (lifeLog kernel space last log)
  kernelSame : kernelTables last.memory.tables kernel = kernelTables memory.tables kernel
  freed : (spaceCleanup last).freed = (gives (lifeLog kernel space last log)).reverse ++ memory.freed

/-- From `space_init` over any allowed actions to `space_cleanup`, ownership
balances. -/
theorem frames_balance (memory : Pml) (kernel : Nat) (space last : Space) (actions : List Action)
    (log : List (Event Nat)) (kernelLayout : KernelLayout memory.tables kernel)
    (stocked : Stocked memory.supply ∅ (kernelTables memory.tables kernel))
    (created : spaceInit memory kernel = some space) (run : Run kernel space actions log last) :
    OwnershipBalances memory kernel space last actions log := by
  have newSpace := init_newSpace kernelLayout stocked created
  have notKernel := (stocked.unused space.pml (by simp [newSpace.supplied])).2
  have advanced := run_advanced newSpace.layout run
  have early := init_orderly newSpace notKernel
  have middle := advanced.orderly
  have late := cleanup_orderly kernel last advanced.layout
  rw [newSpace.kernelSame] at middle
  rw [advanced.kernelSame, newSpace.kernelSame] at late
  have balanced : Balanced _ (lifeLog kernel space last log) :=
    ((early.append middle).append late).balanced
  refine ⟨balanced, ?_, advanced.kernelSame.trans newSpace.kernelSame, ?_⟩
  · intro request _ frame _ untaken given
    have counted := balanced.returned frame
    rw [List.count_eq_zero_of_not_mem untaken] at counted
    exact List.count_eq_zero.mp counted given
  · have initGives : gives (initLog kernel space.pml) = [] := by
      rw [initLog, gives_take, gives_use]
      induction List.range upperIndex with
      | nil => rfl
      | cons index rest ih => exact ih
    rw [cleanup_freed, advanced.freed, newSpace.freed, lifeLog, gives_append, gives_append, initGives,
      List.nil_append, List.reverse_append, List.append_assoc]

/-- The empty table of the samples has the kernel's layout. -/
theorem sampleTables_kernel : KernelLayout sampleTables.tables sampleRoot :=
  .cleared _ _ (by decide +kernel) (by decide +kernel) (fun _ => rfl)

/-- A new space beside the empty kernel table. -/
def sampleSpace : Space := (spaceInit sampleTables sampleRoot).getD emptySpace

/-- The actions of the sample: two pages are allocated, one page of somebody
else is mapped, and the first page is protected and unmapped. -/
def sampleActions : List Action :=
  [.call (.alloc 0 0x400000 0x2000 protRead), .call (.map 0 0x402000 0xB8000 0x1000 protRead),
    .call (.protect 0x400000 0x1000 protRead), .call (.unmap 0x400000 0x1000)]

/-- The sample space after some of its actions. -/
def sampleAfter (count : Nat) : Space :=
  (sampleActions.take count).foldl (fun space action => (action.perform space).getD space) sampleSpace

/-- A region of the lower half with an explicit address and no mapped page is a
target. -/
theorem targets_explicit (fuel : Nat) (space : Space) (virtAddr length pages : Nat)
    (explicit : virtAddr ≠ 0) (inside : virtAddr + length ≤ vmmLowerHalfMax)
    (counted : requestPages virtAddr length = pages)
    (unmapped : ∀ position < pages, mapping space ((pageNumber virtAddr + position) % pageCount) = none) :
    Targets fuel space virtAddr length := by
  intro chosen searched choice
  rw [chooseRegion, if_neg explicit, Option.some.injEq, Prod.mk.injEq] at choice
  obtain ⟨rfl, rfl⟩ := choice
  refine ⟨inside, ?_⟩
  rw [counted]
  exact unmapped

/-- The actions of the sample are a run. -/
theorem sample_run : ∃ log, Run sampleRoot sampleSpace sampleActions log (sampleAfter 4) := by
  have performs : ∀ (space : Space) (action : Action), (action.perform space).isSome →
      action.perform space = some ((action.perform space).getD space) := by
    intro space action returns
    obtain ⟨next, taken⟩ := Option.isSome_iff_exists.mp returns
    rw [taken, Option.getD_some]
  refine ⟨_, .step _ ?_ (performs (sampleAfter 0) _ (by decide +kernel)) (.step _ ?_
    (performs (sampleAfter 1) _ (by decide +kernel)) (.step _ trivial
    (performs (sampleAfter 2) _ (by decide +kernel)) (.step _ trivial
    (performs (sampleAfter 3) _ (by decide +kernel)) (.done _))))⟩
  · intro address next _
    exact targets_explicit 0 (sampleAfter 0) 0x400000 0x2000 2 (by decide) (by decide) (by decide)
      (by decide +kernel)
  · intro address next _
    exact targets_explicit 0 (sampleAfter 1) 0x402000 0x1000 1 (by decide) (by decide) (by decide)
      (by decide +kernel)

/-- Ownership balances over the life of the sample space, in which two frames
and four tables are obtained. -/
theorem frames_balance_sample : ∃ log,
    Run sampleRoot sampleSpace sampleActions log (sampleAfter 4) ∧
      OwnershipBalances sampleTables sampleRoot sampleSpace (sampleAfter 4) sampleActions log := by
  have created : spaceInit sampleTables sampleRoot = some sampleSpace := by
    have returns : (spaceInit sampleTables sampleRoot).isSome := by decide +kernel
    obtain ⟨space, taken⟩ := Option.isSome_iff_exists.mp returns
    rw [sampleSpace, taken, Option.getD_some]
  obtain ⟨log, run⟩ := sample_run
  exact ⟨log, run, frames_balance sampleTables sampleRoot sampleSpace (sampleAfter 4) sampleActions log
    sampleTables_kernel (stocked_of_sound sampleTables_sound) created run⟩

end Asym.FrameOwnership
