import Asym.EventRuns
import Asym.KernelMappings

/-!
# Spaces that share the kernel half

The kernel starts with an empty page table. Spaces are made and cleaned up, pages are
mapped for the kernel and its heap grows, in any order. `space_init` copies the upper half
of the kernel's root once, so a space sees later mappings of the kernel through the tables
that were there by then.

A page that needs a new entry in the kernel's root is seen by no space that is there
already. The kernel half is the same in all spaces as long as no such page is mapped while
there are spaces.

The allocator is seen through the pages that are free. It hands them out in any order, to
other parts of the kernel as well, and gets the pages of a space back when the space is
cleaned up. The header of a new block of the heap is written into a page of the block,
which is no table, and is left out.
-/

namespace Asym.SpaceSharing

open MachineWords PhysicalMemory PageEntries PageTables LinkedWalks PageTree PageRefinement
open VirtualMemory SpaceLayout PageAccounting KernelHalf KernelMappings EventRuns
open Leases (gives gives_append gives_uses)

/-- The memory that the kernel starts with: its root, the pages that are free, and the end
of the heap. -/
structure Boot where
  kernel : Nat
  tables : Tables
  free : List Nat
  newAddress : Nat
  kernelPage : HigherPage kernel
  pages : ∀ page ∈ free, HigherPage page
  apart : kernel ∉ free

/-- All tables, the pages that are free and those that other parts of the kernel have, the
roots of the spaces, and the end of the heap. -/
structure State where
  tables : Tables
  free : List Nat
  taken : List Nat
  spaces : List Nat
  newAddress : Nat

/-- After the root of the kernel is cleared in `vmm_load_memory_map`. -/
def initial (boot : Boot) : State where
  tables := clearTable boot.tables boot.kernel
  free := boot.free
  taken := []
  spaces := []
  newAddress := boot.newAddress

/-- The pages that the allocator is going to hand out are free. -/
def lend (state : State) (supply : List Nat) : Option Pml :=
  if supply.Nodup ∧ ∀ page ∈ supply, page ∈ state.free then some ⟨state.tables, supply, []⟩ else none

/-- The pages that were handed out are not free any more. -/
def settle (state : State) (supply : List Nat) (pml : Pml) : State := { state with
  tables := pml.tables
  free := state.free.filter fun page => page ∉ supply ∨ page ∈ pml.supply }

/-- After `space_init`. -/
def added (state : State) (supply : List Nat) (space : Space) : State := { settle state supply space.memory with
  spaces := space.pml :: state.spaces }

/-- After `space_cleanup`. -/
def cleaned (state : State) (root : Nat) : State :=
  let pml := spaceCleanup ⟨⟨state.tables, [], []⟩, root, 0x400000⟩
  { state with
    tables := pml.tables
    free := pml.freed ++ state.free
    spaces := state.spaces.erase root }

/-- The pages of a new block of the heap. -/
def blockPages (size : Nat) : Nat := sizeInPages (add size Heap.headerSize)

/-- Spaces are made and cleaned up, the kernel maps pages and its heap grows, each with the
pages that the allocator is going to hand out, and other parts of the kernel take pages
and give them back. -/
inductive Event where
  | init (supply : List Nat)
  | cleanup (root : Nat)
  | map (supply : List Nat) (virtAddr physAddr length : Nat)
  | grow (supply : List Nat) (size : Nat)
  | take (page : Nat)
  | give (page : Nat)

variable (kernel : Nat)

/-- What an event does, if it can happen. A heap grows inside the higher half. -/
def step (state : State) : Event → Option State
  | .init supply => do
      let pml ← lend state supply
      let space ← spaceInit pml kernel
      some (added state supply space)
  | .cleanup root => if root ∈ state.spaces then some (cleaned state root) else none
  | .map supply virtAddr physAddr length => do
      let pml ← lend state supply
      let (_, next) ← vmmKernelMap pml kernel virtAddr physAddr length
      some (settle state supply next)
  | .grow supply size =>
      if vmmHigherHalfBase ≤ state.newAddress ∧
          state.newAddress + blockPages size * pageSize ≤ wordSize then do
        let pml ← lend state supply
        let next ← heapPages pml kernel state.newAddress 0 (blockPages size)
        some { settle state supply next with
          newAddress := add state.newAddress (mul (blockPages size) pageSize) }
      else none
  | .take page =>
      if page ∈ state.free then
        some { state with free := state.free.filter (· ≠ page), taken := page :: state.taken }
      else none
  | .give page =>
      if page ∈ state.taken then
        some { state with taken := state.taken.filter (· ≠ page), free := page :: state.free }
      else none

/-- Every address of the higher half is mapped in a space as in the kernel's table: both or
neither, to the same frame and with the same flags. -/
def Agree (state : State) : Prop :=
  ∀ root ∈ state.spaces, ∀ virtAddr, vmmHigherHalfBase ≤ virtAddr → virtAddr < wordSize →
    translation state.tables root (pageNumber virtAddr) = translation state.tables kernel (pageNumber virtAddr)

/-- The pages that an event maps for the kernel. -/
def Event.pages (state : State) : Event → Set Nat
  | .map _ virtAddr physAddr length =>
      visited (pageNumber (kernelAddress virtAddr physAddr)) (sizeInPages length)
  | .grow _ size => visited (pageNumber state.newAddress) (blockPages size)
  | _ => ∅

/-- While there are spaces, a page of the upper half is mapped for the kernel only if the
kernel's root has an entry for it already. -/
def Rooted (state : State) (event : Event) : Prop :=
  state.spaces = [] ∨ ∀ page ∈ event.pages state, lowerPages ≤ page →
    present (state.tables kernel (topSlot page)) = true

/-- What every run keeps. An upper entry of the root of a space is that of the kernel or
absent, and every entry of the kernel's root leads to a mapped page. -/
structure Kept (state : State) : Prop where
  layout : KernelLayout state.tables kernel
  free : ∀ page ∈ state.free, HigherPage page ∧ page ∉ kernelTables state.tables kernel ∧
    page ∉ state.spaces ∧ page ∉ state.taken
  taken : ∀ page ∈ state.taken, HigherPage page ∧ page ∉ kernelTables state.tables kernel ∧
    page ∉ state.spaces
  roots : ∀ root ∈ state.spaces, HigherPage root ∧ root ∉ kernelTables state.tables kernel
  once : state.spaces.Nodup
  lower : ∀ root ∈ state.spaces, ∀ index : Fin 512, index.val < upperIndex → state.tables root index = 0
  copied : ∀ root ∈ state.spaces, ∀ index : Fin 512, upperIndex ≤ index.val →
    links state.tables root index = links state.tables kernel index ∨ links state.tables root index = none
  used : ∀ index, links state.tables kernel index ≠ none →
    ∃ page < pageCount, topSlot page = index ∧ (translation state.tables kernel page).isSome

/-- The upper entries of the roots of all spaces are those of the kernel's root. -/
def Shared (state : State) : Prop :=
  ∀ root ∈ state.spaces, ∀ index : Fin 512, upperIndex ≤ index.val →
    links state.tables root index = links state.tables kernel index

variable {kernel} {state : State}

/-- Pages of the upper half have an upper entry of the root. -/
theorem upper_topSlot {page : Nat} (inside : page < pageCount) :
    lowerPages ≤ page ↔ upperIndex ≤ (topSlot page).val := by
  simp only [topSlot, lowerPages, upperIndex, pageCount] at *
  omega

/-- Pages of the upper half are those of the addresses of the higher half. -/
theorem higher_page {virtAddr : Nat} (high : vmmHigherHalfBase ≤ virtAddr) (bounded : virtAddr < wordSize) :
    lowerPages ≤ pageNumber virtAddr := by
  simp only [vmmHigherHalfBase, wordSize, lowerPages, pageNumber, pageSize] at *
  omega

/-- An address of a page of the upper half. -/
theorem page_address {page : Nat} (high : lowerPages ≤ page) (inside : page < pageCount) : ∃ virtAddr,
    vmmHigherHalfBase ≤ virtAddr ∧ virtAddr < wordSize ∧ pageNumber virtAddr = page := by
  refine ⟨wordSize - 2 ^ 48 + page * pageSize, ?_, ?_, ?_⟩
  all_goals
    simp only [vmmHigherHalfBase, wordSize, lowerPages, pageCount, pageNumber, pageSize] at *
    omega

/-- Pages are translated alike from two roots whose entries for them are alike. -/
theorem translation_of_links {tables : Tables} {first second page : Nat}
    (same : links tables first (topSlot page) = links tables second (topSlot page)) :
    translation tables first page = translation tables second page := by
  have walks : walk (links tables) first (pagePath page) = walk (links tables) second (pagePath page) := by
    have top : pagePath page = topSlot page :: (pagePath page).tail := rfl
    rw [top, walk, walk, same]
  rw [translation, translation, walks]

/-- A mapped page has an entry in the root. -/
theorem links_of_mapped {tables : Tables} {root page : Nat} (mapped : (translation tables root page).isSome) :
    links tables root (topSlot page) ≠ none := by
  intro absent
  obtain ⟨table, place, _⟩ := translated_place mapped
  have top : pagePath page = topSlot page :: (pagePath page).tail := rfl
  rw [top, walk, absent] at place
  contradiction

/-- Spaces agree with the kernel exactly if they share the entries of its root. -/
theorem agree_iff (kept : Kept kernel state) : Agree kernel state ↔ Shared kernel state := by
  constructor
  · intro agree root member index upper
    rcases kept.copied root member index upper with same | absent
    · exact same
    · rw [absent]
      by_contra differs
      obtain ⟨page, inside, rfl, mapped⟩ := kept.used index (Ne.symm differs)
      obtain ⟨virtAddr, high, bounded, rfl⟩ := page_address ((upper_topSlot inside).mpr upper) inside
      rw [← agree root member virtAddr high bounded] at mapped
      exact links_of_mapped mapped absent
  · intro shared root member virtAddr high bounded
    have upper := (upper_topSlot (page_lt virtAddr)).mp (higher_page high bounded)
    exact translation_of_links (shared root member _ upper)

/-- What is lent are the tables and pages that are free. -/
theorem lend_eq {supply : List Nat} {pml : Pml} (lent : lend state supply = some pml) :
    pml = ⟨state.tables, supply, []⟩ ∧ supply.Nodup ∧ ∀ page ∈ supply, page ∈ state.free := by
  rw [lend, Option.ite_none_right_eq_some] at lent
  exact ⟨(Option.some.inj lent.2).symm, lent.1⟩

/-- The kernel's tables with pages that are lent are sound. -/
theorem Kept.sound (kept : Kept kernel state) {supply : List Nat} {pml : Pml}
    (lent : lend state supply = some pml) : Sound pml kernel := by
  obtain ⟨rfl, distinct, isFree⟩ := lend_eq lent
  refine ⟨kept.layout.tree, distinct, fun page member => (kept.free page (isFree page member)).1, ?_⟩
  intro page member path short place
  exact (kept.free page (isFree page member)).2.1 ⟨path, short, place⟩

/-- The entries of the roots of spaces are not written when pages are mapped. -/
theorem Kept.roots_mapped (kept : Kept kernel state) {supply : List Nat} {pml next : Pml} {pages : Set Nat}
    (lent : lend state supply = some pml) (mapped : Mapped kernel pml next pages) {root : Nat}
    (member : root ∈ state.spaces) (index : Fin 512) : next.tables root index = state.tables root index := by
  obtain ⟨rfl, _, isFree⟩ := lend_eq lent
  refine mapped.outside root (kept.roots root member).2 ?_ index
  intro supplied
  exact (kept.free root (isFree root supplied)).2.2.1 member

/-- A page that is neither handed out nor a table of the kernel is no table of the kernel
after pages are mapped. -/
theorem not_table_mapped {supply : List Nat} {pml next : Pml} {pages : Set Nat}
    (lent : lend state supply = some pml) (mapped : Mapped kernel pml next pages) {page : Nat}
    (notTable : page ∉ kernelTables state.tables kernel) (left : page ∉ supply ∨ page ∈ next.supply) :
    page ∉ kernelTables next.tables kernel := by
  obtain ⟨rfl, distinct, isFree⟩ := lend_eq lent
  obtain ⟨used, supplied, tables⟩ := mapped.used
  have split : supply = used ++ next.supply := supplied
  intro member
  rcases tables page member with before | inUsed
  · exact notTable before
  · rcases left with notSupplied | remains
    · exact notSupplied (split ▸ List.mem_append_left _ inUsed)
    · rw [split] at distinct
      exact List.disjoint_of_nodup_append distinct inUsed remains

/-- Mapping pages for the kernel keeps the facts. -/
theorem Kept.settle (kept : Kept kernel state) {supply : List Nat} {pml next : Pml} {pages : Set Nat}
    (lent : lend state supply = some pml) (mapped : Mapped kernel pml next pages)
    (layout : KernelLayout next.tables kernel) : Kept kernel (settle state supply next) := by
  obtain ⟨same, _, isFree⟩ := lend_eq lent
  have root := mapped.root
  have before := mapped.kept
  simp only [same] at root before
  constructor
  · exact layout
  · intro page member
    obtain ⟨wasFree, left⟩ := List.mem_filter.mp member
    obtain ⟨higher, notTable, notRoot, notTaken⟩ := kept.free page wasFree
    exact ⟨higher, not_table_mapped lent mapped notTable (of_decide_eq_true left), notRoot, notTaken⟩
  · intro page member
    obtain ⟨higher, notTable, notRoot⟩ := kept.taken page member
    refine ⟨higher, not_table_mapped lent mapped notTable (.inl fun supplied => ?_), notRoot⟩
    exact (kept.free page (isFree page supplied)).2.2.2 member
  · intro page member
    obtain ⟨higher, notTable⟩ := kept.roots page member
    refine ⟨higher, not_table_mapped lent mapped notTable (.inl fun supplied => ?_)⟩
    exact (kept.free page (isFree page supplied)).2.2.1 member
  · exact kept.once
  · intro page member index low
    exact (kept.roots_mapped lent mapped member index).trans (kept.lower page member index low)
  · intro page member index upper
    have unchanged : links next.tables page index = links state.tables page index := by
      rw [links, links, kept.roots_mapped lent mapped member index]
    simp only [SpaceSharing.settle, unchanged]
    rcases root index with kernelSame | ⟨absent, _⟩
    · rw [kernelSame]
      exact kept.copied page member index upper
    · right
      rcases kept.copied page member index upper with equal | none
      · exact equal.trans absent
      · exact none
  · intro index linked
    rcases root index with kernelSame | ⟨_, page, member, top⟩
    · have linkedBefore : links state.tables kernel index ≠ none := kernelSame ▸ linked
      obtain ⟨page, inside, top, was⟩ := kept.used index linkedBefore
      exact ⟨page, inside, top, before page was⟩
    · exact ⟨page, mapped.inside page member, top, mapped.mapped page member⟩

/-- Mapping pages for the kernel keeps the entries shared exactly if there is no space, or
the pages of the upper half have entries in the kernel's root already. -/
theorem Kept.shared_settle_iff (kept : Kept kernel state) (shared : Shared kernel state) {supply : List Nat}
    {pml next : Pml} {pages : Set Nat} (lent : lend state supply = some pml)
    (mapped : Mapped kernel pml next pages) :
    Shared kernel (SpaceSharing.settle state supply next) ↔
      state.spaces = [] ∨ ∀ page ∈ pages, lowerPages ≤ page →
        present (state.tables kernel (topSlot page)) = true := by
  have same := (lend_eq lent).1
  have root := mapped.root
  simp only [same] at root
  have present_iff (index : Fin 512) : present (state.tables kernel index) = true ↔
      links state.tables kernel index ≠ none := by
    simp [links]
  have unchanged {tested : Nat} (member : tested ∈ state.spaces) (index : Fin 512) :
      links next.tables tested index = links state.tables tested index := by
    rw [links, links, kept.roots_mapped lent mapped member index]
  constructor
  · intro sharedAfter
    rcases state.spaces.eq_nil_or_concat with none | ⟨others, tested, some_⟩
    · exact .inl none
    · have member : tested ∈ state.spaces := by simp [some_]
      refine .inr fun page inPages high => (present_iff _).mpr ?_
      have upper := (upper_topSlot (mapped.inside page inPages)).mp high
      have after : links next.tables tested (topSlot page) = links next.tables kernel (topSlot page) :=
        sharedAfter tested member _ upper
      rw [← shared tested member _ upper, ← unchanged member, after]
      exact links_of_mapped (mapped.mapped page inPages)
  · intro rooted tested member index upper
    rcases rooted with none | rooted
    · have impossible : tested ∈ state.spaces := member
      rw [none] at impossible
      cases impossible
    · have agrees : links next.tables kernel index = links state.tables kernel index := by
        rcases root index with kernelSame | ⟨absent, page, inPages, top⟩
        · exact kernelSame
        · have high := (upper_topSlot (mapped.inside page inPages)).mpr (top ▸ upper)
          exact absurd absent (top ▸ (present_iff _).mp (rooted page inPages high))
      exact (unchanged member index).trans ((shared tested member index upper).trans agrees.symm)

/-- What does not depend on pages other than the kernel's tables. -/
structure SameKernel (kernel : Nat) (tables next : Tables) : Prop where
  layout : KernelLayout next kernel
  pages : kernelTables next kernel = kernelTables tables kernel
  root : ∀ index, links next kernel index = links tables kernel index
  translations : translation next kernel = translation tables kernel

/-- Writing outside the kernel's tables. -/
theorem sameKernel_of {tables next : Tables} (layout : KernelLayout tables kernel)
    (same : ∀ table ∈ kernelTables tables kernel, ∀ index, next table index = tables table index) :
    SameKernel kernel tables next := by
  have walks := kernel_walks same
  refine ⟨layout.frame same, kernelTables_congr walks, fun index => ?_, ?_⟩
  · rw [links, links, same kernel (kernel_mem tables kernel) index]
  · funext page
    have short : (pagePath page).length ≤ 3 := by simp [pagePath]
    rw [translation, translation, walks (pagePath page) short]
    cases place : walk (links tables) kernel (pagePath page) with
    | none => rfl
    | some table =>
      rw [Option.bind_some, Option.bind_some, same table ⟨pagePath page, short, place⟩]

/-- A root with nothing in its lower half, and with the kernel's entries in the upper one. -/
structure NewRoot (kernel : Nat) (tables next : Tables) (root : Nat) : Prop where
  higher : HigherPage root
  apart : root ∉ kernelTables tables kernel
  lower : ∀ index : Fin 512, index.val < upperIndex → next root index = 0
  upper : ∀ index : Fin 512, upperIndex ≤ index.val → links next root index = links tables kernel index

/-- Changes outside the kernel's tables keep the facts, and the entries shared, if every
space afterwards is one whose root is not written or has a new root. -/
theorem Kept.outside (kept : Kept kernel state) {next : State} (same : SameKernel kernel state.tables next.tables)
    (free : ∀ page ∈ next.free, HigherPage page ∧ page ∉ kernelTables state.tables kernel ∧
      page ∉ next.spaces ∧ page ∉ next.taken)
    (taken : ∀ page ∈ next.taken, HigherPage page ∧ page ∉ kernelTables state.tables kernel ∧
      page ∉ next.spaces) (once : next.spaces.Nodup)
    (roots : ∀ root ∈ next.spaces,
      root ∈ state.spaces ∧ (∀ index, next.tables root index = state.tables root index) ∨
        NewRoot kernel state.tables next.tables root) :
    Kept kernel next ∧ (Shared kernel state → Shared kernel next) := by
  have oldLinks {root : Nat} (unchanged : ∀ index, next.tables root index = state.tables root index)
      (index : Fin 512) : links next.tables root index = links state.tables root index := by
    rw [links, links, unchanged index]
  refine ⟨⟨same.layout, ?_, ?_, ?_, once, ?_, ?_, ?_⟩, ?_⟩
  · rw [same.pages]
    exact free
  · rw [same.pages]
    exact taken
  · intro root member
    rw [same.pages]
    rcases roots root member with ⟨old, _⟩ | new
    · exact kept.roots root old
    · exact ⟨new.higher, new.apart⟩
  · intro root member index low
    rcases roots root member with ⟨old, unchanged⟩ | new
    · exact (unchanged index).trans (kept.lower root old index low)
    · exact new.lower index low
  · intro root member index upper
    rw [same.root]
    rcases roots root member with ⟨old, unchanged⟩ | new
    · rw [oldLinks unchanged]
      exact kept.copied root old index upper
    · exact .inl (new.upper index upper)
  · intro index linked
    rw [same.root] at linked
    rw [same.translations]
    exact kept.used index linked
  · intro shared root member index upper
    rw [same.root]
    rcases roots root member with ⟨old, unchanged⟩ | new
    · rw [oldLinks unchanged]
      exact shared root old index upper
    · exact new.upper index upper

/-- A new space keeps the facts, and shares the entries if the others do. -/
theorem Kept.init (kept : Kept kernel state) {supply : List Nat} {pml : Pml} {space : Space}
    (lent : lend state supply = some pml) (created : spaceInit pml kernel = some space) :
    Kept kernel (added state supply space) ∧ (Shared kernel state → Shared kernel (added state supply space)) := by
  obtain ⟨rest, supplied, memory⟩ := spaceInit_cases created
  obtain ⟨rfl, distinct, isFree⟩ := lend_eq lent
  have split : supply = space.pml :: rest := supplied
  have member : space.pml ∈ supply := split ▸ List.mem_cons_self
  obtain ⟨higher, notTable, notRoot, notTaken⟩ := kept.free space.pml (isFree space.pml member)
  have notKernel : kernel ≠ space.pml := fun equal => notTable (equal ▸ kernel_mem state.tables kernel)
  rw [added, memory]
  refine kept.outside (sameKernel_of kept.layout (newRoot_kernel notTable))
    ?_ ?_ (List.nodup_cons.mpr ⟨notRoot, kept.once⟩) ?_
  · intro page inside
    obtain ⟨wasFree, left⟩ := List.mem_filter.mp inside
    obtain ⟨pageHigher, pageTable, pageRoot, pageTaken⟩ := kept.free page wasFree
    refine ⟨pageHigher, pageTable, ?_, pageTaken⟩
    rintro (_ | ⟨_, old⟩)
    · rcases of_decide_eq_true left with notSupplied | remains
      · exact notSupplied member
      · rw [split] at distinct
        exact (List.nodup_cons.mp distinct).1 remains
    · exact pageRoot old
  · intro page inside
    obtain ⟨pageHigher, pageTable, pageRoot⟩ := kept.taken page inside
    refine ⟨pageHigher, pageTable, ?_⟩
    rintro (_ | ⟨_, old⟩)
    · exact notTaken inside
    · exact pageRoot old
  · intro root inside
    rcases List.mem_cons.mp inside with rfl | old
    · right
      refine ⟨higher, notTable, newRoot_lower _ _ _, fun index upper => ?_⟩
      simp only [SpaceSharing.settle, links, newRoot, copyUpper, upper, and_self, if_true, clearTable, if_neg notKernel]
    · refine .inl ⟨old, fun index => newRoot_other _ _ _ _ index ?_⟩
      rintro rfl
      exact notRoot old

/-- The release of a space with an empty lower half clears its upper half and frees its
root. -/
theorem spaceCleanup_root {tables : Tables} {root : Nat} (freeAddress : Nat)
    (lower : ∀ index : Fin 512, index.val < upperIndex → tables root index = 0) :
    spaceCleanup ⟨⟨tables, [], []⟩, root, freeAddress⟩ = ⟨clearUpper tables root, [], [root]⟩ := by
  have absent (index : Fin 512) : present (clearUpper tables root root index) = false := by
    rw [clearUpper]
    split_ifs with upper
    · rfl
    · rw [lower index (by omega)]
      rfl
  have silent : gives (freeLevelLog (clearUpper tables root) 5 root) = [root] := by
    have uses : (List.finRange 512).flatMap (fun _ => [Leases.Event.use root]) =
        ((List.finRange 512).map fun _ => root).map .use := by
      rw [List.map_map, ← List.map_eq_flatMap]
      rfl
    rw [freeLevelLog.eq_2, gives_append]
    simp only [absent, Bool.not_false, if_true]
    rw [uses, gives_uses]
    rfl
  rw [spaceCleanup, pmlFree, freeLevel_freed, silent]
  rfl

/-- The release of a space keeps the facts, and the entries shared. -/
theorem Kept.cleanup (kept : Kept kernel state) {root : Nat} (member : root ∈ state.spaces) :
    Kept kernel (cleaned state root) ∧ (Shared kernel state → Shared kernel (cleaned state root)) := by
  obtain ⟨higher, notTable⟩ := kept.roots root member
  have untouched {table : Nat} (other : table ≠ root) (index : Fin 512) :
      clearUpper state.tables root table index = state.tables table index := by
    rw [clearUpper, if_neg]
    exact fun here => other here.1
  rw [cleaned, spaceCleanup_root _ (kept.lower root member)]
  refine kept.outside (sameKernel_of kept.layout fun table inside => untouched ?_) ?_ ?_ (kept.once.erase root) ?_
  · rintro rfl
    exact notTable inside
  · intro page inside
    rcases List.mem_cons.mp inside with rfl | wasFree
    · exact ⟨higher, notTable, kept.once.not_mem_erase, fun isTaken => (kept.taken page isTaken).2.2 member⟩
    · obtain ⟨pageHigher, pageTable, pageRoot, pageTaken⟩ := kept.free page wasFree
      exact ⟨pageHigher, pageTable, fun left => pageRoot (List.mem_of_mem_erase left), pageTaken⟩
  · intro page inside
    obtain ⟨pageHigher, pageTable, pageRoot⟩ := kept.taken page inside
    exact ⟨pageHigher, pageTable, fun left => pageRoot (List.mem_of_mem_erase left)⟩
  · intro space left
    obtain ⟨different, old⟩ := kept.once.mem_erase_iff.mp left
    exact .inl ⟨old, untouched different⟩

/-- Another part of the kernel takes a page. -/
theorem Kept.take (kept : Kept kernel state) {page : Nat} (member : page ∈ state.free) :
    Kept kernel { state with free := state.free.filter (· ≠ page), taken := page :: state.taken } := by
  refine ⟨kept.layout, ?_, ?_, kept.roots, kept.once, kept.lower, kept.copied, kept.used⟩
  · intro other inside
    obtain ⟨wasFree, different⟩ := List.mem_filter.mp inside
    obtain ⟨higher, notTable, notRoot, notTaken⟩ := kept.free other wasFree
    refine ⟨higher, notTable, notRoot, ?_⟩
    rw [List.mem_cons, not_or]
    exact ⟨of_decide_eq_true different, notTaken⟩
  · intro other inside
    rcases List.mem_cons.mp inside with rfl | before
    · obtain ⟨higher, notTable, notRoot, _⟩ := kept.free other member
      exact ⟨higher, notTable, notRoot⟩
    · exact kept.taken other before

/-- Another part of the kernel gives a page back. -/
theorem Kept.give (kept : Kept kernel state) {page : Nat} (member : page ∈ state.taken) :
    Kept kernel { state with taken := state.taken.filter (· ≠ page), free := page :: state.free } := by
  refine ⟨kept.layout, ?_, ?_, kept.roots, kept.once, kept.lower, kept.copied, kept.used⟩
  · intro other inside
    rcases List.mem_cons.mp inside with rfl | wasFree
    · obtain ⟨higher, notTable, notRoot⟩ := kept.taken other member
      exact ⟨higher, notTable, notRoot, by simp⟩
    · obtain ⟨higher, notTable, notRoot, notTaken⟩ := kept.free other wasFree
      exact ⟨higher, notTable, notRoot, fun still => notTaken (List.mem_of_mem_filter still)⟩
  · intro other inside
    exact kept.taken other (List.mem_of_mem_filter inside)

/-- The end of the heap is not among the facts. -/
theorem Kept.moved (kept : Kept kernel state) (newAddress : Nat) :
    Kept kernel { state with newAddress := newAddress } :=
  ⟨kept.layout, kept.free, kept.taken, kept.roots, kept.once, kept.lower, kept.copied, kept.used⟩

/-- The entries of the roots do not depend on the end of the heap. -/
theorem shared_moved (state : State) (newAddress : Nat) :
    Shared kernel { state with newAddress := newAddress } ↔ Shared kernel state := Iff.rfl

/-- The kernel starts with an empty table and no spaces. -/
theorem initial_kept (boot : Boot) : Kept boot.kernel (initial boot) := by
  have empty (index : Fin 512) : clearTable boot.tables boot.kernel boot.kernel index = 0 := by
    rw [clearTable, if_pos rfl]
  have onlyRoot := cleared_walk empty
  constructor
  · exact KernelLayout.cleared _ boot.kernel boot.kernelPage.1 (higher_ne_zero boot.kernelPage.2.1) empty
  · intro page member
    refine ⟨boot.pages page member, ?_, List.not_mem_nil, List.not_mem_nil⟩
    rintro ⟨path, _, place⟩
    exact boot.apart ((onlyRoot path page place).2 ▸ member)
  · intro page member
    cases member
  · intro root member
    cases member
  · exact List.nodup_nil
  · intro root member
    cases member
  · intro root member
    cases member
  · intro index linked
    have absent : links (initial boot).tables boot.kernel index = none := by
      rw [links, show (initial boot).tables boot.kernel index = 0 from empty index]
      rfl
    exact absurd absent linked

/-- No page is mapped by an event. -/
theorem rooted_of_none {event : Event} (none : event.pages state = ∅) : Rooted kernel state event := by
  refine .inr fun page inside => ?_
  rw [none] at inside
  cases inside

/-- No page of a block of the heap has the address `NULL`. -/
theorem block_notNull {newAddress count : Nat} (high : vmmHigherHalfBase ≤ newAddress)
    (fits : newAddress + count * pageSize ≤ wordSize) :
    ∀ later < count, add newAddress (mul (0 + later) pageSize) ≠ 0 := by
  intro later less
  have below : (later + 1) * pageSize ≤ count * pageSize := Nat.mul_le_mul_right _ less
  simp only [vmmHigherHalfBase, wordSize, pageSize, add, mul] at *
  omega

/-- Every event keeps the facts. Once the entries of the roots are shared, they stay
shared exactly if the pages that are mapped for the kernel had their entries. -/
theorem step_facts {event : Event} {next : State} (kept : Kept kernel state)
    (taken : step kernel state event = some next) :
    Kept kernel next ∧ (Shared kernel state → (Shared kernel next ↔ Rooted kernel state event)) := by
  cases event with
  | init supply =>
    rw [step, Option.bind_eq_bind, Option.bind_eq_some_iff] at taken
    obtain ⟨pml, lent, taken⟩ := taken
    rw [Option.bind_eq_bind, Option.bind_eq_some_iff] at taken
    obtain ⟨space, created, taken⟩ := taken
    obtain rfl := Option.some.inj taken
    obtain ⟨keptNext, sharedNext⟩ := kept.init lent created
    exact ⟨keptNext, fun shared => iff_of_true (sharedNext shared) (rooted_of_none rfl)⟩
  | cleanup root =>
    rw [step, Option.ite_none_right_eq_some] at taken
    obtain ⟨member, taken⟩ := taken
    obtain rfl := Option.some.inj taken
    obtain ⟨keptNext, sharedNext⟩ := kept.cleanup member
    exact ⟨keptNext, fun shared => iff_of_true (sharedNext shared) (rooted_of_none rfl)⟩
  | map supply virtAddr physAddr length =>
    rw [step, Option.bind_eq_bind, Option.bind_eq_some_iff] at taken
    obtain ⟨pml, lent, taken⟩ := taken
    rw [Option.bind_eq_bind, Option.bind_eq_some_iff] at taken
    obtain ⟨⟨address, after⟩, mapTaken, taken⟩ := taken
    obtain rfl := Option.some.inj taken
    have layout : KernelLayout pml.tables kernel := (lend_eq lent).1 ▸ kept.layout
    have mapped := vmmKernelMap_mapped (kept.sound lent) mapTaken
    obtain ⟨nextLayout, _⟩ := vmmKernelMap_layout layout (kept.sound lent) _ _ _ _ mapTaken
    exact ⟨kept.settle lent mapped nextLayout, fun shared => kept.shared_settle_iff shared lent mapped⟩
  | grow supply size =>
    rw [step, Option.ite_none_right_eq_some] at taken
    obtain ⟨⟨high, fits⟩, taken⟩ := taken
    rw [Option.bind_eq_bind, Option.bind_eq_some_iff] at taken
    obtain ⟨pml, lent, taken⟩ := taken
    rw [Option.bind_eq_some_iff] at taken
    obtain ⟨after, growTaken, taken⟩ := taken
    obtain rfl := Option.some.inj taken
    have layout : KernelLayout pml.tables kernel := (lend_eq lent).1 ▸ kept.layout
    obtain ⟨nextLayout, mapped⟩ := heapPages_mapped layout (kept.sound lent) (block_notNull high fits) growTaken
    rw [Nat.add_zero, Nat.mod_eq_of_lt (page_lt _)] at mapped
    refine ⟨(kept.settle lent mapped nextLayout).moved _, fun shared => ?_⟩
    exact (shared_moved _ _).trans (kept.shared_settle_iff shared lent mapped)
  | take page =>
    rw [step, Option.ite_none_right_eq_some] at taken
    obtain ⟨member, taken⟩ := taken
    obtain rfl := Option.some.inj taken
    exact ⟨kept.take member, fun shared => iff_of_true shared (rooted_of_none rfl)⟩
  | give page =>
    rw [step, Option.ite_none_right_eq_some] at taken
    obtain ⟨member, taken⟩ := taken
    obtain rfl := Option.some.inj taken
    exact ⟨kept.give member, fun shared => iff_of_true shared (rooted_of_none rfl)⟩

/-- From a state without spaces on, the spaces always agree with the kernel exactly if the pages that
are mapped for the kernel had their entries. -/
theorem Kept.agrees_iff (kept : Kept kernel state) (none : state.spaces = []) (events : List Event) :
    Always (step kernel) state (Agree kernel) events ↔ Each (step kernel) state (Rooted kernel) events := by
  have keeps (state : State) (event : Event) (next : State) (kept : Kept kernel state)
      (taken : step kernel state event = some next) : Kept kernel next :=
    (step_facts kept taken).1
  refine always_iff_each kept keeps ?_ ?_ events
  · intro root member
    rw [none] at member
    cases member
  · intro state event next kept agree taken
    obtain ⟨keptNext, decides⟩ := step_facts kept taken
    rw [agree_iff keptNext]
    exact decides ((agree_iff kept).mp agree)

/-- In a run of the kernel all spaces always agree with the kernel on the higher half, if
and only if a page of it that is mapped for the kernel while there are spaces has an entry
in the kernel's root already. -/
theorem kernel_half_agrees_iff (boot : Boot) (events : List Event) :
    Always (step boot.kernel) (initial boot) (Agree boot.kernel) events ↔
      Each (step boot.kernel) (initial boot) (Rooted boot.kernel) events :=
  (initial_kept boot).agrees_iff rfl events

/-- Memory with a root for the kernel and twelve free pages. -/
def sampleBoot : Boot where
  kernel := sampleRoot
  tables := sampleTables.tables
  free := pagesFrom (lowerToHigher 0x200000) 12
  newAddress := 0xFFFFFFFF80100000
  kernelPage := ⟨by decide, by decide, by decide⟩
  pages := bootMemory_sound.fresh.pages
  apart := by decide +kernel

/-- A space is made, and then a page is mapped that needs an entry in the kernel's root. -/
def lateMapping : List Event :=
  [.init [lowerToHigher 0x200000],
    .map [lowerToHigher 0x201000, lowerToHigher 0x202000, lowerToHigher 0x203000]
      0xFFFF900000000000 0x7000 0x1000]

/-- The page is mapped in the kernel's table only. -/
theorem late_mapping_unseen :
    ¬Always (step sampleBoot.kernel) (initial sampleBoot) (Agree sampleBoot.kernel) lateMapping ∧
      ∃ state, run (step sampleBoot.kernel) (initial sampleBoot) lateMapping = some state ∧
        lowerToHigher 0x200000 ∈ state.spaces ∧
        translation state.tables (lowerToHigher 0x200000) (pageNumber 0xFFFF900000000000) = none ∧
        (translation state.tables sampleBoot.kernel (pageNumber 0xFFFF900000000000)).map Prod.fst = some 7 := by
  have runs : (run (step sampleBoot.kernel) (initial sampleBoot) lateMapping).any (fun state =>
      lowerToHigher 0x200000 ∈ state.spaces ∧
      translation state.tables (lowerToHigher 0x200000) (pageNumber 0xFFFF900000000000) = none ∧
      (translation state.tables sampleBoot.kernel (pageNumber 0xFFFF900000000000)).map Prod.fst = some 7) := by
    decide +kernel
  obtain ⟨state, reached, facts⟩ := (Option.any_eq_true _ _).mp runs
  obtain ⟨live, unmapped, mapped⟩ := of_decide_eq_true facts
  refine ⟨fun always => ?_, state, reached, live, unmapped, mapped⟩
  have agree := always lateMapping state List.prefix_rfl reached _ live 0xFFFF900000000000 (by decide) (by decide)
  rw [← agree, unmapped] at mapped
  contradiction

end Asym.SpaceSharing
