import Asym.Heap
import Asym.KernelHalf

/-!
# Mappings of the kernel

The kernel maps pages into its own table: with `vmm_kernel_map`, and page by page when its
heap grows. New tables are taken from the allocator where they are missing, at the root as
well.

Growing the tables writes only into tables of the kernel and into pages that the allocator
hands out. An entry of the root changes only if it was absent and leads to a page that is
being mapped, so the entries of the root that are present stay what they are.
-/

namespace Asym.KernelMappings

open MachineWords PhysicalMemory PageEntries PageTables LinkedWalks PageTree PageRefinement
open VirtualMemory MappingRequests SpaceLayout KernelHalf

/-- The root has an entry for every page. -/
theorem top_lt (page : Nat) : page / 2 ^ 27 % 512 < 512 := Nat.mod_lt _ (by decide)

/-- The entry of the root that leads to a page. -/
def topSlot (page : Nat) : Fin 512 := ⟨page / 2 ^ 27 % 512, top_lt page⟩

/-- The pages that a loop over a number of consecutive pages visits. -/
def visited (start count : Nat) : Set Nat := {page | ∃ position < count, page = (start + position) % pageCount}

/-- The loop of `_HeapBlockNew` from a position on. -/
def heapPages (pml : Pml) (kernelPml newAddress : Nat) : Nat → Nat → Option Pml
  | _, 0 => some pml
  | position, count + 1 => do
      let (frame, taken) ← takeFrame pml
      let (_, next) ← vmmKernelMap taken kernelPml (add newAddress (mul position pageSize))
        (higherToLower frame) pageSize
      heapPages next kernelPml newAddress (position + 1) count

/-- The kernel's tables have grown, by pages that were supplied, and nothing else was
written. -/
structure Grew (kernel : Nat) (pml next : Pml) : Prop where
  sound : Sound next kernel
  used : ∃ used, pml.supply = used ++ next.supply ∧
    ∀ table ∈ kernelTables next.tables kernel, table ∈ kernelTables pml.tables kernel ∨ table ∈ used
  outside : ∀ table, table ∉ kernelTables pml.tables kernel → table ∉ pml.supply →
    ∀ index, next.tables table index = pml.tables table index

section Growing

variable {kernel : Nat} {pml middle next : Pml}

/-- Nothing has grown. -/
theorem Grew.refl (sound : Sound pml kernel) : Grew kernel pml pml where
  sound := sound
  used := ⟨[], rfl, fun _ member => .inl member⟩
  outside _ _ _ _ := rfl

/-- Growing twice. -/
theorem Grew.trans (first : Grew kernel pml middle) (second : Grew kernel middle next) :
    Grew kernel pml next := by
  obtain ⟨usedFirst, suppliedFirst, tablesFirst⟩ := first.used
  obtain ⟨usedSecond, suppliedSecond, tablesSecond⟩ := second.used
  refine ⟨second.sound, ⟨usedFirst ++ usedSecond, ?_, ?_⟩, ?_⟩
  · rw [suppliedFirst, suppliedSecond, List.append_assoc]
  · intro table member
    rw [List.mem_append]
    rcases tablesSecond table member with before | used
    · rcases tablesFirst table before with start | used
      · exact .inl start
      · exact .inr (.inl used)
    · exact .inr (.inr used)
  · intro table notTable notSupplied index
    have notMiddle : table ∉ kernelTables middle.tables kernel := by
      intro member
      rcases tablesFirst table member with before | used
      · exact notTable before
      · exact notSupplied (suppliedFirst ▸ List.mem_append_left _ used)
    have notLeft : table ∉ middle.supply := fun left =>
      notSupplied (suppliedFirst ▸ List.mem_append_right _ left)
    rw [second.outside table notMiddle notLeft, first.outside table notTable notSupplied]

/-- Getting or allocating a table of the kernel. An entry of the root changes only if the
table is one below the root and was missing. -/
theorem getOrAllocate_grew (sound : Sound pml kernel) {table child flags : Nat} {index : Fin 512}
    {path : List (Fin 512)} (small : flags < 2 ^ 12) (inside : path.length < 3)
    (place : walk (links pml.tables) kernel path = some table)
    (taken : pmlGetOrAllocate pml table index flags = some (child, next)) :
    Grew kernel pml next ∧ walk (links next.tables) kernel (path ++ [index]) = some child ∧
      ∀ slot, next.tables kernel slot = pml.tables kernel slot ∨
        path = [] ∧ slot = index ∧ links pml.tables kernel slot = none := by
  obtain ⟨grown, reached⟩ := getOrAllocate_grown pml next kernel table child flags index path sound small
    inside place taken
  rw [pmlGetOrAllocate] at taken
  split at taken
  · simp only [Option.some.injEq, Prod.mk.injEq] at taken
    obtain ⟨_, rfl⟩ := taken
    exact ⟨Grew.refl sound, reached, fun _ => .inl rfl⟩
  · next absent =>
    split at taken
    · contradiction
    · next fresh rest supplied =>
      simp only [Option.some.injEq, Prod.mk.injEq] at taken
      obtain ⟨_, rfl⟩ := taken
      have attached := allocate_attached sound small inside place (by simpa using absent) supplied
      have walks := attached_walks sound.tree.separated attached
      refine ⟨⟨grown.sound, ⟨[fresh], supplied, ?_⟩, ?_⟩, reached, ?_⟩
      · rintro tested ⟨way, short, toTested⟩
        rcases (walks way tested short).mp toTested with before | ⟨_, rfl⟩
        · exact .inl ⟨way, short, before⟩
        · exact .inr (List.mem_singleton_self _)
      · intro tested notTable notSupplied slot
        refine attached.same tested slot ?_ (.inl ?_)
        · rintro rfl
          exact notSupplied (supplied ▸ List.mem_cons_self)
        · rintro rfl
          exact notTable ⟨path, by omega, place⟩
      · intro slot
        have notFresh : kernel ≠ fresh := by
          rintro rfl
          exact attached.unreached [] (Nat.zero_le 3) rfl
        by_cases here : kernel = table ∧ slot = index
        · obtain ⟨rfl, rfl⟩ := here
          have atRoot := sound.tree.separated [] path kernel (Nat.zero_le 3) (by omega) rfl place
          exact .inr ⟨atRoot.symm, rfl, attached.absent⟩
        · exact .inl (attached.same kernel slot notFresh (by tauto))

/-- Writing an entry of a level-1 table of the kernel. -/
theorem setLeaf_grew (sound : Sound pml kernel) {table : Nat} {path : List (Fin 512)} (full : path.length = 3)
    (place : walk (links pml.tables) kernel path = some table) (index : Fin 512) (entry : Nat) :
    Grew kernel pml { pml with tables := setEntry pml.tables table index entry } ∧
      ∀ slot, setEntry pml.tables table index entry kernel slot = pml.tables kernel slot := by
  have walks := walk_setLeaf kernel table entry index path sound.tree.separated full place
  have different {tested : Nat} (other : tested ≠ table) (slot : Fin 512) :
      setEntry pml.tables table index entry tested slot = pml.tables tested slot := by
    rw [setEntry, if_neg]
    exact fun here => other here.1
  refine ⟨⟨sound_setLeaf kernel table entry index path pml.freed sound full place,
    ⟨[], rfl, ?_⟩, ?_⟩, ?_⟩
  · rw [kernelTables_congr walks]
    exact fun _ member => .inl member
  · intro tested notTable _ slot
    apply different
    rintro rfl
    exact notTable ⟨path, by omega, place⟩
  · intro slot
    apply different
    rintro rfl
    have atRoot := sound.tree.separated [] path kernel (Nat.zero_le 3) (by omega) rfl place
    rw [← atRoot] at full
    contradiction

/-- The kernel's tables have grown for pages, which are mapped now. -/
structure Mapped (kernel : Nat) (pml next : Pml) (pages : Set Nat) : Prop extends Grew kernel pml next where
  root : ∀ slot, links next.tables kernel slot = links pml.tables kernel slot ∨
    links pml.tables kernel slot = none ∧ ∃ page ∈ pages, topSlot page = slot
  inside : ∀ page ∈ pages, page < pageCount
  mapped : ∀ page ∈ pages, (translation next.tables kernel page).isSome
  kept : ∀ page, (translation pml.tables kernel page).isSome → (translation next.tables kernel page).isSome

/-- No page is mapped. -/
theorem Mapped.refl (sound : Sound pml kernel) : Mapped kernel pml pml ∅ where
  toGrew := Grew.refl sound
  root _ := .inl rfl
  inside _ member := absurd member (Set.notMem_empty _)
  mapped _ member := absurd member (Set.notMem_empty _)
  kept _ before := before

/-- Pages are mapped after others. -/
theorem Mapped.trans {first second : Set Nat} (early : Mapped kernel pml middle first)
    (late : Mapped kernel middle next second) : Mapped kernel pml next (first ∪ second) where
  toGrew := early.toGrew.trans late.toGrew
  root slot := by
    rcases early.root slot with same | ⟨absent, page, member, top⟩
    · rcases late.root slot with still | ⟨absent, page, member, top⟩
      · exact .inl (still.trans same)
      · exact .inr ⟨same ▸ absent, page, .inr member, top⟩
    · exact .inr ⟨absent, page, .inl member, top⟩
  inside page := by
    rintro (member | member)
    · exact early.inside page member
    · exact late.inside page member
  mapped page := by
    rintro (member | member)
    · exact late.kept page (early.mapped page member)
    · exact late.mapped page member
  kept page before := late.kept page (early.kept page before)

/-- The entry of the root for an address is that of its page. -/
theorem topSlot_address (virtAddr : Nat) : pmlGetIndex virtAddr 4 = topSlot (pageNumber virtAddr) :=
  (List.cons.inj (path_address virtAddr)).1

/-- Mapping one page. The three tables on the way are gotten one below the other, and only
the first of them has its entry in the root. -/
theorem mapPage_mapped (sound : Sound pml kernel) {virtAddr physAddr flags : Nat} (small : flags < 2 ^ 12)
    (taken : pmlMapPage pml kernel virtAddr physAddr flags = some next) :
    Mapped kernel pml next {pageNumber virtAddr} := by
  obtain ⟨_, _, translated⟩ := mapPage_spec pml next kernel virtAddr physAddr flags sound small taken
  obtain ⟨level3, first, level2, second, level1, third, toLevel3, toLevel2, toLevel1, rfl⟩ :=
    mapPage_steps taken
  have atRoot : walk (links pml.tables) kernel [] = some kernel := rfl
  obtain ⟨grewFirst, walkFirst, rootFirst⟩ := getOrAllocate_grew sound (topFlags_small small)
    (by simp) atRoot toLevel3
  obtain ⟨grewSecond, walkSecond, rootSecond⟩ := getOrAllocate_grew grewFirst.sound
    (tableFlags_small small) (by simp) walkFirst toLevel2
  obtain ⟨grewThird, walkThird, rootThird⟩ := getOrAllocate_grew grewSecond.sound
    (tableFlags_small small) (by simp) walkSecond toLevel1
  obtain ⟨grewLeaf, rootLeaf⟩ := setLeaf_grew grewThird.sound rfl walkThird (pmlGetIndex virtAddr 1)
    (pageEntryCreate physAddr flags)
  have belowRoot (slot : Fin 512) : third.tables kernel slot = first.tables kernel slot := by
    rcases rootThird slot with same | ⟨atRoot, _⟩
    · rcases rootSecond slot with still | ⟨atRoot, _⟩
      · exact same.trans still
      · cases atRoot
    · cases atRoot
  refine ⟨((grewFirst.trans grewSecond).trans grewThird).trans grewLeaf, ?_, ?_, ?_, ?_⟩
  · intro slot
    rcases rootFirst slot with same | ⟨_, rfl, absent⟩
    · left
      simp only [links, rootLeaf, belowRoot, same]
    · exact .inr ⟨absent, pageNumber virtAddr, rfl, (topSlot_address virtAddr).symm⟩
  · rintro page rfl
    exact page_lt virtAddr
  · rintro page rfl
    rw [translated, Function.update_self]
    rfl
  · intro page before
    rw [translated]
    by_cases same : page = pageNumber virtAddr
    · rw [same, Function.update_self]
      rfl
    · rw [Function.update_of_ne same]
      exact before

/-- No page is visited by an empty loop. -/
theorem visited_zero (start : Nat) : visited start 0 = ∅ := by
  ext page
  simp [visited]

/-- The first page and the others that a loop visits. -/
theorem visited_succ {start count : Nat} (inside : start < pageCount) :
    visited start (count + 1) = {start} ∪ visited ((start + 1) % pageCount) count := by
  have shift (position : Nat) : ((start + 1) % pageCount + position) % pageCount =
      (start + (position + 1)) % pageCount := by
    rw [Nat.mod_add_mod, Nat.add_assoc, Nat.add_comm 1 position]
  have here : (start + 0) % pageCount = start := Nat.mod_eq_of_lt inside
  ext page
  constructor
  · rintro ⟨position, less, rfl⟩
    cases position with
    | zero => exact .inl here
    | succ position => exact .inr ⟨position, by omega, (shift position).symm⟩
  · rintro (rfl | ⟨position, less, rfl⟩)
    · exact ⟨0, by omega, here.symm⟩
    · exact ⟨position + 1, by omega, shift position⟩

/-- `pml_map` maps the pages it visits. -/
theorem map_mapped (sound : Sound pml kernel) {virtAddr physAddr pageAmount flags : Nat} (small : flags < 2 ^ 12)
    (taken : pmlMap pml kernel virtAddr physAddr pageAmount flags = some next) :
    Mapped kernel pml next (visited (pageNumber virtAddr) pageAmount) := by
  induction pageAmount generalizing pml virtAddr physAddr with
  | zero =>
    obtain rfl : pml = next := Option.some.inj taken
    rw [visited_zero]
    exact Mapped.refl sound
  | succ pageAmount ih =>
    rw [pmlMap, Option.bind_eq_bind, Option.bind_eq_some_iff] at taken
    obtain ⟨middle, here, rest⟩ := taken
    have first := mapPage_mapped sound small here
    have others := ih first.sound rest
    rw [page_next] at others
    rw [visited_succ (page_lt virtAddr)]
    exact first.trans others

/-- The address that `vmm_kernel_map` maps at. -/
def kernelAddress (virtAddr physAddr : Nat) : Nat :=
  if virtAddr = 0 then lowerToHigher physAddr else virtAddr

/-- `vmm_kernel_map` maps the pages from its address on. -/
theorem vmmKernelMap_mapped (sound : Sound pml kernel) {virtAddr physAddr length address : Nat}
    (taken : vmmKernelMap pml kernel virtAddr physAddr length = some (address, next)) :
    Mapped kernel pml next (visited (pageNumber (kernelAddress virtAddr physAddr)) (sizeInPages length)) := by
  rw [vmmKernelMap, Option.bind_eq_bind, Option.bind_eq_some_iff] at taken
  obtain ⟨mapped, here, ended⟩ := taken
  obtain rfl : mapped = next := congrArg Prod.snd (Option.some.inj ended)
  exact map_mapped sound (by decide) here

/-- Taking a frame maps nothing and keeps the tables. -/
theorem takeFrame_mapped (sound : Sound pml kernel) {frame : Nat} (taken : takeFrame pml = some (frame, next)) :
    Mapped kernel pml next ∅ ∧ next.tables = pml.tables := by
  rw [takeFrame] at taken
  split at taken
  · contradiction
  · next address supply supplied =>
    simp only [Option.some.injEq, Prod.mk.injEq] at taken
    obtain ⟨rfl, rfl⟩ := taken
    have member {page : Nat} (left : page ∈ supply) : page ∈ pml.supply :=
      supplied ▸ List.mem_cons_of_mem _ left
    have distinct := sound.fresh.distinct
    rw [supplied, List.nodup_cons] at distinct
    have left : Sound { pml with supply := supply } kernel := by
      refine ⟨sound.tree, distinct.2, ?_, ?_⟩
      · exact fun page inside => sound.fresh.pages page (member inside)
      · exact fun page inside => sound.fresh.unused page (member inside)
    have nothing := Mapped.refl left
    refine ⟨{ nothing with used := ⟨[address], supplied, fun _ => .inl⟩, outside := ?_ }, rfl⟩
    intro _ _ _ _
    rfl

/-- The kernel's layout is kept while its heap grows, and the pages of the new block are
mapped. None of their addresses is `NULL`. -/
theorem heapPages_mapped (layout : KernelLayout pml.tables kernel) (sound : Sound pml kernel)
    {newAddress position count : Nat}
    (notNull : ∀ later < count, add newAddress (mul (position + later) pageSize) ≠ 0)
    (taken : heapPages pml kernel newAddress position count = some next) :
    KernelLayout next.tables kernel ∧
      Mapped kernel pml next (visited ((pageNumber newAddress + position) % pageCount) count) := by
  induction count generalizing pml position with
  | zero =>
    obtain rfl : pml = next := Option.some.inj taken
    rw [visited_zero]
    exact ⟨layout, Mapped.refl sound⟩
  | succ count ih =>
    rw [heapPages, Option.bind_eq_bind, Option.bind_eq_some_iff] at taken
    obtain ⟨⟨frame, framed⟩, frameTaken, taken⟩ := taken
    simp only [Option.bind_eq_some_iff] at taken
    obtain ⟨⟨address, middle⟩, mapTaken, rest⟩ := taken
    obtain ⟨framedMapped, sameTables⟩ := takeFrame_mapped sound frameTaken
    have framedLayout : KernelLayout framed.tables kernel := sameTables ▸ layout
    have here := vmmKernelMap_mapped framedMapped.sound mapTaken
    obtain ⟨middleLayout, middleSound⟩ := vmmKernelMap_layout framedLayout framedMapped.sound _ _ _ _ mapTaken
    have one : sizeInPages pageSize = 1 := by decide
    have first : add newAddress (mul position pageSize) ≠ 0 := notNull 0 (by omega)
    rw [kernelAddress, if_neg first, page_position, one,
      visited_succ (Nat.mod_lt _ (by decide)), visited_zero, Set.union_empty] at here
    obtain ⟨lastLayout, others⟩ := ih middleLayout middleSound (fun later less => by
      have there := notNull (later + 1) (by omega)
      rwa [Nat.add_right_comm position 1 later]) rest
    have following : (pageNumber newAddress + (position + 1)) % pageCount =
        ((pageNumber newAddress + position) % pageCount + 1) % pageCount := by
      rw [Nat.mod_add_mod, Nat.add_assoc]
    refine ⟨lastLayout, ?_⟩
    have all := framedMapped.trans (here.trans others)
    rw [Set.empty_union, following, ← visited_succ (Nat.mod_lt _ (by decide))] at all
    exact all

end Growing

end Asym.KernelMappings
