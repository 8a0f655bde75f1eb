import Asym.SpaceLayout

/-!
# Accounts of the page table functions

Every function on page tables is accompanied by the log of what it does with
pages: the pages it takes from `pmm_alloc`, those it gives to `pmm_free`, and
those it accesses as page tables, in the order of the source. On a well laid out
space every log is orderly in the sense of leases: the held pages are the pages
of the space, and the kernel's tables are the shared pages. The takes of a log
are the pages that left the supply, and its gives are the pages that were freed.
-/

namespace Asym.PageAccounting

open MachineWords PhysicalMemory PageEntries PageTables LinkedWalks PageTree PageRefinement
open VirtualMemory MappingRequests Leases Descents SpaceLayout

/-- Tables that the test of one page accesses. -/
def mappedPageReads (tables : Tables) (table virtAddr : Nat) : List Nat :=
  let level3 := pmlGet tables table (pmlGetIndex virtAddr 4)
  table :: if level3 = 0 then []
    else
      let level2 := pmlGet tables level3 (pmlGetIndex virtAddr 3)
      level3 :: if level2 = 0 then []
        else
          let level1 := pmlGet tables level2 (pmlGetIndex virtAddr 2)
          level2 :: if level1 = 0 then [] else [level1]

/-- Tables that `pml_mapped` accesses. -/
def mappedReads (tables : Tables) (table virtAddr : Nat) : Nat → List Nat
  | 0 => []
  | pageAmount + 1 =>
      mappedPageReads tables table virtAddr ++
        if pmlMappedPage tables table virtAddr then
          mappedReads tables table (add virtAddr pageSize) pageAmount
        else []

/-- Tables that the way to a level-1 entry accesses, the last one included. -/
def leafReads (tables : Tables) (table virtAddr : Nat) : List Nat :=
  let level3 := pmlGet tables table (pmlGetIndex virtAddr 4)
  let level2 := pmlGet tables level3 (pmlGetIndex virtAddr 3)
  [table, level3, level2, pmlGet tables level2 (pmlGetIndex virtAddr 2)]

/-- Log of `pml_get_or_allocate`. A new table is cleared and then entered into
its parent. -/
def getLog (pml : Pml) (table : Nat) (index : Fin 512) : List (Event Nat) :=
  .use table :: if present (pml.tables table index) then []
    else match pml.supply with
      | [] => []
      | address :: _ => [.take address, .use address, .use table]

/-- Log of the body of the loop of `pml_map`. -/
def mapPageLog (pml : Pml) (table virtAddr flags : Nat) : List (Event Nat) :=
  getLog pml table (pmlGetIndex virtAddr 4) ++
    match pmlGetOrAllocate pml table (pmlGetIndex virtAddr 4) (topFlags flags) with
    | none => []
    | some (level3, first) =>
      getLog first level3 (pmlGetIndex virtAddr 3) ++
        match pmlGetOrAllocate first level3 (pmlGetIndex virtAddr 3) (tableFlags flags) with
        | none => []
        | some (level2, second) =>
          getLog second level2 (pmlGetIndex virtAddr 2) ++
            match pmlGetOrAllocate second level2 (pmlGetIndex virtAddr 2) (tableFlags flags) with
            | none => []
            | some (level1, _) => [.use level1]

/-- Log of `pml_map`. -/
def mapLog (pml : Pml) (table virtAddr physAddr : Nat) : Nat → Nat → List (Event Nat)
  | 0, _ => []
  | pageAmount + 1, flags =>
      mapPageLog pml table virtAddr flags ++
        match pmlMapPage pml table virtAddr physAddr flags with
        | none => []
        | some next => mapLog next table (add virtAddr pageSize) (add physAddr pageSize) pageAmount flags

/-- Log of the body of the loop of `pml_unmap`: the frame is given back before
the entry is cleared. -/
def unmapPageLog (tables : Tables) (table virtAddr : Nat) : List (Event Nat) :=
  let level1 := leafTable tables table virtAddr
  let entry := tables level1 (pmlGetIndex virtAddr 1)
  (leafReads tables table virtAddr).map .use ++
    (if owned entry then [.give (pageEntryGetAddress entry)] else []) ++ [.use level1]

/-- Log of `pml_unmap`. -/
def unmapLog (pml : Pml) (table virtAddr : Nat) : Nat → List (Event Nat)
  | 0 => []
  | pageAmount + 1 =>
      unmapPageLog pml.tables table virtAddr ++
        unmapLog (pmlUnmapPage pml table virtAddr) table (add virtAddr pageSize) pageAmount

/-- Log of `pml_change_flags`. -/
def changeFlagsLog (pml : Pml) (table virtAddr : Nat) : Nat → Nat → List (Event Nat)
  | 0, _ => []
  | pageAmount + 1, flags =>
      (leafReads pml.tables table virtAddr).map .use ++
        changeFlagsLog (pmlChangeFlagsPage pml table virtAddr flags) table (add virtAddr pageSize)
          pageAmount flags

/-- Log of `pml_free_level`, with the level raised by one. -/
def freeLevelLog (tables : Tables) : Nat → Nat → List (Event Nat)
  | 0, _ => []
  | level + 1, table =>
      (List.finRange 512).flatMap (fun index =>
        .use table :: if !present (tables table index) then []
          else if level != 1 || owned (tables table index) then
            freeLevelLog tables level (pageEntryGetAddress (tables table index))
          else []) ++ [.give table]

/-- Log of the loop of `vmm_alloc`. -/
def allocLog (pml : Pml) (table virtAddr flags : Nat) : Nat → Nat → List (Event Nat)
  | _, 0 => []
  | position, count + 1 =>
      let address := add virtAddr (mul position pageSize)
      match takeFrame pml with
      | none => []
      | some (frame, taken) =>
        .take frame :: mapLog taken table address (higherToLower frame) 1 flags ++
          match pmlMap taken table address (higherToLower frame) 1 flags with
          | none => []
          | some next => allocLog next table virtAddr flags (position + 1) count

/-- What a function on the tables of a space does: the space stays well laid
out, the log is orderly between the given sets of held pages, its takes come
from the supply and its gives are freed, and the kernel keeps its tables. -/
structure Performed (root kernel : Nat) (pml next : Pml) (before after : Set Nat)
    (events : List (Event Nat)) : Prop where
  layout : Layout next root kernel
  orderly : Orderly (kernelTables pml.tables kernel) before events after
  freed : next.freed = (gives events).reverse ++ pml.freed
  supplied : pml.supply = takes events ++ next.supply
  kernelSame : kernelTables next.tables kernel = kernelTables pml.tables kernel

section Steps

variable {root kernel : Nat} {pml middle next : Pml} {before between after : Set Nat}
  {first second : List (Event Nat)}

/-- Two functions after each other. -/
theorem Performed.append (early : Performed root kernel pml middle before between first)
    (late : Performed root kernel middle next between after second) :
    Performed root kernel pml next before after (first ++ second) where
  layout := late.layout
  orderly := early.orderly.append (early.kernelSame ▸ late.orderly)
  freed := by
    rw [late.freed, early.freed, gives_append, List.reverse_append, List.append_assoc]
  supplied := by
    rw [early.supplied, late.supplied, takes_append, List.append_assoc]
  kernelSame := late.kernelSame.trans early.kernelSame

/-- Accesses to tables alone. -/
theorem performed_uses (layout : Layout pml root kernel) (held : Set Nat) (pages : List Nat)
    (allowed : ∀ page ∈ pages, page ∈ held ∨ page ∈ kernelTables pml.tables kernel) :
    Performed root kernel pml pml held held (pages.map .use) where
  layout := layout
  orderly := orderly_uses allowed
  freed := by simp
  supplied := by simp
  kernelSame := rfl

/-- The write of a level-1 entry logs nothing by itself. -/
theorem leaf_silent {old entry : Nat} (written : LeafWritten pml next root kernel old entry)
    (sameFreed : next.freed = pml.freed) (sameSupply : next.supply = pml.supply) (held : Set Nat) :
    Performed root kernel pml next held held [] where
  layout := written.layout
  orderly := .done held
  freed := sameFreed
  supplied := sameSupply.symm
  kernelSame := written.kernelSame

/-- A nonzero lookup extends a walk. -/
theorem walk_get (tables : Tables) (table : Nat) (path : List (Fin 512)) (index : Fin 512)
    (place : walk (links tables) root path = some table) (found : pmlGet tables table index ≠ 0) :
    walk (links tables) root (path ++ [index]) = some (pmlGet tables table index) := by
  rw [walk_concat, place, Option.bind_some]
  cases linked : links tables table index with
  | none => exact absurd (get_of_no_link linked) found
  | some child => rw [get_of_link linked]

/-- The test of one page accesses tables of the space or of the kernel. -/
theorem mappedPageReads_allowed (layout : Layout pml root kernel) (virtAddr : Nat) :
    ∀ page ∈ mappedPageReads pml.tables root virtAddr,
      page ∈ spacePages pml.tables root ∨ page ∈ kernelTables pml.tables kernel := by
  have reached := layout.reached
  rw [mappedPageReads, List.forall_mem_cons]
  refine ⟨reached [] root (by simp) rfl, ?_⟩
  split
  · simp
  · rename_i third
    have walk3 := walk_get pml.tables root [] (pmlGetIndex virtAddr 4) rfl third
    rw [List.forall_mem_cons]
    refine ⟨reached _ _ (by simp) walk3, ?_⟩
    split
    · simp
    · rename_i second
      have walk2 := walk_get pml.tables _ _ (pmlGetIndex virtAddr 3) walk3 second
      rw [List.forall_mem_cons]
      refine ⟨reached _ _ (by simp) walk2, ?_⟩
      split
      · simp
      · rename_i first
        have walk1 := walk_get pml.tables _ _ (pmlGetIndex virtAddr 2) walk2 first
        rw [List.forall_mem_singleton]
        exact reached _ _ (by simp) walk1

/-- `pml_mapped` accesses tables of the space or of the kernel. -/
theorem mappedReads_allowed (layout : Layout pml root kernel) (virtAddr pageAmount : Nat) :
    ∀ page ∈ mappedReads pml.tables root virtAddr pageAmount,
      page ∈ spacePages pml.tables root ∨ page ∈ kernelTables pml.tables kernel := by
  induction pageAmount generalizing virtAddr with
  | zero => simp [mappedReads]
  | succ pageAmount ih =>
    intro page member
    rw [mappedReads, List.mem_append] at member
    rcases member with here | later
    · exact mappedPageReads_allowed layout virtAddr page here
    · split at later
      · exact ih _ page later
      · contradiction

/-- The way to a level-1 entry accesses tables of the space or of the kernel. -/
theorem leafReads_allowed (layout : Layout pml root kernel) (virtAddr table : Nat)
    (place : walk (links pml.tables) root (pagePath (pageNumber virtAddr)) = some table) :
    ∀ page ∈ leafReads pml.tables root virtAddr,
      page ∈ spacePages pml.tables root ∨ page ∈ kernelTables pml.tables kernel := by
  have reached := layout.reached
  rw [← path_address] at place
  simp only [walk, Option.bind_eq_some_iff, Option.some.injEq] at place
  obtain ⟨level3, toLevel3, level2, toLevel2, level1, toLevel1, rfl⟩ := place
  rw [leafReads, get_of_link toLevel3, get_of_link toLevel2,
    get_of_link toLevel1]
  simp only [List.forall_mem_cons]
  refine ⟨reached [] root (by simp) rfl, reached [pmlGetIndex virtAddr 4] level3 (by simp) ?_,
    reached [pmlGetIndex virtAddr 4, pmlGetIndex virtAddr 3] level2 (by simp) ?_,
    reached [pmlGetIndex virtAddr 4, pmlGetIndex virtAddr 3, pmlGetIndex virtAddr 2] level1 (by simp) ?_,
    by simp⟩
  · simp [walk, toLevel3]
  · simp [walk, toLevel3, toLevel2]
  · simp [walk, toLevel3, toLevel2, toLevel1]

end Steps

section Mapping

variable {root kernel : Nat} {pml next : Pml}

/-- Getting or allocating a table below the lower half. -/
theorem getOrAllocate_performed (layout : Layout pml root kernel) (table child flags : Nat)
    (index : Fin 512) (path : List (Fin 512)) (small : flags < 2 ^ 12)
    (inside : path.length < 3) (lower : Lower (path ++ [index]))
    (place : walk (links pml.tables) root path = some table)
    (own : table ∈ spacePages pml.tables root)
    (taken : pmlGetOrAllocate pml table index flags = some (child, next)) :
    Performed root kernel pml next (spacePages pml.tables root) (spacePages next.tables root)
      (getLog pml table index) := by
  rw [pmlGetOrAllocate] at taken
  split at taken
  · rename_i here
    simp only [Option.some.injEq, Prod.mk.injEq] at taken
    obtain ⟨rfl, rfl⟩ := taken
    rw [getLog, if_pos here]
    exact performed_uses layout _ [table] (by simp [own])
  · rename_i absent
    split at taken
    · contradiction
    · rename_i fresh rest supplied
      simp only [Option.some.injEq, Prod.mk.injEq] at taken
      obtain ⟨rfl, rfl⟩ := taken
      have extended := layout.attach table fresh flags index rest path small inside lower place
        (by simpa using absent) supplied
      obtain ⟨notOwn, notKernel⟩ := layout.stocked.unused fresh (by simp [supplied])
      have logged : getLog pml table index = [.use table, .take fresh, .use fresh, .use table] := by
        rw [getLog, if_neg absent, supplied]
      rw [logged]
      refine ⟨extended.layout, ?_, by simp [gives], by simp [takes, supplied], extended.kernelSame⟩
      rw [extended.pages]
      exact .use table (.inl own) (.take fresh notOwn notKernel (.use fresh
        (.inl (Set.mem_insert fresh _)) (.use table (.inl (Set.mem_insert_of_mem fresh own)) (.done _))))

/-- The tables for one page of the lower half are made, and its level-1 table is
reached. What remains is the write of the entry. -/
structure TablesMade (root kernel : Nat) (pml made next : Pml) (virtAddr table entry : Nat)
    (before after : Set Nat) (events : List (Event Nat)) : Prop where
  performed : Performed root kernel pml made before after events
  place : walk (links made.tables) root (pagePath (pageNumber virtAddr)) = some table
  translations : translation made.tables root = translation pml.tables root
  written : next = { made with
    tables := setEntry made.tables table (pageSlot (pageNumber virtAddr)) entry }

/-- Mapping one page of the lower half makes its tables and writes its entry. -/
theorem mapPage_tables (layout : Layout pml root kernel) (virtAddr physAddr flags : Nat)
    (small : flags < 2 ^ 12) (lower : Lower (pagePath (pageNumber virtAddr)))
    (taken : pmlMapPage pml root virtAddr physAddr flags = some next) :
    ∃ made table, TablesMade root kernel pml made next virtAddr table (pageEntryCreate physAddr flags)
      (spacePages pml.tables root) (spacePages made.tables root) (mapPageLog pml root virtAddr flags) := by
  have topSmall := topFlags_small small
  rw [← path_address] at lower
  have prefixLower : ∀ rest, Lower (pmlGetIndex virtAddr 4 :: rest) := fun rest index first =>
    lower index first
  obtain ⟨level3, first, level2, second, level1, third, toLevel3, toLevel2, toLevel1, rewritten⟩ :=
    mapPage_steps taken
  -- The three tables are got one below the other; each stays reached while the next is made.
  obtain ⟨grownFirst, walkFirst⟩ := getOrAllocate_grown pml first root root level3 _ _ [] layout.sound
    topSmall (by simp) rfl toLevel3
  have performedFirst := getOrAllocate_performed layout root level3 _ _ [] topSmall (by simp)
    (prefixLower []) rfl (root_mem pml.tables root) toLevel3
  have firstOwn : level3 ∈ spacePages first.tables root :=
    table_mem first.tables root level3 _ (by simp) (prefixLower []) walkFirst
  obtain ⟨grownSecond, walkSecond⟩ := getOrAllocate_grown first second root level3 level2 _ _ _
    grownFirst.sound (tableFlags_small small) (by simp) walkFirst toLevel2
  have performedSecond := getOrAllocate_performed performedFirst.layout level3 level2 _ _ _
    (tableFlags_small small) (by simp) (prefixLower _) walkFirst firstOwn toLevel2
  have secondOwn : level2 ∈ spacePages second.tables root :=
    table_mem second.tables root level2 _ (by simp) (prefixLower _) walkSecond
  obtain ⟨grownThird, walkThird⟩ := getOrAllocate_grown second third root level2 level1 _ _ _
    grownSecond.sound (tableFlags_small small) (by simp) walkSecond toLevel1
  have performedThird := getOrAllocate_performed performedSecond.layout level2 level1 _ _ _
    (tableFlags_small small) (by simp) (prefixLower _) walkSecond secondOwn toLevel1
  have thirdOwn : level1 ∈ spacePages third.tables root :=
    table_mem third.tables root level1 _ (by simp) (prefixLower _) walkThird
  have written := performed_uses performedThird.layout (spacePages third.tables root) [level1]
    (by simp [thirdOwn])
  refine ⟨third, level1, ?_, ?_, ?_, ?_⟩
  · have log : mapPageLog pml root virtAddr flags =
        getLog pml root (pmlGetIndex virtAddr 4) ++ (getLog first level3 (pmlGetIndex virtAddr 3) ++
          (getLog second level2 (pmlGetIndex virtAddr 2) ++ [level1].map .use)) := by
      simp only [mapPageLog, toLevel3, toLevel2, toLevel1]
      rfl
    rw [log]
    exact performedFirst.append (performedSecond.append (performedThird.append written))
  · rw [← path_address]
    exact walkThird
  · exact ((grownFirst.trans grownSecond).trans grownThird).translations
  · rw [← slot_address]
    exact rewritten

/-- An untranslated page of the lower half has an entry that owns nothing. -/
theorem untranslated_frames (layout : Layout pml root kernel) (page table : Nat)
    (inside : page < pageCount) (lower : Lower (pagePath page))
    (place : walk (links pml.tables) root (pagePath page) = some table)
    (unmapped : translation pml.tables root page = none) :
    frames (pml.tables table (pageSlot page)) = ∅ := by
  apply frames_unowned
  refine layout.absentUnowned (pagePath page) table (pageSlot page) rfl lower place ?_
  rw [translation, if_pos inside, place, Option.bind_some, readEntry] at unmapped
  cases here : present (pml.tables table (pageSlot page)) with
  | false => rfl
  | true => simp [here] at unmapped

/-- The present bit is not the owned bit. -/
theorem owned_present (flags : Nat) : owned (flags ||| pagePresent) = owned flags := by
  have apart : pagePresent &&& pageOwned = 0 := by decide
  rw [owned, owned, Nat.and_or_distrib_right, apart, Nat.or_zero]

/-- Flags with the owned bit added. -/
theorem owned_or (flags : Nat) : owned (flags ||| pageOwned) = true := by
  rw [owned, bne_iff_ne, Nat.and_or_distrib_right, Nat.and_self]
  intro zero
  exact absurd (Nat.or_eq_zero_iff.mp zero).2 (by decide)

/-- The owned bit of an entry is among its flags. -/
theorem owned_flags (entry : Nat) : owned (entryFlags entry) = owned entry := by
  rw [owned, owned, flags_owned]

/-- The owned bit of a built entry is that of its flags. -/
theorem owned_create (physAddr flags : Nat) (small : flags < 2 ^ 12) :
    owned (pageEntryCreate physAddr flags) = owned flags := by
  rw [← owned_flags, create_flags physAddr flags small, owned_present]

/-- Mapping one untranslated page of the lower half to a frame of somebody
else. -/
theorem mapPage_performed (layout : Layout pml root kernel) (virtAddr physAddr flags : Nat)
    (small : flags < 2 ^ 12) (unowned : owned flags = false)
    (lower : Lower (pagePath (pageNumber virtAddr)))
    (unmapped : translation pml.tables root (pageNumber virtAddr) = none)
    (taken : pmlMapPage pml root virtAddr physAddr flags = some next) :
    Performed root kernel pml next (spacePages pml.tables root) (spacePages next.tables root)
      (mapPageLog pml root virtAddr flags) := by
  obtain ⟨made, table, tablesMade⟩ := mapPage_tables layout virtAddr physAddr flags small lower taken
  have performed := tablesMade.performed
  have entryUnowned := (owned_create physAddr flags small).trans unowned
  have leaf := performed.layout.setLeaf (pageEntryCreate physAddr flags) made.freed tablesMade.place
    (writable_unowned _ entryUnowned)
  have oldFrames := untranslated_frames performed.layout _ table (page_lt virtAddr) lower
    tablesMade.place (by rw [tablesMade.translations, unmapped])
  rw [← tablesMade.written] at leaf
  have samePages : spacePages next.tables root = spacePages made.tables root := by
    rw [leaf.pages, oldFrames, frames_unowned _ entryUnowned, Set.sdiff_empty, Set.union_empty]
  have silent := leaf_silent leaf (by rw [tablesMade.written]) (by rw [tablesMade.written])
    (spacePages made.tables root)
  rw [samePages, ← List.append_nil (mapPageLog pml root virtAddr flags)]
  exact performed.append silent

/-- The frame that an owned entry built for a page owns. -/
theorem frames_create {frame flags : Nat} (small : flags < 2 ^ 12) (set : owned flags = true)
    (higher : HigherPage frame) : frames (pageEntryCreate (higherToLower frame) flags) = {frame} := by
  ext tested
  simp only [frames, owned_create _ flags small, set, Set.mem_ofPred_eq, true_and,
    create_address small higher.1 higher.2.1 higher.2.2, Set.mem_singleton_iff]

/-- A frame that was just taken may be written into an entry of the lower
half. -/
theorem writable_taken (frame flags page table : Nat)
    (small : flags < 2 ^ 12) (set : owned flags = true) (lower : Lower (pagePath page))
    (higher : HigherPage frame) (notOwn : frame ∉ spacePages pml.tables root)
    (notKernel : frame ∉ kernelTables pml.tables kernel) (unsupplied : frame ∉ pml.supply) :
    Writable pml root kernel table page (pageEntryCreate (higherToLower frame) flags) := by
  have only := frames_create small set higher
  refine ⟨?_, fun _ => lower, ?_, ?_, ?_, ?_⟩
  · intro absent
    rw [create_present] at absent
    contradiction
  · rw [only]
    rintro tested rfl
    exact higher
  · rw [only]
    rintro tested rfl
    exact notKernel
  · rw [only]
    rintro tested rfl
    exact unsupplied
  · rw [only]
    rintro tested rfl own
    exact absurd own notOwn

/-- `pml_map` for a single page. -/
theorem map_one {pml next : Pml} {table virtAddr physAddr flags : Nat}
    (taken : pmlMap pml table virtAddr physAddr 1 flags = some next) :
    pmlMapPage pml table virtAddr physAddr flags = some next := by
  rw [pmlMap, Option.bind_eq_bind, Option.bind_eq_some_iff] at taken
  obtain ⟨middle, here, ended⟩ := taken
  obtain rfl : middle = next := Option.some.inj ended
  exact here

/-- A frame is taken for one page of the lower half: the tables are made while
the frame is reserved, and the frame may be written into the entry. -/
theorem allocPage_tables {taken : Pml} (layout : Layout pml root kernel) (virtAddr frame flags : Nat)
    (small : flags < 2 ^ 12) (set : owned flags = true)
    (lower : Lower (pagePath (pageNumber virtAddr)))
    (frameTaken : takeFrame pml = some (frame, taken))
    (mapped : pmlMap taken root virtAddr (higherToLower frame) 1 flags = some next) :
    ∃ made table, TablesMade root kernel pml made next virtAddr table
        (pageEntryCreate (higherToLower frame) flags) (spacePages pml.tables root)
        (insert frame (spacePages made.tables root))
        (.take frame :: mapLog taken root virtAddr (higherToLower frame) 1 flags) ∧
      HigherPage frame ∧ Writable made root kernel table (pageNumber virtAddr)
        (pageEntryCreate (higherToLower frame) flags) := by
  rw [takeFrame] at frameTaken
  split at frameTaken
  · contradiction
  · rename_i address rest supplied
    simp only [Option.some.injEq, Prod.mk.injEq] at frameTaken
    obtain ⟨rfl, rfl⟩ := frameTaken
    have stocked := layout.stocked
    rw [supplied] at stocked
    obtain ⟨notOwn, notKernel⟩ := stocked.unused address (by simp)
    obtain ⟨notLater, _⟩ := List.nodup_cons.mp stocked.distinct
    have higher := stocked.higher address (by simp)
    have here := map_one mapped
    obtain ⟨made, table, tablesMade⟩ := mapPage_tables (layout.take address rest supplied) virtAddr
      (higherToLower address) flags small lower here
    have performed := tablesMade.performed
    have suppliedRest : rest = takes (mapPageLog { pml with supply := rest } root virtAddr flags) ++
        made.supply := performed.supplied
    have log : mapLog { pml with supply := rest } root virtAddr (higherToLower address) 1 flags =
        mapPageLog { pml with supply := rest } root virtAddr flags := by
      simp only [mapLog, here, List.append_nil]
    have untaken : address ∉ takes (mapPageLog { pml with supply := rest } root virtAddr flags) :=
      fun member => notLater (by rw [suppliedRest]; simp [member])
    have madeNotOwn : address ∉ spacePages made.tables root := fun member =>
      (performed.orderly.held_from address member).elim notOwn untaken
    have framed := performed.orderly.frame {address} (by rintro page rfl; exact ⟨notOwn, untaken⟩)
    rw [Set.union_singleton, Set.union_singleton] at framed
    refine ⟨made, table, ⟨⟨performed.layout, ?_, ?_, ?_, performed.kernelSame⟩, tablesMade.place,
      tablesMade.translations, tablesMade.written⟩, higher, ?_⟩
    · rw [log]
      exact .take address notOwn notKernel framed
    · rw [log]
      exact performed.freed
    · rw [log, takes_take, List.cons_append, ← suppliedRest]
      exact supplied
    · refine writable_taken address flags _ table small set lower higher madeNotOwn ?_ ?_
      · rw [performed.kernelSame]
        exact notKernel
      · exact fun member => notLater (by rw [suppliedRest]; simp [member])

/-- The page that gets a frame is translated to it. -/
theorem allocPage_translation {taken : Pml} (layout : Layout pml root kernel)
    (virtAddr frame flags : Nat) (small : flags < 2 ^ 12)
    (frameTaken : takeFrame pml = some (frame, taken))
    (mapped : pmlMap taken root virtAddr (higherToLower frame) 1 flags = some next) :
    translation next.tables root = Function.update (translation pml.tables root) (pageNumber virtAddr)
      (some (higherToLower frame / pageSize % 2 ^ 40, flags ||| pagePresent)) := by
  obtain ⟨takenSound, sameTables⟩ := takeFrame_sound layout.sound frameTaken
  obtain ⟨_, _, updated⟩ := mapPage_spec taken next root virtAddr (higherToLower frame) flags takenSound
    small (map_one mapped)
  rw [updated, sameTables]

/-- One page of the lower half gets a frame of its own. -/
theorem allocPage_performed {taken : Pml} (layout : Layout pml root kernel)
    (virtAddr frame flags : Nat) (small : flags < 2 ^ 12) (set : owned flags = true)
    (lower : Lower (pagePath (pageNumber virtAddr)))
    (unmapped : translation pml.tables root (pageNumber virtAddr) = none)
    (frameTaken : takeFrame pml = some (frame, taken))
    (mapped : pmlMap taken root virtAddr (higherToLower frame) 1 flags = some next) :
    Performed root kernel pml next (spacePages pml.tables root) (spacePages next.tables root)
      (.take frame :: mapLog taken root virtAddr (higherToLower frame) 1 flags) := by
  obtain ⟨made, table, tablesMade, higher, writable⟩ := allocPage_tables layout virtAddr frame flags
    small set lower frameTaken mapped
  have performed := tablesMade.performed
  have leaf := performed.layout.setLeaf _ made.freed tablesMade.place writable
  have oldFrames := untranslated_frames performed.layout _ table (page_lt virtAddr) lower
    tablesMade.place (by rw [tablesMade.translations, unmapped])
  rw [← tablesMade.written] at leaf
  have pages : spacePages next.tables root = insert frame (spacePages made.tables root) := by
    rw [leaf.pages, oldFrames, frames_create small set higher, Set.sdiff_empty,
      Set.union_singleton]
  have silent := leaf_silent leaf (by rw [tablesMade.written]) (by rw [tablesMade.written])
    (insert frame (spacePages made.tables root))
  rw [pages, ← List.append_nil (_ :: _)]
  exact performed.append silent

end Mapping

section Unmapping

variable {root kernel : Nat} {pml : Pml}

/-- An owned entry belongs to the lower half. -/
theorem lower_of_owned (layout : Layout pml root kernel) (page table : Nat)
    (place : walk (links pml.tables) root (pagePath page) = some table)
    (set : owned (pml.tables table (pageSlot page)) = true) : Lower (pagePath page) := by
  by_contra upper
  rw [layout.upper_walk (pagePath page) upper] at place
  have unowned := layout.kernelLayout.unowned (pagePath page) table (pageSlot page) rfl place
  exact absurd (unowned.symm.trans set) Bool.false_ne_true

/-- The descent to the frame of an owned entry. -/
theorem frame_descent (layout : Layout pml root kernel) (page table : Nat)
    (place : walk (links pml.tables) root (pagePath page) = some table)
    (set : owned (pml.tables table (pageSlot page)) = true) :
    walk (owns pml.tables) (4, root) (pagePath page ++ [pageSlot page]) =
      some (0, pageEntryGetAddress (pml.tables table (pageSlot page))) := by
  have lower := lower_of_owned layout page table place set
  have here : present (pml.tables table (pageSlot page)) = true := by
    cases found : present (pml.tables table (pageSlot page)) with
    | true => rfl
    | false =>
      have unowned := layout.absentUnowned (pagePath page) table (pageSlot page) rfl lower place found
      exact absurd (unowned.symm.trans set) Bool.false_ne_true
  rw [walk_concat, walk_owns pml.tables 4 root _ (by simp [pagePath]) (Nat.le_refl 4) (fun _ => lower),
    place, Option.map_some, Option.bind_some]
  exact if_pos ⟨here, fun top => absurd top (by simp), fun _ => set⟩

/-- The frame of an owned entry is a page of the space. -/
theorem frames_subset (layout : Layout pml root kernel) (page table : Nat)
    (place : walk (links pml.tables) root (pagePath page) = some table) :
    frames (pml.tables table (pageSlot page)) ⊆ spacePages pml.tables root := by
  rintro frame ⟨set, same⟩
  exact ⟨_, _, frame_descent layout page table place set, same.symm⟩

/-- Unmapping one page gives its frame back if the page owns it. -/
theorem unmapPage_performed (layout : Layout pml root kernel) (virtAddr table : Nat)
    (place : walk (links pml.tables) root (pagePath (pageNumber virtAddr)) = some table) :
    Performed root kernel pml (pmlUnmapPage pml root virtAddr) (spacePages pml.tables root)
      (spacePages (pmlUnmapPage pml root virtAddr).tables root)
      (unmapPageLog pml.tables root virtAddr) := by
  have leafAt := leafTable_of_walk place
  have inside := frames_subset layout _ table place
  have reads := performed_uses layout (spacePages pml.tables root) (leafReads pml.tables root virtAddr)
    (leafReads_allowed layout virtAddr table place)
  have leaf := layout.setLeaf 0 (pmlUnmapPage pml root virtAddr).freed place
    (writable_unowned 0 (by decide))
  have nextEq : pmlUnmapPage pml root virtAddr = { pml with
      tables := setEntry pml.tables table (pageSlot (pageNumber virtAddr)) 0
      freed := (pmlUnmapPage pml root virtAddr).freed } := by
    simp only [pmlUnmapPage, leafAt, slot_address]
  rw [← nextEq] at leaf
  have pages : spacePages (pmlUnmapPage pml root virtAddr).tables root =
      spacePages pml.tables root \ frames (pml.tables table (pageSlot (pageNumber virtAddr))) := by
    rw [leaf.pages, frames_unowned 0 (by decide), Set.union_empty]
  -- The level-1 table is still reached after the frame is gone.
  have still : table ∈ spacePages (pmlUnmapPage pml root virtAddr).tables root ∨
      table ∈ kernelTables (pmlUnmapPage pml root virtAddr).tables kernel := by
    refine leaf.layout.reached (pagePath (pageNumber virtAddr)) table (by simp [pagePath]) ?_
    rw [nextEq, walk_setLeaf root table 0 _ _ layout.tree.separated rfl place _
      (by simp [pagePath])]
    exact place
  rw [leaf.kernelSame] at still
  simp only [unmapPageLog, leafAt, slot_address]
  rw [List.append_assoc]
  cases set : owned (pml.tables table (pageSlot (pageNumber virtAddr))) with
  | true =>
    have only : frames (pml.tables table (pageSlot (pageNumber virtAddr))) =
        {pageEntryGetAddress (pml.tables table (pageSlot (pageNumber virtAddr)))} := by
      ext frame
      simp [frames, set]
    rw [only] at pages inside
    refine reads.append ⟨leaf.layout, ?_, ?_, ?_, leaf.kernelSame⟩
    · refine .give _ (inside rfl) ?_
      rw [← pages]
      exact .use table still (.done _)
    · have bit := set
      rw [owned, bne_iff_ne] at bit
      simp [gives, pmlUnmapPage, leafAt, slot_address, bit]
    · rfl
  | false =>
    rw [frames_unowned _ set, Set.sdiff_empty] at pages
    refine reads.append ⟨leaf.layout, ?_, ?_, ?_, leaf.kernelSame⟩
    · rw [← pages]
      exact .use table still (.done _)
    · have bit := set
      rw [owned, bne_eq_false_iff_eq] at bit
      simp [gives, pmlUnmapPage, leafAt, slot_address, bit]
    · rfl

/-- Rebuilding an entry from its own address keeps what it owns, given flags
without the owned bit. -/
theorem frames_rebuild (entry flags : Nat) (small : flags < 2 ^ 12) (unowned : owned flags = false) :
    frames (pageEntryCreate (higherToLower (pageEntryGetAddress entry))
      (if entry &&& pageOwned ≠ 0 then flags ||| pageOwned else flags)) = frames entry := by
  have finalSmall : (if entry &&& pageOwned ≠ 0 then flags ||| pageOwned else flags) < 2 ^ 12 := by
    split
    · exact Nat.or_lt_two_pow small (by decide)
    · exact small
  have sameOwned : owned (if entry &&& pageOwned ≠ 0 then flags ||| pageOwned else flags) =
      owned entry := by
    by_cases set : entry &&& pageOwned = 0
    · rw [if_neg (not_not_intro set), unowned, owned, set]
      rfl
    · rw [if_pos set, owned_or, owned, bne_iff_ne.mpr set]
  have sameAddress : pageEntryGetAddress (pageEntryCreate (higherToLower (pageEntryGetAddress entry))
      (if entry &&& pageOwned ≠ 0 then flags ||| pageOwned else flags)) = pageEntryGetAddress entry := by
    rw [pageEntryGetAddress, rebuild_physical entry _ finalSmall]
    rfl
  ext frame
  simp only [frames, owned_create _ _ finalSmall, sameOwned, sameAddress]

/-- Changing the flags of one page changes no ownership. -/
theorem changeFlagsPage_performed (layout : Layout pml root kernel) (virtAddr flags table : Nat)
    (small : flags < 2 ^ 12) (unowned : owned flags = false)
    (place : walk (links pml.tables) root (pagePath (pageNumber virtAddr)) = some table) :
    Performed root kernel pml (pmlChangeFlagsPage pml root virtAddr flags) (spacePages pml.tables root)
      (spacePages (pmlChangeFlagsPage pml root virtAddr flags).tables root)
      ((leafReads pml.tables root virtAddr).map .use) := by
  have leafAt := leafTable_of_walk place
  have inside := frames_subset layout _ table place
  have reads := performed_uses layout (spacePages pml.tables root) (leafReads pml.tables root virtAddr)
    (leafReads_allowed layout virtAddr table place)
  have sameFrames := frames_rebuild (pml.tables table (pageSlot (pageNumber virtAddr))) flags small unowned
  have nextEq : pmlChangeFlagsPage pml root virtAddr flags = { pml with
      tables := setEntry pml.tables table (pageSlot (pageNumber virtAddr)) (pageEntryCreate
        (higherToLower (pageEntryGetAddress (pml.tables table (pageSlot (pageNumber virtAddr)))))
        (if pml.tables table (pageSlot (pageNumber virtAddr)) &&& pageOwned ≠ 0 then flags ||| pageOwned
          else flags))
      freed := pml.freed } := by
    simp only [pmlChangeFlagsPage, leafAt, slot_address]
  generalize rebuilt : pageEntryCreate
    (higherToLower (pageEntryGetAddress (pml.tables table (pageSlot (pageNumber virtAddr)))))
    (if pml.tables table (pageSlot (pageNumber virtAddr)) &&& pageOwned ≠ 0 then flags ||| pageOwned
      else flags) = entry at nextEq sameFrames
  have writable : Writable pml root kernel table (pageNumber virtAddr) entry := by
    refine ⟨?_, ?_, ?_, ?_, ?_, ?_⟩
    · intro absent
      rw [← rebuilt, create_present] at absent
      contradiction
    · intro set
      have member : pageEntryGetAddress entry ∈ frames entry := ⟨set, rfl⟩
      rw [sameFrames] at member
      exact lower_of_owned layout _ table place member.1
    · rw [sameFrames]
      exact fun frame member => layout.higher frame (inside member)
    · rw [sameFrames]
      exact fun frame member => layout.apart frame (inside member)
    · rw [sameFrames]
      exact fun frame member later => (layout.stocked.unused frame later).1 (inside member)
    · rw [sameFrames]
      exact fun frame member _ => member
  have leaf := layout.setLeaf entry pml.freed place writable
  rw [← nextEq] at leaf
  have pages : spacePages (pmlChangeFlagsPage pml root virtAddr flags).tables root =
      spacePages pml.tables root := by
    rw [leaf.pages, sameFrames, Set.sdiff_union_of_subset inside]
  rw [pages, ← List.append_nil (List.map _ _)]
  exact reads.append (leaf_silent leaf rfl rfl _)

end Unmapping

section Loops

variable {root kernel : Nat}

/-- Every page of a cyclic run has a level-1 table. -/
def Rooted (tables : Tables) (root page count : Nat) : Prop :=
  ∀ position < count, ∃ table,
    walk (links tables) root (pagePath ((page + position) % pageCount)) = some table

/-- A mapped run has its level-1 tables. -/
theorem rooted_of_mapped {tables : Tables} {root page count : Nat}
    (mapped : RunMapped (translation tables root) page count) : Rooted tables root page count := by
  intro position less
  obtain ⟨table, place, _⟩ := translated_place (mapped position less)
  exact ⟨table, place⟩

/-- The first page and the remaining run of a rooted run, after an entry of some
level-1 table was written. -/
theorem Rooted.next {tables : Tables} {table page entry : Nat} {root count : Nat} (slot : Fin 512)
    {virtAddr : Nat} (rooted : Rooted tables root (pageNumber virtAddr) (count + 1))
    (tree : Tree tables root) (place : walk (links tables) root (pagePath page) = some table) :
    Rooted (setEntry tables table slot entry) root (pageNumber (add virtAddr pageSize)) count := by
  intro position less
  obtain ⟨reached, later⟩ := rooted (position + 1) (by omega)
  refine ⟨reached, ?_⟩
  rw [walk_setLeaf root table entry slot _ tree.separated rfl place _ (by simp [pagePath]),
    page_next, Nat.mod_add_mod, Nat.add_assoc, Nat.add_comm 1 position]
  exact later

/-- The level-1 table of the first page of a rooted run. -/
theorem Rooted.first {tables : Tables} {count virtAddr : Nat}
    (rooted : Rooted tables root (pageNumber virtAddr) (count + 1)) :
    ∃ table, walk (links tables) root (pagePath (pageNumber virtAddr)) = some table := by
  obtain ⟨table, place⟩ := rooted 0 (by omega)
  rw [Nat.add_zero, Nat.mod_eq_of_lt (page_lt virtAddr)] at place
  exact ⟨table, place⟩

/-- `pml_unmap` gives back exactly the frames that the unmapped pages own. A
page visited a second time owns nothing any more. -/
theorem unmap_performed {pml : Pml} (layout : Layout pml root kernel) (virtAddr pageAmount : Nat)
    (rooted : Rooted pml.tables root (pageNumber virtAddr) pageAmount) :
    Performed root kernel pml (pmlUnmap pml root virtAddr pageAmount) (spacePages pml.tables root)
      (spacePages (pmlUnmap pml root virtAddr pageAmount).tables root)
      (unmapLog pml root virtAddr pageAmount) := by
  induction pageAmount generalizing pml virtAddr with
  | zero => exact performed_uses layout _ [] (by simp)
  | succ pageAmount ih =>
    obtain ⟨table, place⟩ := rooted.first
    have here := unmapPage_performed layout virtAddr table place
    have tablesEq : (pmlUnmapPage pml root virtAddr).tables =
        setEntry pml.tables table (pmlGetIndex virtAddr 1) 0 := by
      rw [pmlUnmapPage, leafTable_of_walk place]
    have later : Rooted (pmlUnmapPage pml root virtAddr).tables root
        (pageNumber (add virtAddr pageSize)) pageAmount := by
      rw [tablesEq]
      exact rooted.next _ layout.tree place
    exact here.append (ih here.layout _ later)

/-- `pml_change_flags` changes no ownership. -/
theorem changeFlags_performed {pml : Pml} (layout : Layout pml root kernel)
    (virtAddr pageAmount flags : Nat) (small : flags < 2 ^ 12) (unowned : owned flags = false)
    (rooted : Rooted pml.tables root (pageNumber virtAddr) pageAmount) :
    Performed root kernel pml (pmlChangeFlags pml root virtAddr pageAmount flags)
      (spacePages pml.tables root)
      (spacePages (pmlChangeFlags pml root virtAddr pageAmount flags).tables root)
      (changeFlagsLog pml root virtAddr pageAmount flags) := by
  induction pageAmount generalizing pml virtAddr with
  | zero => exact performed_uses layout _ [] (by simp)
  | succ pageAmount ih =>
    obtain ⟨table, place⟩ := rooted.first
    have here := changeFlagsPage_performed layout virtAddr flags table small unowned place
    have later : Rooted (pmlChangeFlagsPage pml root virtAddr flags).tables root
        (pageNumber (add virtAddr pageSize)) pageAmount := by
      rw [pmlChangeFlagsPage, leafTable_of_walk place]
      exact rooted.next _ layout.tree place
    exact here.append (ih here.layout _ later)

/-- A cyclic run of unmapped pages of the lower half that visits no page
twice. -/
structure OpenRun (flat : FlatMap) (page count : Nat) : Prop where
  bounded : count ≤ pageCount
  lower : ∀ position < count, (page + position) % pageCount < lowerPages
  unmapped : RunUnmapped flat page count

/-- The first page of an open run. -/
theorem OpenRun.first {flat : FlatMap} {page count : Nat} (openRun : OpenRun flat page (count + 1))
    (inside : page < pageCount) : Lower (pagePath page) ∧ flat page = none := by
  have lower := openRun.lower 0 (by omega)
  have unmapped := openRun.unmapped 0 (by omega)
  rw [Nat.add_zero, Nat.mod_eq_of_lt inside] at lower unmapped
  exact ⟨(lower_page inside).mpr lower, unmapped⟩

/-- The remaining run stays open when the first page is mapped. -/
theorem OpenRun.next {flat : FlatMap} {page count : Nat} (openRun : OpenRun flat page (count + 1))
    (entry : Option (Nat × Nat)) :
    OpenRun (Function.update flat page entry) ((page + 1) % pageCount) count := by
  have shift : ∀ position, ((page + 1) % pageCount + position) % pageCount =
      (page + (position + 1)) % pageCount := by
    intro position
    rw [Nat.mod_add_mod, Nat.add_assoc, Nat.add_comm 1 position]
  have bounded := openRun.bounded
  refine ⟨by omega, ?_, ?_⟩
  · intro position less
    rw [shift]
    exact openRun.lower (position + 1) (by omega)
  · intro position less
    have other : (page + (position + 1)) % pageCount ≠ page := by
      rw [pageCount] at bounded ⊢
      omega
    rw [shift, Function.update_of_ne other]
    exact openRun.unmapped (position + 1) (by omega)

/-- `pml_map` over an open run, to frames of somebody else. -/
theorem map_performed {pml next : Pml} (layout : Layout pml root kernel)
    (virtAddr physAddr pageAmount flags : Nat) (small : flags < 2 ^ 12) (unowned : owned flags = false)
    (openRun : OpenRun (translation pml.tables root) (pageNumber virtAddr) pageAmount)
    (taken : pmlMap pml root virtAddr physAddr pageAmount flags = some next) :
    Performed root kernel pml next (spacePages pml.tables root) (spacePages next.tables root)
      (mapLog pml root virtAddr physAddr pageAmount flags) := by
  induction pageAmount generalizing pml virtAddr physAddr with
  | zero =>
    obtain rfl : pml = next := Option.some.inj taken
    exact performed_uses layout _ [] (by simp)
  | succ pageAmount ih =>
    rw [pmlMap, Option.bind_eq_bind, Option.bind_eq_some_iff] at taken
    obtain ⟨middle, here, rest⟩ := taken
    obtain ⟨lower, unmapped⟩ := openRun.first (page_lt virtAddr)
    have one := mapPage_performed layout virtAddr physAddr flags small unowned lower unmapped here
    obtain ⟨_, _, updated⟩ := mapPage_spec pml middle root virtAddr physAddr flags layout.sound small here
    have later := openRun.next (some (physAddr / pageSize % 2 ^ 40, flags ||| pagePresent))
    rw [← updated, ← page_next] at later
    simp only [mapLog, here]
    exact one.append (ih one.layout _ _ later rest)

/-- The loop of `vmm_alloc` over an open run: each page gets a frame of its
own. -/
theorem alloc_performed {pml next : Pml} (layout : Layout pml root kernel)
    (virtAddr flags position count : Nat) (small : flags < 2 ^ 12) (set : owned flags = true)
    (openRun : OpenRun (translation pml.tables root) ((pageNumber virtAddr + position) % pageCount) count)
    (taken : allocPages pml root virtAddr flags position count = some next) :
    Performed root kernel pml next (spacePages pml.tables root) (spacePages next.tables root)
      (allocLog pml root virtAddr flags position count) := by
  induction count generalizing pml position with
  | zero =>
    obtain rfl : pml = next := Option.some.inj taken
    exact performed_uses layout _ [] (by simp)
  | succ count ih =>
    obtain ⟨frame, framed, mapped, frameTaken, mapTaken, rest⟩ := allocPages_succ taken
    have pageHere := page_position virtAddr position
    have inside : (pageNumber virtAddr + position) % pageCount < pageCount := Nat.mod_lt _ (by decide)
    obtain ⟨lower, unmapped⟩ := openRun.first inside
    rw [← pageHere] at lower unmapped
    have one := allocPage_performed layout _ frame flags small set lower unmapped frameTaken mapTaken
    have updated := allocPage_translation layout _ frame flags small frameTaken mapTaken
    rw [pageHere] at updated
    have later := openRun.next (some (higherToLower frame / pageSize % 2 ^ 40, flags ||| pagePresent))
    rw [← updated, Nat.mod_add_mod, Nat.add_assoc] at later
    simp only [allocLog, frameTaken, mapTaken]
    exact one.append (ih one.layout _ later rest)

end Loops

section Release

/-- What the release of a table logs at one slot. -/
def freeSlotLog (tables : Tables) (level table : Nat) (index : Fin 512) : List (Event Nat) :=
  .use table :: if !present (tables table index) then []
    else if level != 1 || owned (tables table index) then
      freeLevelLog tables level (pageEntryGetAddress (tables table index))
    else []

/-- `pml_free_level` frees the pages that its log gives back, and changes nothing
else. -/
theorem freeLevel_freed (depth : Nat) (pml : Pml) (table : Nat) :
    pmlFreeLevel depth pml table =
      { pml with freed := (gives (freeLevelLog pml.tables depth table)).reverse ++ pml.freed } := by
  induction depth generalizing pml table with
  | zero => rfl
  | succ level ih =>
    have slots : ∀ (indices : List (Fin 512)) (pml : Pml),
        indices.foldl (fun pml index =>
          let entry := pml.tables table index
          if !present entry then pml
          else if level != 1 || owned entry then pmlFreeLevel level pml (pageEntryGetAddress entry)
          else pml) pml =
        { pml with
          freed := (gives (indices.flatMap (freeSlotLog pml.tables level table))).reverse ++ pml.freed } := by
      intro indices
      induction indices with
      | nil =>
        intro pml
        rfl
      | cons index rest slotsLeft =>
        intro pml
        have here : (if !present (pml.tables table index) then pml
            else if level != 1 || owned (pml.tables table index) then
              pmlFreeLevel level pml (pageEntryGetAddress (pml.tables table index))
            else pml) =
            { pml with freed := (gives (freeSlotLog pml.tables level table index)).reverse ++ pml.freed } := by
          rw [freeSlotLog, gives_use]
          split
          · rfl
          · split
            · exact ih pml _
            · rfl
        rw [List.foldl_cons, List.flatMap_cons, gives_append, List.reverse_append, List.append_assoc]
        simp only [here]
        exact slotsLeft _
    rw [pmlFreeLevel, freeLevelLog, gives_append, List.reverse_append]
    simp only [slots]
    generalize List.finRange 512 = indices
    rfl

/-- The log of the release of a table is that of a depth-first release, as long
as the root has no present entries in the upper half. -/
theorem freeLevelLog_eq (tables : Tables) (level table : Nat)
    (upper : level = 4 → ∀ index : Fin 512, upperIndex ≤ index.val →
      present (tables table index) = false) (bounded : level ≤ 4) :
    freeLevelLog tables (level + 1) table =
      release (owns tables) Prod.snd (List.finRange 512) (level + 1) (level, table) := by
  induction level generalizing table with
  | zero =>
    have same : ∀ index : Fin 512,
        (if !present (tables table index) then []
          else if 0 != 1 || owned (tables table index) then
            freeLevelLog tables 0 (pageEntryGetAddress (tables table index))
          else []) = ([] : List (Event Nat)) := by
      intro index
      split <;> rfl
    rw [freeLevelLog, release, releaseSlots]
    simp only [same]
    rfl
  | succ level ih =>
    have same : ∀ index : Fin 512,
        (if !present (tables table index) then []
          else if level + 1 != 1 || owned (tables table index) then
            freeLevelLog tables (level + 1) (pageEntryGetAddress (tables table index))
          else []) = (owns tables (level + 1, table) index).elim []
            (release (owns tables) Prod.snd (List.finRange 512) (level + 1)) := by
      intro index
      have below := ih (pageEntryGetAddress (tables table index)) (by omega) (by omega)
      cases here : present (tables table index) with
      | false =>
        have stops : owns tables (level + 1, table) index = none := by
          rw [owns, if_neg]
          exact fun follows => Bool.false_ne_true (here.symm.trans follows.1)
        rw [stops]
        rfl
      | true =>
        have lower : level + 1 = 4 → index.val < upperIndex := by
          intro top
          by_contra high
          exact Bool.false_ne_true ((upper top index (by omega)).symm.trans here)
        by_cases set : level + 1 = 1 → owned (tables table index) = true
        · have goesOn : owns tables (level + 1, table) index =
              some (level, pageEntryGetAddress (tables table index)) := by
            rw [owns, if_pos ⟨here, lower, set⟩]
          have condition : (level + 1 != 1 || owned (tables table index)) = true := by
            rw [Bool.or_eq_true, bne_iff_ne]
            by_cases last : level + 1 = 1
            · exact .inr (set last)
            · exact .inl last
          rw [goesOn, condition]
          exact below
        · have stops : owns tables (level + 1, table) index = none := by
            rw [owns, if_neg]
            exact fun follows => set follows.2.2
          have condition : (level + 1 != 1 || owned (tables table index)) = false := by
            rw [Bool.or_eq_false_iff, bne_eq_false_iff_eq, ← Bool.not_eq_true]
            exact Classical.not_imp.mp set
          rw [stops, condition]
          rfl
    rw [freeLevelLog, release, releaseSlots]
    simp only [same]

/-- The release of a space after its upper half was cleared gives back all pages
of the space. -/
theorem free_orderly {pml : Pml} {root kernel : Nat} (layout : Layout pml root kernel)
    (shared : Set Nat) :
    Orderly shared (spacePages pml.tables root) (freeLevelLog (clearUpper pml.tables root) 5 root) ∅ := by
  have descents := cleared_descents layout.distinct
  have samePages : spacePages (clearUpper pml.tables root) root = spacePages pml.tables root := by
    simp only [spacePages, span, descents]
  have cleared : ∀ index : Fin 512, upperIndex ≤ index.val →
      present (clearUpper pml.tables root root index) = false := by
    intro index high
    rw [clearUpper, if_pos ⟨rfl, high⟩]
    rfl
  have distinct : Distinct (owns (clearUpper pml.tables root)) Prod.snd (4, root) := by
    intro first second one other toOne toOther
    rw [descents] at toOne toOther
    exact layout.distinct first second one other toOne toOther
  have shallow : ∀ path, 5 ≤ path.length →
      walk (owns (clearUpper pml.tables root)) (4, root) path = none := by
    intro path long
    cases reached : walk (owns (clearUpper pml.tables root)) (4, root) path with
    | none => rfl
    | some place =>
      have counted := owns_level _ 4 root path place reached
      omega
  have released := release_orderly shared List.mem_finRange (List.nodup_finRange 512) 5 (4, root)
    (spacePages pml.tables root) distinct shallow (samePages ▸ subset_rfl)
  rw [show span (owns (clearUpper pml.tables root)) Prod.snd (4, root) = spacePages pml.tables root
    from samePages, Set.sdiff_self] at released
  rw [freeLevelLog_eq _ 4 root (fun _ => cleared) (Nat.le_refl 4)]
  exact released

end Release

end Asym.PageAccounting
