import Asym.PageTree

/-!
# The page table loops refine a flat map

The loops of `pml.c` visit consecutive pages. Each is simulated by the
consecutive rewrite of the flat map that visits the same pages, with the effect
of one page taken from the analysis of the tree. A range inside the 48-bit
address space then has a closed form: mapping, unmapping and changing flags
rewrite exactly the pages of the range.
-/

namespace Asym.PageRefinement

open MachineWords PhysicalMemory PageEntries PageTables LinkedWalks CyclicUpdates PageTree

/-- Frame and flags that `pml_map` gives to the page at a position. -/
def mapChange (physAddr flags position : Nat) (_ : Option (Nat × Nat)) : Option (Nat × Nat) :=
  some ((physAddr / pageSize + position) % 2 ^ 40, flags ||| pagePresent)

/-- Frame and flags that `pml_change_flags` leaves to a page. -/
def protectChange (flags : Nat) (_ : Nat) (old : Option (Nat × Nat)) : Option (Nat × Nat) :=
  old.map (fun found => (found.1, protectFlags flags found.2))

/-- Positions of later pages, counted from the next page. -/
theorem mapChange_next (physAddr flags : Nat) :
    mapChange (add physAddr pageSize) flags =
      fun position => mapChange physAddr flags (position + 1) := by
  funext position old
  have frame : (add physAddr pageSize / pageSize + position) % 2 ^ 40 =
      (physAddr / pageSize + (position + 1)) % 2 ^ 40 := by
    simp only [add, pageSize, wordSize]
    omega
  rw [mapChange, mapChange, frame]

/-- `pml_map` rewrites the pages it visits to consecutive frames. -/
theorem map_rewrites (pml next : Pml) (root virtAddr physAddr pageAmount flags : Nat)
    (sound : Sound pml root) (small : flags < 2 ^ 12)
    (taken : pmlMap pml root virtAddr physAddr pageAmount flags = some next) :
    Sound next root ∧ translation next.tables root =
      rewrite pageCount (translation pml.tables root) (pageNumber virtAddr)
        (mapChange physAddr flags) pageAmount := by
  induction pageAmount generalizing pml virtAddr physAddr with
  | zero =>
    rw [pmlMap, Option.some.injEq] at taken
    subst taken
    exact ⟨sound, rfl⟩
  | succ pageAmount ih =>
    rw [pmlMap, Option.bind_eq_bind, Option.bind_eq_some_iff] at taken
    obtain ⟨middle, here, rest⟩ := taken
    obtain ⟨middleSound, _, one⟩ := mapPage_spec pml middle root virtAddr physAddr flags sound small here
    obtain ⟨lastSound, all⟩ := ih middle _ _ middleSound rest
    refine ⟨lastSound, ?_⟩
    rw [all, one, page_next, mapChange_next, rewrite]
    rfl

/-- Three supplied pages for each mapped page are enough. -/
theorem map_total (pml : Pml) (root virtAddr physAddr pageAmount flags : Nat)
    (supplied : 3 * pageAmount ≤ pml.supply.length) :
    (pmlMap pml root virtAddr physAddr pageAmount flags).isSome := by
  induction pageAmount generalizing pml virtAddr physAddr with
  | zero => rfl
  | succ pageAmount ih =>
    obtain ⟨middle, here, left⟩ := mapPage_total pml root virtAddr physAddr flags (by omega)
    rw [pmlMap, here]
    exact ih middle _ _ (by omega)

/-- All pages of a cyclic run are mapped. -/
def RunMapped (flat : FlatMap) (page count : Nat) : Prop :=
  ∀ position < count, (flat ((page + position) % pageCount)).isSome

/-- The first page and the remaining run of a mapped run. -/
theorem runMapped_succ (flat : FlatMap) (page count : Nat) (inside : page < pageCount)
    (mapped : RunMapped flat page (count + 1)) :
    (flat page).isSome ∧ RunMapped flat ((page + 1) % pageCount) count := by
  constructor
  · have first := mapped 0 (by omega)
    rwa [Nat.add_zero, Nat.mod_eq_of_lt inside] at first
  · intro position less
    rw [Nat.mod_add_mod, Nat.add_assoc, Nat.add_comm 1 position]
    exact mapped (position + 1) (by omega)

/-- `pml_unmap` on a mapped range removes the pages it visits. The range is not
longer than the address space, so that no page is visited twice. -/
theorem unmap_rewrites (pml : Pml) (root virtAddr pageAmount : Nat) (sound : Sound pml root)
    (bounded : pageAmount ≤ pageCount)
    (mapped : RunMapped (translation pml.tables root) (pageNumber virtAddr) pageAmount) :
    Sound (pmlUnmap pml root virtAddr pageAmount) root ∧
      translation (pmlUnmap pml root virtAddr pageAmount).tables root =
        rewrite pageCount (translation pml.tables root) (pageNumber virtAddr) (fun _ _ => none)
          pageAmount := by
  induction pageAmount generalizing pml virtAddr with
  | zero => exact ⟨sound, rfl⟩
  | succ pageAmount ih =>
    obtain ⟨first, rest⟩ := runMapped_succ _ _ _ (page_lt virtAddr) mapped
    obtain ⟨middleSound, one⟩ := unmapPage_spec sound first
    have still : RunMapped (translation (pmlUnmapPage pml root virtAddr).tables root)
        (pageNumber (add virtAddr pageSize)) pageAmount := by
      rw [one, page_next]
      intro position less
      have inside := page_lt virtAddr
      have later : ((pageNumber virtAddr + 1) % pageCount + position) % pageCount ≠
          pageNumber virtAddr := by
        rw [pageCount] at bounded inside ⊢
        omega
      rw [Function.update_of_ne later]
      exact rest position less
    obtain ⟨lastSound, all⟩ := ih _ _ middleSound (by omega) still
    rw [pmlUnmap]
    refine ⟨lastSound, ?_⟩
    rw [all, one, page_next]
    rfl

/-- `pml_change_flags` on a mapped range keeps the frames and owned bits of the
pages it visits. -/
theorem changeFlags_rewrites (pml : Pml) (root virtAddr pageAmount flags : Nat)
    (sound : Sound pml root) (small : flags < 2 ^ 12)
    (mapped : RunMapped (translation pml.tables root) (pageNumber virtAddr) pageAmount) :
    Sound (pmlChangeFlags pml root virtAddr pageAmount flags) root ∧
      translation (pmlChangeFlags pml root virtAddr pageAmount flags).tables root =
        rewrite pageCount (translation pml.tables root) (pageNumber virtAddr) (protectChange flags)
          pageAmount := by
  induction pageAmount generalizing pml virtAddr with
  | zero => exact ⟨sound, rfl⟩
  | succ pageAmount ih =>
    obtain ⟨first, rest⟩ := runMapped_succ _ _ _ (page_lt virtAddr) mapped
    obtain ⟨middleSound, _, one⟩ := changeFlagsPage_spec sound small first
    have still : RunMapped (translation (pmlChangeFlagsPage pml root virtAddr flags).tables root)
        (pageNumber (add virtAddr pageSize)) pageAmount := by
      rw [one, page_next]
      intro position less
      by_cases same : ((pageNumber virtAddr + 1) % pageCount + position) % pageCount =
          pageNumber virtAddr
      · rw [same, Function.update_self, Option.isSome_map]
        exact first
      · rw [Function.update_of_ne same]
        exact rest position less
    obtain ⟨lastSound, all⟩ := ih _ _ middleSound still
    rw [pmlChangeFlags]
    refine ⟨lastSound, ?_⟩
    rw [all, one, page_next]
    rfl

/-- The flat map with an interval of pages mapped to consecutive frames. -/
def mapRange (flat : FlatMap) (start frame count flags : Nat) : FlatMap := fun page =>
  if start ≤ page ∧ page < start + count then
    some (frame + (page - start), flags ||| pagePresent)
  else flat page

/-- The flat map without an interval of pages. -/
def unmapRange (flat : FlatMap) (start count : Nat) : FlatMap := fun page =>
  if start ≤ page ∧ page < start + count then none else flat page

/-- The flat map with the flags of an interval replaced, owned bits apart. -/
def protectRange (flat : FlatMap) (start count flags : Nat) : FlatMap := fun page =>
  if start ≤ page ∧ page < start + count then
    (flat page).map (fun found => (found.1, protectFlags flags found.2))
  else flat page

/-- Every page of an interval is mapped. -/
def RangeMapped (flat : FlatMap) (start count : Nat) : Prop :=
  ∀ page, start ≤ page → page < start + count → (flat page).isSome

/-- Inside the address space a cyclic run is an interval. -/
theorem runMapped_iff (flat : FlatMap) (start count : Nat) (inside : start + count ≤ pageCount) :
    RunMapped flat start count ↔ RangeMapped flat start count := by
  constructor
  · intro run page low high
    have here := run (page - start) (by omega)
    rwa [Nat.mod_eq_of_lt (by omega), Nat.add_sub_cancel' low] at here
  · intro range position less
    rw [Nat.mod_eq_of_lt (by omega)]
    exact range (start + position) (by omega) (by omega)

/-- A range of the 48-bit address space is an interval of page numbers. -/
theorem range_inside {virtAddr pageAmount : Nat} (aligned : virtAddr % pageSize = 0)
    (range : virtAddr % 2 ^ 48 + pageAmount * pageSize ≤ 2 ^ 48) :
    pageNumber virtAddr + pageAmount ≤ pageCount := by
  simp only [pageNumber, pageSize, pageCount] at *
  omega

/-- Mapping a range of the address space to a range of frames. -/
theorem map_refines {pml next : Pml} {root virtAddr physAddr pageAmount flags : Nat}
    (sound : Sound pml root) (small : flags < 2 ^ 12) (aligned : physAddr % pageSize = 0)
    (inside : pageNumber virtAddr + pageAmount ≤ pageCount)
    (range : physAddr + pageAmount * pageSize ≤ 2 ^ 52)
    (taken : pmlMap pml root virtAddr physAddr pageAmount flags = some next) :
    Sound next root ∧ translation next.tables root =
      mapRange (translation pml.tables root) (pageNumber virtAddr) (physAddr / pageSize) pageAmount
        flags := by
  obtain ⟨nextSound, rewrites⟩ := map_rewrites pml next root virtAddr physAddr pageAmount flags sound
    small taken
  refine ⟨nextSound, ?_⟩
  funext page
  rw [rewrites, rewrite_interval _ _ _ _ _ _ inside, mapRange]
  split
  · have frame : (physAddr / pageSize + (page - pageNumber virtAddr)) % 2 ^ 40 =
        physAddr / pageSize + (page - pageNumber virtAddr) := by
      simp only [pageSize] at *
      omega
    rw [mapChange, frame]
  · rfl

/-- Changing flags without the owned bit keeps the frame and the owned bit of
every page. -/
theorem protectRange_keeps (flat : FlatMap) (start count flags page : Nat) (old : Nat × Nat)
    (unowned : flags &&& pageOwned = 0) (found : flat page = some old) : ∃ kept,
      protectRange flat start count flags page = some (old.1, kept) ∧
        kept &&& pageOwned = old.2 &&& pageOwned := by
  rw [protectRange]
  split
  · refine ⟨protectFlags flags old.2, by rw [found, Option.map_some], ?_⟩
    have apart : pagePresent &&& pageOwned = 0 := by decide
    rw [protectFlags, Nat.and_or_distrib_right, Nat.and_or_distrib_right, unowned, apart,
      Nat.zero_or, Nat.or_zero, Nat.and_assoc, Nat.and_self]
  · exact ⟨old.2, found, rfl⟩

/-- A cleared table is the root of a well-formed tree without links. -/
theorem cleared_walk {tables : Tables} {root : Nat} (cleared : ∀ slot, tables root slot = 0)
    (path : List (Fin 512)) (table : Nat) (reached : walk (links tables) root path = some table) :
    path = [] ∧ table = root := by
  cases path with
  | nil => exact ⟨rfl, (Option.some.inj reached).symm⟩
  | cons index rest =>
    have absent : links tables root index = none := by
      rw [links, cleared index]
      rfl
    rw [walk, absent] at reached
    contradiction

/-- Its tree. -/
theorem cleared_tree (tables : Tables) {root : Nat} (aligned : root % pageSize = 0) (notNull : root ≠ 0)
    (cleared : ∀ slot, tables root slot = 0) : Tree tables root := by
  have walks := cleared_walk cleared
  refine ⟨aligned, ?_, ?_⟩
  · intro one other table _ _ toOne toOther
    rw [(walks one table toOne).1, (walks other table toOther).1]
  · intro path table _ reached
    rw [(walks path table reached).2]
    exact notNull

/-- It maps nothing. -/
theorem cleared_translation {tables : Tables} {root : Nat} (cleared : ∀ slot, tables root slot = 0) :
    translation tables root = fun _ => none := by
  funext page
  rw [translation]
  split
  · cases reached : walk (links tables) root (pagePath page) with
    | none => rfl
    | some table => cases (cleared_walk cleared _ table reached).1
  · rfl

/-- `pml_new` makes a sound state from any supply of distinct higher-half
pages. -/
theorem new_sound (pml next : Pml) (root : Nat) (distinct : pml.supply.Nodup)
    (pages : ∀ page ∈ pml.supply,
      page % pageSize = 0 ∧ vmmHigherHalfBase ≤ page ∧ page < wordSize)
    (taken : pmlNew pml = some (root, next)) : Sound next root := by
  rw [pmlNew] at taken
  split at taken
  · contradiction
  · rename_i address rest supplied
    simp only [Option.some.injEq, Prod.mk.injEq] at taken
    obtain ⟨rfl, rfl⟩ := taken
    have first := pages address (by simp [supplied])
    rw [supplied, List.nodup_cons] at distinct
    have cleared : ∀ slot, clearTable pml.tables address address slot = 0 := by simp [clearTable]
    have walks := cleared_walk cleared
    refine ⟨cleared_tree _ first.1 (higher_ne_zero first.2.1) cleared, distinct.2, ?_, ?_⟩
    · intro page member
      exact pages page (by simp [supplied, member])
    · intro page member path _ reached
      rw [(walks path page reached).2] at member
      exact distinct.1 member

/-- The four-level page table refines a flat map. For a well-formed tree, a
supply of pages that are no tables of it, an aligned virtual range inside the
48-bit address space, an aligned physical range below `2 ^ 52` and flags below
`2 ^ 12`: mapping returns if three pages are supplied for each mapped page, and
what it returns has exactly the range mapped to the frames with the flags; the
test answers whether all pages are mapped; on a mapped range, unmapping removes
exactly the range, and changing flags replaces exactly the range's flags and
keeps frames and owned bits. Every operation keeps the tree well formed. -/
theorem pml_refines_flat_map (pml : Pml) (root virtAddr physAddr pageAmount flags : Nat)
    (sound : Sound pml root) (virtAligned : virtAddr % pageSize = 0)
    (physAligned : physAddr % pageSize = 0)
    (virtRange : virtAddr % 2 ^ 48 + pageAmount * pageSize ≤ 2 ^ 48)
    (physRange : physAddr + pageAmount * pageSize ≤ 2 ^ 52) (small : flags < 2 ^ 12) :
    (3 * pageAmount ≤ pml.supply.length →
      (pmlMap pml root virtAddr physAddr pageAmount flags).isSome) ∧
    (∀ next, pmlMap pml root virtAddr physAddr pageAmount flags = some next →
      Sound next root ∧ translation next.tables root =
        mapRange (translation pml.tables root) (pageNumber virtAddr) (physAddr / pageSize) pageAmount
          flags) ∧
    (pmlMapped pml.tables root virtAddr pageAmount = true ↔
      RangeMapped (translation pml.tables root) (pageNumber virtAddr) pageAmount) ∧
    (RangeMapped (translation pml.tables root) (pageNumber virtAddr) pageAmount →
      Sound (pmlUnmap pml root virtAddr pageAmount) root ∧
      translation (pmlUnmap pml root virtAddr pageAmount).tables root =
        unmapRange (translation pml.tables root) (pageNumber virtAddr) pageAmount) ∧
    (RangeMapped (translation pml.tables root) (pageNumber virtAddr) pageAmount →
      flags &&& pageOwned = 0 →
      Sound (pmlChangeFlags pml root virtAddr pageAmount flags) root ∧
      translation (pmlChangeFlags pml root virtAddr pageAmount flags).tables root =
        protectRange (translation pml.tables root) (pageNumber virtAddr) pageAmount flags ∧
      ∀ page old, translation pml.tables root page = some old → ∃ kept,
        translation (pmlChangeFlags pml root virtAddr pageAmount flags).tables root page =
          some (old.1, kept) ∧ kept &&& pageOwned = old.2 &&& pageOwned) := by
  have inside := range_inside virtAligned virtRange
  have interval := runMapped_iff (translation pml.tables root) (pageNumber virtAddr) pageAmount inside
  refine ⟨map_total pml root virtAddr physAddr pageAmount flags, ?_, ?_, ?_, ?_⟩
  · intro next taken
    exact map_refines sound small physAligned inside physRange taken
  · rw [mapped_iff root virtAddr pageAmount sound.tree, ← interval]
    rfl
  · intro mapped
    obtain ⟨nextSound, rewrites⟩ := unmap_rewrites pml root virtAddr pageAmount sound (by omega)
      (interval.mpr mapped)
    refine ⟨nextSound, ?_⟩
    funext page
    rw [rewrites, rewrite_interval _ _ _ _ _ _ inside, unmapRange]
  · intro mapped unowned
    obtain ⟨nextSound, rewrites⟩ := changeFlags_rewrites pml root virtAddr pageAmount flags sound small
      (interval.mpr mapped)
    have exactly : translation (pmlChangeFlags pml root virtAddr pageAmount flags).tables root =
        protectRange (translation pml.tables root) (pageNumber virtAddr) pageAmount flags := by
      funext page
      rw [rewrites, rewrite_interval _ _ _ _ _ _ inside, protectRange]
      rfl
    refine ⟨nextSound, exactly, ?_⟩
    intro page old found
    rw [exactly]
    exact protectRange_keeps _ _ _ _ page old unowned found

/-- A page table of one cleared page with six pages left to allocate. -/
def sampleTables : Pml where
  tables := fun _ _ => 0
  supply := pagesFrom (lowerToHigher 0x200000) 6
  freed := []

/-- The root of the sample table. -/
def sampleRoot : Nat := lowerToHigher 0x100000

/-- The sample table is sound. -/
theorem sampleTables_sound : Sound sampleTables sampleRoot := by
  have taken : pmlNew { sampleTables with supply := sampleRoot :: sampleTables.supply } =
      some (sampleRoot, sampleTables) := by
    have cleared : clearTable sampleTables.tables sampleRoot = sampleTables.tables := by
      funext table slot
      simp [clearTable, sampleTables]
    simp only [pmlNew, cleared]
  exact new_sound _ _ _ (by decide +kernel) (by decide +kernel) taken

/-- Two pages on both sides of a level-1 boundary are mapped in the sample
table. -/
theorem pml_refines_flat_map_sample : ∃ next,
    pmlMap sampleTables sampleRoot 0x1FF000 0x5000 2 pageWrite = some next ∧
      translation next.tables sampleRoot 0x1FF = some (5, 3) ∧
      translation next.tables sampleRoot 0x200 = some (6, 3) := by
  obtain ⟨total, exactly, _⟩ := pml_refines_flat_map sampleTables sampleRoot 0x1FF000 0x5000 2 pageWrite
    sampleTables_sound (by decide) (by decide) (by decide) (by decide) (by decide)
  obtain ⟨next, taken⟩ := Option.isSome_iff_exists.mp (total (by decide +kernel))
  refine ⟨next, taken, ?_, ?_⟩
  · rw [(exactly next taken).2]
    rfl
  · rw [(exactly next taken).2]
    rfl

end Asym.PageRefinement
