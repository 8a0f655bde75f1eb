import Asym.Descents
import Asym.MappingRequests
import Mathlib.Data.List.FinRange

/-!
# The layout of an address space

A model of `space.c` and of `pml_free`. An address space has a root table of its
own. The upper half of the root's entries is copied from the kernel's root, so
the tables below them are shared with every other space; everything below the
lower half belongs to the space alone: the tables, and the frames whose level-1
entries have the owned bit.

The release of a space walks all of this by level, with the level counted from
four at the root down to zero at the frames, and it follows an entry of a
level-1 table only if the owned bit is set. The places it visits are described
as descents through pairs of level and page. The invariant of a space says that
no page is visited twice, that no visited page is a table of the kernel, and
that the pages the allocator is going to return are neither.
-/

namespace Asym.SpaceLayout

open MachineWords PhysicalMemory PageEntries PageTables LinkedWalks PageTree VirtualMemory
open PageRefinement MappingRequests Descents

/-- Test of the owned bit. -/
def owned (entry : Nat) : Bool := entry &&& pageOwned != 0

/-- `pml_free_level`, with the level raised by one so that the level below zero,
at which the source returns, is zero. -/
def pmlFreeLevel : Nat → Pml → Nat → Pml
  | 0, pml, _ => pml
  | level + 1, pml, table =>
      let emptied := (List.finRange 512).foldl (fun pml index =>
        let entry := pml.tables table index
        if !present entry then pml
        else if level != 1 || owned entry then pmlFreeLevel level pml (pageEntryGetAddress entry)
        else pml) pml
      { emptied with freed := table :: emptied.freed }

/-- `pml_free`. -/
def pmlFree (pml : Pml) (table : Nat) : Pml := pmlFreeLevel 5 pml table

/-- Root index from which on the entries belong to the kernel:
`PAGE_ENTRY_AMOUNT / 2`. -/
def upperIndex : Nat := 512 / 2

/-- The loop of `space_init`: the upper half of a root is copied from another. -/
def copyUpper (tables : Tables) (source table : Nat) : Tables := fun tested slot =>
  if tested = table ∧ upperIndex ≤ slot.val then tables source slot else tables tested slot

/-- The loop of `space_cleanup`: the upper half of a root is cleared. -/
def clearUpper (tables : Tables) (table : Nat) : Tables := fun tested slot =>
  if tested = table ∧ upperIndex ≤ slot.val then 0 else tables tested slot

/-- `space_init`, with the root of the kernel's page table. -/
def spaceInit (memory : Pml) (kernelPml : Nat) : Option Space := do
  let (table, created) ← pmlNew memory
  some {
    memory := { created with tables := copyUpper created.tables kernelPml table }
    pml := table
    freeAddress := 0x400000 }

/-- `space_cleanup`. -/
def spaceCleanup (space : Space) : Pml :=
  pmlFree { space.memory with tables := clearUpper space.memory.tables space.pml } space.pml

/-- The entries that the release of a space follows at a level. -/
def released (level : Nat) (index : Fin 512) (entry : Nat) : Prop :=
  present entry = true ∧ (level = 4 → index.val < upperIndex) ∧ (level = 1 → owned entry = true)

instance (level : Nat) (index : Fin 512) (entry : Nat) : Decidable (released level index entry) :=
  inferInstanceAs (Decidable (_ ∧ _ ∧ _))

/-- The place below an entry, as the release of a space descends. A place is a
level and a page. -/
def owns (tables : Tables) : Nat × Nat → Fin 512 → Option (Nat × Nat)
  | (0, _), _ => none
  | (level + 1, table), index =>
      if released (level + 1) index (tables table index) then
        some (level, pageEntryGetAddress (tables table index))
      else none

/-- All pages of a space: its root, its tables below the lower half, and its
owned frames. -/
def spacePages (tables : Tables) (root : Nat) : Set Nat := span (owns tables) Prod.snd (4, root)

/-- The tables reachable from the kernel's root. -/
def kernelTables (tables : Tables) (kernel : Nat) : Set Nat :=
  {table | ∃ path : List (Fin 512), path.length ≤ 3 ∧ walk (links tables) kernel path = some table}

/-- A page as the allocator hands them out: aligned and in the higher half. -/
def HigherPage (page : Nat) : Prop :=
  page % pageSize = 0 ∧ vmmHigherHalfBase ≤ page ∧ page < wordSize

/-- A path that starts in the lower half. -/
def Lower (path : List (Fin 512)) : Prop := ∀ index ∈ path.head?, index.val < upperIndex

/-- Number of virtual pages of the lower half. -/
def lowerPages : Nat := 2 ^ 35

/-- The pages of the lower half are those with a lower path. -/
theorem lower_page {page : Nat} (inside : page < pageCount) :
    Lower (pagePath page) ↔ page < lowerPages := by
  have top : Lower (pagePath page) ↔ page / 2 ^ 27 % 512 < upperIndex :=
    ⟨fun lower => lower _ rfl, fun low index first => by obtain rfl := Option.some.inj first; exact low⟩
  rw [top]
  simp only [upperIndex, pageCount, lowerPages] at *
  omega

/-- The kernel's tables form a tree, and no frame in them is owned. The kernel
maps its pages with the flags `PAGE_WRITE | PAGE_GLOBAL`. -/
structure KernelLayout (tables : Tables) (kernel : Nat) : Prop where
  tree : Tree tables kernel
  unowned : ∀ path table index, path.length = 3 → walk (links tables) kernel path = some table →
    owned (tables table index) = false

/-- The pages the allocator is going to return: distinct, and in no use by the
space or the kernel. -/
structure Stocked (supply : List Nat) (pages kernelPages : Set Nat) : Prop where
  distinct : supply.Nodup
  higher : ∀ page ∈ supply, HigherPage page
  unused : ∀ page ∈ supply, page ∉ pages ∧ page ∉ kernelPages

/-- The invariant of an address space. -/
structure Layout (pml : Pml) (root kernel : Nat) : Prop where
  distinct : Distinct (owns pml.tables) Prod.snd (4, root)
  higher : ∀ page ∈ spacePages pml.tables root, HigherPage page
  apart : ∀ page ∈ spacePages pml.tables root, page ∉ kernelTables pml.tables kernel
  kernelLayout : KernelLayout pml.tables kernel
  shared : ∀ index : Fin 512, upperIndex ≤ index.val →
    pml.tables root index = pml.tables kernel index
  absentUnowned : ∀ path table index, path.length = 3 → Lower path →
    walk (links pml.tables) root path = some table →
      present (pml.tables table index) = false → owned (pml.tables table index) = false
  stocked : Stocked pml.supply (spacePages pml.tables root) (kernelTables pml.tables kernel)

/-- A descent loses one level at each step. -/
theorem owns_level (tables : Tables) (level table : Nat) (path : List (Fin 512)) (place : Nat × Nat)
    (reached : walk (owns tables) (level, table) path = some place) :
    level = place.1 + path.length := by
  induction path generalizing level table with
  | nil =>
    rw [walk_nil, Option.some.injEq] at reached
    subst reached
    rfl
  | cons index rest ih =>
    rw [walk, Option.bind_eq_some_iff] at reached
    obtain ⟨⟨below, child⟩, linked, reached⟩ := reached
    cases level with
    | zero => contradiction
    | succ level =>
      rw [owns] at linked
      split at linked
      · simp only [Option.some.injEq, Prod.mk.injEq] at linked
        have later := ih below child reached
        rw [List.length_cons]
        omega
      · contradiction

/-- Above the level-1 tables and below the lower half of the root, the release
follows the links of the tables. -/
theorem owns_eq_links (tables : Tables) (level table : Nat) (index : Fin 512) (above : 1 < level + 1)
    (lower : level + 1 = 4 → index.val < upperIndex) :
    owns tables (level + 1, table) index = (links tables table index).map (fun child => (level, child)) := by
  rw [owns, links]
  by_cases here : present (tables table index) = true
  · rw [if_pos ⟨here, lower, by omega⟩, if_pos here, Option.map_some]
  · rw [if_neg (fun follows => here follows.1), if_neg here, Option.map_none]

/-- The walks to the tables of a space, as descents. -/
theorem walk_owns (tables : Tables) (level table : Nat) (path : List (Fin 512))
    (short : path.length < level) (bounded : level ≤ 4) (lower : level = 4 → Lower path) :
    walk (owns tables) (level, table) path =
      (walk (links tables) table path).map (fun last => (level - path.length, last)) := by
  induction path generalizing level table with
  | nil => rfl
  | cons index rest ih =>
    rw [List.length_cons] at short
    obtain ⟨below, rfl⟩ : ∃ below, level = below + 1 := ⟨level - 1, by omega⟩
    rw [walk, walk, owns_eq_links tables below table index (by omega)
      (fun top => lower top index rfl)]
    cases links tables table index with
    | none => rfl
    | some child =>
      have later := ih below child (by omega) (by omega) (by omega)
      rw [Option.map_some, Option.bind_some, Option.bind_some, later, List.length_cons,
        Nat.add_sub_add_right]

/-- Every descent from the root starts in the lower half. -/
theorem lower_of_descent {tables : Tables} {root : Nat} {path : List (Fin 512)} {place : Nat × Nat}
    (reached : walk (owns tables) (4, root) path = some place) : Lower path := by
  intro index first
  cases path with
  | nil => contradiction
  | cons head rest =>
    obtain rfl : head = index := Option.some.inj first
    rw [walk, Option.bind_eq_some_iff] at reached
    obtain ⟨child, linked, _⟩ := reached
    rw [owns] at linked
    split at linked
    · rename_i follows
      exact follows.2.1 rfl
    · contradiction

/-- The level of a place gives the length of every descent to it. -/
theorem descent_length {tables : Tables} {root level page : Nat} {path : List (Fin 512)}
    (reached : walk (owns tables) (4, root) path = some (level, page)) :
    level = 4 - path.length ∧ path.length ≤ 4 := by
  have counted := owns_level tables 4 root path (level, page) reached
  simp only at counted
  omega

/-- A table below the lower half is a page of the space. -/
theorem table_mem (tables : Tables) (root table : Nat) (path : List (Fin 512)) (short : path.length ≤ 3)
    (lower : Lower path) (reached : walk (links tables) root path = some table) :
    table ∈ spacePages tables root := by
  refine ⟨path, (4 - path.length, table), ?_, rfl⟩
  rw [walk_owns tables 4 root path (by omega) (Nat.le_refl 4) (fun _ => lower), reached]
  rfl

/-- The root is a page of its space. -/
theorem root_mem (tables : Tables) (root : Nat) : root ∈ spacePages tables root :=
  ⟨[], (4, root), rfl, rfl⟩

/-- The kernel's root is one of its tables. -/
theorem kernel_mem (tables : Tables) (kernel : Nat) : kernel ∈ kernelTables tables kernel :=
  ⟨[], Nat.zero_le 3, rfl⟩

section Walks

variable {pml : Pml} {root kernel : Nat}

/-- Above the lower half a space is walked like the kernel's tables. -/
theorem Layout.upper_walk (layout : Layout pml root kernel) (path : List (Fin 512))
    (upper : ¬Lower path) : walk (links pml.tables) root path = walk (links pml.tables) kernel path := by
  cases path with
  | nil => exact absurd (fun index first => nomatch first) upper
  | cons index rest =>
    have high : upperIndex ≤ index.val := by
      by_contra low
      refine upper fun first same => ?_
      obtain rfl : index = first := Option.some.inj same
      omega
    rw [walk, walk, links, links, layout.shared index high]

/-- A table reached from the root is a page of the space or a table of the
kernel, as its path says. -/
theorem Layout.reached (layout : Layout pml root kernel) (path : List (Fin 512)) (table : Nat)
    (short : path.length ≤ 3) (place : walk (links pml.tables) root path = some table) :
    table ∈ spacePages pml.tables root ∨ table ∈ kernelTables pml.tables kernel := by
  by_cases lower : Lower path
  · exact .inl (table_mem pml.tables root table path short lower place)
  · rw [layout.upper_walk path lower] at place
    exact .inr ⟨path, short, place⟩

/-- Two paths to one table below the lower half are equal. -/
theorem Layout.lower_unique (layout : Layout pml root kernel) (first second : List (Fin 512))
    (table : Nat) (firstShort : first.length ≤ 3) (secondShort : second.length ≤ 3)
    (firstLower : Lower first) (secondLower : Lower second)
    (toFirst : walk (links pml.tables) root first = some table)
    (toSecond : walk (links pml.tables) root second = some table) : first = second := by
  refine layout.distinct first second (4 - first.length, table) (4 - second.length, table) ?_ ?_ rfl
  · rw [walk_owns pml.tables 4 root first (by omega) (Nat.le_refl 4) (fun _ => firstLower), toFirst]
    rfl
  · rw [walk_owns pml.tables 4 root second (by omega) (Nat.le_refl 4) (fun _ => secondLower), toSecond]
    rfl

/-- The tables of a space form a tree, shared part included. -/
theorem Layout.tree (layout : Layout pml root kernel) : Tree pml.tables root where
  aligned := (layout.higher root (root_mem pml.tables root)).1
  separated := by
    intro first second table firstShort secondShort toFirst toSecond
    by_cases firstLower : Lower first
    · have own := table_mem pml.tables root table first firstShort firstLower toFirst
      by_cases secondLower : Lower second
      · exact layout.lower_unique first second table firstShort secondShort firstLower secondLower
          toFirst toSecond
      · rw [layout.upper_walk second secondLower] at toSecond
        exact absurd ⟨second, secondShort, toSecond⟩ (layout.apart table own)
    · rw [layout.upper_walk first firstLower] at toFirst
      by_cases secondLower : Lower second
      · have own := table_mem pml.tables root table second secondShort secondLower toSecond
        exact absurd ⟨first, firstShort, toFirst⟩ (layout.apart table own)
      · rw [layout.upper_walk second secondLower] at toSecond
        exact layout.kernelLayout.tree.separated first second table firstShort secondShort toFirst toSecond
  notNull := by
    intro path table short place
    by_cases lower : Lower path
    · exact higher_ne_zero (layout.higher table (table_mem pml.tables root table path short lower place)).2.1
    · rw [layout.upper_walk path lower] at place
      exact layout.kernelLayout.tree.notNull path table short place

/-- A space is sound in the sense of the page table operations. -/
theorem Layout.sound (layout : Layout pml root kernel) : Sound pml root where
  tree := layout.tree
  fresh := by
    refine ⟨layout.stocked.distinct, layout.stocked.higher, ?_⟩
    intro page member path short place
    obtain ⟨notOwn, notKernel⟩ := layout.stocked.unused page member
    rcases layout.reached path page short place with own | shared
    · exact notOwn own
    · exact notKernel shared

end Walks

/-- The frames that an entry of a level-1 table owns: one or none. -/
def frames (entry : Nat) : Set Nat := {frame | owned entry = true ∧ frame = pageEntryGetAddress entry}

/-- An entry without the owned bit owns nothing. -/
theorem frames_unowned (entry : Nat) (unowned : owned entry = false) : frames entry = ∅ := by
  ext frame
  simp [frames, unowned]

/-- Descents depend on the entries of the page they leave. -/
theorem owns_congr (tables next : Tables) (place : Nat × Nat) (slot : Fin 512)
    (same : next place.2 slot = tables place.2 slot) : owns next place slot = owns tables place slot := by
  obtain ⟨level, page⟩ := place
  cases level with
  | zero => rfl
  | succ level => simp only [owns, same]

/-- Descents are unchanged except at a written entry. -/
theorem owns_set_of_ne (tables : Tables) (table entry : Nat) (place : Nat × Nat) (index slot : Fin 512)
    (different : place.2 ≠ table ∨ slot ≠ index) :
    owns (setEntry tables table index entry) place slot = owns tables place slot := by
  apply owns_congr
  have outside : ¬(place.2 = table ∧ slot = index) := by tauto
  rw [setEntry, if_neg outside]

/-- The place below an entry of a level-1 table is the frame the entry owns. -/
theorem owns_leaf (tables : Tables) (table : Nat) (index : Fin 512)
    (absent : present (tables table index) = false → owned (tables table index) = false) :
    {met | ∃ child ∈ owns tables (1, table) index, Prod.snd child = met} =
      frames (tables table index) := by
  have ownedPresent : owned (tables table index) = true → present (tables table index) = true := by
    intro set
    cases here : present (tables table index) with
    | true => rfl
    | false => exact absurd (absent here) (by simp [set])
  ext met
  simp only [owns, Set.mem_ofPred_eq, frames]
  constructor
  · rintro ⟨child, linked, rfl⟩
    split at linked
    · rename_i follows
      obtain rfl := Option.some.inj linked
      exact ⟨follows.2.2 rfl, rfl⟩
    · exact absurd linked (Option.not_mem_none child)
  · rintro ⟨set, same⟩
    refine ⟨(0, met), ?_, rfl⟩
    rw [if_pos ⟨ownedPresent set, by omega, fun _ => set⟩, same]
    rfl

/-- Equal walks from the kernel's root give equal tables. -/
theorem kernelTables_congr {tables next : Tables} {kernel : Nat}
    (same : ∀ path : List (Fin 512), path.length ≤ 3 →
      walk (links next) kernel path = walk (links tables) kernel path) :
    kernelTables next kernel = kernelTables tables kernel := by
  ext table
  constructor
  · rintro ⟨path, short, place⟩
    exact ⟨path, short, (same path short).symm.trans place⟩
  · rintro ⟨path, short, place⟩
    exact ⟨path, short, (same path short).trans place⟩

/-- Writes outside the kernel's tables leave the kernel's walks alone. -/
theorem kernel_walks {tables next : Tables} {kernel : Nat}
    (same : ∀ table ∈ kernelTables tables kernel, ∀ index, next table index = tables table index)
    (path : List (Fin 512)) (short : path.length ≤ 3) :
    walk (links next) kernel path = walk (links tables) kernel path := by
  refine walk_frame ?_ path short
  intro tested table inside place index
  rw [links, links, same table ⟨tested, by omega, place⟩ index]

/-- Writes outside the kernel's tables keep the kernel's layout. -/
theorem KernelLayout.frame {tables next : Tables} {kernel : Nat} (layout : KernelLayout tables kernel)
    (same : ∀ table ∈ kernelTables tables kernel, ∀ index, next table index = tables table index) :
    KernelLayout next kernel where
  tree := by
    have walks := kernel_walks same
    refine ⟨layout.tree.aligned, separated_frame walks layout.tree.separated, ?_⟩
    intro path table short place
    exact layout.tree.notNull path table short ((walks path short).symm.trans place)
  unowned := by
    intro path table index full place
    rw [kernel_walks same path (by omega)] at place
    rw [same table ⟨path, by omega, place⟩ index]
    exact layout.unowned path table index full place

section KernelMaps

variable {pml next : Pml} {kernel : Nat}

/-- A cleared root has the kernel's layout. -/
theorem KernelLayout.cleared (tables : Tables) (kernel : Nat) (aligned : kernel % pageSize = 0)
    (notNull : kernel ≠ 0) (empty : ∀ index, tables kernel index = 0) : KernelLayout tables kernel := by
  have onlyRoot := cleared_walk empty
  refine ⟨cleared_tree tables aligned notNull empty, ?_⟩
  intro path table index full place
  rw [(onlyRoot path table place).1] at full
  contradiction

/-- Pages unused by the kernel may be returned by the allocator. -/
theorem stocked_of_sound (sound : Sound pml kernel) :
    Stocked pml.supply ∅ (kernelTables pml.tables kernel) := by
  refine ⟨sound.fresh.distinct, sound.fresh.pages, ?_⟩
  intro page member
  refine ⟨Set.notMem_empty page, ?_⟩
  rintro ⟨path, short, place⟩
  exact sound.fresh.unused page member path short place

/-- Getting or allocating a table keeps the kernel's layout: a new level-1 table
is empty. -/
theorem KernelLayout.getOrAllocate (layout : KernelLayout pml.tables kernel) (sound : Sound pml kernel)
    (table child flags : Nat) (index : Fin 512) (path : List (Fin 512)) (small : flags < 2 ^ 12)
    (inside : path.length < 3) (place : walk (links pml.tables) kernel path = some table)
    (taken : pmlGetOrAllocate pml table index flags = some (child, next)) :
    KernelLayout next.tables kernel := by
  have grown := (getOrAllocate_grown pml next kernel table child flags index path sound small inside
    place taken).1
  refine ⟨grown.sound.tree, ?_⟩
  rw [pmlGetOrAllocate] at taken
  split at taken
  · simp only [Option.some.injEq, Prod.mk.injEq] at taken
    obtain ⟨_, rfl⟩ := taken
    exact layout.unowned
  · rename_i absent
    split at taken
    · contradiction
    · rename_i fresh rest supplied
      simp only [Option.some.injEq, Prod.mk.injEq] at taken
      obtain ⟨_, rfl⟩ := taken
      have attached := allocate_attached sound small inside place (by simpa using absent) supplied
      intro tested reached slot full toReached
      rcases (attached_walks sound.tree.separated attached tested
        reached (by omega)).mp toReached with before | ⟨_, rfl⟩
      · have same := attached.same reached slot ?_ (.inl ?_)
        · simp only [same]
          exact layout.unowned tested reached slot full before
        · rintro rfl
          exact attached.unreached tested (by omega) before
        · rintro rfl
          have samePath := sound.tree.separated tested path reached (by omega) (by omega) before place
          rw [samePath] at full
          omega
      · simp only [attached.cleared slot]
        decide

/-- Mapping one page without the owned bit keeps the kernel's layout. -/
theorem KernelLayout.mapPage (layout : KernelLayout pml.tables kernel) (sound : Sound pml kernel)
    (virtAddr physAddr flags : Nat) (small : flags < 2 ^ 12)
    (unowned : owned (pageEntryCreate physAddr flags) = false)
    (taken : pmlMapPage pml kernel virtAddr physAddr flags = some next) :
    KernelLayout next.tables kernel := by
  have topSmall := topFlags_small small
  obtain ⟨level3, first, level2, second, level1, third, toLevel3, toLevel2, toLevel1, rfl⟩ :=
    mapPage_steps taken
  obtain ⟨grownFirst, walkFirst⟩ := getOrAllocate_grown pml first kernel kernel level3 _ _ [] sound
    topSmall (by simp) rfl toLevel3
  have layoutFirst := layout.getOrAllocate sound _ _ _ _ [] topSmall (by simp) rfl toLevel3
  obtain ⟨grownSecond, walkSecond⟩ := getOrAllocate_grown first second kernel level3 level2 _ _ _
    grownFirst.sound (tableFlags_small small) (by simp) walkFirst toLevel2
  have layoutSecond := layoutFirst.getOrAllocate grownFirst.sound _ _ _ _ _
    (tableFlags_small small) (by simp) walkFirst toLevel2
  obtain ⟨grownThird, walkThird⟩ := getOrAllocate_grown second third kernel level2 level1 _ _ _
    grownSecond.sound (tableFlags_small small) (by simp) walkSecond toLevel1
  have layoutThird := layoutSecond.getOrAllocate grownSecond.sound _ _ _ _ _
    (tableFlags_small small) (by simp) walkSecond toLevel1
  have walks := walk_setLeaf kernel level1 (pageEntryCreate physAddr flags)
    (pmlGetIndex virtAddr 1) _ grownThird.sound.tree.separated rfl walkThird
  refine ⟨tree_setLeaf kernel level1 _ _ _ grownThird.sound.tree rfl walkThird, ?_⟩
  intro path table index full place
  rw [walks path (by omega)] at place
  by_cases here : table = level1 ∧ index = pmlGetIndex virtAddr 1
  · simp only [setEntry, if_pos here]
    exact unowned
  · simp only [setEntry, if_neg here]
    exact layoutThird.unowned path table index full place

end KernelMaps

section LeafWrites

variable {pml : Pml} {root kernel table : Nat} {page : Nat}

/-- What an entry may be written into the level-1 table of a page: it is owned
only if present, and an owned one belongs to the lower half and brings a frame
that no other place of the space, no table of the kernel and no later
allocation has. -/
structure Writable (pml : Pml) (root kernel table page entry : Nat) : Prop where
  absent : present entry = false → owned entry = false
  lower : owned entry = true → Lower (pagePath page)
  higher : ∀ frame ∈ frames entry, HigherPage frame
  apart : ∀ frame ∈ frames entry, frame ∉ kernelTables pml.tables kernel
  kept : ∀ frame ∈ frames entry, frame ∉ pml.supply
  fresh : ∀ frame ∈ frames entry, frame ∈ spacePages pml.tables root →
    frame ∈ frames (pml.tables table (pageSlot page))

/-- An entry without the owned bit may be written anywhere. -/
theorem writable_unowned (entry : Nat) (unowned : owned entry = false) :
    Writable pml root kernel table page entry := by
  have nothing : ∀ frame, frame ∉ frames entry := by
    intro frame member
    rw [frames_unowned entry unowned] at member
    exact member
  exact ⟨fun _ => unowned, fun set => absurd (unowned.symm.trans set) Bool.false_ne_true,
    fun frame member => absurd member (nothing frame), fun frame member => absurd member (nothing frame),
    fun frame member => absurd member (nothing frame), fun frame member => absurd member (nothing frame)⟩

/-- Effect of a written level-1 entry on a space. -/
structure LeafWritten (pml next : Pml) (root kernel old entry : Nat) : Prop where
  layout : Layout next root kernel
  pages : spacePages next.tables root = (spacePages pml.tables root \ frames old) ∪ frames entry
  kernelSame : kernelTables next.tables kernel = kernelTables pml.tables kernel

/-- Writing a level-1 entry keeps absent entries without the owned bit. -/
theorem Layout.absent_setLeaf (layout : Layout pml root kernel) (entry : Nat)
    (place : walk (links pml.tables) root (pagePath page) = some table)
    (absent : present entry = false → owned entry = false) (path : List (Fin 512)) (tested : Nat)
    (index : Fin 512) (full : path.length = 3) (lower : Lower path)
    (reached : walk (links (setEntry pml.tables table (pageSlot page) entry)) root path = some tested) :
    present (setEntry pml.tables table (pageSlot page) entry tested index) = false →
      owned (setEntry pml.tables table (pageSlot page) entry tested index) = false := by
  rw [walk_setLeaf root table entry _ (pagePath page) layout.tree.separated rfl place path
    (by omega)] at reached
  by_cases here : tested = table ∧ index = pageSlot page
  · simp only [setEntry, if_pos here]
    exact absent
  · simp only [setEntry, if_neg here]
    exact layout.absentUnowned path tested index full lower reached

/-- Writing an entry of a level-1 table leaves the root's entries alone. -/
theorem Layout.root_setLeaf (layout : Layout pml root kernel) (entry : Nat)
    (place : walk (links pml.tables) root (pagePath page) = some table) (index : Fin 512) :
    setEntry pml.tables table (pageSlot page) entry root index = pml.tables root index := by
  have different : root ≠ table := by
    rintro rfl
    have same := layout.tree.separated [] (pagePath page) root (by simp) (by simp [pagePath]) rfl place
    contradiction
  simp [setEntry, different]

/-- Nothing is below the frames of a level-1 table. -/
theorem frame_childless (tables : Tables) (table : Nat) (slot : Fin 512) (child : Nat × Nat)
    (linked : owns tables (1, table) slot = some child) (index : Fin 512) :
    owns tables child index = none := by
  have counted := owns_level tables 1 table [slot] child (by rw [walk, linked]; rfl)
  obtain ⟨level, frame⟩ := child
  obtain rfl : level = 0 := by simpa using counted
  rfl

/-- An entry written into a level-1 table is one replaced link of the descent. -/
theorem Layout.leaf_replaced (layout : Layout pml root kernel) (entry : Nat)
    (descent : walk (owns pml.tables) (4, root) (pagePath page) = some (1, table)) :
    Replaced (owns pml.tables) (owns (setEntry pml.tables table (pageSlot page) entry)) (4, root)
      (1, table) (pageSlot page) (pagePath page) (owns pml.tables (1, table) (pageSlot page))
      (owns (setEntry pml.tables table (pageSlot page) entry) (1, table) (pageSlot page)) := by
  refine ⟨descent, rfl, rfl, frame_childless _ _ _, frame_childless _ _ _, ?_⟩
  intro tested node index reached elsewhere
  apply owns_set_of_ne
  by_cases here : node.2 = table
  · have samePath := layout.distinct tested (pagePath page) node (1, table) reached descent here
    rw [samePath, descent, Option.some.injEq] at reached
    exact .inr (elsewhere.resolve_left fun different => different reached.symm)
  · exact .inl here

/-- An entry of a level-1 table below the lower half is written. The place below
the entry is replaced, and the kernel's tables are not touched. -/
theorem Layout.setLower (layout : Layout pml root kernel) (entry : Nat) (freed : List Nat)
    (lower : Lower (pagePath page)) (place : walk (links pml.tables) root (pagePath page) = some table)
    (writable : Writable pml root kernel table page entry) :
    LeafWritten pml { pml with
      tables := setEntry pml.tables table (pageSlot page) entry, freed := freed } root kernel
      (pml.tables table (pageSlot page)) entry := by
  have own : table ∈ spacePages pml.tables root := table_mem pml.tables root table _ (by simp [pagePath])
    lower place
  have descent : walk (owns pml.tables) (4, root) (pagePath page) = some (1, table) := by
    rw [walk_owns pml.tables 4 root _ (by simp [pagePath]) (Nat.le_refl 4) (fun _ => lower), place]
    rfl
  have oldAbsent := layout.absentUnowned (pagePath page) table (pageSlot page) rfl lower place
  have written : setEntry pml.tables table (pageSlot page) entry table (pageSlot page) = entry := by
    simp [setEntry]
  have replaced := layout.leaf_replaced entry descent
  have oldFrames := owns_leaf pml.tables table (pageSlot page) oldAbsent
  have newFrames := owns_leaf (setEntry pml.tables table (pageSlot page) entry) table (pageSlot page)
    (by rw [written]; exact writable.absent)
  rw [written] at newFrames
  have pages : spacePages (setEntry pml.tables table (pageSlot page) entry) root =
      (spacePages pml.tables root \ frames (pml.tables table (pageSlot page))) ∪ frames entry := by
    rw [spacePages, replaced.span_eq layout.distinct, oldFrames, newFrames]
    rfl
  have untouched : ∀ tested ∈ kernelTables pml.tables kernel, ∀ index,
      setEntry pml.tables table (pageSlot page) entry tested index = pml.tables tested index := by
    intro tested member index
    have different : tested ≠ table := by
      rintro rfl
      exact layout.apart tested own member
    simp [setEntry, different]
  have kernelSame := kernelTables_congr (kernel_walks untouched)
  refine ⟨⟨?_, ?_, ?_, layout.kernelLayout.frame untouched, ?_, ?_, ?_⟩, pages, kernelSame⟩
  · refine replaced.distinct layout.distinct fun child linked met => ?_
    have member : child.2 ∈ frames entry := by
      rw [← newFrames]
      exact ⟨child, linked, rfl⟩
    have before := writable.fresh child.2 member met
    rw [← oldFrames] at before
    exact before
  · intro tested member
    rw [pages] at member
    exact member.elim (fun before => layout.higher tested before.1) (writable.higher tested)
  · intro tested member
    rw [pages] at member
    rw [kernelSame]
    exact member.elim (fun before => layout.apart tested before.1) (writable.apart tested)
  · intro index high
    exact (layout.root_setLeaf entry place index).trans ((layout.shared index high).trans
      (untouched kernel (kernel_mem pml.tables kernel) index).symm)
  · exact layout.absent_setLeaf entry place writable.absent
  · refine ⟨layout.stocked.distinct, layout.stocked.higher, ?_⟩
    intro tested member
    obtain ⟨notOwn, notKernel⟩ := layout.stocked.unused tested member
    rw [pages, kernelSame]
    refine ⟨?_, notKernel⟩
    rintro (before | added)
    · exact notOwn before.1
    · exact writable.kept tested added member

/-- An entry of a level-1 table of the kernel is written. Neither the old nor
the new entry is owned, and the space's own tables are not touched. -/
theorem Layout.setUpper (layout : Layout pml root kernel) (entry : Nat) (freed : List Nat)
    (upper : ¬Lower (pagePath page))
    (place : walk (links pml.tables) root (pagePath page) = some table)
    (unowned : owned entry = false) :
    LeafWritten pml { pml with
      tables := setEntry pml.tables table (pageSlot page) entry, freed := freed } root kernel
      (pml.tables table (pageSlot page)) entry := by
  have kernelPlace : walk (links pml.tables) kernel (pagePath page) = some table :=
    (layout.upper_walk (pagePath page) upper).symm.trans place
  have shared : table ∈ kernelTables pml.tables kernel := ⟨pagePath page, by simp [pagePath], kernelPlace⟩
  have oldUnowned := layout.kernelLayout.unowned (pagePath page) table (pageSlot page) rfl kernelPlace
  have tree := layout.kernelLayout.tree
  have kernelWalks := walk_setLeaf kernel table entry (pageSlot page) (pagePath page)
    tree.separated rfl kernelPlace
  have kernelSame := kernelTables_congr kernelWalks
  have descents : ∀ path, walk (owns (setEntry pml.tables table (pageSlot page) entry)) (4, root) path =
      walk (owns pml.tables) (4, root) path := by
    refine walk_congr ?_
    intro tested node index reached
    refine owns_set_of_ne pml.tables table entry node _ index (.inl ?_)
    rintro rfl
    exact layout.apart node.2 ⟨tested, node, reached, rfl⟩ shared
  have samePages : spacePages (setEntry pml.tables table (pageSlot page) entry) root =
      spacePages pml.tables root := by
    simp only [spacePages, span, descents]
  have kernelRoot : ∀ index, setEntry pml.tables table (pageSlot page) entry kernel index =
      pml.tables kernel index := by
    intro index
    have different : kernel ≠ table := by
      rintro rfl
      have same := tree.separated [] (pagePath page) kernel (by simp) (by simp [pagePath]) rfl kernelPlace
      contradiction
    simp [setEntry, different]
  refine ⟨⟨?_, ?_, ?_, ⟨?_, ?_⟩, ?_, ?_, ?_⟩, ?_, kernelSame⟩
  · intro first second one other toOne toOther
    rw [descents] at toOne toOther
    exact layout.distinct first second one other toOne toOther
  · rw [samePages]
    exact layout.higher
  · rw [samePages, kernelSame]
    exact layout.apart
  · exact tree_setLeaf kernel table entry _ (pagePath page) tree rfl kernelPlace
  · intro path tested index full reached
    rw [kernelWalks path (by omega)] at reached
    by_cases here : tested = table ∧ index = pageSlot page
    · simp only [setEntry, if_pos here]
      exact unowned
    · simp only [setEntry, if_neg here]
      exact layout.kernelLayout.unowned path tested index full reached
  · intro index high
    exact (layout.root_setLeaf entry place index).trans ((layout.shared index high).trans
      (kernelRoot index).symm)
  · exact layout.absent_setLeaf entry place (fun _ => unowned)
  · rw [samePages, kernelSame]
    exact layout.stocked
  · rw [samePages, frames_unowned _ oldUnowned, frames_unowned _ unowned, Set.sdiff_empty, Set.union_empty]

/-- An entry is written into the level-1 table of a page. -/
theorem Layout.setLeaf (layout : Layout pml root kernel) (entry : Nat) (freed : List Nat)
    (place : walk (links pml.tables) root (pagePath page) = some table)
    (writable : Writable pml root kernel table page entry) :
    LeafWritten pml { pml with
      tables := setEntry pml.tables table (pageSlot page) entry, freed := freed } root kernel
      (pml.tables table (pageSlot page)) entry := by
  by_cases lower : Lower (pagePath page)
  · exact layout.setLower entry freed lower place writable
  · refine layout.setUpper entry freed lower place ?_
    cases set : owned entry with
    | false => rfl
    | true => exact absurd (writable.lower set) lower

end LeafWrites

section NewTables

variable {pml : Pml} {root kernel : Nat}

/-- A page that the allocator is about to return leaves the supply. -/
theorem Stocked.tail {fresh : Nat} {rest : List Nat} {pages kernelPages : Set Nat}
    (stocked : Stocked (fresh :: rest) pages kernelPages) : Stocked rest (insert fresh pages) kernelPages := by
  obtain ⟨notLater, distinct⟩ := List.nodup_cons.mp stocked.distinct
  refine ⟨distinct, fun page member => stocked.higher page (by simp [member]), ?_⟩
  intro page member
  obtain ⟨notOwn, notKernel⟩ := stocked.unused page (by simp [member])
  refine ⟨?_, notKernel⟩
  rintro (rfl | own)
  · exact notLater member
  · exact notOwn own

/-- Effect of a new page of a space. -/
structure Extended (pml next : Pml) (root kernel fresh : Nat) : Prop where
  layout : Layout next root kernel
  pages : spacePages next.tables root = insert fresh (spacePages pml.tables root)
  kernelSame : kernelTables next.tables kernel = kernelTables pml.tables kernel

/-- The front of a path of the lower half. -/
theorem Lower.front {path : List (Fin 512)} {index : Fin 512} (lower : Lower (path ++ [index])) :
    Lower path := by
  intro first same
  refine lower first ?_
  rw [List.head?_append, Option.mem_def.mp same]
  rfl

section Attaching

variable {tables : Tables} {table fresh : Nat} {index : Fin 512} {path : List (Fin 512)}

/-- A table attached in the lower half is one new link of the descent. -/
theorem Layout.attach_replaced (layout : Layout pml root kernel)
    (attached : Attached pml tables root table fresh index path) (lower : Lower (path ++ [index]))
    (freshOwn : fresh ∉ spacePages pml.tables root) : ∃ level,
    Replaced (owns pml.tables) (owns tables) (4, root) (level + 1 + 1, table) index path none
      (some (level + 1, fresh)) := by
  have inside := attached.inside
  obtain ⟨level, levelEq⟩ : ∃ level, 4 - path.length = level + 1 + 1 := ⟨2 - path.length, by omega⟩
  have descent : walk (owns pml.tables) (4, root) path = some (level + 1 + 1, table) := by
    rw [walk_owns pml.tables 4 root path (by omega) (Nat.le_refl 4) (fun _ => lower.front),
      attached.place, levelEq]
    rfl
  have topIndex : level + 1 + 1 = 4 → index.val < upperIndex := by
    intro top
    obtain rfl : path = [] := List.eq_nil_of_length_eq_zero (by omega)
    exact lower index rfl
  refine ⟨level, descent, ?_, ?_, by simp, ?_, ?_⟩
  · rw [owns_eq_links pml.tables (level + 1) table index (by omega) topIndex, attached.absent]
    rfl
  · rw [owns_eq_links tables (level + 1) table index (by omega) topIndex, attached.added]
    rfl
  · rintro child linked slot
    obtain rfl := Option.some.inj linked
    rw [owns, attached.cleared slot, if_neg]
    exact fun follows => absurd follows.1 (by decide)
  · intro tested node slot reached elsewhere
    refine owns_congr pml.tables tables node slot (attached.same node.2 slot ?_ ?_)
    · rintro rfl
      exact freshOwn ⟨tested, node, reached, rfl⟩
    · by_cases here : node.2 = table
      · have samePath := layout.distinct tested path node (level + 1 + 1, table) reached descent here
        rw [samePath, descent, Option.some.injEq] at reached
        exact .inr (elsewhere.resolve_left fun different => different reached.symm)
      · exact .inl here

/-- Attaching a table in the lower half does not touch the kernel's tables. -/
theorem Layout.attach_untouched (layout : Layout pml root kernel)
    (attached : Attached pml tables root table fresh index path) (lower : Lower (path ++ [index]))
    (freshKernel : fresh ∉ kernelTables pml.tables kernel) :
    ∀ tested ∈ kernelTables pml.tables kernel, ∀ slot, tables tested slot = pml.tables tested slot := by
  have inside := attached.inside
  have own : table ∈ spacePages pml.tables root :=
    table_mem pml.tables root table path (by omega) lower.front attached.place
  intro tested member slot
  refine attached.same tested slot ?_ (.inl ?_)
  · rintro rfl
    exact freshKernel member
  · rintro rfl
    exact layout.apart tested own member

/-- Attaching a table in the lower half keeps the upper half of the root. -/
theorem Layout.attach_root (layout : Layout pml root kernel)
    (attached : Attached pml tables root table fresh index path) (lower : Lower (path ++ [index]))
    (freshOwn : fresh ∉ spacePages pml.tables root) (slot : Fin 512) (high : upperIndex ≤ slot.val) :
    tables root slot = pml.tables root slot := by
  have inside := attached.inside
  refine attached.same root slot ?_ ?_
  · rintro rfl
    exact freshOwn (root_mem pml.tables root)
  · by_cases here : root = table
    · subst here
      have atRoot := layout.tree.separated path [] root (by omega) (by simp) attached.place rfl
      subst atRoot
      right
      rintro rfl
      exact absurd (lower slot rfl) (by omega)
    · exact .inl here

/-- Absent entries of level-1 tables stay without the owned bit: the attached
table is empty, and the table that it is attached to is above level 1. -/
theorem Layout.attach_absent (layout : Layout pml root kernel)
    (attached : Attached pml tables root table fresh index path) (tested : List (Fin 512))
    (reachedTable : Nat) (slot : Fin 512) (full : tested.length = 3) (testedLower : Lower tested)
    (reached : walk (links tables) root tested = some reachedTable)
    (absent : present (tables reachedTable slot) = false) : owned (tables reachedTable slot) = false := by
  have inside := attached.inside
  have walks := attached_walks layout.tree.separated attached
  rcases (walks tested reachedTable (by omega)).mp reached with before | ⟨_, rfl⟩
  · have same : tables reachedTable slot = pml.tables reachedTable slot := by
      refine attached.same reachedTable slot ?_ (.inl ?_)
      · rintro rfl
        exact attached.unreached tested (by omega) before
      · rintro rfl
        have samePath := layout.tree.separated tested path reachedTable (by omega) (by omega) before
          attached.place
        rw [samePath] at full
        omega
    rw [same] at absent ⊢
    exact layout.absentUnowned tested reachedTable slot full testedLower before absent
  · rw [attached.cleared slot]
    rfl

end Attaching

/-- A new table is attached at an absent entry below the lower half. -/
theorem Layout.attach (layout : Layout pml root kernel) (table fresh flags : Nat) (index : Fin 512)
    (rest : List Nat) (path : List (Fin 512)) (small : flags < 2 ^ 12) (inside : path.length < 3)
    (lower : Lower (path ++ [index])) (place : walk (links pml.tables) root path = some table)
    (absent : present (pml.tables table index) = false) (supplied : pml.supply = fresh :: rest) :
    Extended pml { pml with
      tables := setEntry (clearTable pml.tables fresh) table index
        (pageEntryCreate (higherToLower fresh) flags)
      supply := rest } root kernel fresh := by
  have attached := allocate_attached layout.sound small inside place absent supplied
  generalize setEntry (clearTable pml.tables fresh) table index
    (pageEntryCreate (higherToLower fresh) flags) = tables at attached ⊢
  obtain ⟨freshOwn, freshKernel⟩ := layout.stocked.unused fresh (by simp [supplied])
  obtain ⟨level, replaced⟩ := layout.attach_replaced attached lower freshOwn
  have untouched := layout.attach_untouched attached lower freshKernel
  have pages : spacePages tables root = insert fresh (spacePages pml.tables root) := by
    rw [spacePages, replaced.span_eq layout.distinct]
    ext met
    simp [spacePages, eq_comm]
  have kernelSame := kernelTables_congr (kernel_walks untouched)
  refine ⟨⟨?_, ?_, ?_, layout.kernelLayout.frame untouched, ?_, layout.attach_absent attached, ?_⟩,
    pages, kernelSame⟩
  · refine replaced.distinct layout.distinct fun child linked met => ?_
    obtain rfl := Option.some.inj linked
    exact absurd met freshOwn
  · intro tested member
    rw [pages] at member
    rcases member with rfl | before
    · exact layout.stocked.higher tested (by simp [supplied])
    · exact layout.higher tested before
  · intro tested member
    rw [pages] at member
    rw [kernelSame]
    rcases member with rfl | before
    · exact freshKernel
    · exact layout.apart tested before
  · intro slot high
    exact (layout.attach_root attached lower freshOwn slot high).trans ((layout.shared slot high).trans
      (untouched kernel (kernel_mem pml.tables kernel) slot).symm)
  · have stocked := layout.stocked
    rw [supplied] at stocked
    rw [pages, kernelSame]
    exact stocked.tail

/-- A frame is taken from the supply and not used yet. -/
theorem Layout.take (layout : Layout pml root kernel) (frame : Nat) (rest : List Nat)
    (supplied : pml.supply = frame :: rest) : Layout { pml with supply := rest } root kernel where
  distinct := layout.distinct
  higher := layout.higher
  apart := layout.apart
  kernelLayout := layout.kernelLayout
  shared := layout.shared
  absentUnowned := layout.absentUnowned
  stocked := by
    have stocked := layout.stocked
    rw [supplied] at stocked
    refine ⟨stocked.tail.distinct, stocked.tail.higher, ?_⟩
    intro page member
    exact stocked.unused page (by simp [member])

end NewTables

section Surroundings

variable {pml : Pml} {root kernel : Nat}

/-- The allocator is going to return other pages. -/
theorem Layout.restock (layout : Layout pml root kernel) (supply : List Nat)
    (stocked : Stocked supply (spacePages pml.tables root) (kernelTables pml.tables kernel)) :
    Layout { pml with supply := supply } root kernel where
  distinct := layout.distinct
  higher := layout.higher
  apart := layout.apart
  kernelLayout := layout.kernelLayout
  shared := layout.shared
  absentUnowned := layout.absentUnowned
  stocked := stocked

/-- Memory changes outside all tables of a space, the kernel's included: the
contents of frames may become anything. -/
structure Stored (tables next : Tables) (root kernel : Nat) : Prop where
  own : ∀ path table, path.length ≤ 3 → walk (links tables) root path = some table →
    ∀ index, next table index = tables table index
  kernelOwn : ∀ table ∈ kernelTables tables kernel, ∀ index, next table index = tables table index

/-- Descents do not depend on the contents of frames. -/
theorem Stored.descents {tables next : Tables} (stored : Stored tables next root kernel)
    (path : List (Fin 512)) :
    walk (owns next) (4, root) path = walk (owns tables) (4, root) path := by
  refine walk_congr ?_ path
  rintro tested ⟨level, page⟩ index reached
  cases level with
  | zero => rfl
  | succ level =>
    obtain ⟨counted, _⟩ := descent_length reached
    have lower := lower_of_descent reached
    rw [walk_owns tables 4 root tested (by omega) (Nat.le_refl 4) (fun _ => lower),
      Option.map_eq_some_iff] at reached
    obtain ⟨table, place, same⟩ := reached
    obtain rfl : table = page := congrArg Prod.snd same
    exact owns_congr tables next _ index (stored.own tested table (by omega) place index)

/-- The walks of a space do not depend on the contents of frames. -/
theorem Stored.walks {tables next : Tables} (stored : Stored tables next root kernel)
    (path : List (Fin 512)) (short : path.length ≤ 3) :
    walk (links next) root path = walk (links tables) root path := by
  refine walk_frame ?_ path short
  intro tested table inside place index
  rw [links, links, stored.own tested table (by omega) place index]

/-- The translations of a space do not depend on the contents of frames. -/
theorem Stored.translations {tables next : Tables} (stored : Stored tables next root kernel) :
    translation next root = translation tables root := by
  funext page
  rw [translation, translation, stored.walks (pagePath page) (by simp [pagePath])]
  cases place : walk (links tables) root (pagePath page) with
  | none => rfl
  | some table =>
    rw [Option.bind_some, Option.bind_some, stored.own (pagePath page) table (by simp [pagePath]) place]

/-- The contents of frames do not matter to the layout. -/
theorem Layout.store (layout : Layout pml root kernel) (next : Tables)
    (stored : Stored pml.tables next root kernel) :
    Layout { pml with tables := next } root kernel ∧
      spacePages next root = spacePages pml.tables root ∧
      kernelTables next kernel = kernelTables pml.tables kernel := by
  have samePages : spacePages next root = spacePages pml.tables root := by
    simp only [spacePages, span, stored.descents]
  have kernelSame := kernelTables_congr (kernel_walks stored.kernelOwn)
  refine ⟨⟨?_, ?_, ?_, layout.kernelLayout.frame stored.kernelOwn, ?_, ?_, ?_⟩, samePages, kernelSame⟩
  · intro first second one other toOne toOther
    rw [stored.descents] at toOne toOther
    exact layout.distinct first second one other toOne toOther
  · rw [samePages]
    exact layout.higher
  · rw [samePages, kernelSame]
    exact layout.apart
  · intro index high
    exact (stored.own [] root (by simp) rfl index).trans ((layout.shared index high).trans
      (stored.kernelOwn kernel (kernel_mem pml.tables kernel) index).symm)
  · intro path table index full lower place
    rw [stored.walks path (by omega)] at place
    simp only [stored.own path table (by omega) place index]
    exact layout.absentUnowned path table index full lower place
  · rw [samePages, kernelSame]
    exact layout.stocked

end Surroundings

/-- A new space has a root taken from the supply and nothing below it in the
lower half. -/
structure NewSpace (memory : Pml) (kernel : Nat) (space : Space) : Prop where
  supplied : memory.supply = space.pml :: space.memory.supply
  freed : space.memory.freed = memory.freed
  layout : Layout space.memory space.pml kernel
  pages : spacePages space.memory.tables space.pml = {space.pml}
  kernelSame : kernelTables space.memory.tables kernel = kernelTables memory.tables kernel

/-- The root of a new space: cleared, with the upper half of another root. -/
def newRoot (tables : Tables) (kernel root : Nat) : Tables := copyUpper (clearTable tables root) kernel root

/-- The lower half of a new root is empty. -/
theorem newRoot_lower (tables : Tables) (kernel root : Nat) (index : Fin 512)
    (low : index.val < upperIndex) : newRoot tables kernel root root index = 0 := by
  have notUpper : ¬upperIndex ≤ index.val := by omega
  simp [newRoot, copyUpper, clearTable, notUpper]

/-- Other pages are not changed by a new root. -/
theorem newRoot_other (tables : Tables) (kernel root table : Nat) (index : Fin 512)
    (different : table ≠ root) : newRoot tables kernel root table index = tables table index := by
  simp [newRoot, copyUpper, clearTable, different]

/-- Nothing is below a new root. -/
theorem newRoot_descents (tables : Tables) (kernel root : Nat) (path : List (Fin 512))
    (place : Nat × Nat) : walk (owns (newRoot tables kernel root)) (4, root) path = some place ↔
      path = [] ∧ place = (4, root) := by
  apply walk_childless
  intro index
  rw [owns, if_neg]
  rintro ⟨here, lower, _⟩
  rw [newRoot_lower tables kernel root index (lower rfl)] at here
  exact absurd here (by decide)

/-- The only page of a new space is its root. -/
theorem newRoot_pages (tables : Tables) (kernel root : Nat) :
    spacePages (newRoot tables kernel root) root = {root} := by
  ext page
  constructor
  · rintro ⟨path, place, reached, rfl⟩
    obtain ⟨_, rfl⟩ := (newRoot_descents tables kernel root path place).mp reached
    rfl
  · rintro rfl
    exact root_mem _ page

/-- The kernel's tables are not changed by a new root. -/
theorem newRoot_kernel {tables : Tables} {kernel root : Nat} (notKernel : root ∉ kernelTables tables kernel)
    (table : Nat) (member : table ∈ kernelTables tables kernel) (index : Fin 512) :
    newRoot tables kernel root table index = tables table index := by
  apply newRoot_other
  rintro rfl
  exact notKernel member

/-- A new root is laid out as a space. -/
theorem newRoot_layout {tables : Tables} {kernel root : Nat} (rest freed : List Nat)
    (kernelLayout : KernelLayout tables kernel)
    (stocked : Stocked (root :: rest) ∅ (kernelTables tables kernel)) :
    Layout ⟨newRoot tables kernel root, rest, freed⟩ root kernel ∧
      kernelTables (newRoot tables kernel root) kernel = kernelTables tables kernel := by
  obtain ⟨_, notKernel⟩ := stocked.unused root (by simp)
  have untouched := newRoot_kernel notKernel
  have kernelSame := kernelTables_congr (kernel_walks untouched)
  have pages := newRoot_pages tables kernel root
  have descents := newRoot_descents tables kernel root
  refine ⟨⟨?_, ?_, ?_, kernelLayout.frame untouched, ?_, ?_, ?_⟩, kernelSame⟩
  · intro first second one other toOne toOther _
    rw [((descents first one).mp toOne).1, ((descents second other).mp toOther).1]
  · intro page member
    simp only [pages] at member
    obtain rfl := member
    exact stocked.higher page (by simp)
  · intro page member
    simp only [pages] at member
    obtain rfl := member
    simp only [kernelSame]
    exact notKernel
  · intro index high
    have different : kernel ≠ root := by
      rintro rfl
      exact notKernel (kernel_mem tables kernel)
    have copied : newRoot tables kernel root root index = tables kernel index := by
      simp [newRoot, copyUpper, high, clearTable, different]
    exact copied.trans (untouched kernel (kernel_mem tables kernel) index).symm
  · intro path table index full lower place
    cases path with
    | nil => contradiction
    | cons first rest =>
      have empty := newRoot_lower tables kernel root first (lower first rfl)
      rw [walk, links] at place
      simp only [empty] at place
      contradiction
  · simp only [pages, kernelSame]
    rw [← insert_empty_eq]
    exact stocked.tail

/-- `space_init` takes the next page of the supply as the root. -/
theorem spaceInit_cases {memory : Pml} {kernel : Nat} {space : Space}
    (created : spaceInit memory kernel = some space) : ∃ rest,
    memory.supply = space.pml :: rest ∧
      space.memory = ⟨newRoot memory.tables kernel space.pml, rest, memory.freed⟩ := by
  rw [spaceInit, Option.bind_eq_bind, Option.bind_eq_some_iff] at created
  obtain ⟨⟨root, fresh⟩, allocated, created⟩ := created
  obtain rfl := Option.some.inj created
  rw [pmlNew] at allocated
  split at allocated
  · contradiction
  · rename_i address rest supplied
    simp only [Option.some.injEq, Prod.mk.injEq] at allocated
    obtain ⟨rfl, rfl⟩ := allocated
    exact ⟨rest, supplied, rfl⟩

/-- `space_init` makes a new space. -/
theorem init_newSpace {memory : Pml} {kernel : Nat} {space : Space}
    (kernelLayout : KernelLayout memory.tables kernel)
    (stocked : Stocked memory.supply ∅ (kernelTables memory.tables kernel))
    (created : spaceInit memory kernel = some space) : NewSpace memory kernel space := by
  obtain ⟨rest, supplied, same⟩ := spaceInit_cases created
  rw [supplied] at stocked
  obtain ⟨layout, kernelSame⟩ := newRoot_layout rest memory.freed kernelLayout stocked
  have pages := newRoot_pages memory.tables kernel space.pml
  constructor <;> rw [same]
  · exact supplied
  · exact layout
  · exact pages
  · exact kernelSame

/-- Clearing the upper half of the root changes no descent: the release does not
follow the upper half anyway. -/
theorem cleared_descents {tables : Tables} {root : Nat} (distinct : Distinct (owns tables) Prod.snd (4, root))
    (path : List (Fin 512)) :
    walk (owns (clearUpper tables root)) (4, root) path = walk (owns tables) (4, root) path := by
  refine walk_congr ?_ path
  intro tested place index reached
  by_cases upper : place.2 = root ∧ upperIndex ≤ index.val
  · have atRoot := distinct tested [] place (4, root) reached rfl upper.1
    subst atRoot
    obtain rfl := Option.some.inj reached
    have outside : ∀ entry, ¬released 4 index entry := by
      rintro entry ⟨_, lower, _⟩
      exact absurd (lower rfl) (by omega)
    rw [owns, owns, if_neg (outside _), if_neg (outside _)]
  · apply owns_congr
    rw [clearUpper, if_neg upper]

end Asym.SpaceLayout
