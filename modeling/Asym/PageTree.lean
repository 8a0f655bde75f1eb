import Asym.CyclicUpdates
import Asym.LinkedWalks
import Asym.PageTables

/-!
# Page tables as a tree and as a flat map

The tables below a root form a tree when no table is reached by two different
index paths. Only then does a write to one entry concern one virtual page. The
flat reading of a tree is a partial map from 36-bit page numbers to a frame and
flags, given by the present level-1 entries.

Three steps are analysed: getting or allocating a table, which keeps every
translation; writing a level-1 entry, which changes the translation of exactly
one page; and testing one page. The loops of `pml.c` are then simulated by
consecutive rewrites of the flat map.
-/

namespace Asym.PageTree

open MachineWords PhysicalMemory PageEntries PageTables LinkedWalks CyclicUpdates

/-- The child table of an entry, when the entry is present. -/
def links (tables : Tables) (table : Nat) (index : Fin 512) : Option Nat :=
  if present (tables table index) then some (pageEntryGetAddress (tables table index)) else none

/-- A well-formed tree: no table is reached by two paths, and none lies at
`NULL`. Linked tables are aligned by construction; the root has to be. -/
structure Tree (tables : Tables) (root : Nat) : Prop where
  aligned : root % pageSize = 0
  separated : Separated (links tables) root 3
  notNull : ∀ path table, path.length ≤ 3 → walk (links tables) root path = some table → table ≠ 0

/-- The pages the allocator is going to return are distinct higher-half pages
and no tables of the tree. -/
structure Fresh (pml : Pml) (root : Nat) : Prop where
  distinct : pml.supply.Nodup
  pages : ∀ page ∈ pml.supply,
    page % pageSize = 0 ∧ vmmHigherHalfBase ≤ page ∧ page < wordSize
  unused : ∀ page ∈ pml.supply, ∀ path, path.length ≤ 3 →
    walk (links pml.tables) root path ≠ some page

/-- Number of virtual pages. -/
def pageCount : Nat := 2 ^ 36

/-- Indices that lead from the root to the level-1 table of a page. -/
def pagePath (page : Nat) : List (Fin 512) :=
  [⟨page / 2 ^ 27 % 512, Nat.mod_lt _ (by decide)⟩, ⟨page / 2 ^ 18 % 512, Nat.mod_lt _ (by decide)⟩,
    ⟨page / 2 ^ 9 % 512, Nat.mod_lt _ (by decide)⟩]

/-- Index of a page in its level-1 table. -/
def pageSlot (page : Nat) : Fin 512 := ⟨page % 512, Nat.mod_lt _ (by decide)⟩

/-- Partial map from page numbers to frame and flags. -/
abbrev FlatMap := Nat → Option (Nat × Nat)

/-- Frame and flags of a present entry. -/
def readEntry (entry : Nat) : Option (Nat × Nat) :=
  if present entry then some (entryFrame entry, entryFlags entry) else none

/-- The flat reading of a tree. -/
def translation (tables : Tables) (root : Nat) : FlatMap := fun page =>
  if page < pageCount then
    (walk (links tables) root (pagePath page)).bind (fun table =>
      readEntry (tables table (pageSlot page)))
  else none

/-- The index path of an address is that of its page number. -/
theorem path_address (virtAddr : Nat) :
    [pmlGetIndex virtAddr 4, pmlGetIndex virtAddr 3, pmlGetIndex virtAddr 2] =
      pagePath (pageNumber virtAddr) := by
  have top := index_val virtAddr 4 (by decide) (by decide)
  have middle := index_val virtAddr 3 (by decide) (by decide)
  have bottom := index_val virtAddr 2 (by decide) (by decide)
  simp only [pagePath, List.cons.injEq, and_true]
  exact ⟨Fin.ext top, Fin.ext middle, Fin.ext bottom⟩

/-- The level-1 index of an address is that of its page number. -/
theorem slot_address (virtAddr : Nat) : pmlGetIndex virtAddr 1 = pageSlot (pageNumber virtAddr) := by
  apply Fin.ext
  have read := index_val virtAddr 1 (by decide) (by decide)
  simpa [pageSlot] using read

/-- Page numbers are determined by their indices. -/
theorem page_of_indices (first second : Nat) (firstInside : first < pageCount)
    (secondInside : second < pageCount) (samePath : pagePath first = pagePath second)
    (sameSlot : pageSlot first = pageSlot second) : first = second := by
  simp only [pagePath, pageSlot, List.cons.injEq, Fin.mk.injEq, and_true] at samePath sameSlot
  simp only [pageCount] at firstInside secondInside
  omega

/-- Page numbers are below the number of pages. -/
theorem page_lt (virtAddr : Nat) : pageNumber virtAddr < pageCount :=
  Nat.mod_lt _ (by decide)

/-- The next address lies on the next page, modulo the address range. -/
theorem page_next (virtAddr : Nat) :
    pageNumber (add virtAddr pageSize) = (pageNumber virtAddr + 1) % pageCount := by
  simp only [pageNumber, add, pageSize, pageCount, wordSize]
  omega

/-- Looking up an existing table and following its link agree. -/
theorem get_of_link {tables : Tables} {table child : Nat} {index : Fin 512}
    (linked : links tables table index = some child) : pmlGet tables table index = child := by
  rw [links] at linked
  rw [pmlGet]
  split at linked
  · rename_i here
    rw [if_pos here]
    exact Option.some.inj linked
  · contradiction

/-- A missing link is looked up as `NULL`. -/
theorem get_of_no_link {tables : Tables} {table : Nat} {index : Fin 512}
    (unlinked : links tables table index = none) : pmlGet tables table index = 0 := by
  rw [links] at unlinked
  rw [pmlGet]
  split at unlinked
  · contradiction
  · rename_i absent
    rw [if_neg absent]

/-- The three lookups of an address end where the walk of its page ends. -/
theorem leafTable_of_walk {tables : Tables} {root virtAddr table : Nat}
    (reached : walk (links tables) root (pagePath (pageNumber virtAddr)) = some table) :
    leafTable tables root virtAddr = table := by
  rw [← path_address] at reached
  simp only [walk, Option.bind_eq_some_iff, Option.some.injEq] at reached
  obtain ⟨level3, toLevel3, level2, toLevel2, level1, toLevel1, rfl⟩ := reached
  rw [leafTable, get_of_link toLevel3, get_of_link toLevel2,
    get_of_link toLevel1]

/-- The test of one page answers whether the page is translated. A walk that
stops early is seen as `NULL`, and no table of the tree lies there. -/
theorem mappedPage_eq (tables : Tables) (root virtAddr : Nat) (tree : Tree tables root) :
    pmlMappedPage tables root virtAddr = (translation tables root (pageNumber virtAddr)).isSome := by
  rw [translation, if_pos (page_lt virtAddr), ← path_address, ← slot_address, pmlMappedPage]
  have notNull := tree.notNull
  simp only [walk]
  cases toLevel3 : links tables root (pmlGetIndex virtAddr 4) with
  | none => simp [get_of_no_link toLevel3]
  | some level3 =>
    have third : level3 ≠ 0 :=
      notNull [pmlGetIndex virtAddr 4] level3 (by simp) (by simp [walk, toLevel3])
    rw [get_of_link toLevel3, if_neg third]
    cases toLevel2 : links tables level3 (pmlGetIndex virtAddr 3) with
    | none => simp [get_of_no_link toLevel2, toLevel2]
    | some level2 =>
      have second : level2 ≠ 0 :=
        notNull [pmlGetIndex virtAddr 4, pmlGetIndex virtAddr 3] level2 (by simp)
          (by simp [walk, toLevel3, toLevel2])
      rw [get_of_link toLevel2, if_neg second]
      cases toLevel1 : links tables level2 (pmlGetIndex virtAddr 2) with
      | none => simp [get_of_no_link toLevel1, toLevel2, toLevel1]
      | some level1 =>
        have first : level1 ≠ 0 :=
          notNull [pmlGetIndex virtAddr 4, pmlGetIndex virtAddr 3, pmlGetIndex virtAddr 2] level1
            (by simp) (by simp [walk, toLevel3, toLevel2, toLevel1])
        rw [get_of_link toLevel1, if_neg first]
        simp only [Option.bind_some, toLevel2, toLevel1, readEntry]
        cases present (tables level1 (pmlGetIndex virtAddr 1)) <;> rfl

/-- `pml_mapped` is true exactly when all the pages it visits are translated. -/
theorem mapped_iff {tables : Tables} (root virtAddr pageAmount : Nat) (tree : Tree tables root) :
    pmlMapped tables root virtAddr pageAmount = true ↔ ∀ position < pageAmount,
      (translation tables root ((pageNumber virtAddr + position) % pageCount)).isSome := by
  induction pageAmount generalizing virtAddr with
  | zero => simp [pmlMapped]
  | succ pageAmount ih =>
    rw [pmlMapped, mappedPage_eq _ _ _ tree]
    have shift : ∀ position, ((pageNumber virtAddr + 1) % pageCount + position) % pageCount =
        (pageNumber virtAddr + (position + 1)) % pageCount := by
      intro position
      rw [Nat.mod_add_mod, Nat.add_assoc, Nat.add_comm 1 position]
    have here : (pageNumber virtAddr + 0) % pageCount = pageNumber virtAddr :=
      Nat.mod_eq_of_lt (page_lt virtAddr)
    cases first : (translation tables root (pageNumber virtAddr)).isSome with
    | false =>
      simp only [Bool.false_eq_true, if_false, false_iff]
      intro all
      have refuted := all 0 (by omega)
      rw [here, first] at refuted
      contradiction
    | true =>
      simp only [if_true]
      rw [ih, page_next]
      simp only [shift]
      constructor
      · intro all position small
        cases position with
        | zero => rwa [here]
        | succ position => exact all position (by omega)
      · intro all position small
        exact all (position + 1) (by omega)

/-- Links are unchanged except at a written entry. -/
theorem links_set_of_ne (tables : Tables) (table tested entry : Nat) (index slot : Fin 512)
    (different : tested ≠ table ∨ slot ≠ index) :
    links (setEntry tables table index entry) tested slot = links tables tested slot := by
  have outside : ¬(tested = table ∧ slot = index) := by tauto
  simp only [links, setEntry, if_neg outside]

/-- Writing an entry of a level-1 table changes no walk up to depth three: a
walk of that length that leaves such a table would be a second path to it. -/
theorem walk_setLeaf {tables : Tables} (root table entry : Nat) (index : Fin 512)
    (path : List (Fin 512)) (separated : Separated (links tables) root 3) (full : path.length = 3)
    (place : walk (links tables) root path = some table) (tested : List (Fin 512))
    (short : tested.length ≤ 3) :
    walk (links (setEntry tables table index entry)) root tested =
      walk (links tables) root tested := by
  refine walk_frame ?_ tested short
  intro shorter node inside reached slot
  apply links_set_of_ne
  left
  rintro rfl
  have same := separated shorter path node (by omega) (by omega) reached place
  rw [same] at inside
  omega

/-- Writing an entry of a level-1 table keeps the tree well formed. -/
theorem tree_setLeaf {tables : Tables} (root table entry : Nat) (index : Fin 512)
    (path : List (Fin 512)) (tree : Tree tables root) (full : path.length = 3)
    (place : walk (links tables) root path = some table) :
    Tree (setEntry tables table index entry) root where
  aligned := tree.aligned
  separated := separated_frame
    (walk_setLeaf root table entry index path tree.separated full place) tree.separated
  notNull := by
    intro tested reached short toReached
    rw [walk_setLeaf root table entry index path tree.separated full place _ short]
      at toReached
    exact tree.notNull tested reached short toReached

/-- Writing an entry of the level-1 table of a page changes the translation of
exactly that page. -/
theorem translation_setLeaf {tables : Tables} (root table entry page : Nat)
    (separated : Separated (links tables) root 3) (inside : page < pageCount)
    (place : walk (links tables) root (pagePath page) = some table) :
    translation (setEntry tables table (pageSlot page) entry) root =
      Function.update (translation tables root) page (readEntry entry) := by
  funext tested
  by_cases bounded : tested < pageCount
  · rw [translation, if_pos bounded,
      walk_setLeaf root table entry _ (pagePath page) separated rfl place _ (by simp [pagePath])]
    by_cases same : tested = page
    · subst same
      simp [place, setEntry]
    · rw [Function.update_of_ne same, translation, if_pos bounded]
      cases reached : walk (links tables) root (pagePath tested) with
      | none => rfl
      | some node =>
        have other : ¬(node = table ∧ pageSlot tested = pageSlot page) := by
          rintro ⟨rfl, sameSlot⟩
          have samePath := separated (pagePath tested) (pagePath page) node (by simp [pagePath])
            (by simp [pagePath]) reached place
          exact same (page_of_indices tested page bounded inside samePath sameSlot)
        simp only [Option.bind_some, setEntry, if_neg other]
  · have different : tested ≠ page := by omega
    rw [Function.update_of_ne different, translation, translation, if_neg bounded, if_neg bounded]

/-- The state between two page table operations: a well-formed tree and a
supply of unused pages. -/
structure Sound (pml : Pml) (root : Nat) : Prop where
  tree : Tree pml.tables root
  fresh : Fresh pml root

/-- What getting or allocating tables does to a sound state: it stays sound,
every walk and every translation is kept, and nothing is freed. -/
structure Grown (pml next : Pml) (root : Nat) : Prop where
  sound : Sound next root
  walks : ∀ path table, path.length ≤ 3 → walk (links pml.tables) root path = some table →
    walk (links next.tables) root path = some table
  translations : translation next.tables root = translation pml.tables root
  freed : next.freed = pml.freed

/-- A freshly allocated table: attached at one absent entry, without links. -/
structure Attached (pml : Pml) (tables : Tables) (root table fresh : Nat) (index : Fin 512)
    (path : List (Fin 512)) : Prop where
  inside : path.length < 3
  place : walk (links pml.tables) root path = some table
  absent : links pml.tables table index = none
  added : links tables table index = some fresh
  cleared : ∀ slot, tables fresh slot = 0
  same : ∀ node slot, node ≠ fresh → (node ≠ table ∨ slot ≠ index) →
    tables node slot = pml.tables node slot
  unreached : ∀ other, other.length ≤ 3 → walk (links pml.tables) root other ≠ some fresh

/-- The walks after attaching a fresh table. -/
theorem attached_walks {pml : Pml} {tables : Tables} {root table fresh : Nat} {index : Fin 512}
    {path : List (Fin 512)} (separated : Separated (links pml.tables) root 3)
    (attached : Attached pml tables root table fresh index path) (tested : List (Fin 512))
    (node : Nat) (short : tested.length ≤ 3) :
    walk (links tables) root tested = some node ↔
      walk (links pml.tables) root tested = some node ∨ (tested = path ++ [index] ∧ node = fresh) := by
  have childless : ∀ slot, links tables fresh slot = none := by
    intro slot
    rw [links, attached.cleared slot]
    rfl
  have same : ∀ node slot, node ≠ fresh → (node ≠ table ∨ slot ≠ index) →
      links tables node slot = links pml.tables node slot := by
    intro node slot other elsewhere
    rw [links, links, attached.same node slot other elsewhere]
  exact walk_attach separated attached.inside attached.place
    attached.absent attached.added childless same attached.unreached tested node short

/-- Attaching a fresh table changes no translation: the new level-1 table, if it
is one, is empty, and the written entry is not a level-1 entry. -/
theorem attached_translation {pml : Pml} {tables : Tables} {root table fresh : Nat}
    {index : Fin 512} {path : List (Fin 512)} (separated : Separated (links pml.tables) root 3)
    (attached : Attached pml tables root table fresh index path) :
    translation tables root = translation pml.tables root := by
  have walks := attached_walks separated attached
  funext page
  rw [translation, translation]
  split
  · have short : (pagePath page).length ≤ 3 := by simp [pagePath]
    cases old : walk (links pml.tables) root (pagePath page) with
    | some node =>
      rw [(walks (pagePath page) node short).mpr (.inl old)]
      have notFresh : node ≠ fresh := by
        rintro rfl
        exact attached.unreached (pagePath page) short old
      have notTable : node ≠ table := by
        rintro rfl
        have same := separated (pagePath page) path node short (by have := attached.inside; omega)
          old attached.place
        have inside := attached.inside
        rw [← same] at inside
        simp [pagePath] at inside
      simp only [Option.bind_some, attached.same node _ notFresh (.inl notTable)]
    | none =>
      cases new : walk (links tables) root (pagePath page) with
      | none => rfl
      | some node =>
        rcases (walks (pagePath page) node short).mp new with impossible | ⟨_, rfl⟩
        · rw [old] at impossible
          contradiction
        · simp only [Option.bind_some, Option.bind_none, attached.cleared]
          rfl
  · rfl

/-- Attaching a fresh table keeps the tree well formed. -/
theorem attached_tree {pml : Pml} {tables : Tables} {root table fresh : Nat} {index : Fin 512}
    {path : List (Fin 512)} (tree : Tree pml.tables root) (notNull : fresh ≠ 0)
    (attached : Attached pml tables root table fresh index path) : Tree tables root where
  aligned := tree.aligned
  separated := separated_attach tree.separated
    attached.unreached (attached_walks tree.separated attached)
  notNull := by
    intro tested node short reached
    rcases (attached_walks tree.separated attached tested node short).mp reached with old | ⟨_, rfl⟩
    · exact tree.notNull tested node short old
    · exact notNull

/-- Allocating a table at an absent entry attaches the first supplied page. -/
theorem allocate_attached {pml : Pml} {root table fresh flags : Nat} {index : Fin 512}
    {rest : List Nat} {path : List (Fin 512)} (sound : Sound pml root) (small : flags < 2 ^ 12)
    (inside : path.length < 3) (place : walk (links pml.tables) root path = some table)
    (absent : present (pml.tables table index) = false) (supplied : pml.supply = fresh :: rest) :
    Attached pml (setEntry (clearTable pml.tables fresh) table index
      (pageEntryCreate (higherToLower fresh) flags)) root table fresh index path := by
  have member : fresh ∈ pml.supply := by simp [supplied]
  obtain ⟨aligned, higher, bounded⟩ := sound.fresh.pages fresh member
  have unreached := sound.fresh.unused fresh member
  have notFresh : table ≠ fresh := by
    rintro rfl
    exact unreached path (by omega) place
  refine ⟨inside, place, ?_, ?_, ?_, ?_, unreached⟩
  · simp [links, absent]
  · simp only [links, setEntry, and_self, if_true, create_present]
    rw [create_address small aligned higher bounded]
  · intro slot
    simp [setEntry, clearTable, notFresh.symm]
  · intro node slot other elsewhere
    have unwritten : ¬(node = table ∧ slot = index) := by tauto
    simp only [setEntry, if_neg unwritten, clearTable, if_neg other]

/-- A page of the higher half is not `NULL`. -/
theorem higher_ne_zero {page : Nat} (higher : vmmHigherHalfBase ≤ page) : page ≠ 0 := by
  rw [vmmHigherHalfBase] at higher
  omega

/-- Getting or allocating a table below a reached table grows the tree and
extends the walk to the returned table. -/
theorem getOrAllocate_grown (pml next : Pml) (root table child flags : Nat) (index : Fin 512)
    (path : List (Fin 512)) (sound : Sound pml root) (small : flags < 2 ^ 12)
    (inside : path.length < 3) (place : walk (links pml.tables) root path = some table)
    (taken : pmlGetOrAllocate pml table index flags = some (child, next)) :
    Grown pml next root ∧ walk (links next.tables) root (path ++ [index]) = some child := by
  rw [pmlGetOrAllocate] at taken
  split at taken
  · rename_i here
    simp only [Option.some.injEq, Prod.mk.injEq] at taken
    obtain ⟨rfl, rfl⟩ := taken
    refine ⟨⟨sound, fun _ _ _ reached => reached, rfl, rfl⟩, ?_⟩
    rw [walk_concat, place, Option.bind_some, links, if_pos here]
  · rename_i absent
    split at taken
    · contradiction
    · rename_i fresh rest supplied
      simp only [Option.some.injEq, Prod.mk.injEq] at taken
      obtain ⟨rfl, rfl⟩ := taken
      have attached := allocate_attached sound small inside place (by simpa using absent) supplied
      have walks := attached_walks sound.tree.separated attached
      have distinct := sound.fresh.distinct
      rw [supplied, List.nodup_cons] at distinct
      have kept : ∀ page ∈ rest, page ∈ pml.supply := by
        intro page member
        simp [supplied, member]
      have higher := (sound.fresh.pages fresh (by simp [supplied])).2.1
      refine ⟨⟨⟨?_, ?_⟩, ?_, ?_, rfl⟩, ?_⟩
      · exact attached_tree sound.tree (higher_ne_zero higher) attached
      · refine ⟨distinct.2, fun page member => sound.fresh.pages page (kept page member), ?_⟩
        intro page member tested short reached
        rcases (walks tested page short).mp reached with old | ⟨_, rfl⟩
        · exact sound.fresh.unused page (kept page member) tested short old
        · exact distinct.1 member
      · exact fun tested node short reached => (walks tested node short).mpr (.inl reached)
      · exact attached_translation sound.tree.separated attached
      · exact (walks (path ++ [index]) fresh (by simp; omega)).mpr (.inr ⟨rfl, rfl⟩)

/-- Getting or allocating a table takes at most one page, and only fails without
a page to take. -/
theorem getOrAllocate_total (pml : Pml) (table flags : Nat) (index : Fin 512)
    (supplied : 0 < pml.supply.length) : ∃ child next,
      pmlGetOrAllocate pml table index flags = some (child, next) ∧
        pml.supply.length ≤ next.supply.length + 1 := by
  rw [pmlGetOrAllocate]
  split
  · exact ⟨_, pml, rfl, by omega⟩
  · split
    · rename_i empty
      simp [empty] at supplied
    · rename_i fresh rest taken
      exact ⟨fresh, _, rfl, by simp [taken]⟩

/-- Growing twice is growing. -/
theorem Grown.trans {first second third : Pml} {root : Nat} (before : Grown first second root)
    (after : Grown second third root) : Grown first third root where
  sound := after.sound
  walks path table short reached := after.walks path table short (before.walks path table short reached)
  translations := after.translations.trans before.translations
  freed := after.freed.trans before.freed

/-- Writing an entry of a level-1 table keeps the state sound, whatever is
logged as freed. -/
theorem sound_setLeaf {pml : Pml} (root table entry : Nat) (index : Fin 512)
    (path : List (Fin 512)) (freed : List Nat) (sound : Sound pml root) (full : path.length = 3)
    (place : walk (links pml.tables) root path = some table) :
    Sound { pml with tables := setEntry pml.tables table index entry, freed := freed } root where
  tree := tree_setLeaf root table entry index path sound.tree full place
  fresh := by
    refine ⟨sound.fresh.distinct, sound.fresh.pages, ?_⟩
    intro page member tested short
    rw [walk_setLeaf root table entry index path sound.tree.separated full place _ short]
    exact sound.fresh.unused page member tested short

/-- A built entry reads as the frame and flags it was built from. -/
theorem read_create (physAddr flags : Nat) (small : flags < 2 ^ 12) :
    readEntry (pageEntryCreate physAddr flags) =
      some (physAddr / pageSize % 2 ^ 40, flags ||| pagePresent) := by
  rw [readEntry, if_pos (create_present physAddr flags), entryFrame, create_physical _ _ small,
    create_flags _ _ small]
  simp [pageSize]

/-- The flags given to new tables stay below bit 12. -/
theorem tableFlags_small {flags : Nat} (small : flags < 2 ^ 12) : tableFlags flags < 2 ^ 12 :=
  Nat.or_lt_two_pow (Nat.or_lt_two_pow small (by decide)) (by decide)

/-- The flags of a level-3 table's entry stay below bit 12. -/
theorem topFlags_small {flags : Nat} (small : flags < 2 ^ 12) : topFlags flags < 2 ^ 12 :=
  Nat.lt_of_le_of_lt Nat.and_le_left (tableFlags_small small)

/-- Mapping one page gets or allocates three tables, one below the other, and
writes the entry. -/
theorem mapPage_steps {pml next : Pml} {root virtAddr physAddr flags : Nat}
    (taken : pmlMapPage pml root virtAddr physAddr flags = some next) :
    ∃ level3 first level2 second level1 third,
      pmlGetOrAllocate pml root (pmlGetIndex virtAddr 4) (topFlags flags) = some (level3, first) ∧
      pmlGetOrAllocate first level3 (pmlGetIndex virtAddr 3) (tableFlags flags) = some (level2, second) ∧
      pmlGetOrAllocate second level2 (pmlGetIndex virtAddr 2) (tableFlags flags) = some (level1, third) ∧
      next = { third with
        tables := setEntry third.tables level1 (pmlGetIndex virtAddr 1)
          (pageEntryCreate physAddr flags) } := by
  rw [pmlMapPage, Option.bind_eq_bind, Option.bind_eq_some_iff] at taken
  obtain ⟨⟨level3, first⟩, toLevel3, taken⟩ := taken
  simp only [Option.bind_eq_some_iff] at taken
  obtain ⟨⟨level2, second⟩, toLevel2, ⟨level1, third⟩, toLevel1, taken⟩ := taken
  exact ⟨level3, first, level2, second, level1, third, toLevel3, toLevel2, toLevel1,
    (Option.some.inj taken).symm⟩

/-- Mapping one page rewrites the translation of that page only. -/
theorem mapPage_spec (pml next : Pml) (root virtAddr physAddr flags : Nat) (sound : Sound pml root)
    (small : flags < 2 ^ 12) (taken : pmlMapPage pml root virtAddr physAddr flags = some next) :
    Sound next root ∧ next.freed = pml.freed ∧ translation next.tables root =
      Function.update (translation pml.tables root) (pageNumber virtAddr)
        (some (physAddr / pageSize % 2 ^ 40, flags ||| pagePresent)) := by
  have topSmall := topFlags_small small
  obtain ⟨level3, first, level2, second, level1, third, toLevel3, toLevel2, toLevel1, written⟩ :=
    mapPage_steps taken
  obtain ⟨grownFirst, walkFirst⟩ := getOrAllocate_grown pml first root root level3 _ _ [] sound
    topSmall (by simp) rfl toLevel3
  obtain ⟨grownSecond, walkSecond⟩ := getOrAllocate_grown first second root level3 level2 _ _ _
    grownFirst.sound (tableFlags_small small) (by simp) walkFirst toLevel2
  obtain ⟨grownThird, walkThird⟩ := getOrAllocate_grown second third root level2 level1 _ _ _
    grownSecond.sound (tableFlags_small small) (by simp) walkSecond toLevel1
  have grown : Grown pml third root := (grownFirst.trans grownSecond).trans grownThird
  have place : walk (links third.tables) root (pagePath (pageNumber virtAddr)) = some level1 := by
    rw [← path_address]
    exact walkThird
  refine ⟨?_, ?_, ?_⟩
  · rw [written]
    exact sound_setLeaf root level1 _ _ _ third.freed grown.sound rfl place
  · rw [written]
    exact grown.freed
  · rw [written, slot_address, translation_setLeaf root level1 _ _
      grown.sound.tree.separated (page_lt virtAddr) place, grown.translations,
      read_create physAddr flags small]

/-- Mapping one page takes at most three pages for tables. -/
theorem mapPage_total (pml : Pml) (root virtAddr physAddr flags : Nat)
    (supplied : 3 ≤ pml.supply.length) : ∃ next,
      pmlMapPage pml root virtAddr physAddr flags = some next ∧
        pml.supply.length ≤ next.supply.length + 3 := by
  obtain ⟨level3, first, toLevel3, leftFirst⟩ :=
    getOrAllocate_total pml root (topFlags flags) (pmlGetIndex virtAddr 4) (by omega)
  obtain ⟨level2, second, toLevel2, leftSecond⟩ :=
    getOrAllocate_total first level3 (tableFlags flags) (pmlGetIndex virtAddr 3) (by omega)
  obtain ⟨level1, third, toLevel1, leftThird⟩ :=
    getOrAllocate_total second level2 (tableFlags flags) (pmlGetIndex virtAddr 2) (by omega)
  refine ⟨{ third with
    tables := setEntry third.tables level1 (pmlGetIndex virtAddr 1)
      (pageEntryCreate physAddr flags) }, ?_, by simp only; omega⟩
  rw [pmlMapPage, toLevel3]
  simp only [Option.bind_eq_bind, Option.bind_some, toLevel2, toLevel1]

/-- A translated page has a level-1 table, and its entry there is present. -/
theorem translated_place {tables : Tables} {root page : Nat}
    (mapped : (translation tables root page).isSome) : ∃ table,
      walk (links tables) root (pagePath page) = some table ∧
        present (tables table (pageSlot page)) = true ∧
        translation tables root page = some (entryFrame (tables table (pageSlot page)),
          entryFlags (tables table (pageSlot page))) := by
  rw [translation] at mapped ⊢
  split at mapped
  · rename_i inside
    rw [if_pos inside]
    cases reached : walk (links tables) root (pagePath page) with
    | none => simp [reached] at mapped
    | some table =>
      refine ⟨table, rfl, ?_⟩
      rw [reached, Option.bind_some, readEntry] at mapped
      split at mapped
      · rename_i here
        exact ⟨here, by rw [Option.bind_some, readEntry, if_pos here]⟩
      · contradiction
  · contradiction

/-- Unmapping one mapped page removes the translation of that page only. -/
theorem unmapPage_spec {pml : Pml} {root virtAddr : Nat} (sound : Sound pml root)
    (mapped : (translation pml.tables root (pageNumber virtAddr)).isSome) :
    Sound (pmlUnmapPage pml root virtAddr) root ∧
      translation (pmlUnmapPage pml root virtAddr).tables root =
        Function.update (translation pml.tables root) (pageNumber virtAddr) none := by
  obtain ⟨table, place, _, _⟩ := translated_place mapped
  have leaf := leafTable_of_walk place
  constructor
  · rw [pmlUnmapPage, leaf]
    exact sound_setLeaf root table 0 _ _ _ sound rfl place
  · simp only [pmlUnmapPage, leaf, slot_address]
    rw [translation_setLeaf root table 0 _ sound.tree.separated (page_lt virtAddr) place]
    rfl

/-- The owned bit of an entry is among its flags. -/
theorem flags_owned (entry : Nat) : entryFlags entry &&& pageOwned = entry &&& pageOwned := by
  rw [entryFlags, Nat.and_assoc]
  exact congrArg (entry &&& ·) (by decide)

/-- The owned bit alone is either clear or the whole mask. -/
theorem owned_cases (entry : Nat) : entry &&& pageOwned = 0 ∨ entry &&& pageOwned = pageOwned := by
  have mask : pageOwned = 2 ^ 9 := by decide
  rw [mask, and_single_bit]
  cases entry.testBit 9 with
  | false => exact .inl rfl
  | true => exact .inr rfl

/-- Flags of a page after `pml_change_flags`: the requested ones, and the owned
bit if the page had it. -/
def protectFlags (flags old : Nat) : Nat := flags ||| (old &&& pageOwned) ||| pagePresent

/-- Changing the flags of one mapped page keeps its frame and its owned bit,
replaces its other flags, and concerns no other page. -/
theorem changeFlagsPage_spec {pml : Pml} {root virtAddr flags : Nat} (sound : Sound pml root)
    (small : flags < 2 ^ 12)
    (mapped : (translation pml.tables root (pageNumber virtAddr)).isSome) :
    Sound (pmlChangeFlagsPage pml root virtAddr flags) root ∧
      (pmlChangeFlagsPage pml root virtAddr flags).freed = pml.freed ∧
      translation (pmlChangeFlagsPage pml root virtAddr flags).tables root =
        Function.update (translation pml.tables root) (pageNumber virtAddr)
          ((translation pml.tables root (pageNumber virtAddr)).map
            (fun old => (old.1, protectFlags flags old.2))) := by
  obtain ⟨table, place, _, read⟩ := translated_place mapped
  have leaf := leafTable_of_walk place
  generalize found : pml.tables table (pageSlot (pageNumber virtAddr)) = entry at read
  have finalFlags : (if entry &&& pageOwned ≠ 0 then flags ||| pageOwned else flags) =
      flags ||| (entry &&& pageOwned) := by
    rcases owned_cases entry with clear | set
    · simp [clear]
    · rw [set, if_pos (by decide)]
  have finalSmall : flags ||| (entry &&& pageOwned) < 2 ^ 12 :=
    Nat.or_lt_two_pow small (Nat.lt_of_le_of_lt Nat.and_le_right (by decide))
  have rebuilt : readEntry (pageEntryCreate (higherToLower (pageEntryGetAddress entry))
      (flags ||| (entry &&& pageOwned))) = some (entryFrame entry, protectFlags flags (entryFlags entry)) := by
    rw [readEntry, if_pos (create_present _ _), entryFrame, rebuild_physical _ _ finalSmall,
      create_flags _ _ finalSmall, protectFlags, flags_owned, entryFrame]
  refine ⟨?_, ?_, ?_⟩
  · rw [pmlChangeFlagsPage, leaf]
    exact sound_setLeaf root table _ _ _ pml.freed sound rfl place
  · rfl
  · simp only [pmlChangeFlagsPage, leaf, slot_address, found, finalFlags]
    rw [translation_setLeaf root table _ _ sound.tree.separated (page_lt virtAddr) place,
      rebuilt, read, Option.map_some]

end Asym.PageTree
