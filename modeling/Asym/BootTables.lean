import Asym.PageRefinement
import Mathlib.Data.List.Nodup

/-!
# The page tables of the boot loader

A model of the boot loader's `pml.c` and `vm.c`. The tables lie where the firmware gave pages for them,
and the boot loader reaches them there. The lower half of its root is the firmware's, which may use
other kinds of entries. In the upper half the boot loader maps the whole memory map, and what
`vm_alloc_pages` returns.

Seen from the upper half, which is where the kernel will look at them, and without the lower half of
the root, these tables are tables of the kernel. Each level of the boot loader does there what the
kernel does at that level with the same flags.

A wrong alignment is printed and then ignored, so printing is left out. The firmware's answers come
from a supply of pages, which are distinct, aligned, and in use for nothing else.
-/

namespace Asym.BootTables

open MachineWords PhysicalMemory PageEntries PageTables LinkedWalks PageTree PageRefinement

/-! ## The source -/

/-- The tables by their physical addresses, and the pages that the firmware gives next. -/
structure Boot where
  tables : Tables
  supply : List Nat

/-- `pml_entry_create`. -/
def pmlEntryCreate (address flags : Nat) : Nat :=
  (((address >>> 12) &&& 0x000000FFFFFFFFFF) <<< 12) ||| (flags ||| pagePresent)

/-- `pml_new`. -/
def pmlNew (boot : Boot) : Option (Nat × Boot) :=
  match boot.supply with
  | [] => none
  | address :: supply => some (address, ⟨clearTable boot.tables address, supply⟩)

/-- One level of `pml_map`: the table of an entry, or a new one. -/
def pmlLevel (boot : Boot) (table : Nat) (index : Fin 512) (flags : Nat) : Option (Nat × Boot) :=
  let entry := boot.tables table index
  if entry &&& pagePresent = 0 then
    match boot.supply with
    | [] => none
    | address :: supply => some (address,
        ⟨setEntry (clearTable boot.tables address) table index (pmlEntryCreate address flags), supply⟩)
  else some (entryPhysical entry, boot)

/-- An index of `pml_map`. -/
def indexOf (indexer : Nat) : Fin 512 := ⟨indexer &&& 0x1ff, Nat.lt_succ_of_le Nat.and_le_right⟩

/-- `pml_map`. -/
def pmlMap (boot : Boot) (pageTable virtAddr physAddr flags : Nat) : Option Boot := do
  let pIndexer := virtAddr >>> 12
  let ptIndexer := pIndexer >>> 9
  let pdIndexer := ptIndexer >>> 9
  let pdpIndexer := pdIndexer >>> 9
  let (pdp, first) ← pmlLevel boot pageTable (indexOf pdpIndexer) flags
  let (pd, second) ← pmlLevel first pdp (indexOf pdIndexer) flags
  let (pt, third) ← pmlLevel second pd (indexOf ptIndexer) flags
  some { third with tables := setEntry third.tables pt (indexOf pIndexer) (pmlEntryCreate physAddr flags) }

/-- `pml_map_pages`. -/
def pmlMapPages (boot : Boot) (pageTable virtAddr physAddr pageAmount flags : Nat) : Option Boot :=
  (List.range pageAmount).foldlM (fun boot page =>
    pmlMap boot pageTable (add virtAddr (page * pageSize)) (add physAddr (page * pageSize)) flags) boot

/-- The loop of `vm_init` over the lower half of the root. -/
def copyLower (tables : Tables) (cr3 pageTable : Nat) : Tables := fun tested slot =>
  if tested = pageTable ∧ slot.val < 256 then tables cr3 slot else tables tested slot

/-- An entry of the lower half. -/
theorem copyLower_low (tables : Tables) (cr3 pageTable : Nat) {slot : Fin 512} (low : slot.val < 256) :
    copyLower tables cr3 pageTable pageTable slot = tables cr3 slot := if_pos ⟨rfl, low⟩

/-- An entry of the upper half. -/
theorem copyLower_high (tables : Tables) (cr3 pageTable : Nat) {slot : Fin 512} (high : ¬slot.val < 256) :
    copyLower tables cr3 pageTable pageTable slot = tables pageTable slot := if_neg fun both => high both.2

/-- `vm_init`, with the root of the firmware and the memory map. -/
def vmInit (boot : Boot) (cr3 : Nat) (memoryMap : List MemoryDescriptor) : Option (Nat × Boot) := do
  let (pageTable, created) ← pmlNew boot
  let mapped ← memoryMap.foldlM (fun boot desc =>
      pmlMapPages boot pageTable (add vmmHigherHalfBase desc.physicalStart) desc.physicalStart desc.amountOfPages
        pageWrite)
    { created with tables := copyLower created.tables cr3 pageTable }
  some (pageTable, mapped)

/-- `vm_alloc_pages`, with the address that the firmware returns. -/
def vmAllocPages (boot : Boot) (pageTable physAddr virtAddr pageAmount : Nat) : Option Boot :=
  pmlMapPages boot pageTable virtAddr physAddr pageAmount pageWrite

/-! ## What the processor sees -/

/-- The table below an entry. -/
def bootLinks (tables : Tables) (table : Nat) (index : Fin 512) : Option Nat :=
  if present (tables table index) then some (entryPhysical (tables table index)) else none

/-- The frame and the flags of a page, by the tables of the boot loader. -/
def bootTranslation (tables : Tables) (pageTable : Nat) : FlatMap := fun page =>
  if page < pageCount then
    (walk (bootLinks tables) pageTable (pagePath page)).bind fun table => readEntry (tables table (pageSlot page))
  else none

/-- The first page of the upper half. -/
def upperPage : Nat := 2 ^ 35

/-! ## The tables in the upper half -/

/-- An entry that is not seen: one of the lower half of the root, or of no word. -/
def Hidden (pageTable seenAt : Nat) (slot : Fin 512) : Prop :=
  wordSize ≤ seenAt ∨ (seenAt = lowerToHigher pageTable ∧ slot.val < 256)

instance (pageTable seenAt : Nat) (slot : Fin 512) : Decidable (Hidden pageTable seenAt slot) :=
  inferInstanceAs (Decidable (_ ∨ _))

/-- The tables as they are seen in the upper half, without the lower half of the root. -/
def seen (pageTable : Nat) (tables : Tables) : Tables := fun seenAt slot =>
  if Hidden pageTable seenAt slot then 0 else tables (higherToLower seenAt) slot

/-- The boot loader's state as one of the kernel. -/
abbrev view (pageTable : Nat) (boot : Boot) : Pml where
  tables := seen pageTable boot.tables
  supply := boot.supply.map lowerToHigher
  freed := []

/-- A place in the upper half. -/
theorem higher_lower {address : Nat} (word : address < wordSize) : higherToLower (lowerToHigher address) = address := by
  simp only [higherToLower, lowerToHigher, add, sub, vmmHigherHalfBase, wordSize] at *
  omega

/-- Different places stay different. -/
theorem lower_inj {address other : Nat} (word : address < wordSize) (otherWord : other < wordSize) :
    lowerToHigher address = lowerToHigher other ↔ address = other := by
  constructor
  · intro same
    rw [← higher_lower word, same, higher_lower otherWord]
  · exact congrArg lowerToHigher

/-- Where a place in the upper half is. -/
theorem lower_iff {seenAt address : Nat} (seenWord : seenAt < wordSize) (word : address < wordSize) :
    higherToLower seenAt = address ↔ seenAt = lowerToHigher address := by
  simp only [higherToLower, lowerToHigher, add, sub, vmmHigherHalfBase, wordSize] at *
  omega

/-- It is a word. -/
theorem lowerToHigher_word (address : Nat) : lowerToHigher address < wordSize := by
  rw [lowerToHigher, add]
  exact Nat.mod_lt _ (by decide)

variable {boot next : Boot} {pageTable table : Nat}

/-- Which entries of a table are seen. -/
theorem shown {index : Fin 512} (word : table < wordSize) (pageTableWord : pageTable < wordSize)
    (upper : table = pageTable → 256 ≤ index.val) : ¬Hidden pageTable (lowerToHigher table) index := by
  rintro (large | ⟨root, lower⟩)
  · exact Nat.not_le.mpr (lowerToHigher_word table) large
  · exact Nat.not_le.mpr lower (upper ((lower_inj word pageTableWord).mp root))

/-- An entry that is seen. -/
theorem seen_at (tables : Tables) {index : Fin 512} (word : table < wordSize)
    (pageTableWord : pageTable < wordSize) (upper : table = pageTable → 256 ≤ index.val) :
    seen pageTable tables (lowerToHigher table) index = tables table index := by
  rw [seen, if_neg (shown word pageTableWord upper), higher_lower word]

/-- An entry that is written is seen. -/
theorem seen_setEntry (tables : Tables) {index : Fin 512} (entry : Nat) (word : table < wordSize)
    (pageTableWord : pageTable < wordSize) (upper : table = pageTable → 256 ≤ index.val) :
    seen pageTable (setEntry tables table index entry) =
      setEntry (seen pageTable tables) (lowerToHigher table) index entry := by
  funext tested slot
  simp only [seen, setEntry]
  by_cases hidden : Hidden pageTable tested slot
  · have other : ¬(tested = lowerToHigher table ∧ slot = index) := by
      intro both
      rw [both.1, both.2] at hidden
      exact shown word pageTableWord upper hidden
    rw [if_pos hidden, if_neg other, if_pos hidden]
  · have seenWord : tested < wordSize := Nat.not_le.mp fun large => hidden (.inl large)
    simp only [if_neg hidden, lower_iff seenWord word]

/-- A table that is cleared is seen so. -/
theorem seen_clearTable (tables : Tables) (word : table < wordSize) :
    seen pageTable (clearTable tables table) = clearTable (seen pageTable tables) (lowerToHigher table) := by
  funext tested slot
  simp only [seen, clearTable]
  by_cases hidden : Hidden pageTable tested slot
  · simp only [if_pos hidden, ite_self]
  · have seenWord : tested < wordSize := Nat.not_le.mp fun large => hidden (.inl large)
    simp only [if_neg hidden, lower_iff seenWord word]

/-! ## One level -/

/-- The physical addresses of tables. -/
structure Words (pageTable : Nat) (boot : Boot) : Prop where
  pageTable : pageTable < wordSize
  supply : ∀ page ∈ boot.supply, page < wordSize

/-- One level does in the upper half what the kernel does at one. -/
theorem level_view (words : Words pageTable boot) {index : Fin 512} (word : table < wordSize)
    (upper : table = pageTable → 256 ≤ index.val) (flags : Nat) :
    pmlGetOrAllocate (view pageTable boot) (lowerToHigher table) index flags =
      (pmlLevel boot table index flags).map fun level => (lowerToHigher level.1, view pageTable level.2) := by
  have here := seen_at boot.tables word words.pageTable upper
  simp only [pmlGetOrAllocate, pmlLevel, view, here, present]
  by_cases absent : boot.tables table index &&& pagePresent = 0
  · rw [if_neg (by simp [absent])]
    simp only [if_pos absent]
    cases supplied : boot.supply with
    | nil => simp only [List.map_nil, Option.map_none]
    | cons address supply =>
      have addressWord := words.supply address (supplied ▸ List.mem_cons_self)
      simp only [List.map_cons, Option.map_some, higher_lower addressWord,
        seen_setEntry _ _ word words.pageTable upper, seen_clearTable _ addressWord]
      rfl
  · rw [if_pos (by simpa using absent)]
    simp only [if_neg absent, Option.map_some]
    rfl

/-- Between two operations: tables of the kernel are seen, and the firmware's pages are new. -/
structure Built (pageTable : Nat) (boot : Boot) : Prop where
  words : Words pageTable boot
  sound : Sound (view pageTable boot) (lowerToHigher pageTable)

/-- The lower half of the root is the same. -/
def LowerKept (pageTable : Nat) (before after : Boot) : Prop :=
  ∀ slot : Fin 512, slot.val < 256 → after.tables pageTable slot = before.tables pageTable slot

/-- Tables that grew. -/
structure Larger (pageTable : Nat) (before after : Boot) : Prop where
  words : Words pageTable after
  grown : Grown (view pageTable before) (view pageTable after) (lowerToHigher pageTable)
  lower : LowerKept pageTable before after

/-- Growing twice is growing. -/
theorem Larger.trans {last : Boot} (first : Larger pageTable boot next) (second : Larger pageTable next last) :
    Larger pageTable boot last where
  words := second.words
  grown := first.grown.trans second.grown
  lower slot low := (second.lower slot low).trans (first.lower slot low)

/-- The physical address of an entry is a word. -/
theorem entryPhysical_word (entry : Nat) : entryPhysical entry < wordSize := by
  rw [entryPhysical]
  exact Nat.lt_of_le_of_lt Nat.and_le_right (by decide)

/-- A table that a level returns is a word, and the level keeps the lower half. -/
theorem level_kept (built : Built pageTable boot) {index : Fin 512} (upper : table = pageTable → 256 ≤ index.val)
    {flags child : Nat} (taken : pmlLevel boot table index flags = some (child, next)) :
    child < wordSize ∧ Words pageTable next ∧ LowerKept pageTable boot next := by
  rw [pmlLevel] at taken
  by_cases absent : boot.tables table index &&& pagePresent = 0
  · simp only [if_pos absent] at taken
    cases supplied : boot.supply with
    | nil =>
      rw [supplied] at taken
      cases taken
    | cons address supply =>
      rw [supplied] at taken
      obtain ⟨rfl, rfl⟩ := Prod.mk.inj (Option.some.inj taken)
      have given (page : Nat) (member : page ∈ address :: supply) : page < wordSize :=
        built.words.supply page (supplied ▸ member)
      refine ⟨given address List.mem_cons_self, ⟨built.words.pageTable, ?_⟩, ?_⟩
      · exact fun page member => given page (List.mem_cons_of_mem address member)
      · intro slot low
        have notRoot : pageTable ≠ address := by
          rintro rfl
          refine built.sound.fresh.unused (lowerToHigher pageTable) ?_ [] (Nat.zero_le 3) rfl
          exact List.mem_map_of_mem (supplied ▸ List.mem_cons_self)
        have notWritten : ¬(pageTable = table ∧ slot = index) := by
          rintro ⟨rfl, rfl⟩
          exact Nat.not_le.mpr low (upper rfl)
        simp only [setEntry, clearTable, if_neg notWritten, if_neg notRoot]
  · simp only [if_neg absent] at taken
    obtain ⟨rfl, rfl⟩ := Prod.mk.inj (Option.some.inj taken)
    exact ⟨entryPhysical_word _, built.words, fun _ _ => rfl⟩

/-- One level grows the tables and goes down to the table that it returns. -/
theorem level_larger (built : Built pageTable boot) {index : Fin 512} {path : List (Fin 512)} {flags child : Nat}
    (small : flags < 2 ^ 12) (inside : path.length < 3) (word : table < wordSize)
    (upper : path = [] → 256 ≤ index.val)
    (place : walk (links (seen pageTable boot.tables)) (lowerToHigher pageTable) path = some (lowerToHigher table))
    (taken : pmlLevel boot table index flags = some (child, next)) :
    Larger pageTable boot next ∧ child < wordSize ∧
      walk (links (seen pageTable next.tables)) (lowerToHigher pageTable) (path ++ [index]) =
        some (lowerToHigher child) := by
  have upperTable : table = pageTable → 256 ≤ index.val := by
    rintro rfl
    exact upper (built.sound.tree.separated path [] _ (Nat.le_of_lt inside) (Nat.zero_le 3) place rfl)
  obtain ⟨childWord, words, lower⟩ := level_kept built upperTable taken
  have viewed : pmlGetOrAllocate (view pageTable boot) (lowerToHigher table) index flags =
      some (lowerToHigher child, view pageTable next) := by
    rw [level_view built.words word upperTable, taken, Option.map_some]
  obtain ⟨grown, walked⟩ := getOrAllocate_grown _ _ _ _ _ flags index path built.sound small inside place viewed
  exact ⟨⟨words, grown, lower⟩, childWord, walked⟩

/-- Grown tables are built. -/
theorem Larger.built (larger : Larger pageTable boot next) : Built pageTable next :=
  ⟨larger.words, larger.grown.sound⟩

/-- A link of a table that is seen. -/
theorem links_seen (tables : Tables) {index : Fin 512} (word : table < wordSize) (pageTableWord : pageTable < wordSize)
    (upper : table = pageTable → 256 ≤ index.val) :
    links (seen pageTable tables) (lowerToHigher table) index = (bootLinks tables table index).map lowerToHigher := by
  rw [links, seen_at tables word pageTableWord upper, bootLinks]
  split_ifs
  · rfl
  · rfl

/-- A walk below the root is seen. -/
theorem walk_seen (built : Built pageTable boot) {before after : List (Fin 512)} (word : table < wordSize)
    (inside : before.length + after.length ≤ 3)
    (upper : before = [] → ∀ index ∈ after.head?, 256 ≤ index.val)
    (place : walk (links (seen pageTable boot.tables)) (lowerToHigher pageTable) before = some (lowerToHigher table)) :
    walk (links (seen pageTable boot.tables)) (lowerToHigher table) after =
        (walk (bootLinks boot.tables) table after).map lowerToHigher ∧
      ∀ last, walk (bootLinks boot.tables) table after = some last → last < wordSize := by
  induction after generalizing before table with
  | nil =>
    refine ⟨rfl, fun last reached => ?_⟩
    obtain rfl := Option.some.inj reached
    exact word
  | cons index rest ih =>
    rw [List.length_cons] at inside
    have upperTable : table = pageTable → 256 ≤ index.val := by
      rintro rfl
      exact upper (built.sound.tree.separated before [] _ (by omega) (Nat.zero_le 3) place rfl) index rfl
    have linked := links_seen boot.tables word built.words.pageTable upperTable
    rw [walk, walk, linked]
    cases next : bootLinks boot.tables table index with
    | none =>
      refine ⟨rfl, fun last reached => ?_⟩
      cases reached
    | some child =>
      have childWord : child < wordSize := by
        rw [bootLinks] at next
        split_ifs at next
        exact Option.some.inj next ▸ entryPhysical_word _
      have further : walk (links (seen pageTable boot.tables)) (lowerToHigher pageTable) (before ++ [index]) =
          some (lowerToHigher child) := by
        rw [walk_concat, place, Option.bind_some, linked, next, Option.map_some]
      refine ih childWord ?_ ?_ further
      · rw [List.length_append, List.length_singleton]
        omega
      · exact fun none => absurd none (by simp)

/-- The first index of a page of the upper half. -/
theorem upper_index {page : Nat} (upper : upperPage ≤ page) (inside : page < pageCount) :
    ∀ index ∈ (pagePath page).head?, 256 ≤ index.val := by
  intro index isFirst
  have first : page / 2 ^ 27 % 512 = index.val := congrArg Fin.val (Option.some.inj isFirst)
  rw [← first]
  rw [upperPage] at upper
  rw [pageCount] at inside
  omega

/-- A level-1 table is not the root. -/
theorem Built.leaf_other (built : Built pageTable boot) {path : List (Fin 512)} (full : path.length = 3)
    (place : walk (links (seen pageTable boot.tables)) (lowerToHigher pageTable) path = some (lowerToHigher table)) :
    table ≠ pageTable := by
  intro same
  rw [same] at place
  have empty := built.sound.tree.separated path [] _ (Nat.le_of_eq full) (Nat.zero_le 3) place rfl
  rw [empty] at full
  cases full

/-- The upper half is translated as it is seen. -/
theorem Built.translation_seen (built : Built pageTable boot) {page : Nat} (upper : upperPage ≤ page) :
    bootTranslation boot.tables pageTable page =
      translation (seen pageTable boot.tables) (lowerToHigher pageTable) page := by
  rw [bootTranslation, translation]
  by_cases inside : page < pageCount
  · rw [if_pos inside, if_pos inside]
    have short : ([] : List (Fin 512)).length + (pagePath page).length ≤ 3 := Nat.le_refl 3
    obtain ⟨walked, words⟩ := walk_seen built built.words.pageTable short
      (fun _ => upper_index upper inside) rfl
    rw [walked]
    cases reached : walk (bootLinks boot.tables) pageTable (pagePath page) with
    | none => rfl
    | some table =>
      rw [reached, Option.map_some] at walked
      have notRoot : table = pageTable → 256 ≤ (pageSlot page).val :=
        fun same => absurd same (built.leaf_other rfl walked)
      rw [Option.map_some, Option.bind_some, Option.bind_some,
        seen_at boot.tables (words table reached) built.words.pageTable notRoot]
  · rw [if_neg inside, if_neg inside]

/-! ## Mapping -/

/-- The indices of `pml_map`. -/
theorem indices_eq (virtAddr : Nat) :
    indexOf (virtAddr >>> 12) = pmlGetIndex virtAddr 1 ∧
      indexOf (virtAddr >>> 12 >>> 9) = pmlGetIndex virtAddr 2 ∧
        indexOf (virtAddr >>> 12 >>> 9 >>> 9) = pmlGetIndex virtAddr 3 ∧
          indexOf (virtAddr >>> 12 >>> 9 >>> 9 >>> 9) = pmlGetIndex virtAddr 4 := by
  simp only [← Nat.shiftRight_add]
  exact ⟨rfl, rfl, rfl, rfl⟩

/-- An address in the upper half. -/
def Upper (virtAddr : Nat) : Prop := 2 ^ 47 ≤ virtAddr % 2 ^ 48

/-- Its index in the root. -/
theorem Upper.index {virtAddr : Nat} (upper : Upper virtAddr) : 256 ≤ (pmlGetIndex virtAddr 4).val := by
  rw [index_val _ _ (by decide) (by decide)]
  rw [Upper] at upper
  simp only [pageNumber, pageSize]
  omega

/-- `pml_map` maps one page of the upper half. -/
theorem pmlMap_spec (built : Built pageTable boot) {virtAddr physAddr flags : Nat} (small : flags < 2 ^ 12)
    (upper : Upper virtAddr) (taken : pmlMap boot pageTable virtAddr physAddr flags = some next) :
    Built pageTable next ∧ LowerKept pageTable boot next ∧
      translation (seen pageTable next.tables) (lowerToHigher pageTable) =
        Function.update (translation (seen pageTable boot.tables) (lowerToHigher pageTable)) (pageNumber virtAddr)
          (some (physAddr / pageSize % 2 ^ 40, flags ||| pagePresent)) := by
  obtain ⟨isP, isPt, isPd, isPdp⟩ := indices_eq virtAddr
  simp only [pmlMap, isP, isPt, isPd, isPdp, Option.bind_eq_bind, Option.bind_eq_some_iff, Prod.exists] at taken
  obtain ⟨pdp, first, toPdp, pd, second, toPd, pt, third, toPt, written⟩ := taken
  obtain rfl := Option.some.inj written
  obtain ⟨largerFirst, pdpWord, walkPdp⟩ := level_larger built small (by decide) built.words.pageTable
    (fun _ => upper.index) (show walk _ _ [] = some _ from rfl) toPdp
  obtain ⟨largerSecond, pdWord, walkPd⟩ := level_larger largerFirst.built small (by simp) pdpWord (by simp) walkPdp toPd
  obtain ⟨largerThird, ptWord, walkPt⟩ := level_larger largerSecond.built small (by simp) pdWord (by simp) walkPd toPt
  have larger := (largerFirst.trans largerSecond).trans largerThird
  have notRoot : pt ≠ pageTable := larger.built.leaf_other rfl walkPt
  have notUpper : pt = pageTable → 256 ≤ (pmlGetIndex virtAddr 1).val := fun same => absurd same notRoot
  have leaf := seen_setEntry third.tables (pmlEntryCreate physAddr flags) ptWord larger.words.pageTable notUpper
  have place : walk (links (seen pageTable third.tables)) (lowerToHigher pageTable) (pagePath (pageNumber virtAddr)) =
      some (lowerToHigher pt) := by
    rw [← path_address]
    exact walkPt
  refine ⟨⟨⟨larger.words.pageTable, larger.words.supply⟩, ?_⟩, ?_, ?_⟩
  · have sound := sound_setLeaf (lowerToHigher pageTable) (lowerToHigher pt)
      (pmlEntryCreate physAddr flags) (pmlGetIndex virtAddr 1) _ [] larger.grown.sound rfl walkPt
    simpa only [view, leaf] using sound
  · intro slot low
    have notWritten : ¬(pageTable = pt ∧ slot = pmlGetIndex virtAddr 1) := fun both => notRoot both.1.symm
    simp only [setEntry, if_neg notWritten]
    exact larger.lower slot low
  · rw [leaf, slot_address, translation_setLeaf _ _ _ _
      larger.grown.sound.tree.separated (page_lt virtAddr) place]
    have translations : translation (seen pageTable third.tables) (lowerToHigher pageTable) =
        translation (seen pageTable boot.tables) (lowerToHigher pageTable) := larger.grown.translations
    rw [translations, ← read_create physAddr flags small]
    rfl

/-- Pages of the upper half, and frames for them. -/
structure Region (virtAddr physAddr pageAmount : Nat) : Prop where
  upper : vmmHigherHalfBase ≤ virtAddr
  inside : virtAddr + pageAmount * pageSize ≤ wordSize
  aligned : physAddr % pageSize = 0
  frames : physAddr + pageAmount * pageSize ≤ 2 ^ 52

/-- A region of the upper half is an interval of pages. -/
theorem Region.pages {virtAddr physAddr pageAmount : Nat} (region : Region virtAddr physAddr pageAmount) :
    pageNumber virtAddr + pageAmount ≤ pageCount := by
  obtain ⟨upper, inside, _, _⟩ := region
  simp only [pageNumber, pageSize, pageCount, vmmHigherHalfBase, wordSize] at *
  omega

/-- All pages but the last one. -/
theorem Region.less {virtAddr physAddr pageAmount : Nat} (region : Region virtAddr physAddr (pageAmount + 1)) :
    Region virtAddr physAddr pageAmount where
  upper := region.upper
  inside := Nat.le_trans (Nat.add_le_add_left (Nat.mul_le_mul_right _ (Nat.le_succ _)) _) region.inside
  aligned := region.aligned
  frames := Nat.le_trans (Nat.add_le_add_left (Nat.mul_le_mul_right _ (Nat.le_succ _)) _) region.frames

/-- One page more is mapped. -/
theorem mapRange_succ (flat : FlatMap) (start frame count flags : Nat) :
    mapRange flat start frame (count + 1) flags =
      Function.update (mapRange flat start frame count flags) (start + count)
        (some (frame + count, flags ||| pagePresent)) := by
  funext page
  by_cases last : page = start + count
  · subst last
    rw [Function.update_self, mapRange, if_pos (by omega), Nat.add_sub_cancel_left]
  · rw [Function.update_of_ne last, mapRange, mapRange]
    have same : (start ≤ page ∧ page < start + (count + 1)) ↔ start ≤ page ∧ page < start + count := by omega
    simp only [same]

/-- `pml_map_pages` maps the pages to the frames. -/
theorem pmlMapPages_spec (built : Built pageTable boot) {virtAddr physAddr pageAmount flags : Nat}
    (small : flags < 2 ^ 12) (region : Region virtAddr physAddr pageAmount)
    (taken : pmlMapPages boot pageTable virtAddr physAddr pageAmount flags = some next) :
    Built pageTable next ∧ LowerKept pageTable boot next ∧
      translation (seen pageTable next.tables) (lowerToHigher pageTable) =
        mapRange (translation (seen pageTable boot.tables) (lowerToHigher pageTable)) (pageNumber virtAddr)
          (physAddr / pageSize) pageAmount flags := by
  induction pageAmount generalizing next with
  | zero =>
    obtain rfl := Option.some.inj taken
    refine ⟨built, fun _ _ => rfl, ?_⟩
    funext page
    rw [mapRange, if_neg (by omega)]
  | succ pageAmount ih =>
    rw [pmlMapPages, List.range_succ, List.foldlM_append, Option.bind_eq_bind, Option.bind_eq_some_iff] at taken
    obtain ⟨middle, before, here⟩ := taken
    rw [List.foldlM_cons, Option.bind_eq_bind, Option.bind_eq_some_iff] at here
    obtain ⟨last, here, done⟩ := here
    obtain rfl := Option.some.inj done
    obtain ⟨builtMiddle, lowerMiddle, mapped⟩ := ih region.less before
    obtain ⟨upper, inside, aligned, frames⟩ := region
    have virtual : add virtAddr (pageAmount * pageSize) = virtAddr + pageAmount * pageSize := by
      apply add_of_lt
      simp only [pageSize] at *
      omega
    have physical : add physAddr (pageAmount * pageSize) = physAddr + pageAmount * pageSize := by
      apply add_of_lt
      simp only [pageSize, wordSize] at *
      omega
    rw [virtual, physical] at here
    have upperHere : Upper (virtAddr + pageAmount * pageSize) := by
      rw [Upper]
      simp only [vmmHigherHalfBase, pageSize, wordSize] at *
      omega
    obtain ⟨builtLast, lowerLast, mappedLast⟩ := pmlMap_spec builtMiddle small upperHere here
    refine ⟨builtLast, fun slot low => (lowerLast slot low).trans (lowerMiddle slot low), ?_⟩
    have page : pageNumber (virtAddr + pageAmount * pageSize) = pageNumber virtAddr + pageAmount := by
      simp only [pageNumber, vmmHigherHalfBase, pageSize, wordSize] at *
      omega
    have frame : (physAddr + pageAmount * pageSize) / pageSize % 2 ^ 40 = physAddr / pageSize + pageAmount := by
      simp only [pageSize] at *
      omega
    rw [mappedLast, mapped, page, frame, mapRange_succ]

/-! ## The start of the boot loader -/

/-- The firmware gives pages that are distinct and aligned. -/
structure Firmware (supply : List Nat) : Prop where
  distinct : supply.Nodup
  pages : ∀ page ∈ supply, page % pageSize = 0 ∧ page < 2 ^ 47

/-- The memory that a descriptor describes is smaller than the upper half. -/
def Describes (desc : MemoryDescriptor) : Prop :=
  desc.physicalStart % pageSize = 0 ∧ desc.physicalStart < 2 ^ 47 ∧
    desc.physicalStart + desc.amountOfPages * pageSize ≤ 2 ^ 47

/-- A frame is described by a memory map. -/
def Described (memoryMap : List MemoryDescriptor) (frame : Nat) : Prop :=
  ∃ desc ∈ memoryMap, desc.physicalStart / pageSize ≤ frame ∧ frame < desc.physicalStart / pageSize + desc.amountOfPages

instance (memoryMap : List MemoryDescriptor) (frame : Nat) : Decidable (Described memoryMap frame) :=
  inferInstanceAs (Decidable (∃ desc ∈ memoryMap, _))

/-- The upper half with the memory of a memory map: each frame at its place. -/
def directMap (memoryMap : List MemoryDescriptor) (flags : Nat) : FlatMap := fun page =>
  if upperPage ≤ page ∧ Described memoryMap (page - upperPage) then some (page - upperPage, flags ||| pagePresent)
  else none

/-- Tables without an entry in the upper half of the root. -/
theorem empty_built {supply : List Nat} {tables : Tables} (firmware : Firmware (pageTable :: supply))
    (empty : ∀ slot : Fin 512, ¬slot.val < 256 → tables pageTable slot = 0) :
    Built pageTable ⟨tables, supply⟩ ∧
      translation (seen pageTable tables) (lowerToHigher pageTable) = fun _ => none := by
  obtain ⟨distinct, pages⟩ := firmware
  obtain ⟨absent, distinct⟩ := List.nodup_cons.mp distinct
  have word (page : Nat) (member : page ∈ pageTable :: supply) : page < wordSize :=
    Nat.lt_trans (pages page member).2 (by decide)
  have rootWord := word pageTable List.mem_cons_self
  have higher (page : Nat) (member : page ∈ pageTable :: supply) :
      lowerToHigher page % pageSize = 0 ∧ vmmHigherHalfBase ≤ lowerToHigher page := by
    obtain ⟨aligned, low⟩ := pages page member
    simp only [lowerToHigher, add, pageSize, vmmHigherHalfBase, wordSize] at *
    omega
  have cleared (slot : Fin 512) : seen pageTable tables (lowerToHigher pageTable) slot = 0 := by
    rw [seen]
    split_ifs with hidden
    · rfl
    · rw [higher_lower rootWord]
      exact empty slot fun low => hidden (.inr ⟨rfl, low⟩)
  have walks := cleared_walk cleared
  have root := higher pageTable List.mem_cons_self
  have tree := cleared_tree _ root.1 (higher_ne_zero root.2) cleared
  have fresh : Fresh (view pageTable ⟨tables, supply⟩) (lowerToHigher pageTable) := by
    refine ⟨List.Nodup.map_on ?_ distinct, ?_, ?_⟩
    · intro page member other otherMember same
      exact (lower_inj (word page (List.mem_cons_of_mem _ member))
        (word other (List.mem_cons_of_mem _ otherMember))).mp same
    · intro seenAt member
      obtain ⟨page, given, rfl⟩ := List.mem_map.mp member
      have place := higher page (List.mem_cons_of_mem _ given)
      exact ⟨place.1, place.2, lowerToHigher_word page⟩
    · intro seenAt member path _ reached
      obtain ⟨page, given, rfl⟩ := List.mem_map.mp member
      have same := (walks path _ reached).2
      rw [lower_inj (word page (List.mem_cons_of_mem _ given)) rootWord] at same
      exact absent (same ▸ given)
  exact ⟨⟨⟨rootWord, fun page member => word page (List.mem_cons_of_mem _ member)⟩, tree, fresh⟩,
    cleared_translation cleared⟩

/-- A descriptor is a region of the upper half. -/
theorem Describes.region {desc : MemoryDescriptor} (describes : Describes desc) :
    Region (add vmmHigherHalfBase desc.physicalStart) desc.physicalStart desc.amountOfPages := by
  obtain ⟨aligned, starts, ends⟩ := describes
  refine ⟨?_, ?_, aligned, Nat.le_trans ends (by decide)⟩
  · simp only [add, pageSize, vmmHigherHalfBase, wordSize] at *
    omega
  · simp only [add, pageSize, vmmHigherHalfBase, wordSize] at *
    omega

/-- Its first page. -/
theorem Describes.page {desc : MemoryDescriptor} (describes : Describes desc) :
    pageNumber (add vmmHigherHalfBase desc.physicalStart) = upperPage + desc.physicalStart / pageSize := by
  obtain ⟨_, starts, _⟩ := describes
  simp only [pageNumber, add, upperPage, pageSize, vmmHigherHalfBase, wordSize] at *
  omega

/-- An empty memory map. -/
theorem directMap_nil (flags : Nat) : directMap [] flags = fun _ => none := by
  funext page
  rw [directMap, if_neg]
  rintro ⟨_, _, member, _⟩
  exact absurd member List.not_mem_nil

/-- One more descriptor is mapped. -/
theorem directMap_snoc (memoryMap : List MemoryDescriptor) {desc : MemoryDescriptor} (describes : Describes desc)
    (flags : Nat) :
    mapRange (directMap memoryMap flags) (pageNumber (add vmmHigherHalfBase desc.physicalStart))
      (desc.physicalStart / pageSize) desc.amountOfPages flags = directMap (memoryMap ++ [desc]) flags := by
  have more (frame : Nat) : Described (memoryMap ++ [desc]) frame ↔ Described memoryMap frame ∨
      (desc.physicalStart / pageSize ≤ frame ∧ frame < desc.physicalStart / pageSize + desc.amountOfPages) := by
    simp only [Described, List.mem_append, List.mem_singleton, or_and_right, exists_or, exists_eq_left]
  funext page
  simp only [mapRange, describes.page, directMap, more]
  generalize desc.physicalStart / pageSize = first
  by_cases inside : upperPage + first ≤ page ∧ page < upperPage + first + desc.amountOfPages
  · have frame : first + (page - (upperPage + first)) = page - upperPage := by omega
    rw [if_pos inside, if_pos ⟨by omega, .inr (by omega)⟩, frame]
  · have same : (upperPage ≤ page ∧ (Described memoryMap (page - upperPage) ∨
        (first ≤ page - upperPage ∧ page - upperPage < first + desc.amountOfPages))) ↔
        (upperPage ≤ page ∧ Described memoryMap (page - upperPage)) := by
      constructor
      · rintro ⟨high, known | here⟩
        · exact ⟨high, known⟩
        · exact absurd (show _ ∧ _ by omega) inside
      · rintro ⟨high, known⟩
        exact ⟨high, .inl known⟩
    rw [if_neg inside]
    simp only [same]

/-- The loop over the memory map. -/
theorem mapAll_direct (rest : List MemoryDescriptor) {done : List MemoryDescriptor} (built : Built pageTable boot)
    (describes : ∀ desc ∈ rest, Describes desc)
    (mapped : translation (seen pageTable boot.tables) (lowerToHigher pageTable) = directMap done pageWrite)
    (taken : rest.foldlM (fun boot desc => pmlMapPages boot pageTable (add vmmHigherHalfBase desc.physicalStart)
      desc.physicalStart desc.amountOfPages pageWrite) boot = some next) :
    Built pageTable next ∧ LowerKept pageTable boot next ∧
      translation (seen pageTable next.tables) (lowerToHigher pageTable) = directMap (done ++ rest) pageWrite := by
  induction rest generalizing boot done with
  | nil =>
    obtain rfl := Option.some.inj taken
    rw [List.append_nil]
    exact ⟨built, fun _ _ => rfl, mapped⟩
  | cons desc rest ih =>
    rw [List.foldlM_cons, Option.bind_eq_bind, Option.bind_eq_some_iff] at taken
    obtain ⟨middle, here, later⟩ := taken
    have describesHere := describes desc List.mem_cons_self
    obtain ⟨builtMiddle, lowerMiddle, mappedMiddle⟩ := pmlMapPages_spec built (by decide) describesHere.region here
    rw [mapped, directMap_snoc _ describesHere] at mappedMiddle
    obtain ⟨builtLast, lowerLast, mappedLast⟩ :=
      ih builtMiddle (List.forall_mem_of_forall_mem_cons describes) mappedMiddle later
    rw [List.append_assoc, List.singleton_append] at mappedLast
    exact ⟨builtLast, fun slot low => (lowerLast slot low).trans (lowerMiddle slot low), mappedLast⟩

/-- `vm_init` maps the whole memory map in the upper half, and nothing else, and the lower half is the
firmware's. -/
theorem vmInit_direct {cr3 : Nat} {memoryMap : List MemoryDescriptor} (firmware : Firmware boot.supply)
    (inUse : cr3 ∉ boot.supply) (describes : ∀ desc ∈ memoryMap, Describes desc)
    (taken : vmInit boot cr3 memoryMap = some (pageTable, next)) :
    Built pageTable next ∧
      (∀ slot : Fin 512, slot.val < 256 → next.tables pageTable slot = boot.tables cr3 slot) ∧
      translation (seen pageTable next.tables) (lowerToHigher pageTable) = directMap memoryMap pageWrite := by
  simp only [vmInit, pmlNew, Option.bind_eq_bind, Option.bind_eq_some_iff] at taken
  cases supplied : boot.supply with
  | nil =>
    rw [supplied] at taken
    obtain ⟨_, none, _⟩ := taken
    cases none
  | cons address supply =>
    rw [supplied] at taken firmware inUse
    obtain ⟨_, created, mapped, all, done⟩ := taken
    obtain rfl := Option.some.inj created
    obtain ⟨rfl, rfl⟩ := Prod.mk.inj (Option.some.inj done)
    have different : cr3 ≠ address := fun same => inUse (same ▸ List.mem_cons_self)
    have cleared (slot : Fin 512) (high : ¬slot.val < 256) :
        copyLower (clearTable boot.tables address) cr3 address address slot = 0 := by
      rw [copyLower_high _ _ _ high, clearTable, if_pos rfl]
    obtain ⟨built, empty⟩ := empty_built firmware cleared
    obtain ⟨builtLast, lower, direct⟩ :=
      mapAll_direct memoryMap built describes (empty.trans (directMap_nil pageWrite).symm) all
    refine ⟨builtLast, ?_, direct⟩
    intro slot low
    rw [lower slot low]
    exact (copyLower_low _ cr3 address low).trans (if_neg different)

/-- The boot loader's address space: in the upper half each frame of the memory map is at its place, the pages
of the kernel lead to their frames, and nothing else is mapped. The lower half is the firmware's. The memory
map describes frames below `2 ^ 47` only, which all have a place there.

Proof: mapping a page changes the translation of that page alone, and the pages are mapped in turn. -/
theorem boot_space_exact {cr3 : Nat} {memoryMap : List MemoryDescriptor} (firmware : Firmware boot.supply)
    (inUse : cr3 ∉ boot.supply) (describes : ∀ desc ∈ memoryMap, Describes desc)
    (taken : vmInit boot cr3 memoryMap = some (pageTable, next)) {virtAddr physAddr pageAmount : Nat}
    (region : Region virtAddr physAddr pageAmount) {last : Boot}
    (allocated : vmAllocPages next pageTable physAddr virtAddr pageAmount = some last) :
    (∀ page, upperPage ≤ page → bootTranslation last.tables pageTable page =
      mapRange (directMap memoryMap pageWrite) (pageNumber virtAddr) (physAddr / pageSize) pageAmount pageWrite page) ∧
      ∀ slot : Fin 512, slot.val < 256 → last.tables pageTable slot = boot.tables cr3 slot := by
  obtain ⟨built, lower, direct⟩ := vmInit_direct firmware inUse describes taken
  obtain ⟨builtLast, lowerLast, mapped⟩ := pmlMapPages_spec built (by decide) region allocated
  refine ⟨fun page upper => ?_, fun slot low => (lowerLast slot low).trans (lower slot low)⟩
  rw [builtLast.translation_seen upper, mapped, direct]

/-- Empty tables, and seven pages. -/
def sampleBoot : Boot := ⟨fun _ _ => 0, pagesFrom 0x1000 7⟩

/-- One page of memory. -/
def samplePage : List MemoryDescriptor := [⟨7, 0x100000, 1⟩]

/-- The boot loader starts, and maps one page for the kernel. -/
theorem boot_space_exact_sample : ∃ pageTable next last,
    vmInit sampleBoot 0x500000 samplePage = some (pageTable, next) ∧
      vmAllocPages next pageTable 0x200000 0xFFFFFFFF80000000 1 = some last ∧
        bootTranslation last.tables pageTable (pageNumber 0xFFFFFFFF80000000) = some (0x200, 3) := by
  obtain ⟨pageTable, next, last, taken, allocated⟩ : ∃ pageTable next last,
      vmInit sampleBoot 0x500000 samplePage = some (pageTable, next) ∧
        vmAllocPages next pageTable 0x200000 0xFFFFFFFF80000000 1 = some last := ⟨_, _, _, rfl, rfl⟩
  have firmware : Firmware sampleBoot.supply := ⟨by decide, by decide⟩
  have describes : ∀ desc ∈ samplePage, Describes desc :=
    List.forall_mem_singleton.mpr ⟨by decide, by decide, by decide⟩
  have region : Region 0xFFFFFFFF80000000 0x200000 1 := ⟨by decide, by decide, by decide, by decide⟩
  obtain ⟨upper, _⟩ := boot_space_exact firmware (by decide) describes taken region allocated
  refine ⟨pageTable, next, last, taken, allocated, ?_⟩
  rw [upper _ (by decide)]
  decide

end Asym.BootTables
