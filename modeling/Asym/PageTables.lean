import Asym.PageEntries

/-!
# The four-level page tables

A model of `pml.c`. A table is a page of 512 entries, identified by its
higher-half address. Addresses taken out of entries are page aligned, so two
tables never overlap in part and the tables can be kept as one function from
address and index to entry.

The physical allocator appears through its interface only: `supply` is the
pages that successive calls of `pmm_alloc` return, with an empty supply for the
failed assertion of an exhausted allocator, and `freed` is the pages given to
`pmm_free`, newest first. Invalidating the processor's translation cache has no
effect on the tables and is left out.
-/

namespace Asym.PageTables

open MachineWords PhysicalMemory PageEntries

/-- Contents of all pages used as tables: `table->entries[index]`. -/
abbrev Tables := Nat → Fin 512 → Nat

/-- The tables with the allocator's interface. -/
structure Pml where
  tables : Tables
  supply : List Nat
  freed : List Nat

/-- The assignment `table->entries[index] = entry`. -/
def setEntry (tables : Tables) (table : Nat) (index : Fin 512) (entry : Nat) : Tables :=
  fun tested slot => if tested = table ∧ slot = index then entry else tables tested slot

/-- `memset(table, 0, PAGE_SIZE)`. -/
def clearTable (tables : Tables) (table : Nat) : Tables :=
  fun tested slot => if tested = table then 0 else tables tested slot

/-- `pml_get`. Zero is `NULL`. -/
def pmlGet (tables : Tables) (table : Nat) (index : Fin 512) : Nat :=
  if present (tables table index) then pageEntryGetAddress (tables table index) else 0

/-- `pml_get_or_allocate`. The new table is cleared before its parent's entry is
written. -/
def pmlGetOrAllocate (pml : Pml) (table : Nat) (index : Fin 512) (flags : Nat) :
    Option (Nat × Pml) :=
  if present (pml.tables table index) then some (pageEntryGetAddress (pml.tables table index), pml)
  else match pml.supply with
    | [] => none
    | address :: supply => some (address, { pml with
        tables := setEntry (clearTable pml.tables address) table index
          (pageEntryCreate (higherToLower address) flags)
        supply := supply })

/-- `pml_new`. -/
def pmlNew (pml : Pml) : Option (Nat × Pml) :=
  match pml.supply with
  | [] => none
  | address :: supply => some (address, { pml with
      tables := clearTable pml.tables address
      supply := supply })

/-- The level-1 table of an address, by three uses of `pml_get`. A missing table
on the way is `NULL`, and the source reads through it all the same. -/
def leafTable (tables : Tables) (table virtAddr : Nat) : Nat :=
  let level3 := pmlGet tables table (pmlGetIndex virtAddr 4)
  let level2 := pmlGet tables level3 (pmlGetIndex virtAddr 3)
  pmlGet tables level2 (pmlGetIndex virtAddr 2)

/-- The body of the loop of `pml_mapped`: whether the walk for one page is
stopped by no missing table and ends in a present entry. -/
def pmlMappedPage (tables : Tables) (table virtAddr : Nat) : Bool :=
  let level3 := pmlGet tables table (pmlGetIndex virtAddr 4)
  if level3 = 0 then false
  else
    let level2 := pmlGet tables level3 (pmlGetIndex virtAddr 3)
    if level2 = 0 then false
    else
      let level1 := pmlGet tables level2 (pmlGetIndex virtAddr 2)
      if level1 = 0 then false
      else present (tables level1 (pmlGetIndex virtAddr 1))

/-- `pml_mapped`. -/
def pmlMapped (tables : Tables) (table virtAddr : Nat) : Nat → Bool
  | 0 => true
  | pageAmount + 1 =>
      if pmlMappedPage tables table virtAddr then
        pmlMapped tables table (add virtAddr pageSize) pageAmount
      else false

/-- Flags of the entry for a level-3 table: the global bit is taken out. -/
def topFlags (flags : Nat) : Nat := (flags ||| pageWrite ||| pageUser) &&& 0xFFFFFFFFFFFFFEFF

/-- Flags of the entries for level-2 and level-1 tables. -/
def tableFlags (flags : Nat) : Nat := flags ||| pageWrite ||| pageUser

/-- The body of the loop of `pml_map`. -/
def pmlMapPage (pml : Pml) (table virtAddr physAddr flags : Nat) : Option Pml := do
  let (level3, first) ← pmlGetOrAllocate pml table (pmlGetIndex virtAddr 4) (topFlags flags)
  let (level2, second) ← pmlGetOrAllocate first level3 (pmlGetIndex virtAddr 3) (tableFlags flags)
  let (level1, third) ← pmlGetOrAllocate second level2 (pmlGetIndex virtAddr 2) (tableFlags flags)
  some { third with
    tables := setEntry third.tables level1 (pmlGetIndex virtAddr 1) (pageEntryCreate physAddr flags) }

/-- `pml_map`. -/
def pmlMap (pml : Pml) (table virtAddr physAddr : Nat) : Nat → Nat → Option Pml
  | 0, _ => some pml
  | pageAmount + 1, flags => do
      let next ← pmlMapPage pml table virtAddr physAddr flags
      let nextVirt := add virtAddr pageSize
      let nextPhys := add physAddr pageSize
      pmlMap next table nextVirt nextPhys pageAmount flags

/-- The body of the loop of `pml_unmap`. -/
def pmlUnmapPage (pml : Pml) (table virtAddr : Nat) : Pml :=
  let level1 := leafTable pml.tables table virtAddr
  let index := pmlGetIndex virtAddr 1
  let entry := pml.tables level1 index
  { pml with
    tables := setEntry pml.tables level1 index 0
    freed := if entry &&& pageOwned ≠ 0 then pageEntryGetAddress entry :: pml.freed else pml.freed }

/-- `pml_unmap`. -/
def pmlUnmap (pml : Pml) (table virtAddr : Nat) : Nat → Pml
  | 0 => pml
  | pageAmount + 1 =>
      let next := pmlUnmapPage pml table virtAddr
      let nextVirt := add virtAddr pageSize
      pmlUnmap next table nextVirt pageAmount

/-- The body of the loop of `pml_change_flags`. -/
def pmlChangeFlagsPage (pml : Pml) (table virtAddr flags : Nat) : Pml :=
  let level1 := leafTable pml.tables table virtAddr
  let index := pmlGetIndex virtAddr 1
  let entry := pml.tables level1 index
  let finalFlags := if entry &&& pageOwned ≠ 0 then flags ||| pageOwned else flags
  { pml with
    tables := setEntry pml.tables level1 index
      (pageEntryCreate (higherToLower (pageEntryGetAddress entry)) finalFlags) }

/-- `pml_change_flags`. -/
def pmlChangeFlags (pml : Pml) (table virtAddr : Nat) : Nat → Nat → Pml
  | 0, _ => pml
  | pageAmount + 1, flags =>
      let next := pmlChangeFlagsPage pml table virtAddr flags
      let nextVirt := add virtAddr pageSize
      pmlChangeFlags next table nextVirt pageAmount flags

end Asym.PageTables
