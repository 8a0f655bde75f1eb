import Asym.PageRefinement
import Asym.VirtualMemory

/-!
# Allocation and mapping requests on an address space

`vmm_alloc` and `vmm_map` share one shape: choose a region, align it, refuse it
if it is mapped, and install pages otherwise. What they refuse is a region all
of whose pages are mapped, so a region that is mapped in part goes through and
its mapped pages are overwritten. The same test decides the search for a free
region. The results say exactly which requests leave existing mappings alone:
those whose region is mapped either wholly or not at all.
-/

namespace Asym.MappingRequests

open MachineWords PhysicalMemory PageEntries PageTables PageTree PageRefinement CyclicUpdates
open VirtualMemory

/-- The flat reading of an address space. -/
def mapping (space : Space) : FlatMap := translation space.memory.tables space.pml

/-- No page of a cyclic run is mapped. -/
def RunUnmapped (flat : FlatMap) (page count : Nat) : Prop :=
  ∀ position < count, flat ((page + position) % pageCount) = none

/-- Some page of a cyclic run is mapped. -/
def RunOverlaps (flat : FlatMap) (page count : Nat) : Prop :=
  ∃ position < count, (flat ((page + position) % pageCount)).isSome

/-- A region is mapped wholly or not at all. -/
def Uniform (flat : FlatMap) (page count : Nat) : Prop :=
  RunMapped flat page count ∨ RunUnmapped flat page count

/-- Number of pages of the aligned region of a request. -/
def requestPages (virtAddr length : Nat) : Nat := sizeInPages (vmmAlignRegion virtAddr length).2

/-- Aligning an address keeps its page. -/
theorem page_roundDown (virtAddr : Nat) :
    pageNumber (roundDown virtAddr pageSize) = pageNumber virtAddr := by
  simp only [pageNumber, roundDown, pageSize]
  omega

/-- The address of a position in a region lies on that position's page. -/
theorem page_position (virtAddr position : Nat) :
    pageNumber (add virtAddr (mul position pageSize)) =
      (pageNumber virtAddr + position) % pageCount := by
  simp only [pageNumber, add, mul, pageSize, pageCount, wordSize]
  omega

/-- The common part of `vmm_alloc` and `vmm_map`, over the step that installs
the pages. -/
def serveRequest (fuel : Nat) (space : Space) (virtAddr length : Nat)
    (install : Pml → Nat → Nat → Nat → Option Pml) : Option (Except Errno Nat × Space) := do
  let (chosen, searched) ← chooseRegion fuel space virtAddr length
  if pmlMapped searched.memory.tables searched.pml (roundDown chosen pageSize)
      (requestPages chosen length) then
    some (.error .eexist, searched)
  else do
    let memory ← install searched.memory searched.pml (roundDown chosen pageSize)
      (requestPages chosen length)
    some (.ok (roundDown chosen pageSize), { searched with memory := memory })

/-- `vmm_alloc` past its argument checks. -/
theorem vmmAlloc_eq (fuel : Nat) (space : Space) (virtAddr length prot flags : Nat)
    (positive : 0 < length) (readable : vmmProtToFlags prot = some flags) :
    vmmAlloc fuel space virtAddr length prot = serveRequest fuel space virtAddr length
      (fun pml table aligned pages =>
        allocPages pml table aligned (flags ||| pageOwned) 0 pages) := by
  rw [vmmAlloc, if_neg (by omega), readable]
  rfl

/-- `vmm_map` past its argument checks. -/
theorem vmmMap_eq (fuel : Nat) (space : Space) (virtAddr physAddr length prot flags : Nat)
    (physical : physAddr ≠ 0) (positive : 0 < length)
    (readable : vmmProtToFlags prot = some flags) :
    vmmMap fuel space virtAddr physAddr length prot = serveRequest fuel space virtAddr length
      (fun pml table aligned pages =>
        pmlMap pml table aligned (roundDown physAddr pageSize) pages flags) := by
  rw [vmmMap, if_neg physical, if_neg (by omega), readable]
  rfl

/-- The flags of a request stay below bit 12. -/
theorem protToFlags_small {prot flags : Nat} (readable : vmmProtToFlags prot = some flags) :
    flags < 2 ^ 12 := by
  rw [vmmProtToFlags] at readable
  split at readable
  · contradiction
  · rw [← Option.some.inj readable]
    refine Nat.or_lt_two_pow ?_ (by decide)
    split <;> decide

/-- Installing pages keeps a sound state sound and leaves the pages outside the
region alone. -/
def InstallsInside (install : Pml → Nat → Nat → Nat → Option Pml) : Prop :=
  ∀ pml next root aligned pages, Sound pml root → install pml root aligned pages = some next →
    Sound next root ∧ ∀ page, (∀ position < pages, page ≠ (pageNumber aligned + position) % pageCount) →
      translation next.tables root page = translation pml.tables root page

/-- `pml_map` installs inside its region. -/
theorem map_installs (physAddr flags : Nat) (small : flags < 2 ^ 12) :
    InstallsInside (fun pml table aligned pages => pmlMap pml table aligned physAddr pages flags) := by
  intro pml next root aligned pages sound taken
  obtain ⟨nextSound, rewrites⟩ := map_rewrites pml next root aligned physAddr pages flags sound small taken
  refine ⟨nextSound, ?_⟩
  intro page outside
  rw [rewrites]
  exact rewrite_outside _ _ _ _ _ _ (page_lt aligned) outside

/-- Taking a frame keeps a sound state sound and changes no table. -/
theorem takeFrame_sound {pml next : Pml} {root frame : Nat} (sound : Sound pml root)
    (taken : takeFrame pml = some (frame, next)) : Sound next root ∧ next.tables = pml.tables := by
  rw [takeFrame] at taken
  split at taken
  · contradiction
  · rename_i address rest supplied
    simp only [Option.some.injEq, Prod.mk.injEq] at taken
    obtain ⟨rfl, rfl⟩ := taken
    have kept : ∀ page ∈ rest, page ∈ pml.supply := by
      intro page member
      simp [supplied, member]
    have distinct := sound.fresh.distinct
    rw [supplied, List.nodup_cons] at distinct
    exact ⟨⟨sound.tree, distinct.2, fun page member => sound.fresh.pages page (kept page member),
      fun page member => sound.fresh.unused page (kept page member)⟩, rfl⟩

/-- The loop of `vmm_alloc` installs inside its region. -/
theorem alloc_installs (flags : Nat) (small : flags < 2 ^ 12) :
    InstallsInside (fun pml table aligned pages => allocPages pml table aligned flags 0 pages) := by
  have fromPosition : ∀ (count position : Nat) (pml next : Pml) (root aligned : Nat), Sound pml root →
      allocPages pml root aligned flags position count = some next →
      Sound next root ∧ ∀ page,
        (∀ offset < count, page ≠ (pageNumber aligned + (position + offset)) % pageCount) →
        translation next.tables root page = translation pml.tables root page := by
    intro count
    induction count with
    | zero =>
      intro position pml next root aligned sound taken
      rw [allocPages, Option.some.injEq] at taken
      subst taken
      exact ⟨sound, fun _ _ => rfl⟩
    | succ count ih =>
      intro position pml next root aligned sound taken
      obtain ⟨frame, framed, mapped, frameTaken, mapTaken, rest⟩ := allocPages_succ taken
      obtain ⟨framedSound, sameTables⟩ := takeFrame_sound sound frameTaken
      obtain ⟨mappedSound, outsideOne⟩ := map_installs (higherToLower frame) flags small framed mapped
        root _ 1 framedSound mapTaken
      obtain ⟨nextSound, outsideRest⟩ := ih (position + 1) mapped next root aligned
        mappedSound rest
      refine ⟨nextSound, ?_⟩
      intro page outside
      have laterOutside : ∀ offset < count,
          page ≠ (pageNumber aligned + (position + 1 + offset)) % pageCount := by
        intro offset less
        have avoided := outside (offset + 1) (by omega)
        rwa [Nat.add_comm offset 1, ← Nat.add_assoc position] at avoided
      have hereOutside : ∀ offset < 1,
          page ≠ (pageNumber (add aligned (mul position pageSize)) + offset) % pageCount := by
        intro offset less
        obtain rfl : offset = 0 := by omega
        rw [page_position, Nat.mod_add_mod]
        exact outside 0 (by omega)
      rw [outsideRest page laterOutside, outsideOne page hereOutside, sameTables]
  intro pml next root aligned pages sound taken
  obtain ⟨nextSound, outside⟩ := fromPosition pages 0 pml next root aligned sound taken
  refine ⟨nextSound, ?_⟩
  intro page avoided
  exact outside page (by simpa using avoided)

/-- The address that the search for a free region tries in its turn. -/
def candidate (space : Space) (pageAmount : Nat) : Nat → Nat
  | 0 => space.freeAddress
  | turn + 1 => add (candidate space pageAmount turn) (mul pageAmount pageSize)

/-- The first candidate that is not wholly mapped, with all candidates up to it
below the end of the address range. -/
structure FirstUnfilled (space : Space) (pageAmount turn : Nat) : Prop where
  below : ∀ earlier ≤ turn, candidate space pageAmount earlier < roundDown (wordSize - 1) 0x1000
  filled : ∀ earlier < turn,
    RunMapped (mapping space) (pageNumber (candidate space pageAmount earlier)) pageAmount
  unfilled : ¬RunMapped (mapping space) (pageNumber (candidate space pageAmount turn)) pageAmount

/-- The search from a turn on returns the first later candidate that is not
wholly mapped. -/
theorem findFrom_iff (space : Space) (pageAmount fuel turn address : Nat) (next : Space)
    (tree : Tree space.memory.tables space.pml) :
    findFreeRegionFrom space pageAmount fuel (candidate space pageAmount turn) =
        some (address, next) ↔
      ∃ found, turn ≤ found ∧ found < turn + fuel ∧
        (∀ tried, turn ≤ tried → tried ≤ found →
          candidate space pageAmount tried < roundDown (wordSize - 1) 0x1000) ∧
        (∀ tried, turn ≤ tried → tried < found →
          RunMapped (mapping space) (pageNumber (candidate space pageAmount tried)) pageAmount) ∧
        ¬RunMapped (mapping space) (pageNumber (candidate space pageAmount found)) pageAmount ∧
        address = candidate space pageAmount found ∧
        next = { space with freeAddress := candidate space pageAmount (found + 1) } := by
  induction fuel generalizing turn with
  | zero =>
    simp only [findFreeRegionFrom, reduceCtorEq, false_iff]
    rintro ⟨found, low, high, _⟩
    omega
  | succ fuel ih =>
    have test : pmlMapped space.memory.tables space.pml (candidate space pageAmount turn)
        pageAmount = true ↔
          RunMapped (mapping space) (pageNumber (candidate space pageAmount turn)) pageAmount :=
      mapped_iff _ _ _ tree
    rw [findFreeRegionFrom]
    by_cases bounded : candidate space pageAmount turn < roundDown (wordSize - 1) 0x1000
    · rw [if_pos bounded]
      cases answer : pmlMapped space.memory.tables space.pml (candidate space pageAmount turn)
          pageAmount with
      | false =>
        have here : ¬RunMapped (mapping space) (pageNumber (candidate space pageAmount turn))
            pageAmount := by
          rw [← test, answer]
          exact Bool.false_ne_true
        simp only [Bool.not_false, if_true, Option.some.injEq, Prod.mk.injEq]
        constructor
        · rintro ⟨rfl, rfl⟩
          refine ⟨turn, Nat.le_refl turn, by omega, ?_, ?_, here, rfl, rfl⟩
          · intro tried low high
            rwa [Nat.le_antisymm high low]
          · intro tried low high
            omega
        · rintro ⟨found, low, _, _, filled, _, rfl, rfl⟩
          rcases Nat.eq_or_lt_of_le low with rfl | later
          · exact ⟨rfl, rfl⟩
          · exact absurd (filled turn (Nat.le_refl turn) later) here
      | true =>
        have here := test.mp answer
        have step : add (candidate space pageAmount turn) (mul pageAmount pageSize) =
            candidate space pageAmount (turn + 1) := rfl
        simp only [Bool.not_true, Bool.false_eq_true, if_false]
        rw [step, ih]
        constructor
        · rintro ⟨found, low, high, below, filled, rest⟩
          refine ⟨found, by omega, by omega, ?_, ?_, rest⟩
          · intro tried first last
            rcases Nat.eq_or_lt_of_le first with rfl | later
            · exact bounded
            · exact below tried later last
          · intro tried first last
            rcases Nat.eq_or_lt_of_le first with rfl | later
            · exact here
            · exact filled tried later last
        · rintro ⟨found, low, high, below, filled, unfilled, rest⟩
          have later : turn ≠ found := by
            rintro rfl
            exact unfilled here
          exact ⟨found, by omega, by omega, fun tried first => below tried (by omega),
            fun tried first => filled tried (by omega), unfilled, rest⟩
    · rw [if_neg bounded]
      simp only [reduceCtorEq, false_iff]
      rintro ⟨found, low, _, below, _⟩
      exact bounded (below turn (Nat.le_refl turn) low)

/-- What the search for a free region returns. -/
theorem findFreeRegion_iff (fuel : Nat) (space : Space) (length address : Nat) (next : Space)
    (tree : Tree space.memory.tables space.pml) :
    vmmFindFreeRegion fuel space length = some (address, next) ↔
      ∃ turn < fuel, FirstUnfilled space (sizeInPages length) turn ∧
        address = candidate space (sizeInPages length) turn ∧
        next = { space with freeAddress := candidate space (sizeInPages length) (turn + 1) } := by
  have search := findFrom_iff space (sizeInPages length) fuel 0 address next tree
  rw [vmmFindFreeRegion]
  refine search.trans ?_
  constructor
  · rintro ⟨turn, _, less, below, filled, unfilled, same, after⟩
    exact ⟨turn, by omega, ⟨fun earlier => below earlier (Nat.zero_le earlier),
      fun earlier => filled earlier (Nat.zero_le earlier), unfilled⟩, same, after⟩
  · rintro ⟨turn, less, first, same, after⟩
    exact ⟨turn, Nat.zero_le turn, by omega, fun earlier _ => first.below earlier,
      fun earlier _ => first.filled earlier, first.unfilled, same, after⟩

/-- Every page mapped before is mapped to the same frame with the same flags
after. -/
def Preserved (before after : Space) : Prop :=
  ∀ page entry, mapping before page = some entry → mapping after page = some entry

/-- A request never disturbs an existing mapping: if it succeeds, all mappings
are preserved; at an explicit address, overlapping a mapped page is refused with
`EEXIST` and changes nothing; and a region found for it has no mapped page. The
answer is given for every amount of fuel of the search. -/
structure NeverDisturbs (space : Space) (virtAddr length : Nat)
    (answer : Nat → Option (Except Errno Nat × Space)) : Prop where
  preserved : ∀ fuel address next, answer fuel = some (.ok address, next) → Preserved space next
  refused : virtAddr ≠ 0 →
    RunOverlaps (mapping space) (pageNumber virtAddr) (requestPages virtAddr length) →
      ∀ fuel, answer fuel = some (.error .eexist, space)
  found : virtAddr = 0 → ∀ fuel address next,
    vmmFindFreeRegion fuel space length = some (address, next) →
      RunUnmapped (mapping space) (pageNumber address) (sizeInPages length)

/-- The requests that never disturb a mapping. At an explicit address the region
is mapped wholly or not at all; without one, the first candidate region that is
not wholly mapped has no mapped page. -/
structure RequestUniform (space : Space) (virtAddr length : Nat) : Prop where
  explicit : virtAddr ≠ 0 →
    Uniform (mapping space) (pageNumber virtAddr) (requestPages virtAddr length)
  searched : virtAddr = 0 → ∀ turn, FirstUnfilled space (sizeInPages length) turn →
    RunUnmapped (mapping space) (pageNumber (candidate space (sizeInPages length) turn))
      (sizeInPages length)

/-- Candidates stay page aligned. -/
theorem candidate_aligned (space : Space) (pageAmount turn : Nat)
    (aligned : space.freeAddress % pageSize = 0) :
    candidate space pageAmount turn % pageSize = 0 := by
  induction turn with
  | zero => exact aligned
  | succ turn ih =>
    simp only [candidate, add, mul, pageSize, wordSize] at *
    omega

/-- An aligned region keeps its length. -/
theorem requestPages_aligned (address length : Nat) (aligned : address % pageSize = 0)
    (word : length < wordSize) : requestPages address length = sizeInPages length := by
  have total : (vmmAlignRegion address length).2 = length := by
    simp only [vmmAlignRegion, add, sub, roundDown, pageSize, wordSize] at *
    omega
  rw [requestPages, total]

/-- A region mapped in no page is installed without disturbing a mapping. -/
theorem installed_preserved {install : Pml → Nat → Nat → Nat → Option Pml}
    (installs : InstallsInside install) (space next : Space) (memory : Pml) (chosen pages : Nat)
    (sound : Sound space.memory space.pml) (sameRoot : next.pml = space.pml)
    (installed : next.memory = memory)
    (taken : install space.memory space.pml (roundDown chosen pageSize) pages = some memory)
    (unmapped : RunUnmapped (mapping space) (pageNumber chosen) pages) : Preserved space next := by
  intro page entry mapped
  obtain ⟨_, outside⟩ := installs space.memory memory space.pml _ pages sound taken
  have avoided : ∀ position < pages,
      page ≠ (pageNumber (roundDown chosen pageSize) + position) % pageCount := by
    rintro position less rfl
    rw [page_roundDown, unmapped position less] at mapped
    contradiction
  rw [mapping, installed, sameRoot, outside page avoided]
  exact mapped

/-- A served request at a region that is not wholly mapped installs it. -/
theorem serve_unfilled {fuel : Nat} {space searched next : Space} {virtAddr length chosen : Nat}
    {install : Pml → Nat → Nat → Nat → Option Pml} {address : Nat}
    (choice : chooseRegion fuel space virtAddr length = some (chosen, searched))
    (taken : serveRequest fuel space virtAddr length install = some (.ok address, next)) :
    pmlMapped searched.memory.tables searched.pml (roundDown chosen pageSize)
        (requestPages chosen length) = false ∧
      ∃ memory, install searched.memory searched.pml (roundDown chosen pageSize)
        (requestPages chosen length) = some memory ∧ next = { searched with memory := memory } := by
  rw [serveRequest, choice, Option.bind_eq_bind, Option.bind_some] at taken
  cases answer : pmlMapped searched.memory.tables searched.pml (roundDown chosen pageSize)
      (requestPages chosen length) with
  | true =>
    simp only [answer, if_true, Option.some.injEq, Prod.mk.injEq, reduceCtorEq, false_and] at taken
  | false =>
    simp only [answer, Bool.false_eq_true, if_false, Option.bind_eq_bind, Option.bind_eq_some_iff,
      Option.some.injEq, Prod.mk.injEq] at taken
    obtain ⟨memory, installed, _, after⟩ := taken
    exact ⟨rfl, memory, installed, after.symm⟩

/-- A served request at a wholly mapped explicit region is refused. -/
theorem serve_filled (fuel : Nat) (space : Space) (virtAddr length : Nat)
    (install : Pml → Nat → Nat → Nat → Option Pml) (explicit : virtAddr ≠ 0)
    (tree : Tree space.memory.tables space.pml)
    (filled : RunMapped (mapping space) (pageNumber virtAddr) (requestPages virtAddr length)) :
    serveRequest fuel space virtAddr length install = some (.error .eexist, space) := by
  have mapped : pmlMapped space.memory.tables space.pml (roundDown virtAddr pageSize)
      (requestPages virtAddr length) = true := by
    rw [mapped_iff _ _ _ tree, page_roundDown]
    exact filled
  rw [serveRequest, chooseRegion, if_neg explicit, Option.bind_eq_bind, Option.bind_some]
  simp only [mapped, if_true]

/-- A served explicit request is refused only when its region is wholly
mapped. -/
theorem filled_of_refused {fuel : Nat} {space : Space} {virtAddr length : Nat}
    {install : Pml → Nat → Nat → Nat → Option Pml} (explicit : virtAddr ≠ 0)
    (tree : Tree space.memory.tables space.pml)
    (refused : serveRequest fuel space virtAddr length install = some (.error .eexist, space)) :
    RunMapped (mapping space) (pageNumber virtAddr) (requestPages virtAddr length) := by
  rw [serveRequest, chooseRegion, if_neg explicit, Option.bind_eq_bind, Option.bind_some] at refused
  cases mapped : pmlMapped space.memory.tables space.pml (roundDown virtAddr pageSize)
      (requestPages virtAddr length) with
  | true =>
    rw [mapped_iff _ _ _ tree, page_roundDown] at mapped
    exact mapped
  | false =>
    simp only [mapped, Bool.false_eq_true, if_false, Option.bind_eq_bind, Option.bind_eq_some_iff,
      Option.some.injEq, Prod.mk.injEq, reduceCtorEq, false_and, and_false, exists_false] at refused

/-- A served request never disturbs a mapping exactly when its region, chosen or
found, is uniform. -/
theorem serve_iff (space : Space) (virtAddr length : Nat)
    (install : Pml → Nat → Nat → Nat → Option Pml) (installs : InstallsInside install)
    (sound : Sound space.memory space.pml) (aligned : space.freeAddress % pageSize = 0)
    (word : length < wordSize) :
    NeverDisturbs space virtAddr length (fun fuel => serveRequest fuel space virtAddr length install) ↔
      RequestUniform space virtAddr length := by
  constructor
  · intro never
    constructor
    · intro explicit
      by_cases overlaps : RunOverlaps (mapping space) (pageNumber virtAddr)
          (requestPages virtAddr length)
      · exact .inl (filled_of_refused explicit sound.tree (never.refused explicit overlaps 0))
      · right
        intro position less
        by_contra mapped
        exact overlaps ⟨position, less, Option.isSome_iff_ne_none.mpr mapped⟩
    · intro null turn first
      exact never.found null (turn + 1) _ _
        ((findFreeRegion_iff _ space length _ _ sound.tree).mpr
          ⟨turn, Nat.lt_succ_self turn, first, rfl, rfl⟩)
  · intro uniform
    refine ⟨?_, ?_, ?_⟩
    · intro fuel address next taken
      by_cases null : virtAddr = 0
      · cases choice : chooseRegion fuel space virtAddr length with
        | none =>
          rw [serveRequest, choice] at taken
          contradiction
        | some region =>
          obtain ⟨chosen, searched⟩ := region
          have found := choice
          rw [chooseRegion, if_pos null, findFreeRegion_iff _ _ _ _ _ sound.tree] at found
          obtain ⟨turn, _, first, rfl, rfl⟩ := found
          obtain ⟨_, memory, installed, rfl⟩ := serve_unfilled choice taken
          rw [requestPages_aligned _ _ (candidate_aligned space _ turn aligned) word] at installed
          exact installed_preserved installs space _ memory _ _ sound rfl rfl installed
            (uniform.searched null turn first)
      · have choice : chooseRegion fuel space virtAddr length = some (virtAddr, space) := by
          rw [chooseRegion, if_neg null]
        obtain ⟨unfilled, memory, installed, rfl⟩ := serve_unfilled choice taken
        have notMapped : ¬RunMapped (mapping space) (pageNumber virtAddr)
            (requestPages virtAddr length) := by
          intro filled
          rw [serve_filled fuel space virtAddr length install null sound.tree filled] at taken
          simp at taken
        have unmapped := (uniform.explicit null).resolve_left notMapped
        exact installed_preserved installs space _ memory _ _ sound rfl rfl installed unmapped
    · intro explicit overlaps fuel
      rcases uniform.explicit explicit with filled | unmapped
      · exact serve_filled fuel space virtAddr length install explicit sound.tree filled
      · obtain ⟨position, less, mapped⟩ := overlaps
        rw [unmapped position less] at mapped
        contradiction
    · intro null fuel address next found
      obtain ⟨turn, _, first, rfl, _⟩ := (findFreeRegion_iff _ _ _ _ _ sound.tree).mp found
      exact uniform.searched null turn first

/-- Exactly when allocating or mapping user memory leaves every existing mapping
alone, for every address space with a well-formed table, every address or
`NULL`, every length but zero and every readable protection. -/
theorem requests_never_disturb_iff (space : Space) (virtAddr physAddr length prot flags : Nat)
    (sound : Sound space.memory space.pml) (aligned : space.freeAddress % pageSize = 0)
    (positive : 0 < length) (word : length < wordSize) (physical : physAddr ≠ 0)
    (readable : vmmProtToFlags prot = some flags) :
    (NeverDisturbs space virtAddr length (fun fuel => vmmAlloc fuel space virtAddr length prot) ↔
      RequestUniform space virtAddr length) ∧
    (NeverDisturbs space virtAddr length
        (fun fuel => vmmMap fuel space virtAddr physAddr length prot) ↔
      RequestUniform space virtAddr length) := by
  have small := protToFlags_small readable
  have ownedSmall : flags ||| pageOwned < 2 ^ 12 := Nat.or_lt_two_pow small (by decide)
  have allocated : (fun fuel => vmmAlloc fuel space virtAddr length prot) = fun fuel =>
      serveRequest fuel space virtAddr length (fun pml table start pages =>
        allocPages pml table start (flags ||| pageOwned) 0 pages) :=
    funext fun fuel => vmmAlloc_eq fuel space virtAddr length prot flags positive readable
  have mapped : (fun fuel => vmmMap fuel space virtAddr physAddr length prot) = fun fuel =>
      serveRequest fuel space virtAddr length (fun pml table start pages =>
        pmlMap pml table start (roundDown physAddr pageSize) pages flags) :=
    funext fun fuel => vmmMap_eq fuel space virtAddr physAddr length prot flags physical positive
      readable
  rw [allocated, mapped]
  exact ⟨serve_iff space virtAddr length _ (alloc_installs _ ownedSmall) sound aligned word,
    serve_iff space virtAddr length _ (map_installs _ flags small) sound aligned word⟩

/-- An address space without any mapped page. -/
def emptySpace : Space where
  memory := sampleTables
  pml := sampleRoot
  freeAddress := 0x400000

/-- The empty space after one page has been mapped at the start of a region. -/
def partlyMapped : Space where
  memory := (pmlMap sampleTables sampleRoot 0x400000 0x7000 1 pageUser).getD sampleTables
  pml := sampleRoot
  freeAddress := 0x400000

/-- The partly mapped space has a well-formed table. -/
theorem partlyMapped_sound : Sound partlyMapped.memory partlyMapped.pml := by
  obtain ⟨next, taken⟩ := Option.isSome_iff_exists.mp
    (map_total sampleTables sampleRoot 0x400000 0x7000 1 pageUser (by decide +kernel))
  have result : partlyMapped.memory = next := by rw [partlyMapped, taken, Option.getD_some]
  rw [result]
  exact (map_rewrites sampleTables next sampleRoot 0x400000 0x7000 1 pageUser sampleTables_sound
    (by decide) taken).1

/-- Behind the mapped page the region is uniform, so an allocation of two pages there never
disturbs the mapping. -/
theorem requests_never_disturb_iff_sample : mapping partlyMapped 0x400 = some (7, 5) ∧
    NeverDisturbs partlyMapped 0x401000 0x2000
      (fun fuel => vmmAlloc fuel partlyMapped 0x401000 0x2000 protRead) := by
  refine ⟨by decide +kernel, (requests_never_disturb_iff partlyMapped 0x401000 0x7000 0x2000 protRead pageUser
    partlyMapped_sound (by decide) (by decide) (by decide) (by decide) (by decide)).1.mpr ⟨?_, ?_⟩⟩
  · intro _
    right
    have pages : requestPages 0x401000 0x2000 = 2 := by decide
    have unmapped : ∀ position < 2,
        mapping partlyMapped ((pageNumber 0x401000 + position) % pageCount) = none := by
      decide +kernel
    rwa [← pages] at unmapped
  · intro null
    contradiction

/-- An allocation of two pages over one mapped page succeeds and gives the
mapped page another frame; so does a mapping request, and a search returns the
region as free. -/
theorem alloc_overwrites_mapping :
    Sound partlyMapped.memory partlyMapped.pml ∧
      mapping partlyMapped 0x400 = some (7, 5) ∧
      (vmmAlloc 1 partlyMapped 0x400000 0x2000 protRead).map
        (fun answer => (answer.1.toOption, (mapping answer.2 0x400).map Prod.fst)) =
          some (some 0x400000, some 0x203) ∧
      (vmmMap 1 partlyMapped 0x400000 0x9000 0x2000 protRead).map
        (fun answer => (answer.1.toOption, (mapping answer.2 0x400).map Prod.fst)) =
          some (some 0x400000, some 9) ∧
      (vmmFindFreeRegion 1 partlyMapped 0x2000).map Prod.fst = some 0x400000 := by
  refine ⟨partlyMapped_sound, ?_, ?_, ?_, ?_⟩
  · decide +kernel
  · decide +kernel
  · decide +kernel
  · decide +kernel

end Asym.MappingRequests
