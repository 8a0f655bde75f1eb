import Asym.MappingRequests
import Asym.SpaceLayout

/-!
# Frames given to pages

What the loop of `vmm_alloc` makes of the pages that the allocator returns. The first of each
turn becomes the frame of a page; up to three more become tables. So the pages of a region get
frames of their own, none of which is handed out again, and nobody who was not mapped to such a
frame before is afterwards.
-/

namespace Asym.FrameSupplies

open MachineWords PhysicalMemory PageEntries PageTables PageTree PageRefinement CyclicUpdates
open VirtualMemory MappingRequests SpaceLayout

/-- The number that an entry has for a page of the allocator. -/
def frameOf (page : Nat) : Nat := higherToLower page / pageSize % 2 ^ 40

/-- The frames that the allocator is going to return. -/
def Stock (supply : List Nat) (frame : Nat) : Prop := ∃ page ∈ supply, frameOf page = frame

/-- Pages of the allocator have different frames. -/
theorem frameOf_inj {first second : Nat} (firstHigher : HigherPage first) (secondHigher : HigherPage second)
    (same : frameOf first = frameOf second) : first = second := by
  obtain ⟨firstAligned, firstLow, firstHigh⟩ := firstHigher
  obtain ⟨secondAligned, secondLow, secondHigh⟩ := secondHigher
  simp only [frameOf, higherToLower, sub, pageSize, vmmHigherHalfBase, wordSize] at *
  omega

/-- What is left of a supply after at most so many pages were taken. -/
structure Taken (before after : List Nat) (most : Nat) : Prop where
  left : after <:+ before
  most : before.length ≤ after.length + most

/-- Pages are taken one after the other. -/
theorem Taken.trans {before middle after : List Nat} {first second : Nat} (early : Taken before middle first)
    (late : Taken middle after second) : Taken before after (first + second) := by
  refine ⟨late.left.trans early.left, ?_⟩
  have earlyMost := early.most
  have lateMost := late.most
  omega

/-- `pml_get_or_allocate` takes one page at most. -/
theorem getOrAllocate_taken {pml next : Pml} {table flags child : Nat} {index : Fin 512}
    (got : pmlGetOrAllocate pml table index flags = some (child, next)) : Taken pml.supply next.supply 1 := by
  rw [pmlGetOrAllocate] at got
  split_ifs at got
  · obtain ⟨-, rfl⟩ := Prod.mk.inj (Option.some.inj got)
    exact ⟨List.suffix_refl _, Nat.le_succ _⟩
  · split at got
    · cases got
    · next address supply supplied =>
      obtain ⟨-, rfl⟩ := Prod.mk.inj (Option.some.inj got)
      rw [supplied]
      exact ⟨List.suffix_cons address supply, Nat.le_refl _⟩

/-- Mapping one page takes three pages at most. -/
theorem mapPage_taken {pml next : Pml} {table virtAddr physAddr flags : Nat}
    (mapped : pmlMapPage pml table virtAddr physAddr flags = some next) : Taken pml.supply next.supply 3 := by
  rw [pmlMapPage] at mapped
  simp only [Option.bind_eq_bind, Option.bind_eq_some_iff, Option.some.injEq] at mapped
  obtain ⟨⟨_, first⟩, gotFirst, ⟨_, second⟩, gotSecond, ⟨_, third⟩, gotThird, rfl⟩ := mapped
  exact ((getOrAllocate_taken gotFirst).trans (getOrAllocate_taken gotSecond)).trans (getOrAllocate_taken gotThird)

/-- So does `pml_map` for a single page. -/
theorem map_taken {pml next : Pml} {table virtAddr physAddr flags : Nat}
    (mapped : pmlMap pml table virtAddr physAddr 1 flags = some next) : Taken pml.supply next.supply 3 := by
  rw [pmlMap] at mapped
  simp only [Option.bind_eq_bind, Option.bind_eq_some_iff] at mapped
  obtain ⟨one, mappedOne, same⟩ := mapped
  rw [pmlMap, Option.some.injEq] at same
  subst same
  exact mapPage_taken mappedOne

/-- The frame that is taken was the first page of the supply. -/
theorem takeFrame_supply {pml next : Pml} {frame : Nat} (taken : takeFrame pml = some (frame, next)) :
    pml.supply = frame :: next.supply := by
  rw [takeFrame] at taken
  split at taken
  · cases taken
  · next address supply supplied =>
    obtain ⟨rfl, rfl⟩ := Prod.mk.inj (Option.some.inj taken)
    exact supplied

/-- The effect of giving frames to a run of pages. `given` are the pages of the allocator. -/
structure Given (pml next : Pml) (root flags start count : Nat) (given : Nat → Nat) : Prop where
  sound : Sound next root
  taken : Taken pml.supply next.supply (4 * count)
  mapped : ∀ page, start ≤ page → page < start + count →
    translation next.tables root page = some (frameOf (given page), flags ||| pagePresent)
  others : ∀ page, ¬(start ≤ page ∧ page < start + count) →
    translation next.tables root page = translation pml.tables root page
  supplied : ∀ page, start ≤ page → page < start + count → given page ∈ pml.supply ∧ given page ∉ next.supply
  apart : ∀ first second, start ≤ first → first < start + count → start ≤ second → second < start + count →
    given first = given second → first = second

/-- The first page of a run was given a frame, and the others were given theirs afterwards. -/
theorem Given.cons {pml middle next : Pml} {root flags start count frame : Nat} {rest : List Nat} {later : Nat → Nat}
    (supplied : pml.supply = frame :: rest) (fresh : frame ∉ rest) (left : Taken rest middle.supply 3)
    (translated : ∀ page, translation middle.tables root page =
      if page = start then some (frameOf frame, flags ||| pagePresent) else translation pml.tables root page)
    (given : Given middle next root flags (start + 1) count later) :
    Given pml next root flags start (count + 1) (Function.update later start frame) := by
  have behind : ∀ page, start ≤ page → page < start + (count + 1) → page ≠ start →
      later page ∈ rest ∧ later page ∉ next.supply := by
    intro page low high different
    obtain ⟨kept, gone⟩ := given.supplied page (by omega) (by omega)
    exact ⟨left.left.subset kept, gone⟩
  have notFrame : ∀ page, start ≤ page → page < start + (count + 1) → page ≠ start → later page ≠ frame := by
    rintro page low high different rfl
    exact fresh (behind page low high different).1
  refine ⟨given.sound, ?_, ?_, ?_, ?_, ?_⟩
  · have one : Taken (frame :: rest) rest 1 := ⟨List.suffix_cons frame rest, Nat.le_refl _⟩
    have all := (one.trans left).trans given.taken
    have most := all.most
    rw [supplied]
    exact ⟨all.left, by omega⟩
  · intro page low high
    by_cases same : page = start
    · subst same
      rw [given.others _ (by omega), translated, if_pos rfl, Function.update_self]
    · rw [given.mapped page (by omega) (by omega), Function.update_of_ne same]
  · intro page outside
    rw [given.others page (by omega), translated, if_neg (by omega)]
  · intro page low high
    rw [supplied]
    by_cases same : page = start
    · subst same
      rw [Function.update_self]
      exact ⟨List.mem_cons_self, fun again => fresh (left.left.subset (given.taken.left.subset again))⟩
    · rw [Function.update_of_ne same]
      obtain ⟨kept, gone⟩ := behind page low high same
      exact ⟨List.mem_cons_of_mem frame kept, gone⟩
  · intro first second lowFirst highFirst lowSecond highSecond same
    by_cases isFirst : first = start
    · by_cases isSecond : second = start
      · exact isFirst.trans isSecond.symm
      · rw [isFirst, Function.update_self, Function.update_of_ne isSecond] at same
        exact absurd same.symm (notFrame second lowSecond highSecond isSecond)
    · by_cases isSecond : second = start
      · rw [isSecond, Function.update_self, Function.update_of_ne isFirst] at same
        exact absurd same (notFrame first lowFirst highFirst isFirst)
      · rw [Function.update_of_ne isFirst, Function.update_of_ne isSecond] at same
        exact given.apart first second (by omega) (by omega) (by omega) (by omega) same

/-- The loop of `vmm_alloc` gives frames to the pages of its region. The induction is on the pages
that remain. -/
theorem allocPages_given {root aligned flags : Nat} (small : flags < 2 ^ 12) {pml next : Pml} (position count : Nat)
    (sound : Sound pml root) (inside : pageNumber aligned + position + count ≤ pageCount)
    (taken : allocPages pml root aligned flags position count = some next) :
    ∃ given, Given pml next root flags (pageNumber aligned + position) count given := by
  induction count generalizing position pml with
  | zero =>
    rw [allocPages, Option.some.injEq] at taken
    subst taken
    refine ⟨id, sound, ⟨List.suffix_refl _, by omega⟩, ?_, fun _ _ => rfl, ?_, ?_⟩
    · intro page low high
      omega
    · intro page low high
      omega
    · intro first second low high
      omega
  | succ count ih =>
    obtain ⟨frame, framed, mapped, frameTaken, mapTaken, rest⟩ := allocPages_succ taken
    obtain ⟨framedSound, sameTables⟩ := takeFrame_sound sound frameTaken
    have supplied := takeFrame_supply frameTaken
    have fresh : frame ∉ framed.supply := by
      have distinct := sound.fresh.distinct
      rw [supplied, List.nodup_cons] at distinct
      exact distinct.1
    have here : pageNumber (add aligned (mul position pageSize)) = pageNumber aligned + position := by
      rw [page_position, Nat.mod_eq_of_lt (by omega)]
    obtain ⟨mappedSound, rewrites⟩ := map_rewrites framed mapped root _ _ 1 flags framedSound small mapTaken
    rw [here] at rewrites
    have translated : ∀ page, translation mapped.tables root page =
        if page = pageNumber aligned + position then some (frameOf frame, flags ||| pagePresent)
        else translation pml.tables root page := by
      intro page
      rw [rewrites, rewrite_interval _ _ _ _ _ _ (by omega), sameTables]
      by_cases same : page = pageNumber aligned + position
      · rw [if_pos same, if_pos (by omega), same, Nat.sub_self]
        rw [mapChange, frameOf, Nat.add_zero]
      · rw [if_neg same, if_neg (by omega)]
    obtain ⟨later, given⟩ := ih (position + 1) mappedSound (by omega) rest
    rw [← Nat.add_assoc] at given
    exact ⟨_, given.cons supplied fresh (map_taken mapTaken) translated⟩

/-- The loop of `vmm_alloc` comes to its end if there are four pages for each of its own. -/
theorem allocPages_total {root aligned flags : Nat} {pml : Pml} (position count : Nat)
    (supplied : 4 * count ≤ pml.supply.length) :
    (allocPages pml root aligned flags position count).isSome := by
  induction count generalizing position pml with
  | zero => rfl
  | succ count ih =>
    cases supply : pml.supply with
    | nil =>
      rw [supply, List.length_nil] at supplied
      omega
    | cons frame rest =>
      rw [supply, List.length_cons] at supplied
      have framed : takeFrame pml = some (frame, { pml with supply := rest }) := by
        rw [takeFrame, supply]
      obtain ⟨mapped, mapTaken⟩ := Option.isSome_iff_exists.mp (map_total { pml with supply := rest } root
        (add aligned (mul position pageSize)) (higherToLower frame) 1 flags (by dsimp only; omega))
      have most : rest.length ≤ mapped.supply.length + 3 := (map_taken mapTaken).most
      rw [allocPages]
      simp only [framed, mapTaken, Option.bind_eq_bind, Option.bind_some]
      exact ih (position + 1) (by omega)

end Asym.FrameSupplies
