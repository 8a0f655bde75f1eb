import Asym.PageBitmap
import Asym.Runs
import Mathlib.Data.Finset.Card
import Mathlib.Order.Interval.Finset.Nat

/-!
# The search of the bitmap

`page_bitmap_alloc` goes through the bitmap from `bitmap.firstFreeIndex` on, in
steps of the alignment, and skips from the end of a run that is too short to the
next multiple of the alignment. The returned pages are aligned because the search
always starts at zero: the index is zero after `page_bitmap_init`, and a release
only takes a minimum with it.

The length of a run is compared with `count` inside the loop that extends the run,
after the test of the limit. A run that ends at the limit is therefore not
accepted, and the search is complete for the ranges that end before the limit.
-/

namespace Asym.BitmapSearch

open MachineWords PhysicalMemory PageBitmap

section Search

/-- All pages of a range are free. -/
def FreeRange (map : List (BitVec 8)) (first count : Nat) : Prop :=
  ∀ index, first ≤ index → index < first + count → reservedBit map index = false

/-- The alignment in pages: at least one, and rounded up. -/
def alignmentPages (alignment : Nat) : Nat := max ((alignment + pageSize - 1) / pageSize) 1

/-- The number of pages below `maxAddr` that are special pages. -/
def pageLimit (maxAddr : Nat) : Nat := min maxAddr pmmMaxSpecialAddr / pageSize

/-- The step of the search, as `page_bitmap_alloc` computes it. -/
def searchStride (alignment : Nat) : Nat := max (roundUp alignment pageSize) pageSize / pageSize

/-- The step of the search is at least one page. -/
theorem searchStride_pos (alignment : Nat) : 0 < searchStride alignment := by
  have least : pageSize ≤ max (roundUp alignment pageSize) pageSize := Nat.le_max_right _ _
  exact Nat.div_pos least (by decide)

/-- The step of the search is the alignment in pages, unless rounding up wraps to zero. -/
theorem searchStride_eq {alignment : Nat} (fits : alignment + pageSize ≤ wordSize) :
    searchStride alignment = alignmentPages alignment := by
  simp only [searchStride, alignmentPages, roundUp, add, sub, pageSize, wordSize] at *
  omega

/-- The step of the search is one page if rounding up wraps. -/
theorem searchStride_wraps (alignment : Nat) (word : alignment < wordSize)
    (wraps : wordSize < alignment + pageSize) : searchStride alignment = 1 := by
  simp only [searchStride, roundUp, add, sub, pageSize, wordSize] at *
  omega

/-- The step of the search is far from wrapping an index. -/
theorem searchStride_le (alignment : Nat) : searchStride alignment ≤ 2 ^ 52 := by
  simp only [searchStride, roundUp, add, sub, pageSize, wordSize]
  omega

/-- The limit of a search lies in the bitmap. -/
theorem pageLimit_le (maxAddr : Nat) : pageLimit maxAddr ≤ specialPages :=
  Nat.div_le_div_right (Nat.min_le_right _ _)

/-- What the inner loop finds. It stops with a range of the requested length that
ends before the limit, or the range from `first` on is too short: it meets a reserved
page or the limit first. -/
structure RunStops (map : List (BitVec 8)) (count first limit : Nat) (found : Bool) (stop : Nat) :
    Prop where
  after : first < stop
  inside : stop ≤ limit
  free : FreeRange map first (stop - first)
  complete : found = true → stop = first + count ∧ stop < limit
  short : found = false → stop ≤ first + count ∧
    (stop < limit → stop < first + count ∧ reservedBit map stop = true)

/-- The inner loop from `next` on, when the pages from `first` to `next` are free and
fewer than requested. The induction is on the pages left below the limit. -/
theorem run_spec (bitmap : PageBitmap) (count first remaining next : Nat) (started : first < next)
    (bounded : next + remaining ≤ specialPages) (few : next ≤ first + count)
    (passed : FreeRange bitmap.map first (next - first)) :
    ∃ found stop, pageBitmapRun bitmap count first remaining next = some (found, stop) ∧
      RunStops bitmap.map count first (next + remaining) found stop := by
  induction remaining generalizing next with
  | zero =>
    refine ⟨false, next, rfl, started, Nat.le_refl _, passed, ?_, ?_⟩
    · intro impossible
      exact absurd impossible Bool.false_ne_true
    · intro _
      exact ⟨few, fun below => absurd below (Nat.lt_irrefl _)⟩
  | succ remaining ih =>
    by_cases enough : next - first = count
    · refine ⟨true, next, by rw [pageBitmapRun, if_pos enough], started, by omega, passed, ?_, ?_⟩
      · intro _
        omega
      · intro impossible
        exact absurd impossible.symm Bool.false_ne_true
    · have inside : next < specialPages := by omega
      have unfolded : pageBitmapRun bitmap count first (remaining + 1) next =
          if reservedBit bitmap.map next = true then some (false, next)
          else pageBitmapRun bitmap count first remaining (next + 1) := by
        rw [pageBitmapRun, if_neg enough, reserved_eq bitmap next inside]
        rfl
      rw [unfolded]
      by_cases taken : reservedBit bitmap.map next = true
      · refine ⟨false, next, if_pos taken, started, by omega, passed, ?_, ?_⟩
        · intro impossible
          exact absurd impossible Bool.false_ne_true
        · intro _
          exact ⟨few, fun _ => ⟨by omega, taken⟩⟩
      · have free : FreeRange bitmap.map first (next + 1 - first) := by
          intro index lower upper
          by_cases here : index = next
          · subst here
            exact Bool.eq_false_of_not_eq_true taken
          · exact passed index lower (by omega)
        obtain ⟨found, stop, result, stops⟩ :=
          ih (next + 1) (by omega) (by omega) (by omega) free
        rw [Nat.add_right_comm, Nat.add_assoc] at stops
        exact ⟨found, stop, by rw [if_neg taken, result], stops⟩

/-- Where the search goes on after a run that was too short: at the next multiple of
the step. -/
theorem resumed_eq (stop stride : Nat) (positive : 0 < stride) (after : 0 < stop)
    (small : stop ≤ 2 ^ 52) (bounded : stride ≤ 2 ^ 52) :
    add (sub (max (roundUp stop stride) stride) stride) stride = (stop + stride - 1) / stride * stride := by
  have sum : sub (add stop stride) 1 = stop + stride - 1 := by
    simp only [add, sub, wordSize]
    omega
  have whole : stride ≤ (stop + stride - 1) / stride * stride := by
    have one : 1 ≤ (stop + stride - 1) / stride := Nat.div_pos (by omega) positive
    exact Nat.le_mul_of_pos_left _ one
  have least : (stop + stride - 1) / stride * stride ≤ stop + stride - 1 := Nat.div_mul_le_self _ _
  rw [roundUp, sum, Nat.max_eq_left whole]
  simp only [add, sub, wordSize]
  omega

/-- The multiples of the step that a run skips are those it contains. -/
theorem skipped_inside {stop stride index : Nat} (positive : 0 < stride) (aligned : stride ∣ index)
    (skipped : index < (stop + stride - 1) / stride * stride) : index < stop := by
  obtain ⟨turns, rfl⟩ := aligned
  rw [Nat.mul_comm] at skipped
  have fewer : turns < (stop + stride - 1) / stride := Nat.lt_of_mul_lt_mul_right skipped
  have reached : (turns + 1) * stride ≤ stop + stride - 1 := (Nat.le_div_iff_mul_le positive).mp fewer
  rw [Nat.add_mul, Nat.one_mul, Nat.mul_comm] at reached
  omega

/-- The next multiple of the step is not before the end of the run. -/
theorem resumed_ge (stop stride : Nat) (positive : 0 < stride) :
    stop ≤ (stop + stride - 1) / stride * stride := by
  have below := @Nat.lt_div_mul_add (stop + stride - 1) stride positive
  omega

/-- A free range that would end before the limit does not start where a run was too
short, nor inside the run. -/
theorem short_run {map : List (BitVec 8)} {count first limit stop index : Nat}
    (stops : RunStops map count first limit false stop) (lower : first ≤ index) (inside : index < stop)
    (ends : index + count < limit) : ¬ FreeRange map index count := by
  intro free
  obtain ⟨few, refused⟩ := stops.short rfl
  have below : stop < limit := by omega
  obtain ⟨fewer, taken⟩ := refused below
  have clear : reservedBit map stop = false := free stop (by omega) (by omega)
  exact Bool.false_ne_true (clear.symm.trans taken)

/-- What the search finds from a multiple of the step on: an aligned free range that
ends before the limit, or the knowledge that there is none. -/
def Answers (map : List (BitVec 8)) (count limit stride start : Nat) : Option (Nat × Nat) → Prop
  | some (first, stop) =>
      start ≤ first ∧ stop = first + count ∧ stop < limit ∧ stride ∣ first ∧ FreeRange map first count
  | none =>
      ∀ index, start ≤ index → stride ∣ index → index + count < limit → ¬ FreeRange map index count

/-- An answer from further on is an answer if no range starts in between. -/
theorem Answers.earlier {map : List (BitVec 8)} {count limit stride start later : Nat}
    {answer : Option (Nat × Nat)} (ordered : start ≤ later)
    (skipped : ∀ index, start ≤ index → index < later → stride ∣ index → index + count < limit →
      ¬ FreeRange map index count)
    (answers : Answers map count limit stride later answer) :
    Answers map count limit stride start answer := by
  cases answer with
  | none =>
    intro index lower aligned ends
    by_cases between : index < later
    · exact skipped index lower between aligned ends
    · exact answers index (Nat.le_of_not_lt between) aligned ends
  | some range =>
    obtain ⟨first, stop⟩ := range
    exact ⟨Nat.le_trans ordered answers.1, answers.2⟩

/-- The outer loop. The start grows with every turn, so that fuel for the indices up
to the limit is enough, and no assertion fails. The induction is on the fuel. -/
theorem search_spec (bitmap : PageBitmap) (count limit stride fuel start : Nat) (counted : 0 < count)
    (positive : 0 < stride) (bounded : stride ≤ 2 ^ 52) (limited : limit ≤ specialPages)
    (enough : limit ≤ start + fuel) (aligned : stride ∣ start) :
    ∃ answer, pageBitmapSearch bitmap count limit stride fuel start = some answer ∧
      Answers bitmap.map count limit stride start answer := by
  induction fuel generalizing start with
  | zero =>
    have finished : ¬ start < limit := by omega
    refine ⟨none, by rw [pageBitmapSearch, if_neg finished], ?_⟩
    intro index lower _ ends
    omega
  | succ fuel ih =>
    by_cases inside : start < limit
    · have special : start < specialPages := by omega
      have small : specialPages ≤ 2 ^ 52 := by decide
      by_cases taken : reservedBit bitmap.map start = true
      · have next : add start stride = start + stride := by
          refine add_of_lt _ _ ?_
          simp only [wordSize]
          omega
        obtain ⟨answer, result, answers⟩ := ih (start + stride) (by omega)
          (Nat.dvd_add aligned (Nat.dvd_refl stride))
        refine ⟨answer, ?_, answers.earlier (by omega) ?_⟩
        · rw [pageBitmapSearch, if_pos inside, reserved_eq bitmap start special, taken]
          simpa [next] using result
        · intro index lower upper multiple _ free
          -- The only multiple of the step before the next turn is the reserved page.
          have here : index = start := by
            obtain ⟨turns, rfl⟩ := aligned
            obtain ⟨others, rfl⟩ := multiple
            have least : turns ≤ others := Nat.le_of_mul_le_mul_left lower positive
            rw [← Nat.mul_succ] at upper
            have most : others < turns + 1 := Nat.lt_of_mul_lt_mul_left upper
            rw [Nat.le_antisymm (Nat.le_of_lt_succ most) least]
          subst here
          have clear := free index (Nat.le_refl _) (Nat.lt_add_of_pos_right counted)
          exact Bool.false_ne_true (clear.symm.trans taken)
      · have free : reservedBit bitmap.map start = false := Bool.eq_false_of_not_eq_true taken
        have passed : FreeRange bitmap.map start (start + 1 - start) := by
          intro index lower upper
          obtain rfl : index = start := by omega
          exact free
        obtain ⟨found, stop, ran, stops⟩ := run_spec bitmap count start (limit - (start + 1)) (start + 1)
          (Nat.lt_succ_self _) (by omega) (by omega) passed
        have reached : start + 1 + (limit - (start + 1)) = limit := by omega
        rw [reached] at stops
        have turn : pageBitmapSearch bitmap count limit stride (fuel + 1) start =
            if found = true then some (some (start, stop))
            else pageBitmapSearch bitmap count limit stride fuel
              (add (sub (max (roundUp stop stride) stride) stride) stride) := by
          rw [pageBitmapSearch, if_pos inside, reserved_eq bitmap start special, free]
          simp [ran]
        rw [turn]
        cases found with
        | true =>
          obtain ⟨length, below⟩ := stops.complete rfl
          have whole := stops.free
          rw [length, Nat.add_sub_cancel_left] at whole
          exact ⟨some (start, stop), if_pos rfl, Nat.le_refl _, length, below, aligned, whole⟩
        | false =>
          have after := stops.after
          have upTo := stops.inside
          have resumes := resumed_eq stop stride positive (by omega) (by omega) bounded
          have further := resumed_ge stop stride positive
          rw [if_neg Bool.false_ne_true, resumes]
          obtain ⟨answer, result, answers⟩ := ih ((stop + stride - 1) / stride * stride)
            (by omega) (Nat.dvd_mul_left _ _)
          refine ⟨answer, result, answers.earlier (by omega) ?_⟩
          intro index lower upper multiple ends
          have withinRun := skipped_inside positive multiple upper
          exact short_run stops lower withinRun ends
    · refine ⟨none, by rw [pageBitmapSearch, if_neg inside], ?_⟩
      intro index lower _ ends
      omega

end Search

section Allocation

/-- The pages whose bit is clear. -/
def freePages (map : List (BitVec 8)) : Finset Nat :=
  (Finset.range specialPages).filter (fun index => reservedBit map index = false)

/-- What holds between any two calls: the search starts at zero, and the counter
counts the clear bits. -/
structure Sound (pmm : Pmm) : Prop where
  size : pmm.bitmap.map.length = specialPages / 8
  start : pmm.bitmap.firstFreeIndex = 0
  amount : pmm.freePageAmount = (freePages pmm.bitmap.map).card

/-- The bits after `page_bitmap_init` are all set. -/
theorem init_reserved (index : Nat) (inside : index < specialPages) :
    reservedBit pageBitmapInit.map index = true := by
  have stored : index / 8 < specialPages / 8 := by
    simp only [specialPages, pmmMaxSpecialAddr, pageSize] at *
    omega
  have bit : index % 8 < 8 := Nat.mod_lt _ (by decide)
  rw [reservedBit, pageBitmapInit, List.getD_eq_getElem?_getD,
    List.getElem?_replicate_of_lt stored, Option.getD_some]
  have full : ∀ position < 8, (255#8).getLsbD position = true := by decide
  exact full _ bit

/-- The allocator after `page_bitmap_init` is sound. -/
theorem sound_init (memory : ByteMemory.Memory) : Sound (pmmEmpty memory) := by
  refine ⟨List.length_replicate, rfl, ?_⟩
  have none : freePages (pmmEmpty memory).bitmap.map = ∅ := by
    refine Finset.filter_eq_empty_iff.mpr ?_
    intro index inside clear
    exact Bool.false_ne_true (clear.symm.trans (init_reserved index (Finset.mem_range.mp inside)))
  rw [none]
  rfl

/-- There are no more clear bits than special pages. -/
theorem freePages_card_le (map : List (BitVec 8)) : (freePages map).card ≤ specialPages := by
  have most := Finset.card_filter_le (Finset.range specialPages)
    (fun index => reservedBit map index = false)
  rwa [Finset.card_range] at most

/-- The bitmap index of an address. -/
def pageIndex (address : Nat) : Nat := sub address vmmHigherHalfBase / pageSize

/-- A page that `page_bitmap_free` may be given: in range and reserved. -/
def Releasable (pmm : Pmm) (address : Nat) : Prop :=
  pageIndex address < specialPages ∧ reservedBit pmm.bitmap.map (pageIndex address) = true

/-- A release of a reserved page clears its bit and no other one. -/
theorem free_sound (pmm : Pmm) (address : Nat) (sound : Sound pmm) (releasable : Releasable pmm address) :
    ∃ next, pageBitmapFree pmm address = some next ∧ Sound next ∧
      ∀ index, reservedBit next.bitmap.map index =
        (reservedBit pmm.bitmap.map index && decide (index ≠ pageIndex address)) := by
  obtain ⟨inside, taken⟩ := releasable
  have stored : pageIndex address / 8 < pmm.bitmap.map.length := by
    rw [sound.size]
    simp only [specialPages, pmmMaxSpecialAddr, pageSize] at *
    omega
  have bits := fun tested => bit_release (pageIndex address) tested stored
  refine ⟨_, if_pos inside, ⟨?_, ?_, ?_⟩, bits⟩
  · rw [List.length_set]
    exact sound.size
  · change min pmm.bitmap.firstFreeIndex _ = 0
    rw [sound.start]
    exact Nat.zero_min _
  · have grown : freePages (pmm.bitmap.map.set (pageIndex address / 8)
        (pmm.bitmap.map.getD (pageIndex address / 8) 0#8 &&& ~~~(1#8 <<< (pageIndex address % 8)))) =
        insert (pageIndex address) (freePages pmm.bitmap.map) := by
      ext index
      simp only [freePages, Finset.mem_filter, Finset.mem_range, Finset.mem_insert, bits]
      by_cases here : index = pageIndex address
      · simp [here, inside]
      · simp [here]
    have absent : pageIndex address ∉ freePages pmm.bitmap.map := by
      intro member
      exact Bool.false_ne_true ((Finset.mem_filter.mp member).2.symm.trans taken)
    have few := freePages_card_le pmm.bitmap.map
    change add pmm.freePageAmount 1 = (freePages (pmm.bitmap.map.set (pageIndex address / 8)
      (pmm.bitmap.map.getD (pageIndex address / 8) 0#8 &&& ~~~(1#8 <<< (pageIndex address % 8))))).card
    rw [grown, Finset.card_insert_of_notMem absent, sound.amount, add_of_lt]
    refine Nat.lt_of_le_of_lt (Nat.add_le_add_right few 1) ?_
    decide

/-- What a returned range is: `index` is its first page. -/
structure Granted (before after : Pmm) (count maxAddr alignment address index : Nat) : Prop where
  here : address = vmmHigherHalfBase + index * pageSize
  free : FreeRange before.bitmap.map index count
  reserved : ∀ page, index ≤ page → page < index + count → reservedBit after.bitmap.map page = true
  unchanged : ∀ page, ¬ (index ≤ page ∧ page < index + count) →
    reservedBit after.bitmap.map page = reservedBit before.bitmap.map page
  aligned : alignmentPages alignment * pageSize ∣ index * pageSize
  below : (index + count) * pageSize ≤ min maxAddr pmmMaxSpecialAddr
  amount : after.freePageAmount + count = before.freePageAmount

/-- The allocator after a range was taken. -/
def reserveRange (pmm : Pmm) (first count : Nat) : Pmm :=
  { pmm with
    bitmap := { pmm.bitmap with map := reserveBits pmm.bitmap.map first count }
    freePageAmount := sub pmm.freePageAmount count }

/-- The two outcomes of `page_bitmap_alloc` on a sound allocator: it returns `NULL` and
no aligned free range ends before the limit, or it takes such a range. -/
theorem alloc_spec (pmm : Pmm) (count maxAddr alignment : Nat) (sound : Sound pmm) (counted : 0 < count) :
    (pageBitmapAlloc pmm count maxAddr alignment = some (0, pmm) ∧
      ∀ index, searchStride alignment ∣ index → index + count < pageLimit maxAddr →
        ¬ FreeRange pmm.bitmap.map index count) ∨
    ∃ first, pageBitmapAlloc pmm count maxAddr alignment =
        some (vmmHigherHalfBase + first * pageSize, reserveRange pmm first count) ∧
      searchStride alignment ∣ first ∧ first + count < pageLimit maxAddr ∧
      FreeRange pmm.bitmap.map first count := by
  obtain ⟨answer, result, answers⟩ := search_spec pmm.bitmap count (pageLimit maxAddr)
    (searchStride alignment) (pageLimit maxAddr) pmm.bitmap.firstFreeIndex counted
    (searchStride_pos alignment) (searchStride_le alignment) (pageLimit_le maxAddr)
    (Nat.le_add_left _ _) (sound.start ▸ Nat.dvd_zero _)
  have limited := pageLimit_le maxAddr
  simp only [searchStride, pageLimit] at result
  cases answer with
  | none =>
    refine .inl ⟨by simp only [pageBitmapAlloc, result, Option.bind_eq_bind, Option.bind_some], ?_⟩
    intro index aligned ends
    exact answers index (sound.start ▸ Nat.zero_le _) aligned ends
  | some range =>
    obtain ⟨first, stop⟩ := range
    obtain ⟨_, length, below, aligned, free⟩ := answers
    subst length
    have inside : first + count < specialPages := Nat.lt_of_lt_of_le below limited
    have address : add (first * pageSize) vmmHigherHalfBase = vmmHigherHalfBase + first * pageSize := by
      rw [Nat.add_comm vmmHigherHalfBase]
      refine add_of_lt _ _ ?_
      simp only [specialPages, pmmMaxSpecialAddr, pageSize, vmmHigherHalfBase, wordSize] at *
      omega
    refine .inr ⟨first, ?_, aligned, below, free⟩
    simp only [pageBitmapAlloc, result, Option.bind_eq_bind, Option.bind_some, pageBitmapReserve, inside,
      if_true, address, Nat.add_sub_cancel_left, reserveRange]

/-- Taking a free range reserves its pages, and the counter drops by their number. -/
theorem reserve_sound {pmm : Pmm} {first count : Nat} (sound : Sound pmm)
    (inside : first + count ≤ specialPages) (free : FreeRange pmm.bitmap.map first count) :
    Sound (reserveRange pmm first count) ∧
      (∀ index, reservedBit (reserveRange pmm first count).bitmap.map index =
        (reservedBit pmm.bitmap.map index || decide (first ≤ index ∧ index < first + count))) ∧
      (reserveRange pmm first count).freePageAmount + count = pmm.freePageAmount := by
  have stored : first + count ≤ 8 * pmm.bitmap.map.length := by
    rw [sound.size]
    simp only [specialPages, pmmMaxSpecialAddr, pageSize] at *
    omega
  obtain ⟨length, bits⟩ := reserve_bits pmm.bitmap.map first count stored
  have part : Finset.Ico first (first + count) ⊆ freePages pmm.bitmap.map := by
    intro index member
    obtain ⟨lower, upper⟩ := Finset.mem_Ico.mp member
    exact Finset.mem_filter.mpr ⟨Finset.mem_range.mpr (by omega), free index lower upper⟩
  have shrunk : freePages (reserveBits pmm.bitmap.map first count) =
      freePages pmm.bitmap.map \ Finset.Ico first (first + count) := by
    ext index
    simp only [freePages, Finset.mem_filter, Finset.mem_range, Finset.mem_sdiff, Finset.mem_Ico, bits,
      Bool.or_eq_false_iff, decide_eq_false_iff_not, and_assoc]
  have size := Finset.card_sdiff_of_subset part
  have least := Finset.card_le_card part
  rw [Nat.card_Ico, Nat.add_sub_cancel_left] at size least
  have few := freePages_card_le pmm.bitmap.map
  have amount : sub pmm.freePageAmount count = (freePages pmm.bitmap.map).card - count := by
    rw [sound.amount]
    refine sub_of_le _ _ least (Nat.lt_of_le_of_lt few ?_)
    decide
  refine ⟨⟨length.trans sound.size, sound.start, ?_⟩, bits, ?_⟩
  · change sub pmm.freePageAmount count = (freePages (reserveBits pmm.bitmap.map first count)).card
    rw [shrunk, size, amount]
  · change sub pmm.freePageAmount count + count = pmm.freePageAmount
    rw [amount, sound.amount, Nat.sub_add_cancel least]

/-- A call on the bitmap. -/
inductive Call where
  | free (address : Nat)
  | alloc (count maxAddr alignment : Nat)

/-- The calls that the allocator may be given: a reserved page in range is released,
and at least one page is asked for, with a machine word as alignment. -/
def Admissible (pmm : Pmm) : Call → Prop
  | .free address => Releasable pmm address
  | .alloc count _ alignment => 1 ≤ count ∧ alignment < wordSize

/-- The allocator after a call that does not stop at an assertion. -/
def perform (pmm : Pmm) : Call → Option Pmm
  | .free address => pageBitmapFree pmm address
  | .alloc count maxAddr alignment =>
      (pageBitmapAlloc pmm count maxAddr alignment).map (fun result => result.2)

/-- One admissible call. -/
def Step (before after : Pmm) : Prop := ∃ call, Admissible before call ∧ perform before call = some after

/-- Allocators that admissible calls make of a bitmap as `page_bitmap_init` leaves
it. -/
def Reachable (pmm : Pmm) : Prop :=
  Runs.Reachable (fun start => ∃ memory, start = pmmEmpty memory) Step pmm

/-- Every admissible call returns, and leaves a sound allocator. -/
theorem perform_sound (pmm : Pmm) (call : Call) (sound : Sound pmm) (admissible : Admissible pmm call) :
    ∃ next, perform pmm call = some next ∧ Sound next := by
  cases call with
  | free address =>
    obtain ⟨next, released, after, _⟩ := free_sound pmm address sound admissible
    exact ⟨next, released, after⟩
  | alloc count maxAddr alignment =>
    rcases alloc_spec pmm count maxAddr alignment sound admissible.1 with
      ⟨result, _⟩ | ⟨first, result, _, below, free⟩
    · exact ⟨pmm, by rw [perform, result, Option.map_some], sound⟩
    · have inside : first + count ≤ specialPages :=
        Nat.le_of_lt (Nat.lt_of_lt_of_le below (pageLimit_le maxAddr))
      exact ⟨_, by rw [perform, result, Option.map_some], (reserve_sound sound inside free).1⟩

/-- Every reachable allocator is sound. -/
theorem reachable_sound (pmm : Pmm) (reachable : Reachable pmm) : Sound pmm := by
  refine Runs.reachable_invariant ?_ ?_ reachable
  · rintro start ⟨memory, rfl⟩
    exact sound_init memory
  · rintro before after sound ⟨call, admissible, taken⟩
    obtain ⟨next, performed, after_⟩ := perform_sound before call sound admissible
    obtain rfl : next = after := Option.some.inj (performed.symm.trans taken)
    exact after_

/-- A range below the limit in bytes. -/
theorem below_limit (first count maxAddr : Nat) :
    first + count ≤ pageLimit maxAddr ↔ (first + count) * pageSize ≤ min maxAddr pmmMaxSpecialAddr :=
  Nat.le_div_iff_mul_le (by decide)

/-- In every reachable state the calls return: no assertion fails and the search ends.
What `page_bitmap_alloc` returns, unless it is `NULL`, is the address of a range of
pages that were free and are reserved now, while all other bits are as before; the
range is aligned, lies below the limits, and is taken off the counter. -/
theorem bitmap_alloc_sound (pmm : Pmm) (reachable : Reachable pmm) :
    (∀ address, Releasable pmm address → ∃ next, pageBitmapFree pmm address = some next) ∧
    ∀ count maxAddr alignment, 1 ≤ count → alignment ≤ 2 ^ 63 →
      ∃ address next, pageBitmapAlloc pmm count maxAddr alignment = some (address, next) ∧
        (address ≠ 0 → ∃ index, Granted pmm next count maxAddr alignment address index) := by
  have sound := reachable_sound pmm reachable
  constructor
  · intro address releasable
    obtain ⟨next, released, _⟩ := free_sound pmm address sound releasable
    exact ⟨next, released⟩
  · intro count maxAddr alignment counted small
    rcases alloc_spec pmm count maxAddr alignment sound counted with
      ⟨result, _⟩ | ⟨first, result, aligned, below, free⟩
    · exact ⟨0, pmm, result, fun null => absurd rfl null⟩
    · have inside : first + count ≤ specialPages :=
        Nat.le_of_lt (Nat.lt_of_lt_of_le below (pageLimit_le maxAddr))
      obtain ⟨_, bits, amount⟩ := reserve_sound sound inside free
      have fits : alignment + pageSize ≤ wordSize := by
        simp only [pageSize, wordSize]
        omega
      refine ⟨_, _, result, fun _ => ⟨first, rfl, free, ?_, ?_, ?_, ?_, amount⟩⟩
      · intro page lower upper
        simp [bits, lower, upper]
      · intro page outside
        rw [bits, decide_eq_false outside, Bool.or_false]
      · rw [searchStride_eq fits] at aligned
        exact Nat.mul_dvd_mul_right aligned pageSize
      · exact (below_limit first count maxAddr).mp (Nat.le_of_lt below)

/-- An aligned free range below the limits. -/
structure Fits (pmm : Pmm) (count maxAddr alignment index : Nat) : Prop where
  aligned : alignmentPages alignment ∣ index
  free : FreeRange pmm.bitmap.map index count
  below : (index + count) * pageSize ≤ min maxAddr pmmMaxSpecialAddr

/-- `page_bitmap_alloc` returns `NULL`, and `pmm_alloc_special` stops, only if no range
fits. -/
def CompleteSearch (pmm : Pmm) (count maxAddr alignment : Nat) : Prop :=
  ((∃ next, pageBitmapAlloc pmm count maxAddr alignment = some (0, next)) ∨
      pmmAllocSpecial pmm count maxAddr alignment = none) →
    ∀ index, ¬ Fits pmm count maxAddr alignment index

/-- Some range that fits ends before the limit, or none that fits ends at it. -/
def EndsEarlier (pmm : Pmm) (count maxAddr alignment : Nat) : Prop :=
  (∃ index, Fits pmm count maxAddr alignment index ∧ index + count < pageLimit maxAddr) ∨
    ∀ index, index + count = pageLimit maxAddr → ¬ Fits pmm count maxAddr alignment index

/-- The search visits every multiple of the alignment. -/
theorem searchStride_dvd {alignment index : Nat} (word : alignment < wordSize)
    (aligned : alignmentPages alignment ∣ index) : searchStride alignment ∣ index := by
  by_cases fits : alignment + pageSize ≤ wordSize
  · rwa [searchStride_eq fits]
  · rw [searchStride_wraps alignment word (Nat.lt_of_not_le fits)]
    exact Nat.one_dvd index

/-- If a range that fits ends at the limit and none ends before it, the search finds
nothing. An alignment for which rounding up wraps leaves only the range from zero on,
and no range of that length ends before the limit. -/
theorem search_misses {pmm : Pmm} {count maxAddr alignment index first : Nat} (word : alignment < wordSize)
    (ends : index + count = pageLimit maxAddr) (fits : Fits pmm count maxAddr alignment index)
    (none : ∀ index, Fits pmm count maxAddr alignment index → ¬ index + count < pageLimit maxAddr)
    (aligned : searchStride alignment ∣ first) (below : first + count < pageLimit maxAddr) :
    ¬ FreeRange pmm.bitmap.map first count := by
  intro free
  by_cases small : alignment + pageSize ≤ wordSize
  · rw [searchStride_eq small] at aligned
    exact none first ⟨aligned, free, (below_limit first count maxAddr).mp (Nat.le_of_lt below)⟩ below
  · have wide : 2 ^ 52 ≤ alignmentPages alignment := by
      simp only [alignmentPages, pageSize, wordSize] at *
      omega
    have limited := pageLimit_le maxAddr
    have few : specialPages < 2 ^ 52 := by decide
    have atZero : index = 0 := Nat.eq_zero_of_dvd_of_lt fits.aligned (by omega)
    omega

/-- `page_bitmap_alloc` gives up, and `pmm_alloc_special` with it, when the search finds
nothing. -/
theorem gives_up_iff (pmm : Pmm) (count maxAddr alignment : Nat) (sound : Sound pmm) (counted : 0 < count) :
    ((∃ next, pageBitmapAlloc pmm count maxAddr alignment = some (0, next)) ∨
        pmmAllocSpecial pmm count maxAddr alignment = none) ↔
      ∀ index, searchStride alignment ∣ index → index + count < pageLimit maxAddr →
        ¬ FreeRange pmm.bitmap.map index count := by
  rcases alloc_spec pmm count maxAddr alignment sound counted with
    ⟨result, absent⟩ | ⟨first, result, aligned, below, free⟩
  · exact ⟨fun _ => absent, fun _ => .inl ⟨pmm, result⟩⟩
  · have nonzero : vmmHigherHalfBase + first * pageSize ≠ 0 := by
      simp only [vmmHigherHalfBase]
      omega
    constructor
    · rintro (⟨next, null⟩ | stopped)
      · rw [result] at null
        exact absurd (congrArg Prod.fst (Option.some.inj null)) nonzero
      · have granted : pmmAllocSpecial pmm count maxAddr alignment =
            some (vmmHigherHalfBase + first * pageSize, reserveRange pmm first count) := by
          simp only [pmmAllocSpecial, result, Option.bind_eq_bind, Option.bind_some, ne_eq, nonzero,
            not_false_eq_true, if_true]
        exact absurd (granted.symm.trans stopped) (Option.some_ne_none _)
    · intro absent
      exact absurd free (absent first aligned below)

/-- In every reachable state the search is complete for a request exactly when the
ranges that end at the limit are not the only ones that fit. -/
theorem complete_search_iff (pmm : Pmm) (reachable : Reachable pmm) (count maxAddr alignment : Nat)
    (counted : 1 ≤ count) (word : alignment < wordSize) :
    CompleteSearch pmm count maxAddr alignment ↔ EndsEarlier pmm count maxAddr alignment := by
  have sound := reachable_sound pmm reachable
  have gives_up := gives_up_iff pmm count maxAddr alignment sound counted
  constructor
  · intro complete
    by_contra onlyAtLimit
    obtain ⟨noneEarlier, someAtLimit⟩ := not_or.mp onlyAtLimit
    obtain ⟨index, refused⟩ := not_forall.mp someAtLimit
    obtain ⟨ends, atLimit⟩ := Classical.not_imp.mp refused
    have fits := Classical.not_not.mp atLimit
    refine complete (gives_up.mpr ?_) index fits
    intro first aligned below
    refine search_misses word ends fits ?_ aligned below
    exact fun other fitsOther earlier => noneEarlier ⟨other, fitsOther, earlier⟩
  · intro earlier null index fits
    have absent := gives_up.mp null
    have aligned := searchStride_dvd word fits.aligned
    have within := (below_limit index count maxAddr).mpr fits.below
    by_cases below : index + count < pageLimit maxAddr
    · exact absent index aligned below fits.free
    · rcases earlier with ⟨other, fitsOther, before⟩ | noneAtLimit
      · exact absent other (searchStride_dvd word fitsOther.aligned) before fitsOther.free
      · exact noneAtLimit index (Nat.le_antisymm within (Nat.le_of_not_lt below)) fits

/-- The first two special pages are released. -/
def twoPages : List Call := [.free vmmHigherHalfBase, .free (vmmHigherHalfBase + pageSize)]

/-- The allocator after the sample calls. -/
theorem twoPages_reachable : ∃ pmm, twoPages.foldlM perform (pmmEmpty (fun _ => 0)) = some pmm ∧
    Reachable pmm ∧ FreeRange pmm.bitmap.map 0 2 := by
  have sound := sound_init (fun _ => 0)
  have firstOpen : Releasable (pmmEmpty (fun _ => 0)) vmmHigherHalfBase :=
    ⟨by decide, init_reserved _ (by decide)⟩
  obtain ⟨one, firstDone, soundOne, bitsOne⟩ := free_sound _ _ sound firstOpen
  have firstIndex : pageIndex vmmHigherHalfBase = 0 := by decide
  have secondIndex : pageIndex (vmmHigherHalfBase + pageSize) = 1 := by decide
  have secondOpen : Releasable one (vmmHigherHalfBase + pageSize) := by
    refine ⟨by decide, ?_⟩
    rw [bitsOne, firstIndex, secondIndex]
    exact Bool.and_eq_true_iff.mpr ⟨init_reserved 1 (by decide), rfl⟩
  obtain ⟨two, secondDone, _, bitsTwo⟩ := free_sound one _ soundOne secondOpen
  have run : twoPages.foldlM perform (pmmEmpty (fun _ => 0)) = some two := by
    simp [twoPages, perform, firstDone, secondDone]
  have firstStep : Step (pmmEmpty (fun _ => 0)) one := ⟨.free vmmHigherHalfBase, firstOpen, firstDone⟩
  have secondStep : Step one two := ⟨.free (vmmHigherHalfBase + pageSize), secondOpen, secondDone⟩
  have steps := (Relation.ReflTransGen.single firstStep).tail secondStep
  refine ⟨two, run, ⟨pmmEmpty (fun _ => 0), ⟨fun _ => 0, rfl⟩, steps⟩, ?_⟩
  intro index _ upper
  rw [bitsTwo, bitsOne, firstIndex, secondIndex]
  have low : index = 0 ∨ index = 1 := by omega
  rcases low with rfl | rfl
  · simp
  · simp

/-- After the sample calls, a page below sixteen pages is granted as claimed. -/
theorem bitmap_alloc_sound_sample :
    ∃ pmm, twoPages.foldlM perform (pmmEmpty (fun _ => 0)) = some pmm ∧ Reachable pmm ∧
      ∃ address next index, pageBitmapAlloc pmm 1 0x10000 0x1000 = some (address, next) ∧
        Granted pmm next 1 0x10000 0x1000 address index := by
  obtain ⟨pmm, run, reachable, free⟩ := twoPages_reachable
  have sound := reachable_sound pmm reachable
  obtain ⟨address, next, result, granted⟩ :=
    (bitmap_alloc_sound pmm reachable).2 1 0x10000 0x1000 (by decide) (by decide)
  have nonzero : address ≠ 0 := by
    rintro rfl
    have absent := (gives_up_iff pmm 1 0x10000 0x1000 sound (by decide)).mp (.inl ⟨next, result⟩)
    refine absent 0 (Nat.dvd_zero _) (by decide) ?_
    intro index lower upper
    exact free index lower (by omega)
  obtain ⟨index, range⟩ := granted nonzero
  exact ⟨pmm, run, reachable, address, next, index, result, range⟩

/-- After the sample calls, the search for one page below sixteen pages is complete. -/
theorem complete_search_sample :
    ∃ pmm, twoPages.foldlM perform (pmmEmpty (fun _ => 0)) = some pmm ∧ Reachable pmm ∧
      EndsEarlier pmm 1 0x10000 0x1000 ∧ CompleteSearch pmm 1 0x10000 0x1000 := by
  obtain ⟨pmm, run, reachable, free⟩ := twoPages_reachable
  have earlier : EndsEarlier pmm 1 0x10000 0x1000 := by
    refine .inl ⟨0, ⟨Nat.dvd_zero _, ?_, by decide⟩, by decide⟩
    intro index lower upper
    exact free index lower (by omega)
  have complete := (complete_search_iff pmm reachable 1 0x10000 0x1000 (by decide) (by decide)).mpr earlier
  exact ⟨pmm, run, reachable, earlier, complete⟩

/-- With exactly the first two special pages free, a request for two pages below
0x2000 is refused although they fit. -/
theorem fitting_range_missed :
    ∃ pmm, twoPages.foldlM perform (pmmEmpty (fun _ => 0)) = some pmm ∧ Reachable pmm ∧
      Fits pmm 2 0x2000 0x1000 0 ∧ ¬ CompleteSearch pmm 2 0x2000 0x1000 := by
  obtain ⟨pmm, run, reachable, free⟩ := twoPages_reachable
  have fits : Fits pmm 2 0x2000 0x1000 0 := ⟨Nat.dvd_zero _, free, by decide⟩
  refine ⟨pmm, run, reachable, fits, fun complete => ?_⟩
  refine complete ((gives_up_iff pmm 2 0x2000 0x1000 (reachable_sound pmm reachable) (by decide)).mpr ?_)
    0 fits
  intro index _ below
  have limit : pageLimit 0x2000 = 2 := by decide
  omega

end Allocation

end Asym.BitmapSearch
