import Asym.EventRuns
import Asym.StackAccounting

/-!
# The page stack when it runs empty

`page_stack_alloc` takes the stack to be empty if `stack.index` is zero and
`stack.last` is `NULL`. When the page of the last buffer is popped, `stack.last` becomes
`NULL` and `stack.index` becomes `PAGE_BUFFER_MAX - 1`. A further call therefore does not
return `NULL`: it reads an entry of a buffer at address zero. Only a release repairs the
index.

A ledger keeps the pages that were released and not handed out since. Between the calls
the holders of all other pages write into their pages as they like.
-/

namespace Asym.PageExhaustion

open ByteMemory MachineWords PhysicalMemory PageStack

/-- A call on the page stack, or one byte written by the holder of its page. -/
inductive Event where
  | alloc
  | free (page : Nat)
  | write (address : Nat) (value : UInt8)

/-- The allocator and the pages left with it. The number of pages that the stack is going
to serve is known from the calls alone: there is none before the first release, each
release adds a page and each allocation takes one, and an allocation that pops a buffer
above another buffer also takes an entry of the latter away. -/
structure Ledger where
  pmm : Pmm
  left : List Nat
  stock : Option Nat

/-- The number of pages that the stack serves after an allocation. -/
def served (stock : Nat) : Nat :=
  if stock % (pageBufferMax + 1) = 1 ∧ 1 < stock then stock - 2 else stock - 1

/-- The ledger after an event. Only a page that is not left with the stack can be
released, or written by a holder. -/
def step (ledger : Ledger) : Event → Option Ledger
  | .alloc => some {
      pmm := (pageStackAlloc ledger.pmm).2
      left := ledger.left.erase (pageStackAlloc ledger.pmm).1
      stock := ledger.stock.map served }
  | .free page =>
      if page % pageSize = 0 ∧ pmmMaxSpecialAddr + vmmHigherHalfBase ≤ page ∧ page < wordSize ∧
          page ∉ ledger.left then
        some {
          pmm := pageStackFree ledger.pmm page
          left := page :: ledger.left
          stock := some (ledger.stock.getD 0 + 1) }
      else none
  | .write address value =>
      if roundDown address pageSize ∈ ledger.left then none
      else some { ledger with
        pmm := { ledger.pmm with memory := Function.update ledger.pmm.memory address value } }

/-- The stack as `page_stack_init` leaves it. -/
def start (memory : Memory) : Ledger := { pmm := pmmEmpty memory, left := [], stock := none }

/-- `page_stack_alloc` reads an entry of `stack.last` unless the index is zero, and its
link if the index is zero and there is a buffer. -/
def dereferencesNull (stack : PageStack) : Prop := stack.index ≠ 0 ∧ stack.last = 0

/-- A call of `page_stack_alloc` reports exhaustion: it does not use a buffer at `NULL`, it
returns `NULL` exactly if no page is left and changes nothing then, and otherwise it
serves a page that is left. -/
structure Reports (ledger : Ledger) : Prop where
  pointer : ¬ dereferencesNull ledger.pmm.stack
  null : (pageStackAlloc ledger.pmm).1 = 0 ↔ ledger.left = []
  unchanged : (pageStackAlloc ledger.pmm).1 = 0 →
    (pageStackAlloc ledger.pmm).2.freePageAmount = ledger.pmm.freePageAmount
  serves : (pageStackAlloc ledger.pmm).1 ≠ 0 → (pageStackAlloc ledger.pmm).1 ∈ ledger.left

/-- An allocation reports exhaustion; a release and a write are accepted in any state. Over
a run, a page released after any number of `NULL` answers is left until it is served. -/
def Reported (ledger : Ledger) (event : Event) : Prop := event = .alloc → Reports ledger

/-- No allocation is made when the stack has served all it was going to serve. -/
def InStock (ledger : Ledger) (event : Event) : Prop := event = .alloc → ledger.stock ≠ some 0

/-- What holds between the calls: the chain of the stack consists of pages that are left,
as many as the stack is going to serve, and an emptied stack has an index other than
zero. -/
structure Sound (ledger : Ledger) : Prop where
  chain : ∃ chain, Represents ledger.pmm chain ∧ stacked chain ⊆ ledger.left ∧
    (stacked chain).length = ledger.stock.getD 0
  pages : ∀ page ∈ ledger.left, StackPage page
  fresh : ledger.stock = none → ledger.left = [] ∧ ledger.pmm.stack.index = 0
  emptied : ledger.stock = some 0 → ledger.pmm.stack.index ≠ 0

/-- The initial ledger is sound. -/
theorem start_sound (memory : Memory) : Sound (start memory) := by
  refine ⟨⟨[], ⟨rfl, Nat.zero_le _, List.nodup_nil, by simp⟩, by simp, rfl⟩, ?_, fun _ => ⟨rfl, rfl⟩, ?_⟩
  · intro page member
    exact absurd member List.not_mem_nil
  · intro impossible
    exact absurd impossible (by simp [start])

/-- A stack has a top buffer exactly if it is going to serve a page. -/
theorem last_eq_zero_iff {pmm : Pmm} {chain : List (Nat × List Nat)} (represented : Represents pmm chain) :
    pmm.stack.last = 0 ↔ (stacked chain).length = 0 := by
  constructor
  · intro empty
    have none : chain = [] := empty_chain (empty ▸ represented.buffers)
    rw [none]
    rfl
  · intro none
    cases chain with
    | nil => exact represented.buffers
    | cons head below =>
      rw [stacked_cons, List.length_cons] at none
      exact absurd none (Nat.succ_ne_zero _)

/-- How many pages an allocation leaves on the stack, and the index when none is left. -/
theorem alloc_stock {pmm : Pmm} {chain rest : List (Nat × List Nat)} {lost : List Nat}
    (represented : Represents pmm chain) (available : pmm.stack.last ≠ 0)
    (taken : Taken pmm (pageStackAlloc pmm).2 chain rest (pageStackAlloc pmm).1 lost)
    (few : lost.length ≤ 1) :
    (stacked rest).length = served (stacked chain).length ∧
      (served (stacked chain).length = 0 → (pageStackAlloc pmm).2.stack.index ≠ 0) := by
  cases chain with
  | nil => exact absurd represented.buffers available
  | cons head below =>
    have length := StackAccounting.stacked_length _ _ _ _ _ represented.buffers
    have bounded := represented.bounded
    have split := taken.pages.length_eq
    rw [List.length_cons, List.length_append] at split
    have exposes := taken.exposes
    rw [List.length_cons] at exposes
    have size : pageBufferMax = 511 := by decide
    rw [size] at length bounded
    by_cases atBuffer : pmm.stack.index = 0
    · have index : (pageStackAlloc pmm).2.stack.index = pageBufferMax - 1 := by
        simp [pageStackAlloc, atBuffer, available]
      refine ⟨?_, fun _ => by rw [index, size]; decide⟩
      rw [atBuffer] at length
      by_cases only : below.length = 0
      · have none : lost = [] := exposes.mpr (by omega)
        rw [none, List.length_nil] at split
        rw [served, size]
        split_ifs <;> omega
      · have some : lost ≠ [] := fun none => exposes.mp none ⟨atBuffer, by omega⟩
        have one : 0 < lost.length := List.length_pos_iff.mpr some
        rw [served, size, if_pos (by omega)]
        omega
    · have none : lost = [] := exposes.mpr (fun both => atBuffer both.1)
      rw [none, List.length_nil] at split
      have amount : served (stacked (head :: below)).length = (stacked (head :: below)).length - 1 := by
        rw [served, size, if_neg (by omega)]
      refine ⟨by omega, fun emptied => ?_⟩
      omega

/-- An allocation from a stack without buffer whose index is zero returns `NULL` and
changes nothing. -/
theorem alloc_empty {pmm : Pmm} (none : pmm.stack.last = 0) (index : pmm.stack.index = 0) :
    pageStackAlloc pmm = (0, pmm) := by
  rw [pageStackAlloc, if_pos index, if_pos none]

/-- An allocation reports exhaustion exactly if the stack has not served all it was going
to serve. -/
theorem reports_iff (ledger : Ledger) (sound : Sound ledger) :
    Reports ledger ↔ ledger.stock ≠ some 0 := by
  obtain ⟨chain, represented, kept, counted⟩ := sound.chain
  have empty_iff := last_eq_zero_iff represented
  constructor
  · intro reports emptied
    rw [emptied, Option.getD_some] at counted
    exact reports.pointer ⟨sound.emptied emptied, empty_iff.mpr counted⟩
  · intro inStock
    by_cases available : ledger.pmm.stack.last = 0
    · have fresh : ledger.stock = none := by
        cases stocked : ledger.stock with
        | none => rfl
        | some stock =>
          rw [stocked, Option.getD_some] at counted
          have zero : stock = 0 := counted.symm.trans (empty_iff.mp available)
          exact absurd (stocked.trans (congrArg some zero)) inStock
      obtain ⟨none, index⟩ := sound.fresh fresh
      have result := alloc_empty available index
      refine ⟨fun wrong => wrong.1 index, ?_, ?_, ?_⟩
      · exact iff_of_true (congrArg Prod.fst result) none
      · intro _
        rw [result]
      · intro some
        exact absurd (congrArg Prod.fst result) some
    · obtain ⟨rest, lost, taken⟩ := alloc_represents ledger.pmm chain represented available
      have stackedPage : (pageStackAlloc ledger.pmm).1 ∈ stacked chain :=
        taken.pages.mem_iff.mpr List.mem_cons_self
      have nonzero := stack_page_nonzero _ (represented.pages _ stackedPage)
      have isLeft := kept stackedPage
      refine ⟨fun wrong => available wrong.2, ?_, ?_, fun _ => isLeft⟩
      · exact iff_of_false nonzero (List.ne_nil_of_mem isLeft)
      · intro null
        exact absurd null nonzero

/-- An allocation that reports exhaustion leaves a sound ledger. -/
theorem alloc_sound (ledger next : Ledger) (sound : Sound ledger) (inStock : ledger.stock ≠ some 0)
    (taken : step ledger .alloc = some next) : Sound next := by
  obtain rfl := Option.some.inj taken
  obtain ⟨chain, represented, kept, counted⟩ := sound.chain
  have empty_iff := last_eq_zero_iff represented
  cases stocked : ledger.stock with
  | none =>
    rw [stocked, Option.getD_none] at counted
    obtain ⟨none, index⟩ := sound.fresh stocked
    have result := alloc_empty (empty_iff.mpr counted) index
    refine ⟨⟨chain, ?_, ?_, ?_⟩, ?_, ?_, ?_⟩
    · rwa [result]
    · rw [List.length_eq_zero_iff.mp counted]
      exact List.nil_subset _
    · rw [counted]
      rfl
    · intro page member
      exact sound.pages page (List.mem_of_mem_erase member)
    · intro _
      rw [result, none]
      exact ⟨rfl, index⟩
    · intro impossible
      contradiction
  | some stock =>
    rw [stocked, Option.getD_some] at counted
    have positive : stock ≠ 0 := fun zero => inStock (stocked.trans (congrArg some zero))
    have available : ledger.pmm.stack.last ≠ 0 :=
      fun none => positive (counted.symm.trans (empty_iff.mp none))
    obtain ⟨rest, lost, popped, few⟩ := alloc_takes represented available
    obtain ⟨remaining, emptied⟩ := alloc_stock represented available popped few
    rw [counted] at remaining emptied
    have distinct := popped.pages.nodup_iff.mp represented.distinct
    refine ⟨⟨rest, popped.represented, ?_, ?_⟩, ?_, ?_, ?_⟩
    · intro page member
      have behind : page ∈ lost ++ stacked rest := List.mem_append_right _ member
      have different : page ≠ (pageStackAlloc ledger.pmm).1 := by
        rintro rfl
        exact (List.nodup_cons.mp distinct).1 behind
      have before : page ∈ stacked chain := popped.pages.mem_iff.mpr (List.mem_cons_of_mem _ behind)
      exact (List.mem_erase_of_ne different).mpr (kept before)
    · exact remaining
    · intro page member
      exact sound.pages page (List.mem_of_mem_erase member)
    · intro impossible
      contradiction
    · intro none
      exact emptied (Option.some.inj none)

/-- A release leaves a sound ledger. -/
theorem free_sound (ledger next : Ledger) (page : Nat) (sound : Sound ledger)
    (taken : step ledger (.free page) = some next) : Sound next := by
  obtain ⟨⟨aligned, high, word, absent⟩, result⟩ := Option.ite_none_right_eq_some.mp taken
  obtain rfl := Option.some.inj result
  obtain ⟨chain, represented, kept, counted⟩ := sound.chain
  have valid : StackPage page := ⟨aligned, high, word⟩
  obtain ⟨grown, nextRepresented, pages, _⟩ :=
    free_represents represented valid (fun member => absent (kept member))
  refine ⟨⟨grown, nextRepresented, ?_, ?_⟩, ?_, ?_, ?_⟩
  · intro other member
    rcases List.mem_cons.mp (pages.subset member) with rfl | before
    · exact List.mem_cons_self
    · exact List.mem_cons_of_mem _ (kept before)
  · rw [pages.length_eq, List.length_cons, counted]
    rfl
  · intro other member
    rcases List.mem_cons.mp member with rfl | before
    · exact valid
    · exact sound.pages other before
  · intro impossible
    contradiction
  · intro impossible
    exact absurd (Option.some.inj impossible) (Nat.succ_ne_zero _)

/-- A write of a holder leaves a sound ledger: it does not reach the pages that are
left. -/
theorem write_sound {ledger next : Ledger} {address : Nat} {value : UInt8} (sound : Sound ledger)
    (taken : step ledger (.write address value) = some next) : Sound next := by
  obtain ⟨absent, result⟩ := Option.ite_none_left_eq_some.mp taken
  obtain rfl := Option.some.inj result
  obtain ⟨chain, represented, kept, counted⟩ := sound.chain
  have inPage : InPage (roundDown address pageSize) address := by
    simp only [InPage, roundDown, pageSize]
    omega
  have aligned : roundDown address pageSize % pageSize = 0 := Nat.mul_mod_left _ _
  refine ⟨⟨chain, ⟨?_, represented.bounded, represented.distinct, represented.pages⟩, kept, counted⟩,
    sound.pages, sound.fresh, sound.emptied⟩
  refine buffers_congr ledger.pmm.memory _ chain _ _ represented.bounded ?_ represented.buffers
  intro buffer member tested inside
  have ofStack := buffer_stacked member
  have apart : tested ≠ address := by
    rintro rfl
    have different : buffer.1 ≠ roundDown tested pageSize := by
      intro same
      exact absent (same ▸ kept ofStack)
    exact page_disjoint (represented.pages _ ofStack).1 aligned different inside inPage
  exact (Function.update_of_ne apart _ _).symm

/-- For every sequence of calls, each allocation reports exhaustion if and only if none is
made after the stack has served all it was going to serve. -/
theorem exhaustion_reported_iff (memory : Memory) (events : List Event) :
    EventRuns.Each step (start memory) Reported events ↔
      EventRuns.Each step (start memory) InStock events := by
  refine EventRuns.each_iff_each (start_sound memory) ?_ ?_ events
  · intro ledger event sound
    exact imp_congr_right (fun _ => reports_iff ledger sound)
  · intro ledger event next sound allowed taken
    cases event with
    | alloc => exact alloc_sound ledger next sound (allowed rfl) taken
    | free page => exact free_sound ledger next page sound taken
    | write address value => exact write_sound sound taken

/-- One page is released, and two are asked for. -/
def oneTooMany : List Event := [.free 0xFFFF800000200000, .alloc, .alloc]

/-- The second allocation reads its page through a buffer at `NULL`. -/
theorem exhaustion_faults :
    ∃ ledger, EventRuns.run step (start (fun _ => 0)) (oneTooMany.take 2) = some ledger ∧
      ledger.left = [] ∧ dereferencesNull ledger.pmm.stack ∧
      ¬ EventRuns.Each step (start (fun _ => 0)) Reported oneTooMany := by
  have observed : (EventRuns.run step (start (fun _ => 0)) (oneTooMany.take 2)).map
      (fun ledger => (ledger.left, ledger.pmm.stack.index, ledger.pmm.stack.last)) = some ([], 510, 0) := by
    decide +kernel
  cases reached : EventRuns.run step (start (fun _ => 0)) (oneTooMany.take 2) with
  | none => simp [reached] at observed
  | some ledger =>
    obtain ⟨none, index, last⟩ : ledger.left = [] ∧ ledger.pmm.stack.index = 510 ∧ ledger.pmm.stack.last = 0 := by
      simpa [reached] using observed
    have faults : dereferencesNull ledger.pmm.stack := by
      refine ⟨?_, last⟩
      rw [index]
      decide
    refine ⟨ledger, rfl, none, faults, fun each => ?_⟩
    have reports := each (oneTooMany.take 2) .alloc ledger _ (List.prefix_refl _) reached rfl rfl
    exact reports.pointer faults

end Asym.PageExhaustion
