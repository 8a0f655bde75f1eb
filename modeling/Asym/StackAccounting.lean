import Asym.PageStack
import Mathlib.Data.List.Induction
import Mathlib.Data.List.Perm.Subperm
import Mathlib.Tactic.Ring

/-!
# What the page stack owes

The pages given to `page_stack_free` are compared with those that
`page_stack_alloc` returned and with those that further calls would return. The
books agree as long as one buffer is enough: the buffer's page and its
`PAGE_BUFFER_MAX` entries. As soon as a second buffer is used, a page is lost
when the stack comes back to the first one, because the index is set to
`PAGE_BUFFER_MAX - 1` on a buffer that holds `PAGE_BUFFER_MAX` entries.
-/

namespace Asym.StackAccounting

open MachineWords PhysicalMemory PageStack

/-- A call on the page stack. -/
inductive Call where
  | alloc
  | free (page : Nat)
  deriving DecidableEq, Repr

/-- The allocator after some calls, with the pages they returned, newest first. -/
structure Progress where
  pmm : Pmm
  allocated : List Nat

/-- One call. An allocation without a buffer returns no page: it returns `NULL`,
or it reads its page through `NULL` when the index is not zero. -/
def perform (progress : Progress) : Call → Option Progress
  | .alloc =>
      if progress.pmm.stack.last = 0 then none
      else some {
        pmm := (pageStackAlloc progress.pmm).2
        allocated := (pageStackAlloc progress.pmm).1 :: progress.allocated }
  | .free page => some { progress with pmm := pageStackFree progress.pmm page }

/-- The calls on a stack as `page_stack_init` leaves it. -/
def performAll (memory : ByteMemory.Memory) (calls : List Call) : Option Progress :=
  calls.foldlM perform { pmm := pmmEmpty memory, allocated := [] }

/-- The page that a call frees. -/
def Call.page : Call → Option Nat
  | .alloc => none
  | .free page => some page

/-- The pages freed by some calls. -/
def freed (calls : List Call) : List Nat := calls.filterMap Call.page

/-- Number of allocations among some calls. -/
def allocations (calls : List Call) : Nat := calls.count .alloc

@[simp] theorem freed_alloc (calls : List Call) : freed (calls ++ [.alloc]) = freed calls := by
  simp [freed, List.filterMap_cons, Call.page]

@[simp] theorem freed_free (calls : List Call) (page : Nat) :
    freed (calls ++ [.free page]) = freed calls ++ [page] := by
  simp [freed, Call.page]

@[simp] theorem allocations_alloc (calls : List Call) :
    allocations (calls ++ [.alloc]) = allocations calls + 1 := by
  simp [allocations]

@[simp] theorem allocations_free (calls : List Call) (page : Nat) :
    allocations (calls ++ [.free page]) = allocations calls := by
  simp [allocations]

/-- The pages that further calls of `page_stack_alloc` return until the stack has
no buffer left. -/
inductive Obtainable : Pmm → List Nat → Prop where
  | exhausted (pmm : Pmm) (empty : pmm.stack.last = 0) : Obtainable pmm []
  | returned (pmm : Pmm) (pages : List Nat) (available : pmm.stack.last ≠ 0)
      (rest : Obtainable (pageStackAlloc pmm).2 pages) :
      Obtainable pmm ((pageStackAlloc pmm).1 :: pages)

/-- Calls that free distinct pages and allocate only what is owed. -/
structure Admissible (calls : List Call) : Prop where
  distinct : (freed calls).Nodup
  pages : ∀ page ∈ freed calls, StackPage page
  owed : ∀ before after, calls = before ++ Call.alloc :: after →
    allocations before < (freed before).length

/-- The calls all return, the pages freed are those returned together with those
obtainable, and the counter tells how many are obtainable. -/
def LosesNoPage (memory : ByteMemory.Memory) (calls : List Call) : Prop :=
  ∃ progress pages, performAll memory calls = some progress ∧ Obtainable progress.pmm pages ∧
    List.Perm (freed calls) (progress.allocated ++ pages) ∧
    progress.pmm.freePageAmount = pages.length

/-- At no time more pages are owed than fit into one buffer and its own page. -/
def OneBuffer (calls : List Call) : Prop :=
  ∀ before after, calls = before ++ after →
    (freed before).length ≤ allocations before + (pageBufferMax + 1)

/-- Number of pages of a represented stack. -/
theorem stacked_length (memory : ByteMemory.Memory) (last index : Nat) (head : Nat × List Nat)
    (below : List (Nat × List Nat)) (represented : Buffers memory last index (head :: below)) :
    (stacked (head :: below)).length = index + 1 + (pageBufferMax + 1) * below.length := by
  induction below generalizing last index head with
  | nil =>
    obtain ⟨-, -, length, -, -⟩ := represented
    rw [← length]
    simp [stacked]
  | cons next rest ih =>
    obtain ⟨-, -, length, -, covered⟩ := represented
    have tail := ih _ _ next covered
    rw [stacked_cons, List.length_cons, List.length_append, length, tail, List.length_cons]
    ring

/-- The pages of a stack in one buffer. -/
theorem one_buffer {pmm : Pmm} {chain : List (Nat × List Nat)} (represented : Represents pmm chain)
    (few : (stacked chain).length ≤ pageBufferMax + 1) :
    ¬ (pmm.stack.index = 0 ∧ 1 < chain.length) := by
  rintro ⟨-, more⟩
  cases chain with
  | nil => simp at more
  | cons head below =>
    have length := stacked_length _ _ _ _ _ represented.buffers
    rw [List.length_cons] at more
    have positive : pageBufferMax + 1 ≤ (pageBufferMax + 1) * below.length :=
      Nat.le_mul_of_pos_right _ (by omega)
    omega

/-- With more pages than fit into one buffer, an allocation loses a page or
leaves too many pages. -/
theorem alloc_deep {pmm next : Pmm} {chain rest : List (Nat × List Nat)} {page : Nat}
    {lost : List Nat} (represented : Represents pmm chain)
    (taken : Taken pmm next chain rest page lost)
    (many : pageBufferMax + 1 < (stacked chain).length) :
    lost ≠ [] ∨ pageBufferMax + 1 < (stacked rest).length := by
  by_cases none : lost = []
  · right
    have split := taken.pages.length_eq
    rw [none, List.nil_append, List.length_cons] at split
    cases chain with
    | nil => simp at many
    | cons head below =>
      have length := stacked_length _ _ _ _ _ represented.buffers
      have bounded := represented.bounded
      have stays := taken.exposes.mp none
      rw [List.length_cons] at stays
      -- One more than fits is the page of an empty second buffer.
      have beyond : (stacked (head :: below)).length ≠ pageBufferMax + 2 := by
        intro same
        rcases Nat.lt_trichotomy below.length 1 with fewer | one | more
        · rw [Nat.lt_one_iff.mp fewer] at length
          omega
        · rw [one] at length stays
          omega
        · have twice : (pageBufferMax + 1) * 2 ≤ (pageBufferMax + 1) * below.length :=
            Nat.mul_le_mul_left _ more
          have positive : 0 < pageBufferMax := by decide
          omega
      omega
  · exact .inl none

/-- What further allocations return from a represented stack: all its pages if
they fit into one buffer, and fewer otherwise. -/
theorem obtainable_spec {pmm : Pmm} {pages : List Nat} (obtainable : Obtainable pmm pages)
    (chain : List (Nat × List Nat)) (represented : Represents pmm chain) :
    ∃ lost, List.Perm (stacked chain) (pages ++ lost) ∧
      ((stacked chain).length ≤ pageBufferMax + 1 ↔ lost = []) := by
  induction obtainable generalizing chain with
  | exhausted pmm empty =>
    have none : chain = [] := empty_chain (empty ▸ represented.buffers)
    subst none
    exact ⟨[], .refl _, by simp⟩
  | returned pmm pages available _ ih =>
    obtain ⟨rest, here, taken⟩ := alloc_represents pmm chain represented available
    obtain ⟨later, split, exactly⟩ := ih rest taken.represented
    refine ⟨here ++ later, ?_, ?_⟩
    · refine taken.pages.trans (List.Perm.cons _ ?_)
      refine (split.append_left here).trans ?_
      rw [← List.append_assoc]
      refine (List.perm_append_comm.append_right later).trans ?_
      rw [List.append_assoc]
      exact .refl _
    · rw [List.append_eq_nil_iff, ← exactly]
      have length := taken.pages.length_eq
      rw [List.length_cons, List.length_append] at length
      constructor
      · intro few
        exact ⟨taken.exposes.mpr (one_buffer represented few), by omega⟩
      · rintro ⟨none, few⟩
        by_contra many
        rcases alloc_deep represented taken (by omega) with some | deep
        · exact some none
        · omega

/-- Every represented stack is exhausted by its allocations. -/
theorem obtainable_total (pmm : Pmm) (chain : List (Nat × List Nat))
    (represented : Represents pmm chain) : ∃ pages, Obtainable pmm pages := by
  induction size : (stacked chain).length using Nat.strongRecOn generalizing pmm chain with
  | _ size ih =>
    by_cases available : pmm.stack.last = 0
    · exact ⟨[], .exhausted pmm available⟩
    · obtain ⟨rest, lost, taken⟩ := alloc_represents pmm chain represented available
      have length := taken.pages.length_eq
      rw [List.length_cons, List.length_append] at length
      obtain ⟨pages, obtainable⟩ :=
        ih (stacked rest).length (by omega) _ rest taken.represented rfl
      exact ⟨_, .returned pmm pages available obtainable⟩

/-- The books between two calls. The freed pages were returned, are on the stack
or are lost, and the counter counts those not returned. -/
structure Books (calls : List Call) (progress : Progress) (chain : List (Nat × List Nat))
    (lost : List Nat) : Prop where
  represented : Represents progress.pmm chain
  pages : List.Perm (freed calls) (progress.allocated ++ (lost ++ stacked chain))
  returned : progress.allocated.length = allocations calls
  amount : progress.pmm.freePageAmount = (freed calls).length - allocations calls

/-- A sequence of distinct stack pages is shorter than the range of a word. -/
theorem distinct_length (pages : List Nat) (distinct : pages.Nodup)
    (valid : ∀ page ∈ pages, StackPage page) : pages.length < wordSize := by
  have apart : (0 :: pages).Nodup :=
    List.nodup_cons.mpr ⟨fun zero => stack_page_nonzero 0 (valid 0 zero) rfl, distinct⟩
  have inside : (0 :: pages) ⊆ List.range wordSize := by
    intro page member
    rw [List.mem_range]
    rcases List.mem_cons.mp member with rfl | stacked
    · decide
    · exact (valid page stacked).2.2
  have shorter := (List.subperm_of_subset apart inside).length_le
  rw [List.length_cons, List.length_range] at shorter
  exact shorter

/-- Earlier calls of admissible calls are admissible. -/
theorem admissible_init (calls : List Call) (call : Call) (admissible : Admissible (calls ++ [call])) :
    Admissible calls := by
  obtain ⟨distinct, pages, owed⟩ := admissible
  rw [freed, List.filterMap_append] at distinct pages
  refine ⟨distinct.of_append_left, fun page member => pages page (List.mem_append_left _ member), ?_⟩
  intro before after split
  exact owed before (after ++ [call]) (by rw [split, List.append_assoc, List.cons_append])

/-- One more call keeps the books. A page is lost, or more pages are on the stack
than one buffer holds, from then on after the first time that many are owed. -/
theorem books_perform {calls : List Call} {call : Call} {progress : Progress}
    {chain : List (Nat × List Nat)} {lost : List Nat} (books : Books calls progress chain lost)
    (admissible : Admissible (calls ++ [call])) :
    perform progress call = none ∧ lost ≠ [] ∨
      ∃ next rest more, perform progress call = some next ∧
        Books (calls ++ [call]) next rest (more ++ lost) ∧
        ((stacked chain).length ≤ pageBufferMax + 1 → more = []) ∧
        (pageBufferMax + 1 < (stacked chain).length →
          more ≠ [] ∨ pageBufferMax + 1 < (stacked rest).length) := by
  have bound := distinct_length _ admissible.distinct admissible.pages
  have split := books.pages.length_eq
  rw [List.length_append, List.length_append, books.returned] at split
  cases call with
  | alloc =>
    have owed := admissible.owed calls [] rfl
    by_cases available : progress.pmm.stack.last = 0
    · refine .inl ⟨by rw [perform, if_pos available], ?_⟩
      rintro rfl
      have none : chain = [] := empty_chain (available ▸ books.represented.buffers)
      rw [none, stacked_nil, List.length_nil] at split
      omega
    · obtain ⟨rest, more, taken⟩ := alloc_represents progress.pmm chain books.represented available
      refine .inr ⟨_, rest, more, by rw [perform, if_neg available], ⟨taken.represented, ?_, ?_, ?_⟩,
        ?_, alloc_deep books.represented taken⟩
      · rw [freed_alloc]
        refine books.pages.trans ?_
        have moved := (taken.pages.append_left lost).append_left progress.allocated
        refine moved.trans ?_
        have swap : List.Perm (lost ++ ((pageStackAlloc progress.pmm).1 :: (more ++ stacked rest)))
            ((pageStackAlloc progress.pmm).1 :: ((more ++ lost) ++ stacked rest)) := by
          refine List.perm_middle.trans (List.Perm.cons _ ?_)
          rw [← List.append_assoc]
          exact List.perm_append_comm.append_right _
        exact (swap.append_left _).trans List.perm_middle
      · rw [List.length_cons, books.returned, allocations_alloc]
      · rw [freed_alloc] at bound ⊢
        rw [allocations_alloc, taken.amount, books.amount, sub_of_le _ _ (by omega) (by omega)]
        omega
      · exact fun few => taken.exposes.mpr (one_buffer books.represented few)
  | free page =>
    have shape := freed_free calls page
    rw [shape, List.length_append, List.length_singleton] at bound
    have fresh := admissible.distinct
    rw [shape, List.nodup_append'] at fresh
    have valid : StackPage page := admissible.pages page (by simp [shape])
    have absent : page ∉ stacked chain := by
      intro member
      have inside : page ∈ freed calls :=
        books.pages.mem_iff.mpr (List.mem_append_right _ (List.mem_append_right _ member))
      exact fresh.2.2 inside (List.mem_singleton_self page)
    obtain ⟨rest, represented, pages, -⟩ :=
      free_represents books.represented valid absent
    have longer := pages.length_eq
    rw [List.length_cons] at longer
    refine .inr ⟨_, rest, [], rfl, ⟨represented, ?_, ?_, ?_⟩, fun _ => rfl, fun _ => .inr (by omega)⟩
    · rw [shape, List.nil_append]
      refine (books.pages.append_right [page]).trans ?_
      rw [List.append_assoc, List.append_assoc]
      refine (List.Perm.append_left _ (List.Perm.append_left _ ?_))
      exact (List.perm_append_singleton _ _).trans pages.symm
    · rw [allocations_free, books.returned]
    · have amount : (pageStackFree progress.pmm page).freePageAmount =
          add progress.pmm.freePageAmount 1 := by
        rw [pageStackFree]
        split_ifs <;> rfl
      rw [amount, books.amount, shape, allocations_free, List.length_append,
        List.length_singleton, add_of_lt _ _ (by omega)]
      omega

/-- The books after all calls. If too many pages were owed at some time, the calls
did not all return, or a page is lost, or too many pages are on the stack. -/
theorem books_all (memory : ByteMemory.Memory) (calls : List Call) (admissible : Admissible calls) :
    performAll memory calls = none ∧ ¬ OneBuffer calls ∨
      ∃ progress chain lost, performAll memory calls = some progress ∧
        Books calls progress chain lost ∧
        (OneBuffer calls ↔ lost = [] ∧ (stacked chain).length ≤ pageBufferMax + 1) := by
  induction calls using List.reverseRecOn with
  | nil =>
    have empty : Represents (pmmEmpty memory) [] := ⟨rfl, Nat.zero_le _, List.nodup_nil, by simp⟩
    refine .inr ⟨_, [], [], rfl, ⟨empty, .refl _, rfl, rfl⟩, ?_⟩
    refine iff_of_true (fun before after split => ?_) ⟨rfl, Nat.zero_le _⟩
    rw [(List.append_eq_nil_iff.mp split.symm).1]
    exact Nat.zero_le _
  | append_singleton calls call ih =>
    have earlier := admissible_init calls call admissible
    have extends_iff : OneBuffer (calls ++ [call]) ↔ OneBuffer calls ∧
        (freed (calls ++ [call])).length ≤ allocations (calls ++ [call]) + (pageBufferMax + 1) := by
      constructor
      · intro always
        refine ⟨fun before after split => always before (after ++ [call]) ?_,
          always _ [] (List.append_nil _).symm⟩
        rw [split, List.append_assoc]
      · rintro ⟨always, now⟩ before after split
        rcases List.eq_nil_or_concat after with rfl | ⟨kept, last, rfl⟩
        · rw [List.append_nil] at split
          rwa [← split]
        · rw [List.concat_eq_append, ← List.append_assoc] at split
          exact always before kept (List.append_inj_left' split rfl)
    have performed : performAll memory (calls ++ [call]) =
        (performAll memory calls).bind (fun progress => perform progress call) := by
      rw [performAll, List.foldlM_append]
      simp [performAll]
    rw [performed, extends_iff]
    rcases ih earlier with ⟨stopped, deep⟩ | ⟨progress, chain, lost, done, books, exactly⟩
    · exact .inl ⟨by rw [stopped, Option.bind_none], fun both => deep both.1⟩
    · rw [done, Option.bind_some, exactly]
      rcases books_perform books admissible with
        ⟨stops, some⟩ | ⟨next, rest, more, goes, after, few, many⟩
      · exact .inl ⟨stops, fun both => some both.1.1⟩
      · refine .inr ⟨next, rest, more ++ lost, goes, after, ?_⟩
        have split := after.pages.length_eq
        rw [List.length_append, List.length_append, after.returned] at split
        rw [List.append_eq_nil_iff]
        constructor
        · rintro ⟨⟨none, shallow⟩, now⟩
          exact ⟨⟨few shallow, none⟩, by omega⟩
        · rintro ⟨⟨noMore, none⟩, shallow⟩
          rw [noMore, none] at split
          refine ⟨⟨none, ?_⟩, by simp at split; omega⟩
          by_contra deep
          rcases many (by omega) with some | still
          · exact some noMore
          · omega

/-- Calls that lose no page need one buffer only. -/
theorem oneBuffer_of_losesNoPage {memory : ByteMemory.Memory} {calls : List Call}
    (admissible : Admissible calls) (complete : LosesNoPage memory calls) : OneBuffer calls := by
  obtain ⟨reached, pages, returned, obtainable, accounts, -⟩ := complete
  rcases books_all memory calls admissible with
    ⟨stopped, -⟩ | ⟨progress, chain, lost, done, books, exactly⟩
  · rw [stopped] at returned
    contradiction
  · rw [done, Option.some.injEq] at returned
    subst returned
    obtain ⟨later, remaining, shallow⟩ := obtainable_spec obtainable chain books.represented
    have split := books.pages.length_eq
    have left := remaining.length_eq
    have total := accounts.length_eq
    simp only [List.length_append] at split left total
    have noLost : lost.length = 0 := by omega
    have noLater : later.length = 0 := by omega
    exact exactly.mpr
      ⟨List.length_eq_zero_iff.mp noLost, shallow.mpr (List.length_eq_zero_iff.mp noLater)⟩

/-- The page stack loses no page exactly when at no time more than
`PAGE_BUFFER_MAX + 1` of the freed pages have not been allocated.

Proof: the calls keep books of the freed pages. None of these is lost as long as one buffer is enough. -/
theorem loses_no_page_iff (memory : ByteMemory.Memory) (calls : List Call)
    (admissible : Admissible calls) : LosesNoPage memory calls ↔ OneBuffer calls := by
  refine ⟨oneBuffer_of_losesNoPage admissible, fun one => ?_⟩
  rcases books_all memory calls admissible with
    ⟨-, deep⟩ | ⟨progress, chain, lost, done, books, exactly⟩
  · exact absurd one deep
  · obtain ⟨rfl, few⟩ := exactly.mp one
    obtain ⟨pages, obtainable⟩ := obtainable_total progress.pmm chain books.represented
    obtain ⟨later, remaining, shallow⟩ := obtainable_spec obtainable chain books.represented
    obtain rfl := shallow.mp few
    rw [List.append_nil] at remaining
    have accounts := books.pages
    rw [List.nil_append] at accounts
    refine ⟨progress, pages, done, obtainable, accounts.trans (remaining.append_left _), ?_⟩
    have split := accounts.length_eq
    have left := remaining.length_eq
    rw [List.length_append, books.returned] at split
    rw [books.amount]
    omega

/-- Two pages are freed and one of them is allocated. -/
def sampleCalls : List Call := [.free 0xFFFF800000200000, .free 0xFFFF800000201000, .alloc]

/-- The sample calls lose no page. -/
theorem loses_no_page_sample :
    Admissible sampleCalls ∧ OneBuffer sampleCalls ∧ LosesNoPage (fun _ => 0) sampleCalls := by
  have pages : ∀ page ∈ freed sampleCalls, StackPage page := by
    simp [sampleCalls, freed, Call.page, StackPage, pageSize, pmmMaxSpecialAddr, vmmHigherHalfBase,
      wordSize]
  have admissible : Admissible sampleCalls := by
    refine ⟨by decide, pages, fun before after split => ?_⟩
    rcases before with _ | ⟨first, _ | ⟨second, _ | ⟨third, rest⟩⟩⟩ <;>
      simp_all [sampleCalls, freed, allocations, Call.page]
    simp [← split.1, ← split.2.1, Call.page]
  have one : OneBuffer sampleCalls := by
    intro before after split
    have shorter : before.length ≤ 3 := by
      have length := congrArg List.length split
      rw [List.length_append] at length
      exact Nat.le_of_lt_succ (Nat.lt_succ_of_le (Nat.le.intro length.symm))
    have fewer : (freed before).length ≤ before.length := List.length_filterMap_le _ _
    simp only [pageBufferMax, pageSize]
    omega
  exact ⟨admissible, one, (loses_no_page_iff (fun _ => 0) sampleCalls admissible).mpr one⟩

/-- One page more than one buffer and its own page hold. -/
def deepCalls : List Call := (pagesFrom 0xFFFF800000200000 513).map Call.free

/-- After 513 pages are freed, only 512 of them can be obtained. -/
theorem page_lost : Admissible deepCalls ∧ ¬ LosesNoPage (fun _ => 0) deepCalls := by
  have shape : freed deepCalls = pagesFrom 0xFFFF800000200000 513 := by
    simp [freed, deepCalls, List.filterMap_map, Function.comp_def, Call.page]
  have none : allocations deepCalls = 0 := List.count_eq_zero.mpr (by simp [deepCalls])
  have admissible : Admissible deepCalls := by
    refine ⟨?_, fun page member => ?_, fun before after split => ?_⟩
    · rw [shape]
      refine List.Nodup.map_on ?_ List.nodup_range
      intro first firstInside second secondInside same
      rw [List.mem_range] at firstInside secondInside
      simp only [add, pageSize, wordSize] at same
      omega
    · rw [shape] at member
      obtain ⟨offset, inside, rfl⟩ := List.mem_map.mp member
      rw [List.mem_range] at inside
      simp only [StackPage, pageSize, pmmMaxSpecialAddr, vmmHigherHalfBase, add, wordSize]
      omega
    · have one : 0 < allocations (before ++ Call.alloc :: after) := by simp [allocations]
      rw [← split, none] at one
      exact absurd one (Nat.lt_irrefl 0)
  refine ⟨admissible, fun complete => ?_⟩
  have few := oneBuffer_of_losesNoPage admissible complete deepCalls [] (List.append_nil _).symm
  rw [shape, none, pagesFrom, List.length_map, List.length_range] at few
  exact absurd few (by decide)

end Asym.StackAccounting
