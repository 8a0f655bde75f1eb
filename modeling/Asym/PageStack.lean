import Asym.PhysicalMemory
import Mathlib.Data.List.Nodup

/-!
# The free-page stack inside the free pages

The stack stores its links and its entries in the pages it owns, so what it
reads is only as good as the separation between those pages and the pages that
have been handed out. The representation names every page the stack will still
read: a chain of buffers from the newest down, each with the entries that are
still live. Every page of the chain occurs once, is page aligned and lies above
the special range.

Allocation and release are then operations on the chain. Popping an empty top
buffer exposes the buffer below with one entry fewer than it holds; that entry
is dropped from the chain and never handed out again.
-/

namespace Asym.PageStack

open ByteMemory MachineWords PhysicalMemory

/-- A page that belongs to the stack allocator rather than the bitmap. -/
def StackPage (page : Nat) : Prop :=
  page % pageSize = 0 ∧ pmmMaxSpecialAddr + vmmHigherHalfBase ≤ page ∧ page < wordSize

/-- The byte addresses of one page. -/
def InPage (page tested : Nat) : Prop := page ≤ tested ∧ tested < page + pageSize

/-- Two distinct aligned pages share no byte. -/
theorem page_disjoint {first second tested : Nat} (firstAligned : first % pageSize = 0)
    (secondAligned : second % pageSize = 0) (different : first ≠ second)
    (inside : InPage first tested) : ¬ InPage second tested := by
  simp only [InPage, pageSize] at *
  omega

/-- The buffers reachable from `last`, newest first, each with its live entries.
Only the newest buffer is partly filled; every buffer below it was full when it
was covered. -/
def Buffers (memory : Memory) : Nat → Nat → List (Nat × List Nat) → Prop
  | last, _, [] => last = 0
  | last, index, (buffer, entries) :: below =>
      last = buffer ∧ buffer ≠ 0 ∧ entries.length = index ∧
      (∀ slot (inside : slot < entries.length),
        load64 memory (pagesSlot buffer slot) = entries[slot]) ∧
      Buffers memory (load64 memory buffer) pageBufferMax below

/-- All pages of a chain: each buffer followed by its entries. -/
def stacked (chain : List (Nat × List Nat)) : List Nat :=
  chain.flatMap (fun buffer => buffer.1 :: buffer.2)

@[simp] theorem stacked_nil : stacked [] = [] := rfl

@[simp] theorem stacked_cons (buffer : Nat) (entries : List Nat) (below : List (Nat × List Nat)) :
    stacked ((buffer, entries) :: below) = buffer :: (entries ++ stacked below) := by
  simp [stacked]

/-- Each buffer of a chain is one of its pages. -/
theorem buffer_stacked {chain : List (Nat × List Nat)} {buffer : Nat × List Nat}
    (member : buffer ∈ chain) : buffer.1 ∈ stacked chain :=
  List.mem_flatMap.mpr ⟨buffer, member, List.mem_cons_self⟩

/-- The allocator's stack is represented by a chain of distinct stack pages. -/
structure Represents (pmm : Pmm) (chain : List (Nat × List Nat)) : Prop where
  buffers : Buffers pmm.memory pmm.stack.last pmm.stack.index chain
  bounded : pmm.stack.index ≤ pageBufferMax
  distinct : (stacked chain).Nodup
  pages : ∀ page ∈ stacked chain, StackPage page

/-- A stored word of a buffer lies inside the buffer's page. -/
theorem slot_in_page (buffer slot offset : Nat) (inside : slot < pageBufferMax)
    (byte : offset < 8) : InPage buffer (pagesSlot buffer slot + offset) := by
  simp only [InPage, pagesSlot, pageBufferMax, pageSize] at *
  omega

/-- The link of a buffer lies inside the buffer's page. -/
theorem link_in_page (buffer offset : Nat) (byte : offset < 8) : InPage buffer (buffer + offset) := by
  simp only [InPage, pageSize]
  omega

/-- A chain is represented in any memory that agrees on its buffers' pages.
Induct down the chain: link and entries of a buffer are read from its own page,
and the buffers below it are reached through that link. -/
theorem buffers_congr (first second : Memory) (chain : List (Nat × List Nat)) (last index : Nat)
    (bounded : index ≤ pageBufferMax)
    (same : ∀ buffer ∈ chain, ∀ tested, InPage buffer.1 tested → first tested = second tested)
    (represented : Buffers first last index chain) : Buffers second last index chain := by
  induction chain generalizing last index with
  | nil => exact represented
  | cons head below ih =>
    obtain ⟨buffer, entries⟩ := head
    obtain ⟨atTop, nonzero, length, stored, rest⟩ := represented
    have agree : ∀ tested, InPage buffer tested → first tested = second tested :=
      same (buffer, entries) List.mem_cons_self
    have link : load64 second buffer = load64 first buffer := by
      apply load64_congr
      intro offset byte
      exact (agree _ (link_in_page buffer offset byte)).symm
    refine ⟨atTop, nonzero, length, ?_, ?_⟩
    · intro slot inside
      rw [← stored slot inside]
      apply load64_congr
      intro offset byte
      exact (agree _ (slot_in_page buffer slot offset (by omega) byte)).symm
    · rw [link]
      exact ih _ _ (Nat.le_refl _)
        (fun other member => same other (List.mem_cons_of_mem _ member)) rest

/-- A represented stack without a top buffer owns no page. -/
theorem empty_chain {memory : Memory} {index : Nat} {chain : List (Nat × List Nat)}
    (represented : Buffers memory 0 index chain) : chain = [] := by
  cases chain with
  | nil => rfl
  | cons head below => exact absurd represented.1.symm represented.2.1

/-- A stack page is not the null pointer. -/
theorem stack_page_nonzero (page : Nat) (valid : StackPage page) : page ≠ 0 := by
  simp only [StackPage, pmmMaxSpecialAddr, vmmHigherHalfBase] at valid
  omega

/-- Entries without their last element, seen slot by slot. -/
theorem dropLast_stored {memory : Memory} {buffer : Nat} {entries : List Nat}
    (stored : ∀ slot (inside : slot < entries.length),
      load64 memory (pagesSlot buffer slot) = entries[slot]) :
    ∀ slot (inside : slot < entries.dropLast.length),
      load64 memory (pagesSlot buffer slot) = entries.dropLast[slot] := by
  intro slot inside
  have within : slot < entries.length := by
    rw [List.length_dropLast] at inside
    omega
  rw [stored slot within, List.getElem_dropLast]

/-- The chain below a popped buffer, with the entry dropped that its new index
no longer counts. -/
def expose : List (Nat × List Nat) → List (Nat × List Nat)
  | [] => []
  | (buffer, entries) :: below => (buffer, entries.dropLast) :: below

/-- The entry that exposing a buffer drops. -/
def dropped : List (Nat × List Nat) → List Nat
  | [] => []
  | (_, entries) :: _ => entries.getLast?.toList

/-- Exposing the next buffer keeps every page but the dropped one. -/
theorem expose_perm (chain : List (Nat × List Nat)) :
    List.Perm (stacked chain) (dropped chain ++ stacked (expose chain)) := by
  cases chain with
  | nil => exact .refl _
  | cons head below =>
    obtain ⟨buffer, entries⟩ := head
    rcases List.eq_nil_or_concat entries with rfl | ⟨kept, last, rfl⟩
    · exact .refl _
    · rw [List.concat_eq_append, expose, dropped, stacked_cons, stacked_cons, List.dropLast_concat,
        List.getLast?_concat, List.append_assoc, ← List.cons_append]
      exact List.perm_middle

/-- A full covered chain is represented at its reduced index once exposed. -/
theorem expose_buffers (memory : Memory) (last : Nat) (chain : List (Nat × List Nat))
    (represented : Buffers memory last pageBufferMax chain) :
    Buffers memory last (pageBufferMax - 1) (expose chain) := by
  cases chain with
  | nil => exact represented
  | cons head below =>
    obtain ⟨atTop, nonzero, length, stored, rest⟩ := represented
    exact ⟨atTop, nonzero, by rw [List.length_dropLast, length],
      dropLast_stored stored, rest⟩

/-- Exposing drops an entry as soon as there is a buffer to expose. -/
theorem dropped_eq_nil_iff (memory : Memory) (last : Nat) (chain : List (Nat × List Nat))
    (represented : Buffers memory last pageBufferMax chain) : dropped chain = [] ↔ chain = [] := by
  cases chain with
  | nil => simp [dropped]
  | cons head below =>
    obtain ⟨-, -, length, -, -⟩ := represented
    have nonempty : head.2 ≠ [] := by
      intro none
      rw [none] at length
      exact absurd length (by decide)
    simp [dropped, nonempty]

/-- Exposing drops one entry at most. -/
theorem dropped_length (chain : List (Nat × List Nat)) : (dropped chain).length ≤ 1 := by
  cases chain with
  | nil => exact Nat.zero_le 1
  | cons head below =>
    cases last : head.2.getLast? with
    | none => simp [dropped, last]
    | some entry => simp [dropped, last]

/-- What a page taken out of a represented chain leaves: a represented chain, and
the pages that neither the caller nor the chain has any more. -/
structure Taken (pmm next : Pmm) (chain rest : List (Nat × List Nat)) (page : Nat)
    (lost : List Nat) : Prop where
  represented : Represents next rest
  pages : List.Perm (stacked chain) (page :: (lost ++ stacked rest))
  exposes : lost = [] ↔ ¬ (pmm.stack.index = 0 ∧ 1 < chain.length)
  memory : next.memory = pmm.memory
  bitmap : next.bitmap = pmm.bitmap
  amount : next.freePageAmount = sub pmm.freePageAmount 1

/-- A part of a represented chain's pages, in any order, is distinct and on stack
pages. -/
theorem kept_pages {pages lost rest : List Nat} {page : Nat}
    (split : List.Perm pages (page :: (lost ++ rest))) (distinct : pages.Nodup)
    (valid : ∀ other ∈ pages, StackPage other) : rest.Nodup ∧ ∀ other ∈ rest, StackPage other := by
  have remaining : rest.Sublist (page :: (lost ++ rest)) :=
    (List.sublist_append_right lost rest).cons page
  exact ⟨(split.nodup_iff.mp distinct).sublist remaining,
    fun other member => valid other (split.mem_iff.mpr (remaining.subset member))⟩

/-- Allocation takes one page out of the represented chain and loses at most one more.
Memory and bitmap are untouched.

An empty top buffer is returned itself and exposes the chain below, which drops
an entry. A nonempty one gives up its last live entry. -/
theorem alloc_takes {pmm : Pmm} {chain : List (Nat × List Nat)}
    (represented : Represents pmm chain) (available : pmm.stack.last ≠ 0) :
    ∃ rest lost, Taken pmm (pageStackAlloc pmm).2 chain rest (pageStackAlloc pmm).1 lost ∧
      lost.length ≤ 1 := by
  obtain ⟨buffers, bounded, distinct, pages⟩ := represented
  cases chain with
  | nil => exact absurd buffers available
  | cons head below =>
    obtain ⟨buffer, entries⟩ := head
    obtain ⟨atTop, nonzero, length, stored, rest⟩ := buffers
    by_cases atBuffer : pmm.stack.index = 0
    · have noEntries : entries = [] := List.eq_nil_of_length_eq_zero (length.trans atBuffer)
      subst noEntries
      have split : List.Perm (stacked ((buffer, []) :: below))
          (buffer :: (dropped below ++ stacked (expose below))) := by
        rw [stacked_cons, List.nil_append]
        exact (expose_perm below).cons buffer
      obtain ⟨keptDistinct, keptPages⟩ := kept_pages split distinct pages
      have covered : 1 < ((buffer, ([] : List Nat)) :: below).length ↔ below ≠ [] := by
        rw [List.length_cons, ← List.length_pos_iff]
        omega
      refine ⟨expose below, dropped below, ⟨⟨?_, ?_, keptDistinct, keptPages⟩, ?_, ?_, ?_, ?_, ?_⟩,
        dropped_length below⟩
      · simp only [pageStackAlloc, atBuffer, available, if_true, if_false]
        rw [atTop]
        exact expose_buffers _ _ _ rest
      · simp [pageStackAlloc, atBuffer, available]
      · simpa [pageStackAlloc, atBuffer, atTop, nonzero] using split
      · rw [dropped_eq_nil_iff _ _ _ rest, covered]
        simp [atBuffer]
      · simp [pageStackAlloc, atBuffer, available]
      · simp [pageStackAlloc, atBuffer, available]
      · simp [pageStackAlloc, atBuffer, available]
    · have nonempty : entries ≠ [] := by
        intro none
        subst none
        exact atBuffer length.symm
      have lastSlot : pmm.stack.index - 1 = entries.length - 1 := by rw [length]
      have taken : load64 pmm.memory (pagesSlot pmm.stack.last (pmm.stack.index - 1)) =
          entries.getLast nonempty := by
        have positive : 0 < entries.length := List.length_pos_iff.mpr nonempty
        rw [atTop, lastSlot, stored _ (by omega), List.getLast_eq_getElem]
      have split : List.Perm (stacked ((buffer, entries) :: below))
          (entries.getLast nonempty :: ([] ++ stacked ((buffer, entries.dropLast) :: below))) := by
        rw [stacked_cons, stacked_cons, List.nil_append]
        nth_rewrite 1 [← List.dropLast_append_getLast nonempty]
        rw [List.append_assoc]
        exact (List.perm_middle.cons _).trans (List.Perm.swap _ _ _)
      obtain ⟨keptDistinct, keptPages⟩ := kept_pages split distinct pages
      refine ⟨(buffer, entries.dropLast) :: below, [], ⟨⟨?_, ?_, keptDistinct, keptPages⟩, ?_, ?_,
        ?_, ?_, ?_⟩, Nat.zero_le _⟩
      · simp only [pageStackAlloc, atBuffer, if_false]
        exact ⟨atTop, nonzero, by rw [List.length_dropLast, length],
          dropLast_stored stored, rest⟩
      · simp only [pageStackAlloc, atBuffer, if_false]
        omega
      · simpa only [pageStackAlloc, atBuffer, if_false, taken] using split
      · simp [atBuffer]
      · simp [pageStackAlloc, atBuffer]
      · simp [pageStackAlloc, atBuffer]
      · simp [pageStackAlloc, atBuffer]

/-- Allocation takes one page out of the represented chain. -/
theorem alloc_represents (pmm : Pmm) (chain : List (Nat × List Nat))
    (represented : Represents pmm chain) (available : pmm.stack.last ≠ 0) :
    ∃ rest lost, Taken pmm (pageStackAlloc pmm).2 chain rest (pageStackAlloc pmm).1 lost := by
  obtain ⟨rest, lost, taken, _⟩ := alloc_takes represented available
  exact ⟨rest, lost, taken⟩

/-- A freed page that starts a new buffer keeps the old chain below it: the link
is written into the freed page, which the chain does not read. -/
theorem push_buffer {memory : Memory} {last index page : Nat} {chain : List (Nat × List Nat)}
    (buffers : Buffers memory last index chain) (full : index = pageBufferMax ∨ chain = [])
    (bounded : last < wordSize) (valid : StackPage page)
    (pages : ∀ other ∈ stacked chain, StackPage other) (absent : page ∉ stacked chain) :
    Buffers (store64 memory page last) page 0 ((page, []) :: chain) := by
  have link : load64 (store64 memory page last) page = last :=
    load64_store64_same _ _ _ (by simpa [wordSize] using bounded)
  have frame : ∀ buffer ∈ chain, ∀ tested, InPage buffer.1 tested →
      memory tested = store64 memory page last tested := by
    intro buffer member tested inside
    have owned : buffer.1 ∈ stacked chain := buffer_stacked member
    have different : buffer.1 ≠ page := fun same => absent (same ▸ owned)
    have outside : ¬ InPage page tested :=
      page_disjoint (pages _ owned).1 valid.1 different inside
    refine (store64_outside _ _ _ _ ?_).symm
    simp only [InPage, pageSize] at outside
    omega
  refine ⟨rfl, stack_page_nonzero page valid, rfl, by simp, ?_⟩
  rw [link]
  rcases full with atLimit | empty
  · exact buffers_congr _ _ chain last _ (Nat.le_refl _) frame (atLimit ▸ buffers)
  · subst empty
    exact buffers

/-- A freed page stored in the newest buffer extends that buffer's entries. The
write touches neither the links nor the earlier entries. -/
theorem push_entry {memory : Memory} {last index page : Nat} {buffer : Nat} {entries : List Nat}
    {below : List (Nat × List Nat)} (buffers : Buffers memory last index ((buffer, entries) :: below))
    (room : index < pageBufferMax) (valid : StackPage page)
    (pages : ∀ other ∈ stacked ((buffer, entries) :: below), StackPage other)
    (distinct : (stacked ((buffer, entries) :: below)).Nodup) :
    Buffers (store64 memory (pagesSlot last index) page) last (index + 1)
      ((buffer, entries ++ [page]) :: below) := by
  obtain ⟨atTop, nonzero, length, stored, rest⟩ := buffers
  subst atTop
  have link : load64 (store64 memory (pagesSlot last index) page) last = load64 memory last := by
    apply load64_store64_disjoint
    simp only [pagesSlot]
    omega
  refine ⟨rfl, nonzero, by simp [length], ?_, ?_⟩
  · intro slot inside
    by_cases newest : slot = index
    · subst newest
      rw [load64_store64_same _ _ _ (by simpa [wordSize] using valid.2.2)]
      simp [← length]
    · have earlier : slot < entries.length := by
        rw [List.length_append, List.length_singleton] at inside
        omega
      rw [load64_store64_disjoint _ _ _ _ (by simp only [pagesSlot]; omega), stored slot earlier,
        List.getElem_append_left earlier]
  · rw [link]
    refine buffers_congr memory _ below _ _ (Nat.le_refl _) ?_ rest
    intro other member tested inside
    have owned : other.1 ∈ stacked below := buffer_stacked member
    have different : other.1 ≠ last := by
      rw [stacked_cons] at distinct
      intro same
      exact (List.nodup_cons.mp distinct).1 (List.mem_append_right _ (same ▸ owned))
    have outside : ¬ InPage last tested :=
      page_disjoint (pages _ (by simp [owned])).1 (pages last (by simp)).1 different inside
    refine (store64_outside _ _ _ _ ?_).symm
    simp only [InPage, pagesSlot, pageBufferMax, pageSize] at *
    omega

/-- The top pointer of a represented stack is a machine word. -/
theorem last_lt (pmm : Pmm) (chain : List (Nat × List Nat)) (represented : Represents pmm chain) :
    pmm.stack.last < wordSize := by
  obtain ⟨buffers, _, _, pages⟩ := represented
  cases chain with
  | nil =>
    have empty : pmm.stack.last = 0 := buffers
    rw [empty]
    decide
  | cons head below =>
    have top : pmm.stack.last = head.1 := buffers.1
    rw [top]
    exact (pages head.1 (buffer_stacked List.mem_cons_self)).2.2

/-- Releasing a stack page that the chain does not own adds exactly that page to
the chain. Memory changes only inside the released page and the old chain. -/
theorem free_represents {pmm : Pmm} {chain : List (Nat × List Nat)} {page : Nat}
    (represented : Represents pmm chain) (valid : StackPage page) (absent : page ∉ stacked chain) :
    ∃ next, Represents (pageStackFree pmm page) next ∧
      List.Perm (stacked next) (page :: stacked chain) ∧
      (pageStackFree pmm page).bitmap = pmm.bitmap := by
  have topBounded := last_lt pmm chain represented
  obtain ⟨buffers, bounded, distinct, pages⟩ := represented
  have buffered : (stacked ((page, []) :: chain)).Nodup ∧
      ∀ other ∈ stacked ((page, []) :: chain), StackPage other := by
    simp only [stacked_cons, List.nil_append, List.nodup_cons, List.mem_cons]
    exact ⟨⟨absent, distinct⟩, by rintro other (rfl | member); exacts [valid, pages other member]⟩
  by_cases empty : pmm.stack.last = 0
  · have none : chain = [] := empty_chain (empty ▸ buffers)
    refine ⟨(page, []) :: chain, ⟨?_, ?_, buffered.1, buffered.2⟩, ?_, ?_⟩
    · simpa [pageStackFree, empty] using
        push_buffer (empty ▸ buffers) (.inr none) (by decide) valid pages absent
    · simp [pageStackFree, empty]
    · rw [stacked_cons, List.nil_append]
    · simp [pageStackFree, empty]
  · by_cases full : pmm.stack.index = pageBufferMax
    · refine ⟨(page, []) :: chain, ⟨?_, ?_, buffered.1, buffered.2⟩, ?_, ?_⟩
      · simpa [pageStackFree, empty, full] using
          push_buffer buffers (.inl full) topBounded valid pages absent
      · simp [pageStackFree, empty, full]
      · rw [stacked_cons, List.nil_append]
      · simp [pageStackFree, empty, full]
    · cases chain with
      | nil => exact absurd buffers empty
      | cons head below =>
        obtain ⟨buffer, entries⟩ := head
        have room : pmm.stack.index < pageBufferMax := by omega
        have reorder : List.Perm (stacked ((buffer, entries ++ [page]) :: below))
            (page :: stacked ((buffer, entries) :: below)) := by
          rw [stacked_cons, stacked_cons, List.append_assoc]
          exact (List.perm_middle.cons _).trans (List.Perm.swap _ _ _)
        refine ⟨(buffer, entries ++ [page]) :: below, ⟨?_, ?_, ?_, ?_⟩, reorder, ?_⟩
        · simpa [pageStackFree, empty, full] using
            push_entry buffers room valid pages distinct
        · simp only [pageStackFree, empty, full, if_false]
          omega
        · exact reorder.nodup_iff.mpr (List.nodup_cons.mpr ⟨absent, distinct⟩)
        · intro other member
          rcases List.mem_cons.mp (reorder.subset member) with rfl | old
          · exact valid
          · exact pages other old
        · simp [pageStackFree, empty, full]

end Asym.PageStack
