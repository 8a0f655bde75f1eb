import Asym.Runs
import Asym.Turns
import Mathlib.Data.Set.Card

/-!
# The ticket lock

A model of `lock.h` with its three atomic operations as steps: drawing a ticket
from `nextTicket`, comparing `nowServing` with the own ticket, and passing
`nowServing` on. Both counters are 32 bits wide and wrap. The histories of draws
and entries are recorded beside the counters; the code does not have them.

The contenders stand in a line whose tickets follow `nowServing` one by one. As
long as the line is shorter than the range of the counters, the first of the
line is the only one whose ticket is being served.
-/

namespace Asym.TicketLock

open Runs Turns

/-- Where a contender stands: outside, in the loop of `lock_acquire` with its
ticket, or between `lock_acquire` and `lock_release`. -/
inductive Phase where
  | outside
  | spinning (ticket : BitVec 32)
  | holding
  deriving DecidableEq, Repr

/-- `lock_t`, the phase of every contender, and the contenders in the order in
which they drew tickets and in which they left the loop. -/
structure State (Party : Type) where
  nextTicket : BitVec 32
  nowServing : BitVec 32
  phase : Party → Phase
  drawn : List Party
  entered : List Party

variable {Party : Type} [DecidableEq Party]

/-- The draw of `lock_acquire`: `atomic_fetch_add` on `nextTicket`. -/
def State.draw (state : State Party) (party : Party) : State Party :=
  { state with
    nextTicket := state.nextTicket + 1
    phase := Function.update state.phase party (.spinning state.nextTicket)
    drawn := state.drawn ++ [party] }

/-- The end of the loop of `lock_acquire`. -/
def State.enter (state : State Party) (party : Party) : State Party :=
  { state with
    phase := Function.update state.phase party .holding
    entered := state.entered ++ [party] }

/-- `lock_release`: `atomic_fetch_add` on `nowServing`. -/
def State.release (state : State Party) (party : Party) : State Party :=
  { state with
    nowServing := state.nowServing + 1
    phase := Function.update state.phase party .outside }

/-- The atomic steps of `lock_acquire` and `lock_release`. A load of `nowServing`
that does not find the own ticket changes nothing. -/
inductive Step : State Party → State Party → Prop where
  | draw (state : State Party) (party : Party) (ready : state.phase party = .outside) :
      Step state (state.draw party)
  | spin (state : State Party) (party : Party) (ticket : BitVec 32)
      (waits : state.phase party = .spinning ticket) (other : state.nowServing ≠ ticket) :
      Step state state
  | enter (state : State Party) (party : Party) (ticket : BitVec 32)
      (waits : state.phase party = .spinning ticket) (served : state.nowServing = ticket) :
      Step state (state.enter party)
  | release (state : State Party) (party : Party) (holds : state.phase party = .holding) :
      Step state (state.release party)

/-- `lock_init`, with nobody in a call. -/
def Initial (state : State Party) : Prop :=
  state.nextTicket = 0 ∧ state.nowServing = 0 ∧ (∀ party, state.phase party = .outside) ∧
    state.drawn = [] ∧ state.entered = []

/-- The parties that wait for the lock or hold it. -/
def contenders (state : State Party) : Set Party := {party | state.phase party ≠ .outside}

/-- A step to a state with fewer contenders than tickets. -/
def BoundedStep (before after : State Party) : Prop :=
  Step before after ∧ (contenders after).ncard < 2 ^ 32

/-- A line stands for the lock: the party inside holds it, the others spin with
tickets that follow `nowServing` in order, and nobody else is in a call. -/
structure Represents (state : State Party) (line : Line Party) : Prop where
  orderly : Orderly line
  short : line.parties.length < 2 ^ 32
  next : state.nextTicket = state.nowServing + BitVec.ofNat 32 line.parties.length
  holds : ∀ party, state.phase party = .holding ↔ line.inside = some party
  outside : ∀ party, state.phase party = .outside ↔ party ∉ line.parties
  tickets : ∀ position party, line.waiting[position]? = some party →
    state.phase party = .spinning
      (state.nowServing + BitVec.ofNat 32 (line.inside.toList.length + position))
  drawn : state.drawn = line.arrivals
  entered : state.entered = line.entries

/-- A counter that is a number of steps further, and one more. -/
theorem counter_succ (counter : BitVec 32) (steps : Nat) :
    counter + BitVec.ofNat 32 (1 + steps) = counter + 1 + BitVec.ofNat 32 steps := by
  rw [BitVec.ofNat_add, BitVec.add_assoc]
  rfl

/-- A counter comes back to its value after a whole round only. -/
theorem counter_round (counter : BitVec 32) (steps : Nat) (near : steps < 2 ^ 32)
    (same : counter = counter + BitVec.ofNat 32 steps) : steps = 0 := by
  have wrapped := congrArg BitVec.toNat same
  rw [BitVec.toNat_add, BitVec.toNat_ofNat] at wrapped
  have bound := counter.isLt
  omega

omit [DecidableEq Party] in
/-- The contenders are those in the line. -/
theorem contenders_ncard {state : State Party} {parties : List Party} (distinct : parties.Nodup)
    (outside : ∀ party, state.phase party = .outside ↔ party ∉ parties) :
    (contenders state).ncard = parties.length := by
  classical
  have same : contenders state = ↑parties.toFinset := by
    ext party
    simp [contenders, outside]
  rw [same, Set.ncard_coe_finset, List.toFinset_card_of_nodup distinct]

/-- A contender that draws a ticket stands at the end of the line. -/
theorem draw_represents {state : State Party} {line : Line Party} {party : Party}
    (represents : Represents state line) (ready : state.phase party = .outside)
    (bounded : (contenders (state.draw party)).ncard < 2 ^ 32) :
    ∃ next, Represents (state.draw party) next := by
  have absent := (represents.outside party).mp ready
  have orderly := step_orderly represents.orderly (.arrive line party absent)
  have parties : Line.parties { line with
      waiting := line.waiting ++ [party], arrivals := line.arrivals ++ [party] } =
      line.parties ++ [party] := by simp [Line.parties]
  have outside : ∀ tested, (state.draw party).phase tested = .outside ↔
      tested ∉ line.parties ++ [party] := by
    intro tested
    by_cases same : tested = party
    · subst same
      simp [State.draw]
    · simp [State.draw, represents.outside, same]
  have elsewhere : ∀ tested, tested ∈ line.parties → tested ≠ party := by
    rintro tested member rfl
    exact absent member
  refine ⟨_, orderly, ?_, ?_, ?_, ?_, ?_, ?_, represents.entered⟩
  · rw [parties, ← contenders_ncard (parties ▸ orderly.distinct) outside]
    exact bounded
  · rw [parties, List.length_append, List.length_singleton, Nat.add_comm, counter_succ]
    simp only [State.draw, represents.next, BitVec.add_assoc, BitVec.add_comm 1]
  · intro tested
    by_cases same : tested = party
    · subst same
      have notInside : line.inside ≠ some tested := by
        intro inside
        exact absent (by simp [Line.parties, inside])
      simp [State.draw, notInside]
    · simp only [State.draw, Function.update_of_ne same]
      exact represents.holds tested
  · rw [parties]
    exact outside
  · intro position tested found
    rcases Nat.lt_or_ge position line.waiting.length with early | late
    · rw [List.getElem?_append_left early] at found
      have member : tested ∈ line.parties :=
        List.mem_append_right _ (List.mem_of_getElem? found)
      simp only [State.draw, Function.update_of_ne (elsewhere tested member)]
      exact represents.tickets position tested found
    · rw [List.getElem?_append_right late, List.getElem?_singleton] at found
      split at found
      · obtain rfl := Option.some.inj found
        simp only [State.draw, Function.update_self, represents.next, Line.parties, List.length_append]
        congr 3
        omega
      · contradiction
  · simp only [State.draw, represents.drawn]

/-- The contender whose ticket is served is the first of the line, and nobody is
inside: any other ticket of the line is less than a round ahead of
`nowServing`. -/
theorem served_first {state : State Party} {line : Line Party} {party : Party}
    (represents : Represents state line) (waits : state.phase party = .spinning state.nowServing) :
    line.inside = none ∧ ∃ rest, line.waiting = party :: rest := by
  have member : party ∈ line.parties := by
    by_contra absent
    rw [(represents.outside party).mpr absent] at waits
    contradiction
  have notInside : line.inside ≠ some party := by
    intro inside
    rw [(represents.holds party).mpr inside] at waits
    contradiction
  have queued : party ∈ line.waiting := by
    rcases List.mem_append.mp member with inside | waiting
    · exact absurd (Option.mem_toList.mp inside) notInside
    · exact waiting
  obtain ⟨position, found⟩ := List.mem_iff_getElem?.mp queued
  have near := (List.getElem?_eq_some_iff.mp found).1
  have short := represents.short
  have ticket := represents.tickets position party found
  rw [waits, Phase.spinning.injEq] at ticket
  rw [Line.parties, List.length_append] at short
  have nearest := counter_round _ _ (by omega) ticket
  obtain rfl : position = 0 := by omega
  constructor
  · apply Option.toList_eq_nil_iff.mp
    exact List.eq_nil_of_length_eq_zero (by omega)
  · cases shape : line.waiting with
    | nil => simp [shape] at found
    | cons first rest =>
      rw [shape, List.getElem?_cons_zero, Option.some.injEq] at found
      exact ⟨rest, by rw [found]⟩

/-- The first of the line enters. -/
theorem enter_represents {state : State Party} {line : Line Party} {party : Party}
    (represents : Represents state line) (waits : state.phase party = .spinning state.nowServing) :
    ∃ next, Represents (state.enter party) next := by
  obtain ⟨free, rest, shape⟩ := served_first represents waits
  have orderly := step_orderly represents.orderly (.enter line party rest shape free)
  have same : line.parties = party :: rest := by simp [Line.parties, free, shape]
  have short := represents.short
  have next := represents.next
  have distinct := represents.orderly.distinct
  rw [same] at short next distinct
  have elsewhere : ∀ tested, tested ∈ rest → tested ≠ party := by
    rintro tested member rfl
    exact (List.nodup_cons.mp distinct).1 member
  refine ⟨_, orderly, short, next, ?_, ?_, ?_, represents.drawn, ?_⟩
  · intro tested
    by_cases isParty : tested = party
    · subst isParty
      simp [State.enter]
    · have before := represents.holds tested
      rw [free] at before
      simpa [State.enter, isParty, Ne.symm isParty] using before
  · intro tested
    have before := represents.outside tested
    rw [same] at before
    by_cases isParty : tested = party
    · subst isParty
      simp [State.enter, Line.parties]
    · simpa [State.enter, isParty, Line.parties] using before
  · intro position tested found
    have member : tested ∈ rest := List.mem_of_getElem? found
    have ticket := represents.tickets (position + 1) tested (by rw [shape]; exact found)
    rw [free] at ticket
    simp only [State.enter, Function.update_of_ne (elsewhere tested member), ticket]
    congr 3
    simp only [Option.toList, List.length_nil, List.length_singleton]
    omega
  · simp only [State.enter, represents.entered]

/-- The holder leaves, and everybody in the line moves up. -/
theorem release_represents {state : State Party} {line : Line Party} {party : Party}
    (represents : Represents state line) (holds : state.phase party = .holding) :
    ∃ next, Represents (state.release party) next := by
  have inside := (represents.holds party).mp holds
  have orderly := step_orderly represents.orderly (.leave line party inside)
  have same : line.parties = party :: line.waiting := by simp [Line.parties, inside]
  have short := represents.short
  have next := represents.next
  have distinct := represents.orderly.distinct
  rw [same] at short next distinct
  have elsewhere : ∀ tested, tested ∈ line.waiting → tested ≠ party := by
    rintro tested member rfl
    exact (List.nodup_cons.mp distinct).1 member
  refine ⟨_, orderly, ?_, ?_, ?_, ?_, ?_, represents.drawn, represents.entered⟩
  · rw [List.length_cons] at short
    simp only [Line.parties, Option.toList, List.nil_append]
    omega
  · rw [List.length_cons, Nat.add_comm, counter_succ] at next
    exact next
  · intro tested
    by_cases isParty : tested = party
    · subst isParty
      simp [State.release]
    · have before := represents.holds tested
      rw [inside] at before
      simpa [State.release, isParty, Ne.symm isParty] using before
  · intro tested
    have before := represents.outside tested
    rw [same] at before
    by_cases isParty : tested = party
    · subst isParty
      simpa [State.release, Line.parties] using (List.nodup_cons.mp distinct).1
    · simpa [State.release, isParty, Line.parties] using before
  · intro position tested found
    have member : tested ∈ line.waiting := List.mem_of_getElem? found
    have ticket := represents.tickets position tested found
    rw [inside] at ticket
    simp only [State.release, Function.update_of_ne (elsewhere tested member), ticket]
    simp only [Option.toList, List.length_singleton, List.length_nil, counter_succ, Nat.zero_add]

omit [DecidableEq Party] in
/-- The empty line stands for a new lock. -/
theorem initial_represents (start : State Party) (initial : Initial start) :
    ∃ line, Represents start line := by
  obtain ⟨next, serving, outside, drawn, entered⟩ := initial
  refine ⟨⟨none, [], [], []⟩, ⟨List.nodup_nil, [], rfl, rfl⟩, by simp [Line.parties], ?_, ?_, ?_, ?_, drawn, entered⟩
  · simp [next, serving, Line.parties]
  · simp [outside]
  · simp [outside, Line.parties]
  · simp

/-- Every step leads from a line to a line. -/
theorem step_represents (before after : State Party) (represented : ∃ line, Represents before line)
    (taken : BoundedStep before after) : ∃ line, Represents after line := by
  obtain ⟨line, represents⟩ := represented
  obtain ⟨step, bounded⟩ := taken
  cases step with
  | draw party ready => exact draw_represents represents ready bounded
  | spin party ticket waits other => exact ⟨line, represents⟩
  | enter party ticket waits served =>
    subst served
    exact enter_represents represents waits
  | release party holds => exact release_represents represents holds

/-- The ticket lock is a fair mutex. In every state of every run with fewer than
`2 ^ 32` contenders at a time, at most one party holds the lock, the parties
entered in the order of their draws, and the distance of the counters is the
number of contenders. -/
theorem ticket_lock_fair (state : State Party) (reached : Reachable Initial BoundedStep state) :
    (∀ first second, state.phase first = .holding → state.phase second = .holding → first = second) ∧
      state.entered <+: state.drawn ∧
      (state.nextTicket - state.nowServing).toNat = (contenders state).ncard := by
  obtain ⟨line, represents⟩ := reachable_invariant initial_represents step_represents reached
  refine ⟨?_, ?_, ?_⟩
  · intro first second firstHolds secondHolds
    rw [represents.holds] at firstHolds secondHolds
    exact Option.some.inj (firstHolds.symm.trans secondHolds)
  · rw [represents.drawn, represents.entered]
    exact represents.orderly.in_order
  · have distance : state.nextTicket - state.nowServing = BitVec.ofNat 32 line.parties.length := by
      rw [represents.next, BitVec.add_comm, BitVec.add_sub_cancel]
    rw [distance, contenders_ncard represents.orderly.distinct represents.outside,
      BitVec.toNat_ofNat, Nat.mod_eq_of_lt represents.short]

/-- A new lock and two parties. -/
def sampleLock : State Bool := ⟨0, 0, fun _ => .outside, [], []⟩

/-- Two parties are fewer than the tickets. -/
theorem sample_bounded (state : State Bool) : (contenders state).ncard < 2 ^ 32 := by
  have few := Set.ncard_le_ncard (Set.subset_univ (contenders state))
  rw [Set.ncard_univ, Nat.card_eq_fintype_card, Fintype.card_bool] at few
  omega

/-- Both parties draw, and the second one enters after the first one has left. -/
theorem ticket_lock_fair_sample :
    let last := ((((sampleLock.draw false).draw true).enter false).release false).enter true
    Reachable Initial BoundedStep last ∧ last.entered = [false, true] ∧
      last.entered <+: last.drawn ∧ (last.nextTicket - last.nowServing).toNat = (contenders last).ncard := by
  intro last
  have initial : Initial sampleLock := ⟨rfl, rfl, fun _ => rfl, rfl, rfl⟩
  have run : Relation.ReflTransGen BoundedStep sampleLock last :=
    ((((Relation.ReflTransGen.single ⟨.draw _ false rfl, sample_bounded _⟩).tail
      ⟨.draw _ true rfl, sample_bounded _⟩).tail
      ⟨.enter _ false 0 rfl rfl, sample_bounded _⟩).tail
      ⟨.release _ false rfl, sample_bounded _⟩).tail
      ⟨.enter _ true 1 rfl rfl, sample_bounded _⟩
  have reached : Reachable Initial BoundedStep last := ⟨sampleLock, initial, run⟩
  have fair := ticket_lock_fair last reached
  exact ⟨reached, rfl, fair.2.1, fair.2.2⟩

end Asym.TicketLock
