import Asym.ThreadBlocks

/-!
# Reservations of thread blocks

Each block is reserved for one thread at a time: first by the thread that creates it,
then for the thread until it has exited and its join has returned. The count of a block
is the number of references that the thread and its join have, and the flag of the block
is clear exactly when the thread has stopped.

This is kept if four things are respected. A thread passes a value that fits into the
result of its block. It drops its base reference only after its join has taken a
reference. No block is reserved while it is still being freed. And no `split` fails, so
that no thread comes to the places after a failure.
-/

namespace Asym.ThreadBlocks

open EventRuns

/-- The references that a thread has to its own block. -/
def Phase.own : Phase → Int
  | .absent | .exited | .free _ .exit | .freed _ .exit => 0
  | .store _ _ | .stop _ | .drop _ => 2
  | _ => 1

/-- The result is stored. -/
def Phase.stored : Phase → Bool
  | .stop _ | .drop _ | .dropBase _ | .exited | .free _ .exit | .freed _ .exit => true
  | _ => false

/-- The flag is cleared by the thread itself. -/
def Phase.stopped : Phase → Bool
  | .drop _ | .dropBase _ | .exited | .free _ .exit | .freed _ .exit => true
  | _ => false

/-- The references of a join. -/
def Join.held : Join → Int
  | .holding _ => 1
  | _ => 0

/-- The thread whose block is freed by its join. -/
def Phase.freeing : Phase → Option Nat
  | .free _ (.joined target _) | .freed _ (.joined target _) => some target
  | _ => none

/-- The thread that joins. -/
def Join.joiner : Join → Option Nat
  | .seeking joiner | .holding joiner | .leaving joiner => some joiner
  | _ => Option.none

/-- For whom a block is reserved: for nobody, by a thread that creates another one, or
for a thread. -/
inductive User where
  | none
  | claimed (creator : Nat)
  | thread (thread : Nat)
  deriving DecidableEq, Repr

/-- The block of a thread is reserved for it. -/
def Home (state : State) (user : Nat → User) (thread index : Nat) : Prop :=
  state.blockOf thread = some index ∧ user index = .thread thread

/-- A thread passes a value that fits into the result. -/
def Passes (state : State) (thread : Nat) (res : Int) : Prop :=
  state.passed thread = some res ∧ 0 ≤ res ∧ res < 256

/-- What holds of a thread at its place. A thread has its block until it has exited and
its join has returned. -/
def Fits (state : State) (user : Nat → User) (thread : Nat) : Phase → Prop
  | .absent => state.blockOf thread = none ∧ state.join thread = .none ∧ state.birth thread = .unborn
  | .entry index | .stop index | .drop index | .dropBase index => Home state user thread index
  | .take index res | .store index res => Home state user thread index ∧ Passes state thread res
  | .find index res =>
      (∃ home, Home state user thread home ∧ index ≤ home) ∧ Passes state thread res ∧ thread ≠ 0
  | .body | .reserve _ => ∃ home, Home state user thread home
  | .clear index | .split index =>
      (∃ home, Home state user thread home) ∧ user index = .claimed thread ∧ index < maxThrd
  | .launch index child =>
      (∃ home, Home state user thread home) ∧ state.birth child = .launching thread ∧ Home state user child index
  | .exited => state.join thread = .returned ∨
      (∃ joiner, state.join thread = .holding joiner ∨ state.join thread = .leaving joiner) ∧
        ∃ home, Home state user thread home
  | .look target index | .hold target index =>
      (∃ home, Home state user thread home) ∧ state.join target = .seeking thread ∧ Home state user target index
  | .wait target index =>
      (∃ home, Home state user thread home) ∧ state.join target = .holding thread ∧ Home state user target index
  | .read target index =>
      (∃ home, Home state user thread home) ∧ state.join target = .holding thread ∧
        Home state user target index ∧ (state.phase target).stopped = true
  | .release target index value =>
      (∃ home, Home state user thread home) ∧ state.join target = .holding thread ∧
        Home state user target index ∧ (state.phase target).stopped = true ∧ state.passed target = some value
  | .free index .exit | .freed index .exit => Home state user thread index ∧ state.join thread = .returned
  | .free index (.joined target value) | .freed index (.joined target value) =>
      (∃ home, Home state user thread home) ∧ state.join target = .leaving thread ∧
        Home state user target index ∧ state.phase target = .exited ∧ state.passed target = some value
  | .free _ .base | .freed _ .base | .free _ .failed | .freed _ .failed => False
  | .errnoFind _ _ | .errnoTake _ _ | .errnoStore _ _ | .refused _ => False

/-- What holds of a block, depending on for whom it is reserved. -/
def BlockFits (state : State) (index : Nat) (block : Block) : User → Prop
  | .none => block.ref = 0
  | .claimed creator => block.ref = 1 ∧ (state.phase creator = .split index → block.running = false)
  | .thread thread =>
      block.ref = (state.phase thread).own + (state.join thread).held ∧
      (state.birth thread = .created → block.running = !(state.phase thread).stopped ∧ block.id = thread) ∧
      (∀ creator, state.birth thread = .launching creator → block.running = false) ∧
      ((state.phase thread).stored = true →
        ∃ res, state.passed thread = some res ∧ (block.result : Int) = res)

/-- The invariant of careful runs. -/
structure Kept (state : State) (user : Nat → User) : Prop where
  fits : ∀ thread, Fits state user thread (state.phase thread)
  blocks : ∀ index, BlockFits state index (state.blocks index) (user index)
  owned : ∀ index thread, user index = .thread thread → state.blockOf thread = some index
  unfinished : ∀ index thread, user index = .thread thread →
    ¬(state.phase thread = .exited ∧ state.join thread = .returned)
  unlaunched : ∀ thread creator, state.birth thread = .launching creator →
    ∃ index, state.phase thread = .entry index
  unborn : ∀ thread, thread ≠ 0 → state.birth thread = .unborn → state.phase thread = .absent
  ids : ∀ index thread, (state.blocks index).id = thread → thread ≠ 0 → thread ≠ errId →
    state.blockOf thread = some index
  births : ∀ thread, state.join thread ≠ .none → state.birth thread = .created
  bounded : ∀ thread index, state.blockOf thread = some index → index < maxThrd
  leaving : ∀ target joiner, state.join target = .leaving joiner →
    (state.phase joiner).freeing = some target
  outcomes : ∀ thread outcome, state.outcome thread = some outcome → state.join thread = .returned ∧
    (state.phase thread).stopped = true ∧ ∃ res, state.passed thread = some res ∧ outcome = some res
  valid : state.phase errId = .absent

variable {state : State} {user : Nat → User}

/-- What a step of a thread leaves to the other threads. -/
structure Leaves (thread : Nat) (before after : State) (userBefore userAfter : Nat → User) : Prop where
  phase : ∀ other, other ≠ thread → before.phase other ≠ .absent → after.phase other = before.phase other
  home : ∀ other index, other ≠ thread → before.phase other ≠ .exited → Home before userBefore other index →
    Home after userAfter other index
  claims : ∀ other index, other ≠ thread → userBefore index = .claimed other → userAfter index = .claimed other
  births : ∀ other child index, other ≠ thread → before.birth child = .launching other →
    Home before userBefore child index → after.birth child = .launching other ∧ Home after userAfter child index
  joins : ∀ other target index, other ≠ thread → (before.join target).joiner = some other →
    Home before userBefore target index → after.join target = before.join target ∧
      Home after userAfter target index
  stopped : ∀ target, (before.phase target).stopped = true → (after.phase target).stopped = true ∧
    after.passed target = before.passed target
  exited : ∀ target, before.phase target = .exited → after.phase target = .exited
  passed : ∀ other, other ≠ thread → after.passed other = before.passed other
  returned : ∀ target, before.join target = .returned → after.join target = .returned
  gone : ∀ other, other ≠ thread → before.phase other = .exited → Fits before userBefore other .exited →
    Fits after userAfter other .exited

/-- The other threads are at places that still fit. -/
theorem Leaves.fits {thread : Nat} {before after : State} {userBefore userAfter : Nat → User}
    (leaves : Leaves thread before after userBefore userAfter) {other : Nat} (different : other ≠ thread)
    (present : before.phase other ≠ .absent) (fit : Fits before userBefore other (before.phase other)) :
    Fits after userAfter other (after.phase other) := by
  rw [leaves.phase other different present]
  have own (index : Nat) (live : before.phase other ≠ .exited) (home : Home before userBefore other index) :
      Home after userAfter other index := leaves.home other index different live home
  have housed (live : before.phase other ≠ .exited) (home : ∃ index, Home before userBefore other index) :
      ∃ index, Home after userAfter other index := by
    obtain ⟨index, home⟩ := home
    exact ⟨index, own index live home⟩
  have passes (res : Int) (passing : Passes before other res) : Passes after other res := by
    rw [Passes, leaves.passed other different]
    exact passing
  have joins (target index : Nat) (join : Join) (is : before.join target = join)
      (joiner : join.joiner = some other) (home : Home before userBefore target index) :
      after.join target = join ∧ Home after userAfter target index := by
    subst is
    exact leaves.joins other target index different joiner home
  have value (target : Nat) (value : Int) (stopped : (before.phase target).stopped = true)
      (passed : before.passed target = some value) : after.passed target = some value :=
    (leaves.stopped target stopped).2.trans passed
  cases at_ : before.phase other with
  | absent => exact absurd at_ present
  | exited =>
    rw [at_] at fit
    exact leaves.gone other different at_ fit
  | entry index | stop index | drop index | dropBase index =>
    rw [at_] at fit own
    exact own index nofun fit
  | body | reserve index =>
    rw [at_] at fit housed
    exact housed nofun fit
  | take index res | store index res =>
    rw [at_] at fit own
    exact ⟨own index nofun fit.1, passes res fit.2⟩
  | find index res =>
    rw [at_] at fit own
    obtain ⟨⟨place, home, before⟩, passing, notMain⟩ := fit
    exact ⟨⟨place, own place nofun home, before⟩, passes res passing, notMain⟩
  | clear index | split index =>
    rw [at_] at fit housed
    exact ⟨housed nofun fit.1, leaves.claims other index different fit.2.1, fit.2.2⟩
  | errnoFind | errnoTake | errnoStore | refused =>
    rw [at_] at fit
    exact fit.elim
  | launch index child =>
    rw [at_] at fit housed
    exact ⟨housed nofun fit.1, leaves.births other child index different fit.2.1 fit.2.2⟩
  | look target index | hold target index =>
    rw [at_] at fit housed
    exact ⟨housed nofun fit.1, joins target index _ fit.2.1 rfl fit.2.2⟩
  | wait target index =>
    rw [at_] at fit housed
    exact ⟨housed nofun fit.1, joins target index _ fit.2.1 rfl fit.2.2⟩
  | read target index =>
    rw [at_] at fit housed
    obtain ⟨home, join, targetHome, stopped⟩ := fit
    obtain ⟨joinAfter, homeAfter⟩ := joins target index _ join rfl targetHome
    exact ⟨housed nofun home, joinAfter, homeAfter, (leaves.stopped target stopped).1⟩
  | release target index result =>
    rw [at_] at fit housed
    obtain ⟨home, join, targetHome, stopped, passed⟩ := fit
    obtain ⟨joinAfter, homeAfter⟩ := joins target index _ join rfl targetHome
    exact ⟨housed nofun home, joinAfter, homeAfter, (leaves.stopped target stopped).1,
      value target result stopped passed⟩
  | free index next | freed index next =>
    rw [at_] at fit housed own
    cases next with
    | base | failed => exact fit
    | exit => exact ⟨own index nofun fit.1, leaves.returned other fit.2⟩
    | joined target result =>
      obtain ⟨home, join, targetHome, exited, passed⟩ := fit
      obtain ⟨joinAfter, homeAfter⟩ := joins target index _ join rfl targetHome
      have stopped : (before.phase target).stopped = true := by
        rw [exited]
        rfl
      exact ⟨housed nofun home, joinAfter, homeAfter, leaves.exited target exited,
        value target result stopped passed⟩

/-- What a step of a thread may do to the reservations: reserve an unused block, or give
up a block that it has reserved or that is reserved for a thread that is gone. -/
structure Yields (thread index : Nat) (gone : Nat → Prop) (before after : Nat → User) : Prop where
  elsewhere : ∀ other, other ≠ index → after other = before other
  here : after index = before index ∨ (after index = .none ∨ after index = .claimed thread) ∧
    (before index = .none ∨ before index = .claimed thread ∨ ∃ holder, before index = .thread holder ∧ gone holder)

variable {userAfter : Nat → User}

/-- No reservation is changed. -/
theorem Yields.same (thread index : Nat) (gone : Nat → Prop) (user : Nat → User) :
    Yields thread index gone user user :=
  ⟨fun _ _ => rfl, .inl rfl⟩

/-- One reservation is changed. -/
theorem Yields.update {thread index : Nat} {gone : Nat → Prop} {given : User}
    (new : given = .none ∨ given = .claimed thread)
    (old : user index = .none ∨ user index = .claimed thread ∨ ∃ holder, user index = .thread holder ∧ gone holder) :
    Yields thread index gone user (Function.update user index given) := by
  constructor
  · intro other different
    exact Function.update_of_ne different ..
  · right
    rw [Function.update_self]
    exact ⟨new, old⟩

/-- No block becomes the one of another thread. -/
theorem Yields.thread_before {thread index place holder : Nat} {gone : Nat → Prop}
    (yields : Yields thread index gone user userAfter) (reserved : userAfter place = .thread holder) :
    user place = .thread holder := by
  by_cases isIndex : place = index
  · subst isIndex
    rcases yields.here with same | ⟨none | claimed, _⟩
    · exact same ▸ reserved
    · exact nomatch none.symm.trans reserved
    · exact nomatch claimed.symm.trans reserved
  · exact yields.elsewhere place isIndex ▸ reserved

/-- A block stays with its thread unless the thread is gone. -/
theorem Yields.thread_after {thread index place holder : Nat} {gone : Nat → Prop}
    (yields : Yields thread index gone user userAfter) (reserved : user place = .thread holder)
    (stays : ¬gone holder) : userAfter place = .thread holder := by
  by_cases isIndex : place = index
  · subst isIndex
    rcases yields.here with same | ⟨_, none | claimed | ⟨other, isOther, isGone⟩⟩
    · exact same.trans reserved
    · exact nomatch none.symm.trans reserved
    · exact nomatch claimed.symm.trans reserved
    · obtain rfl : other = holder := User.thread.inj (isOther.symm.trans reserved)
      exact absurd isGone stays
  · exact (yields.elsewhere place isIndex).trans reserved

/-- A block that another thread has reserved stays so. -/
theorem Yields.claimed_after {thread index place other : Nat} {gone : Nat → Prop}
    (yields : Yields thread index gone user userAfter) (different : other ≠ thread)
    (reserved : user place = .claimed other) : userAfter place = .claimed other := by
  by_cases isIndex : place = index
  · subst isIndex
    rcases yields.here with same | ⟨_, none | claimed | ⟨holder, isHolder, _⟩⟩
    · exact same.trans reserved
    · exact nomatch none.symm.trans reserved
    · exact absurd (User.claimed.inj (reserved.symm.trans claimed)) different
    · exact nomatch isHolder.symm.trans reserved
  · exact (yields.elsewhere place isIndex).trans reserved

/-- The home of a thread that is not gone stays. -/
theorem Yields.home {thread index place holder : Nat} {gone : Nat → Prop} {before after : State}
    (yields : Yields thread index gone user userAfter) (blockOf : after.blockOf = before.blockOf)
    (home : Home before user holder place) (stays : ¬gone holder) : Home after userAfter holder place := by
  refine ⟨?_, yields.thread_after home.2 stays⟩
  rw [blockOf]
  exact home.1

/-- A thread that ends after its join has returned. -/
def Ends (state : State) (thread holder : Nat) : Prop := holder = thread ∧ state.join holder = .returned

/-- A step that changes the place of a thread and the reservation of a block leaves
everything else. -/
theorem leaves_of_same {thread index : Nat} {before after : State} {next : Phase}
    (phase : after.phase = Function.update before.phase thread next) (blockOf : after.blockOf = before.blockOf)
    (birth : after.birth = before.birth) (join : after.join = before.join)
    (passed : ∀ other, other ≠ thread → after.passed other = before.passed other)
    (live : before.phase thread ≠ .exited) (launched : ∀ creator, before.birth thread ≠ .launching creator)
    (stopped : (before.phase thread).stopped = true → next.stopped = true ∧
      after.passed thread = before.passed thread)
    (yields : Yields thread index (Ends before thread) user userAfter) :
    Leaves thread before after user userAfter := by
  have elsewhere (other : Nat) (different : other ≠ thread) : after.phase other = before.phase other := by
    rw [phase, Function.update_of_ne different]
  constructor
  · intro other different _
    exact elsewhere other different
  · intro other place different _ home
    exact yields.home blockOf home fun ends => different ends.1
  · intro other place different claimed
    exact yields.claimed_after different claimed
  · intro other child place _ launching home
    refine ⟨birth ▸ launching, yields.home blockOf home ?_⟩
    rintro ⟨rfl, _⟩
    exact launched other launching
  · intro other target place _ joiner home
    refine ⟨by rw [join], yields.home blockOf home ?_⟩
    rintro ⟨rfl, returned⟩
    rw [returned] at joiner
    exact nomatch joiner
  · intro target isStopped
    by_cases same : target = thread
    · subst same
      rw [phase, Function.update_self]
      exact stopped isStopped
    · rw [elsewhere target same]
      exact ⟨isStopped, passed target same⟩
  · intro target exited
    by_cases same : target = thread
    · subst same
      exact absurd exited live
    · rw [elsewhere target same]
      exact exited
  · exact passed
  · intro target returned
    rw [join]
    exact returned
  · intro other different _ fit
    rw [Fits, join]
    rcases fit with returned | ⟨joiner, place, home⟩
    · exact .inl returned
    · exact .inr ⟨joiner, place, yields.home blockOf home fun ends => different ends.1⟩

/-- The same references, flag and result at two places of a thread. -/
structure SameProfile (before after : Phase) : Prop where
  own : after.own = before.own
  stopped : after.stopped = before.stopped
  stored : after.stored = before.stored

/-- A block that is not changed fits if its thread has the same references. -/
theorem BlockFits.of_same {before after : State} {index : Nat} {block : Block} {reserved : User}
    (fit : BlockFits before index block reserved)
    (claimed : ∀ creator, reserved = .claimed creator → after.phase creator = .split index →
      before.phase creator = .split index)
    (profile : ∀ thread, reserved = .thread thread → SameProfile (before.phase thread) (after.phase thread))
    (joined : ∀ thread, reserved = .thread thread → (after.join thread).held = (before.join thread).held ∧
      after.birth thread = before.birth thread)
    (passed : ∀ thread, reserved = .thread thread → (before.phase thread).stored = true →
      after.passed thread = before.passed thread) : BlockFits after index block reserved := by
  cases reserved with
  | none => exact fit
  | claimed creator => exact ⟨fit.1, fun splits => fit.2 (claimed creator rfl splits)⟩
  | thread thread =>
    have same := profile thread rfl
    obtain ⟨held, born⟩ := joined thread rfl
    obtain ⟨count, runs, launching, stores⟩ := fit
    rw [BlockFits, same.own, same.stopped, same.stored, held, born]
    refine ⟨count, runs, launching, ?_⟩
    intro stored
    rw [passed thread rfl stored]
    exact stores stored

/-- All threads are at places that fit after a step of one of them. -/
theorem Kept.fits_after {thread : Nat} {after : State} {userAfter : Nat → User} (kept : Kept state user)
    (leaves : Leaves thread state after user userAfter) (fit : Fits after userAfter thread (after.phase thread))
    (absent : ∀ other, other ≠ thread → state.phase other = .absent →
      Fits after userAfter other (after.phase other)) (other : Nat) :
    Fits after userAfter other (after.phase other) := by
  by_cases same : other = thread
  · rw [same]
    exact fit
  · by_cases isAbsent : state.phase other = .absent
    · exact absent other same isAbsent
    · exact leaves.fits same isAbsent (kept.fits other)

/-- All blocks fit after a step at one of them. -/
theorem Kept.blocks_after {index : Nat} {after : State} {userAfter : Nat → User} (kept : Kept state user)
    (sameUser : ∀ other, other ≠ index → userAfter other = user other)
    (sameBlock : ∀ other, other ≠ index → after.blocks other = state.blocks other)
    (block : BlockFits after index (after.blocks index) (userAfter index))
    (claimed : ∀ other creator, other ≠ index → after.phase creator = .split other →
      state.phase creator = .split other)
    (profile : ∀ other holder, other ≠ index → user other = .thread holder →
      SameProfile (state.phase holder) (after.phase holder))
    (joined : ∀ other holder, other ≠ index → user other = .thread holder →
      (after.join holder).held = (state.join holder).held ∧ after.birth holder = state.birth holder)
    (passed : ∀ other holder, other ≠ index → user other = .thread holder →
      (state.phase holder).stored = true → after.passed holder = state.passed holder) (other : Nat) :
    BlockFits after other (after.blocks other) (userAfter other) := by
  by_cases same : other = index
  · rw [same]
    exact block
  · rw [sameUser other same, sameBlock other same]
    apply (kept.blocks other).of_same
    · intro creator _
      exact claimed other creator same
    · intro holder
      exact profile other holder same
    · intro holder
      exact joined other holder same
    · intro holder
      exact passed other holder same

/-- Threads that are not launched are at their entry after a step of another thread. -/
theorem Kept.unlaunched_after {thread : Nat} {after : State} (kept : Kept state user)
    (elsewhere : ∀ other, other ≠ thread → after.phase other = state.phase other)
    (launched : ∀ creator, state.birth thread ≠ .launching creator)
    (births : ∀ other creator, after.birth other = .launching creator → state.birth other = .launching creator)
    (other creator : Nat) (launching : after.birth other = .launching creator) :
    ∃ index, after.phase other = .entry index := by
  have before := births other creator launching
  have different : other ≠ thread := by
    rintro rfl
    exact launched creator before
  rw [elsewhere other different]
  exact kept.unlaunched other creator before

/-- Threads that are not created are absent after a step of a thread that is not. -/
theorem Kept.unborn_after {thread : Nat} {after : State} (kept : Kept state user)
    (elsewhere : ∀ other, other ≠ thread → after.phase other = state.phase other)
    (present : state.phase thread ≠ .absent)
    (births : ∀ other, after.birth other = .unborn → state.birth other = .unborn) (other : Nat)
    (notMain : other ≠ 0) (unborn : after.birth other = .unborn) : after.phase other = .absent := by
  have wasAbsent := kept.unborn other notMain (births other unborn)
  have different : other ≠ thread := by
    rintro rfl
    exact present wasAbsent
  rw [elsewhere other different]
  exact wasAbsent

/-- No thread has the id of an error. -/
theorem Kept.valid_after {thread : Nat} {after : State} (kept : Kept state user)
    (elsewhere : ∀ other, other ≠ thread → after.phase other = state.phase other)
    (present : state.phase thread ≠ .absent) : after.phase errId = .absent := by
  have different : errId ≠ thread := by
    rintro rfl
    exact present kept.valid
  rw [elsewhere errId different]
  exact kept.valid

/-- The joins that leave are at their places after a step of a thread that does not. -/
theorem Kept.leaving_after {thread : Nat} {after : State} (kept : Kept state user)
    (elsewhere : ∀ other, other ≠ thread → after.phase other = state.phase other)
    (unfreeing : (state.phase thread).freeing = none) (target joiner : Nat)
    (leaving : state.join target = .leaving joiner) : (after.phase joiner).freeing = some target := by
  have wasFreeing := kept.leaving target joiner leaving
  have different : joiner ≠ thread := by
    rintro rfl
    exact nomatch unfreeing.symm.trans wasFreeing
  rw [elsewhere joiner different]
  exact wasFreeing

/-- A thread that enters another place, seen from a block that it does not change. -/
theorem SameProfile.enter {thread : Nat} {next : Phase} (same : SameProfile (state.phase thread) next)
    (holder : Nat) : SameProfile (state.phase holder) ((state.enter thread next).phase holder) := by
  by_cases isThread : holder = thread
  · rw [isThread, State.enter_self]
    exact same
  · rw [State.enter_of_ne _ _ isThread]
    exact ⟨rfl, rfl, rfl⟩

/-- What a step knows of the thread that takes it. -/
structure Walks (state : State) (thread : Nat) (next : Phase) : Prop where
  present : state.phase thread ≠ .absent
  live : state.phase thread ≠ .exited
  launched : ∀ creator, state.birth thread ≠ .launching creator
  stopped : (state.phase thread).stopped = true → next.stopped = true
  freeing : next.freeing = (state.phase thread).freeing

/-- A step of a thread at a block, with what was created and joined left as it is. -/
theorem Kept.work {thread index : Nat} {next : Phase} {change : Block → Block} (kept : Kept state user)
    (walks : Walks state thread next) (yields : Yields thread index (Ends state thread) user userAfter)
    (fit : Fits ((state.edit index change).enter thread next) userAfter thread next)
    (block : BlockFits ((state.edit index change).enter thread next) index (change (state.blocks index))
      (userAfter index))
    (id : (change (state.blocks index)).id = (state.blocks index).id ∨ (change (state.blocks index)).id = 0)
    (elsewhere : ∀ other, other ≠ index → user other = .thread thread → SameProfile (state.phase thread) next)
    (unfinished : ∀ other, userAfter other = .thread thread → ¬(next = .exited ∧ state.join thread = .returned))
    (splitting : ∀ other, next = .split other → other = index) :
    Kept ((state.edit index change).enter thread next) userAfter := by
  have leaves : Leaves thread state ((state.edit index change).enter thread next) user userAfter :=
    leaves_of_same rfl rfl rfl rfl (fun _ _ => rfl) walks.live walks.launched
      (fun was => ⟨walks.stopped was, rfl⟩) yields
  have phase_of_ne (other : Nat) (different : other ≠ thread) :
      ((state.edit index change).enter thread next).phase other = state.phase other :=
    State.enter_of_ne _ _ different
  constructor
  · apply kept.fits_after leaves
    · rw [State.enter_self]
      exact fit
    · intro other different isAbsent
      have fitBefore := kept.fits other
      rw [isAbsent] at fitBefore
      rw [phase_of_ne other different, isAbsent]
      exact fitBefore
  · refine @Kept.blocks_after state user index ((state.edit index change).enter thread next) userAfter kept
      yields.elsewhere (fun other different => State.edit_of_ne _ _ different) ?_ ?_ ?_ ?_ ?_
    · exact State.edit_self state index change ▸ block
    · intro other creator different splits
      by_cases isThread : creator = thread
      · rw [isThread, State.enter_self] at splits
        exact absurd (splitting other splits) different
      · exact phase_of_ne creator isThread ▸ splits
    · intro other holder different isHolder
      by_cases isThread : holder = thread
      · subst isThread
        rw [State.enter_self]
        exact elsewhere other different isHolder
      · rw [phase_of_ne holder isThread]
        exact ⟨rfl, rfl, rfl⟩
    · intro _ _ _ _
      exact ⟨rfl, rfl⟩
    · intro _ _ _ _ _
      rfl
  · intro place holder reserved
    exact kept.owned place holder (yields.thread_before reserved)
  · intro place holder reserved
    by_cases isThread : holder = thread
    · subst isThread
      rw [State.enter_self]
      exact unfinished place reserved
    · rw [phase_of_ne holder isThread]
      exact kept.unfinished place holder (yields.thread_before reserved)
  · exact kept.unlaunched_after phase_of_ne walks.launched fun _ _ launching => launching
  · exact kept.unborn_after phase_of_ne walks.present fun _ unborn => unborn
  · intro place other same notMain notErr
    by_cases here : place = index
    · subst here
      have changed : (change (state.blocks place)).id = other := State.edit_self state place change ▸ same
      rcases id with kept' | zero
      · exact kept.ids place other (kept'.symm.trans changed) notMain notErr
      · exact absurd (changed.symm.trans zero) notMain
    · have unchanged : (state.blocks place).id = other := State.edit_of_ne state change here ▸ same
      exact kept.ids place other unchanged notMain notErr
  · exact kept.births
  · exact kept.bounded
  · intro target joiner isLeaving
    have wasFreeing := kept.leaving target joiner isLeaving
    by_cases isThread : joiner = thread
    · subst isThread
      rw [State.enter_self, walks.freeing]
      exact wasFreeing
    · rw [phase_of_ne joiner isThread]
      exact wasFreeing
  · intro other outcome is
    obtain ⟨returned, wasStopped, result⟩ := kept.outcomes other outcome is
    exact ⟨returned, (leaves.stopped other wasStopped).1, result⟩
  · exact kept.valid_after phase_of_ne walks.present

/-- A block that stays as it is fits if a thread with the same references goes on. -/
theorem Kept.block_enter {thread index : Nat} {next : Phase} (kept : Kept state user)
    (profile : SameProfile (state.phase thread) next) (splitting : ∀ other, next ≠ .split other) :
    BlockFits (state.enter thread next) index (state.blocks index) (user index) := by
  apply (kept.blocks index).of_same
  · intro creator _ splits
    by_cases isThread : creator = thread
    · rw [isThread, State.enter_self] at splits
      exact absurd splits (splitting index)
    · rw [State.enter_of_ne _ _ isThread] at splits
      exact splits
  · intro holder _
    exact profile.enter holder
  · intro _ _
    exact ⟨rfl, rfl⟩
  · intro _ _ _
    rfl

/-- A change of a block that changes nothing. -/
theorem State.edit_id (state : State) (index : Nat) : state.edit index id = state := by
  rw [State.edit, id_eq, Function.update_eq_self]

/-- A step of a thread that changes no block. -/
theorem Kept.go {thread : Nat} {next : Phase} (kept : Kept state user) (walks : Walks state thread next)
    (fit : Fits (state.enter thread next) user thread next) (profile : SameProfile (state.phase thread) next)
    (splitting : ∀ other, next ≠ .split other) (exits : next ≠ .exited) :
    Kept (state.enter thread next) user := by
  have same : (state.edit 0 id).enter thread next = state.enter thread next := by rw [State.edit_id]
  rw [← same]
  apply kept.work walks (Yields.same ..)
  · rw [same]
    exact fit
  · rw [same]
    exact kept.block_enter profile splitting
  · exact .inl rfl
  · intro _ _ _
    exact profile
  · intro _ _ ended
    exact exits ended.1
  · intro other is
    exact absurd is (splitting other)

/-- A step of a thread at a block that takes the join of another thread further. -/
structure Turns (thread target index : Nat) (next : Phase) (further : Join) (block : Block)
    (before after : State) : Prop where
  blocks : after.blocks = Function.update before.blocks index block
  phase : after.phase = Function.update before.phase thread next
  blockOf : after.blockOf = before.blockOf
  birth : after.birth = before.birth
  join : after.join = Function.update before.join target further
  passed : after.passed = before.passed
  outcome : ∀ other result, after.outcome other = some result → before.outcome other = some result ∨
    other = target ∧ further = .returned ∧ (before.phase target).stopped = true ∧
      ∃ res, before.passed target = some res ∧ result = some res

/-- A thread that has exited when its join returns. -/
def Rests (state : State) (target : Nat) (join : Join) (holder : Nat) : Prop :=
  holder = target ∧ state.phase target = .exited ∧ join = .returned

/-- What a step of a join knows. -/
structure Pursues (state : State) (user : Nat → User) (thread target index : Nat) (next : Phase)
    (join : Join) : Prop where
  present : state.phase thread ≠ .absent
  launched : ∀ creator, state.birth thread ≠ .launching creator
  unstopped : (state.phase thread).stopped = false
  profile : SameProfile (state.phase thread) next
  splitting : ∀ other, next ≠ .split other
  home : Home state user target index
  created : state.birth target = .created
  own : state.join target = .none ∨ (state.join target).joiner = some thread
  lets : ∀ other, (state.phase thread).freeing = some other → other = target
  frees : ∀ joiner, join = .leaving joiner → joiner = thread ∧ next.freeing = some target

/-- The join that is taken further has not returned and is not the one of another thread. -/
theorem Pursues.other_join {thread target index : Nat} {next : Phase} {join : Join}
    (pursues : Pursues state user thread target index next join) {other : Nat}
    (is : state.join other = .returned ∨ ∃ joiner, joiner ≠ thread ∧ (state.join other).joiner = some joiner) :
    other ≠ target := by
  rintro rfl
  rcases pursues.own with none | own
  · rcases is with returned | ⟨joiner, _, isJoiner⟩
    · exact nomatch none.symm.trans returned
    · rw [none] at isJoiner
      exact nomatch isJoiner
  · rcases is with returned | ⟨joiner, different, isJoiner⟩
    · rw [returned] at own
      exact nomatch own
    · exact different (Option.some.inj (isJoiner.symm.trans own))

/-- A step of a join leaves everything else. -/
theorem Pursues.leaves {thread target index : Nat} {next : Phase} {join : Join} {block : Block} {after : State}
    (pursues : Pursues state user thread target index next join)
    (turns : Turns thread target index next join block state after)
    (yields : Yields thread index (Rests state target join) user userAfter)
    (resting : target ≠ thread → state.phase target = .exited → Fits after userAfter target .exited) :
    Leaves thread state after user userAfter := by
  have elsewhere (other : Nat) (different : other ≠ thread) : after.phase other = state.phase other := by
    rw [turns.phase, Function.update_of_ne different]
  have unstopped {other : Nat} (isStopped : (state.phase other).stopped = true) : other ≠ thread := by
    rintro rfl
    exact nomatch pursues.unstopped.symm.trans isStopped
  have sameJoin (other : Nat) (different : other ≠ target) : after.join other = state.join other := by
    rw [turns.join, Function.update_of_ne different]
  constructor
  · intro other different _
    exact elsewhere other different
  · intro other place _ live home
    apply yields.home turns.blockOf home
    rintro ⟨rfl, exited, _⟩
    exact live exited
  · intro other place different claimed
    exact yields.claimed_after different claimed
  · intro other child place _ launching home
    refine ⟨turns.birth ▸ launching, yields.home turns.blockOf home ?_⟩
    rintro ⟨rfl, _⟩
    exact nomatch pursues.created.symm.trans launching
  · intro other goal place different joiner home
    have notTarget : goal ≠ target := pursues.other_join (.inr ⟨other, different, joiner⟩)
    exact ⟨sameJoin goal notTarget, yields.home turns.blockOf home fun rests => notTarget rests.1⟩
  · intro other isStopped
    rw [elsewhere other (unstopped isStopped), turns.passed]
    exact ⟨isStopped, rfl⟩
  · intro other exited
    rw [elsewhere other (unstopped (by rw [exited]; rfl))]
    exact exited
  · intro other _
    rw [turns.passed]
  · intro other returned
    rw [sameJoin other (pursues.other_join (.inl returned))]
    exact returned
  · intro other different exited fit
    by_cases isTarget : other = target
    · subst isTarget
      exact resting different exited
    · rw [Fits, sameJoin other isTarget]
      rcases fit with returned | ⟨joiner, place, home⟩
      · exact .inl returned
      · exact .inr ⟨joiner, place, yields.home turns.blockOf home fun rests => isTarget rests.1⟩

/-- All blocks fit after a step of a join. -/
theorem Kept.turn_blocks {thread target index : Nat} {next : Phase} {join : Join} {block : Block} {after : State}
    (kept : Kept state user) (pursues : Pursues state user thread target index next join)
    (turns : Turns thread target index next join block state after)
    (yields : Yields thread index (Rests state target join) user userAfter)
    (fitBlock : BlockFits after index block (userAfter index)) (other : Nat) :
    BlockFits after other (after.blocks other) (userAfter other) := by
  revert other
  refine @Kept.blocks_after state user index after userAfter kept yields.elsewhere ?_ ?_ ?_ ?_ ?_ ?_
  · intro other different
    rw [turns.blocks, Function.update_of_ne different]
  · rw [turns.blocks, Function.update_self]
    exact fitBlock
  · intro other creator _ splits
    rw [turns.phase] at splits
    by_cases isThread : creator = thread
    · rw [isThread, Function.update_self] at splits
      exact absurd splits (pursues.splitting other)
    · rw [Function.update_of_ne isThread] at splits
      exact splits
  · intro other holder _ _
    rw [turns.phase]
    exact pursues.profile.enter holder
  · intro other holder different isHolder
    have notTarget : holder ≠ target := by
      rintro rfl
      exact different (Option.some.inj ((kept.owned other holder isHolder).symm.trans pursues.home.1))
    rw [turns.join, Function.update_of_ne notTarget, turns.birth]
    exact ⟨rfl, rfl⟩
  · intro other holder _ _ _
    rw [turns.passed]

/-- All threads are at places that fit after a step of a join. -/
theorem Kept.turn_fits {thread target index : Nat} {next : Phase} {join : Join} {block : Block} {after : State}
    (kept : Kept state user) (pursues : Pursues state user thread target index next join)
    (turns : Turns thread target index next join block state after)
    (leaves : Leaves thread state after user userAfter) (fit : Fits after userAfter thread next) (other : Nat) :
    Fits after userAfter other (after.phase other) := by
  apply kept.fits_after leaves
  · rw [turns.phase, Function.update_self]
    exact fit
  · intro other different isAbsent
    have fitBefore := kept.fits other
    rw [isAbsent] at fitBefore
    have notTarget : other ≠ target := by
      rintro rfl
      exact nomatch fitBefore.1.symm.trans pursues.home.1
    rw [turns.phase, Function.update_of_ne different, isAbsent, Fits, turns.blockOf, turns.birth, turns.join,
      Function.update_of_ne notTarget]
    exact fitBefore

/-- A step of a join keeps the invariant. -/
theorem Kept.turn {thread target index : Nat} {next : Phase} {join : Join} {block : Block} {after : State}
    (kept : Kept state user) (pursues : Pursues state user thread target index next join)
    (turns : Turns thread target index next join block state after)
    (yields : Yields thread index (Rests state target join) user userAfter)
    (resting : target ≠ thread → state.phase target = .exited → Fits after userAfter target .exited)
    (fit : Fits after userAfter thread next) (fitBlock : BlockFits after index block (userAfter index))
    (id : block.id = (state.blocks index).id)
    (unfinished : userAfter index = .thread target → ¬(state.phase target = .exited ∧ join = .returned)) :
    Kept after userAfter := by
  have leaves := pursues.leaves turns yields resting
  have elsewhere (other : Nat) (different : other ≠ thread) : after.phase other = state.phase other := by
    rw [turns.phase, Function.update_of_ne different]
  have here : after.phase thread = next := by
    rw [turns.phase, Function.update_self]
  have sameJoin (other : Nat) (different : other ≠ target) : after.join other = state.join other := by
    rw [turns.join, Function.update_of_ne different]
  have live : next ≠ .exited := by
    rintro rfl
    exact nomatch pursues.profile.stopped.trans pursues.unstopped
  constructor
  · exact kept.turn_fits pursues turns leaves fit
  · exact kept.turn_blocks pursues turns yields fitBlock
  · intro place holder reserved
    rw [turns.blockOf]
    exact kept.owned place holder (yields.thread_before reserved)
  · rintro place holder reserved ⟨exited, returned⟩
    have notThread : holder ≠ thread := by
      rintro rfl
      exact live (here.symm.trans exited)
    rw [elsewhere holder notThread] at exited
    by_cases isTarget : holder = target
    · subst isTarget
      have sameHome := (kept.owned place holder (yields.thread_before reserved)).symm.trans pursues.home.1
      rw [turns.join, Function.update_self] at returned
      exact unfinished (Option.some.inj sameHome ▸ reserved) ⟨exited, returned⟩
    · rw [sameJoin holder isTarget] at returned
      exact kept.unfinished place holder (yields.thread_before reserved) ⟨exited, returned⟩
  · apply kept.unlaunched_after elsewhere pursues.launched
    intro other creator launching
    exact turns.birth ▸ launching
  · apply kept.unborn_after elsewhere pursues.present
    intro other unborn
    exact turns.birth ▸ unborn
  · intro place other same notMain notErr
    rw [turns.blockOf]
    apply kept.ids place other _ notMain notErr
    rw [turns.blocks] at same
    by_cases isIndex : place = index
    · subst isIndex
      rw [Function.update_self] at same
      exact id.symm.trans same
    · rw [Function.update_of_ne isIndex] at same
      exact same
  · intro other joined
    rw [turns.birth]
    by_cases isTarget : other = target
    · rw [isTarget]
      exact pursues.created
    · rw [sameJoin other isTarget] at joined
      exact kept.births other joined
  · rw [turns.blockOf]
    exact kept.bounded
  · intro other joiner isLeaving
    by_cases isTarget : other = target
    · subst isTarget
      rw [turns.join, Function.update_self] at isLeaving
      obtain ⟨rfl, frees⟩ := pursues.frees joiner isLeaving
      rw [here]
      exact frees
    · rw [sameJoin other isTarget] at isLeaving
      have wasFreeing := kept.leaving other joiner isLeaving
      have notThread : joiner ≠ thread := by
        rintro rfl
        exact isTarget (pursues.lets other wasFreeing)
      rw [elsewhere joiner notThread]
      exact wasFreeing
  · intro other result is
    rcases turns.outcome other result is with before | ⟨rfl, returned, stopped, res, passed, same⟩
    · obtain ⟨returned, stopped, rest⟩ := kept.outcomes other result before
      rw [turns.passed]
      exact ⟨leaves.returned other returned, (leaves.stopped other stopped).1, rest⟩
    · rw [turns.join, Function.update_self, turns.passed]
      exact ⟨returned, (leaves.stopped other stopped).1, res, passed, same⟩
  · exact kept.valid_after elsewhere pursues.present

end Asym.ThreadBlocks
