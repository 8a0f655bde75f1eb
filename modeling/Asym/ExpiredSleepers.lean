import Asym.ThreadCustody

/-!
# The release of expired sleepers

`sched_update_blockers` walks through the blockers and releases a thread whose deadline has
passed. It looks at the first thread of each list only, and at none after it, so of several
threads of one blocker whose deadlines have passed one is released by a call.

One lemma says what a look at a blocker does; the walk puts the looks at different blockers
together.
-/

namespace Asym.ExpiredSleepers

open Scheduler Custody ThreadPlaces ThreadCustody

variable {cpus : Nat} {Blocker : Type}

/-- The deadline of a thread has passed. -/
def expired (registry : Registry Blocker) (uptime : Nat) (thread : Nat) : Bool :=
  (registry.threads thread).deadline < uptime

/-- What is left of a list whose first thread is released if it is late. -/
def leftOf (late : Nat → Bool) : List Nat → List Nat
  | [] => []
  | thread :: rest => if late thread then rest else thread :: rest

/-- A thread is in one run queue, and there once. -/
def QueuedOnce (sched : Sched cpus Blocker) (thread : Nat) : Prop :=
  ∃ cpu level, ((sched.contexts cpu).queues level).count thread = 1 ∧
    ∀ other lower, thread ∈ (sched.contexts other).queues lower → other = cpu ∧ lower = level

/-- A thread was released because its deadline had passed. -/
structure TimedOut (sched : Sched cpus Blocker) (thread : Nat) : Prop where
  queued : QueuedOnce sched thread
  result : (sched.registry.threads thread).result = .timeout
  blocker : (sched.registry.threads thread).blocker = none

/-- All expired sleepers of the blockers were released, and all other threads wait as
before. -/
structure AllReleased (before after : Sched cpus Blocker) (uptime : Nat) : Prop where
  noneLeft : ∀ blocker ∈ before.blockers, ∀ thread ∈ after.blocked blocker,
    ¬ (after.registry.threads thread).deadline < uptime
  released : ∀ blocker ∈ before.blockers, ∀ thread ∈ before.blocked blocker,
    (before.registry.threads thread).deadline < uptime → TimedOut after thread
  others : ∀ blocker, (after.blocked blocker).filter (fun thread => !expired before.registry uptime thread) =
    (before.blocked blocker).filter fun thread => !expired before.registry uptime thread

/-- A late thread is left in a list if and only if it is not the first one. -/
theorem leftOf_clean (late : Nat → Bool) (threads : List Nat) :
    (∀ thread ∈ leftOf late threads, late thread = false) ↔ ∀ thread ∈ threads.tail, late thread = false := by
  cases threads with
  | nil => rfl
  | cons first rest =>
    rw [leftOf, List.tail_cons]
    split
    · rfl
    · next early =>
      rw [List.forall_mem_cons]
      exact and_iff_right (Bool.eq_false_iff.mpr early)

/-- No other thread leaves the list. -/
theorem leftOf_others (late : Nat → Bool) (threads : List Nat) :
    (leftOf late threads).filter (fun thread => !late thread) = threads.filter fun thread => !late thread := by
  cases threads with
  | nil => rfl
  | cons first rest =>
    rw [leftOf]
    split
    · next isLate => rw [List.filter_cons_of_neg (by simp [isLate])]
    · rfl

variable [DecidableEq Blocker]

/-- What looking at some blockers does. -/
structure Looked (uptime : Nat) (blockers : List Blocker) (before after : Sched cpus Blocker) : Prop where
  lists : ∀ blocker, after.blocked blocker =
    if blocker ∈ blockers then leftOf (expired before.registry uptime) (before.blocked blocker)
    else before.blocked blocker
  deadlines : ∀ thread, (after.registry.threads thread).deadline = (before.registry.threads thread).deadline
  exclusive : Exclusive (contents after)
  queues : ∀ cpu level, (before.contexts cpu).queues level ⊆ (after.contexts cpu).queues level
  results : ∀ thread, (before.registry.threads thread).result = .timeout →
    (after.registry.threads thread).result = .timeout
  freed : ∀ thread, (before.registry.threads thread).blocker = none →
    (after.registry.threads thread).blocker = none
  released : ∀ blocker ∈ blockers, ∀ thread ∈ (before.blocked blocker).head?,
    expired before.registry uptime thread = true →
      (∃ cpu level, thread ∈ (after.contexts cpu).queues level) ∧
        (after.registry.threads thread).result = .timeout ∧ (after.registry.threads thread).blocker = none

/-- The deadlines that have passed are those of before. -/
theorem Looked.expired {uptime : Nat} {blockers : List Blocker} {before after : Sched cpus Blocker}
    (looked : Looked uptime blockers before after) :
    ExpiredSleepers.expired after.registry uptime = ExpiredSleepers.expired before.registry uptime := by
  funext thread
  rw [ExpiredSleepers.expired, ExpiredSleepers.expired, looked.deadlines]

/-- Looking at no blocker does nothing. -/
theorem Looked.nothing (uptime : Nat) {sched : Sched cpus Blocker} (exclusive : Exclusive (contents sched)) :
    Looked uptime [] sched sched where
  lists blocker := by simp
  deadlines thread := rfl
  exclusive := exclusive
  queues cpu level := List.Subset.refl _
  results thread := id
  freed thread := id
  released blocker member := absurd member List.not_mem_nil

/-- Looking at one blocker and then at others. -/
theorem Looked.cons {uptime : Nat} {blocker : Blocker} {rest : List Blocker}
    {before middle after : Sched cpus Blocker} (distinct : blocker ∉ rest)
    (first : Looked uptime [blocker] before middle) (later : Looked uptime rest middle after) :
    Looked uptime (blocker :: rest) before after where
  lists := by
    intro tested
    rw [later.lists, first.lists, first.expired]
    by_cases same : tested = blocker
    · subst same
      rw [if_neg distinct, if_pos List.mem_cons_self, if_pos List.mem_cons_self]
    · have notFirst : tested ∉ [blocker] := by simpa using same
      have after : tested ∈ blocker :: rest ↔ tested ∈ rest := List.mem_cons.trans (or_iff_right same)
      rw [if_neg notFirst]
      simp only [after]
  deadlines thread := (later.deadlines thread).trans (first.deadlines thread)
  exclusive := later.exclusive
  queues cpu level := List.Subset.trans (first.queues cpu level) (later.queues cpu level)
  results thread before := later.results thread (first.results thread before)
  freed thread before := later.freed thread (first.freed thread before)
  released := by
    intro tested member thread head late
    by_cases same : tested = blocker
    · subst same
      obtain ⟨⟨cpu, level, queued⟩, result, free⟩ := first.released tested List.mem_cons_self thread head late
      exact ⟨⟨cpu, level, later.queues cpu level queued⟩, later.results thread result, later.freed thread free⟩
    · have behind : tested ∈ rest := (List.mem_cons.mp member).resolve_left same
      have notFirst : tested ∉ [blocker] := by simpa using same
      have unchanged := first.lists tested
      rw [if_neg notFirst] at unchanged
      rw [← unchanged] at head
      rw [← first.expired] at late
      exact later.released tested behind thread head late

/-- `sched_push` puts a thread into one queue of a processor, behind the others. -/
theorem schedPush_queues (sched : Sched cpus Blocker) (thread : Nat) :
    (∃ cpu level, thread ∈ ((schedPush sched thread).contexts cpu).queues level) ∧
      ∀ cpu level, (sched.contexts cpu).queues level ⊆ ((schedPush sched thread).contexts cpu).queues level := by
  obtain ⟨picked, pushedLevel, pushed⟩ := contents_push sched thread
  have queue (cpu : Fin (cpus + 1)) (level : Priority) :
      ((schedPush sched thread).contexts cpu).queues level = contents (schedPush sched thread) (.queue cpu level) := rfl
  refine ⟨⟨picked, pushedLevel, ?_⟩, fun cpu level => ?_⟩
  · rw [queue, pushed, Function.update_self]
    exact List.mem_append_right _ List.mem_cons_self
  · rw [queue, pushed]
    by_cases here : (Place.queue cpu level : Place cpus Blocker) = .queue picked pushedLevel
    · rw [here, Function.update_self]
      cases here
      exact List.subset_append_left _ _
    · rw [Function.update_of_ne here]
      exact List.Subset.refl _

/-- A blocker whose first thread is not late is left alone. -/
theorem Looked.early (uptime : Nat) {sched : Sched cpus Blocker} {blocker : Blocker}
    (exclusive : Exclusive (contents sched))
    (same : leftOf (ExpiredSleepers.expired sched.registry uptime) (sched.blocked blocker) = sched.blocked blocker)
    (early : ∀ thread ∈ (sched.blocked blocker).head?, ExpiredSleepers.expired sched.registry uptime thread = false) :
    Looked uptime [blocker] sched sched := by
  refine { Looked.nothing uptime exclusive with lists := fun tested => ?_, released := ?_ }
  · split
    · next here => rw [List.mem_singleton.mp here, same]
    · rfl
  · intro tested member thread head late
    rw [List.mem_singleton.mp member] at head
    rw [early thread head] at late
    cases late

/-- A first thread that is late is taken from its blocker and put into a queue. -/
theorem Looked.late (uptime : Nat) {sched : Sched cpus Blocker} {blocker : Blocker} {thread : Nat} {rest : List Nat}
    (exclusive : Exclusive (contents sched)) (waiting : sched.blocked blocker = thread :: rest)
    (late : (sched.registry.threads thread).deadline < uptime) :
    Looked uptime [blocker] sched (schedPush (takeWaiting sched blocker thread rest timeOut) thread) := by
  obtain ⟨queued, kept⟩ := schedPush_queues (takeWaiting sched blocker thread rest timeOut) thread
  have itself : (schedPush (takeWaiting sched blocker thread rest timeOut) thread).registry.threads thread =
      timeOut (sched.registry.threads thread) := Function.update_self _ _ _
  have others (other : Nat) (different : other ≠ thread) :
      (schedPush (takeWaiting sched blocker thread rest timeOut) thread).registry.threads other =
        sched.registry.threads other := Function.update_of_ne different _ _
  refine ⟨fun tested => ?_, fun other => ?_, ?_, kept, fun other before => ?_, fun other before => ?_, ?_⟩
  · by_cases same : tested = blocker
    · subst same
      simp [waiting, leftOf, ExpiredSleepers.expired, late, schedPush, takeWaiting]
    · simp [same, schedPush, takeWaiting]
  · by_cases same : other = thread
    · rw [same, itself]
      rfl
    · rw [others other same]
  · obtain ⟨cpu, level, pushed⟩ := contents_push (takeWaiting sched blocker thread rest timeOut) thread
    have taken : contents (takeWaiting sched blocker thread rest timeOut) = _ := contents_blocked sched blocker rest _
    have moved := move_exclusive (contents sched) (.blocker blocker) (.queue cpu level) thread rest
      (contents (takeWaiting sched blocker thread rest timeOut) (.queue cpu level) ++ [thread]) exclusive (by simp)
      (by simp [contents, waiting]) (List.perm_append_singleton _ _)
    rw [pushed, taken]
    exact moved.1
  · by_cases same : other = thread
    · rw [same, itself]
      rfl
    · rw [others other same]
      exact before
  · by_cases same : other = thread
    · rw [same, itself]
      rfl
    · rw [others other same]
      exact before
  · intro tested member first head _
    rw [List.mem_singleton.mp member, waiting] at head
    have same : thread = first := Option.some.inj head
    subst same
    exact ⟨queued, by rw [itself]; rfl, by rw [itself]; rfl⟩

/-- One look at a blocker. -/
theorem updateBlocker_looked (uptime : Nat) {sched : Sched cpus Blocker} (blocker : Blocker)
    (exclusive : Exclusive (contents sched)) : Looked uptime [blocker] sched (updateBlocker uptime sched blocker) := by
  rw [updateBlocker]
  split
  · next empty => exact .early uptime exclusive (by rw [empty]; rfl) (by simp [empty])
  · next thread rest waiting =>
    split
    · next late => exact .late uptime exclusive waiting late
    · next early =>
      refine .early uptime exclusive ?_ ?_
      · simp [waiting, leftOf, expired, early]
      · simpa [waiting, expired] using early

/-- Looks at different blockers. -/
theorem updateBlockers_looked (uptime : Nat) {sched : Sched cpus Blocker} (distinct : sched.blockers.Nodup)
    (exclusive : Exclusive (contents sched)) :
    Looked uptime sched.blockers sched (updateBlockers sched uptime) := by
  rw [updateBlockers]
  generalize sched.blockers = blockers at distinct
  induction blockers generalizing sched with
  | nil => exact Looked.nothing uptime exclusive
  | cons blocker rest ih =>
    obtain ⟨absent, distinctRest⟩ := List.nodup_cons.mp distinct
    have first := updateBlocker_looked uptime blocker exclusive
    exact first.cons absent (ih first.exclusive distinctRest)

omit [DecidableEq Blocker] in
/-- A thread in a queue is in one queue, and there once. -/
theorem queuedOnce_of_mem {sched : Sched cpus Blocker} {thread : Nat} (exclusive : Exclusive (contents sched))
    (queued : ∃ cpu level, thread ∈ (sched.contexts cpu).queues level) : QueuedOnce sched thread := by
  obtain ⟨cpu, level, member⟩ := queued
  refine ⟨cpu, level, List.count_eq_one_of_mem (exclusive.once (.queue cpu level)) member, ?_⟩
  intro other lower there
  have same : (Place.queue other lower : Place cpus Blocker) = .queue cpu level :=
    exclusive.apart _ _ thread there member
  cases same
  exact ⟨rfl, rfl⟩

/-- `sched_update_blockers` releases all expired sleepers if and only if each of them is the
first one of its blocker. -/
theorem updateBlockers_releases_iff (sched : Sched cpus Blocker) (uptime : Nat)
    (distinct : sched.blockers.Nodup) (exclusive : Exclusive (contents sched)) :
    AllReleased sched (updateBlockers sched uptime) uptime ↔
      ∀ blocker ∈ sched.blockers, ∀ thread ∈ (sched.blocked blocker).tail,
        ¬ (sched.registry.threads thread).deadline < uptime := by
  have looked := updateBlockers_looked uptime distinct exclusive
  have list (blocker : Blocker) (member : blocker ∈ sched.blockers) :
      (updateBlockers sched uptime).blocked blocker =
        leftOf (expired sched.registry uptime) (sched.blocked blocker) := by
    rw [looked.lists, if_pos member]
  have early (thread : Nat) : expired sched.registry uptime thread = false ↔
      ¬ (sched.registry.threads thread).deadline < uptime := decide_eq_false_iff_not
  constructor
  · intro all blocker member thread behind
    rw [← early]
    refine (leftOf_clean _ _).mp (fun left stays => ?_) thread behind
    rw [early, ← looked.deadlines]
    exact all.noneLeft blocker member left (list blocker member ▸ stays)
  · intro first
    refine ⟨fun blocker member thread stays => ?_, fun blocker member thread waits late => ?_, fun blocker => ?_⟩
    · rw [list blocker member] at stays
      rw [looked.deadlines, ← early]
      exact (leftOf_clean _ _).mpr (fun other behind => (early other).mpr (first blocker member other behind))
        thread stays
    · have head : thread ∈ (sched.blocked blocker).head? := by
        cases waiting : sched.blocked blocker with
        | nil => simp [waiting] at waits
        | cons front rest =>
          rw [waiting] at waits
          rcases List.mem_cons.mp waits with rfl | behind
          · rfl
          · exact absurd late (first blocker member thread (by rwa [waiting]))
      obtain ⟨queued, result, free⟩ := looked.released blocker member thread head (decide_eq_true late)
      exact ⟨queuedOnce_of_mem looked.exclusive queued, result, free⟩
    · rw [looked.lists]
      split
      · exact leftOf_others _ _
      · rfl

/-- An idle processor, and two threads that sleep until 1 and 2. -/
def twoSleepers : Sched 0 Unit where
  contexts := fun _ => { queues := fun _ => [], graveyard := [], runThread := none }
  blocked := fun _ => [0, 1]
  blockers := [()]
  registry := {
    threads := fun thread => { (newThread 0 0 : Thread Unit) with deadline := thread + 1, blocker := some () }
    processes := fun _ => { killed := false, ref := 2 }
    createdThreads := [1, 0]
    createdProcesses := [0]
    freedThreads := []
    freedProcesses := [] }
  detached := []
  pushed := [1, 0]

/-- The two threads are in one place each. -/
theorem twoSleepers_exclusive : Exclusive (contents twoSleepers) := by
  have waits (place : Place 0 Unit) (thread : Nat) (here : thread ∈ contents twoSleepers place) :
      place = .blocker () := by
    cases place <;> simp_all [contents, twoSleepers]
  refine ⟨fun place => ?_, fun first second thread here there => ?_⟩
  · cases place <;> simp [contents, twoSleepers]
  · rw [waits first thread here, waits second thread there]

/-- At uptime 2 the first one is released, and the second one has time left. -/
theorem twoSleepers_first : AllReleased twoSleepers (updateBlockers twoSleepers 2) 2 := by
  refine (updateBlockers_releases_iff twoSleepers 2 (by decide) twoSleepers_exclusive).mpr ?_
  intro blocker _ thread behind
  have second : thread = 1 := List.mem_singleton.mp behind
  subst second
  decide

/-- At uptime 3 both are late, and the second one still waits afterwards. -/
theorem twoSleepers_second : ¬ AllReleased twoSleepers (updateBlockers twoSleepers 3) 3 := by
  intro all
  exact all.noneLeft () (by decide) 1 (by decide) (by decide)

end Asym.ExpiredSleepers
