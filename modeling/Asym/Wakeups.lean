import Asym.Runs
import Asym.ThreadPlaces

/-!
# Blocking and waking

The protocol between threads that wait in `SCHED_BLOCK_LOCK` and threads that make
the condition true under the same lock and then call `sched_unblock`. The atomic
actions are those of the source: the test of the condition under the lock, the
writes of `sched_block`, the scheduler's `blocker_push`, the change of the
condition, the release of the lock and the loop of `sched_unblock`. Any number of
threads wait and wake, in any order.

A waiter releases the lock before it is in the list of the blocker. An unblock
that runs in between finds the list without it, and nothing tests the condition
for it again. This is the only way in which a wakeup is lost: a run in which no
last unblock finds a waiter in that window loses none.
-/

namespace Asym.Wakeups

open Scheduler Runs

/-- Where a thread is. A waiter goes from `testing` to `failed`, `blocking` and
`parked`, and after a wakeup to `testing` again; or it leaves the macro with the
lock, as `passed`. A waker is `raised` while it holds the lock and `pending` until
its `sched_unblock` is done. -/
inductive Phase where
  | outside
  | testing
  | failed
  | blocking
  | parked
  | passed
  | raised
  | pending
  deriving DecidableEq, Repr

/-- The member `block` of a thread: its deadline, and whether its blocker is set. -/
structure Block where
  deadline : Nat
  blocker : Bool
  deriving DecidableEq, Repr

/-- The condition, the holder of the lock, the list of the blocker, and the
threads. -/
structure State where
  condition : Bool
  lock : Option Nat
  threads : List Nat
  block : Nat → Block
  phase : Nat → Phase

/-- The atomic actions. -/
inductive Action where
  | enter (thread : Nat)
  | test (thread : Nat)
  | leave (thread : Nat) (remains : Bool)
  | block (thread : Nat)
  | push (thread : Nat)
  | raise (thread : Nat)
  | release (thread : Nat)
  | unblock (thread : Nat)
  deriving DecidableEq, Repr

/-- A thread goes on to a phase. -/
def State.goto (state : State) (thread : Nat) (phase : Phase) : State :=
  { state with phase := Function.update state.phase thread phase }

/-- `lock_acquire`, the test of the condition, and `lock_release` when it fails. -/
def testCondition (state : State) (thread : Nat) : State :=
  if state.condition then { state.goto thread .passed with lock := some thread }
  else state.goto thread .failed

/-- The writes of `sched_block` without a timeout. -/
def schedBlock (state : State) (thread : Nat) : State :=
  { state.goto thread .blocking with
    block := Function.update state.block thread ⟨never, true⟩ }

/-- `blocker_push`. -/
def blockerPush (state : State) (thread : Nat) : State :=
  { state.goto thread .parked with
    threads := blockerInsert (fun other => (state.block other).deadline) thread state.threads }

/-- The loop of `sched_unblock`: every thread of the list is taken out, and its
call of `sched_block` returns. -/
def schedUnblock (state : State) (thread : Nat) : State :=
  { state with
    threads := []
    block := fun other => if other ∈ state.threads then ⟨0, false⟩ else state.block other
    phase := fun other =>
      if other ∈ state.threads then .testing
      else if other = thread then .outside
      else state.phase other }

/-- An action in a state, if the thread is there and the lock allows it. A waiter
that passed may use up what the condition stands for before it releases the
lock. -/
def perform (state : State) : Action → Option State
  | .enter thread =>
      if state.phase thread = .outside then some (state.goto thread .testing) else none
  | .test thread =>
      if state.phase thread = .testing ∧ state.lock = none then some (testCondition state thread)
      else none
  | .leave thread remains =>
      if state.phase thread = .passed ∧ state.lock = some thread then
        some { state.goto thread .outside with
          condition := state.condition && remains, lock := none }
      else none
  | .block thread =>
      if state.phase thread = .failed then some (schedBlock state thread) else none
  | .push thread =>
      if state.phase thread = .blocking ∧ (state.block thread).blocker = true then
        some (blockerPush state thread)
      else none
  | .raise thread =>
      if state.phase thread = .outside ∧ state.lock = none then
        some { state.goto thread .raised with condition := true, lock := some thread }
      else none
  | .release thread =>
      if state.phase thread = .raised ∧ state.lock = some thread then
        some { state.goto thread .pending with lock := none }
      else none
  | .unblock thread =>
      if state.phase thread = .pending then some (schedUnblock state thread) else none

/-- One action of a run. -/
def Step (before after : State) : Prop := ∃ action, perform before action = some after

/-- No thread waits or wakes yet. -/
def Initial (state : State) : Prop :=
  state.lock = none ∧ state.threads = [] ∧ ∀ thread, state.phase thread = .outside

/-- A waker is between making the condition true and the end of its unblock. -/
def Waking (state : State) (thread : Nat) : Prop :=
  state.phase thread = .raised ∨ state.phase thread = .pending

/-- A waiter is between its failed test and its place in the list. -/
def InWindow (state : State) (thread : Nat) : Prop :=
  state.phase thread = .failed ∨ state.phase thread = .blocking

/-- A thread sits in the list without a deadline, or will enter it. -/
def Asleep (state : State) (thread : Nat) : Prop :=
  (thread ∈ state.threads ∧ (state.block thread).deadline = never) ∨ InWindow state thread

/-- While no waker is under way and the condition is true, no thread sleeps. -/
def NoLostWakeup (state : State) : Prop :=
  (∀ thread, ¬ Waking state thread) → state.condition = true → ∀ thread, ¬ Asleep state thread

/-- The condition under which an unblock loses no wakeup: the condition is false
again, another waker is still under way, or no waiter is in the window. -/
def Safe (state : State) : Action → Prop
  | .unblock thread => state.condition = false ∨ (∃ other, other ≠ thread ∧ Waking state other) ∨
      ∀ other, ¬ InWindow state other
  | _ => True

/-- One action of a run that loses no wakeup. -/
def SafeStep (before after : State) : Prop :=
  ∃ action, Safe before action ∧ perform before action = some after

/-- Every thread in the list is parked. -/
def Listed (state : State) : Prop := ∀ thread ∈ state.threads, state.phase thread = .parked

/-- Threads in the list after a push. -/
theorem mem_blockerInsert (deadline : Nat → Nat) (thread tested : Nat) (list : List Nat) :
    tested ∈ blockerInsert deadline thread list ↔ tested = thread ∨ tested ∈ list := by
  rw [(ThreadPlaces.blockerInsert_perm deadline thread list).mem_iff, List.mem_cons]

/-- The phase of a thread after one went on. -/
theorem goto_phase (state : State) (thread tested : Nat) (phase : Phase) :
    (state.goto thread phase).phase tested =
      if tested = thread then phase else state.phase tested :=
  Function.update_apply _ _ _ _

/-- Wakers stay under way when a thread that is none of them goes on. -/
theorem waking_goto {state : State} {thread tested : Nat} (phase : Phase)
    (idle : ¬ Waking state thread) (waking : Waking state tested) :
    Waking (state.goto thread phase) tested := by
  have different : tested ≠ thread := by
    rintro rfl
    exact idle waking
  simp only [Waking, goto_phase, if_neg different]
  exact waking

/-- The window after a thread goes on to a phase outside it. -/
theorem inWindow_goto {state : State} {thread tested : Nat} {phase : Phase}
    (clear : phase ≠ .failed ∧ phase ≠ .blocking)
    (window : InWindow (state.goto thread phase) tested) : InWindow state tested := by
  simp only [InWindow, goto_phase] at window
  split_ifs at window
  · exact absurd window (not_or.mpr clear)
  · exact window

/-- No wakeup is lost by an action that starts no sleep, ends no waker and does
not make the condition true. -/
theorem noLostWakeup_mono {before after : State} (holds : NoLostWakeup before)
    (wakers : ∀ thread, Waking before thread → Waking after thread)
    (conditions : after.condition = true → before.condition = true)
    (sleepers : ∀ thread, Asleep after thread → Asleep before thread) : NoLostWakeup after := by
  intro noWaker isTrue thread asleep
  refine holds (fun other waking => ?_) (conditions isTrue) thread (sleepers thread asleep)
  exact noWaker other (wakers other waking)

/-- A thread whose phase is known is no waker. -/
theorem not_waking (state : State) (thread : Nat) (phase : Phase) (here : state.phase thread = phase)
    (other : phase ≠ .raised ∧ phase ≠ .pending) : ¬ Waking state thread := by
  rw [Waking, here]
  exact not_or.mpr other

/-- An action of a waiter loses no wakeup. -/
theorem goto_noLostWakeup (state : State) (thread : Nat) (phase : Phase) (holds : NoLostWakeup state)
    (idle : ¬ Waking state thread) (clear : phase ≠ .failed ∧ phase ≠ .blocking) :
    NoLostWakeup (state.goto thread phase) := by
  refine noLostWakeup_mono holds (fun other => waking_goto phase idle) id fun other asleep => ?_
  rcases asleep with listed | window
  · exact .inl listed
  · exact .inr (inWindow_goto clear window)

/-- The test of a waiter loses no wakeup: a waiter only enters the window while
the condition is false. -/
theorem testCondition_noLostWakeup (state : State) (thread : Nat) (holds : NoLostWakeup state)
    (ready : state.phase thread = .testing) : NoLostWakeup (testCondition state thread) := by
  rw [testCondition]
  split_ifs with isTrue
  · exact goto_noLostWakeup state thread .passed holds
      (not_waking state thread .testing ready (by decide)) (by decide)
  · intro _ condition
    exact absurd condition isTrue

/-- The writes of `sched_block` lose no wakeup: the waiter was in the window. -/
theorem schedBlock_noLostWakeup (state : State) (thread : Nat) (holds : NoLostWakeup state)
    (ready : state.phase thread = .failed) : NoLostWakeup (schedBlock state thread) := by
  refine noLostWakeup_mono holds (fun other waking => ?_) id fun other asleep => ?_
  · exact waking_goto .blocking (not_waking state thread .failed ready (by decide)) waking
  · by_cases same : other = thread
    · subst same
      exact .inr (.inl ready)
    · rcases asleep with ⟨listed, deadline⟩ | window
      · simp only [schedBlock, Function.update_of_ne same] at deadline
        exact .inl ⟨listed, deadline⟩
      · simp only [InWindow, schedBlock, goto_phase, if_neg same] at window
        exact .inr window

/-- `blocker_push` loses no wakeup: the waiter was in the window. -/
theorem blockerPush_noLostWakeup (state : State) (thread : Nat) (holds : NoLostWakeup state)
    (ready : state.phase thread = .blocking) : NoLostWakeup (blockerPush state thread) := by
  refine noLostWakeup_mono holds (fun other waking => ?_) id fun other asleep => ?_
  · exact waking_goto .parked (not_waking state thread .blocking ready (by decide)) waking
  · rcases asleep with ⟨listed, deadline⟩ | window
    · rcases (mem_blockerInsert _ _ _ _).mp listed with rfl | older
      · exact .inr (.inr ready)
      · exact .inl ⟨older, deadline⟩
    · exact .inr (inWindow_goto (by decide) window)

/-- A waker under way keeps the promise open. -/
theorem noLostWakeup_of_waking (state : State) (thread : Nat) (waking : Waking state thread) :
    NoLostWakeup state := by
  intro noWaker
  exact absurd waking (noWaker thread)

/-- Who sleeps after an unblock. -/
theorem asleep_schedUnblock {state : State} {thread tested : Nat}
    (asleep : Asleep (schedUnblock state thread) tested) : InWindow state tested := by
  rcases asleep with ⟨listed, -⟩ | window
  · simp [schedUnblock] at listed
  · simp only [InWindow, schedUnblock] at window
    split_ifs at window <;> simp_all [InWindow]

/-- Who is a waker after an unblock. -/
theorem waking_schedUnblock {state : State} {thread tested : Nat} (listed : Listed state)
    (different : tested ≠ thread) (waking : Waking state tested) :
    Waking (schedUnblock state thread) tested := by
  have absent : tested ∉ state.threads := by
    intro member
    have parked := listed tested member
    simp [Waking, parked] at waking
  simp only [Waking, schedUnblock, if_neg absent, if_neg different]
  exact waking

/-- An unblock loses no wakeup exactly when it is safe. -/
theorem schedUnblock_noLostWakeup_iff (state : State) (thread : Nat) (listed : Listed state)
    (ready : state.phase thread = .pending) :
    NoLostWakeup (schedUnblock state thread) ↔ Safe state (.unblock thread) := by
  constructor
  · intro holds
    by_contra unsafely
    simp only [Safe, not_or, Bool.not_eq_false, not_exists, not_and, not_forall, not_not]
      at unsafely
    obtain ⟨isTrue, alone, other, window⟩ := unsafely
    have absent : other ∉ state.threads := by
      intro member
      have parked := listed other member
      simp [InWindow, parked] at window
    have noWaker : ∀ tested, ¬ Waking (schedUnblock state thread) tested := by
      intro tested waking
      simp only [Waking, schedUnblock] at waking
      split_ifs at waking with inside same
      · simp at waking
      · simp at waking
      · exact alone tested same waking
    refine holds noWaker isTrue other (.inr ?_)
    have different : other ≠ thread := by
      rintro rfl
      simp [InWindow, ready] at window
    simp only [InWindow, schedUnblock, if_neg absent, if_neg different]
    exact window
  · rintro (isFalse | ⟨other, different, waking⟩ | clear)
    · intro _ isTrue
      exact absurd (isTrue.symm.trans isFalse) (by decide)
    · exact noLostWakeup_of_waking _ other
        (waking_schedUnblock listed different waking)
    · intro _ _ tested asleep
      exact clear tested (asleep_schedUnblock asleep)

/-- Going on of a thread that is not parked keeps the list parked. -/
theorem listed_goto (state : State) (thread : Nat) (phase : Phase) (listed : Listed state)
    (moving : state.phase thread ≠ .parked) : Listed (state.goto thread phase) := by
  intro tested member
  have parked := listed tested member
  have different : tested ≠ thread := by
    rintro rfl
    exact moving parked
  rw [goto_phase, if_neg different]
  exact parked

/-- The guard and the result of an action that is performed. -/
theorem of_guard {guard : Prop} [Decidable guard] {result after : State}
    (performed : (if guard then some result else none) = some after) : guard ∧ result = after := by
  obtain ⟨holds, same⟩ := Option.ite_none_right_eq_some.mp performed
  exact ⟨holds, Option.some.inj same⟩

/-- Every action keeps the list parked. -/
theorem perform_listed {state after : State} {action : Action} (listed : Listed state)
    (performed : perform state action = some after) : Listed after := by
  have moving : ∀ thread phase, state.phase thread = phase → phase ≠ .parked →
      ∀ next, Listed (state.goto thread next) := by
    intro thread phase here other next
    exact listed_goto state thread next listed (by rwa [here])
  cases action with
  | enter thread =>
    obtain ⟨ready, rfl⟩ := of_guard performed
    exact moving thread _ ready (by decide) _
  | test thread =>
    obtain ⟨⟨ready, -⟩, rfl⟩ := of_guard performed
    rw [testCondition]
    split_ifs
    · exact moving thread _ ready (by decide) _
    · exact moving thread _ ready (by decide) _
  | leave thread remains =>
    obtain ⟨⟨ready, -⟩, rfl⟩ := of_guard performed
    exact moving thread _ ready (by decide) .outside
  | block thread =>
    obtain ⟨ready, rfl⟩ := of_guard performed
    exact moving thread _ ready (by decide) .blocking
  | push thread =>
    obtain ⟨⟨ready, -⟩, rfl⟩ := of_guard performed
    intro tested member
    rcases (mem_blockerInsert _ _ _ _).mp member with rfl | older
    · simp only [blockerPush, goto_phase, if_true]
    · exact moving thread _ ready (by decide) .parked tested older
  | raise thread =>
    obtain ⟨⟨ready, -⟩, rfl⟩ := of_guard performed
    exact moving thread _ ready (by decide) .raised
  | release thread =>
    obtain ⟨⟨ready, -⟩, rfl⟩ := of_guard performed
    exact moving thread _ ready (by decide) .pending
  | unblock thread =>
    obtain ⟨-, rfl⟩ := of_guard performed
    intro tested member
    simp [schedUnblock] at member

/-- After an action, no wakeup is lost exactly when the action was safe. -/
theorem perform_noLostWakeup_iff {state after : State} {action : Action} (listed : Listed state)
    (holds : NoLostWakeup state) (performed : perform state action = some after) :
    NoLostWakeup after ↔ Safe state action := by
  cases action with
  | enter thread =>
    obtain ⟨ready, rfl⟩ := of_guard performed
    exact iff_of_true (goto_noLostWakeup state thread .testing holds
      (not_waking state thread .outside ready (by decide)) (by decide)) trivial
  | test thread =>
    obtain ⟨⟨ready, -⟩, rfl⟩ := of_guard performed
    exact iff_of_true (testCondition_noLostWakeup state thread holds ready) trivial
  | leave thread remains =>
    obtain ⟨⟨ready, -⟩, rfl⟩ := of_guard performed
    have moved := goto_noLostWakeup state thread .outside holds
      (not_waking state thread .passed ready (by decide)) (by decide)
    refine iff_of_true (fun noWaker isTrue => moved noWaker ?_) trivial
    exact (Bool.and_eq_true_iff.mp isTrue).1
  | block thread =>
    obtain ⟨ready, rfl⟩ := of_guard performed
    exact iff_of_true (schedBlock_noLostWakeup state thread holds ready) trivial
  | push thread =>
    obtain ⟨⟨ready, -⟩, rfl⟩ := of_guard performed
    exact iff_of_true (blockerPush_noLostWakeup state thread holds ready) trivial
  | raise thread =>
    obtain ⟨-, rfl⟩ := of_guard performed
    refine iff_of_true (noLostWakeup_of_waking _ thread (.inl ?_)) trivial
    simp only [goto_phase, if_true]
  | release thread =>
    obtain ⟨-, rfl⟩ := of_guard performed
    refine iff_of_true (noLostWakeup_of_waking _ thread (.inr ?_)) trivial
    simp only [goto_phase, if_true]
  | unblock thread =>
    obtain ⟨ready, rfl⟩ := of_guard performed
    exact schedUnblock_noLostWakeup_iff state thread listed ready

/-- The invariant of runs of safe actions. -/
structure Kept (state : State) : Prop where
  listed : Listed state
  holds : NoLostWakeup state

/-- The invariant holds after every run of safe actions. -/
theorem reachable_kept (state : State) (reached : Reachable Initial SafeStep state) : Kept state := by
  refine reachable_invariant ?_ ?_ reached
  · rintro start ⟨-, empty, outside⟩
    refine ⟨by simp [Listed, empty], fun _ _ thread asleep => ?_⟩
    simp [Asleep, InWindow, empty, outside] at asleep
  · rintro before after ⟨listed, holds⟩ ⟨action, safe, performed⟩
    exact ⟨perform_listed listed performed,
      (perform_noLostWakeup_iff listed holds performed).mpr safe⟩

/-- A run of safe actions loses no wakeup in any of its states, and the action
that follows loses none exactly when it is safe.

Proof: where no wakeup is lost, one action loses one exactly if it is not safe. -/
theorem safe_runs_lose_no_wakeup (state : State) (reached : Reachable Initial SafeStep state) :
    NoLostWakeup state ∧ ∀ action after, perform state action = some after →
      (NoLostWakeup after ↔ Safe state action) := by
  obtain ⟨listed, holds⟩ := reachable_kept state reached
  exact ⟨holds, fun action after performed =>
    perform_noLostWakeup_iff listed holds performed⟩

/-- No thread waits or wakes, and the condition is false. -/
def quietState : State := ⟨false, none, [], fun _ => ⟨0, false⟩, fun _ => .outside⟩

/-- A waiter that is in the list before the condition becomes true is waked. -/
theorem safe_runs_lose_no_wakeup_sample :
    ∃ state, Reachable Initial SafeStep state ∧ state.condition = true ∧
      state.phase 0 = .testing ∧ NoLostWakeup state := by
  have parked := (((Relation.ReflTransGen.single (show SafeStep quietState _ from
    ⟨.enter 0, trivial, rfl⟩)).tail (show SafeStep _ _ from ⟨.test 0, trivial, rfl⟩)).tail
    (show SafeStep _ _ from ⟨.block 0, trivial, rfl⟩)).tail
    (show SafeStep _ _ from ⟨.push 0, trivial, rfl⟩)
  have pending := (parked.tail (show SafeStep _ _ from ⟨.raise 1, trivial, rfl⟩)).tail
    (show SafeStep _ _ from ⟨.release 1, trivial, rfl⟩)
  have waked := pending.tail (show SafeStep _ _ from ⟨.unblock 1, .inr (.inr (by
    intro other window
    by_cases first : other = 0
    · subst first
      exact absurd window (by unfold InWindow; decide)
    · by_cases second : other = 1
      · subst second
        exact absurd window (by unfold InWindow; decide)
      · simp [InWindow, State.goto, schedBlock, blockerPush, testCondition, first, second,
          quietState] at window)), rfl⟩)
  have reached : Reachable Initial SafeStep _ := ⟨quietState, ⟨rfl, rfl, fun _ => rfl⟩, waked⟩
  exact ⟨_, reached, rfl, rfl, (safe_runs_lose_no_wakeup _ reached).1⟩

/-- An unblock between the failed test of a waiter and its place in the list does
not see the waiter. -/
theorem sleeper_reached :
    ∃ state, Reachable Initial Step state ∧ state.condition = true ∧
      (∀ thread, ¬ Waking state thread) ∧ 0 ∈ state.threads ∧
      (state.block 0).deadline = never := by
  have failed := (Relation.ReflTransGen.single (show Step quietState _ from
    ⟨.enter 0, rfl⟩)).tail (show Step _ _ from ⟨.test 0, rfl⟩)
  have unblocked := ((failed.tail (show Step _ _ from ⟨.raise 1, rfl⟩)).tail
    (show Step _ _ from ⟨.release 1, rfl⟩)).tail (show Step _ _ from ⟨.unblock 1, rfl⟩)
  have asleep := (unblocked.tail (show Step _ _ from ⟨.block 0, rfl⟩)).tail
    (show Step _ _ from ⟨.push 0, rfl⟩)
  have reached : Reachable Initial Step _ := ⟨quietState, ⟨rfl, rfl, fun _ => rfl⟩, asleep⟩
  refine ⟨_, reached, rfl, fun thread => ?_, by decide, rfl⟩
  by_cases first : thread = 0
  · subst first
    unfold Waking
    decide
  · by_cases second : thread = 1
    · subst second
      unfold Waking
      decide
    · simp [Waking, State.goto, schedBlock, blockerPush, schedUnblock, testCondition, first, second,
        quietState]

/-- A wakeup is lost in a run with one waiter and one waker: the waiter sits in the
list although the condition is true and no waker is left. -/
theorem wakeup_lost :
    ∃ state, Reachable Initial Step state ∧ 0 ∈ state.threads ∧ ¬ NoLostWakeup state := by
  obtain ⟨state, reached, isTrue, noWaker, listed, deadline⟩ := sleeper_reached
  exact ⟨state, reached, listed, fun holds =>
    holds noWaker isTrue 0 (.inl ⟨listed, deadline⟩)⟩

end Asym.Wakeups
