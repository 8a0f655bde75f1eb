import Asym.EventRuns
import Asym.Pipe
import Mathlib.Logic.Function.Basic

/-!
# The threads that wait for a pipe

The operations of a pipe as atomic steps, with the threads in `private->blocker`. A call whose
condition fails puts its thread there; `sched_unblock` empties the blocker, and a thread that was
woken tests its condition again, which is a call like the first one.

`pipe_read` and `pipe_write` wake all waiting threads when they are done. The two cleanups wake
nobody, although closing the read end lets writers go on and closing the write end readers: a
thread that waits for such a change keeps waiting.
-/

namespace Asym.PipeWaiters

open Scheduler Pipe EventRuns

/-- A pipe and the threads in its blocker, each with its call. -/
structure State (Thread : Type) where
  pipe : Private
  waiting : List (Thread × Request)

/-- The atomic operations on a pipe. -/
inductive Operation (Thread : Type) where
  /-- `pipe_read` or `pipe_write`, or the test of its condition after the thread was woken. -/
  | call (thread : Thread) (request : Request)
  | readCleanup
  | writeCleanup

variable {Thread : Type}

/-- `pipe_read` and `pipe_write`. A call that asks for too much is refused before it takes the
lock. There is no next state if an assertion fails. -/
def performCall (state : State Thread) (thread : Thread) (request : Request) : Option (State Thread) :=
  if request.count ≥ ringSize then some state
  else if condition state.pipe request then
    match finish state.pipe request with
    | (.assertFailed _, _) => none
    | (_, pipe) => some ⟨pipe, []⟩
  else some { state with waiting := state.waiting ++ [(thread, request)] }

variable [DecidableEq Thread]

/-- What an operation does. A thread in the blocker makes no call, and nothing happens to a
pipe that was freed. -/
def perform (state : State Thread) : Operation Thread → Option (State Thread)
  | .call thread request =>
      if state.pipe.freed ∨ thread ∈ state.waiting.map Prod.fst then none else performCall state thread request
  | .readCleanup => if state.pipe.freed then none else some { state with pipe := pipeReadCleanup state.pipe }
  | .writeCleanup => if state.pipe.freed then none else some { state with pipe := pipeWriteCleanup state.pipe }

/-- No thread is left in the blocker whose own condition is true. -/
def NoneForgotten (state : State Thread) : Prop :=
  ∀ thread request, (thread, request) ∈ state.waiting → condition state.pipe request = false

/-- The cleanup of an end happens when no thread waits for the other one. -/
def Heeded (state : State Thread) : Operation Thread → Prop
  | .call _ _ => True
  | .readCleanup => ∀ thread buffer, (thread, Request.write buffer) ∉ state.waiting
  | .writeCleanup => ∀ thread count, (thread, Request.read count) ∉ state.waiting

/-- `pipe_init`. -/
def created (page : Nat → UInt8) : State Thread := ⟨⟨ringInit page, false, false, false⟩, []⟩

omit [DecidableEq Thread] in
/-- A call keeps the threads in the blocker right. -/
theorem performCall_none {state next : State Thread} {thread : Thread} {request : Request}
    (none : NoneForgotten state) (taken : performCall state thread request = some next) : NoneForgotten next := by
  rw [performCall] at taken
  split_ifs at taken with refused holds
  · cases taken
    exact none
  · split at taken
    · cases taken
    · cases taken
      exact fun _ _ waits => absurd waits List.not_mem_nil
  · cases taken
    intro other asked waits
    rw [List.mem_append, List.mem_singleton] at waits
    rcases waits with before | here
    · exact none other asked before
    · obtain ⟨rfl, rfl⟩ := Prod.mk.inj here
      exact Bool.eq_false_iff.mpr holds

/-- An operation forgets no thread if and only if it is no cleanup that a waiting thread would
have to know of. -/
theorem perform_decides {state next : State Thread} {operation : Operation Thread} (none : NoneForgotten state)
    (taken : perform state operation = some next) : NoneForgotten next ↔ Heeded state operation := by
  cases operation with
  | call thread request =>
    rw [perform] at taken
    split_ifs at taken
    exact iff_of_true (performCall_none none taken) trivial
  | readCleanup =>
    rw [perform] at taken
    split_ifs at taken
    cases taken
    constructor
    · intro kept thread buffer waits
      have fails := kept thread (.write buffer) waits
      simp [condition, pipeReadCleanup] at fails
    · intro heeded thread request waits
      cases request with
      | read count => exact none thread (.read count) waits
      | write buffer => exact absurd waits (heeded thread buffer)
  | writeCleanup =>
    rw [perform] at taken
    split_ifs at taken
    cases taken
    constructor
    · intro kept thread count waits
      have fails := kept thread (.read count) waits
      simp [condition, pipeWriteCleanup] at fails
    · intro heeded thread request waits
      cases request with
      | read count => exact absurd waits (heeded thread count)
      | write buffer => exact none thread (.write buffer) waits

/-- In a sequence of operations, no thread is ever left in the blocker with a true condition, if
and only if each cleanup happens when no thread waits for the other end. -/
theorem waiters_woken_iff (page : Nat → UInt8) (operations : List (Operation Thread)) :
    Always perform (created page) NoneForgotten operations ↔ Each perform (created page) Heeded operations := by
  refine always_iff_each (show (fun _ : State Thread => True) (created page) from trivial)
    (fun _ _ _ _ _ => trivial) ?_ ?_ operations
  · exact fun _ _ waits => absurd waits List.not_mem_nil
  · exact fun state operation next _ none taken => perform_decides none taken

/-- A thread reads from an empty pipe, and the write end is closed: it keeps waiting. -/
theorem reader_forgotten :
    ¬ Always perform (created fun _ => 0) NoneForgotten [Operation.call () (.read 1), .writeCleanup] := by
  intro always
  have kept := always [Operation.call () (.read 1), .writeCleanup] _ (List.prefix_refl _) rfl
  exact absurd (kept () (.read 1) List.mem_cons_self) (by decide)

end Asym.PipeWaiters
