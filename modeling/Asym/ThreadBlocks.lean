import Asym.EventRuns
import Mathlib.Algebra.Group.Int.Defs
import Mathlib.Algebra.Group.Nat.Defs
import Mathlib.Logic.Function.Basic

/-!
# Thread blocks

A model of `threads.c` and `internal/thrd.c`. Each thread has a block with a reference
count, a flag, its id and its result. `thrd_create` reserves a block by compare and swap,
`thrd_exit` stores the result and drops the references of the thread, and `thrd_join`
takes a reference by the index of the block and waits for the flag.

A step of a thread is one atomic operation, with the plain reads and stores next to it.
The result is stored and read in steps of its own. A `split` that fails goes through
`SYSTEM_CALL_ERROR_CHECK`: `_ErrnoFunc` looks for the block of the calling thread and takes a
reference that nobody drops, and the error is stored as eight bytes at `err`, the last four
bytes of a block, so that its upper half, zero, goes to the lower half of the next count.
The other calls of the kernel do not fail, and bodies make none that do. The first thread
has the id 0 and does not call `thrd_exit`.

Besides the blocks and the places of the threads, the state has what happened: which
block was reserved for a thread, how far its creation and its join are, what it passed to
`thrd_exit`, and what its join returned.
-/

namespace Asym.ThreadBlocks

/-- `_MAX_THRD`. -/
def maxThrd : Nat := 32

/-- `ERR` as the id of a thread that could not be split off. -/
def errId : Nat := 2 ^ 64 - 1

/-- `thrd_block_t`. Its index is where it is, and `err`, which nobody reads, is left out. -/
structure Block where
  ref : Int
  running : Bool
  id : Nat
  result : Nat
  deriving DecidableEq, Repr

/-- What a thread does after `_ThrdBlockFree`: drop the base reference in `thrd_exit`,
end, return from `thrd_create` with an error, or return from `thrd_join`. -/
inductive After where
  | base
  | exit
  | failed
  | joined (target : Nat) (value : Int)
  deriving DecidableEq, Repr

/-- Where a thread is: before which of its atomic operations, with the index of the block
it works on. -/
inductive Phase where
  | absent
  /-- The loop of `_ThrdEntry`. -/
  | entry (index : Nat)
  | body
  /-- The loop of `_ThrdBlockReserve`. -/
  | reserve (index : Nat)
  | clear (index : Nat)
  | split (index : Nat)
  | launch (index child : Nat)
  /-- The loop of `_ThrdBlockById` in `_ErrnoFunc`, after a `split` that failed. -/
  | errnoFind (index place : Nat)
  | errnoTake (index place : Nat)
  /-- The store of the error. -/
  | errnoStore (index place : Nat)
  | refused (index : Nat)
  /-- The loop of `_ThrdBlockById` in `thrd_exit`. -/
  | find (index : Nat) (res : Int)
  | take (index : Nat) (res : Int)
  | store (index : Nat) (res : Int)
  | stop (index : Nat)
  /-- The first `_ThrdBlockUnref` of `thrd_exit`. -/
  | drop (index : Nat)
  /-- The second `_ThrdBlockUnref` of `thrd_exit`. -/
  | dropBase (index : Nat)
  | exited
  /-- The load of `_ThrdBlockByIndex` in `thrd_join`. -/
  | look (target index : Nat)
  | hold (target index : Nat)
  /-- The loop of `thrd_join`. -/
  | wait (target index : Nat)
  | read (target index : Nat)
  | release (target index : Nat) (value : Int)
  /-- The first store of `_ThrdBlockFree`. -/
  | free (index : Nat) (after : After)
  /-- The second store of `_ThrdBlockFree`. -/
  | freed (index : Nat) (after : After)
  deriving DecidableEq, Repr

/-- How far the creation of a thread is. -/
inductive Birth where
  | unborn
  | launching (creator : Nat)
  | created
  deriving DecidableEq, Repr

/-- How far the join of a thread is: begun by a thread that has no reference yet, holding
one, or freeing the block. -/
inductive Join where
  | none
  | seeking (joiner : Nat)
  | holding (joiner : Nat)
  | leaving (joiner : Nat)
  | returned
  deriving DecidableEq, Repr

/-- The blocks, the places of the threads, and what happened. An outcome of a join is
`thrd_error` or `thrd_success` with a value. -/
structure State where
  blocks : Nat → Block
  phase : Nat → Phase
  blockOf : Nat → Option Nat
  birth : Nat → Birth
  join : Nat → Join
  passed : Nat → Option Int
  outcome : Nat → Option (Option Int)

/-- A thread goes on. -/
def State.enter (state : State) (thread : Nat) (phase : Phase) : State :=
  { state with phase := Function.update state.phase thread phase }

/-- A block is changed. -/
def State.edit (state : State) (index : Nat) (change : Block → Block) : State :=
  { state with blocks := Function.update state.blocks index (change (state.blocks index)) }

/-- The join of a thread goes on. -/
def State.setJoin (state : State) (target : Nat) (join : Join) : State :=
  { state with join := Function.update state.join target join }

/-- The join of a thread returns. -/
def State.report (state : State) (target : Nat) (outcome : Option Int) : State :=
  { state.setJoin target .returned with
    outcome := Function.update state.outcome target (some outcome) }

/-- `atomic_fetch_add` on the count. -/
def Block.addRef (block : Block) : Block := { block with ref := block.ref + 1 }

/-- `atomic_fetch_sub` on the count. -/
def Block.subRef (block : Block) : Block := { block with ref := block.ref - 1 }

/-- The lower half of the count is cleared, by a store behind the block before. -/
def Block.overrun (block : Block) : Block := { block with ref := block.ref - block.ref % 2 ^ 32 }

/-- The stores of `_ThrdBlockReserve`. -/
def Block.clear (block : Block) : Block := { block with running := false, id := 0, result := 0 }

/-- The next atomic operation of a thread, if it is in a call and does not wait. -/
def tick (state : State) (thread : Nat) : Option State :=
  match state.phase thread with
  | .entry index => if (state.blocks index).running then some (state.enter thread .body) else none
  | .reserve index =>
      if index < maxThrd then
        if (state.blocks index).ref = 0 then
          some ((state.edit index fun block => { block with ref := 1 }).enter thread (.clear index))
        else some (state.enter thread (.reserve (index + 1)))
      else some (state.enter thread .body)
  | .clear index => some ((state.edit index Block.clear).enter thread (.split index))
  | .launch index child =>
      some ({ state.edit index fun block => { block with id := child, running := true } with
        birth := Function.update state.birth child .created }.enter thread .body)
  | .errnoFind index place =>
      -- Without a block the error is stored through a null pointer.
      if place < maxThrd then
        if (state.blocks place).id = thread ∧ (state.blocks place).ref ≠ 0 then
          some (state.enter thread (.errnoTake index place))
        else some (state.enter thread (.errnoFind index (place + 1)))
      else none
  | .errnoTake index place => some ((state.edit place Block.addRef).enter thread (.errnoStore index place))
  | .errnoStore index place => some ((state.edit (place + 1) Block.overrun).enter thread (.refused index))
  | .refused index =>
      some ((state.edit index fun block => { block with id := errId }).enter thread (.free index .failed))
  | .find index res =>
      if index < maxThrd then
        if (state.blocks index).id = thread ∧ (state.blocks index).ref ≠ 0 then
          some (state.enter thread (.take index res))
        else some (state.enter thread (.find (index + 1) res))
      else none
  | .take index res => some ((state.edit index Block.addRef).enter thread (.store index res))
  | .store index res =>
      some ((state.edit index fun block => { block with result := (res % 256).toNat }).enter thread (.stop index))
  | .stop index => some ((state.edit index fun block => { block with running := false }).enter thread (.drop index))
  | .drop index =>
      some ((state.edit index Block.subRef).enter thread
        (if (state.blocks index).ref ≤ 1 then .free index .base else .dropBase index))
  | .dropBase index =>
      some ((state.edit index Block.subRef).enter thread
        (if (state.blocks index).ref ≤ 1 then .free index .exit else .exited))
  | .look target index =>
      if maxThrd ≤ index ∨ (state.blocks index).ref = 0 then some ((state.report target none).enter thread .body)
      else some (state.enter thread (.hold target index))
  | .hold target index =>
      some (((state.edit index Block.addRef).setJoin target (.holding thread)).enter thread (.wait target index))
  | .wait target index =>
      if (state.blocks index).running then none else some (state.enter thread (.read target index))
  | .read target index => some (state.enter thread (.release target index (state.blocks index).result))
  | .release target index value =>
      if (state.blocks index).ref ≤ 1 then
        some (((state.edit index Block.subRef).setJoin target (.leaving thread)).enter thread
          (.free index (.joined target value)))
      else some (((state.edit index Block.subRef).report target (some value)).enter thread .body)
  | .free index after =>
      some ((state.edit index fun block => { block with running := false }).enter thread (.freed index after))
  | .freed index after =>
      let unused := state.edit index fun block => { block with ref := 0 }
      match after with
      | .base => some (unused.enter thread (.dropBase index))
      | .exit => some (unused.enter thread .exited)
      | .failed => some (unused.enter thread .body)
      | .joined target value => some ((unused.report target (some value)).enter thread .body)
  | _ => none

/-- Calls of the functions, the result of `split` in `thrd_create`, and steps inside of
calls. Each thread is joined at most once. -/
inductive Event where
  | create (thread : Nat)
  | split (thread : Nat) (child : Option Nat)
  | exit (thread : Nat) (res : Int)
  | join (thread target : Nat)
  | tick (thread : Nat)

/-- What an event does, if it can happen. -/
def step (state : State) : Event → Option State
  | .create thread => if state.phase thread = .body then some (state.enter thread (.reserve 0)) else none
  | .split thread child =>
      match state.phase thread, child with
      | .split index, none => some (state.enter thread (.errnoFind index 0))
      | .split index, some child =>
          if state.phase child = .absent ∧ child ≠ errId then
            some (({ state with
              blockOf := Function.update state.blockOf child (some index)
              birth := Function.update state.birth child (.launching thread) }.enter child (.entry index)).enter
                thread (.launch index child))
          else none
      | _, _ => none
  | .exit thread res =>
      if state.phase thread = .body ∧ thread ≠ 0 then
        some ({ state with passed := Function.update state.passed thread (some res) }.enter thread (.find 0 res))
      else none
  | .join thread target =>
      match state.blockOf target with
      | none => none
      | some index =>
          if state.phase thread = .body ∧ state.birth target = .created ∧ state.join target = .none then
            some ((state.setJoin target (.seeking thread)).enter thread (.look target index))
          else none
  | .tick thread => tick state thread

/-- The place of the thread that goes on. -/
@[simp] theorem State.enter_self (state : State) (thread : Nat) (phase : Phase) :
    (state.enter thread phase).phase thread = phase :=
  Function.update_self ..

/-- The places of the other threads. -/
theorem State.enter_of_ne (state : State) {thread other : Nat} (phase : Phase) (different : other ≠ thread) :
    (state.enter thread phase).phase other = state.phase other :=
  Function.update_of_ne different ..

/-- The block that is changed. -/
@[simp] theorem State.edit_self (state : State) (index : Nat) (change : Block → Block) :
    (state.edit index change).blocks index = change (state.blocks index) :=
  Function.update_self ..

/-- The other blocks. -/
theorem State.edit_of_ne (state : State) {index other : Nat} (change : Block → Block)
    (different : other ≠ index) : (state.edit index change).blocks other = state.blocks other :=
  Function.update_of_ne different ..

/-- After `_ThrdInit`. -/
def initial : State where
  blocks index := if index = 0 then ⟨1, true, 0, 0⟩ else ⟨0, false, 0, 0⟩
  phase thread := if thread = 0 then .body else .absent
  blockOf thread := if thread = 0 then some 0 else none
  birth _ := .unborn
  join _ := .none
  passed _ := none
  outcome _ := none

end Asym.ThreadBlocks
