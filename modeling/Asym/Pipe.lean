import Asym.CyclicWindows
import Asym.MachineWords
import Asym.Scheduler

/-!
# Pipes

A model of `ring_t` and of the pipe calls that share one ring. A call runs
outside the lock, in one section under the lock, or blocked in the scheduler;
each section of `pipe_read`, `pipe_write` and the two cleanups is one step, and
any number of threads take steps in any order. The history lists what was
returned in the order of the sections.

`SCHED_BLOCK_LOCK` tests its condition under the lock and blocks without a
timeout when it fails. A blocked thread is waked by `sched_unblock`, here at any
time, or by the scheduler when its deadline has passed. The files of a pipe keep
its memory: no section runs after both ends were cleaned up.
-/

namespace Asym.Pipe

open CyclicWindows MachineWords Scheduler

/-- `RING_SIZE`. -/
def ringSize : Nat := 100

/-- `ring_t`. -/
structure Ring where
  buffer : Nat → UInt8
  readIndex : Nat
  writeIndex : Nat
  dataLength : Nat

/-- `ring_init`, on a page with arbitrary bytes. -/
def ringInit (page : Nat → UInt8) : Ring := ⟨page, 0, 0, 0⟩

/-- `ring_data_length`. -/
def ringDataLength (ring : Ring) : Nat := ring.dataLength

/-- `ring_free_length`. -/
def ringFreeLength (ring : Ring) : Nat := sub ringSize ring.dataLength

/-- `ring_write`. No result stands for `ERR`. -/
def ringWrite (ring : Ring) (buffer : List UInt8) : Option Ring :=
  if buffer.length > ringFreeLength ring then none
  else
    let upperHalfSize := sub ringSize ring.writeIndex
    let filled :=
      if buffer.length < upperHalfSize then place ring.buffer ring.writeIndex buffer
      else place (place ring.buffer ring.writeIndex (buffer.take upperHalfSize)) 0
        (buffer.drop upperHalfSize)
    some { ring with
      buffer := filled
      writeIndex := add ring.writeIndex buffer.length % ringSize
      dataLength := add ring.dataLength buffer.length }

/-- `ring_read`: the bytes copied out and the ring. No result stands for `ERR`. -/
def ringRead (ring : Ring) (count : Nat) : Option (List UInt8 × Ring) :=
  if count > ringDataLength ring then none
  else
    let upperHalfSize := sub ringSize ring.readIndex
    let bytes :=
      if count < upperHalfSize then slice ring.buffer ring.readIndex count
      else slice ring.buffer ring.readIndex upperHalfSize ++
        slice ring.buffer 0 (sub count upperHalfSize)
    some (bytes, { ring with
      readIndex := add ring.readIndex count % ringSize
      dataLength := sub ring.dataLength count })

/-- `pipe_private_t`, and whether it was freed. -/
structure Private where
  ring : Ring
  readClosed : Bool
  writeClosed : Bool
  freed : Bool

/-- A call of `pipe_read` or `pipe_write` with its arguments. -/
inductive Request where
  | read (count : Nat)
  | write (buffer : List UInt8)

/-- The argument `count`. -/
def Request.count : Request → Nat
  | read count => count
  | write buffer => buffer.length

/-- The errors set by the pipe calls. -/
inductive Errno where
  | einval
  | epipe
  deriving DecidableEq, Repr

/-- What the history records: a call that returned, a failed assertion, or the
cleanup of an end. -/
inductive Event where
  | readDone (count : Nat) (bytes : List UInt8)
  | writeDone (buffer : List UInt8)
  | refused (request : Request) (error : Errno)
  | timedOut (request : Request)
  | assertFailed (request : Request)
  | readClosed
  | writeClosed

/-- Where a thread is: in no call, about to take the lock with the result of the
last block, or blocked with a deadline. -/
inductive Phase where
  | idle
  | locking (request : Request) (result : BlockResult)
  | blocked (request : Request) (deadline : Nat)

/-- The condition that a call waits for. -/
def condition (pipe : Private) : Request → Bool
  | .read count => decide (ringDataLength pipe.ring ≥ count) || pipe.writeClosed
  | .write buffer => decide (ringFreeLength pipe.ring ≥ buffer.length) || pipe.readClosed

/-- The rest of `pipe_read` under the lock. -/
def finishRead (pipe : Private) (count : Nat) : Event × Private :=
  let amount := if pipe.writeClosed then min count (ringDataLength pipe.ring) else count
  match ringRead pipe.ring amount with
  | none => (.assertFailed (.read count), pipe)
  | some (bytes, ring) => (.readDone count bytes, { pipe with ring := ring })

/-- The rest of `pipe_write` under the lock. -/
def finishWrite (pipe : Private) (buffer : List UInt8) : Event × Private :=
  if pipe.readClosed then (.refused (.write buffer) .epipe, pipe)
  else match ringWrite pipe.ring buffer with
    | none => (.assertFailed (.write buffer), pipe)
    | some ring => (.writeDone buffer, { pipe with ring := ring })

/-- The rest of a call under the lock. -/
def finish (pipe : Private) : Request → Event × Private
  | .read count => finishRead pipe count
  | .write buffer => finishWrite pipe buffer

/-- A pipe with the threads that use it. -/
structure State (Thread : Type) where
  pipe : Private
  phase : Thread → Phase
  history : List Event

variable {Thread : Type} [DecidableEq Thread]

/-- The start of a call, before the lock is taken. -/
def call (state : State Thread) (thread : Thread) (request : Request) : State Thread :=
  if request.count ≥ ringSize then
    { state with history := state.history ++ [.refused request .einval] }
  else { state with phase := Function.update state.phase thread (.locking request .norm) }

/-- One section of a call under the lock: the test of `SCHED_BLOCK_LOCK`, and the
rest of the call unless the test fails. -/
def lockSection (state : State Thread) (thread : Thread) (request : Request)
    (result : BlockResult) : State Thread :=
  if result ≠ .norm then
    { state with
      phase := Function.update state.phase thread .idle
      history := state.history ++ [.timedOut request] }
  else if condition state.pipe request then
    { pipe := (finish state.pipe request).2
      phase := Function.update state.phase thread .idle
      history := state.history ++ [(finish state.pipe request).1] }
  else { state with phase := Function.update state.phase thread (.blocked request never) }

/-- `pipe_read_cleanup`. -/
def pipeReadCleanup (pipe : Private) : Private :=
  { pipe with readClosed := true, freed := pipe.writeClosed }

/-- `pipe_write_cleanup`. -/
def pipeWriteCleanup (pipe : Private) : Private :=
  { pipe with writeClosed := true, freed := pipe.readClosed }

/-- One step of one thread. -/
inductive Step : State Thread → State Thread → Prop where
  | call (state : State Thread) (thread : Thread) (request : Request)
      (alive : state.pipe.freed = false) (ready : state.phase thread = .idle) :
      Step state (call state thread request)
  | locked (state : State Thread) (thread : Thread) (request : Request) (result : BlockResult)
      (alive : state.pipe.freed = false) (ready : state.phase thread = .locking request result) :
      Step state (lockSection state thread request result)
  | unblock (state : State Thread) (thread : Thread) (request : Request) (deadline : Nat)
      (waits : state.phase thread = .blocked request deadline) :
      Step state
        { state with phase := Function.update state.phase thread (.locking request .norm) }
  | expire (state : State Thread) (thread : Thread) (request : Request) (deadline uptime : Nat)
      (waits : state.phase thread = .blocked request deadline) (clock : uptime < wordSize)
      (late : deadline < uptime) :
      Step state
        { state with phase := Function.update state.phase thread (.locking request .timeout) }
  | readCleanup (state : State Thread) (alive : state.pipe.freed = false) :
      Step state
        { state with
          pipe := pipeReadCleanup state.pipe
          history := state.history ++ [.readClosed] }
  | writeCleanup (state : State Thread) (alive : state.pipe.freed = false) :
      Step state
        { state with
          pipe := pipeWriteCleanup state.pipe
          history := state.history ++ [.writeClosed] }

/-- `pipe_init`: a pipe that no thread uses yet. -/
def Initial (state : State Thread) : Prop :=
  ∃ page, state = ⟨⟨ringInit page, false, false, false⟩, fun _ => .idle, []⟩

end Asym.Pipe
