import Asym.PipeStream
import Asym.Polling

/-!
# Polling of pipes

The status operations of a pipe write the test of the blocking condition for one byte as an
intersection of bits: the event that the end can report, and the truth value of the test, which
is 0 or 1. `POLL_READ` is the bit of 1, so the status of the read end is right. `POLL_WRITE` is
another bit, so the status of the write end is always 0.

A poll of pipe ends counts those whose status shares a bit with the event asked for.
-/

namespace Asym.PipePolling

open MachineWords Scheduler Pipe PipeStream Polling Runs

/-- `pipe_read_status`: what it writes into `occurred`. -/
def pipeReadStatus (pipe : Private) : Nat :=
  pollRead &&& (decide (ringDataLength pipe.ring ≠ 0) || pipe.writeClosed).toNat

/-- `pipe_write_status`. -/
def pipeWriteStatus (pipe : Private) : Nat :=
  pollWrite &&& (decide (ringFreeLength pipe.ring ≠ 0) || pipe.readClosed).toNat

/-- The two files of a pipe. -/
inductive End where
  | read
  | write
  deriving DecidableEq, Repr

/-- The event that an end of a pipe is polled for. -/
def End.event : End → Nat
  | .read => pollRead
  | .write => pollWrite

/-- The status operations in `readOps` and `writeOps`. -/
def pipeStatus : StatusOf End Private
  | .read => some fun pipe => some (pipeReadStatus pipe)
  | .write => some fun pipe => some (pipeWriteStatus pipe)

/-- A poll of an end for its event. -/
def End.polled (side : End) : PollFile End := ⟨side, side.event, 0⟩

/-- The call that moves one byte through an end. -/
def End.request (byte : UInt8) : End → Request
  | .read => .read 1
  | .write => .write [byte]

variable {Thread : Type} [DecidableEq Thread]

/-- A call by a thread blocks in its first section under the lock. -/
def Blocks (state : State Thread) (thread : Thread) (request : Request) : Prop :=
  (lockSection (call state thread request) thread request .norm).phase thread = .blocked request never

/-- A call that is not refused blocks if and only if the condition it waits for is false. -/
theorem blocks_iff (state : State Thread) (thread : Thread) (request : Request) (fits : request.count < ringSize) :
    Blocks state thread request ↔ condition state.pipe request = false := by
  have called : (call state thread request).pipe = state.pipe := by
    rw [call, if_neg (Nat.not_le.mpr fits)]
  rw [Blocks, lockSection, if_neg (by simp), called]
  cases holds : condition state.pipe request with
  | true => simp
  | false => simp

/-- A call for one byte is not refused. -/
theorem End.request_fits (byte : UInt8) (side : End) : (side.request byte).count < ringSize := by
  cases side with
  | read => exact show 1 < ringSize by decide
  | write => exact show 1 < ringSize by decide

/-- The status of the read end has the bit of its event if and only if the test for one byte
succeeds. -/
theorem pipeReadStatus_event (pipe : Private) :
    pipeReadStatus pipe &&& pollRead ≠ 0 ↔ condition pipe (.read 1) = true := by
  have same : (decide (ringDataLength pipe.ring ≠ 0) || pipe.writeClosed) = condition pipe (.read 1) := by
    rw [condition]
    congr 1
    exact decide_eq_decide.mpr Nat.one_le_iff_ne_zero.symm
  rw [pipeReadStatus, same]
  cases condition pipe (.read 1) <;> decide

/-- The status of the write end never has the bit of its event. -/
theorem pipeWriteStatus_event (pipe : Private) : pipeWriteStatus pipe &&& pollWrite = 0 := by
  rw [pipeWriteStatus]
  cases (decide (ringFreeLength pipe.ring ≠ 0) || pipe.readClosed) <;> decide

/-- The test for writing one byte fails if and only if the ring is full and the read end is
open. -/
theorem condition_write {pipe : Private} (sound : RingSound pipe.ring) (byte : UInt8) :
    condition pipe (.write [byte]) = false ↔ pipe.ring.dataLength = ringSize ∧ pipe.readClosed = false := by
  have free := ringFreeLength_eq sound
  have short := sound.short
  rw [condition, Bool.or_eq_false_iff, decide_eq_false_iff_not, free, List.length_singleton]
  refine and_congr_left' ?_
  omega

open Classical in
/-- Polls agree with the calls: an end reports its event if and only if a call for one byte
through it does not block; a turn of `vfs_poll` counts the ends of which this is true, and
`vfs_poll` returns their number if there are any. -/
structure PollAgrees (state : State Thread) (thread : Thread) (byte : UInt8) : Prop where
  read : pipeReadStatus state.pipe &&& pollRead ≠ 0 ↔ ¬ Blocks state thread (.read 1)
  write : pipeWriteStatus state.pipe &&& pollWrite ≠ 0 ↔ ¬ Blocks state thread (.write [byte])
  counted : ∀ ends : List End, (vfsPollCondition pipeStatus state.pipe (ends.map End.polled)).1 =
    some (ends.countP fun side => ¬ Blocks state thread (side.request byte))
  polled : ∀ (ends : List End) (timeout uptime : Nat) (turn : Turn Private) (later : List (Turn Private)),
    turn.world = state.pipe → (∃ side ∈ ends, ¬ Blocks state thread (side.request byte)) →
    (vfsPoll pipeStatus (ends.map End.polled) timeout uptime (turn :: later)).map Polled.value =
      some (some (ends.countP fun side => ¬ Blocks state thread (side.request byte)))

/-- A turn of `vfs_poll` counts the ends whose status has the bit of their event. -/
theorem condition_counts (pipe : Private) (ends : List End) :
    (vfsPollCondition pipeStatus pipe (ends.map End.polled)).1 = some (ends.countP fun side =>
      (occurredOf pipeStatus pipe side).any fun occurred => occurred &&& side.event ≠ 0) := by
  have works : ∀ file ∈ ends.map End.polled, (occurredOf pipeStatus pipe file.file).isSome := by
    intro file member
    obtain ⟨side, _, rfl⟩ := List.mem_map.mp member
    cases side <;> rfl
  rw [vfsPollCondition, countEvents_ready _ _ _ _ works, Nat.zero_add, readyAmount, List.countP_map]
  rfl

/-- Every pipe file can be polled, so a poll returns the number of its first turn unless it is
zero. -/
theorem poll_first {pipe : Private} {ends : List End} {amount : Nat}
    (counted : (vfsPollCondition pipeStatus pipe (ends.map End.polled)).1 = some amount) (positive : amount ≠ 0)
    (timeout uptime reading : Nat) (later : List (Turn Private)) :
    (vfsPoll pipeStatus (ends.map End.polled) timeout uptime (⟨pipe, reading⟩ :: later)).map Polled.value =
      some (some amount) := by
  have pollable : ((ends.map End.polled).any fun file => (pipeStatus file.file).isNone) = false := by
    rw [List.any_map, List.any_eq_false]
    intro side _
    cases side <;> simp [End.polled, pipeStatus]
  rcases found : vfsPollCondition pipeStatus pipe (ends.map End.polled) with ⟨events, tested⟩
  rw [found] at counted
  subst counted
  rw [vfsPoll, pollable, if_neg Bool.false_ne_true, pollTurns, found]
  simp [positive]

open Classical in
/-- In a pipe that is reached, polls agree with the calls if and only if the ring is full and
the read end is open. -/
theorem poll_agrees_iff (state : State Thread) (reached : Reachable Initial Step state) (thread : Thread)
    (byte : UInt8) : PollAgrees state thread byte ↔
      state.pipe.ring.dataLength = ringSize ∧ state.pipe.readClosed = false := by
  have sound := (reachable_sound_pipe state reached).ring
  have blocks (side : End) : Blocks state thread (side.request byte) ↔
      condition state.pipe (side.request byte) = false := blocks_iff state thread _ (side.request_fits byte)
  have reads : pipeReadStatus state.pipe &&& pollRead ≠ 0 ↔ ¬ Blocks state thread (.read 1) := by
    rw [show Request.read 1 = End.read.request byte from rfl, blocks, Bool.not_eq_false]
    exact pipeReadStatus_event state.pipe
  rw [← condition_write sound byte, show Request.write [byte] = End.write.request byte from rfl, ← blocks .write]
  constructor
  · intro agrees
    by_contra returns
    exact agrees.write.mpr returns (pipeWriteStatus_event state.pipe)
  · intro waits
    have writes : pipeWriteStatus state.pipe &&& pollWrite ≠ 0 ↔ ¬ Blocks state thread (.write [byte]) :=
      iff_of_false (not_not.mpr (pipeWriteStatus_event state.pipe)) (not_not.mpr waits)
    have counted (ends : List End) : (vfsPollCondition pipeStatus state.pipe (ends.map End.polled)).1 =
        some (ends.countP fun side => ¬ Blocks state thread (side.request byte)) := by
      rw [condition_counts]
      refine congrArg some (List.countP_congr fun side _ => ?_)
      rw [decide_eq_true_iff]
      cases side with
      | read => exact decide_eq_true_iff.trans reads
      | write => exact decide_eq_true_iff.trans writes
    refine ⟨reads, writes, counted, fun ends timeout uptime turn later world found => ?_⟩
    obtain ⟨pipe, reading⟩ := turn
    obtain rfl : pipe = state.pipe := world
    refine poll_first (counted ends) (Nat.ne_of_gt (List.countP_pos_iff.mpr ?_)) timeout uptime reading later
    simpa using found

/-- A fresh pipe. -/
def fresh : State Unit := ⟨⟨ringInit fun _ => 0, false, false, false⟩, fun _ => .idle, []⟩

/-- The pipe after a thread wrote fifty bytes. -/
def halfFull : State Unit :=
  lockSection (call fresh () (.write (List.replicate 50 0))) () (.write (List.replicate 50 0)) .norm

/-- The pipe after the thread wrote fifty bytes more. -/
def full : State Unit :=
  lockSection (call halfFull () (.write (List.replicate 50 0))) () (.write (List.replicate 50 0)) .norm

/-- In the full pipe, polls agree with the calls. -/
theorem full_agrees : PollAgrees full () 0 := by
  have reached : Reachable Initial Step full := by
    refine ⟨fresh, ⟨_, rfl⟩, ?_⟩
    refine ((Relation.ReflTransGen.single (Step.call fresh () (.write (List.replicate 50 0)) rfl rfl)).tail
      (Step.locked _ () (.write (List.replicate 50 0)) .norm rfl rfl)).tail
      (Step.call halfFull () (.write (List.replicate 50 0)) rfl rfl) |>.tail ?_
    exact Step.locked _ () (.write (List.replicate 50 0)) .norm rfl rfl
  exact (poll_agrees_iff full reached () 0).mpr ⟨by decide +kernel, by decide +kernel⟩

/-- A fresh pipe can be written, but its status does not say so. -/
theorem fresh_unwritable : ¬ PollAgrees fresh () 0 := by
  intro agrees
  have silent : pipeWriteStatus fresh.pipe &&& pollWrite = 0 := by decide
  refine agrees.write.mpr ?_ silent
  rw [blocks_iff fresh () (.write [0]) (by decide)]
  decide

end Asym.PipePolling
