import Asym.EventRuns
import Asym.IndexRings

/-!
# The message queue of a window

A model of `msg_queue.c`. The window manager and the client push messages, and the
client pops them; each of these holds the lock of the queue and is one step here. A
pop that has to wait does so without the lock and takes no step until there is a
message or its time is over.

Beside the queue the state keeps what was pushed and what was popped, what was pushed
since the last pop, and how many pushes found all but one of the slots occupied. The
queue has no length: such a push does not drop the oldest message, it makes the queue
look empty.
-/

namespace Asym.MessageQueue

open EventRuns IndexRings

/-- `MSG_QUEUE_MAX`. -/
def msgQueueMax : Nat := 8

/-- `MSG_MAX_DATA`. -/
def msgMaxData : Nat := 64

/-- `msg_t`. -/
structure Msg where
  time : Nat
  type : Nat
  data : List UInt8
  deriving DecidableEq, Repr

/-- The message that `msg_queue_push` leaves in a slot: it sets the type and the time,
and copies data over the front of what the slot held. -/
def Msg.fill (slot : Msg) (type time : Nat) (data : List UInt8) : Msg where
  time := time
  type := type
  data := data ++ slot.data.drop data.length

/-- `msg_queue_init`. -/
def msgQueueInit : IndexRing Msg where
  slots := fun _ => ⟨0, 0, List.replicate msgMaxData 0⟩
  readIndex := 0
  writeIndex := 0

/-- `msg_queue_avail`. -/
def msgQueueAvail (queue : IndexRing Msg) : Bool :=
  queue.readIndex != queue.writeIndex

/-- The message that a push is going to leave in the queue. -/
def msgAt (queue : IndexRing Msg) (type time : Nat) (data : List UInt8) : Msg :=
  (queue.slots queue.writeIndex).fill type time data

/-- `msg_queue_push`. -/
def msgQueuePush (queue : IndexRing Msg) (type time : Nat) (data : List UInt8) : IndexRing Msg :=
  queue.push msgQueueMax (msgAt queue type time data)

/-- `msg_queue_pop`, when it does not time out. Without a message it waits. -/
def msgQueuePop (queue : IndexRing Msg) : Option (Msg × IndexRing Msg) :=
  queue.pop msgQueueMax

/-- The queue, the messages pushed and popped, the messages pushed since the last pop,
and the number of pushes that found all but one of the slots occupied. -/
structure State where
  queue : IndexRing Msg
  pushed : List Msg
  popped : List Msg
  burst : List Msg
  crowded : Nat

/-- The messages in the queue. -/
def State.unread (state : State) : List Msg :=
  state.queue.contents msgQueueMax

/-- A push, a pop that takes a message, and a pop that times out and returns
`MSG_NONE`. -/
inductive Event where
  | push (type time : Nat) (data : List UInt8)
  | pop
  | timeout
  deriving DecidableEq, Repr

/-- What an event does, if it can happen. No caller copies more data than a message
has. -/
def step (state : State) : Event → Option State
  | .push type time data =>
      if data.length ≤ msgMaxData then
        some {
          queue := msgQueuePush state.queue type time data
          pushed := state.pushed ++ [msgAt state.queue type time data]
          popped := state.popped
          burst := state.burst ++ [msgAt state.queue type time data]
          crowded := state.crowded + if msgQueueMax - 1 ≤ state.unread.length then 1 else 0 }
      else none
  | .pop =>
      if msgQueueAvail state.queue then
        (msgQueuePop state.queue).map fun (msg, queue) =>
          { state with queue := queue, popped := state.popped ++ [msg], burst := [] }
      else none
  | .timeout => some state

/-- A new window's queue. -/
def initial : State where
  queue := msgQueueInit
  pushed := []
  popped := []
  burst := []
  crowded := 0

/-- The most recent messages of a burst, as many as fit the queue. -/
def recent (burst : List Msg) : List Msg :=
  burst.drop (burst.length - (msgQueueMax - 1))

/-- A bounded queue: popped messages and then the unread ones stand in the order of
the pushes; no more messages are lost than pushes found the queue full; the most
recent messages since the last pop are unread; and as many pops as there are unread
messages deliver them. -/
structure BoundedFifo (state : State) : Prop where
  order : (state.popped ++ state.unread).Sublist state.pushed
  lost : state.pushed.length ≤ state.popped.length + state.unread.length + state.crowded
  recent : recent state.burst <:+ state.unread
  delivers : ∃ after, run step state (List.replicate state.unread.length .pop) = some after ∧
    after.popped = state.popped ++ state.unread ∧ after.unread = []

/-- A push finds two free slots. -/
def Roomy (state : State) : Event → Prop
  | .push _ _ _ => state.unread.length < msgQueueMax - 1
  | _ => True

/-- The indices of the queue are below its bound. -/
def Sound (state : State) : Prop :=
  state.queue.Inside msgQueueMax

/-- There is a message exactly if the queue holds one. -/
theorem msgQueueAvail_iff {state : State} (sound : Sound state) :
    msgQueueAvail state.queue = true ↔ state.unread ≠ [] := by
  have empty := sound.pop_none
  rw [State.unread, ne_eq, ← empty, msgQueueAvail, bne_iff_ne, IndexRing.pop]
  constructor
  · intro differ
    rw [if_neg differ.symm]
    exact Option.some_ne_none _
  · intro found same
    exact found (if_pos same.symm)

/-- A pop takes the oldest message. -/
theorem pop_next {state : State} (sound : Sound state) {msg : Msg} {rest : List Msg}
    (waiting : state.unread = msg :: rest) :
    ∃ queue : IndexRing Msg, queue.Inside msgQueueMax ∧ queue.contents msgQueueMax = rest ∧
      step state .pop =
        some { state with queue := queue, popped := state.popped ++ [msg], burst := [] } := by
  have available : msgQueueAvail state.queue = true := by
    rw [msgQueueAvail_iff sound, waiting]
    exact List.cons_ne_nil msg rest
  obtain ⟨queue, popped, inside, contents⟩ := sound.pop_cons waiting
  have found : msgQueuePop state.queue = some (msg, queue) := popped
  apply Exists.intro queue
  apply And.intro inside
  apply And.intro contents
  simp only [step, available, found, if_true, Option.map_some]

/-- Without messages, no pop takes one. -/
theorem pop_empty {state : State} (sound : Sound state) (empty : state.unread = []) :
    step state .pop = none := by
  have unavailable : ¬ msgQueueAvail state.queue = true := by
    rw [msgQueueAvail_iff sound]
    exact not_not_intro empty
  simp only [step, unavailable, if_false, Bool.false_eq_true]

/-- Every step keeps the indices below the bound. -/
theorem step_sound (state : State) (event : Event) (next : State) (sound : Sound state)
    (taken : step state event = some next) : Sound next := by
  cases event with
  | push type time data =>
    simp only [step, Option.ite_none_right_eq_some, Option.some.injEq] at taken
    obtain ⟨_, rfl⟩ := taken
    exact IndexRing.Inside.push sound _
  | pop =>
    cases waiting : state.unread with
    | nil =>
      rw [pop_empty sound waiting] at taken
      cases taken
    | cons msg rest =>
      obtain ⟨queue, inside, _, found⟩ := pop_next sound waiting
      rw [found] at taken
      obtain rfl := Option.some.inj taken
      exact inside
  | timeout =>
    obtain rfl := Option.some.inj taken
    exact sound

/-- As many pops as there are unread messages deliver them in order. -/
theorem pops_deliver (state : State) (sound : Sound state) :
    ∃ after, run step state (List.replicate state.unread.length .pop) = some after ∧
      after.popped = state.popped ++ state.unread ∧ after.unread = [] := by
  generalize waiting : state.unread = messages
  induction messages generalizing state with
  | nil => exact ⟨state, rfl, (List.append_nil _).symm, waiting⟩
  | cons msg rest ih =>
    obtain ⟨queue, inside, contents, found⟩ := pop_next sound waiting
    obtain ⟨after, drained, popped, empty⟩ := ih
      { state with queue := queue, popped := state.popped ++ [msg], burst := [] } inside contents
    apply Exists.intro after
    constructor
    · rw [List.length_cons, List.replicate_succ, run, List.foldlM_cons, found]
      exact drained
    · rw [popped]
      exact ⟨List.append_assoc _ _ _, empty⟩

/-- A message more in a burst. -/
theorem recent_snoc (burst : List Msg) (msg : Msg) :
    ∃ kept, recent (burst ++ [msg]) = kept ++ [msg] ∧ kept <:+ recent burst := by
  have short : (burst ++ [msg]).length - (msgQueueMax - 1) ≤ burst.length := by
    rw [List.length_append, List.length_singleton, msgQueueMax]
    omega
  apply Exists.intro (burst.drop ((burst ++ [msg]).length - (msgQueueMax - 1)))
  constructor
  · rw [recent, List.drop_append_of_le_length short]
  · apply List.drop_suffix_drop_left
    rw [List.length_append]
    omega

/-- A push keeps the queue a bounded one exactly if it finds two free slots. If it does
not, the queue is empty after it, and so the message pushed is lost. -/
theorem push_boundedFifo_iff {state next : State} (sound : Sound state) (fifo : BoundedFifo state)
    (type time : Nat) (data : List UInt8) (taken : step state (.push type time data) = some next) :
    BoundedFifo next ↔ state.unread.length < msgQueueMax - 1 := by
  have soundNext := step_sound _ _ _ sound taken
  simp only [step, Option.ite_none_right_eq_some, Option.some.injEq] at taken
  obtain ⟨_, rfl⟩ := taken
  have short := sound.length_lt
  have size : state.unread.length = state.queue.length msgQueueMax := IndexRing.contents_length _ _
  generalize pushed : msgAt state.queue type time data = msg at soundNext ⊢
  obtain ⟨kept, newest, keptRecent⟩ := recent_snoc state.burst msg
  constructor
  · intro fifoNext
    rcases Nat.lt_or_ge state.unread.length (msgQueueMax - 1) with room | full
    · exact room
    · have emptied : (state.queue.push msgQueueMax msg).contents msgQueueMax = [] :=
        IndexRing.push_full msg (by omega)
      have nothing := fifoNext.recent
      simp only [State.unread, msgQueuePush, pushed, emptied, newest, List.suffix_nil] at nothing
      exact absurd nothing (List.append_ne_nil_of_right_ne_nil kept (List.cons_ne_nil msg []))
  · intro room
    have appended : (state.queue.push msgQueueMax msg).contents msgQueueMax = state.unread ++ [msg] :=
      sound.push_contents msg (by omega)
    constructor
    · simp only [State.unread, msgQueuePush, pushed, appended, ← List.append_assoc]
      exact fifo.order.append_right [msg]
    · have counted := fifo.lost
      simp only [State.unread, msgQueuePush, pushed, appended, List.length_append]
      simp only [State.unread] at counted
      omega
    · simp only [State.unread, msgQueuePush, pushed, appended, newest]
      obtain ⟨older, parts⟩ := keptRecent.trans fifo.recent
      exact ⟨older, by rw [← List.append_assoc, parts, State.unread]⟩
    · exact pops_deliver _ soundNext

/-- A step leaves a bounded queue exactly if it is not a push without two free slots. -/
theorem step_boundedFifo_iff (state : State) (event : Event) (next : State) (sound : Sound state)
    (fifo : BoundedFifo state) (taken : step state event = some next) :
    BoundedFifo next ↔ Roomy state event := by
  cases event with
  | push type time data => exact push_boundedFifo_iff sound fifo type time data taken
  | pop =>
    apply iff_of_true _ trivial
    have soundNext := step_sound _ _ _ sound taken
    cases waiting : state.unread with
    | nil =>
      rw [pop_empty sound waiting] at taken
      cases taken
    | cons msg rest =>
      obtain ⟨queue, inside, contents, found⟩ := pop_next sound waiting
      rw [found] at taken
      obtain rfl := Option.some.inj taken
      have order := fifo.order
      have counted := fifo.lost
      rw [waiting] at order counted
      constructor
      · simp only [State.unread, contents, List.append_assoc, List.singleton_append]
        exact order
      · simp only [State.unread, contents, List.length_append, List.length_singleton]
        rw [List.length_cons] at counted
        omega
      · exact List.nil_suffix
      · exact pops_deliver _ soundNext
  | timeout =>
    obtain rfl := Option.some.inj taken
    exact iff_of_true fifo trivial

/-- In every run, the queue is always a bounded queue if and only if every push finds
two free slots. -/
theorem message_queue_bounded_iff (events : List Event) :
    Always step initial BoundedFifo events ↔ Each step initial Roomy events := by
  have soundStart : Sound initial := ⟨by decide, by decide⟩
  apply always_iff_each soundStart step_sound _ step_boundedFifo_iff
  constructor
  · exact List.Sublist.refl []
  · exact Nat.le_refl 0
  · exact List.nil_suffix
  · exact pops_deliver initial soundStart

/-- Eight pushes and no pop. The queue looks empty, and the last seven messages are
gone with the first. -/
theorem eighth_message_empties : ¬ Always step initial BoundedFifo
    [.push 2 0 [], .push 2 1 [], .push 2 2 [], .push 2 3 [], .push 2 4 [], .push 2 5 [],
      .push 2 6 [], .push 2 7 []] := by
  intro always
  have newest := (always _ _ List.prefix_rfl rfl).recent
  revert newest
  decide

end Asym.MessageQueue
