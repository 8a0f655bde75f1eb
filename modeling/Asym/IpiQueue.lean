import Asym.EventRuns
import Asym.IndexRings

/-!
# Requests between processors

A model of the requests that processors send to one processor: `smp_send` and
`smp_send_self` push a request under the lock of the target's queue and then raise
the interrupt, and `ipi_handler` of the target receives and executes requests until
the queue is empty. A push and a receive are single steps, because the lock of the
queue is held around each of them. Everything else interleaves.

A request is the address of a function, and never `NULL`. The interrupt is one bit of
the target's interrupt controller: raising it again before it is delivered changes
nothing, and it is not delivered while the handler runs.

Beside these the state keeps the requests sent and executed in order. The queue has
no length: the push that would make it full makes it empty.
-/

namespace Asym.IpiQueue

open EventRuns IndexRings

/-- `IPI_QUEUE_MAX`. -/
def ipiQueueMax : Nat := 4

universe u v
variable {Sender : Type u} {Ipi : Type v} [DecidableEq Sender]

/-- `ipi_queue_push`. -/
def ipiQueuePush (queue : IndexRing Ipi) (ipi : Ipi) : IndexRing Ipi :=
  queue.push ipiQueueMax ipi

/-- `ipi_queue_pop`. -/
def ipiQueuePop (queue : IndexRing Ipi) : Option (Ipi × IndexRing Ipi) :=
  queue.pop ipiQueueMax

/-- The queue of the target, the senders that have pushed and not yet raised the
interrupt, whether the target itself is one of them, the interrupt's bit, whether the
handler runs, and the requests sent and executed. -/
structure State (Sender : Type u) (Ipi : Type v) where
  queue : IndexRing Ipi
  sending : Sender → Bool
  sendingSelf : Bool
  requested : Bool
  handling : Bool
  sent : List Ipi
  executed : List Ipi

/-- The steps of `smp_send`, of `smp_send_self`, of the interrupt controller and of
`ipi_handler`. -/
inductive Event (Sender : Type u) (Ipi : Type v) where
  | push (sender : Sender) (ipi : Ipi)
  | sendIpi (sender : Sender)
  | pushSelf (ipi : Ipi)
  | interruptSelf
  | deliver
  | receive
  deriving DecidableEq, Repr

/-- What an event does, if it can happen. A sender is in one call at a time. The
target sends to itself with interrupts disabled and outside the handler. A receive
from an empty queue ends the handler. -/
def step (state : State Sender Ipi) : Event Sender Ipi → Option (State Sender Ipi)
  | .push sender ipi =>
      if state.sending sender then none
      else some { state with
        queue := ipiQueuePush state.queue ipi
        sending := Function.update state.sending sender true
        sent := state.sent ++ [ipi] }
  | .sendIpi sender =>
      if state.sending sender then
        some { state with sending := Function.update state.sending sender false, requested := true }
      else none
  | .pushSelf ipi =>
      if state.handling || state.sendingSelf then none
      else some { state with
        queue := ipiQueuePush state.queue ipi
        sendingSelf := true
        sent := state.sent ++ [ipi] }
  | .interruptSelf =>
      if state.sendingSelf then some { state with sendingSelf := false, handling := true }
      else none
  | .deliver =>
      if state.requested && !state.handling && !state.sendingSelf then
        some { state with requested := false, handling := true }
      else none
  | .receive =>
      if state.handling then
        match ipiQueuePop state.queue with
        | none => some { state with handling := false }
        | some (ipi, queue) => some { state with queue := queue, executed := state.executed ++ [ipi] }
      else none

/-- After `ipi_queue_init`. The slots hold what the memory held. -/
def initial (slots : Nat → Ipi) : State Sender Ipi where
  queue := ⟨slots, 0, 0⟩
  sending := fun _ => false
  sendingSelf := false
  requested := false
  handling := false
  sent := []
  executed := []

/-- The requests in the queue. -/
def State.pending (state : State Sender Ipi) : List Ipi :=
  state.queue.contents ipiQueueMax

/-- The handler runs or is going to run. -/
def Coming (state : State Sender Ipi) : Prop :=
  (∃ sender, state.sending sender = true) ∨ state.sendingSelf = true ∨ state.requested = true ∨
    state.handling = true

/-- The receives of the handler until it finds the queue empty, if nobody pushes in
between. -/
def drain (state : State Sender Ipi) : Option (State Sender Ipi) :=
  run step state (List.replicate (state.pending.length + 1) .receive)

/-- No request is lost: what was executed, followed by what is in the queue, is what
was sent; requests in the queue have a handler that runs or is going to run; and the
handler executes all of them once, in order. -/
structure Delivered (state : State Sender Ipi) : Prop where
  order : state.executed ++ state.pending = state.sent
  coming : state.pending ≠ [] → Coming state
  executes : state.handling = true → ∃ after, drain state = some after ∧
    after.executed = state.sent ∧ after.pending = [] ∧ after.handling = false

/-- A push finds two free slots. -/
def Roomy (state : State Sender Ipi) : Event Sender Ipi → Prop
  | .push _ _ | .pushSelf _ => state.pending.length + 1 < ipiQueueMax
  | _ => True

/-- The indices of the queue are below its bound. -/
def Sound (state : State Sender Ipi) : Prop :=
  state.queue.Inside ipiQueueMax

/-- A receive from an empty queue ends the handler. -/
theorem receive_empty {state : State Sender Ipi} (sound : Sound state) (running : state.handling = true)
    (empty : state.pending = []) : step state .receive = some { state with handling := false } := by
  have nothing : ipiQueuePop state.queue = none := sound.pop_none.mpr empty
  simp only [step, running, nothing, if_true]

/-- A receive takes and executes the oldest request. -/
theorem receive_next {state : State Sender Ipi} (sound : Sound state) (running : state.handling = true)
    {ipi : Ipi} {rest : List Ipi} (waiting : state.pending = ipi :: rest) :
    ∃ queue : IndexRing Ipi, queue.Inside ipiQueueMax ∧ queue.contents ipiQueueMax = rest ∧
      step state .receive =
        some { state with queue := queue, executed := state.executed ++ [ipi] } := by
  obtain ⟨queue, popped, inside, contents⟩ := sound.pop_cons waiting
  have found : ipiQueuePop state.queue = some (ipi, queue) := popped
  apply Exists.intro queue
  apply And.intro inside
  apply And.intro contents
  simp only [step, running, found, if_true]

/-- What a receive does: it ends the handler, or it takes and executes the oldest request. -/
theorem receive_cases {state next : State Sender Ipi} (sound : Sound state)
    (taken : step state .receive = some next) :
    state.pending = [] ∧ next = { state with handling := false } ∨
      ∃ ipi rest, ∃ queue : IndexRing Ipi, state.pending = ipi :: rest ∧ queue.Inside ipiQueueMax ∧
        queue.contents ipiQueueMax = rest ∧ state.handling = true ∧
        next = { state with queue := queue, executed := state.executed ++ [ipi] } := by
  have running : state.handling = true := by
    simp only [step, Option.ite_none_right_eq_some] at taken
    exact taken.1
  cases waiting : state.pending with
  | nil =>
    rw [receive_empty sound running waiting] at taken
    exact .inl ⟨rfl, (Option.some.inj taken).symm⟩
  | cons ipi rest =>
    obtain ⟨queue, inside, contents, received⟩ := receive_next sound running waiting
    rw [received] at taken
    exact .inr ⟨ipi, rest, queue, rfl, inside, contents, running, (Option.some.inj taken).symm⟩

/-- Every step keeps the indices below the bound. -/
theorem step_sound (state : State Sender Ipi) (event : Event Sender Ipi) (next : State Sender Ipi)
    (sound : Sound state) (taken : step state event = some next) : Sound next := by
  cases event with
  | push sender ipi =>
    simp only [step, Option.ite_none_left_eq_some, Option.some.injEq] at taken
    obtain ⟨_, rfl⟩ := taken
    exact IndexRing.Inside.push sound ipi
  | pushSelf ipi =>
    simp only [step, Option.ite_none_left_eq_some, Option.some.injEq] at taken
    obtain ⟨_, rfl⟩ := taken
    exact IndexRing.Inside.push sound ipi
  | sendIpi sender =>
    simp only [step, Option.ite_none_right_eq_some, Option.some.injEq] at taken
    obtain ⟨_, rfl⟩ := taken
    exact sound
  | interruptSelf =>
    simp only [step, Option.ite_none_right_eq_some, Option.some.injEq] at taken
    obtain ⟨_, rfl⟩ := taken
    exact sound
  | deliver =>
    simp only [step, Option.ite_none_right_eq_some, Option.some.injEq] at taken
    obtain ⟨_, rfl⟩ := taken
    exact sound
  | receive =>
    obtain ⟨_, rfl⟩ | ⟨_, _, queue, _, inside, _, _, rfl⟩ := receive_cases sound taken
    · exact sound
    · exact inside

/-- The handler executes what is in the queue, in order, and ends. The induction is
on the requests in the queue, and each receive takes the first of them. -/
theorem drain_executes (state : State Sender Ipi) (sound : Sound state)
    (running : state.handling = true) : ∃ after, drain state = some after ∧
      after.executed = state.executed ++ state.pending ∧ after.pending = [] ∧
      after.handling = false := by
  rw [drain]
  generalize waiting : state.pending = requests
  induction requests generalizing state with
  | nil =>
    apply Exists.intro { state with handling := false }
    constructor
    · show (step state .receive).bind some = _
      rw [receive_empty sound running waiting]
      rfl
    · exact ⟨(List.append_nil _).symm, waiting, rfl⟩
  | cons ipi rest ih =>
    obtain ⟨queue, inside, contents, received⟩ := receive_next sound running waiting
    obtain ⟨after, drained, executed, empty, ended⟩ := ih
      { state with queue := queue, executed := state.executed ++ [ipi] } inside running contents
    apply Exists.intro after
    constructor
    · rw [List.length_cons, List.replicate_succ, run, List.foldlM_cons, received]
      exact drained
    · rw [executed]
      exact ⟨List.append_assoc _ _ _, empty, ended⟩

/-- The order of the requests and a coming handler are all that is needed. -/
theorem delivered_iff {state : State Sender Ipi} (sound : Sound state) : Delivered state ↔
    state.executed ++ state.pending = state.sent ∧ (state.pending ≠ [] → Coming state) := by
  constructor
  · intro delivered
    exact ⟨delivered.order, delivered.coming⟩
  · intro ⟨order, coming⟩
    apply Delivered.mk order coming
    intro running
    obtain ⟨after, drained, executed, rest⟩ := drain_executes state sound running
    exact ⟨after, drained, executed.trans order, rest⟩

/-- A push keeps the order of the requests exactly if it finds two free slots. -/
theorem push_order_iff {state : State Sender Ipi} (sound : Sound state) (delivered : Delivered state)
    (ipi : Ipi) :
    state.executed ++ (ipiQueuePush state.queue ipi).contents ipiQueueMax = state.sent ++ [ipi] ↔
      state.pending.length + 1 < ipiQueueMax := by
  have short := sound.length_lt
  have size : state.pending.length = state.queue.length ipiQueueMax := IndexRing.contents_length _ _
  constructor
  · intro order
    rcases Nat.lt_or_ge (state.pending.length + 1) ipiQueueMax with room | full
    · exact room
    · have emptied : (ipiQueuePush state.queue ipi).contents ipiQueueMax = [] :=
        IndexRing.push_full ipi (by omega)
      have lengths := congrArg List.length order
      rw [emptied, ← delivered.order] at lengths
      simp only [List.append_nil, List.length_append, List.length_singleton] at lengths
      omega
  · intro room
    have appended : (ipiQueuePush state.queue ipi).contents ipiQueueMax = state.pending ++ [ipi] :=
      sound.push_contents ipi (by omega)
    rw [appended, ← List.append_assoc, delivered.order]

/-- A step loses a request exactly if it is a push that does not find two free
slots. -/
theorem step_delivered_iff (state : State Sender Ipi) (event : Event Sender Ipi)
    (next : State Sender Ipi) (sound : Sound state) (delivered : Delivered state)
    (taken : step state event = some next) : Delivered next ↔ Roomy state event := by
  rw [delivered_iff (step_sound state event next sound taken)]
  have order := delivered.order
  have coming := delivered.coming
  cases event with
  | push sender ipi =>
    simp only [step, Option.ite_none_left_eq_some, Option.some.injEq] at taken
    obtain ⟨_, rfl⟩ := taken
    rw [Roomy, ← push_order_iff sound delivered ipi]
    apply and_iff_left
    intro _
    exact .inl ⟨sender, Function.update_self ..⟩
  | pushSelf ipi =>
    simp only [step, Option.ite_none_left_eq_some, Option.some.injEq] at taken
    obtain ⟨_, rfl⟩ := taken
    rw [Roomy, ← push_order_iff sound delivered ipi]
    apply and_iff_left
    intro _
    exact .inr (.inl rfl)
  | sendIpi sender =>
    simp only [step, Option.ite_none_right_eq_some, Option.some.injEq] at taken
    obtain ⟨_, rfl⟩ := taken
    refine iff_of_true ⟨order, ?_⟩ trivial
    intro _
    exact .inr (.inr (.inl rfl))
  | interruptSelf =>
    simp only [step, Option.ite_none_right_eq_some, Option.some.injEq] at taken
    obtain ⟨_, rfl⟩ := taken
    refine iff_of_true ⟨order, ?_⟩ trivial
    intro _
    exact .inr (.inr (.inr rfl))
  | deliver =>
    simp only [step, Option.ite_none_right_eq_some, Option.some.injEq] at taken
    obtain ⟨_, rfl⟩ := taken
    refine iff_of_true ⟨order, ?_⟩ trivial
    intro _
    exact .inr (.inr (.inr rfl))
  | receive =>
    obtain ⟨waiting, rfl⟩ | ⟨ipi, rest, queue, waiting, _, contents, running, rfl⟩ := receive_cases sound taken
    · refine iff_of_true ⟨order, ?_⟩ trivial
      intro remaining
      exact absurd waiting remaining
    · refine iff_of_true ⟨?_, ?_⟩ trivial
      · show (state.executed ++ [ipi]) ++ queue.contents ipiQueueMax = state.sent
        rw [contents, List.append_assoc, List.singleton_append, ← waiting, order]
      · intro _
        exact .inr (.inr (.inr running))

/-- In every run, no request is ever lost if and only if every push finds two free
slots. -/
theorem requests_delivered_iff (slots : Nat → Ipi) (events : List (Event Sender Ipi)) :
    Always step (initial slots) Delivered events ↔ Each step (initial slots) Roomy events := by
  have soundStart : Sound (initial slots : State Sender Ipi) := ⟨Nat.zero_lt_succ 3, Nat.zero_lt_succ 3⟩
  apply always_iff_each soundStart step_sound _ step_delivered_iff
  have empty : (initial slots : State Sender Ipi).pending = [] := soundStart.pop_none.mp rfl
  rw [delivered_iff soundStart]
  constructor
  · rw [empty]
    rfl
  · intro remaining
    exact absurd empty remaining

/-- Four processors push before the target receives. The queue looks empty, and the
four requests are gone. -/
theorem four_requests_lost : ¬ Always step (initial fun _ => 0) Delivered
    [.push 0 10, .sendIpi 0, .push 1 11, .sendIpi 1, .push 2 12, .sendIpi 2, .push 3 13,
      (.sendIpi 3 : Event Nat Nat)] := by
  intro always
  have order := (always _ _ List.prefix_rfl rfl).order
  revert order
  decide

end Asym.IpiQueue
