import Asym.Pipe
import Asym.Runs

/-!
# A pipe is a byte stream

The bytes accepted are those of the writes that returned their count, and the
bytes delivered are those returned by reads, both in the order of the sections
under the lock. What was accepted and not yet delivered is what the ring holds.
This is an invariant of every run; the events of the history satisfy a law that
refers to the events before them.
-/

namespace Asym.PipeStream

open CyclicWindows MachineWords Scheduler Pipe Runs

/-- The bytes that the ring holds, in order. -/
def contents (ring : Ring) : List UInt8 :=
  window ringSize ring.buffer ring.readIndex ring.dataLength

/-- The indices of a ring agree. -/
structure RingSound (ring : Ring) : Prop where
  start : ring.readIndex < ringSize
  short : ring.dataLength ≤ ringSize
  stop : ring.writeIndex = (ring.readIndex + ring.dataLength) % ringSize

/-- A fresh ring is sound and empty. -/
theorem ringInit_sound (page : Nat → UInt8) :
    RingSound (ringInit page) ∧ contents (ringInit page) = [] :=
  ⟨⟨show 0 < ringSize by decide, Nat.zero_le _, rfl⟩, rfl⟩

/-- The free length of a sound ring. -/
theorem ringFreeLength_eq {ring : Ring} (sound : RingSound ring) :
    ringFreeLength ring = ringSize - ring.dataLength :=
  sub_of_le _ _ sound.short (by decide)

/-- Length of the contents. -/
theorem contents_length (ring : Ring) : (contents ring).length = ring.dataLength :=
  window_length _ _ _ _

/-- Writing what fits succeeds and appends it to the contents. -/
theorem ringWrite_sound {ring : Ring} {buffer : List UInt8} (sound : RingSound ring)
    (fits : buffer.length ≤ ringFreeLength ring) :
    ∃ filled, ringWrite ring buffer = some filled ∧ RingSound filled ∧
      contents filled = contents ring ++ buffer := by
  have free := ringFreeLength_eq sound
  have short := sound.short
  have small : ringSize < wordSize := by decide
  have positive : 0 < ringSize := by decide
  have stop : ring.writeIndex < ringSize := by
    rw [sound.stop]
    exact Nat.mod_lt _ positive
  have upper : sub ringSize ring.writeIndex = ringSize - ring.writeIndex :=
    sub_of_le _ _ (by omega) small
  have double : ringSize + ringSize < wordSize := by decide
  rw [ringWrite, if_neg (by omega), upper, add_of_lt ring.writeIndex buffer.length (by omega),
    add_of_lt ring.dataLength buffer.length (by omega)]
  refine ⟨_, rfl, ⟨sound.start, ?_, ?_⟩, ?_⟩
  · change ring.dataLength + buffer.length ≤ ringSize
    omega
  · change (ring.writeIndex + buffer.length) % ringSize =
      (ring.readIndex + (ring.dataLength + buffer.length)) % ringSize
    rw [sound.stop, Nat.mod_add_mod, Nat.add_assoc]
  · have extended := window_placeAround ringSize ring.buffer ring.readIndex ring.dataLength buffer
      sound.start (by omega)
    rw [← sound.stop, placeAround] at extended
    exact extended

/-- Reading what is there succeeds and removes it from the front. -/
theorem ringRead_sound (ring : Ring) (count : Nat) (sound : RingSound ring)
    (present : count ≤ ringDataLength ring) :
    ∃ bytes rest, ringRead ring count = some (bytes, rest) ∧ RingSound rest ∧
      contents ring = bytes ++ contents rest ∧ bytes.length = count := by
  have short := sound.short
  have start := sound.start
  have small : ringSize + ringSize < wordSize := by decide
  have positive : 0 < ringSize := by decide
  rw [ringDataLength] at present
  have upper : sub ringSize ring.readIndex = ringSize - ring.readIndex :=
    sub_of_le _ _ (by omega) (by omega)
  have pieces : (if count < ringSize - ring.readIndex then slice ring.buffer ring.readIndex count
      else slice ring.buffer ring.readIndex (ringSize - ring.readIndex) ++
        slice ring.buffer 0 (sub count (ringSize - ring.readIndex))) =
      window ringSize ring.buffer ring.readIndex count := by
    rw [← sliceAround_eq ringSize ring.buffer ring.readIndex count start (by omega), sliceAround]
    split_ifs with direct
    · rfl
    · rw [sub_of_le count _ (by omega) (by omega)]
  rw [ringRead, ringDataLength, if_neg (by omega), upper, add_of_lt ring.readIndex count (by omega),
    sub_of_le ring.dataLength count present (by omega)]
  simp only [pieces]
  refine ⟨_, _, rfl, ⟨Nat.mod_lt _ positive, ?_, ?_⟩, ?_, window_length _ _ _ _⟩
  · change ring.dataLength - count ≤ ringSize
    omega
  · change ring.writeIndex =
      ((ring.readIndex + count) % ringSize + (ring.dataLength - count)) % ringSize
    rw [Nat.mod_add_mod, sound.stop]
    congr 1
    omega
  · have cut := window_add ringSize ring.buffer ring.readIndex count (ring.dataLength - count)
    rw [Nat.add_sub_cancel' present] at cut
    exact cut

/-- The bytes that an event adds to the stream. -/
def Event.accepted : Event → List UInt8
  | .writeDone buffer => buffer
  | _ => []

/-- The bytes that an event takes from the stream. -/
def Event.delivered : Event → List UInt8
  | .readDone _ bytes => bytes
  | _ => []

/-- The bytes of the writes that returned their count, in order. -/
def accepted (history : List Event) : List UInt8 := history.flatMap Event.accepted

/-- The bytes returned by reads, in order. -/
def delivered (history : List Event) : List UInt8 := history.flatMap Event.delivered

/-- Accepted bytes after one more event. -/
theorem accepted_snoc (history : List Event) (event : Event) :
    accepted (history ++ [event]) = accepted history ++ Event.accepted event := by
  simp [accepted]

/-- Delivered bytes after one more event. -/
theorem delivered_snoc (history : List Event) (event : Event) :
    delivered (history ++ [event]) = delivered history ++ Event.delivered event := by
  simp [delivered]

/-- The law of an event after the events before it. A read returns less than
asked only after the write end was closed, and nothing only when all was
delivered; a call is refused for its size, or as a write after the read end was
closed; nothing times out and no assertion fails. -/
def Lawful (before : List Event) : Event → Prop
  | .readDone count bytes => bytes.length ≤ count ∧ (bytes.length < count →
      Event.writeClosed ∈ before ∧ (bytes = [] → delivered before = accepted before))
  | .writeDone buffer => buffer.length < ringSize
  | .refused request error => (error = .einval ∧ ringSize ≤ request.count) ∨
      (error = .epipe ∧ Event.readClosed ∈ before ∧ ∃ buffer, request = .write buffer)
  | .timedOut _ => False
  | .assertFailed _ => False
  | .readClosed => True
  | .writeClosed => True

/-- Every event of a history is lawful. -/
def AllLawful (history : List Event) : Prop :=
  ∀ before event after, history = before ++ event :: after → Lawful before event

/-- A history stays lawful with a lawful event at its end. -/
theorem allLawful_snoc {history : List Event} {event : Event} (all : AllLawful history)
    (lawful : Lawful history event) : AllLawful (history ++ [event]) := by
  intro before last after shape
  rcases List.eq_nil_or_concat after with rfl | ⟨rest, other, rfl⟩
  · obtain ⟨rfl, single⟩ := List.append_inj' shape rfl
    obtain rfl := List.singleton_inj.mp single
    exact lawful
  · rw [List.concat_eq_append, ← List.cons_append, ← List.append_assoc] at shape
    exact all before last rest (List.append_inj' shape rfl).1

/-- A thread in a call asks for less than the ring's size, has not timed out and
waits without a deadline. -/
def PhaseSound : Phase → Prop
  | .idle => True
  | .locking request result => request.count < ringSize ∧ result = .norm
  | .blocked request deadline => request.count < ringSize ∧ deadline = never

section Invariant

variable {Thread : Type}

/-- The invariant of a pipe. -/
structure Sound (state : State Thread) : Prop where
  ring : RingSound state.pipe.ring
  stream : accepted state.history = delivered state.history ++ contents state.pipe.ring
  readEnd : state.pipe.readClosed = true → Event.readClosed ∈ state.history
  writeEnd : state.pipe.writeClosed = true → Event.writeClosed ∈ state.history
  phases : ∀ thread, PhaseSound (state.phase thread)
  lawful : AllLawful state.history

/-- Recording an event that moves no bytes. -/
theorem stream_quiet {history : List Event} {event : Event} {held : List UInt8}
    (stream : accepted history = delivered history ++ held)
    (adds : Event.accepted event = []) (takes : Event.delivered event = []) :
    accepted (history ++ [event]) = delivered (history ++ [event]) ++ held := by
  rw [accepted_snoc, delivered_snoc, adds, takes, List.append_nil, List.append_nil, stream]

/-- The rest of a read under the lock, when its condition holds. -/
theorem finishRead_sound (state : State Thread) (count : Nat) (sound : Sound state)
    (holds : condition state.pipe (.read count) = true) :
    ∃ bytes rest, finishRead state.pipe count =
        (.readDone count bytes, { state.pipe with ring := rest }) ∧
      RingSound rest ∧ contents state.pipe.ring = bytes ++ contents rest ∧
      Lawful state.history (.readDone count bytes) := by
  simp only [condition, Bool.or_eq_true, decide_eq_true_eq] at holds
  cases closed : state.pipe.writeClosed with
  | true =>
    obtain ⟨bytes, rest, returned, restSound, split, length⟩ := ringRead_sound state.pipe.ring
      (min count (ringDataLength state.pipe.ring)) sound.ring (Nat.min_le_right _ _)
    refine ⟨bytes, rest, ?_, restSound, split, by omega, fun less => ?_⟩
    · simp only [finishRead, closed, if_true, returned]
    · refine ⟨sound.writeEnd closed, fun empty => ?_⟩
      have none : state.pipe.ring.dataLength = 0 := by
        rw [empty, List.length_nil, ringDataLength] at length
        rw [empty, List.length_nil] at less
        omega
      have drained : contents state.pipe.ring = [] := by
        rw [← List.length_eq_zero_iff, contents_length, none]
      rw [sound.stream, drained, List.append_nil]
  | false =>
    have enough : count ≤ ringDataLength state.pipe.ring := by simpa [closed] using holds
    obtain ⟨bytes, rest, returned, restSound, split, length⟩ := ringRead_sound state.pipe.ring count
      sound.ring enough
    refine ⟨bytes, rest, ?_, restSound, split, by omega, fun less => by omega⟩
    simp [finishRead, closed, returned]

variable [DecidableEq Thread]

/-- Changing one thread's phase keeps all phases sound. -/
theorem phases_update {phase : Thread → Phase} (thread : Thread) (next : Phase)
    (sound : ∀ other, PhaseSound (phase other)) (fits : PhaseSound next) (tested : Thread) :
    PhaseSound (Function.update phase thread next tested) := by
  by_cases same : tested = thread
  · subst same
    rwa [Function.update_self]
  · rw [Function.update_of_ne same]
    exact sound tested

/-- The end of a read keeps the pipe sound. -/
theorem sound_read (state : State Thread) (thread : Thread) (count : Nat) (sound : Sound state)
    (holds : condition state.pipe (.read count) = true) :
    Sound ⟨(finishRead state.pipe count).2, Function.update state.phase thread .idle,
      state.history ++ [(finishRead state.pipe count).1]⟩ := by
  obtain ⟨bytes, rest, result, restSound, split, lawful⟩ := finishRead_sound state count sound holds
  rw [result]
  refine ⟨restSound, ?_, ?_, ?_, phases_update _ _ sound.phases trivial,
    allLawful_snoc sound.lawful lawful⟩
  · rw [accepted_snoc, delivered_snoc, sound.stream, split]
    simp [Event.accepted, Event.delivered]
  · exact fun closed => List.mem_append_left _ (sound.readEnd closed)
  · exact fun closed => List.mem_append_left _ (sound.writeEnd closed)

/-- The end of a write keeps the pipe sound. -/
theorem sound_write (state : State Thread) (thread : Thread) (buffer : List UInt8)
    (sound : Sound state) (bounded : buffer.length < ringSize)
    (holds : condition state.pipe (.write buffer) = true) :
    Sound ⟨(finishWrite state.pipe buffer).2, Function.update state.phase thread .idle,
      state.history ++ [(finishWrite state.pipe buffer).1]⟩ := by
  simp only [condition, Bool.or_eq_true, decide_eq_true_eq] at holds
  have readEnd := fun closed => List.mem_append_left
    [(finishWrite state.pipe buffer).1] (sound.readEnd closed)
  have writeEnd := fun closed => List.mem_append_left
    [(finishWrite state.pipe buffer).1] (sound.writeEnd closed)
  have phases := phases_update thread .idle sound.phases trivial
  cases closed : state.pipe.readClosed with
  | true =>
    have result : finishWrite state.pipe buffer =
        (.refused (.write buffer) .epipe, state.pipe) := by simp [finishWrite, closed]
    rw [result] at readEnd writeEnd ⊢
    refine ⟨sound.ring, stream_quiet sound.stream rfl rfl, readEnd, writeEnd, phases,
      allLawful_snoc sound.lawful (.inr ⟨rfl, sound.readEnd closed, buffer, rfl⟩)⟩
  | false =>
    have fits : buffer.length ≤ ringFreeLength state.pipe.ring := by simpa [closed] using holds
    obtain ⟨filled, returned, filledSound, extended⟩ := ringWrite_sound sound.ring fits
    have result : finishWrite state.pipe buffer =
        (.writeDone buffer, { state.pipe with ring := filled }) := by
      simp [finishWrite, closed, returned]
    rw [result] at readEnd writeEnd ⊢
    refine ⟨filledSound, ?_, readEnd, writeEnd, phases,
      allLawful_snoc sound.lawful bounded⟩
    rw [accepted_snoc, delivered_snoc, sound.stream, extended]
    simp [Event.accepted, Event.delivered]

/-- One section under the lock keeps the pipe sound. -/
theorem sound_section {state : State Thread} {thread : Thread} {request : Request}
    {result : BlockResult} (sound : Sound state)
    (ready : state.phase thread = .locking request result) :
    Sound (lockSection state thread request result) := by
  have here := sound.phases thread
  rw [ready] at here
  obtain ⟨bounded, rfl⟩ := here
  rw [lockSection, if_neg (by simp)]
  split_ifs with holds
  · cases request with
    | read count => exact sound_read state thread count sound holds
    | write buffer => exact sound_write state thread buffer sound bounded holds
  · exact ⟨sound.ring, sound.stream, sound.readEnd, sound.writeEnd,
      phases_update _ _ sound.phases ⟨bounded, rfl⟩, sound.lawful⟩

/-- One step keeps the pipe sound. -/
theorem step_sound_pipe (state after : State Thread) (sound : Sound state)
    (step : Step state after) : Sound after := by
  cases step with
  | call thread request alive ready =>
    rw [call]
    split_ifs with large
    · exact ⟨sound.ring, stream_quiet sound.stream rfl rfl,
        fun closed => List.mem_append_left _ (sound.readEnd closed),
        fun closed => List.mem_append_left _ (sound.writeEnd closed), sound.phases,
        allLawful_snoc sound.lawful (.inl ⟨rfl, large⟩)⟩
    · exact ⟨sound.ring, sound.stream, sound.readEnd, sound.writeEnd,
        phases_update _ _ sound.phases ⟨by omega, rfl⟩, sound.lawful⟩
  | locked thread request result alive ready =>
    exact sound_section sound ready
  | unblock thread request deadline waits =>
    have here := sound.phases thread
    rw [waits] at here
    exact ⟨sound.ring, sound.stream, sound.readEnd, sound.writeEnd,
      phases_update _ _ sound.phases ⟨here.1, rfl⟩, sound.lawful⟩
  | expire thread request deadline uptime waits clock late =>
    have here := sound.phases thread
    rw [waits] at here
    obtain ⟨-, rfl⟩ := here
    simp only [never, wordSize] at late clock
    omega
  | readCleanup alive =>
    exact ⟨sound.ring, stream_quiet sound.stream rfl rfl, fun _ => by simp,
      fun closed => List.mem_append_left _ (sound.writeEnd closed), sound.phases,
      allLawful_snoc sound.lawful trivial⟩
  | writeCleanup alive =>
    exact ⟨sound.ring, stream_quiet sound.stream rfl rfl,
      fun closed => List.mem_append_left _ (sound.readEnd closed), fun _ => by simp, sound.phases,
      allLawful_snoc sound.lawful trivial⟩

/-- A pipe is sound in every reachable state. -/
theorem reachable_sound_pipe (state : State Thread) (reached : Reachable Initial Step state) :
    Sound state := by
  refine reachable_invariant ?_ step_sound_pipe reached
  rintro start ⟨page, rfl⟩
  obtain ⟨ring, empty⟩ := ringInit_sound page
  refine ⟨ring, ?_, by simp, by simp, fun _ => trivial, ?_⟩
  · rw [empty]
    rfl
  · intro before event after shape
    simp at shape

/-- A pipe is a reliable byte stream. What was accepted is what was delivered and what is in the ring, in
this order, and each event of the history is lawful after those before it.

Proof: both are part of an invariant of the small steps of the threads. -/
theorem pipe_reliable_stream (state : State Thread) (reached : Reachable Initial Step state) :
    accepted state.history = delivered state.history ++ contents state.pipe.ring ∧
      ∀ before event after, state.history = before ++ event :: after → Lawful before event := by
  have sound := reachable_sound_pipe state reached
  exact ⟨sound.stream, sound.lawful⟩

end Invariant

/-- A pipe that was just created. -/
def sampleStart : State Bool :=
  ⟨⟨ringInit fun _ => 0, false, false, false⟩, fun _ => .idle, []⟩

/-- The pipe after one thread wrote three bytes. -/
def sampleWritten : State Bool :=
  lockSection (call sampleStart true (.write [1, 2, 3])) true (.write [1, 2, 3]) .norm

/-- The pipe after another thread read two of them. -/
def sampleRead : State Bool :=
  lockSection (call sampleWritten false (.read 2)) false (.read 2) .norm

/-- The stream of the sample. -/
theorem pipe_reliable_stream_sample :
    accepted sampleRead.history = delivered sampleRead.history ++ contents sampleRead.pipe.ring ∧
      delivered sampleRead.history = [1, 2] ∧ contents sampleRead.pipe.ring = [3] := by
  have reached : Reachable Initial Step sampleRead := by
    refine ⟨sampleStart, ⟨_, rfl⟩, ?_⟩
    refine ((Relation.ReflTransGen.single (Step.call sampleStart true (.write [1, 2, 3]) rfl rfl)
      ).tail (Step.locked _ true (.write [1, 2, 3]) .norm rfl rfl)).tail
      (Step.call sampleWritten false (.read 2) rfl rfl) |>.tail ?_
    exact Step.locked _ false (.read 2) .norm rfl rfl
  exact ⟨(pipe_reliable_stream sampleRead reached).1, by decide +kernel, by decide +kernel⟩

end Asym.PipeStream
