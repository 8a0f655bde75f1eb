import Asym.PipeStream
import Asym.WordCopies

/-!
# The ring is a bounded queue of bytes

`ring_t` over a byte memory, with the `memcpy` of the kernel. A ring and its memory show the ring
of the pipes, whose buffer is a function of offsets. In every run of `ring_write` and `ring_read`
the ring holds the queue that its calls have built, and every call does what it would do to the
queue.

Between two calls the memory outside the ring's bytes changes in any way. A caller's buffer that
is no longer than the ring lies in the address space and does not overlap the ring's bytes; other
buffers are never used.
-/

namespace Asym.RingQueue

open ByteMemory CyclicWindows MachineWords PipeStream WordCopies
open Pipe (ringSize)

section Model

/-- `ring_t`, where `buffer` is an address. -/
structure Ring where
  buffer : Nat
  readIndex : Nat
  writeIndex : Nat
  dataLength : Nat

/-- `ring_init`, with the page that `pmm_alloc` returns. -/
def ringInit (page : Nat) : Ring := ⟨page, 0, 0, 0⟩

/-- `ring_data_length`. -/
def ringDataLength (ring : Ring) : Nat := ring.dataLength

/-- `ring_free_length`. -/
def ringFreeLength (ring : Ring) : Nat := sub ringSize ring.dataLength

/-- What a call returns and leaves. No result stands for `ERR`. -/
structure Outcome where
  result : Option Nat
  machine : Machine
  ring : Ring

/-- `ring_write`. -/
def ringWrite (machine : Machine) (ring : Ring) (buffer count : Nat) : Outcome :=
  if count > ringFreeLength ring then ⟨none, machine, ring⟩
  else
    let upperHalfSize := sub ringSize ring.writeIndex
    let copied :=
      if count < upperHalfSize then (memcpy machine (add ring.buffer ring.writeIndex) buffer count).2
      else
        let upper := (memcpy machine (add ring.buffer ring.writeIndex) buffer upperHalfSize).2
        (memcpy upper ring.buffer (add buffer upperHalfSize) (sub count upperHalfSize)).2
    ⟨some count, copied, { ring with
      writeIndex := add ring.writeIndex count % ringSize
      dataLength := add ring.dataLength count }⟩

/-- `ring_read`. -/
def ringRead (machine : Machine) (ring : Ring) (buffer count : Nat) : Outcome :=
  if count > ringDataLength ring then ⟨none, machine, ring⟩
  else
    let upperHalfSize := sub ringSize ring.readIndex
    let copied :=
      if count < upperHalfSize then (memcpy machine buffer (add ring.buffer ring.readIndex) count).2
      else
        let upper := (memcpy machine buffer (add ring.buffer ring.readIndex) upperHalfSize).2
        (memcpy upper (add buffer upperHalfSize) ring.buffer (sub count upperHalfSize)).2
    ⟨some count, copied, { ring with
      readIndex := add ring.readIndex count % ringSize
      dataLength := sub ring.dataLength count }⟩

/-- A call with the address of the caller's buffer. -/
inductive Call where
  | write (buffer count : Nat)
  | read (buffer count : Nat)

/-- The argument `buffer`. -/
def Call.buffer : Call → Nat
  | write buffer _ => buffer
  | read buffer _ => buffer

/-- The argument `count`. -/
def Call.count : Call → Nat
  | write _ count => count
  | read _ count => count

/-- A ring in a memory. -/
structure State where
  memory : Memory
  ring : Ring

/-- A call, with empty logs. -/
def perform (state : State) : Call → Outcome
  | .write buffer count => ringWrite ⟨state.memory, [], []⟩ state.ring buffer count
  | .read buffer count => ringRead ⟨state.memory, [], []⟩ state.ring buffer count

/-- The state after a call. -/
def Outcome.state (outcome : Outcome) : State := ⟨outcome.machine.memory, outcome.ring⟩

/-- A count fits into 64 bits, and a buffer that is no longer than the ring is apart from it. -/
structure Usable (ring : Ring) (call : Call) : Prop where
  count : call.count < wordSize
  apart : call.count ≤ ringSize → call.buffer + call.count ≤ wordSize ∧
    (call.buffer + call.count ≤ ring.buffer ∨ ring.buffer + ringSize ≤ call.buffer)

end Model

section Queues

/-- What a bounded queue does: no result, or one with the bytes read, and the queue after it. -/
def answer (memory : Memory) (queue : List UInt8) : Call → Option (List UInt8 × List UInt8)
  | .write buffer count => if count > ringSize - queue.length then none
      else some ([], queue ++ slice memory buffer count)
  | .read _ count => if count > queue.length then none else some (queue.take count, queue.drop count)

/-- The queue after a call. -/
def after (memory : Memory) (queue : List UInt8) (call : Call) : List UInt8 :=
  ((answer memory queue call).map Prod.snd).getD queue

/-- The runs from `ring_init`, each with the queue that its calls have built. -/
inductive Run (page : Nat) : State → List UInt8 → Prop where
  | init (memory : Memory) (fits : page + ringSize ≤ wordSize) : Run page ⟨memory, ringInit page⟩ []
  | call {state : State} {queue : List UInt8} (earlier : Run page state queue) (call : Call)
      (usable : Usable state.ring call) : Run page (perform state call).state (after state.memory queue call)
  | other {state : State} {queue : List UInt8} (earlier : Run page state queue) (memory : Memory)
      (kept : ∀ offset < ringSize, memory (state.ring.buffer + offset) = state.memory (state.ring.buffer + offset)) :
      Run page ⟨memory, state.ring⟩ queue

/-- The ring of the pipes that a ring in memory shows. -/
def shown (state : State) : Pipe.Ring :=
  ⟨fun offset => state.memory (state.ring.buffer + offset), state.ring.readIndex, state.ring.writeIndex,
    state.ring.dataLength⟩

/-- A ring at a page holds a queue. -/
structure Represents (page : Nat) (state : State) (queue : List UInt8) : Prop where
  buffer : state.ring.buffer = page
  fits : page + ringSize ≤ wordSize
  sound : RingSound (shown state)
  held : contents (shown state) = queue

end Queues

section Copies

variable {memory : Memory} {machine later : Machine} {dest total src reach d s count : Nat} {bytes : Nat → UInt8}

/-- Some copies changed, wrote and read only addresses of two ranges. -/
structure Copied (memory : Memory) (dest total src reach : Nat) (machine : Machine) : Prop where
  elsewhere : ∀ address, address < dest ∨ dest + total ≤ address → machine.memory address = memory address
  reads : ∀ address ∈ machine.reads, src ≤ address ∧ address < src + reach
  writes : ∀ address ∈ machine.writes, dest ≤ address ∧ address < dest + total

/-- Before the first copy. -/
theorem Copied.start (memory : Memory) (dest total src reach : Nat) :
    Copied memory dest total src reach ⟨memory, [], []⟩ where
  elsewhere _ _ := rfl
  reads _ member := nomatch member
  writes _ member := nomatch member

/-- One more copy. -/
theorem Copied.more (copied : Copied memory dest total src reach machine)
    (filled : Filled machine d bytes count s count count later)
    (inside : count = 0 ∨ (dest ≤ d ∧ d + count ≤ dest + total) ∧ src ≤ s ∧ s + count ≤ src + reach) :
    Copied memory dest total src reach later where
  elsewhere address outside := by
    rw [filled.memory, fill_outside _ _ _ (by omega)]
    exact copied.elsewhere address outside
  reads address member := by
    rcases filled.reads address member with earlier | new
    · exact copied.reads address earlier
    · omega
  writes address member := by
    rcases filled.writes address member with earlier | new
    · exact copied.writes address earlier
    · omega

/-- A copy seen from a base on. -/
theorem fill_place (memory others : Memory) (base index start count : Nat) :
    (fun offset => fill memory (base + index) (fun offset => others (start + offset)) count (base + offset)) =
      place (fun offset => memory (base + offset)) index (slice others start count) := by
  funext offset
  rw [place_slice, fill]
  have shift : base + offset - (base + index) = offset - index := by omega
  rw [shift]
  exact if_congr (by omega) rfl rfl

end Copies

section Pieces

variable {memory : Memory} {page buffer index count : Nat}

/-- The addresses of the pieces do not wrap: the first starts at the index, and the second follows
the first in the caller's buffer. -/
theorem addresses (fits : page + ringSize ≤ wordSize) (inRing : index < ringSize) (small : count ≤ ringSize)
    (inside : buffer + count ≤ wordSize) :
    add page index = page + index ∧ sub ringSize index = ringSize - index ∧
      (¬ count < ringSize - index → sub count (ringSize - index) = count - (ringSize - index) ∧
        (count - (ringSize - index) = 0 ∨ add buffer (ringSize - index) = buffer + (ringSize - index))) := by
  have size : ringSize < wordSize := by decide
  refine ⟨add_of_lt _ _ (by omega), sub_of_le _ _ (by omega) size, fun beyond => ?_⟩
  refine ⟨sub_of_le _ _ (by omega) (Nat.lt_of_le_of_lt small size), ?_⟩
  rcases Nat.eq_or_lt_of_not_lt beyond with exactly | more
  · exact .inl (by omega)
  · exact .inr (add_of_lt _ _ (by omega))

/-- What `ring_write` copies from an index on. -/
theorem written (fits : page + ringSize ≤ wordSize) (inRing : index < ringSize) (small : count ≤ ringSize)
    (apart : buffer + count ≤ wordSize ∧ (buffer + count ≤ page ∨ page + ringSize ≤ buffer)) :
    let upperHalfSize := sub ringSize index
    let copied :=
      if count < upperHalfSize then (memcpy ⟨memory, [], []⟩ (add page index) buffer count).2
      else
        let upper := (memcpy ⟨memory, [], []⟩ (add page index) buffer upperHalfSize).2
        (memcpy upper page (add buffer upperHalfSize) (sub count upperHalfSize)).2
    (fun offset => copied.memory (page + offset)) =
      placeAround ringSize (fun offset => memory (page + offset)) index (slice memory buffer count) ∧
    Copied memory page ringSize buffer count copied := by
  obtain ⟨source, apart⟩ := apart
  obtain ⟨start, half, pieces⟩ := addresses fits inRing small source
  rw [placeAround, slice_length]
  simp only [start, half]
  split_ifs with direct
  · have first := memcpy_filled (⟨by omega, source, by omega⟩ : Clear (page + index) buffer count) ⟨memory, [], []⟩
    exact ⟨by rw [first.memory, fill_place], (Copied.start memory _ _ _ _).more first (by omega)⟩
  · obtain ⟨rest, behind⟩ := pieces direct
    have first := memcpy_filled (⟨by omega, by omega, by omega⟩ : Clear (page + index) buffer (ringSize - index))
      ⟨memory, [], []⟩
    have word := add_lt buffer (ringSize - index)
    rw [rest]
    have second := memcpy_filled (⟨by omega, by omega, by omega⟩ : Clear page (add buffer (ringSize - index))
      (count - (ringSize - index))) (memcpy ⟨memory, [], []⟩ (page + index) buffer (ringSize - index)).2
    refine ⟨?_, ((Copied.start memory _ _ _ _).more first (by omega)).more second (by omega)⟩
    have parts := slice_add memory buffer (ringSize - index) (count - (ringSize - index))
    rw [Nat.add_sub_cancel' (Nat.le_of_not_lt direct)] at parts
    -- The second piece is still in the caller's buffer after the first copy into the ring.
    have kept : slice memory (buffer + (ringSize - index)) (count - (ringSize - index)) =
        slice (memcpy ⟨memory, [], []⟩ (page + index) buffer (ringSize - index)).2.memory
          (add buffer (ringSize - index)) (count - (ringSize - index)) := by
      refine slice_congr fun position within => ?_
      rw [behind.resolve_left (by omega), first.memory, fill_outside _ _ _ (by omega)]
    have lower := fill_place (memcpy ⟨memory, [], []⟩ (page + index) buffer (ringSize - index)).2.memory
      (memcpy ⟨memory, [], []⟩ (page + index) buffer (ringSize - index)).2.memory page 0
      (add buffer (ringSize - index)) (count - (ringSize - index))
    rw [Nat.add_zero] at lower
    rw [second.memory, lower, first.memory, fill_place, parts, List.take_left' (slice_length _ _ _),
      List.drop_left' (slice_length _ _ _), kept, first.memory]

/-- What `ring_read` copies from an index on. -/
theorem read (fits : page + ringSize ≤ wordSize) (inRing : index < ringSize) (small : count ≤ ringSize)
    (apart : buffer + count ≤ wordSize ∧ (buffer + count ≤ page ∨ page + ringSize ≤ buffer)) :
    let upperHalfSize := sub ringSize index
    let copied :=
      if count < upperHalfSize then (memcpy ⟨memory, [], []⟩ buffer (add page index) count).2
      else
        let upper := (memcpy ⟨memory, [], []⟩ buffer (add page index) upperHalfSize).2
        (memcpy upper (add buffer upperHalfSize) page (sub count upperHalfSize)).2
    slice copied.memory buffer count = sliceAround ringSize (fun offset => memory (page + offset)) index count ∧
    Copied memory buffer count page ringSize copied := by
  obtain ⟨target, apart⟩ := apart
  obtain ⟨start, half, pieces⟩ := addresses fits inRing small target
  rw [sliceAround]
  simp only [start, half]
  split_ifs with direct
  · have first := memcpy_filled (⟨target, by omega, by omega⟩ : Clear buffer (page + index) count) ⟨memory, [], []⟩
    refine ⟨slice_congr fun position within => ?_, (Copied.start memory _ _ _ _).more first (by omega)⟩
    rw [first.memory, fill_at _ _ _ within, Nat.add_assoc]
  · obtain ⟨rest, behind⟩ := pieces direct
    have first := memcpy_filled (⟨by omega, by omega, by omega⟩ : Clear buffer (page + index) (ringSize - index))
      ⟨memory, [], []⟩
    have word := add_lt buffer (ringSize - index)
    rw [rest]
    have second := memcpy_filled (⟨by omega, by omega, by omega⟩ : Clear (add buffer (ringSize - index)) page
      (count - (ringSize - index))) (memcpy ⟨memory, [], []⟩ buffer (page + index) (ringSize - index)).2
    refine ⟨?_, ((Copied.start memory _ _ _ _).more first (by omega)).more second (by omega)⟩
    have parts := slice_add (memcpy (memcpy ⟨memory, [], []⟩ buffer (page + index) (ringSize - index)).2
      (add buffer (ringSize - index)) page (count - (ringSize - index))).2.memory buffer (ringSize - index)
      (count - (ringSize - index))
    rw [Nat.add_sub_cancel' (Nat.le_of_not_lt direct)] at parts
    rw [parts]
    congr 1
    · refine slice_congr fun position within => ?_
      rw [second.memory, fill_outside _ _ _ (by omega), first.memory, fill_at _ _ _ within, Nat.add_assoc]
    · refine slice_congr fun position within => ?_
      rw [second.memory, ← behind.resolve_left (by omega), fill_at _ _ _ within, first.memory,
        fill_outside _ _ _ (by omega), Nat.zero_add]

end Pieces

section Steps

variable {page : Nat} {state : State} {queue : List UInt8} {buffer count : Nat}

/-- The length of the queue. -/
theorem Represents.length (represents : Represents page state queue) : queue.length = state.ring.dataLength :=
  represents.held ▸ contents_length (shown state)

/-- The room of the ring. -/
theorem Represents.free (represents : Represents page state queue) :
    ringFreeLength state.ring = ringSize - queue.length := by
  rw [represents.length]
  exact ringFreeLength_eq represents.sound

/-- A write that has room does what it does to the ring of the pipes. -/
theorem write_shown (represents : Represents page state queue) (usable : Usable state.ring (.write buffer count))
    (room : count ≤ ringSize - queue.length) :
    (perform state (.write buffer count)).result = some count ∧
    (perform state (.write buffer count)).ring.buffer = page ∧
    Pipe.ringWrite (shown state) (slice state.memory buffer count) =
      some (shown (perform state (.write buffer count)).state) ∧
    Copied state.memory page ringSize buffer count (perform state (.write buffer count)).machine := by
  have free : ringFreeLength state.ring = ringSize - queue.length := represents.free
  obtain ⟨rfl, fits, sound, held⟩ := represents
  have stop : state.ring.writeIndex = (state.ring.readIndex + state.ring.dataLength) % ringSize := sound.stop
  have inRing : state.ring.writeIndex < ringSize := stop ▸ Nat.mod_lt _ (by decide)
  have small : count ≤ ringSize := Nat.le_trans room (Nat.sub_le _ _)
  have half : sub ringSize state.ring.writeIndex = ringSize - state.ring.writeIndex :=
    sub_of_le _ _ (Nat.le_of_lt inRing) (by decide)
  have short : ¬ count > ringFreeLength state.ring := Nat.not_lt_of_le (free ▸ room)
  have same : Pipe.ringFreeLength (shown state) = ringFreeLength state.ring := rfl
  obtain ⟨placed, copied⟩ := @written state.memory state.ring.buffer buffer state.ring.writeIndex count fits inRing
    small (usable.apart small)
  rw [placeAround] at placed
  rw [perform, ringWrite, if_neg short]
  refine ⟨rfl, rfl, ?_, copied⟩
  rw [Pipe.ringWrite, slice_length, same, if_neg short]
  simp only [shown, Outcome.state, half, slice_length] at placed ⊢
  rw [placed]

/-- A read of what is there returns it and leaves the ring's bytes. -/
theorem read_shown (represents : Represents page state queue) (usable : Usable state.ring (.read buffer count))
    (present : count ≤ queue.length) :
    (perform state (.read buffer count)).result = some count ∧
    (perform state (.read buffer count)).ring.buffer = page ∧
    Pipe.ringRead (shown state) count = some (slice (perform state (.read buffer count)).machine.memory buffer count,
      { shown (perform state (.read buffer count)).state with buffer := (shown state).buffer }) ∧
    Copied state.memory buffer count page ringSize (perform state (.read buffer count)).machine := by
  have length := represents.length
  obtain ⟨rfl, fits, sound, held⟩ := represents
  have inRing : state.ring.readIndex < ringSize := sound.start
  have full : state.ring.dataLength ≤ ringSize := sound.short
  have small : count ≤ ringSize := by omega
  have half : sub ringSize state.ring.readIndex = ringSize - state.ring.readIndex :=
    sub_of_le _ _ (Nat.le_of_lt inRing) (by decide)
  have enough : ¬ count > ringDataLength state.ring := by
    rw [ringDataLength]
    omega
  obtain ⟨sliced, copied⟩ := @read state.memory state.ring.buffer buffer state.ring.readIndex count fits inRing
    small (usable.apart small)
  rw [sliceAround] at sliced
  rw [perform, ringRead, if_neg enough]
  refine ⟨rfl, rfl, ?_, copied⟩
  have same : Pipe.ringDataLength (shown state) = ringDataLength state.ring := rfl
  rw [Pipe.ringRead, same, if_neg enough]
  simp only [shown, Outcome.state, half] at sliced ⊢
  rw [sliced]
  split_ifs with direct
  · rfl
  · rw [sub_of_le count _ (Nat.le_of_not_lt direct) (Nat.lt_of_le_of_lt small (by decide))]

end Steps

section Results

/-- The bytes that a call hands to its caller. -/
def Call.returned (memory : Memory) : Call → List UInt8
  | .write _ _ => []
  | .read buffer count => slice memory buffer count

/-- A write reads the caller's buffer and changes the ring, and a read the other way. -/
def Touches (page : Nat) (memory : Memory) (machine : Machine) : Call → Prop
  | .write buffer count => Copied memory page ringSize buffer count machine
  | .read buffer count => Copied memory buffer count page ringSize machine

/-- A call fails and changes nothing, or does what it does to the queue. -/
structure Refines (page : Nat) (state : State) (queue : List UInt8) (call : Call) : Prop where
  fails : answer state.memory queue call = none →
    (perform state call).result = none ∧ (perform state call).state = state
  serves : ∀ bytes rest, answer state.memory queue call = some (bytes, rest) →
    (perform state call).result = some call.count ∧
    call.returned (perform state call).machine.memory = bytes ∧ Represents page (perform state call).state rest
  touches : Touches page state.memory (perform state call).machine call

variable {page : Nat} {state : State} {queue : List UInt8}

/-- Every write does what it does to the queue. -/
theorem write_refines (represents : Represents page state queue) {buffer count : Nat}
    (usable : Usable state.ring (.write buffer count)) : Refines page state queue (.write buffer count) := by
  rcases Nat.lt_or_ge (ringSize - queue.length) count with full | room
  · have failed : perform state (.write buffer count) = ⟨none, ⟨state.memory, [], []⟩, state.ring⟩ :=
      if_pos (represents.free ▸ full)
    refine ⟨fun _ => ?_, fun bytes rest served => ?_, ?_⟩
    · rw [failed]
      exact ⟨rfl, rfl⟩
    · rw [answer, if_pos full] at served
      cases served
    · rw [failed]
      exact Copied.start _ _ _ _ _
  · obtain ⟨done, buffer_eq, step, copied⟩ := write_shown represents usable room
    have short : (slice state.memory buffer count).length ≤ Pipe.ringFreeLength (shown state) := by
      rw [slice_length]
      exact Nat.le_trans room (Nat.le_of_eq represents.free.symm)
    obtain ⟨filled, written, sound, appended⟩ := ringWrite_sound represents.sound short
    obtain rfl := Option.some.inj (written.symm.trans step)
    refine ⟨fun failed => ?_, fun bytes rest served => ?_, copied⟩
    · rw [answer, if_neg (Nat.not_lt_of_le room)] at failed
      cases failed
    · rw [answer, if_neg (Nat.not_lt_of_le room)] at served
      cases served
      exact ⟨done, rfl, buffer_eq, represents.fits, sound, appended.trans (by rw [represents.held])⟩

/-- A read is apart from the ring's bytes. -/
theorem Copied.apart {memory : Memory} {dest total src reach : Nat} {machine : Machine}
    (copied : Copied memory dest total src reach machine) {base bound : Nat}
    (apart : dest + total ≤ base ∨ base + bound ≤ dest) :
    ∀ offset < bound, machine.memory (base + offset) = memory (base + offset) :=
  fun _ within => copied.elsewhere _ (by omega)

/-- A ring holds the same queue as long as its bytes are kept. -/
theorem Represents.kept (represents : Represents page state queue) {other : State} (ring : other.ring = state.ring)
    (kept : ∀ offset < ringSize, other.memory (page + offset) = state.memory (page + offset)) :
    Represents page other queue := by
  obtain ⟨memory, ring'⟩ := other
  obtain rfl : ring' = state.ring := ring
  obtain ⟨rfl, fits, sound, held⟩ := represents
  refine ⟨rfl, fits, ⟨sound.start, sound.short, sound.stop⟩, ?_⟩
  rw [← held]
  exact window_congr (by decide) kept _ _

/-- Every read does what it does to the queue. -/
theorem read_refines (represents : Represents page state queue) {buffer count : Nat}
    (usable : Usable state.ring (.read buffer count)) : Refines page state queue (.read buffer count) := by
  rcases Nat.lt_or_ge queue.length count with short | present
  · have failed : perform state (.read buffer count) = ⟨none, ⟨state.memory, [], []⟩, state.ring⟩ :=
      if_pos (lt_of_eq_of_lt represents.length.symm short)
    refine ⟨fun _ => ?_, fun bytes rest served => ?_, ?_⟩
    · rw [failed]
      exact ⟨rfl, rfl⟩
    · rw [answer, if_pos short] at served
      cases served
    · rw [failed]
      exact Copied.start _ _ _ _ _
  · obtain ⟨done, buffer_eq, step, copied⟩ := read_shown represents usable present
    have length := represents.length
    have full : state.ring.dataLength ≤ ringSize := represents.sound.short
    have here := represents.buffer
    obtain ⟨bytes, rest, read, sound, split, amount⟩ := ringRead_sound (shown state) count represents.sound
      (Nat.le_trans present (Nat.le_of_eq length))
    obtain ⟨rfl, rfl⟩ := Prod.mk.inj (Option.some.inj (read.symm.trans step))
    have kept := copied.apart (here ▸ (usable.apart (by change count ≤ ringSize; omega)).2)
    have contents_kept : contents (shown (perform state (.read buffer count)).state) =
        contents { shown (perform state (.read buffer count)).state with buffer := (shown state).buffer } := by
      refine window_congr (by decide) (fun offset within => ?_) _ _
      change (perform state (.read buffer count)).machine.memory
        ((perform state (.read buffer count)).ring.buffer + offset) = state.memory (state.ring.buffer + offset)
      rw [buffer_eq, here]
      exact kept offset within
    refine ⟨fun failed => ?_, fun bytes rest served => ?_, copied⟩
    · rw [answer, if_neg (Nat.not_lt_of_le present)] at failed
      cases failed
    · rw [answer, if_neg (Nat.not_lt_of_le present), ← represents.held, split] at served
      obtain ⟨rfl, rfl⟩ := Prod.mk.inj (Option.some.inj served)
      refine ⟨done, (List.take_left' amount).symm, buffer_eq, represents.fits,
        ⟨sound.start, sound.short, sound.stop⟩, ?_⟩
      rw [contents_kept, List.drop_left' amount]

/-- Every call does what it does to the queue. -/
theorem call_refines (represents : Represents page state queue) {call : Call} (usable : Usable state.ring call) :
    Refines page state queue call := by
  cases call with
  | write buffer count => exact write_refines represents usable
  | read buffer count => exact read_refines represents usable

/-- In every run the ring holds its queue. -/
theorem run_represents (run : Run page state queue) : Represents page state queue := by
  induction run with
  | init memory fits => exact ⟨rfl, fits, (ringInit_sound _).1, (ringInit_sound _).2⟩
  | call earlier call usable ih =>
    have refines := call_refines ih usable
    rw [after]
    cases answered : answer _ _ call with
    | none =>
      rw [(refines.fails answered).2]
      exact ih
    | some served => exact (refines.serves _ _ answered).2.2
  | other earlier memory kept ih =>
    exact ih.kept rfl (ih.buffer ▸ kept)

/-- In every run the ring is a bounded queue of bytes: it holds the queue that its calls have built,
and each further call does what it does to the queue. -/
theorem ring_refines_queue (run : Run page state queue) :
    Represents page state queue ∧ ∀ call, Usable state.ring call → Refines page state queue call :=
  ⟨run_represents run, fun _ usable => call_refines (run_represents run) usable⟩

/-- A ring into which three bytes were written. -/
theorem ring_refines_queue_sample :
    let state := (perform ⟨fun address => UInt8.ofNat address, ringInit 4096⟩ (.write 5 3)).state
    Represents 4096 state [5, 6, 7] ∧ ∀ call, Usable state.ring call → Refines 4096 state [5, 6, 7] call :=
  ring_refines_queue (.call (.init _ (by decide)) (.write 5 3) ⟨by decide, fun _ => by decide⟩)

end Results

end Asym.RingQueue
