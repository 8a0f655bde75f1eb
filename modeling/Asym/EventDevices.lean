import Asym.EventRuns
import Mathlib.Data.List.Infix
import Mathlib.Data.Nat.ModEq
import Mathlib.Logic.Function.Basic
import Mathlib.Tactic.Common

/-!
# Devices that keep their last events

A device stores its events in a ring and never waits for those who read them. Each file has a
position of its own in the ring. It has something to read as long as it is not where the device
stores next.

A device may overtake a file. What the file has not read is then overwritten, and the file is
behind by whole laps of the ring without knowing it. What it delivers is still in order: between
two events that it delivers, it lost a multiple of the number of slots, or nothing. A file that
is never overtaken loses nothing.
-/

namespace Asym.EventDevices

open EventRuns

universe u
variable {Item : Type u}

/-! ## Rings -/

/-- A ring of slots, and where the next item is stored. -/
structure EventRing (Item : Type u) where
  events : Nat → Item
  writeIndex : Nat

/-- An item goes into the next slot. -/
def EventRing.store (bound : Nat) (ring : EventRing Item) (item : Item) : EventRing Item where
  events := Function.update ring.events ring.writeIndex item
  writeIndex := (ring.writeIndex + 1) % bound

/-- The item at a position of the ring, and the position after it, if there is one to read. -/
def EventRing.next (bound : Nat) (ring : EventRing Item) (position : Nat) : Option (Item × Nat) :=
  if position ≠ ring.writeIndex then some (ring.events position, (position + 1) % bound) else none

/-- The number of items between a position and the next slot. -/
def EventRing.behind (bound : Nat) (ring : EventRing Item) (position : Nat) : Nat :=
  (ring.writeIndex + bound - position) % bound

/-- A ring has the last items that were stored. -/
structure EventRing.Holds (bound : Nat) (ring : EventRing Item) (stored : List Item) : Prop where
  writeIndex : ring.writeIndex = stored.length % bound
  events : ∀ index item, stored.length ≤ index + bound → stored[index]? = some item →
    ring.events (index % bound) = item

/-- Nothing was stored in a new ring. -/
theorem EventRing.holds_nil {bound : Nat} {ring : EventRing Item} (new : ring.writeIndex = 0) :
    ring.Holds bound [] := by
  refine ⟨by simp [new], ?_⟩
  intro index item _ inside
  exact absurd inside (by simp)

/-- An item that is stored overwrites the one that is a lap older. -/
theorem EventRing.Holds.store {bound : Nat} {ring : EventRing Item} {stored : List Item}
    (holds : ring.Holds bound stored) (item : Item) :
    (ring.store bound item).Holds bound (stored ++ [item]) := by
  constructor
  · rw [EventRing.store, holds.writeIndex, List.length_append, List.length_singleton, Nat.mod_add_mod]
  · intro index other recent inside
    rw [List.length_append, List.length_singleton] at recent
    change Function.update ring.events ring.writeIndex item (index % bound) = other
    rw [holds.writeIndex]
    rcases Nat.lt_trichotomy index stored.length with before | last | beyond
    · rw [List.getElem?_append_left before] at inside
      have apart : index % bound ≠ stored.length % bound := by
        intro same
        have lap := (Nat.modEq_iff_dvd' (Nat.le_of_lt before)).mp same
        have least := Nat.le_of_dvd (by omega) lap
        omega
      rw [Function.update_of_ne apart]
      exact holds.events index other (by omega) inside
    · subst last
      rw [List.getElem?_concat_length, Option.some.injEq] at inside
      rw [Function.update_self, inside]
    · rw [List.getElem?_eq_none (by simp; omega)] at inside
      exact absurd inside (by simp)

/-! ## Laps -/

/-- Some of the stored items were delivered, in their order, and the last ones are unread. What
is neither was lost, in whole laps. -/
inductive Skips (bound : Nat) (stored : List Item) : List Item → List Item → Prop
  | start : Skips bound stored [] stored
  | next {delivered unread : List Item} {item : Item} :
      Skips bound stored delivered (item :: unread) → Skips bound stored (delivered ++ [item]) unread
  | lap {delivered lost unread : List Item} : lost.length = bound →
      Skips bound stored delivered (lost ++ unread) → Skips bound stored delivered unread

variable {bound : Nat} {stored delivered unread : List Item}

/-- What is delivered and unread was stored, in this order. -/
theorem Skips.sublist (skips : Skips bound stored delivered unread) : (delivered ++ unread).Sublist stored := by
  induction skips with
  | start => exact List.Sublist.refl _
  | next _ ih => simpa using ih
  | lap _ _ ih =>
    exact ((List.sublist_append_right _ _).append_left _).trans ih

/-- The unread items end what is stored. -/
theorem Skips.unread_le (skips : Skips bound stored delivered unread) : unread.length ≤ stored.length := by
  have fewer := skips.sublist.length_le
  rw [List.length_append] at fewer
  omega

/-- A stored item is unread. -/
theorem Skips.snoc (skips : Skips bound stored delivered unread) (item : Item) :
    Skips bound (stored ++ [item]) delivered (unread ++ [item]) := by
  induction skips with
  | start => exact .start
  | next _ ih => exact .next ih
  | lap whole _ ih =>
    rw [List.append_assoc] at ih
    exact .lap whole ih

/-- Laps of unread items can be lost. -/
theorem Skips.laps (skips : Skips bound stored delivered unread) (count : Nat)
    (inside : count * bound ≤ unread.length) : Skips bound stored delivered (unread.drop (count * bound)) := by
  induction count with
  | zero => simpa using skips
  | succ count ih =>
    rw [Nat.succ_mul] at inside ⊢
    have before := ih (by omega)
    rw [← List.take_append_drop bound (unread.drop (count * bound)), List.drop_drop] at before
    exact .lap (by rw [List.length_take, List.length_drop]; omega) before

/-- The items before the unread ones are those that were read or lost. -/
theorem Skips.drop (skips : Skips bound stored delivered unread) :
    unread = stored.drop (stored.length - unread.length) := by
  induction skips with
  | start => simp
  | @next delivered unread item earlier ih =>
    have shorter := earlier.unread_le
    rw [List.length_cons] at ih shorter
    have split := congrArg List.tail ih
    rw [List.tail_cons, List.tail_drop] at split
    rw [show stored.length - unread.length = stored.length - (unread.length + 1) + 1 by omega]
    exact split
  | @lap delivered lost unread whole earlier ih =>
    have shorter := earlier.unread_le
    rw [List.length_append] at ih shorter
    have split := congrArg (List.drop lost.length) ih
    rw [List.drop_left, List.drop_drop] at split
    rw [show stored.length - unread.length = stored.length - (lost.length + unread.length) + lost.length by omega]
    exact split

/-- The position of a file in the ring of a device. -/
structure Placed (bound : Nat) (stored delivered : List Item) (position : Nat) (unread : List Item) : Prop where
  skips : Skips bound stored delivered unread
  position : position = (stored.length - unread.length) % bound

/-- A file that is opened begins with the first slot, as if all was unread. -/
theorem placed_start : Placed bound stored [] 0 stored :=
  ⟨.start, by simp⟩

/-- One more item is stored. -/
theorem Placed.store {position : Nat} (placed : Placed bound stored delivered position unread) (item : Item) :
    Placed bound (stored ++ [item]) delivered position (unread ++ [item]) := by
  refine ⟨placed.skips.snoc item, ?_⟩
  rw [placed.position, List.length_append, List.length_append, Nat.add_sub_add_right]

/-- A file has something to read unless the number of its unread items is a number of laps. -/
theorem Placed.next_none {ring : EventRing Item} {position : Nat}
    (holds : ring.Holds bound stored) (placed : Placed bound stored delivered position unread) :
    ring.next bound position = none ↔ unread.length % bound = 0 := by
  have shorter := placed.skips.unread_le
  rw [EventRing.next, ite_not, ite_eq_left_iff, holds.writeIndex, placed.position]
  simp only [reduceCtorEq, imp_false, not_not]
  constructor
  · intro same
    have lap := (Nat.modEq_iff_dvd' (Nat.sub_le _ _)).mp same
    rw [Nat.sub_sub_self shorter] at lap
    exact Nat.mod_eq_zero_of_dvd lap
  · intro whole
    refine (Nat.modEq_iff_dvd' (Nat.sub_le _ _)).mpr ?_
    rw [Nat.sub_sub_self shorter]
    exact Nat.dvd_of_mod_eq_zero whole

/-- What a file reads is the first item of the last lap of those that it has not read. -/
theorem Placed.next_some {ring : EventRing Item} {position after : Nat} {item : Item} (positive : 0 < bound)
    (holds : ring.Holds bound stored) (placed : Placed bound stored delivered position unread)
    (read : ring.next bound position = some (item, after)) :
    ∃ rest, unread.drop (unread.length / bound * bound) = item :: rest ∧
      Placed bound stored (delivered ++ [item]) after rest := by
  have shorter := placed.skips.unread_le
  have some_ : unread.length % bound ≠ 0 := by
    intro whole
    rw [(placed.next_none holds).mpr whole] at read
    exact absurd read (by simp)
  have laps : unread.length / bound * bound + unread.length % bound = unread.length := Nat.div_add_mod' _ _
  have rest := Nat.mod_lt unread.length positive
  have caught := placed.skips.laps (unread.length / bound) (by omega)
  have start := caught.drop
  rw [List.length_drop, show unread.length - unread.length / bound * bound = unread.length % bound by omega]
    at start
  cases held : unread.drop (unread.length / bound * bound) with
  | nil =>
    have empty := congrArg List.length held
    rw [List.length_drop, List.length_nil] at empty
    omega
  | cons first later =>
    have length : later.length + 1 = unread.length % bound := by
      have same := congrArg List.length held
      rw [List.length_drop, List.length_cons] at same
      omega
    have inStored : stored[stored.length - unread.length % bound]? = some first := by
      rw [← List.head?_drop, ← start, held, List.head?_cons]
    have slot : (stored.length - unread.length % bound) % bound = position := by
      rw [placed.position]
      refine ((Nat.modEq_iff_dvd' (by omega)).mpr ?_).symm
      exact ⟨unread.length / bound, by rw [Nat.mul_comm]; omega⟩
    have found := holds.events _ first (by omega) inStored
    rw [slot] at found
    rw [EventRing.next] at read
    split_ifs at read
    obtain ⟨rfl, rfl⟩ := Prod.mk.inj (Option.some.inj read)
    rw [found]
    rw [held] at caught
    refine ⟨later, rfl, .next caught, ?_⟩
    rw [← slot, Nat.mod_add_mod, show stored.length - unread.length % bound + 1 = stored.length - later.length by omega]

/-- The number of unread items of a file that is less than a lap behind shows in the ring. -/
theorem Placed.behind {ring : EventRing Item} {position : Nat} (holds : ring.Holds bound stored)
    (placed : Placed bound stored delivered position unread) (inLap : unread.length < bound) :
    ring.behind bound position = unread.length := by
  have shorter := placed.skips.unread_le
  have read : position < bound := by
    rw [placed.position]
    exact Nat.mod_lt _ (by omega)
  have sum : (position + unread.length) % bound = stored.length % bound := by
    rw [placed.position, Nat.mod_add_mod, Nat.sub_add_cancel shorter]
  rw [EventRing.behind, holds.writeIndex, ← sum]
  rcases Nat.lt_or_ge (position + unread.length) bound with within | beyond
  · rw [Nat.mod_eq_of_lt within, show position + unread.length + bound - position = unread.length + bound by omega,
      Nat.add_mod_right, Nat.mod_eq_of_lt inLap]
  · rw [Nat.mod_eq_sub_mod beyond, Nat.mod_eq_of_lt (by omega : position + unread.length - bound < bound),
      show position + unread.length - bound + bound - position = unread.length by omega, Nat.mod_eq_of_lt inLap]

/-! ## Devices and their files -/

/-- A device with a ring of events: what an input does to it, and which event it stores. -/
structure Device where
  State : Type
  Input : Type
  Item : Type
  bound : Nat
  size : Nat
  ring : State → EventRing Item
  accept : State → Input → State
  stored : State → Input → Option Item
  ring_accept : ∀ state input, ring (accept state input) =
    (stored state input).elim (ring state) ((ring state).store bound)

/-- A call of the read function of a device: its file, the number of bytes rounded down to whole
events, and what it has read. -/
structure Call (Item : Type u) where
  file : Nat
  count : Nat
  buffer : List Item
deriving DecidableEq, Repr

/-- A device, the positions of the open files and the calls of the tasks that read. The rest is
history: the events that were stored, those that each file delivered, what was stored when a
file was opened, and the calls that returned with the numbers of bytes that they returned. -/
structure Session (device : Device) where
  state : device.State
  position : Nat → Option Nat
  calls : Nat → Option (Call device.Item)
  stored : List device.Item
  delivered : Nat → List device.Item
  opened : Nat → Nat
  returned : List (Call device.Item × Nat)

/-- What can happen to a session. A call reads one event at a time, under the lock. -/
inductive Event (device : Device) where
  | input (input : device.Input)
  | opens (file : Nat)
  | reads (task file count : Nat)
  | takes (task : Nat)
  | finishes (task : Nat)
  | givesUp (task : Nat)

variable {device : Device}

/-- A new device, without files. -/
def Session.new (state : device.State) : Session device where
  state
  position := fun _ => none
  calls := fun _ => none
  stored := []
  delivered := fun _ => []
  opened := fun _ => 0
  returned := []

/-- An input of the device. -/
def Session.input (session : Session device) (input : device.Input) : Session device :=
  { session with
    state := device.accept session.state input
    stored := session.stored ++ (device.stored session.state input).toList }

/-- A new file has the position 0. -/
def Session.opens (session : Session device) (file : Nat) : Option (Session device) :=
  if session.position file = none then
    some { session with
      position := Function.update session.position file (some 0)
      opened := Function.update session.opened file session.stored.length }
  else none

/-- A task calls the read function. -/
def Session.reads (session : Session device) (task file count : Nat) : Option (Session device) :=
  if session.calls task = none ∧ session.position file ≠ none then
    some { session with
      calls := Function.update session.calls task (some ⟨file, count / device.size * device.size, []⟩) }
  else none

/-- One turn of the loop of the read function: it waits for an event at the position of the file,
copies it and moves the position. -/
def Session.takes (session : Session device) (task : Nat) : Option (Session device) :=
  (session.calls task).bind fun call =>
    (session.position call.file).bind fun position =>
      if call.buffer.length < call.count / device.size then
        ((device.ring session.state).next device.bound position).map fun read =>
          { session with
            position := Function.update session.position call.file (some read.2)
            calls := Function.update session.calls task (some { call with buffer := call.buffer ++ [read.1] })
            delivered := Function.update session.delivered call.file (session.delivered call.file ++ [read.1]) }
      else none

/-- The end of the loop: the call returns the number of bytes. -/
def Session.finishes (session : Session device) (task : Nat) : Option (Session device) :=
  (session.calls task).bind fun call =>
    if call.buffer.length < call.count / device.size then none
    else some { session with
      calls := Function.update session.calls task none
      returned := session.returned ++ [(call, call.count)] }

/-- The wait for an event ends without one: the call returns what it has. -/
def Session.givesUp (session : Session device) (task : Nat) : Option (Session device) :=
  (session.calls task).bind fun call =>
    (session.position call.file).bind fun position =>
      if call.buffer.length < call.count / device.size ∧
          (device.ring session.state).next device.bound position = none then
        some { session with
          calls := Function.update session.calls task none
          returned := session.returned ++ [(call, call.buffer.length * device.size)] }
      else none

/-- One event of a session. -/
def step (session : Session device) : Event device → Option (Session device)
  | .input input => some (session.input input)
  | .opens file => session.opens file
  | .reads task file count => session.reads task file count
  | .takes task => session.takes task
  | .finishes task => session.finishes task
  | .givesUp task => session.givesUp task

/-! ## Runs -/

/-- A call has read some of the events that its file delivered, in their order. -/
structure CallSound (size : Nat) (position : Nat → Option Nat) (delivered : Nat → List Item) (call : Call Item) :
    Prop where
  opened : position call.file ≠ none
  sublist : call.buffer.Sublist (delivered call.file)
  room : call.buffer.length ≤ call.count / size
  whole : call.count / size * size = call.count

/-- A call returned the number of bytes that it read. -/
structure ReturnSound (size : Nat) (position : Nat → Option Nat) (delivered : Nat → List Item)
    (result : Call Item × Nat) : Prop where
  call : CallSound size position delivered result.1
  bytes : result.2 = result.1.buffer.length * size

/-- What holds in every session: the ring has the last events, each file delivered events that
were stored, in their order, and lost whole laps. -/
structure Sound (session : Session device) : Prop where
  holds : (device.ring session.state).Holds device.bound session.stored
  closed : ∀ file, session.position file = none → session.delivered file = []
  placed : ∀ file position, session.position file = some position →
    ∃ unread, Placed device.bound session.stored (session.delivered file) position unread
  calls : ∀ task call, session.calls task = some call →
    CallSound device.size session.position session.delivered call
  returned : ∀ result ∈ session.returned, ReturnSound device.size session.position session.delivered result

/-- Files stay open and deliver more. -/
structure Grows (position positionAfter : Nat → Option Nat) (delivered deliveredAfter : Nat → List Item) : Prop where
  opened : ∀ file, position file ≠ none → positionAfter file ≠ none
  more : ∀ file, (delivered file).Sublist (deliveredAfter file)

variable {position positionAfter : Nat → Option Nat} {past future : Nat → List Item} {size : Nat}

/-- A call stays sound while its file stays open and delivers more. -/
theorem CallSound.grow {call : Call Item} (sound : CallSound size position past call)
    (grows : Grows position positionAfter past future) : CallSound size positionAfter future call :=
  ⟨grows.opened _ sound.opened, sound.sublist.trans (grows.more _), sound.room, sound.whole⟩

/-- What was returned stays sound. -/
theorem ReturnSound.grow {result : Call Item × Nat} (sound : ReturnSound size position past result)
    (grows : Grows position positionAfter past future) : ReturnSound size positionAfter future result :=
  ⟨sound.call.grow grows, sound.bytes⟩

/-- A position that is set opens a file, or keeps it open. -/
theorem grows_set (file place : Nat) {position : Nat → Option Nat} {past future : Nat → List Item}
    (more : ∀ file, (past file).Sublist (future file)) :
    Grows position (Function.update position file (some place)) past future := by
  refine ⟨?_, more⟩
  intro other opened
  by_cases same : other = file
  · rw [same, Function.update_self]
    exact Option.some_ne_none place
  · rw [Function.update_of_ne same]
    exact opened

/-- A new session is sound. -/
theorem sound_new {state : device.State} (new : (device.ring state).writeIndex = 0) :
    Sound (Session.new state) where
  holds := EventRing.holds_nil new
  closed _ _ := rfl
  placed _ _ opened := by simp [Session.new] at opened
  calls _ _ made := by simp [Session.new] at made
  returned _ inside := by simp [Session.new] at inside

/-- An input stores an event or none. -/
theorem Sound.input {session : Session device} (sound : Sound session) (input : device.Input) :
    Sound (session.input input) := by
  have ring := device.ring_accept session.state input
  refine ⟨?_, sound.closed, ?_, sound.calls, sound.returned⟩
  · cases shape : device.stored session.state input with
    | none => simpa [Session.input, ring, shape] using sound.holds
    | some item => simpa [Session.input, ring, shape] using sound.holds.store item
  · intro file position opened
    obtain ⟨unread, placed⟩ := sound.placed file position opened
    cases shape : device.stored session.state input with
    | none => exact ⟨unread, by simpa [Session.input, shape] using placed⟩
    | some item => exact ⟨unread ++ [item], by simpa [Session.input, shape] using placed.store item⟩

/-- A file that is opened has delivered nothing. -/
theorem Sound.opens {session next : Session device} (sound : Sound session) {file : Nat}
    (taken : session.opens file = some next) : Sound next := by
  rw [Session.opens] at taken
  split_ifs at taken with closed
  obtain rfl := Option.some.inj taken
  have grows : Grows session.position (Function.update session.position file (some 0)) session.delivered
      session.delivered := grows_set file 0 fun _ => List.Sublist.refl _
  refine ⟨sound.holds, ?_, ?_, fun task call made => (sound.calls task call made).grow grows,
    fun result inside => (sound.returned result inside).grow grows⟩
  · intro other still
    by_cases same : other = file
    · rw [same]
      exact sound.closed file closed
    · refine sound.closed other ?_
      simpa only [Function.update_of_ne same] using still
  · intro other position opened
    by_cases same : other = file
    · subst same
      simp only [Function.update_self, Option.some.injEq] at opened
      subst opened
      exact ⟨session.stored, by simpa only [sound.closed other closed] using placed_start⟩
    · simp only [Function.update_of_ne same] at opened
      exact sound.placed other position opened

/-- A call begins with nothing read. -/
theorem Sound.reads {session next : Session device} (sound : Sound session) {task file count : Nat}
    (taken : session.reads task file count = some next) : Sound next := by
  rw [Session.reads] at taken
  split_ifs at taken with free
  obtain rfl := Option.some.inj taken
  refine ⟨sound.holds, sound.closed, sound.placed, ?_, sound.returned⟩
  intro other call made
  by_cases same : other = task
  · simp only [same, Function.update_self, Option.some.injEq] at made
    subst made
    exact ⟨free.2, List.nil_sublist _, Nat.zero_le _, Nat.div_mul_cancel (Nat.dvd_mul_left _ _)⟩
  · simp only [Function.update_of_ne same] at made
    exact sound.calls other call made

/-- What a turn of the loop changes. -/
theorem takes_cases {session next : Session device} {task : Nat} (taken : session.takes task = some next) :
    ∃ call position item after, session.calls task = some call ∧ session.position call.file = some position ∧
      call.buffer.length < call.count / device.size ∧
      (device.ring session.state).next device.bound position = some (item, after) ∧
      next = { session with
        position := Function.update session.position call.file (some after)
        calls := Function.update session.calls task (some { call with buffer := call.buffer ++ [item] })
        delivered := Function.update session.delivered call.file (session.delivered call.file ++ [item]) } := by
  obtain ⟨call, made, rest⟩ := Option.bind_eq_some_iff.mp taken
  obtain ⟨position, opened, turn⟩ := Option.bind_eq_some_iff.mp rest
  split_ifs at turn with room
  obtain ⟨⟨item, after⟩, read, changed⟩ := Option.map_eq_some_iff.mp turn
  exact ⟨call, position, item, after, made, opened, room, read, changed.symm⟩

/-- A turn of the loop delivers the event at the position of the file. -/
theorem Sound.takes {session next : Session device} (positive : 0 < device.bound) (sound : Sound session)
    {task : Nat} (taken : session.takes task = some next) : Sound next := by
  obtain ⟨call, position, item, after, made, opened, room, read, rfl⟩ := takes_cases taken
  obtain ⟨unread, placed⟩ := sound.placed call.file position opened
  obtain ⟨rest, _, placedAfter⟩ := placed.next_some positive sound.holds read
  have ofCall := sound.calls task call made
  have more : ∀ other, (session.delivered other).Sublist
      (Function.update session.delivered call.file (session.delivered call.file ++ [item]) other) := by
    intro other
    by_cases same : other = call.file
    · rw [same, Function.update_self]
      exact List.sublist_append_left _ _
    · rw [Function.update_of_ne same]
  have grows := @grows_set _ call.file after session.position _ _ more
  refine ⟨sound.holds, ?_, ?_, ?_, fun result inside => (sound.returned result inside).grow grows⟩
  · intro other still
    by_cases same : other = call.file
    · simp [same] at still
    · simp only [Function.update_of_ne same] at still ⊢
      exact sound.closed other still
  · intro other place still
    by_cases same : other = call.file
    · simp only [same, Function.update_self, Option.some.injEq] at still ⊢
      subst still
      exact ⟨rest, placedAfter⟩
    · simp only [Function.update_of_ne same] at still ⊢
      exact sound.placed other place still
  · intro other running calling
    by_cases same : other = task
    · simp only [same, Function.update_self, Option.some.injEq] at calling
      subst calling
      refine ⟨grows.opened _ ofCall.opened, ?_, ?_, ofCall.whole⟩
      · simpa only [Function.update_self] using ofCall.sublist.append_right [item]
      · rw [List.length_append, List.length_singleton]
        exact room
    · simp only [Function.update_of_ne same] at calling
      exact (sound.calls other running calling).grow grows

/-- A call that returns has read the bytes that it returns. -/
theorem Sound.leaves {session : Session device} (sound : Sound session) {task : Nat} {call : Call device.Item}
    (made : session.calls task = some call) {bytes : Nat} (read : bytes = call.buffer.length * device.size) :
    Sound { session with
      calls := Function.update session.calls task none
      returned := session.returned ++ [(call, bytes)] } := by
  refine ⟨sound.holds, sound.closed, sound.placed, ?_, ?_⟩
  · intro other running calling
    by_cases same : other = task
    · simp [same] at calling
    · simp only [Function.update_of_ne same] at calling
      exact sound.calls other running calling
  · intro result inside
    rcases List.mem_append.mp inside with before | last
    · exact sound.returned result before
    · rw [List.mem_singleton.mp last]
      exact ⟨sound.calls task call made, read⟩

/-- A call that ends has read what it asked for. -/
theorem Sound.finishes {session next : Session device} (sound : Sound session) {task : Nat}
    (taken : session.finishes task = some next) : Sound next := by
  obtain ⟨call, made, rest⟩ := Option.bind_eq_some_iff.mp taken
  split_ifs at rest with more
  obtain rfl := Option.some.inj rest
  have ofCall := sound.calls task call made
  refine sound.leaves made ?_
  rw [show call.buffer.length = call.count / device.size from Nat.le_antisymm ofCall.room (Nat.le_of_not_lt more)]
  exact ofCall.whole.symm

/-- A call that gives up returns what it has read. -/
theorem Sound.givesUp {session next : Session device} (sound : Sound session) {task : Nat}
    (taken : session.givesUp task = some next) : Sound next := by
  obtain ⟨call, made, rest⟩ := Option.bind_eq_some_iff.mp taken
  obtain ⟨position, _, turn⟩ := Option.bind_eq_some_iff.mp rest
  split_ifs at turn
  obtain rfl := Option.some.inj turn
  exact sound.leaves made rfl

/-- Every step keeps a session sound. -/
theorem Sound.step {session next : Session device} (positive : 0 < device.bound) (sound : Sound session)
    {event : Event device} (taken : step session event = some next) : Sound next := by
  cases event with
  | input input =>
    obtain rfl := Option.some.inj taken
    exact sound.input input
  | opens file => exact sound.opens taken
  | reads task file count => exact sound.reads taken
  | takes task => exact sound.takes positive taken
  | finishes task => exact sound.finishes taken
  | givesUp task => exact sound.givesUp taken

/-- Every session of a new device is sound. -/
theorem run_soundness {state : device.State} (positive : 0 < device.bound)
    (new : (device.ring state).writeIndex = 0) (events : List (Event device)) (session : Session device)
    (reached : run step (Session.new state) events = some session) : Sound session :=
  run_sound (sound_new new) (fun _ _ _ sound taken => sound.step positive taken) events session reached

/-- The inputs among the events of a session. -/
def inputs (events : List (Event device)) : List device.Input :=
  events.filterMap fun event => match event with
    | .input input => some input
    | _ => none

/-- The items that a device stores for inputs in turn. -/
def Device.history (device : Device) : device.State → List device.Input → List device.Item
  | _, [] => []
  | state, input :: later => (device.stored state input).toList ++ device.history (device.accept state input) later

/-- The items of one more input. -/
theorem history_snoc (state : device.State) (earlier : List device.Input) (input : device.Input) :
    device.history state (earlier ++ [input]) = device.history state earlier ++
      (device.stored (earlier.foldl device.accept state) input).toList := by
  induction earlier generalizing state with
  | nil => simp [Device.history]
  | cons first later ih =>
    rw [List.cons_append, Device.history, ih, Device.history, List.append_assoc, List.foldl_cons]

/-- Only inputs change a device, and what is stored comes from them. -/
theorem step_history {session next : Session device} {event : Event device}
    (taken : step session event = some next) :
    next.state = (inputs [event]).foldl device.accept session.state ∧
      next.stored = session.stored ++ device.history session.state (inputs [event]) := by
  cases event with
  | input input =>
    obtain rfl := Option.some.inj taken
    exact ⟨rfl, by simp [Session.input, inputs, Device.history]⟩
  | opens file =>
    simp only [step, Session.opens] at taken
    split_ifs at taken
    obtain rfl := Option.some.inj taken
    exact ⟨rfl, (List.append_nil _).symm⟩
  | reads task file count =>
    simp only [step, Session.reads] at taken
    split_ifs at taken
    obtain rfl := Option.some.inj taken
    exact ⟨rfl, (List.append_nil _).symm⟩
  | takes task =>
    obtain ⟨call, position, item, after, _, _, _, _, rfl⟩ := takes_cases taken
    exact ⟨rfl, (List.append_nil _).symm⟩
  | finishes task =>
    obtain ⟨call, _, rest⟩ := Option.bind_eq_some_iff.mp taken
    split_ifs at rest
    obtain rfl := Option.some.inj rest
    exact ⟨rfl, (List.append_nil _).symm⟩
  | givesUp task =>
    obtain ⟨call, _, rest⟩ := Option.bind_eq_some_iff.mp taken
    obtain ⟨position, _, turn⟩ := Option.bind_eq_some_iff.mp rest
    split_ifs at turn
    obtain rfl := Option.some.inj turn
    exact ⟨rfl, (List.append_nil _).symm⟩

/-- The device and what it stored come from the inputs of a run. -/
theorem run_history {state : device.State} (events : List (Event device)) (session : Session device)
    (reached : run step (Session.new state) events = some session) :
    session.state = (inputs events).foldl device.accept state ∧
      session.stored = device.history state (inputs events) := by
  induction events using List.reverseRecOn generalizing session with
  | nil =>
    obtain rfl := Option.some.inj reached
    exact ⟨rfl, rfl⟩
  | append_singleton earlier event ih =>
    obtain ⟨before, reachedBefore, taken⟩ := (run_snoc earlier event session).mp reached
    obtain ⟨sameState, sameStored⟩ := ih before reachedBefore
    obtain ⟨stateAfter, storedAfter⟩ := step_history taken
    have split : inputs (earlier ++ [event]) = inputs earlier ++ inputs [event] := List.filterMap_append
    rw [split, stateAfter, storedAfter, sameState, sameStored, List.foldl_append]
    refine ⟨rfl, ?_⟩
    cases event with
    | input input =>
      change _ ++ ((device.stored _ input).toList ++ []) = device.history state (inputs earlier ++ [input])
      rw [List.append_nil, history_snoc]
    | _ => exact (List.append_nil _).trans (congrArg _ (List.append_nil _).symm)

/-! ## Files that are never overtaken -/

/-- The device does not overtake a file: an event is stored only if the file is behind by less
than the other slots. -/
def Spares (file : Nat) (session : Session device) : Event device → Prop
  | .input input => device.stored session.state input ≠ none → ∀ position, session.position file = some position →
      (device.ring session.state).behind device.bound position + 1 < device.bound
  | _ => True

/-- The first event that a file can deliver: the one in the first slot when it was opened. -/
def Session.first (session : Session device) (file : Nat) : Nat :=
  session.opened file / device.bound * device.bound

/-- A file lost nothing: the events from its first one on are delivered, up to the unread ones,
of which there are less than slots. -/
def Complete (file : Nat) (session : Session device) : Prop :=
  ∀ position, session.position file = some position → ∃ unread,
    Placed device.bound session.stored (session.delivered file) position unread ∧
      unread.length < device.bound ∧
      session.delivered file ++ unread = session.stored.drop (session.first file) ∧
      session.first file ≤ session.stored.length

/-- An event that is stored in time leaves a file complete. -/
theorem Complete.input {session : Session device} {file : Nat} (sound : Sound session)
    (complete : Complete file session) {input : device.Input} (spares : Spares file session (.input input)) :
    Complete file (session.input input) := by
  intro position opened
  obtain ⟨unread, placed, inLap, split, begun⟩ := complete position opened
  cases shape : device.stored session.state input with
  | none => exact ⟨unread, by simpa [Session.input, shape, Session.first] using ⟨placed, inLap, split, begun⟩⟩
  | some item =>
    have room := spares (by simp [shape]) position opened
    rw [placed.behind sound.holds inLap] at room
    refine ⟨unread ++ [item], ?_, ?_, ?_, ?_⟩
    · simpa [Session.input, shape] using placed.store item
    · rw [List.length_append, List.length_singleton]
      exact room
    · change session.delivered file ++ (unread ++ [item]) =
        (session.stored ++ (device.stored session.state input).toList).drop (session.first file)
      rw [shape, Option.toList_some, List.drop_append_of_le_length begun, ← split, List.append_assoc]
    · change session.first file ≤ (session.stored ++ (device.stored session.state input).toList).length
      rw [List.length_append]
      exact Nat.le_add_right_of_le begun

/-- A file is complete when it is opened. -/
theorem Complete.opens {session next : Session device} {file opening : Nat} (positive : 0 < device.bound)
    (sound : Sound session) (complete : Complete file session) (taken : session.opens opening = some next) :
    Complete file next := by
  rw [Session.opens] at taken
  split_ifs at taken with closed
  obtain rfl := Option.some.inj taken
  intro position opened
  by_cases same : file = opening
  · subst same
    simp only [Function.update_self, Option.some.injEq] at opened
    subst opened
    have laps : session.stored.length / device.bound * device.bound + session.stored.length % device.bound =
        session.stored.length := Nat.div_add_mod' _ _
    have rest := Nat.mod_lt session.stored.length positive
    have started := (@Skips.start _ device.bound session.stored).laps (session.stored.length / device.bound) (by omega)
    refine ⟨session.stored.drop (session.stored.length / device.bound * device.bound), ?_, ?_, ?_, ?_⟩
    · refine ⟨by simpa only [sound.closed file closed] using started, ?_⟩
      rw [List.length_drop, Nat.sub_sub_self (Nat.div_mul_le_self _ _), Nat.mul_mod_left]
    · rw [List.length_drop]
      omega
    · simp [sound.closed file closed, Session.first]
    · simp only [Session.first, Function.update_self]
      exact Nat.div_mul_le_self _ _
  · simp only [Function.update_of_ne same] at opened
    simpa only [Session.first, Function.update_of_ne same] using complete position opened

/-- A file that is not a lap behind delivers its first unread event. -/
theorem Complete.takes {session next : Session device} {file task : Nat} (positive : 0 < device.bound)
    (sound : Sound session) (complete : Complete file session) (taken : session.takes task = some next) :
    Complete file next := by
  obtain ⟨call, position, item, after, made, opened, room, read, rfl⟩ := takes_cases taken
  intro place still
  by_cases same : file = call.file
  · subst same
    simp only [Function.update_self, Option.some.injEq] at still
    subst still
    obtain ⟨unread, placed, inLap, split, begun⟩ := complete position opened
    obtain ⟨rest, first, placedAfter⟩ := placed.next_some positive sound.holds read
    rw [Nat.div_eq_of_lt inLap, Nat.zero_mul, List.drop_zero] at first
    subst first
    rw [List.length_cons] at inLap
    refine ⟨rest, by simpa only [Function.update_self] using placedAfter, by omega, ?_, begun⟩
    change Function.update session.delivered call.file _ call.file ++ rest = session.stored.drop (session.first _)
    rw [Function.update_self, List.append_assoc, List.singleton_append]
    exact split
  · simp only [Function.update_of_ne same] at still ⊢
    exact complete place still

/-- A file that the device does not overtake stays complete. -/
theorem Complete.step {session next : Session device} {file : Nat} (positive : 0 < device.bound)
    (sound : Sound session) (complete : Complete file session) {event : Event device}
    (spares : Spares file session event) (taken : step session event = some next) : Complete file next := by
  cases event with
  | input input =>
    obtain rfl := Option.some.inj taken
    exact complete.input sound spares
  | opens opening => exact complete.opens positive sound taken
  | reads task other count =>
    simp only [EventDevices.step, Session.reads] at taken
    split_ifs at taken
    obtain rfl := Option.some.inj taken
    exact complete
  | takes task => exact complete.takes positive sound taken
  | finishes task =>
    obtain ⟨call, _, rest⟩ := Option.bind_eq_some_iff.mp taken
    split_ifs at rest
    obtain rfl := Option.some.inj rest
    exact complete
  | givesUp task =>
    obtain ⟨call, _, rest⟩ := Option.bind_eq_some_iff.mp taken
    obtain ⟨position, _, turn⟩ := Option.bind_eq_some_iff.mp rest
    split_ifs at turn
    obtain rfl := Option.some.inj turn
    exact complete

/-- A file that is never overtaken is complete in every session. -/
theorem run_complete {state : device.State} (positive : 0 < device.bound)
    (new : (device.ring state).writeIndex = 0) {file : Nat} {events : List (Event device)}
    {session : Session device} (reached : run step (Session.new state) events = some session)
    (spares : Each step (Session.new state) (Spares file) events) : Complete file session := by
  have keeps : ∀ (session : Session device) event next, Sound session ∧ Complete file session →
      Spares file session event → step session event = some next → Sound next ∧ Complete file next := by
    rintro session event next ⟨sound, complete⟩ allowed taken
    exact ⟨sound.step positive taken, complete.step positive sound allowed taken⟩
  have always : Always step (Session.new state) (fun session => Sound session ∧ Complete file session) events :=
    always_of_each ⟨sound_new new, fun _ opened => by simp [Session.new] at opened⟩ keeps events spares
  exact (always events session (List.prefix_refl _) reached).2

end Asym.EventDevices
