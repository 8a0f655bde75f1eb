import Asym.EventRuns
import Asym.NestedMasks

/-!
# Interrupt masking

A model of `cli_push` and `cli_pop` on one processor, under `lock_acquire` and `lock_release` and
under `smp_self` and `smp_put`, after the other processors were started. Every step is one access
to the interrupt flag, to the fields of the processor or to a lock. Whenever interrupts are
enabled a trap can come: it interrupts what runs, and runs such calls itself before it returns.
The other processors change the locks at any time.

Of `rflags` and of `prevFlags` there is the interrupt flag only, which is all that is tested.
Counters do not overflow. Each call has the flag beside it that it found; the code does not have it.
-/

namespace Asym.InterruptMasking

open EventRuns NestedMasks

section Model

/-- `lock_t`. -/
structure Lock where
  nextTicket : BitVec 32
  nowServing : BitVec 32
  deriving DecidableEq, Repr

/-- What is to be undone: `lock_acquire` of a lock by `lock_release`, or `smp_self` by `smp_put`. -/
inductive Kind where
  | lock (lock : Nat)
  | self
  deriving DecidableEq, Repr

/-- A call, and the interrupt flag that it found. -/
structure Call where
  kind : Kind
  found : Bool
  deriving DecidableEq, Repr

/-- What is next to be done: by `cli_push`, by the rest of `lock_acquire`, by `lock_release`, by
`cli_pop`, or by `trap_handler` at its start and after its end. -/
inductive Place where
  | running
  | readFlags (call : Call)
  | disable (call : Call) (rflags : Bool)
  | save (call : Call) (rflags : Bool)
  | count (call : Call)
  | drawTicket (lock : Nat) (found : Bool)
  | spin (lock : Nat) (found : Bool) (ticket : BitVec 32)
  | serveNext (lock : Nat) (found : Bool)
  | check (call : Call)
  | uncount (call : Call)
  | restore (call : Call)
  | enter
  | leave
  deriving DecidableEq, Repr

/-- A thread or a trap: what it has to undo, the last first, and what is next. -/
structure Context where
  held : List Call
  place : Place
  deriving DecidableEq, Repr

/-- The fields of `cpu_t` that are used, and the interrupt flag. -/
structure Cpu where
  interrupts : Bool
  trapDepth : Nat
  prevFlags : Bool
  cliAmount : Nat
  deriving DecidableEq, Repr

/-- The assertions: of `smp_self_unsafe` that interrupts are disabled, and of `cli_pop`. -/
inductive Failure where
  | interruptsEnabled
  | cliAmountUnderflow
  deriving DecidableEq, Repr

/-- A processor, what runs on it, what was interrupted with the flag to return to, the locks, and
the assertion that failed. -/
structure Machine where
  cpu : Cpu
  current : Context
  interrupted : List (Context × Bool)
  locks : Nat → Lock
  failure : Option Failure

/-- What can happen: a call of `lock_acquire` or `smp_self`, the call that undoes the last one, the
end of a trap handler, the next step of what was called, a trap, or a step of other processors. -/
inductive Move where
  | call (kind : Kind)
  | undo
  | finish
  | next
  | trap
  | others (locks : Nat → Lock)

def Machine.go (machine : Machine) (place : Place) : Machine :=
  { machine with current := { machine.current with place := place } }

/-- A function returns that something has to undo. -/
def Machine.obtain (machine : Machine) (call : Call) : Machine :=
  { machine with current := ⟨call :: machine.current.held, .running⟩ }

/-- `smp_self_unsafe`, and what follows it. -/
def Machine.unsafely (machine : Machine) (done : Machine) : Machine :=
  if machine.cpu.interrupts then { machine with failure := some .interruptsEnabled } else done

/-- The next step of what was called. -/
def Machine.next (machine : Machine) : Option Machine :=
  let cpu := machine.cpu
  match machine.current.place with
  | .running => none
  -- `cli_push`
  | .readFlags call => some (machine.go (.disable call cpu.interrupts))
  | .disable call rflags => some { machine.go (.save call rflags) with cpu := { cpu with interrupts := false } }
  | .save call rflags =>
      some (machine.unsafely
        (if cpu.cliAmount = 0 then { machine.go (.count call) with cpu := { cpu with prevFlags := rflags } }
        else machine.go (.count call)))
  | .count call =>
      let counted := { machine with cpu := { cpu with cliAmount := cpu.cliAmount + 1 } }
      match call.kind with
      | .lock lock => some (counted.go (.drawTicket lock call.found))
      | .self => some (counted.obtain call)
  -- `lock_acquire`
  | .drawTicket lock found =>
      let ticket := (machine.locks lock).nextTicket
      some { machine.go (.spin lock found ticket) with
        locks := Function.update machine.locks lock ⟨ticket + 1, (machine.locks lock).nowServing⟩ }
  | .spin lock found ticket =>
      if (machine.locks lock).nowServing = ticket then some (machine.obtain ⟨.lock lock, found⟩) else some machine
  -- `lock_release`
  | .serveNext lock found =>
      some { machine.go (.check ⟨.lock lock, found⟩) with
        locks := Function.update machine.locks lock
          ⟨(machine.locks lock).nextTicket, (machine.locks lock).nowServing + 1⟩ }
  -- `cli_pop`
  | .check call =>
      some (machine.unsafely
        (if cpu.cliAmount = 0 then { machine with failure := some .cliAmountUnderflow }
        else machine.go (.uncount call)))
  | .uncount call => some { machine.go (.restore call) with cpu := { cpu with cliAmount := cpu.cliAmount - 1 } }
  | .restore _ =>
      if cpu.cliAmount = 0 ∧ cpu.prevFlags = true ∧ cpu.trapDepth = 0 then
        some { machine.go .running with cpu := { cpu with interrupts := true } }
      else some (machine.go .running)
  -- `trap_handler`, and the return from the interrupt
  | .enter => some (machine.unsafely { machine.go .running with cpu := { cpu with trapDepth := cpu.trapDepth + 1 } })
  | .leave =>
      match machine.interrupted with
      | [] => none
      | (context, interrupts) :: outer =>
          some { machine with cpu := { cpu with interrupts := interrupts }, current := context, interrupted := outer }

/-- The place where a call is undone. -/
def Call.undo : Call → Place
  | ⟨.lock lock, found⟩ => .serveNext lock found
  | ⟨.self, found⟩ => .check ⟨.self, found⟩

/-- What a move does, if it can happen. -/
def perform (machine : Machine) (move : Move) : Option Machine :=
  match move with
  | .call kind =>
      if machine.current.place = .running then some (machine.go (.readFlags ⟨kind, machine.cpu.interrupts⟩)) else none
  | .undo =>
      match machine.current with
      | ⟨call :: held, .running⟩ => some { machine with current := ⟨held, call.undo⟩ }
      | _ => none
  | .finish =>
      if machine.current = ⟨[], .running⟩ ∧ machine.interrupted ≠ [] then
        some { machine.go .leave with cpu := { machine.cpu with trapDepth := machine.cpu.trapDepth - 1 } }
      else none
  | .next => machine.next
  | .trap =>
      if machine.cpu.interrupts then
        some { machine with
          cpu := { machine.cpu with interrupts := false }
          current := ⟨[], .enter⟩
          interrupted := (machine.current, machine.cpu.interrupts) :: machine.interrupted }
      else none
  | .others locks => some { machine with locks := locks }

/-- A move, unless an assertion has failed. -/
def step (machine : Machine) (move : Move) : Option Machine :=
  if machine.failure.isSome then none else perform machine move

/-- A processor after `cpu_init`, with a thread that has called nothing. -/
def start (interrupts : Bool) (locks : Nat → Lock) : Machine :=
  ⟨⟨interrupts, 0, false, 0⟩, ⟨[], .running⟩, [], locks, none⟩

end Model

section Invariant

/-- The flags that the calls found that are counted, the last call first. -/
def Context.counted (context : Context) : List Bool :=
  match context.place with
  | .drawTicket _ found | .spin _ found _ | .serveNext _ found => found :: context.held.map Call.found
  | .check call | .uncount call => call.found :: context.held.map Call.found
  | _ => context.held.map Call.found

/-- The call that is being made or undone. -/
def Place.call : Place → Option Call
  | .readFlags call | .disable call _ | .save call _ | .count call => some call
  | .check call | .uncount call | .restore call => some call
  | .drawTicket lock found | .spin lock found _ | .serveNext lock found => some ⟨.lock lock, found⟩
  | .running | .enter | .leave => none

/-- A context that runs with interrupts enabled. It has nothing to undo, and has at most started
to push. -/
def Context.Enabled (context : Context) : Prop :=
  context.held = [] ∧
    match context.place with
    | .running => True
    | .readFlags call => call.found = true
    | .disable call rflags => call.found = true ∧ rflags = true
    | _ => False

/-- Between reading the flags and counting the call, the flag is what the call found. Between
the two accesses of `cli_pop`, the flag that was found is the one that it is going to restore. -/
def Machine.Doing (machine : Machine) : Prop :=
  match machine.current.place with
  | .readFlags call => call.found = machine.cpu.interrupts
  | .disable call rflags => call.found = machine.cpu.interrupts ∧ rflags = machine.cpu.interrupts
  | .save call rflags => rflags = call.found ∧ (machine.current.counted ≠ [] → call.found = false)
  | .count call =>
      (Mask.mk (machine.cpu.cliAmount + 1) machine.cpu.prevFlags).Holds (call.found :: machine.current.counted)
  | .restore call => call.found = (decide (machine.cpu.cliAmount = 0) && machine.cpu.prevFlags)
  | .enter | .leave => machine.current.held = [] ∧ machine.interrupted ≠ []
  | _ => True

/-- The depth of traps. A handler has not counted itself at its start, and no longer after its
end. -/
def Machine.depth (machine : Machine) : Nat :=
  match machine.current.place with
  | .enter | .leave => machine.interrupted.length - 1
  | _ => machine.interrupted.length

/-- The flags that calls found are what the counter and the slot stand for. With interrupts
enabled nothing is to be undone, and a thread runs. A trap has interrupted a thread that ran with
interrupts enabled, and only a thread has a call that found them so. -/
structure Sound (machine : Machine) : Prop where
  calm : machine.failure = none
  mask : (Mask.mk machine.cpu.cliAmount machine.cpu.prevFlags).Holds machine.current.counted
  enabled : machine.cpu.interrupts = true → machine.current.Enabled ∧ machine.interrupted = []
  doing : machine.Doing
  outer : machine.interrupted = [] ∨ ∃ thread : Context, machine.interrupted = [(thread, true)] ∧ thread.Enabled
  thread : machine.interrupted ≠ [] → (∀ call ∈ machine.current.held, call.found = false) ∧
    ∀ call, machine.current.place.call = some call → call.found = false
  depth : machine.cpu.trapDepth = machine.depth

/-- A processor is sound at its start. -/
theorem start_sound (interrupts : Bool) (locks : Nat → Lock) : Sound (start interrupts locks) where
  calm := rfl
  mask := holds_nil false
  enabled _ := ⟨⟨rfl, trivial⟩, rfl⟩
  doing := trivial
  outer := Or.inl rfl
  thread some_ := absurd rfl some_
  depth := rfl

variable {machine : Machine}

/-- With interrupts enabled nothing is counted. -/
theorem Context.Enabled.counted {context : Context} (enabled : context.Enabled) : context.counted = [] := by
  obtain ⟨held, place⟩ := context
  obtain ⟨none_, at_⟩ := enabled
  cases place <;> first | exact congrArg (List.map Call.found) none_ | exact absurd at_ not_false

/-- In places where interrupts are never enabled they are disabled. -/
theorem Sound.disabled (sound : Sound machine) (never : ¬ machine.current.Enabled) : machine.cpu.interrupts = false :=
  Bool.eq_false_iff.mpr fun on => never (sound.enabled on).1

/-- The assertion of `smp_self_unsafe` holds where interrupts are never enabled. -/
theorem Sound.unsafely (sound : Sound machine) (never : ¬ machine.current.Enabled) (done : Machine) :
    machine.unsafely done = done := by
  simp only [Machine.unsafely, sound.disabled never, Bool.false_eq_true, if_false]

end Invariant

section Steps

variable {machine : Machine} {call : Call} {rflags found : Bool} {lock : Nat} {ticket : BitVec 32}

/-- `cli_push` reads the flags. A trap that comes now leaves them as they are. -/
theorem Sound.readFlags (sound : Sound machine) (here : machine.current.place = .readFlags call) :
    Sound (machine.go (.disable call machine.cpu.interrupts)) := by
  obtain ⟨cpu, ⟨held, place⟩, interrupted, locks, failure⟩ := machine
  obtain rfl : place = _ := here
  refine ⟨sound.calm, sound.mask, ?_, ⟨sound.doing, rfl⟩, sound.outer, sound.thread, sound.depth⟩
  intro on
  obtain ⟨⟨none_, found⟩, alone⟩ := sound.enabled on
  exact ⟨⟨none_, found, on⟩, alone⟩

/-- `cli_push` disables interrupts. Inside of another call they are disabled already. -/
theorem Sound.disable (sound : Sound machine) (here : machine.current.place = .disable call rflags) :
    Sound { machine.go (.save call rflags) with cpu := { machine.cpu with interrupts := false } } := by
  obtain ⟨cpu, ⟨held, place⟩, interrupted, locks, failure⟩ := machine
  obtain rfl : place = _ := here
  obtain ⟨found, read⟩ := sound.doing
  refine ⟨sound.calm, sound.mask, fun on => absurd on Bool.false_ne_true, ⟨read.trans found.symm, ?_⟩, sound.outer,
    sound.thread, sound.depth⟩
  intro some_
  exact found.trans (Bool.eq_false_iff.mpr fun on => some_ (sound.enabled on).1.counted)

/-- `cli_push` saves the flags for the outermost call. -/
theorem Sound.save (sound : Sound machine) (here : machine.current.place = .save call rflags) :
    Sound { machine.go (.count call) with cpu := { machine.cpu with
      prevFlags := if machine.cpu.cliAmount = 0 then rflags else machine.cpu.prevFlags } } := by
  obtain ⟨cpu, ⟨held, place⟩, interrupted, locks, failure⟩ := machine
  obtain rfl : place = _ := here
  obtain ⟨read, cleared⟩ := sound.doing
  have off := sound.disabled fun enabled => enabled.2
  refine ⟨sound.calm, ?_, fun on => absurd (off.symm.trans on) Bool.false_ne_true, ?_, sound.outer, sound.thread,
    sound.depth⟩
  · by_cases none_ : cpu.cliAmount = 0
    · have empty := sound.mask.count_eq_zero.mp none_
      exact ⟨sound.mask.1, fun some_ => absurd empty some_⟩
    · simp only [Machine.go, if_neg none_]
      exact sound.mask
  · rw [read]
    exact sound.mask.push cleared

/-- `cli_push` counts the call, and the lock is still to be taken. -/
theorem Sound.count (sound : Sound machine) (here : machine.current.place = .count call) :
    Sound { machine.go (.drawTicket lock call.found) with
      cpu := { machine.cpu with cliAmount := machine.cpu.cliAmount + 1 } } ∧
      Sound { machine with
        cpu := { machine.cpu with cliAmount := machine.cpu.cliAmount + 1 }
        current := ⟨call :: machine.current.held, .running⟩ } := by
  obtain ⟨cpu, ⟨held, place⟩, interrupted, locks, failure⟩ := machine
  obtain rfl : place = _ := here
  have off := sound.disabled fun enabled => enabled.2
  constructor
  · refine ⟨sound.calm, sound.doing, fun on => absurd (off.symm.trans on) Bool.false_ne_true, trivial, sound.outer, ?_,
      sound.depth⟩
    intro trap
    obtain ⟨held, this⟩ := sound.thread trap
    exact ⟨held, fun other same => Option.some.inj same ▸ this call rfl⟩
  · refine ⟨sound.calm, sound.doing, fun on => absurd (off.symm.trans on) Bool.false_ne_true, trivial, sound.outer, ?_,
      sound.depth⟩
    intro trap
    obtain ⟨held, this⟩ := sound.thread trap
    exact ⟨List.forall_mem_cons.mpr ⟨this call rfl, held⟩, fun other none_ => absurd none_ (Option.some_ne_none _).symm⟩

/-- With interrupts disabled, a step to another place that counts the same calls. -/
theorem Sound.turn (sound : Sound machine) (never : ¬ machine.current.Enabled) {place : Place} (locks : Nat → Lock)
    (counted : (Context.mk machine.current.held place).counted = machine.current.counted)
    (call : place.call = machine.current.place.call) (doing : (machine.go place).Doing)
    (depth : (machine.go place).depth = machine.depth) : Sound { machine.go place with locks := locks } where
  calm := sound.calm
  mask := by simpa only [Machine.go, counted] using sound.mask
  enabled on := absurd ((sound.disabled never).symm.trans on) Bool.false_ne_true
  doing := doing
  outer := sound.outer
  thread trap := ⟨(sound.thread trap).1, fun other same => (sound.thread trap).2 other (call.symm.trans same)⟩
  depth := sound.depth.trans depth.symm

/-- `lock_acquire` draws a ticket. -/
theorem Sound.drawTicket (sound : Sound machine) (here : machine.current.place = .drawTicket lock found)
    (locks : Nat → Lock) : Sound { machine.go (.spin lock found ticket) with locks := locks } := by
  obtain ⟨cpu, ⟨held, place⟩, interrupted, before, failure⟩ := machine
  obtain rfl : place = _ := here
  exact sound.turn (fun enabled => enabled.2) locks rfl rfl trivial rfl

/-- `lock_acquire` returns. -/
theorem Sound.spin (sound : Sound machine) (here : machine.current.place = .spin lock found ticket) :
    Sound (machine.obtain ⟨.lock lock, found⟩) := by
  obtain ⟨cpu, ⟨held, place⟩, interrupted, locks, failure⟩ := machine
  obtain rfl : place = _ := here
  have off := sound.disabled fun enabled => enabled.2
  refine ⟨sound.calm, sound.mask, fun on => absurd (off.symm.trans on) Bool.false_ne_true, trivial, sound.outer, ?_,
    sound.depth⟩
  intro trap
  obtain ⟨held, this⟩ := sound.thread trap
  exact ⟨List.forall_mem_cons.mpr ⟨this _ rfl, held⟩, fun other none_ => absurd none_ (Option.some_ne_none _).symm⟩

/-- `lock_release` serves the next ticket. -/
theorem Sound.serveNext (sound : Sound machine) (here : machine.current.place = .serveNext lock found)
    (locks : Nat → Lock) : Sound { machine.go (.check ⟨.lock lock, found⟩) with locks := locks } := by
  obtain ⟨cpu, ⟨held, place⟩, interrupted, before, failure⟩ := machine
  obtain rfl : place = _ := here
  exact sound.turn (fun enabled => enabled.2) locks rfl rfl trivial rfl

/-- The assertion of `cli_pop` holds. -/
theorem Sound.check (sound : Sound machine) (here : machine.current.place = .check call) :
    machine.cpu.cliAmount ≠ 0 ∧ Sound (machine.go (.uncount call)) := by
  obtain ⟨cpu, ⟨held, place⟩, interrupted, locks, failure⟩ := machine
  obtain rfl : place = _ := here
  exact ⟨sound.mask.pop.1, @Sound.turn _ sound (fun enabled => enabled.2) (.uncount call) locks rfl rfl trivial rfl⟩

/-- `cli_pop` takes the call from the counter. -/
theorem Sound.uncount (sound : Sound machine) (here : machine.current.place = .uncount call) :
    Sound { machine.go (.restore call) with
      cpu := { machine.cpu with cliAmount := machine.cpu.cliAmount - 1 } } := by
  obtain ⟨cpu, ⟨held, place⟩, interrupted, locks, failure⟩ := machine
  obtain rfl : place = _ := here
  have off := sound.disabled fun enabled => enabled.2
  exact ⟨sound.calm, sound.mask.pop.2.1, fun on => absurd (off.symm.trans on) Bool.false_ne_true, sound.mask.pop.2.2,
    sound.outer, sound.thread, sound.depth⟩

/-- `cli_pop` enables interrupts exactly if the call found them enabled. Such a call is the
outermost one, of a thread. -/
theorem Sound.restore_iff (sound : Sound machine) (here : machine.current.place = .restore call) :
    machine.cpu.cliAmount = 0 ∧ machine.cpu.prevFlags = true ∧ machine.cpu.trapDepth = 0 ↔ call.found = true := by
  obtain ⟨cpu, ⟨held, place⟩, interrupted, locks, failure⟩ := machine
  obtain rfl : place = _ := here
  have restored : call.found = (decide (cpu.cliAmount = 0) && cpu.prevFlags) := sound.doing
  rw [restored, Bool.and_eq_true, decide_eq_true_eq]
  refine ⟨fun ⟨none_, saved, _⟩ => ⟨none_, saved⟩, fun ⟨none_, saved⟩ => ⟨none_, saved, ?_⟩⟩
  have thread : interrupted = [] := by
    by_contra trap
    have cleared := (sound.thread trap).2 call rfl
    rw [restored, none_, saved] at cleared
    exact Bool.noConfusion cleared
  exact sound.depth.trans (congrArg List.length thread)

/-- `cli_pop` returns with the flag that the call found. -/
theorem Sound.restore (sound : Sound machine) (here : machine.current.place = .restore call) :
    Sound { machine.go .running with cpu := { machine.cpu with interrupts := call.found } } := by
  obtain ⟨cpu, ⟨held, place⟩, interrupted, locks, failure⟩ := machine
  obtain rfl : place = _ := here
  refine ⟨sound.calm, sound.mask, ?_, trivial, sound.outer, ?_, sound.depth⟩
  · intro on
    obtain ⟨none_, _, _⟩ := (sound.restore_iff rfl).mpr on
    have empty := sound.mask.count_eq_zero.mp none_
    refine ⟨⟨List.map_eq_nil_iff.mp empty, trivial⟩, ?_⟩
    by_contra trap
    exact Bool.false_ne_true (((sound.thread trap).2 call rfl).symm.trans on)
  · intro trap
    exact ⟨(sound.thread trap).1, fun other none_ => absurd none_ (Option.some_ne_none _).symm⟩

/-- The last step of `cli_pop` leaves the flag that the call found. -/
theorem Sound.next_restore (sound : Sound machine) (here : machine.current.place = .restore call) :
    machine.next = some { machine.go .running with cpu := { machine.cpu with interrupts := call.found } } := by
  have off := sound.disabled fun enabled => by simpa only [here] using enabled.2
  have restores := sound.restore_iff here
  simp only [Machine.next, here]
  split
  · rename_i restored
    rw [restores.mp restored]
  · rename_i kept
    rw [Bool.eq_false_iff.mpr (mt restores.mpr kept), ← off]
    rfl

/-- `trap_handler` counts itself. -/
theorem Sound.enter (sound : Sound machine) (here : machine.current.place = .enter) :
    Sound { machine.go .running with cpu := { machine.cpu with trapDepth := machine.cpu.trapDepth + 1 } } := by
  obtain ⟨cpu, ⟨held, place⟩, interrupted, locks, failure⟩ := machine
  obtain rfl : place = _ := here
  have off := sound.disabled fun enabled => enabled.2
  have depth : cpu.trapDepth = interrupted.length - 1 := sound.depth
  have trap : 0 < interrupted.length := List.length_pos_iff.mpr sound.doing.2
  exact ⟨sound.calm, sound.mask, fun on => absurd (off.symm.trans on) Bool.false_ne_true, trivial, sound.outer,
    sound.thread, show cpu.trapDepth + 1 = interrupted.length by omega⟩

/-- A trap returns to the thread that it has interrupted, which goes on as before. -/
theorem Sound.leave (sound : Sound machine) (here : machine.current.place = .leave) :
    ∃ thread, machine.interrupted = [(thread, true)] ∧
      Sound { machine with
        cpu := { machine.cpu with interrupts := true }
        current := thread
        interrupted := [] } := by
  obtain ⟨cpu, ⟨held, place⟩, interrupted, locks, failure⟩ := machine
  obtain rfl : place = _ := here
  obtain ⟨none_, trap⟩ := sound.doing
  obtain ⟨thread, rfl, enabled⟩ := sound.outer.resolve_left trap
  have empty : (Context.mk held .leave).counted = [] := congrArg (List.map Call.found) none_
  have mask := sound.mask
  rw [empty, ← enabled.counted] at mask
  have depth : cpu.trapDepth = 0 := sound.depth
  refine ⟨thread, rfl, sound.calm, mask, fun _ => ⟨enabled, rfl⟩, ?_, Or.inl rfl, fun trap => absurd rfl trap, ?_⟩
  · obtain ⟨held, place⟩ := thread
    obtain ⟨_, here⟩ := enabled
    cases place <;> first | exact here | exact absurd here not_false
  · obtain ⟨held, place⟩ := thread
    cases place <;> exact depth

/-- What runs calls a function. -/
theorem Sound.calls (sound : Sound machine) (here : machine.current.place = .running) (kind : Kind) :
    Sound (machine.go (.readFlags ⟨kind, machine.cpu.interrupts⟩)) := by
  obtain ⟨cpu, ⟨held, place⟩, interrupted, locks, failure⟩ := machine
  obtain rfl : place = _ := here
  refine ⟨sound.calm, sound.mask, ?_, rfl, sound.outer, ?_, sound.depth⟩
  · intro on
    obtain ⟨⟨none_, _⟩, alone⟩ := sound.enabled on
    exact ⟨⟨none_, on⟩, alone⟩
  · intro trap
    refine ⟨(sound.thread trap).1, fun other same => ?_⟩
    rw [← Option.some.inj same]
    exact Bool.eq_false_iff.mpr fun on => trap (sound.enabled on).2

/-- What runs undoes the last call that it has to undo. -/
theorem Sound.undo (sound : Sound machine) {held : List Call} (here : machine.current = ⟨call :: held, .running⟩) :
    Sound { machine with current := ⟨held, call.undo⟩ } := by
  obtain ⟨cpu, current, interrupted, locks, failure⟩ := machine
  obtain rfl : current = _ := here
  have off := sound.disabled fun enabled => List.cons_ne_nil _ _ enabled.1
  have thread : interrupted ≠ [] → (∀ other ∈ held, other.found = false) ∧ ∀ other, some call = some other →
      other.found = false := by
    intro trap
    obtain ⟨this, others⟩ := List.forall_mem_cons.mp (sound.thread trap).1
    exact ⟨others, fun other same => Option.some.inj same ▸ this⟩
  obtain ⟨kind, found⟩ := call
  cases kind <;> exact ⟨sound.calm, sound.mask, fun on => absurd (off.symm.trans on) Bool.false_ne_true, trivial,
    sound.outer, thread, sound.depth⟩

/-- A trap handler ends. It has undone all that it called. -/
theorem Sound.finish (sound : Sound machine) (here : machine.current = ⟨[], .running⟩)
    (trap : machine.interrupted ≠ []) :
    Sound { machine.go .leave with cpu := { machine.cpu with trapDepth := machine.cpu.trapDepth - 1 } } := by
  obtain ⟨cpu, current, interrupted, locks, failure⟩ := machine
  obtain rfl : current = _ := here
  have off : cpu.interrupts = false := Bool.eq_false_iff.mpr fun on => trap (sound.enabled on).2
  exact ⟨sound.calm, sound.mask, fun on => absurd (off.symm.trans on) Bool.false_ne_true, ⟨rfl, trap⟩, sound.outer,
    sound.thread, congrArg (· - 1) sound.depth⟩

/-- A trap comes to a thread that has nothing to undo. -/
theorem Sound.trap (sound : Sound machine) (on : machine.cpu.interrupts = true) :
    Sound { machine with
      cpu := { machine.cpu with interrupts := false }
      current := ⟨[], .enter⟩
      interrupted := (machine.current, machine.cpu.interrupts) :: machine.interrupted } := by
  obtain ⟨enabled, alone⟩ := sound.enabled on
  have mask := sound.mask
  rw [enabled.counted] at mask
  have depth : machine.cpu.trapDepth = 0 := by
    have counted := sound.depth
    simp only [Machine.depth, alone, List.length_nil, Nat.zero_sub] at counted
    split at counted <;> exact counted
  refine ⟨sound.calm, mask, fun on => absurd on Bool.false_ne_true, ⟨rfl, List.cons_ne_nil _ _⟩, ?_, ?_, ?_⟩
  · exact Or.inr ⟨machine.current, by rw [on, alone], enabled⟩
  · intro _
    exact ⟨fun _ member => absurd member List.not_mem_nil, fun _ none_ => absurd none_ (Option.some_ne_none _).symm⟩
  · simp only [Machine.depth, alone, List.length_singleton, Nat.sub_self]
    exact depth

/-- The next step of what was called keeps a processor sound. The cases are the places. -/
theorem Sound.next {after : Machine} (sound : Sound machine) (taken : machine.next = some after) : Sound after := by
  cases here : machine.current.place with
  | running => simp only [Machine.next, here, reduceCtorEq] at taken
  | readFlags call =>
    simp only [Machine.next, here, Option.some.injEq] at taken
    exact taken ▸ sound.readFlags here
  | disable call rflags =>
    simp only [Machine.next, here, Option.some.injEq] at taken
    exact taken ▸ sound.disable here
  | save call rflags =>
    have never : ¬ machine.current.Enabled := fun enabled => by simpa only [here] using enabled.2
    simp only [Machine.next, here, sound.unsafely never, Option.some.injEq] at taken
    have saved := sound.save here
    by_cases none_ : machine.cpu.cliAmount = 0
    · simp only [if_pos none_] at taken saved
      exact taken ▸ saved
    · simp only [if_neg none_] at taken saved
      exact taken ▸ saved
  | count call =>
    obtain ⟨kind, found⟩ := call
    cases kind with
    | lock lock =>
      simp only [Machine.next, here, Option.some.injEq] at taken
      exact taken ▸ (sound.count here).1
    | self =>
      simp only [Machine.next, here, Option.some.injEq] at taken
      exact taken ▸ (@Sound.count _ _ 0 sound here).2
  | drawTicket lock found =>
    simp only [Machine.next, here, Option.some.injEq] at taken
    exact taken ▸ sound.drawTicket here _
  | spin lock found ticket =>
    simp only [Machine.next, here] at taken
    split at taken
    · exact Option.some.inj taken ▸ sound.spin here
    · exact Option.some.inj taken ▸ sound
  | serveNext lock found =>
    simp only [Machine.next, here, Option.some.injEq] at taken
    exact taken ▸ sound.serveNext here _
  | check call =>
    have never : ¬ machine.current.Enabled := fun enabled => by simpa only [here] using enabled.2
    obtain ⟨some_, checked⟩ := sound.check here
    simp only [Machine.next, here, sound.unsafely never, if_neg some_, Option.some.injEq] at taken
    exact taken ▸ checked
  | uncount call =>
    simp only [Machine.next, here, Option.some.injEq] at taken
    exact taken ▸ sound.uncount here
  | restore call =>
    rw [sound.next_restore here] at taken
    exact Option.some.inj taken ▸ sound.restore here
  | enter =>
    have never : ¬ machine.current.Enabled := fun enabled => by simpa only [here] using enabled.2
    simp only [Machine.next, here, sound.unsafely never, Option.some.injEq] at taken
    exact taken ▸ sound.enter here
  | leave =>
    obtain ⟨thread, interrupted, returned⟩ := sound.leave here
    simp only [Machine.next, here, interrupted, Option.some.injEq] at taken
    exact taken ▸ returned

end Steps

section Runs

/-- Without a failed assertion moves are performed. -/
theorem step_of_calm {machine : Machine} (calm : machine.failure = none) (move : Move) :
    step machine move = perform machine move := by
  rw [step, calm]
  rfl

/-- A move keeps a processor sound. -/
theorem Sound.step {machine after : Machine} {move : Move} (sound : Sound machine)
    (taken : step machine move = some after) : Sound after := by
  rw [step_of_calm sound.calm] at taken
  cases move with
  | call kind =>
    obtain ⟨here, made⟩ := Option.ite_none_right_eq_some.mp taken
    exact Option.some.inj made ▸ sound.calls here kind
  | undo =>
    simp only [perform] at taken
    split at taken
    · rename_i call held here
      exact Option.some.inj taken ▸ sound.undo here
    · cases taken
  | finish =>
    obtain ⟨⟨here, trap⟩, made⟩ := Option.ite_none_right_eq_some.mp taken
    exact Option.some.inj made ▸ sound.finish here trap
  | next => exact sound.next taken
  | trap =>
    obtain ⟨on, made⟩ := Option.ite_none_right_eq_some.mp taken
    exact Option.some.inj made ▸ sound.trap on
  | others locks =>
    obtain rfl := Option.some.inj taken
    exact ⟨sound.calm, sound.mask, sound.enabled, sound.doing, sound.outer, sound.thread, sound.depth⟩

/-- A processor is sound after every run. -/
theorem run_sound_of_start {interrupts : Bool} {locks : Nat → Lock} {moves : List Move} {machine : Machine}
    (reached : run step (start interrupts locks) moves = some machine) : Sound machine :=
  run_sound (start_sound interrupts locks) (fun _ _ _ sound taken => sound.step taken) moves machine reached

/-- After every run of calls, of undone calls and of traps, interrupts are disabled while a call is
counted, no assertion has failed, and the last step of undoing a call leaves the flag that
it found. -/
theorem masking_nests (interrupts : Bool) (locks : Nat → Lock) (moves : List Move) (machine : Machine)
    (reached : run step (start interrupts locks) moves = some machine) :
    (0 < machine.cpu.cliAmount → machine.cpu.interrupts = false) ∧ machine.failure = none ∧
      ∀ call, machine.current.place = .restore call →
        ∃ after, step machine .next = some after ∧ after.current = ⟨machine.current.held, .running⟩ ∧
          after.cpu.interrupts = call.found := by
  have sound := run_sound_of_start reached
  refine ⟨?_, sound.calm, ?_⟩
  · intro some_
    apply Bool.eq_false_iff.mpr
    intro on
    exact Nat.ne_of_gt some_ (sound.mask.count_eq_zero.mpr (sound.enabled on).1.counted)
  · intro call here
    exact ⟨_, (step_of_calm sound.calm .next).trans (sound.next_restore here), rfl, rfl⟩

/-- A trap comes between the two first steps of `cli_push`, and takes a lock itself. -/
def interruptedPush : List Move :=
  [.call .self, .next, .trap, .next, .call (.lock 0), .next, .next, .next, .next, .next, .next, .undo, .next, .next,
    .next, .next, .finish, .next, .next, .next, .next, .undo, .next, .next]

/-- A thread with interrupts enabled has them enabled again after a push that a trap has
interrupted. -/
theorem masking_nests_sample :
    ∃ machine, run step (start true fun _ => ⟨0, 0⟩) interruptedPush = some machine ∧
      machine.current = ⟨[], .restore ⟨.self, true⟩⟩ ∧ machine.cpu.interrupts = false ∧
      ∃ after, step machine .next = some after ∧ after.current = ⟨[], .running⟩ ∧ after.cpu.interrupts = true := by
  obtain ⟨machine, reached, here, off⟩ : ∃ machine,
      run step (start true fun _ => ⟨0, 0⟩) interruptedPush = some machine ∧
        machine.current = ⟨[], .restore ⟨.self, true⟩⟩ ∧ machine.cpu.interrupts = false := ⟨_, rfl, rfl, rfl⟩
  obtain ⟨_, _, restores⟩ := masking_nests true (fun _ => ⟨0, 0⟩) interruptedPush machine reached
  have returned := restores ⟨.self, true⟩ (congrArg Context.place here)
  rw [here] at returned
  exact ⟨machine, reached, here, off, returned⟩

end Runs

end Asym.InterruptMasking
