import Asym.MachineWords
import Asym.Runs
import Mathlib.Logic.Function.Basic

/-!
# Uptime

A model of `time.c` over the counter of `hpet.c`. The uptime is the sum of an
accumulator and of the counter. `time_accumulate` moves the counter into the
accumulator in three steps, and `time_uptime` reads the two parts in two steps.
The steps of one interrupt handler and of any number of callers interleave, and
the counter advances between them.

Beside the code's variables the state counts the ticks since the start, the
additions to the accumulator and the resets of the counter, and it keeps the
results of `time_uptime` with the results that were there when a call began.
The code has none of these.

The sum of both parts that is certain to stay counted never shrinks. A call that
reads the two parts as they belong together returns this sum.
-/

namespace Asym.Uptime

open MachineWords Runs

/-- Where `time_accumulate` stands: outside, after it has read the counter, or
after it has added what it read to the accumulator. -/
inductive Accumulate where
  | outside
  | read (ticks : Nat)
  | added (ticks : Nat)
  deriving DecidableEq, Repr

/-- Where a caller stands in `time_uptime`: outside, or after it has loaded the
accumulator. With what it loaded stand the number of additions in it and the
results returned by then. -/
inductive Call where
  | outside
  | loaded (accumulated additions : Nat) (earlier : List Nat)
  deriving DecidableEq, Repr

/-- The accumulator, the counter of the timer, the steps the handler and the
callers are at, the ticks since the start, the numbers of additions and resets,
and the results with those returned before their call began. -/
structure State (Caller : Type) where
  accumulator : Nat
  counter : Nat
  handler : Accumulate
  call : Caller → Call
  ticks : Nat
  additions : Nat
  resets : Nat
  results : List (Nat × List Nat)

variable {Caller : Type} [DecidableEq Caller]

/-- The steps of the timer, of `time_accumulate` and of `time_uptime`. -/
inductive Step (nanosecondsPerTick : Nat) : State Caller → State Caller → Prop where
  | advance (state : State Caller) (amount : Nat) :
      Step nanosecondsPerTick state { state with
        counter := add state.counter amount
        ticks := state.ticks + amount }
  | readCounter (state : State Caller) (ready : state.handler = .outside) :
      Step nanosecondsPerTick state { state with handler := .read state.counter }
  | addCounter (state : State Caller) (ticks : Nat) (ready : state.handler = .read ticks) :
      Step nanosecondsPerTick state { state with
        accumulator := add state.accumulator ticks
        handler := .added ticks
        additions := state.additions + 1 }
  | resetCounter (state : State Caller) (ticks : Nat) (ready : state.handler = .added ticks) :
      Step nanosecondsPerTick state { state with
        counter := 0
        handler := .outside
        resets := state.resets + 1 }
  | load (state : State Caller) (caller : Caller) (ready : state.call caller = .outside) :
      Step nanosecondsPerTick state { state with
        call := Function.update state.call caller
          (.loaded state.accumulator state.additions (state.results.map Prod.fst)) }
  | finish (state : State Caller) (caller : Caller) (accumulated additions : Nat) (earlier : List Nat)
      (ready : state.call caller = .loaded accumulated additions earlier) :
      Step nanosecondsPerTick state { state with
        call := Function.update state.call caller .outside
        results := (mul (add accumulated state.counter) nanosecondsPerTick, earlier) :: state.results }

/-- After `hpet_init`: the counter is zero, and nobody is in a call. -/
def Initial (state : State Caller) : Prop :=
  state.accumulator = 0 ∧ state.counter = 0 ∧ state.handler = .outside ∧
    (∀ caller, state.call caller = .outside) ∧ state.ticks = 0 ∧ state.additions = 0 ∧
    state.resets = 0 ∧ state.results = []

/-- No call returned less than a call that had returned before it began. -/
def NeverBackwards (state : State Caller) : Prop :=
  ∀ entry ∈ state.results, ∀ before ∈ entry.2, before ≤ entry.1

/-- The ticks since the start in nanoseconds fit a word. -/
def Fits (nanosecondsPerTick : Nat) (state : State Caller) : Prop :=
  state.ticks < wordSize ∧ state.ticks * nanosecondsPerTick < wordSize

/-- The counter is read as it belongs to the accumulator that was loaded: the
accumulator has as many additions as the counter had resets, and no tick is
going to be missed by a handler that has read the counter. -/
def Consistent (state : State Caller) (additions : Nat) : Prop :=
  additions = state.resets ∧
    match state.handler with
    | .outside => True
    | .read ticks | .added ticks => state.counter = ticks

/-- A step from and to states with an uptime that fits, where a call that ends
reads consistently. -/
def ConsistentStep (nanosecondsPerTick : Nat) (before after : State Caller) : Prop :=
  Step nanosecondsPerTick before after ∧ Fits nanosecondsPerTick after ∧
    ∀ caller accumulated additions earlier, before.call caller = .loaded accumulated additions earlier →
      after.call caller = .outside → Consistent before additions

/-- The ticks that are certain to stay counted. -/
def certain (state : State Caller) : Nat :=
  match state.handler with
  | .outside => state.accumulator + state.counter
  | .read ticks => state.accumulator + ticks
  | .added _ => state.accumulator

/-- The two parts together do not exceed the ticks since the start, what the
handler has read included once, and every addition but one in progress was
followed by a reset. -/
def Balanced (state : State Caller) : Prop :=
  match state.handler with
  | .outside => state.accumulator + state.counter ≤ state.ticks ∧ state.additions = state.resets
  | .read ticks => ticks ≤ state.counter ∧ state.accumulator + state.counter ≤ state.ticks ∧
      state.additions = state.resets
  | .added ticks => ticks ≤ state.counter ∧ ticks ≤ state.accumulator ∧
      state.accumulator + state.counter ≤ state.ticks + ticks ∧ state.additions = state.resets + 1

/-- What a loaded accumulator tells: it is still the accumulator, or it is the
accumulator before the last addition. -/
def Dated (state : State Caller) (accumulated additions : Nat) : Prop :=
  additions ≤ state.additions ∧ (additions = state.additions → accumulated = state.accumulator) ∧
    ∀ ticks, state.handler = .added ticks → additions + 1 = state.additions →
      accumulated + ticks = state.accumulator

/-- The invariant. Results are at most what is certain, and so is what a call has
to exceed. -/
structure Counted (nanosecondsPerTick : Nat) (state : State Caller) : Prop where
  fits : Fits nanosecondsPerTick state
  balanced : Balanced state
  returned : ∀ entry ∈ state.results, entry.1 ≤ certain state * nanosecondsPerTick
  dated : ∀ caller accumulated additions earlier,
    state.call caller = .loaded accumulated additions earlier → Dated state accumulated additions
  earlier : ∀ caller accumulated additions earlier,
    state.call caller = .loaded accumulated additions earlier →
      ∀ before ∈ earlier, before ≤ certain state * nanosecondsPerTick
  ordered : NeverBackwards state

omit [DecidableEq Caller] in
/-- What is certain has passed. -/
theorem certain_le (state : State Caller) (balanced : Balanced state) : certain state ≤ state.ticks := by
  cases handler : state.handler with
  | outside =>
    simp only [Balanced, certain, handler] at balanced ⊢
    exact balanced.1
  | read ticks =>
    simp only [Balanced, certain, handler] at balanced ⊢
    omega
  | added ticks =>
    simp only [Balanced, certain, handler] at balanced ⊢
    omega

omit [DecidableEq Caller] in
/-- A consistent read gives what is certain. -/
theorem consistent_eq {state : State Caller} {accumulated additions : Nat} (balanced : Balanced state)
    (dated : Dated state accumulated additions) (consistent : Consistent state additions) :
    accumulated + state.counter = certain state := by
  obtain ⟨-, current, previous⟩ := dated
  obtain ⟨same, unmissed⟩ := consistent
  cases handler : state.handler with
  | outside =>
    simp only [Balanced, certain, handler] at balanced ⊢
    rw [current (by omega)]
  | read ticks =>
    simp only [Balanced, certain, handler] at balanced unmissed ⊢
    rw [current (by omega), unmissed]
  | added ticks =>
    simp only [Balanced, certain, handler] at balanced unmissed ⊢
    rw [unmissed]
    exact previous ticks handler (by omega)

omit [DecidableEq Caller] in
/-- A step of the timer or the handler, which changes no call and no result, keeps
the invariant if nothing that is certain is lost. -/
theorem counted_of_clock {nanosecondsPerTick : Nat} {before after : State Caller}
    (counted : Counted nanosecondsPerTick before) (fits : Fits nanosecondsPerTick after)
    (balanced : Balanced after) (sameCalls : after.call = before.call)
    (sameResults : after.results = before.results) (grows : certain before ≤ certain after)
    (dated : ∀ accumulated additions, Dated before accumulated additions →
      Dated after accumulated additions) : Counted nanosecondsPerTick after := by
  have more : certain before * nanosecondsPerTick ≤ certain after * nanosecondsPerTick :=
    Nat.mul_le_mul_right _ grows
  constructor
  · exact fits
  · exact balanced
  · intro entry member
    rw [sameResults] at member
    exact Nat.le_trans (counted.returned entry member) more
  · intro caller accumulated additions earlier loaded
    rw [sameCalls] at loaded
    exact dated accumulated additions (counted.dated caller accumulated additions earlier loaded)
  · intro caller accumulated additions earlier loaded result member
    rw [sameCalls] at loaded
    exact Nat.le_trans (counted.earlier caller accumulated additions earlier loaded result member) more
  · rw [NeverBackwards, sameResults]
    exact counted.ordered

omit [DecidableEq Caller] in
/-- The counter advances. -/
theorem advance_counted {nanosecondsPerTick : Nat} {state : State Caller} {amount : Nat}
    (counted : Counted nanosecondsPerTick state)
    (fits : Fits nanosecondsPerTick { state with
      counter := add state.counter amount, ticks := state.ticks + amount }) :
    Counted nanosecondsPerTick { state with
      counter := add state.counter amount, ticks := state.ticks + amount } := by
  have balanced := counted.balanced
  have small := fits.1
  have sum : add state.counter amount = state.counter + amount := by
    apply add_of_lt
    cases handler : state.handler <;> simp only [Balanced, handler] at balanced small <;> omega
  rw [sum] at fits ⊢
  refine counted_of_clock counted fits ?_ rfl rfl ?_ fun _ _ dated => dated
  · cases handler : state.handler <;> simp only [Balanced, handler] at balanced ⊢ <;> omega
  · cases handler : state.handler <;> simp only [certain, handler] <;> omega

omit [DecidableEq Caller] in
/-- The handler reads the counter. -/
theorem readCounter_counted {nanosecondsPerTick : Nat} {state : State Caller}
    (counted : Counted nanosecondsPerTick state) (ready : state.handler = .outside) :
    Counted nanosecondsPerTick { state with handler := .read state.counter } := by
  have balanced := counted.balanced
  simp only [Balanced, ready] at balanced
  refine counted_of_clock counted counted.fits ?_ rfl rfl ?_ ?_
  · exact ⟨Nat.le_refl _, balanced⟩
  · simp only [certain, ready]
    exact Nat.le_refl _
  · rintro accumulated additions ⟨bounded, current, -⟩
    refine ⟨bounded, current, ?_⟩
    intro ticks impossible
    contradiction

omit [DecidableEq Caller] in
/-- The handler adds what it has read. -/
theorem addCounter_counted {nanosecondsPerTick : Nat} {state : State Caller} {ticks : Nat}
    (counted : Counted nanosecondsPerTick state) (ready : state.handler = .read ticks) :
    Counted nanosecondsPerTick { state with
      accumulator := add state.accumulator ticks
      handler := .added ticks
      additions := state.additions + 1 } := by
  have balanced := counted.balanced
  have small := counted.fits.1
  simp only [Balanced, ready] at balanced
  have sum : add state.accumulator ticks = state.accumulator + ticks := add_of_lt _ _ (by omega)
  rw [sum]
  refine counted_of_clock counted counted.fits ?_ rfl rfl ?_ ?_
  · simp only [Balanced]
    omega
  · simp only [certain, ready]
    exact Nat.le_refl _
  · rintro accumulated additions ⟨bounded, current, -⟩
    refine ⟨Nat.le_succ_of_le bounded, ?_, ?_⟩
    · intro same
      simp only at same
      omega
    · rintro found same last
      obtain rfl := Accumulate.added.inj same
      simp only at last ⊢
      rw [current (by omega)]

omit [DecidableEq Caller] in
/-- The handler resets the counter. -/
theorem resetCounter_counted {nanosecondsPerTick : Nat} {state : State Caller} {ticks : Nat}
    (counted : Counted nanosecondsPerTick state) (ready : state.handler = .added ticks) :
    Counted nanosecondsPerTick { state with
      counter := 0
      handler := .outside
      resets := state.resets + 1 } := by
  have balanced := counted.balanced
  simp only [Balanced, ready] at balanced
  refine counted_of_clock counted counted.fits ?_ rfl rfl ?_ ?_
  · simp only [Balanced]
    omega
  · simp only [certain, ready]
    exact Nat.le_refl _
  · rintro accumulated additions ⟨bounded, current, -⟩
    refine ⟨bounded, current, ?_⟩
    intro found impossible
    contradiction

/-- A caller loads the accumulator. -/
theorem load_counted {nanosecondsPerTick : Nat} {state : State Caller} (caller : Caller)
    (counted : Counted nanosecondsPerTick state) :
    Counted nanosecondsPerTick { state with
      call := Function.update state.call caller
        (.loaded state.accumulator state.additions (state.results.map Prod.fst)) } := by
  refine ⟨counted.fits, counted.balanced, counted.returned, ?_, ?_, counted.ordered⟩
  · intro tested accumulated additions earlier loaded
    by_cases same : tested = caller
    · subst same
      simp only [Function.update_self, Call.loaded.injEq] at loaded
      obtain ⟨rfl, rfl, -⟩ := loaded
      refine ⟨Nat.le_refl _, fun _ => rfl, ?_⟩
      intro ticks _ impossible
      simp only at impossible
      omega
    · simp only [Function.update_of_ne same] at loaded
      exact counted.dated tested accumulated additions earlier loaded
  · intro tested accumulated additions earlier loaded result member
    by_cases same : tested = caller
    · subst same
      simp only [Function.update_self, Call.loaded.injEq] at loaded
      obtain ⟨-, -, rfl⟩ := loaded
      obtain ⟨entry, inside, rfl⟩ := List.mem_map.mp member
      exact counted.returned entry inside
    · simp only [Function.update_of_ne same] at loaded
      exact counted.earlier tested accumulated additions earlier loaded result member

/-- A call that reads consistently returns what is certain. -/
theorem finish_counted {nanosecondsPerTick : Nat} {state : State Caller} {caller : Caller}
    {accumulated additions : Nat} {earlier : List Nat} (counted : Counted nanosecondsPerTick state)
    (ready : state.call caller = .loaded accumulated additions earlier)
    (consistent : Consistent state additions) :
    Counted nanosecondsPerTick { state with
      call := Function.update state.call caller .outside
      results := (mul (add accumulated state.counter) nanosecondsPerTick, earlier) :: state.results } := by
  have sum := consistent_eq counted.balanced
    (counted.dated caller accumulated additions earlier ready) consistent
  have passed := certain_le state counted.balanced
  have small := Nat.lt_of_le_of_lt (Nat.mul_le_mul_right nanosecondsPerTick passed) counted.fits.2
  have result : mul (add accumulated state.counter) nanosecondsPerTick =
      certain state * nanosecondsPerTick := by
    rw [add_of_lt _ _ (sum ▸ Nat.lt_of_le_of_lt passed counted.fits.1), sum, mul,
      Nat.mod_eq_of_lt small]
  rw [result]
  refine ⟨counted.fits, counted.balanced, ?_, ?_, ?_, ?_⟩
  · intro entry member
    rcases List.mem_cons.mp member with rfl | before
    · exact Nat.le_refl _
    · exact counted.returned entry before
  · intro tested loadedTicks loadedAdditions before loaded
    by_cases same : tested = caller
    · subst same
      simp at loaded
    · simp only [Function.update_of_ne same] at loaded
      exact counted.dated tested loadedTicks loadedAdditions before loaded
  · intro tested loadedTicks loadedAdditions before loaded
    by_cases same : tested = caller
    · subst same
      simp at loaded
    · simp only [Function.update_of_ne same] at loaded
      exact counted.earlier tested loadedTicks loadedAdditions before loaded
  · intro entry member
    rcases List.mem_cons.mp member with rfl | before
    · exact counted.earlier caller accumulated additions earlier ready
    · exact counted.ordered entry before

/-- Every consistent step keeps the invariant. -/
theorem step_counted (nanosecondsPerTick : Nat) (before after : State Caller)
    (counted : Counted nanosecondsPerTick before)
    (taken : ConsistentStep nanosecondsPerTick before after) : Counted nanosecondsPerTick after := by
  obtain ⟨step, fits, consistent⟩ := taken
  cases step with
  | advance amount => exact advance_counted counted fits
  | readCounter ready => exact readCounter_counted counted ready
  | addCounter ticks ready => exact addCounter_counted counted ready
  | resetCounter ticks ready => exact resetCounter_counted counted ready
  | load caller ready => exact load_counted caller counted
  | finish caller accumulated additions earlier ready =>
    have reads := consistent caller accumulated additions earlier ready (by simp)
    exact finish_counted counted ready reads

/-- In every run in which the counter is always read as it belongs to the loaded
accumulator, and the uptime fits a word, the uptime never goes backwards.

Proof: every result is at most the ticks that are certain, and a later call returns at least these. -/
theorem consistent_uptime_never_backwards (nanosecondsPerTick : Nat) (state : State Caller)
    (reached : Reachable Initial (ConsistentStep nanosecondsPerTick) state) : NeverBackwards state := by
  have established : ∀ start : State Caller, Initial start → Counted nanosecondsPerTick start := by
    rintro start ⟨accumulator, counter, handler, calls, ticks, additions, resets, results⟩
    refine ⟨?_, ?_, ?_, ?_, ?_, ?_⟩
    · simp [Fits, ticks, wordSize]
    · simp [Balanced, handler, accumulator, counter, ticks, additions, resets]
    · simp [results]
    · simp [calls]
    · simp [calls]
    · simp [NeverBackwards, results]
  exact (reachable_invariant established (step_counted nanosecondsPerTick) reached).ordered

/-- The start, with one caller. -/
def sampleStart : State Unit := ⟨0, 0, .outside, fun _ => .outside, 0, 0, 0, []⟩

/-- The start of the samples is a start. -/
theorem sampleStart_initial : Initial sampleStart := ⟨rfl, rfl, rfl, fun _ => rfl, rfl, rfl, rfl, rfl⟩

/-- One call ends before the handler runs, and one begins after it. -/
theorem consistent_uptime_sample :
    ∃ state : State Unit, Reachable Initial (ConsistentStep 1) state ∧
      state.results = [(15, [10]), (10, [])] ∧ NeverBackwards state := by
  have start : Reachable Initial (ConsistentStep 1) sampleStart := ⟨_, sampleStart_initial, .refl⟩
  have fits : ∀ state : State Unit, state.ticks ≤ 15 → Fits 1 state := by
    intro state few
    simp only [Fits, wordSize]
    omega
  have first := ((start.step ⟨.advance _ 10, fits _ (by decide), by simp [sampleStart]⟩).step
    ⟨.load _ () rfl, fits _ (by decide), by simp⟩).step
    ⟨.finish _ () 0 0 [] rfl, fits _ (by decide), by simp +contextual [Consistent, sampleStart]⟩
  have handled := ((first.step ⟨.readCounter _ rfl, fits _ (by decide), by simp⟩).step
    ⟨.addCounter _ 10 rfl, fits _ (by decide), by simp⟩).step
    ⟨.resetCounter _ 10 rfl, fits _ (by decide), by simp⟩
  have second := ((handled.step ⟨.advance _ 5, fits _ (by decide), by simp⟩).step
    ⟨.load _ () rfl, fits _ (by decide), by simp⟩).step
    ⟨.finish _ () 10 1 [10] rfl, fits _ (by decide), by simp [Consistent, sampleStart]⟩
  exact ⟨_, second, rfl, consistent_uptime_never_backwards 1 _ second⟩

/-- A call reads both parts between the addition and the reset and counts ten
ticks twice. The next call, after the reset, returns less. -/
theorem uptime_goes_backwards :
    ∃ state : State Unit, Reachable Initial (Step 1) state ∧ Fits 1 state ∧
      state.results = [(10, [20]), (20, [])] ∧ ¬NeverBackwards state := by
  have start : Reachable Initial (Step 1) sampleStart := ⟨_, sampleStart_initial, .refl⟩
  have first := ((((start.step (.advance _ 10)).step (.readCounter _ rfl)).step
    (.addCounter _ 10 rfl)).step (.load _ () rfl)).step (.finish _ () 10 1 [] rfl)
  have second := ((first.step (.resetCounter _ 10 rfl)).step (.load _ () rfl)).step
    (.finish _ () 10 1 [20] rfl)
  refine ⟨_, second, ?_, rfl, ?_⟩
  · simp [Fits, sampleStart, wordSize]
  · intro forwards
    have impossible : 20 ≤ 10 := forwards (10, [20]) List.mem_cons_self 20 (List.mem_singleton_self 20)
    omega

end Asym.Uptime
