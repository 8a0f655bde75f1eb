import Mathlib.Logic.Relation

/-!
# Runs of a step relation

A system is given by its initial states and one step relation between states.
A run is a finite chain of steps; a state is reachable when some run from an
initial state ends in it. The one rule proved here turns a property of initial
states that every step preserves into a property of every reachable state.

Nothing here fixes what a state or a step is. Interleavings of several parties
are runs of the union of the parties' steps.
-/

namespace Asym.Runs

universe u
variable {State : Type u}

/-- States that end some finite run of `step` from an initial state. -/
def Reachable (initial : State → Prop) (step : State → State → Prop) (state : State) : Prop :=
  ∃ start, initial start ∧ Relation.ReflTransGen step start state

/-- A step from a reachable state leads to a reachable state. -/
theorem Reachable.step {initial : State → Prop} {step : State → State → Prop} {before after : State}
    (reached : Reachable initial step before) (taken : step before after) :
    Reachable initial step after := by
  obtain ⟨start, begins, run⟩ := reached
  exact ⟨start, begins, run.tail taken⟩

/-- A property carried by every step is carried by every finite run. -/
theorem run_preserves {step : State → State → Prop} {invariant : State → Prop}
    (preserved : ∀ before after, invariant before → step before after → invariant after)
    {first last : State} (run : Relation.ReflTransGen step first last)
    (holds : invariant first) : invariant last := by
  induction run with
  | refl => exact holds
  | tail _ taken ih => exact preserved _ _ ih taken

/-- A property of the initial states that every step preserves holds in every
reachable state. -/
theorem reachable_invariant {initial : State → Prop} {step : State → State → Prop}
    {invariant : State → Prop} (established : ∀ start, initial start → invariant start)
    (preserved : ∀ before after, invariant before → step before after → invariant after)
    {state : State} (reached : Reachable initial step state) : invariant state := by
  obtain ⟨start, begins, run⟩ := reached
  exact run_preserves preserved run (established start begins)

end Asym.Runs
