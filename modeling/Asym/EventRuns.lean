import Mathlib.Data.List.Induction
import Mathlib.Tactic.Common

/-!
# Runs of events

A system that is given by its start and by a partial function: what an event does
to a state, if it can happen there. A list of events is a run if each of them can
happen in turn.

A property holds always in a run if it holds after every beginning of it. If the
property is lost exactly by events that are not allowed, then it holds always if
and only if each event is allowed in the state it meets.
-/

namespace Asym.EventRuns

universe u v
variable {State : Type u} {Event : Type v}

/-- The state after events in turn, if all of them can happen. -/
def run (step : State → Event → Option State) (start : State) (events : List Event) : Option State :=
  events.foldlM step start

/-- A property after every beginning of a run. -/
def Always (step : State → Event → Option State) (start : State) (holds : State → Prop)
    (events : List Event) : Prop :=
  ∀ beginning state, beginning <+: events → run step start beginning = some state → holds state

/-- A property of each event of a run and of the state that it meets. -/
def Each (step : State → Event → Option State) (start : State) (allowed : State → Event → Prop)
    (events : List Event) : Prop :=
  ∀ beginning event state next, beginning ++ [event] <+: events →
    run step start beginning = some state → step state event = some next → allowed state event

variable {step : State → Event → Option State} {start : State}

/-- The last event of a run. -/
theorem run_snoc (events : List Event) (event : Event) (last : State) :
    run step start (events ++ [event]) = some last ↔
      ∃ state, run step start events = some state ∧ step state event = some last := by
  rw [run, List.foldlM_append, Option.bind_eq_bind, Option.bind_eq_some_iff]
  simp [run]

/-- What holds at the start and is kept by every step holds after every run. -/
theorem run_sound {sound : State → Prop} (soundStart : sound start)
    (soundStep : ∀ state event next, sound state → step state event = some next → sound next)
    (events : List Event) (state : State) (reached : run step start events = some state) :
    sound state := by
  induction events using List.reverseRecOn generalizing state with
  | nil =>
    obtain rfl : start = state := Option.some.inj reached
    exact soundStart
  | append_singleton earlier event ih =>
    obtain ⟨before, reachedBefore, taken⟩ := (run_snoc earlier event state).mp reached
    exact soundStep before event state (ih before reachedBefore) taken

/-- What holds at the start and is kept by every allowed step holds always in a run of
allowed events. -/
theorem always_of_each {holds : State → Prop} {allowed : State → Event → Prop} (holdsStart : holds start)
    (keeps : ∀ state event next, holds state → allowed state event → step state event = some next →
      holds next) (events : List Event) (each : Each step start allowed events) :
    Always step start holds events := by
  intro beginning
  induction beginning using List.reverseRecOn with
  | nil =>
    intro state _ reached
    obtain rfl : start = state := Option.some.inj reached
    exact holdsStart
  | append_singleton earlier event ih =>
    intro next inside reached
    obtain ⟨state, before, taken⟩ := (run_snoc earlier event next).mp reached
    have holdsBefore := ih state ((List.prefix_append _ _).trans inside) before
    exact keeps state event next holdsBefore (each earlier event state next inside before taken) taken

/-- A property that is lost exactly by events that are not allowed holds always if
and only if each event is allowed. What every step keeps may be used to see that an
event decides the property. -/
theorem always_iff_each {sound holds : State → Prop} {allowed : State → Event → Prop}
    (soundStart : sound start)
    (soundStep : ∀ state event next, sound state → step state event = some next → sound next)
    (holdsStart : holds start)
    (decides : ∀ state event next, sound state → holds state → step state event = some next →
      (holds next ↔ allowed state event)) (events : List Event) :
    Always step start holds events ↔ Each step start allowed events := by
  constructor
  · intro always beginning event state next inside reached taken
    have before := always beginning state ((List.prefix_append _ _).trans inside) reached
    have after := always _ next inside ((run_snoc beginning event next).mpr ⟨state, reached, taken⟩)
    have soundBefore := run_sound soundStart soundStep beginning state reached
    exact (decides state event next soundBefore before taken).mp after
  · intro each beginning state inside reached
    have both : Always step start (fun state => sound state ∧ holds state) events := by
      refine always_of_each ⟨soundStart, holdsStart⟩ ?_ events each
      intro before event next facts allowed taken
      exact ⟨soundStep before event next facts.1 taken,
        (decides before event next facts.1 facts.2 taken).mpr allowed⟩
    exact (both beginning state inside reached).2

/-- Two properties of events hold each in the same runs, if they agree in sound states and
an event that has them keeps the state sound. -/
theorem each_iff_each {sound : State → Prop} {first second : State → Event → Prop}
    (soundStart : sound start) (agree : ∀ state event, sound state → (first state event ↔ second state event))
    (keeps : ∀ state event next, sound state → second state event → step state event = some next → sound next)
    (events : List Event) : Each step start first events ↔ Each step start second events := by
  have soundIn : ∀ (allowed : State → Event → Prop),
      (∀ state event, sound state → allowed state event → second state event) →
      Each step start allowed events → Always step start sound events := by
    intro allowed enough each
    refine always_of_each soundStart ?_ events each
    intro state event next soundHere holds taken
    exact keeps state event next soundHere (enough state event soundHere holds) taken
  constructor
  · intro each beginning event state next inside reached taken
    have soundHere := soundIn first (fun state event here => (agree state event here).mp) each beginning state
      ((List.prefix_append _ _).trans inside) reached
    exact (agree state event soundHere).mp (each beginning event state next inside reached taken)
  · intro each beginning event state next inside reached taken
    have soundHere := soundIn second (fun _ _ _ holds => holds) each beginning state
      ((List.prefix_append _ _).trans inside) reached
    exact (agree state event soundHere).mpr (each beginning event state next inside reached taken)

/-- If from every sound state that is not at its goal an event leads to the goal or to a
sound state of lower rank, then some events lead to the goal. -/
theorem reaches_of_rank {sound goal : State → Prop} {rank : State → Nat} {among : Event → Prop}
    (lowers : ∀ state, sound state → ∃ event next, among event ∧ step state event = some next ∧
      (goal next ∨ sound next ∧ rank next < rank state)) (state : State) (soundNow : sound state) :
    ∃ events last, (∀ event ∈ events, among event) ∧ run step state events = some last ∧ goal last := by
  induction bound : rank state using Nat.strongRecOn generalizing state with
  | _ _ ih =>
    obtain ⟨event, next, isAmong, taken, reached | ⟨soundNext, lower⟩⟩ := lowers state soundNow
    · refine ⟨[event], next, ?_, ?_, reached⟩
      · intro other inside
        rw [List.mem_singleton.mp inside]
        exact isAmong
      · rw [run, List.foldlM_cons, taken]
        rfl
    · obtain ⟨events, last, allAmong, run_, reached⟩ :=
        ih (rank next) (bound ▸ lower) next soundNext rfl
      refine ⟨event :: events, last, ?_, ?_, reached⟩
      · intro other inside
        rcases List.mem_cons.mp inside with rfl | later
        · exact isAmong
        · exact allAmong other later
      · rw [run, List.foldlM_cons, taken]
        exact run_

/-- A property holds always in an empty run if it holds at the start. -/
theorem always_nil {holds : State → Prop} (now : holds start) : Always step start holds [] := by
  intro beginning state inside reached
  obtain rfl := List.prefix_nil.mp inside
  obtain rfl : start = state := Option.some.inj reached
  exact now

/-- Each event of an empty run is allowed. -/
theorem each_nil {allowed : State → Event → Prop} : Each step start allowed [] := by
  intro beginning event state next inside
  exact absurd (List.prefix_nil.mp inside) (List.append_ne_nil_of_right_ne_nil _ (List.cons_ne_nil _ _))

/-- A property holds always if it holds at the start and always after the first event. -/
theorem always_cons {holds : State → Prop} {event : Event} {events : List Event} {next : State}
    (now : holds start) (taken : step start event = some next) (later : Always step next holds events) :
    Always step start holds (event :: events) := by
  intro beginning state inside reached
  cases beginning with
  | nil =>
    obtain rfl : start = state := Option.some.inj reached
    exact now
  | cons first rest =>
    obtain ⟨rfl, restInside⟩ := List.cons_prefix_cons.mp inside
    rw [run, List.foldlM_cons, taken] at reached
    exact later rest state restInside reached

/-- Each event is allowed if the first one is and each of the others after it. -/
theorem each_cons {allowed : State → Event → Prop} {event : Event} {events : List Event} {next : State}
    (now : allowed start event) (taken : step start event = some next) (later : Each step next allowed events) :
    Each step start allowed (event :: events) := by
  intro beginning other state last inside reached takenLast
  cases beginning with
  | nil =>
    obtain rfl : start = state := Option.some.inj reached
    obtain ⟨rfl, _⟩ := List.cons_prefix_cons.mp inside
    exact now
  | cons first rest =>
    obtain ⟨rfl, restInside⟩ := List.cons_prefix_cons.mp inside
    rw [run, List.foldlM_cons, taken] at reached
    exact later rest other state last restInside reached takenLast

/-- Two systems whose steps agree in related states have the same runs, and related states after
them. -/
theorem run_rel {Other : Type*} {other : Other → Event → Option Other} {related : State → Other → Prop}
    (agree : ∀ state image event, related state image → Option.Rel related (step state event) (other image event))
    {image : Other} (startRelated : related start image) (events : List Event) :
    Option.Rel related (run step start events) (run other image events) := by
  induction events generalizing start image with
  | nil => exact .some startRelated
  | cons event later ih =>
    have first := agree start image event startRelated
    rw [run, run, List.foldlM_cons, List.foldlM_cons]
    revert first
    generalize step start event = next
    generalize other image event = nextImage
    rintro (nextRelated | _)
    · exact ih nextRelated
    · exact .none

/-- A system that does in the image of each sound state what another system does in the state has the images
of its runs, while what the images rest on always holds. -/
theorem run_map {Other : Type*} {other : Other → Event → Option Other} {image : Other → State}
    {sound holds : Other → Prop} {origin : Other} (soundStart : sound origin)
    (soundStep : ∀ state event next, sound state → other state event = some next → sound next)
    (agree : ∀ state event, sound state → holds state → step (image state) event = (other state event).map image)
    (events : List Event) (always : Always other origin holds events) :
    run step (image origin) events = (run other origin events).map image := by
  induction events using List.reverseRecOn with
  | nil => rfl
  | append_singleton earlier event ih =>
    have before := ih fun beginning state inside =>
      always beginning state (inside.trans (List.prefix_append _ _))
    rw [run, run, List.foldlM_append, List.foldlM_append, ← run, ← run, before]
    cases reached : run other origin earlier with
    | none => rfl
    | some state =>
      have soundNow := run_sound soundStart soundStep earlier state reached
      have holdsNow := always earlier state (List.prefix_append _ _) reached
      simpa using agree state event soundNow holdsNow

end Asym.EventRuns
