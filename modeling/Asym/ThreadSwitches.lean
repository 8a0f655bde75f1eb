import Asym.Handovers
import Asym.ThreadPlaces

/-!
# Switching threads on several processors

`sched_schedule` is cut into the operations that are atomic: the work on the own
graveyard, `blocker_push`, each `queue_pop`, the push of the preempted thread into
the own queue, and `thread_load` with the store of `runThread`. Between them the
other processors go on. A thread that was taken from a blocker is in the hands of
the waker until `sched_push` has put it into the queue of a processor; since the
lengths that `sched_push` compares are read while they change, the processor may
be any. Threads in the hands of wakers are listed with the detached ones.

A processor publishes its running thread with `blocker_push`, or with the push
into its own queue, and replaces `runThread` later. In terms of `Handovers`, it
clings to the thread meanwhile.
-/

namespace Asym.ThreadSwitches

open Scheduler Custody Handovers Runs

variable {cpus : Nat} {Blocker : Type}

/-- What a search for a thread is made for. -/
inductive Purpose where
  /-- To replace a thread that blocks, or no thread. -/
  | replace
  /-- To preempt a running thread if another one is found. -/
  | preempt
  deriving DecidableEq, Repr

/-- Where a processor is in `sched_schedule`. -/
inductive Phase where
  | outside
  /-- Before `sched_update_graveyard`. -/
  | entered
  /-- After it. -/
  | deciding
  /-- In `sched_context_find_any` or `sched_context_find_higher` over the given
  levels, with those that are still to be popped. -/
  | searching (levels remaining : List Priority) (purpose : Purpose)
  /-- The search is over. -/
  | found (next : Option Nat) (purpose : Purpose)
  /-- The preempted thread is in the queue, the next one is not yet loaded. -/
  | requeued (next : Nat)

/-- Whether the running thread is published. -/
def Phase.published : Phase → Bool
  | .searching _ _ .replace => true
  | .found _ .replace => true
  | .requeued _ => true
  | _ => false

/-- The thread that was popped and is not yet loaded. -/
def Phase.inHand : Phase → Option Nat
  | .found next _ => next
  | .requeued next => some next
  | _ => none

/-- The scheduler with the position of every processor. -/
structure State (cpus : Nat) (Blocker : Type) where
  sched : Sched cpus Blocker
  phase : Fin (cpus + 1) → Phase

/-- The thread that a processor has published and not yet replaced. -/
def State.publishing (state : State cpus Blocker) (cpu : Fin (cpus + 1)) : Option Nat :=
  if (state.phase cpu).published then (state.sched.contexts cpu).runThread else none

/-- A processor goes on. -/
def State.turn (state : State cpus Blocker) (cpu : Fin (cpus + 1)) (phase : Phase) :
    State cpus Blocker :=
  { state with phase := Function.update state.phase cpu phase }

/-- A processor goes on with its context and the registry changed. -/
def State.set (state : State cpus Blocker) (cpu : Fin (cpus + 1)) (context : Context)
    (registry : Registry Blocker) (phase : Phase) : State cpus Blocker where
  sched := { state.sched with
    contexts := Function.update state.sched.contexts cpu context
    registry := registry }
  phase := Function.update state.phase cpu phase

variable [DecidableEq Blocker]

/-- The branches of `sched_schedule` after the graveyard: the search for any
thread, `blocker_push`, or the search for a thread to preempt with. -/
def decideNext (state : State cpus Blocker) (cpu : Fin (cpus + 1)) (kernelCode : Bool)
    (uptime : Nat) : State cpus Blocker :=
  let context := state.sched.contexts cpu
  match context.runThread with
  | none => state.turn cpu (.searching [2, 1, 0] [2, 1, 0] .replace)
  | some running =>
      let data := state.sched.registry.threads running
      match data.blocker with
      | some blocker =>
          let saved := threadSave state.sched.registry running kernelCode
          let deadline := fun thread => (saved.threads thread).deadline
          { sched := { state.sched with
              blocked := Function.update state.sched.blocked blocker
                (blockerInsert deadline running (state.sched.blocked blocker))
              registry := saved }
            phase := Function.update state.phase cpu (.searching [2, 1, 0] [2, 1, 0] .replace) }
      | none =>
          let levels :=
            if data.timeEnd < uptime then [2, 1, 0]
            else [2, 1, 0].filter (fun level => level > data.priority)
          state.turn cpu (.searching levels levels .preempt)

/-- One `queue_pop` of a search. A dead thread is freed and the search starts
again. -/
def queuePop (state : State cpus Blocker) (cpu : Fin (cpus + 1)) (levels : List Priority)
    (level : Priority) (rest : List Priority) (purpose : Purpose) : State cpus Blocker :=
  let context := state.sched.contexts cpu
  match context.queues level with
  | [] => state.turn cpu (.searching levels rest purpose)
  | thread :: others =>
      let popped := { context with queues := Function.update context.queues level others }
      if dead state.sched.registry thread then
        state.set cpu popped (threadFree state.sched.registry thread)
          (.searching levels levels purpose)
      else state.set cpu popped state.sched.registry (.found (some thread) purpose)

/-- `thread_save` and `sched_context_push` of the preempted thread. -/
def requeue (state : State cpus Blocker) (cpu : Fin (cpus + 1)) (kernelCode : Bool)
    (running next : Nat) : State cpus Blocker :=
  let context := state.sched.contexts cpu
  let priority := (state.sched.registry.threads running).priority
  state.set cpu { context with queues := contextPush context.queues running priority }
    (threadSave state.sched.registry running kernelCode) (.requeued next)

/-- `thread_load` and the store of `runThread`. -/
def loadStore (state : State cpus Blocker) (cpu : Fin (cpus + 1)) (next : Option Nat)
    (uptime : Nat) : State cpus Blocker :=
  state.set cpu { state.sched.contexts cpu with runThread := next }
    (threadLoad state.sched.registry next uptime) .outside

/-- The first thread of a blocker is taken off. -/
def takeFirst (state : State cpus Blocker) (blocker : Blocker) (thread : Nat) (rest : List Nat)
    (edit : Thread Blocker → Thread Blocker) : State cpus Blocker :=
  { state with sched := { state.sched with
      blocked := Function.update state.sched.blocked blocker rest
      registry := state.sched.registry.editThread thread edit
      detached := thread :: state.sched.detached } }

/-- The `sched_context_push` of `sched_push`. -/
def pushTo (state : State cpus Blocker) (thread : Nat) (cpu : Fin (cpus + 1)) :
    State cpus Blocker :=
  let context := state.sched.contexts cpu
  let priority := (state.sched.registry.threads thread).priority
  { state with sched := { state.sched with
      contexts := Function.update state.sched.contexts cpu
        { context with queues := contextPush context.queues thread priority }
      detached := state.sched.detached.erase thread
      pushed := thread :: state.sched.pushed } }

/-- The atomic actions. -/
inductive Action (cpus : Nat) (Blocker : Type) where
  | trap (cpu : Fin (cpus + 1))
  | graveyard (cpu : Fin (cpus + 1)) (kernelCode : Bool)
  | decideNext (cpu : Fin (cpus + 1)) (kernelCode : Bool) (uptime : Nat)
  | queuePop (cpu : Fin (cpus + 1))
  | requeue (cpu : Fin (cpus + 1)) (kernelCode : Bool)
  | loadStore (cpu : Fin (cpus + 1)) (uptime : Nat)
  | unblock (blocker : Blocker)
  | expire (blocker : Blocker) (uptime : Nat)
  | push (thread : Nat) (cpu : Fin (cpus + 1))
  | spawn (process thread : Nat) (priority : Priority)
  | split (cpu : Fin (cpus + 1)) (thread : Nat) (priority : Priority) (kernelCode : Bool)
  | abandon (thread : Nat)
  | block (cpu : Fin (cpus + 1)) (blocker : Blocker) (timeout uptime : Nat)
  | yield (cpu : Fin (cpus + 1))
  | threadExit (cpu : Fin (cpus + 1))
  | processExit (cpu : Fin (cpus + 1))

/-- The state after an action, if the action is possible. -/
def perform (state : State cpus Blocker) : Action cpus Blocker → Option (State cpus Blocker)
  | .trap cpu =>
      match state.phase cpu with
      | .outside => some (state.turn cpu .entered)
      | _ => none
  | .graveyard cpu kernelCode =>
      match state.phase cpu with
      | .entered => some {
          sched := buryRunning (freeGraveyard state.sched cpu) cpu kernelCode
          phase := Function.update state.phase cpu .deciding }
      | _ => none
  | .decideNext cpu kernelCode uptime =>
      match state.phase cpu with
      | .deciding => some (decideNext state cpu kernelCode uptime)
      | _ => none
  | .queuePop cpu =>
      match state.phase cpu with
      | .searching levels (level :: rest) purpose => some (queuePop state cpu levels level rest purpose)
      | .searching _ [] purpose => some (state.turn cpu (.found none purpose))
      | _ => none
  | .requeue cpu kernelCode =>
      match state.phase cpu, (state.sched.contexts cpu).runThread with
      | .found (some next) .preempt, some running => some (requeue state cpu kernelCode running next)
      | .found none .preempt, _ => some (state.turn cpu .outside)
      | _, _ => none
  | .loadStore cpu uptime =>
      match state.phase cpu with
      | .found next .replace => some (loadStore state cpu next uptime)
      | .requeued next => some (loadStore state cpu (some next) uptime)
      | _ => none
  | .unblock blocker =>
      match state.sched.blocked blocker with
      | [] => none
      | thread :: rest => some (takeFirst state blocker thread rest
          (fun data => { data with deadline := 0, result := .norm, blocker := none }))
  | .expire blocker uptime =>
      match state.sched.blocked blocker with
      | [] => none
      | thread :: rest =>
          if (state.sched.registry.threads thread).deadline < uptime then
            some (takeFirst state blocker thread rest
              (fun data => { data with result := .timeout, blocker := none }))
          else none
  | .push thread cpu => if thread ∈ state.sched.detached then some (pushTo state thread cpu) else none
  | .spawn process thread priority =>
      if thread ∉ state.sched.registry.createdThreads ∧
          process ∉ state.sched.registry.createdProcesses then
        some { state with sched := { state.sched with
          registry := threadNew state.sched.registry process thread priority
          detached := thread :: state.sched.detached } }
      else none
  | .split cpu thread priority kernelCode =>
      match state.phase cpu, (state.sched.contexts cpu).runThread with
      | .outside, some running =>
          if thread ∉ state.sched.registry.createdThreads then
            some { state with sched := { state.sched with
              registry := threadSplit state.sched.registry running thread priority kernelCode
              detached := thread :: state.sched.detached } }
          else none
      | _, _ => none
  | .abandon thread =>
      if thread ∈ state.sched.detached ∧ thread ∉ state.sched.pushed then
        some { state with sched := { state.sched with
          registry := threadFree state.sched.registry thread
          detached := state.sched.detached.erase thread } }
      else none
  | .block cpu blocker timeout uptime =>
      match state.phase cpu with
      | .outside => some { state with sched := schedBlock state.sched cpu blocker timeout uptime }
      | _ => none
  | .yield cpu =>
      match state.phase cpu with
      | .outside => some { state with sched := schedYield state.sched cpu }
      | _ => none
  | .threadExit cpu =>
      match state.phase cpu with
      | .outside => some { state with sched := schedThreadExit state.sched cpu }
      | _ => none
  | .processExit cpu =>
      match state.phase cpu with
      | .outside => some { state with sched := schedProcessExit state.sched cpu }
      | _ => none

/-- An action that does not put a published thread into the queue of another
processor: whoever pushes a thread finds no other processor that has published it
and not yet replaced its `runThread`. -/
def Orderly (state : State cpus Blocker) : Action cpus Blocker → Prop
  | .push thread cpu => ∀ other, other ≠ cpu → state.publishing other ≠ some thread
  | _ => True

/-- An action of any processor. -/
def Step (before after : State cpus Blocker) : Prop := ∃ action, perform before action = some after

/-- An orderly action of any processor. -/
def OrderlyStep (before after : State cpus Blocker) : Prop :=
  ∃ action, Orderly before action ∧ perform before action = some after

/-- After `sched_init`, with no processor in `sched_schedule`. -/
def Initial (state : State cpus Blocker) : Prop :=
  ∃ process thread, state = ⟨schedInit process thread, fun _ => .outside⟩

/-- No thread is the running thread of two processors, and none is loaded by one
while another one has published it and not yet replaced its own. -/
structure Separate (state : State cpus Blocker) : Prop where
  running : ∀ first second thread, (state.sched.contexts first).runThread = some thread →
    (state.sched.contexts second).runThread = some thread → first = second
  published : ∀ first second thread, state.publishing first = some thread →
    (state.sched.contexts second).runThread = some thread → first = second

/-- The places of one processor. -/
inductive Part where
  | run
  | queue (level : Priority)
  | graveyard
  | hand
  deriving DecidableEq

/-- Where a thread can be. -/
inductive Spot (cpus : Nat) (Blocker : Type) where
  | own (cpu : Fin (cpus + 1)) (part : Part)
  | blocker (blocker : Blocker)
  | detached
  deriving DecidableEq

/-- The processor that a place belongs to. -/
def owner : Spot cpus Blocker → Option (Fin (cpus + 1))
  | .own cpu _ => some cpu
  | _ => none

/-- The threads at the places of a processor. A published thread is no longer in
the running slot. -/
def parts (context : Context) (phase : Phase) : Part → List Nat
  | .run => if phase.published then [] else context.runThread.toList
  | .queue level => context.queues level
  | .graveyard => context.graveyard
  | .hand => phase.inHand.toList

/-- The threads at every place. -/
def contents (state : State cpus Blocker) : Spot cpus Blocker → List Nat
  | .own cpu part => parts (state.sched.contexts cpu) (state.phase cpu) part
  | .blocker blocker => state.sched.blocked blocker
  | .detached => state.sched.detached

/-- The scheduler as parties that hand threads over. -/
def view (state : State cpus Blocker) : View (Spot cpus Blocker) (Fin (cpus + 1)) Nat where
  held := contents state
  clings := state.publishing
  known := state.sched.registry.createdThreads

/-- The places with those of one processor replaced. -/
def setParts (held : Spot cpus Blocker → List Nat) (cpu : Fin (cpus + 1))
    (replaced : Part → List Nat) : Spot cpus Blocker → List Nat
  | .own other part => if other = cpu then replaced part else held (.own other part)
  | spot => held spot

omit [DecidableEq Blocker] in
/-- Replacing the places of a processor by themselves. -/
theorem setParts_self {held : Spot cpus Blocker → List Nat} {cpu : Fin (cpus + 1)}
    {replaced : Part → List Nat} (same : ∀ part, replaced part = held (.own cpu part)) :
    setParts held cpu replaced = held := by
  funext spot
  cases spot with
  | own other part =>
    by_cases here : other = cpu
    · subst here
      simp [setParts, same]
    · simp [setParts, here]
  | _ => rfl

/-- Replacing one place of a processor. -/
theorem setParts_one (held : Spot cpus Blocker → List Nat) (cpu : Fin (cpus + 1))
    (replaced : Part → List Nat) (part : Part)
    (same : ∀ tested, tested ≠ part → replaced tested = held (.own cpu tested)) :
    setParts held cpu replaced = Function.update held (.own cpu part) (replaced part) := by
  funext spot
  cases spot with
  | own other tested =>
    by_cases here : other = cpu
    · subst here
      by_cases isPart : tested = part
      · subst isPart
        simp [setParts]
      · simp [setParts, isPart, same]
    · simp [setParts, here]
  | _ => simp [setParts]

/-- Replacing two places of a processor. -/
theorem setParts_two (held : Spot cpus Blocker → List Nat) (cpu : Fin (cpus + 1))
    (replaced : Part → List Nat) (first second : Part)
    (same : ∀ tested, tested ≠ first → tested ≠ second → replaced tested = held (.own cpu tested)) :
    setParts held cpu replaced = Function.update (Function.update held (.own cpu first)
      (replaced first)) (.own cpu second) (replaced second) := by
  funext spot
  cases spot with
  | own other tested =>
    by_cases here : other = cpu
    · subst here
      by_cases isSecond : tested = second
      · subst isSecond
        simp [setParts]
      · by_cases isFirst : tested = first
        · subst isFirst
          simp [setParts, isSecond]
        · simp [setParts, isFirst, isSecond, same]
    · simp [setParts, here]
  | _ => simp [setParts]

omit [DecidableEq Blocker] in
/-- The places after a processor went on. -/
theorem contents_set (state : State cpus Blocker) (cpu : Fin (cpus + 1)) (context : Context)
    (registry : Registry Blocker) (phase : Phase) :
    contents (state.set cpu context registry phase) =
      setParts (contents state) cpu (parts context phase) := by
  funext spot
  cases spot with
  | own other part =>
    by_cases here : other = cpu
    · subst here
      simp [contents, setParts, State.set]
    · simp [contents, setParts, State.set, here]
  | _ => rfl

omit [DecidableEq Blocker] in
/-- What is published after a processor went on. -/
theorem publishing_set (state : State cpus Blocker) (cpu : Fin (cpus + 1)) (context : Context)
    (registry : Registry Blocker) (phase : Phase) :
    (state.set cpu context registry phase).publishing = Function.update state.publishing cpu
      (if phase.published then context.runThread else none) := by
  funext other
  by_cases here : other = cpu
  · subst here
    simp [State.publishing, State.set]
  · simp [State.publishing, State.set, here]

omit [DecidableEq Blocker] in
/-- A processor that goes on with its context is one that goes on. -/
theorem turn_eq_set (state : State cpus Blocker) (cpu : Fin (cpus + 1)) (phase : Phase) :
    state.turn cpu phase =
      state.set cpu (state.sched.contexts cpu) state.sched.registry phase := by
  simp [State.turn, State.set]

omit [DecidableEq Blocker] in
/-- The view after a processor went on and nothing is published or popped. -/
theorem view_turn (state : State cpus Blocker) (cpu : Fin (cpus + 1)) (phase : Phase)
    (published : phase.published = (state.phase cpu).published)
    (inHand : phase.inHand = (state.phase cpu).inHand) : view (state.turn cpu phase) = view state := by
  have held : contents (state.turn cpu phase) = contents state := by
    rw [turn_eq_set, contents_set]
    refine setParts_self fun part => ?_
    cases part <;> simp [parts, contents, published, inHand]
  have clings : (state.turn cpu phase).publishing = state.publishing := by
    rw [turn_eq_set, publishing_set, Function.update_eq_self_iff]
    simp [State.publishing, published]
  rw [view, view, held, clings]
  rfl

/-- A run of changes. -/
abbrev Run := Relation.ReflTransGen (@Handovers.Step (Spot cpus Blocker) (Fin (cpus + 1)) Nat _ _ owner)

/-- An action that moves one thread. -/
theorem move_view (state after : State cpus Blocker) (source target : Spot cpus Blocker)
    (thread : Nat) (left arrived : List Nat) (different : source ≠ target)
    (leaves : (contents state source).Perm (thread :: left))
    (arrives : arrived.Perm (thread :: contents state target))
    (allowed : owner target = none ∨ owner target = owner source ∨
      ∀ cpu, state.publishing cpu = some thread → owner target = some cpu)
    (held : contents after =
      Function.update (Function.update (contents state) source left) target arrived)
    (clings : after.publishing = state.publishing)
    (known : after.sched.registry.createdThreads = state.sched.registry.createdThreads) :
    Run (view state) (view after) := by
  have moved := Handovers.Step.move (view state) source target thread left arrived different leaves
    arrives allowed
  rw [view, view, held, clings, known]
  exact .single moved

/-- An action in which a processor publishes its thread. -/
theorem pass_view (state after : State cpus Blocker) (cpu : Fin (cpus + 1))
    (target : Spot cpus Blocker) (thread : Nat) (arrived : List Nat)
    (different : .own cpu .run ≠ target) (runs : contents state (.own cpu .run) = [thread])
    (arrives : arrived.Perm (thread :: contents state target))
    (allowed : owner target = none ∨ owner target = some cpu)
    (held : contents after =
      Function.update (Function.update (contents state) (.own cpu .run) []) target arrived)
    (clings : after.publishing = Function.update state.publishing cpu (some thread))
    (known : after.sched.registry.createdThreads = state.sched.registry.createdThreads) :
    Run (view state) (view after) := by
  have passed := Handovers.Step.pass (view state) cpu (.own cpu .run) target thread [] arrived different
    (by rw [show (view state).held (.own cpu .run) = [thread] from runs]) arrives rfl allowed
  rw [view, view, held, clings, known]
  exact .single passed

/-- An action that frees one thread. -/
theorem discard_view {state after : State cpus Blocker} {source : Spot cpus Blocker} {thread : Nat}
    {left : List Nat} (leaves : (contents state source).Perm (thread :: left))
    (held : contents after = Function.update (contents state) source left)
    (clings : after.publishing = state.publishing)
    (known : after.sched.registry.createdThreads = state.sched.registry.createdThreads) :
    Run (view state) (view after) := by
  have freed : Handovers.Step owner (view state) _ :=
    .discard (view state) source thread left leaves
  rw [view, view, held, clings, known]
  exact .single freed

/-- All threads of one place are discarded. -/
theorem discardAll_run (before : View (Spot cpus Blocker) (Fin (cpus + 1)) Nat)
    (spot : Spot cpus Blocker) (threads : List Nat) (listed : before.held spot = threads) :
    Run before { before with held := Function.update before.held spot [] } := by
  induction threads generalizing before with
  | nil =>
    rw [← listed, Function.update_eq_self]
  | cons thread rest ih =>
    have first : Handovers.Step owner before _ := .discard before spot thread rest (by rw [listed])
    have later := ih { before with held := Function.update before.held spot rest }
      (by simp)
    simp only [Function.update_idem] at later
    exact .head first later

omit [DecidableEq Blocker] in
/-- Freeing threads forgets none. -/
theorem freeAll_created (threads : List Nat) (registry : Registry Blocker) :
    (threads.foldl threadFree registry).createdThreads = registry.createdThreads := by
  induction threads generalizing registry with
  | nil => rfl
  | cons thread rest ih =>
    rw [List.foldl_cons, ih]
    rfl

/-- The loop of `sched_update_graveyard`. -/
theorem freeGraveyard_run (state : State cpus Blocker) (cpu : Fin (cpus + 1)) :
    Run (view state) (view { state with sched := freeGraveyard state.sched cpu }) := by
  have asSet : ({ state with sched := freeGraveyard state.sched cpu } : State cpus Blocker) =
      state.set cpu { state.sched.contexts cpu with graveyard := [] }
        ((state.sched.contexts cpu).graveyard.foldl threadFree state.sched.registry)
        (state.phase cpu) := by
    simp [State.set, freeGraveyard]
  have held : contents (state.set cpu { state.sched.contexts cpu with graveyard := [] }
      ((state.sched.contexts cpu).graveyard.foldl threadFree state.sched.registry)
      (state.phase cpu)) = Function.update (contents state) (.own cpu .graveyard) [] := by
    rw [contents_set, setParts_one _ cpu _ .graveyard]
    · rfl
    · intro part different
      cases part <;> simp_all [parts, contents]
  have clings : (state.set cpu { state.sched.contexts cpu with graveyard := [] }
      ((state.sched.contexts cpu).graveyard.foldl threadFree state.sched.registry)
      (state.phase cpu)).publishing = state.publishing := by
    rw [publishing_set, Function.update_eq_self_iff]
    rfl
  have emptied := discardAll_run (view state) (.own cpu .graveyard)
    (state.sched.contexts cpu).graveyard rfl
  rw [asSet, view, view, held, clings]
  simp only [State.set, freeAll_created]
  exact emptied

/-- The second half of `sched_update_graveyard`. -/
theorem buryRunning_run (state : State cpus Blocker) (cpu : Fin (cpus + 1)) (kernelCode : Bool)
    (unpublished : (state.phase cpu).published = false) :
    Run (view state) (view { state with sched := buryRunning state.sched cpu kernelCode }) := by
  rw [buryRunning]
  split
  · exact .refl
  · rename_i thread runs
    simp only
    split
    · have asSet : ({ state with sched := { state.sched with
          contexts := Function.update state.sched.contexts cpu { state.sched.contexts cpu with
            graveyard := (state.sched.contexts cpu).graveyard ++ [thread]
            runThread := none } } } : State cpus Blocker) =
          state.set cpu { state.sched.contexts cpu with
            graveyard := (state.sched.contexts cpu).graveyard ++ [thread]
            runThread := none } state.sched.registry (state.phase cpu) := by
        simp [State.set]
      rw [asSet]
      refine move_view state _ (.own cpu .run) (.own cpu .graveyard) thread []
        (contents state (.own cpu .graveyard) ++ [thread]) (by simp) ?_
        (List.perm_append_singleton thread _) (.inr (.inl rfl)) ?_ ?_ rfl
      · simp [contents, parts, unpublished, runs]
      · rw [contents_set, setParts_two _ cpu _ .run .graveyard]
        · simp [parts, contents]
        · intro part notRun notGraveyard
          cases part <;> simp_all [parts, contents]
      · rw [publishing_set, Function.update_eq_self_iff]
        simp [State.publishing, unpublished]
    · exact .refl

/-- The decision after the graveyard. -/
theorem decideNext_run (state : State cpus Blocker) (cpu : Fin (cpus + 1)) (kernelCode : Bool)
    (uptime : Nat) (ready : state.phase cpu = .deciding) :
    Run (view state) (view (decideNext state cpu kernelCode uptime)) := by
  cases runs : (state.sched.contexts cpu).runThread with
  | none =>
    have same : view (state.turn cpu (.searching [2, 1, 0] [2, 1, 0] .replace)) = view state := by
      have held : contents (state.turn cpu (.searching [2, 1, 0] [2, 1, 0] .replace)) =
          contents state := by
        rw [turn_eq_set, contents_set]
        refine setParts_self fun part => ?_
        cases part <;> simp [parts, contents, ready, runs, Phase.published, Phase.inHand]
      have clings : (state.turn cpu (.searching [2, 1, 0] [2, 1, 0] .replace)).publishing =
          state.publishing := by
        rw [turn_eq_set, publishing_set, Function.update_eq_self_iff]
        simp [State.publishing, ready, runs, Phase.published]
      rw [view, view, held, clings]
      rfl
    simp only [decideNext, runs]
    rw [same]
  | some running =>
    cases blocks : (state.sched.registry.threads running).blocker with
    | none =>
      simp only [decideNext, runs, blocks]
      rw [view_turn]
      · simp [ready, Phase.published]
      · simp [ready, Phase.inHand]
    | some blocker =>
      simp only [decideNext, runs, blocks]
      generalize insertion : blockerInsert _ running (state.sched.blocked blocker) = list
      have arrives : list.Perm (running :: contents state (.blocker blocker)) := by
        rw [← insertion]
        exact ThreadPlaces.blockerInsert_perm _ running _
      refine pass_view state _ cpu (.blocker blocker) running list (by simp) ?_ arrives (.inl rfl)
        ?_ ?_ rfl
      · simp [contents, parts, ready, runs, Phase.published]
      · funext spot
        cases spot with
        | own other part =>
          by_cases here : other = cpu
          · subst here
            cases part <;> simp [contents, parts, ready, Phase.published, Phase.inHand]
          · simp [contents, here]
        | blocker other =>
          by_cases same : other = blocker
          · subst same
            simp [contents]
          · simp [contents, same]
        | detached => simp [contents]
      · funext other
        by_cases here : other = cpu
        · subst here
          simp [State.publishing, Phase.published, runs]
        · simp [State.publishing, here]

/-- One `queue_pop`. -/
theorem queuePop_run {state : State cpus Blocker} {cpu : Fin (cpus + 1)} {levels : List Priority}
    {level : Priority} {rest : List Priority} {purpose : Purpose}
    (ready : state.phase cpu = .searching levels (level :: rest) purpose) :
    Run (view state) (view (queuePop state cpu levels level rest purpose)) := by
  have published : ∀ phase : Phase, phase.published = (state.phase cpu).published →
      ∀ (context : Context) (registry : Registry Blocker),
        context.runThread = (state.sched.contexts cpu).runThread →
          (state.set cpu context registry phase).publishing = state.publishing := by
    intro phase same context registry sameSlot
    rw [publishing_set, Function.update_eq_self_iff, State.publishing, same, sameSlot]
  have remains : ∀ again : List Priority, (Phase.searching levels again purpose).published =
      (state.phase cpu).published := by
    intro again
    rw [ready]
    cases purpose <;> rfl
  rw [queuePop]
  cases queue : (state.sched.contexts cpu).queues level with
  | nil =>
    simp only
    rw [view_turn state cpu _ (remains rest) (by rw [ready]; rfl)]
  | cons thread others =>
    have first : contents state (.own cpu (.queue level)) = thread :: others := queue
    simp only
    split
    · refine discard_view (by rw [first]) ?_ (published _ (remains levels) _ _ rfl) rfl
      rw [contents_set, setParts_one _ cpu _ (.queue level)]
      · simp [parts]
      · intro part different
        cases part with
        | run => simp [parts, contents, remains]
        | queue other =>
          have elsewhere : other ≠ level := fun same => different (by rw [same])
          simp [parts, contents, elsewhere]
        | graveyard => rfl
        | hand => simp [parts, contents, ready, Phase.inHand]
    · have hides : (Phase.found (some thread) purpose).published = (state.phase cpu).published := by
        rw [ready]
        cases purpose <;> rfl
      have empty : contents state (.own cpu .hand) = [] := by
        simp [contents, parts, ready, Phase.inHand]
      refine move_view state _ (.own cpu (.queue level)) (.own cpu .hand) thread others [thread]
        (by simp) (by rw [first]) (by rw [empty]) (.inr (.inl rfl)) ?_ (published _ hides _ _ rfl) rfl
      rw [contents_set, setParts_two _ cpu _ (.queue level) .hand]
      · simp [parts, Phase.inHand]
      · intro part notQueue notHand
        cases part with
        | run => simp [parts, contents, hides]
        | queue other =>
          have elsewhere : other ≠ level := fun same => notQueue (by rw [same])
          simp [parts, contents, elsewhere]
        | graveyard => rfl
        | hand => exact absurd rfl notHand

/-- The push of the preempted thread into the own queue. -/
theorem requeue_run (state : State cpus Blocker) (cpu : Fin (cpus + 1)) (kernelCode : Bool)
    (running next : Nat) (ready : state.phase cpu = .found (some next) .preempt)
    (runs : (state.sched.contexts cpu).runThread = some running) :
    Run (view state) (view (requeue state cpu kernelCode running next)) := by
  rw [requeue]
  generalize (state.sched.registry.threads running).priority = level
  refine pass_view state _ cpu (.own cpu (.queue level)) running
    ((state.sched.contexts cpu).queues level ++ [running]) (by simp) ?_
    (List.perm_append_singleton running _) (.inr rfl) ?_ ?_ rfl
  · simp [contents, parts, ready, runs, Phase.published]
  · rw [contents_set, setParts_two _ cpu _ .run (.queue level)]
    · simp [parts, Phase.published, contextPush]
    · intro part notRun notQueue
      cases part with
      | run => exact absurd rfl notRun
      | queue other =>
        have elsewhere : other ≠ level := fun same => notQueue (by rw [same])
        simp [parts, contents, contextPush, elsewhere]
      | graveyard => rfl
      | hand => simp [parts, contents, ready, Phase.inHand]
  · rw [publishing_set]
    simp [Phase.published, runs]

/-- The load of the next thread and the store of `runThread`. -/
theorem loadStore_run {state : State cpus Blocker} {cpu : Fin (cpus + 1)} {next : Option Nat}
    (uptime : Nat) (published : (state.phase cpu).published = true)
    (inHand : (state.phase cpu).inHand = next) :
    Run (view state) (view (loadStore state cpu next uptime)) := by
  have known : (threadLoad state.sched.registry next uptime).createdThreads =
      state.sched.registry.createdThreads := by
    cases next <;> rfl
  have clings : (loadStore state cpu next uptime).publishing =
      Function.update state.publishing cpu none := by
    rw [loadStore, publishing_set]
    simp [Phase.published]
  have empty : contents state (.own cpu .run) = [] := by simp [contents, parts, published]
  have held : contents (loadStore state cpu next uptime) = Function.update (Function.update
      (contents state) (.own cpu .hand) []) (.own cpu .run) next.toList := by
    rw [loadStore, contents_set, setParts_two _ cpu _ .hand .run]
    · simp [parts, Phase.published, Phase.inHand]
    · intro part notHand notRun
      cases part with
      | run => exact absurd rfl notRun
      | queue level => rfl
      | graveyard => rfl
      | hand => exact absurd rfl notHand
  have released : Handovers.Step owner (view state) _ := .letGo (view state) cpu
  have after : view (loadStore state cpu next uptime) = { view state with
      held := Function.update (Function.update (contents state) (.own cpu .hand) [])
        (.own cpu .run) next.toList
      clings := Function.update state.publishing cpu none } := by
    rw [view, held, clings]
    exact congrArg _ known
  rw [after]
  cases next with
  | none =>
    have hand : contents state (.own cpu .hand) = [] := by simp [contents, parts, inHand]
    have same : Function.update (Function.update (contents state) (.own cpu .hand) [])
        (.own cpu .run) [] = contents state := by
      have first : Function.update (contents state) (.own cpu .hand) [] = contents state := by
        rw [← hand, Function.update_eq_self]
      rw [first, ← empty, Function.update_eq_self]
    simp only [Option.toList_none, same]
    exact .single released
  | some thread =>
    have moved : Handovers.Step owner
        { view state with clings := Function.update state.publishing cpu none } _ :=
      .move _ (.own cpu .hand) (.own cpu .run) thread [] [thread] (by simp)
        (by
          show (contents state (.own cpu .hand)).Perm _
          simp [contents, parts, inHand])
        (by
          show [thread].Perm (thread :: contents state (.own cpu .run))
          rw [empty])
        (.inr (.inl rfl))
    exact .tail (.single released) moved

/-- Taking the first thread off a blocker. -/
theorem takeFirst_run {state : State cpus Blocker} {blocker : Blocker} {thread : Nat}
    {rest : List Nat} (edit : Thread Blocker → Thread Blocker)
    (listed : state.sched.blocked blocker = thread :: rest) :
    Run (view state) (view (takeFirst state blocker thread rest edit)) := by
  refine move_view state _ (.blocker blocker) .detached thread rest
    (thread :: state.sched.detached) (by simp) ?_ (.refl _) (.inl rfl) ?_ rfl rfl
  · rw [contents, listed]
  · funext spot
    cases spot with
    | own cpu part => simp [contents, takeFirst]
    | blocker other =>
      by_cases same : other = blocker
      · subst same
        simp [contents, takeFirst]
      · simp [contents, takeFirst, same]
    | detached => simp [contents, takeFirst]

/-- The push of a thread into the queue of a processor. -/
theorem pushTo_run {state : State cpus Blocker} {thread : Nat} {cpu : Fin (cpus + 1)}
    (held : thread ∈ state.sched.detached)
    (orderly : ∀ other, other ≠ cpu → state.publishing other ≠ some thread) :
    Run (view state) (view (pushTo state thread cpu)) := by
  rw [pushTo]
  generalize (state.sched.registry.threads thread).priority = level
  refine move_view state _ .detached (.own cpu (.queue level)) thread
    (state.sched.detached.erase thread) ((state.sched.contexts cpu).queues level ++ [thread])
    (by simp) (List.perm_cons_erase held) (List.perm_append_singleton thread _) ?_ ?_ ?_ rfl
  · refine .inr (.inr fun other clings => ?_)
    by_contra different
    exact orderly other (fun same => different (by rw [same]; rfl)) clings
  · funext spot
    cases spot with
    | own other part =>
      by_cases here : other = cpu
      · subst here
        cases part with
        | queue tested =>
          by_cases same : tested = level
          · subst same
            simp [contents, parts, contextPush]
          · simp [contents, parts, contextPush, same]
        | _ => simp [contents, parts]
      · simp [contents, here]
    | _ => simp [contents]
  · funext other
    by_cases here : other = cpu
    · subst here
      simp [State.publishing]
    · simp [State.publishing, here]

/-- The places after a change of the detached threads and of the registry. -/
theorem contents_detached (state : State cpus Blocker) (registry : Registry Blocker)
    (detached : List Nat) :
    contents { state with sched := { state.sched with registry := registry, detached := detached } } =
      Function.update (contents state) .detached detached := by
  funext spot
  cases spot <;> simp [contents]

/-- The creation of a thread. -/
theorem create_run {state : State cpus Blocker} {thread : Nat} {registry : Registry Blocker}
    (new : thread ∉ state.sched.registry.createdThreads)
    (created : registry.createdThreads = thread :: state.sched.registry.createdThreads) :
    Run (view state) (view { state with sched := { state.sched with
      registry := registry, detached := thread :: state.sched.detached } }) := by
  have step : Handovers.Step owner (view state) _ :=
    .create (view state) .detached thread (thread :: state.sched.detached) new (.refl _)
  have after : view { state with sched := { state.sched with
      registry := registry, detached := thread :: state.sched.detached } } = { view state with
        held := Function.update (contents state) .detached (thread :: state.sched.detached)
        known := thread :: state.sched.registry.createdThreads } := by
    rw [← created, ← contents_detached state registry]
    rfl
  rw [after]
  exact .single step

/-- The creator of a thread frees it. -/
theorem abandon_run (state : State cpus Blocker) (thread : Nat)
    (held : thread ∈ state.sched.detached) :
    Run (view state) (view { state with sched := { state.sched with
      registry := threadFree state.sched.registry thread
      detached := state.sched.detached.erase thread } }) :=
  discard_view (List.perm_cons_erase held) (contents_detached state _ _) rfl rfl

omit [DecidableEq Blocker] in
/-- Writing data of the running thread moves nothing. -/
theorem view_editRunning (state : State cpus Blocker) (cpu : Fin (cpus + 1))
    (edit : Thread Blocker → Thread Blocker) :
    view { state with sched := editRunning state.sched cpu edit } = view state := by
  rw [editRunning]
  split <;> rfl

/-- Every orderly action is a run of changes. -/
theorem perform_run {state after : State cpus Blocker} {action : Action cpus Blocker}
    (orderly : Orderly state action) (performed : perform state action = some after) :
    Run (view state) (view after) := by
  cases action with
  | trap cpu =>
    simp only [perform] at performed
    split at performed <;> simp only [Option.some.injEq, reduceCtorEq] at performed
    rename_i ready
    subst performed
    rw [view_turn state cpu _ (by rw [ready]; rfl) (by rw [ready]; rfl)]
  | graveyard cpu kernelCode =>
    simp only [perform] at performed
    split at performed <;> simp only [Option.some.injEq, reduceCtorEq] at performed
    rename_i ready
    subst performed
    have freed := freeGraveyard_run state cpu
    have buried := buryRunning_run { state with sched := freeGraveyard state.sched cpu } cpu kernelCode
      (by simp [ready, Phase.published])
    have turned := view_turn { state with
      sched := buryRunning (freeGraveyard state.sched cpu) cpu kernelCode } cpu .deciding
      (by simp [ready, Phase.published]) (by simp [ready, Phase.inHand])
    rw [← turned] at buried
    exact freed.trans buried
  | decideNext cpu kernelCode uptime =>
    simp only [perform] at performed
    split at performed <;> simp only [Option.some.injEq, reduceCtorEq] at performed
    rename_i ready
    subst performed
    exact decideNext_run state cpu kernelCode uptime ready
  | queuePop cpu =>
    simp only [perform] at performed
    split at performed <;> simp only [Option.some.injEq, reduceCtorEq] at performed
    · rename_i levels level rest purpose ready
      subst performed
      exact queuePop_run ready
    · rename_i levels purpose ready
      subst performed
      rw [view_turn state cpu]
      · rw [ready]
        cases purpose <;> rfl
      · rw [ready]
        rfl
  | requeue cpu kernelCode =>
    simp only [perform] at performed
    split at performed <;> simp only [Option.some.injEq, reduceCtorEq] at performed
    · rename_i next running ready runs
      subst performed
      exact requeue_run state cpu kernelCode running next ready runs
    · rename_i ready
      subst performed
      rw [view_turn state cpu _ (by rw [ready]; rfl) (by rw [ready]; rfl)]
  | loadStore cpu uptime =>
    simp only [perform] at performed
    split at performed <;> simp only [Option.some.injEq, reduceCtorEq] at performed
    · rename_i next ready
      subst performed
      exact loadStore_run uptime (by rw [ready]; rfl) (by rw [ready]; rfl)
    · rename_i next ready
      subst performed
      exact loadStore_run uptime (by rw [ready]; rfl) (by rw [ready]; rfl)
  | unblock blocker =>
    simp only [perform] at performed
    split at performed <;> simp only [Option.some.injEq, reduceCtorEq] at performed
    rename_i thread rest listed
    subst performed
    exact takeFirst_run _ listed
  | expire blocker uptime =>
    simp only [perform] at performed
    split at performed
    · contradiction
    · rename_i thread rest listed
      simp only [Option.ite_none_right_eq_some, Option.some.injEq] at performed
      obtain ⟨-, rfl⟩ := performed
      exact takeFirst_run _ listed
  | push thread cpu =>
    simp only [perform, Option.ite_none_right_eq_some, Option.some.injEq] at performed
    obtain ⟨held, rfl⟩ := performed
    exact pushTo_run held orderly
  | spawn process thread priority =>
    simp only [perform, Option.ite_none_right_eq_some, Option.some.injEq] at performed
    obtain ⟨⟨new, -⟩, rfl⟩ := performed
    exact create_run new rfl
  | split cpu thread priority kernelCode =>
    simp only [perform] at performed
    split at performed
    · simp only [Option.ite_none_right_eq_some, Option.some.injEq] at performed
      obtain ⟨new, rfl⟩ := performed
      exact create_run new rfl
    · contradiction
  | abandon thread =>
    simp only [perform, Option.ite_none_right_eq_some, Option.some.injEq] at performed
    obtain ⟨⟨held, -⟩, rfl⟩ := performed
    exact abandon_run state thread held
  | block cpu blocker timeout uptime =>
    simp only [perform] at performed
    split at performed <;> simp only [Option.some.injEq, reduceCtorEq] at performed
    subst performed
    rw [schedBlock, view_editRunning]
  | yield cpu =>
    simp only [perform] at performed
    split at performed <;> simp only [Option.some.injEq, reduceCtorEq] at performed
    subst performed
    rw [schedYield, view_editRunning]
  | threadExit cpu =>
    simp only [perform] at performed
    split at performed <;> simp only [Option.some.injEq, reduceCtorEq] at performed
    subst performed
    rw [schedThreadExit, view_editRunning]
  | processExit cpu =>
    simp only [perform] at performed
    split at performed <;> simp only [Option.some.injEq, reduceCtorEq] at performed
    subst performed
    have exited := view_editRunning state cpu (fun data => { data with killed := true })
    rw [schedProcessExit]
    split
    · exact .refl
    · rw [← exited]
      exact .refl

/-- At the start the only thread is in the running slot of the first processor. -/
theorem initial_safe (start : State cpus Blocker) (initial : Initial start) :
    Safe owner (view start) := by
  obtain ⟨process, thread, rfl⟩ := initial
  have held : contents (⟨schedInit process thread, fun _ => .outside⟩ : State cpus Blocker) =
      Function.update (fun _ => []) (.own 0 .run) [thread] := by
    funext spot
    cases spot with
    | own cpu part =>
      by_cases here : cpu = 0
      · subst here
        cases part <;> simp [contents, parts, schedInit, Phase.published, Phase.inHand]
      · cases part <;> simp [contents, parts, schedInit, Phase.published, Phase.inHand, here]
    | _ => simp [contents, schedInit]
  have clings : (⟨schedInit process thread, fun _ => .outside⟩ : State cpus Blocker).publishing =
      fun _ => none := rfl
  have empty : Safe owner
      (⟨fun _ => [], fun _ => none, []⟩ : View (Spot cpus Blocker) (Fin (cpus + 1)) Nat) :=
    ⟨⟨by simp, by simp⟩, by simp, by simp, by simp, by simp⟩
  have created := step_safe owner _ _ empty
    (.create _ (.own 0 .run) thread [thread] (by simp) (.refl _))
  rw [view, held, clings]
  exact created

omit [DecidableEq Blocker] in
/-- A running thread is published or in its slot. -/
theorem running_cases {state : State cpus Blocker} {cpu : Fin (cpus + 1)} {thread : Nat}
    (runs : (state.sched.contexts cpu).runThread = some thread) :
    state.publishing cpu = some thread ∨ thread ∈ contents state (.own cpu .run) := by
  cases published : (state.phase cpu).published with
  | true =>
    left
    rw [State.publishing, published]
    exact runs
  | false =>
    right
    simp [contents, parts, published, runs]

omit [DecidableEq Blocker] in
/-- Processors that are kept apart run different threads. -/
theorem safe_separate (state : State cpus Blocker) (safe : Safe owner (view state)) :
    Separate state := by
  have published : ∀ first second thread, state.publishing first = some thread →
      (state.sched.contexts second).runThread = some thread → first = second := by
    intro first second thread publishes runs
    rcases running_cases runs with alsoPublishes | inSlot
    · exact safe.single first second thread publishes alsoPublishes
    · exact clings_owner safe (.own second .run) thread inSlot second first rfl publishes
  refine ⟨fun first second thread firstRuns secondRuns => ?_, published⟩
  rcases running_cases firstRuns with publishes | inSlot
  · exact published first second thread publishes secondRuns
  · rcases running_cases secondRuns with publishes | alsoInSlot
    · exact (published second first thread publishes firstRuns).symm
    · have same := safe.exclusive.apart (.own first .run) (.own second .run) thread inSlot alsoInSlot
      exact (Spot.own.inj same).1

/-- In every run of orderly actions, on any number of processors, no thread ever
is the running thread of two processors, and none is loaded by one processor
while another one has published it and not yet replaced its own. -/
theorem orderly_switches_separate (state : State cpus Blocker)
    (reached : Reachable Initial OrderlyStep state) : Separate state := by
  have preserved : ∀ before after : State cpus Blocker, Safe owner (view before) →
      OrderlyStep before after → Safe owner (view after) := by
    rintro before after safe ⟨action, orderly, performed⟩
    exact run_safe owner (perform_run orderly performed) safe
  exact safe_separate state (reachable_invariant initial_safe preserved reached)

/-- A list of actions is a run of any relation that has all of them. -/
theorem performAll_run (related : State cpus Blocker → State cpus Blocker → Prop)
    (start state : State cpus Blocker) (actions : List (Action cpus Blocker))
    (each : ∀ action ∈ actions, ∀ before after, perform before action = some after →
      related before after)
    (performed : actions.foldlM perform start = some state) :
    Relation.ReflTransGen related start state := by
  induction actions generalizing start with
  | nil =>
    obtain rfl : start = state := Option.some.inj performed
    exact .refl
  | cons action rest ih =>
    obtain ⟨next, first, later⟩ := Option.bind_eq_some_iff.mp performed
    exact .head (each action List.mem_cons_self start next first)
      (ih next (fun other member => each other (List.mem_cons_of_mem _ member)) later)

/-- Two processors after `sched_init`. -/
def sampleStart : State 1 Unit := ⟨schedInit 0 0, fun _ => .outside⟩

/-- The thread of the first processor blocks; while the processor has published it
and still looks for another one, an interrupt on the idle second processor wakes
it. -/
def wakingActions : List (Action 1 Unit) :=
  [.block 0 () never 0, .trap 0, .graveyard 0 true, .decideNext 0 true 0, .unblock ()]

/-- The second processor is given the thread and loads it. -/
def loadingActions : List (Action 1 Unit) :=
  [.push 0 1, .trap 1, .graveyard 1 true, .decideNext 1 true 0, .queuePop 1, .loadStore 1 0]

/-- The second processor, which `sched_push` chooses, loads a thread that the first
one has not yet left. -/
theorem thread_on_two_cpus :
    ∃ waked state : State 1 Unit, Reachable Initial Step waked ∧
      pickCpu (fun cpu => contextThreadAmount (waked.sched.contexts cpu)) 0 (2 ^ 63 - 1)
        (List.finRange 2) = 1 ∧
      Relation.ReflTransGen Step waked state ∧ Reachable Initial Step state ∧
      (state.sched.contexts 0).runThread = some 0 ∧ (state.sched.contexts 1).runThread = some 0 ∧
      state.publishing 0 = some 0 ∧ ¬ Separate state := by
  have each : ∀ actions : List (Action 1 Unit), ∀ action ∈ actions, ∀ before after,
      perform before action = some after → Step before after :=
    fun _ action _ _ _ performed => ⟨action, performed⟩
  have waking := performAll_run Step sampleStart _ wakingActions (each _) rfl
  have loading := performAll_run Step _ _ loadingActions (each _) (show loadingActions.foldlM perform
    ((wakingActions.foldlM perform sampleStart).get rfl) = some _ from rfl)
  have initial : Initial sampleStart := ⟨0, 0, rfl⟩
  refine ⟨_, _, ⟨sampleStart, initial, waking⟩, ?_, loading,
    ⟨sampleStart, initial, waking.trans loading⟩, rfl, rfl, rfl, fun separate => ?_⟩
  · rfl
  · exact absurd (separate.running 0 1 0 rfl rfl) (by decide)

/-- The first processor leaves the thread before it is woken. -/
def leavingActions : List (Action 1 Unit) :=
  [.block 0 () never 0, .trap 0, .graveyard 0 true, .decideNext 0 true 0, .queuePop 0, .queuePop 0,
    .queuePop 0, .queuePop 0, .loadStore 0 0, .unblock ()]

/-- The same wakeup is harmless if it comes after the first processor has left the
thread. -/
theorem orderly_switches_separate_sample :
    ∃ state : State 1 Unit, Reachable Initial OrderlyStep state ∧
      (state.sched.contexts 1).runThread = some 0 ∧
      (state.sched.contexts 0).runThread ≠ some 0 := by
  have quiet : ∀ actions : List (Action 1 Unit), (∀ action ∈ actions, ∀ state, Orderly state action) →
      ∀ action ∈ actions, ∀ before after, perform before action = some after →
        OrderlyStep before after :=
    fun _ orderly action member before _ performed =>
      ⟨action, orderly action member before, performed⟩
  have leaving := performAll_run OrderlyStep sampleStart _ leavingActions
    (quiet _ (by simp [leavingActions, Orderly])) rfl
  have pushed := leaving.tail (show OrderlyStep _ _ from
    ⟨.push 0 1, (by unfold Orderly; decide), rfl⟩)
  have loaded := pushed.trans (performAll_run OrderlyStep _ _ loadingActions.tail
    (quiet _ (by simp [loadingActions, Orderly])) rfl)
  have reached : Reachable Initial OrderlyStep _ := ⟨sampleStart, ⟨0, 0, rfl⟩, loaded⟩
  have separate := orderly_switches_separate _ reached
  refine ⟨_, reached, rfl, fun runs => ?_⟩
  exact absurd (separate.running 0 1 0 runs rfl) (by decide)

end Asym.ThreadSwitches
