import Asym.ThreadCustody
import Asym.ThreadSelection
import Mathlib.Data.List.Flatten

/-!
# The order of priorities

When `sched_schedule` has chosen a thread, the other threads in the queues of the processor
should not have a higher priority. A thread that is idle, dead or blocked is replaced by the
first thread of the highest priority. A thread whose time slice goes on is replaced by a
thread of a higher priority only.

A thread whose time slice has ended is replaced by the first thread of the highest priority
that is queued, even if its own priority is higher. It then waits behind a thread of a lower
priority, and this is the only way in which the order is lost.

Threads that are freed on the way, from the graveyard or from the queues, may wake others,
as in the module on the choice of a thread. So `sched_schedule` is followed here on its own
processor: the context and the data of threads. What it pushes to other processors is left
out. Where nothing is woken, this is the scheduler's model.
-/

namespace Asym.SchedulingOrder

open Scheduler ThreadSelection
open ThreadCustody (takeWaiting timeOut)

variable {cpus : Nat} {Blocker : Type}

/-- What `sched_schedule` works on: the context of its processor, and the threads. -/
structure Processor (Blocker : Type) where
  context : Context
  registry : Registry Blocker

/-- A thread in a queue of a processor that is not dead. -/
def Waits (here : Processor Blocker) (thread : Nat) : Prop :=
  (∃ level, thread ∈ here.context.queues level) ∧ dead here.registry thread = false

/-- No live thread in the queues of a processor has a higher priority than the one that
runs there. -/
def Respects (here : Processor Blocker) : Prop :=
  ∀ running, here.context.runThread = some running → ∀ thread, Waits here thread →
    ¬ (here.registry.threads running).priority < (here.registry.threads thread).priority

/-- The threads in the queues of a processor are in the queues of their priorities. -/
def Leveled (registry : Registry Blocker) (queues : Queues) : Prop :=
  ∀ level, ∀ thread ∈ queues level, (registry.threads thread).priority = level

/-- `sched_context_find_any`. -/
def findAny (woken : Nat → List Nat) (queues : Queues) (registry : Registry Blocker) :
    Option Nat × Queues × Registry Blocker :=
  ThreadSelection.findThread woken [2, 1, 0] (queuedAmount queues + 1) queues registry

/-- `sched_context_find_higher`. -/
def findHigher (woken : Nat → List Nat) (queues : Queues) (registry : Registry Blocker) (priority : Priority) :
    Option Nat × Queues × Registry Blocker :=
  ThreadSelection.findThread woken ([2, 1, 0].filter (fun level => level > priority)) (queuedAmount queues + 1)
    queues registry

/-- The loop of `sched_update_graveyard`. -/
def freeGraveyard (woken : Nat → List Nat) (here : Processor Blocker) : Processor Blocker where
  context := { here.context with
    graveyard := []
    queues := pushAll here.registry here.context.queues (wokenAll woken here.registry here.context.graveyard) }
  registry := here.context.graveyard.foldl (freeThread woken) here.registry

/-- The second half of `sched_update_graveyard`: a killed running thread is buried. -/
def buryRunning (here : Processor Blocker) (kernelCode : Bool) : Processor Blocker :=
  match here.context.runThread with
  | none => here
  | some thread =>
      let data := here.registry.threads thread
      if data.killed || ((here.registry.processes data.process).killed && !kernelCode) then
        { here with context := { here.context with
            graveyard := here.context.graveyard ++ [thread]
            runThread := none } }
      else here

/-- The part of `sched_schedule` that chooses the next thread. -/
def chooseNext (woken : Nat → List Nat) (here : Processor Blocker) (trap : Trap) : Processor Blocker :=
  let context := here.context
  match context.runThread with
  | none =>
      let (next, queues, registry) := findAny woken context.queues here.registry
      { context := { context with queues := queues, runThread := next }
        registry := threadLoad registry next trap.loadUptime }
  | some running =>
      match (here.registry.threads running).blocker with
      | some _ =>
          -- `blocker_push` changes neither the context nor the data of a thread.
          let (next, queues, registry) :=
            findAny woken context.queues (threadSave here.registry running trap.kernelCode)
          { context := { context with queues := queues, runThread := next }
            registry := threadLoad registry next trap.loadUptime }
      | none =>
          let data := here.registry.threads running
          let (next, queues, registry) :=
            if data.timeEnd < trap.sliceUptime then findAny woken context.queues here.registry
            else findHigher woken context.queues here.registry data.priority
          match next with
          | none => { context := { context with queues := queues }, registry := registry }
          | some thread => {
              context := { context with
                queues := contextPush queues running data.priority
                runThread := some thread }
              registry := threadLoad (threadSave registry running trap.kernelCode) (some thread)
                trap.loadUptime }

/-- The state in which `sched_schedule` chooses the next thread: expired sleepers were woken
and dead threads buried. -/
def ready [DecidableEq Blocker] (woken : Nat → List Nat) (sched : Sched cpus Blocker) (cpu : Fin (cpus + 1))
    (trap : Trap) : Processor Blocker :=
  let updated := if cpu = 0 then updateBlockers sched trap.blockerUptime else sched
  buryRunning (freeGraveyard woken ⟨updated.contexts cpu, updated.registry⟩) trap.kernelCode

/-- `sched_schedule`. -/
def schedule [DecidableEq Blocker] (woken : Nat → List Nat) (sched : Sched cpus Blocker) (cpu : Fin (cpus + 1))
    (trap : Trap) : Processor Blocker :=
  if trap.trapDepth > 1 then ⟨sched.contexts cpu, sched.registry⟩
  else chooseNext woken (ready woken sched cpu trap) trap

section Quiet

/-- Nothing is woken. -/
def quiet : Nat → List Nat := fun _ => []

/-- Freeing without waking. -/
theorem freeThread_quiet (registry : Registry Blocker) (thread : Nat) :
    wokenBy quiet registry thread = [] ∧ freeThread quiet registry thread = threadFree registry thread := by
  have none : wokenBy quiet registry thread = [] := ite_self []
  refine ⟨none, ?_⟩
  rw [freeThread, none]
  rfl

/-- A search without waking. -/
theorem findThread_quiet (levels : List Priority) (fuel : Nat) (queues : Queues) (registry : Registry Blocker) :
    ThreadSelection.findThread quiet levels fuel queues registry =
      Scheduler.findThread levels fuel queues registry := by
  induction fuel generalizing queues registry with
  | zero => rfl
  | succ fuel ih =>
    rw [ThreadSelection.findThread, Scheduler.findThread]
    cases popFirst queues levels with
    | none => rfl
    | some pair =>
      simp only
      rw [ih, (freeThread_quiet _ _).1, (freeThread_quiet _ _).2]
      rfl

/-- The graveyard without waking. -/
theorem freeGraveyard_quiet (sched : Sched cpus Blocker) (cpu : Fin (cpus + 1)) :
    freeGraveyard quiet ⟨sched.contexts cpu, sched.registry⟩ =
      ⟨(Scheduler.freeGraveyard sched cpu).contexts cpu, (Scheduler.freeGraveyard sched cpu).registry⟩ := by
  have frees : freeThread quiet = @threadFree Blocker := by
    funext registry thread
    exact (freeThread_quiet registry thread).2
  have none (threads : List Nat) (registry : Registry Blocker) : wokenAll quiet registry threads = [] := by
    induction threads generalizing registry with
    | nil => rfl
    | cons thread rest ih =>
      rw [wokenAll, ih, (freeThread_quiet _ _).1]
      rfl
  simp [freeGraveyard, Scheduler.freeGraveyard, none, frees, pushAll]

/-- Burying the thread that runs. -/
theorem buryRunning_here (sched : Sched cpus Blocker) (cpu : Fin (cpus + 1)) (kernelCode : Bool) :
    buryRunning ⟨sched.contexts cpu, sched.registry⟩ kernelCode =
      ⟨(Scheduler.buryRunning sched cpu kernelCode).contexts cpu,
        (Scheduler.buryRunning sched cpu kernelCode).registry⟩ := by
  simp only [buryRunning, Scheduler.buryRunning]
  cases (sched.contexts cpu).runThread with
  | none => rfl
  | some thread =>
    simp only
    split_ifs
    · simp
    · rfl

variable [DecidableEq Blocker]

/-- The choice without waking. -/
theorem chooseNext_quiet (sched : Sched cpus Blocker) (cpu : Fin (cpus + 1)) (trap : Trap) :
    chooseNext quiet ⟨sched.contexts cpu, sched.registry⟩ trap =
      ⟨(Scheduler.chooseNext sched cpu trap).contexts cpu, (Scheduler.chooseNext sched cpu trap).registry⟩ := by
  have any : findAny quiet = @Scheduler.findAny Blocker := by
    funext queues registry
    exact findThread_quiet _ _ queues registry
  have higher : findHigher quiet = @Scheduler.findHigher Blocker := by
    funext queues registry priority
    exact findThread_quiet _ _ queues registry
  simp only [chooseNext, Scheduler.chooseNext, any, higher]
  cases (sched.contexts cpu).runThread with
  | none => simp
  | some running =>
    simp only
    cases (sched.registry.threads running).blocker with
    | some blocker => simp
    | none =>
      simp only
      split_ifs
      · rcases Scheduler.findAny (sched.contexts cpu).queues sched.registry with ⟨_ | thread, queues, registry⟩
        · simp
        · simp
      · rcases Scheduler.findHigher (sched.contexts cpu).queues sched.registry
          (sched.registry.threads running).priority with ⟨_ | thread, queues, registry⟩
        · simp
        · simp

/-- Where nothing is woken, this is what the scheduler's model does on its processor. -/
theorem schedule_quiet (sched : Sched cpus Blocker) (cpu : Fin (cpus + 1)) (trap : Trap) :
    schedule quiet sched cpu trap =
      ⟨(schedSchedule sched cpu trap).contexts cpu, (schedSchedule sched cpu trap).registry⟩ := by
  rw [schedule, schedSchedule]
  by_cases deep : trap.trapDepth > 1
  · rw [if_pos deep, if_pos deep]
  · rw [if_neg deep, if_neg deep, ready, freeGraveyard_quiet, buryRunning_here, chooseNext_quiet]

end Quiet

section Selection

variable {woken : Nat → List Nat} {levels : List Priority} {queues left : Queues}
variable {registry after : Registry Blocker} {found : Option Nat}

/-- What is left was queued before. -/
theorem subset_of_taken {threads : List Nat} (taken : Taken levels queues threads left) (level : Priority) :
    left level ⊆ queues level := by
  obtain ⟨removed, parts, _⟩ := taken
  rw [parts level]
  exact List.subset_append_right _ _

/-- A selection keeps priorities, and which threads are dead. -/
theorem selects_alike (selects : Selects woken levels queues registry found left after) : Alike registry after := by
  rw [selects.freed]
  exact Alike.foldl (Alike.freeThread woken) _ registry

/-- If no thread is found, all threads of the levels are dead. -/
theorem dead_of_none (selects : Selects woken levels queues registry none left after) {level : Priority}
    (member : level ∈ levels) {thread : Nat} (queued : thread ∈ entered woken levels queues registry level) :
    dead registry thread = true := by
  have absent := selects.first.symm
  rw [order, List.find?_flatMap_eq_none_iff] at absent
  simpa using absent level member thread queued

/-- The thread that is found is alive, and the threads of the levels before its level are
dead. -/
theorem top_of_some {thread : Nat} (sorted : levels.Pairwise (· > ·))
    (selects : Selects woken levels queues registry (some thread) left after) :
    ∃ level ∈ levels, thread ∈ entered woken levels queues registry level ∧ dead registry thread = false ∧
      ∀ higher ∈ levels, level < higher → ∀ other ∈ entered woken levels queues registry higher,
        dead registry other = true := by
  have first := selects.first.symm
  rw [order, List.find?_flatMap, List.findSome?_eq_some_iff] at first
  obtain ⟨above, level, below, split, here, silent⟩ := first
  have alive := List.find?_some here
  refine ⟨level, by simp [split], List.mem_of_find?_eq_some here, by simpa using alive, ?_⟩
  intro higher member less other queued
  rw [split, List.mem_append, List.mem_cons] at member
  rw [split, List.pairwise_append, List.pairwise_cons] at sorted
  rcases member with before | rfl | later
  · have nothing := silent higher before
    rw [List.find?_eq_none] at nothing
    simpa using nothing other queued
  · exact absurd less (Nat.lt_irrefl _)
  · exact absurd (sorted.2.1.1 higher later) (Nat.lt_asymm less)

/-- Pushed threads come into the queues of their priorities. -/
theorem Leveled.pushAll (leveled : Leveled registry queues) (threads : List Nat) :
    Leveled registry (ThreadSelection.pushAll registry queues threads) := by
  intro level thread queued
  rw [pushAll_apply, List.mem_append, List.mem_filter, decide_eq_true_iff] at queued
  exact queued.elim (leveled level thread) And.right

/-- A search that looks at all levels above those it looks at finds a live thread that no
live thread is above. -/
theorem highest_of_some {thread : Nat} (sorted : levels.Pairwise (· > ·))
    (upward : ∀ level ∈ levels, ∀ higher, level < higher → higher ∈ levels)
    (leveled : Leveled registry queues) (selects : Selects woken levels queues registry (some thread) left after) :
    (registry.threads thread).priority ∈ levels ∧ (∃ level, thread ∈ entered woken levels queues registry level) ∧
      dead registry thread = false ∧ ∀ level, ∀ other ∈ entered woken levels queues registry level,
        dead registry other = false →
          ¬ (registry.threads thread).priority < (registry.threads other).priority := by
  obtain ⟨level, member, here, alive, above⟩ := top_of_some sorted selects
  have all : Leveled registry (entered woken levels queues registry) := leveled.pushAll _
  have priority := all level thread here
  rw [priority]
  refine ⟨member, ⟨level, here⟩, alive, fun higher other queued otherAlive less => ?_⟩
  rw [all higher other queued] at less
  have isDead := above higher (upward level member higher less) less other queued
  rw [otherAlive] at isDead
  cases isDead

/-- The levels that `sched_context_find_any` looks at. -/
theorem every_level (level : Priority) : level ∈ ([2, 1, 0] : List Priority) := by
  revert level
  decide

/-- The levels that both searches look at are met in decreasing order. -/
theorem sorted_levels (keeps : Priority → Bool) : (([2, 1, 0] : List Priority).filter keeps).Pairwise (· > ·) :=
  List.Pairwise.filter keeps (by decide)

/-- There are no more dead threads than threads. -/
theorem deadAmount_le (keeps : Priority → Bool) (queues : Queues) (registry : Registry Blocker) :
    deadAmount (([2, 1, 0] : List Priority).filter keeps) queues registry ≤ queuedAmount queues := by
  refine List.countP_le_length.trans ?_
  have shorter : (order (([2, 1, 0] : List Priority).filter keeps) queues).length ≤ (order [2, 1, 0] queues).length :=
    (List.filter_sublist.flatMap queues).length_le
  refine shorter.trans (le_of_eq ?_)
  simp [order, queuedAmount, Nat.add_assoc]

/-- What `sched_context_find_any` selects. -/
theorem findAny_selects (queues : Queues) (awake : Awake woken registry) :
    Selects woken [2, 1, 0] queues registry (findAny woken queues registry).1
      (findAny woken queues registry).2.1 (findAny woken queues registry).2.2 :=
  findThread_selects (sorted_levels fun _ => true) (fun _ _ higher _ => every_level higher) _ queues registry awake
    (Nat.lt_succ_of_le (deadAmount_le (fun _ => true) queues registry))

/-- The levels above a priority. -/
theorem higherLevel (priority level : Priority) :
    level ∈ (([2, 1, 0] : List Priority).filter fun level => level > priority) ↔ priority < level := by
  rw [List.mem_filter, decide_eq_true_iff]
  exact and_iff_right (every_level level)

/-- What `sched_context_find_higher` selects. -/
theorem findHigher_selects (queues : Queues) (priority : Priority) (awake : Awake woken registry) :
    Selects woken (([2, 1, 0] : List Priority).filter fun level => level > priority) queues registry
      (findHigher woken queues registry priority).1 (findHigher woken queues registry priority).2.1
      (findHigher woken queues registry priority).2.2 := by
  refine findThread_selects (sorted_levels _) (fun level member higher less => ?_) _ queues registry awake
    (Nat.lt_succ_of_le (deadAmount_le _ queues registry))
  rw [higherLevel] at member ⊢
  exact lt_trans member less

end Selection

section Updates

/-- Only the priorities of queued threads matter. -/
theorem Leveled.kept {registry after : Registry Blocker} {queues left : Queues} (leveled : Leveled registry queues)
    (same : ∀ level, ∀ thread ∈ queues level, (after.threads thread).priority = (registry.threads thread).priority)
    (subset : ∀ level, left level ⊆ queues level) : Leveled after left := by
  intro level thread queued
  rw [same level thread (subset level queued)]
  exact leveled level thread (subset level queued)

/-- Edits that keep priorities. -/
theorem editThread_priority (registry : Registry Blocker) (edited thread : Nat)
    {edit : Thread Blocker → Thread Blocker} (same : ∀ data, (edit data).priority = data.priority) :
    ((registry.editThread edited edit).threads thread).priority = (registry.threads thread).priority := by
  by_cases here : thread = edited
  · subst here
    simp [Registry.editThread, same]
  · simp [Registry.editThread, here]

/-- Edits that keep priorities keep threads in the queues of their priorities. -/
theorem Leveled.edit {registry : Registry Blocker} {queues : Queues} (leveled : Leveled registry queues)
    (edited : Nat) {edit : Thread Blocker → Thread Blocker}
    (same : ∀ data, (edit data).priority = data.priority) : Leveled (registry.editThread edited edit) queues :=
  leveled.kept (fun _ thread _ => editThread_priority registry edited thread same)
    fun _ => List.Subset.refl _

/-- Pushing a thread. -/
theorem Leveled.pushed {sched : Sched cpus Blocker} {cpu : Fin (cpus + 1)} (thread : Nat)
    (leveled : Leveled sched.registry (sched.contexts cpu).queues) :
    Leveled sched.registry ((schedPush sched thread).contexts cpu).queues := by
  rw [Scheduler.schedPush]
  generalize pickCpu _ _ _ _ = picked
  by_cases here : cpu = picked
  · subst here
    have pushed := leveled.pushAll [thread]
    simpa [ThreadSelection.pushAll] using pushed
  · simpa [here] using leveled

variable [DecidableEq Blocker]

/-- Waking the expired sleepers keeps threads in the queues of their priorities. -/
theorem Leveled.woken {sched : Sched cpus Blocker} {cpu : Fin (cpus + 1)} (uptime : Nat)
    (leveled : Leveled sched.registry (sched.contexts cpu).queues) :
    Leveled (updateBlockers sched uptime).registry ((updateBlockers sched uptime).contexts cpu).queues := by
  rw [Scheduler.updateBlockers]
  generalize sched.blockers = blockers
  induction blockers generalizing sched with
  | nil => exact leveled
  | cons blocker rest ih =>
    refine ih ?_
    rw [updateBlocker]
    split
    · exact leveled
    · next thread others waiting =>
      split
      · have edited : Leveled (takeWaiting sched blocker thread others timeOut).registry
            ((takeWaiting sched blocker thread others timeOut).contexts cpu).queues := leveled.edit thread fun _ => rfl
        exact Leveled.pushed thread edited
      · exact leveled

/-- Waking them on the first processor only. -/
theorem Leveled.updated {sched : Sched cpus Blocker} {tested : Fin (cpus + 1)} (cpu : Fin (cpus + 1)) (uptime : Nat)
    (leveled : Leveled sched.registry (sched.contexts tested).queues) :
    Leveled (if cpu = 0 then updateBlockers sched uptime else sched).registry
      ((if cpu = 0 then updateBlockers sched uptime else sched).contexts tested).queues := by
  split_ifs
  · exact leveled.woken uptime
  · exact leveled

end Updates

section Choice

variable {woken : Nat → List Nat} {here : Processor Blocker} {trap : Trap}

/-- A live thread that is queued, or that is woken when the dead threads at the front of the
queues are freed. -/
def Competes (woken : Nat → List Nat) (here : Processor Blocker) (thread : Nat) : Prop :=
  (∃ level, thread ∈ entered woken [2, 1, 0] here.context.queues here.registry level) ∧
    dead here.registry thread = false

/-- The time slice of the running thread has ended, and live threads compete with it, but
all of them have lower priorities. -/
def Demotes (woken : Nat → List Nat) (here : Processor Blocker) (trap : Trap) : Prop :=
  ∃ running, here.context.runThread = some running ∧ (here.registry.threads running).blocker = none ∧
    (here.registry.threads running).timeEnd < trap.sliceUptime ∧ (∃ thread, Competes woken here thread) ∧
    ∀ thread, Competes woken here thread →
      (here.registry.threads thread).priority < (here.registry.threads running).priority

/-- The threads that may be woken are not dead. All of them were saved in the kernel, where
they wait, but for the one that runs and asks to block, which is saved now. -/
def Sleeps (woken : Nat → List Nat) (here : Processor Blocker) : Prop :=
  ∀ process, ∀ thread ∈ woken process, dead here.registry thread = false ∨
    here.context.runThread = some thread ∧ (here.registry.threads thread).blocker ≠ none

/-- Burying changes no queue and no thread. -/
theorem buryRunning_same (here : Processor Blocker) (kernelCode : Bool) :
    (buryRunning here kernelCode).registry = here.registry ∧
      (buryRunning here kernelCode).context.queues = here.context.queues := by
  rw [buryRunning]
  split
  · exact ⟨rfl, rfl⟩
  · dsimp only
    split_ifs
    · exact ⟨rfl, rfl⟩
    · exact ⟨rfl, rfl⟩

/-- The thread that still runs is not dead when it is saved. -/
theorem buryRunning_alive {kernelCode : Bool} {running : Nat}
    (runs : (buryRunning here kernelCode).context.runThread = some running) :
    ((here.registry.processes (here.registry.threads running).process).killed && !kernelCode) = false := by
  rw [buryRunning] at runs
  split at runs
  · next idle =>
    rw [idle] at runs
    cases runs
  · next thread runsHere =>
    dsimp only at runs
    split_ifs at runs with dies
    rw [runsHere] at runs
    obtain rfl := Option.some.inj runs
    rw [Bool.or_eq_true, not_or] at dies
    exact Bool.eq_false_iff.mpr dies.2

/-- Threads are in the queues of their priorities when the next one is chosen. -/
theorem Leveled.chosen [DecidableEq Blocker] {sched : Sched cpus Blocker} (cpu : Fin (cpus + 1)) (trap : Trap)
    (leveled : Leveled sched.registry (sched.contexts cpu).queues) :
    Leveled (ready woken sched cpu trap).registry (ready woken sched cpu trap).context.queues := by
  have updated := leveled.updated cpu trap.blockerUptime
  rw [ready]
  obtain ⟨registry, queues⟩ := buryRunning_same (freeGraveyard woken
    ⟨(if cpu = 0 then updateBlockers sched trap.blockerUptime else sched).contexts cpu,
      (if cpu = 0 then updateBlockers sched trap.blockerUptime else sched).registry⟩) trap.kernelCode
  rw [registry, queues]
  refine (updated.pushAll _).kept (fun _ thread _ => ?_) fun _ => List.Subset.refl _
  exact (Alike.foldl (Alike.freeThread woken) _ _).priority thread

/-- Loading a thread changes no priority, and makes no thread dead or alive. -/
theorem threadLoad_same (registry : Registry Blocker) (next : Option Nat) (uptime thread : Nat) :
    ((threadLoad registry next uptime).threads thread).priority = (registry.threads thread).priority ∧
      dead (threadLoad registry next uptime) thread = dead registry thread := by
  cases next with
  | none => exact ⟨rfl, rfl⟩
  | some loaded =>
    by_cases here : thread = loaded
    · subst here
      simp [threadLoad, Registry.editThread, dead]
    · simp [threadLoad, Registry.editThread, dead, here]

/-- Saving a thread changes no priority. -/
theorem threadSave_priority (registry : Registry Blocker) (saved thread : Nat) (kernelCode : Bool) :
    ((threadSave registry saved kernelCode).threads thread).priority = (registry.threads thread).priority :=
  editThread_priority registry saved thread fun _ => rfl

/-- Saving a thread makes no other thread dead or alive. -/
theorem threadSave_dead (registry : Registry Blocker) {saved thread : Nat} (kernelCode : Bool)
    (other : thread ≠ saved) : dead (threadSave registry saved kernelCode) thread = dead registry thread := by
  simp [threadSave, Registry.editThread, dead, other]

/-- The thread that is saved is dead if it was interrupted outside the kernel and its
process is killed. -/
theorem threadSave_dead_self (registry : Registry Blocker) (saved : Nat) (kernelCode : Bool) :
    dead (threadSave registry saved kernelCode) saved =
      ((registry.processes (registry.threads saved).process).killed && !kernelCode) := by
  simp [threadSave, Registry.editThread, dead]

end Choice

section Preemption

variable {woken : Nat → List Nat} {levels : List Priority} {queues left : Queues} {here : Processor Blocker}
variable {registry after : Registry Blocker} {found : Option Nat} {running uptime : Nat} {kernelCode : Bool}

/-- A processor whose thread was given up runs the highest of its live threads. -/
theorem respects_found (sorted : levels.Pairwise (· > ·))
    (upward : ∀ level ∈ levels, ∀ higher, level < higher → higher ∈ levels) (leveled : Leveled registry queues)
    (selects : Selects woken levels queues registry found left after) (runs : here.context.runThread = found)
    (queued : here.context.queues = left) (loaded : here.registry = threadLoad after found uptime) :
    Respects here := by
  intro running here' thread ⟨⟨level, member⟩, alive⟩
  rw [runs] at here'
  subst here'
  obtain ⟨-, -, -, highest⟩ := highest_of_some sorted upward leveled selects
  have same := selects_alike selects
  rw [loaded, (threadLoad_same _ _ _ _).2, same.dead] at alive
  rw [loaded, (threadLoad_same _ _ _ _).1, (threadLoad_same _ _ _ _).1, same.priority, same.priority]
  rw [queued] at member
  exact highest level thread (subset_of_taken selects.taken level member) alive

/-- A processor that keeps its thread runs one that no live thread is above, if the search
looked at all levels above it. -/
theorem respects_kept (leveled : Leveled registry queues)
    (selects : Selects woken levels queues registry none left after)
    (above : ∀ level, (registry.threads running).priority < level → level ∈ levels)
    (runs : here.context.runThread = some running) (queued : here.context.queues = left)
    (kept : here.registry = after) : Respects here := by
  intro ran runsToo thread ⟨⟨level, member⟩, alive⟩ less
  rw [runs] at runsToo
  obtain rfl := Option.some.inj runsToo
  have same := selects_alike selects
  rw [kept, same.priority, same.priority] at less
  rw [kept, same.dead] at alive
  rw [queued] at member
  have before := subset_of_taken selects.taken level member
  have priority : (registry.threads thread).priority = level := leveled.pushAll _ level thread before
  rw [priority] at less
  rw [dead_of_none selects (above level less) before] at alive
  cases alive

/-- A processor that replaces its live thread by the one that was found runs the highest of
its live threads if and only if that one is not below the replaced one. -/
theorem respects_replaced {next : Nat} (sorted : levels.Pairwise (· > ·))
    (upward : ∀ level ∈ levels, ∀ higher, level < higher → higher ∈ levels) (leveled : Leveled registry queues)
    (selects : Selects woken levels queues registry (some next) left after)
    (survives : ((registry.processes (registry.threads running).process).killed && !kernelCode) = false)
    (runs : here.context.runThread = some next)
    (queued : here.context.queues = contextPush left running (registry.threads running).priority)
    (loaded : here.registry = threadLoad (threadSave after running kernelCode) (some next) uptime) :
    Respects here ↔ ¬ (registry.threads next).priority < (registry.threads running).priority := by
  obtain ⟨-, -, -, highest⟩ := highest_of_some sorted upward leveled selects
  have same := selects_alike selects
  have priority (thread : Nat) : (here.registry.threads thread).priority = (registry.threads thread).priority := by
    rw [loaded, (threadLoad_same _ _ _ _).1, threadSave_priority, same.priority]
  constructor
  · intro respects less
    refine respects next runs running ⟨⟨(registry.threads running).priority, ?_⟩, ?_⟩ ?_
    · rw [queued, contextPush, Function.update_self]
      exact List.mem_append_right _ List.mem_cons_self
    · rw [loaded, (threadLoad_same _ _ _ _).2, threadSave_dead_self, same.process, same.killed]
      exact survives
    · rw [priority, priority]
      exact less
  · rintro notLess ran runsToo thread ⟨⟨level, member⟩, alive⟩
    rw [runs] at runsToo
    obtain rfl := Option.some.inj runsToo
    rw [priority, priority]
    by_cases replaced : thread = running
    · rw [replaced]
      exact notLess
    · rw [loaded, (threadLoad_same _ _ _ _).2, threadSave_dead _ _ replaced, same.dead] at alive
      have before : thread ∈ left level := by
        rw [queued, contextPush] at member
        by_cases pushed : level = (registry.threads running).priority
        · rw [pushed, Function.update_self, List.mem_append, List.mem_singleton] at member
          rw [pushed]
          exact member.resolve_right replaced
        · rwa [Function.update_of_ne pushed] at member
      exact highest level thread (subset_of_taken selects.taken level before) alive

end Preemption

section Schedule

variable {woken : Nat → List Nat} {here : Processor Blocker} {trap : Trap} {running : Nat}

/-- A processor without a thread that may go on runs the highest of its live threads. -/
theorem chooseNext_idle (sleeps : Sleeps woken here) (leveled : Leveled here.registry here.context.queues)
    (idle : here.context.runThread = none) : Respects (chooseNext woken here trap) := by
  have awake : Awake woken here.registry := by
    intro process thread member
    refine (sleeps process thread member).resolve_right ?_
    rintro ⟨runs, -⟩
    rw [idle] at runs
    cases runs
  rw [chooseNext, idle]
  exact respects_found (sorted_levels fun _ => true) (fun _ _ higher _ => every_level higher) leveled
    (findAny_selects here.context.queues awake) rfl rfl rfl

/-- A thread that asked to block is replaced by the highest of the live threads. -/
theorem chooseNext_blocked {blocker : Blocker} (sleeps : Sleeps woken here)
    (leveled : Leveled here.registry here.context.queues) (runs : here.context.runThread = some running)
    (survives : ((here.registry.processes (here.registry.threads running).process).killed &&
      !trap.kernelCode) = false)
    (blocks : (here.registry.threads running).blocker = some blocker) :
    Respects (chooseNext woken here trap) := by
  have saved : Leveled (threadSave here.registry running trap.kernelCode) here.context.queues :=
    leveled.edit running fun _ => rfl
  have awake : Awake woken (threadSave here.registry running trap.kernelCode) := by
    intro process thread member
    by_cases self : thread = running
    · rw [self, threadSave_dead_self]
      exact survives
    · rw [threadSave_dead _ _ self]
      refine (sleeps process thread member).resolve_right ?_
      rintro ⟨runsToo, -⟩
      rw [runs] at runsToo
      exact self (Option.some.inj runsToo).symm
  simp only [chooseNext, runs, blocks]
  exact respects_found (sorted_levels fun _ => true) (fun _ _ higher _ => every_level higher) saved
    (findAny_selects here.context.queues awake) rfl rfl rfl

/-- No thread that may be woken is dead while a thread runs that does not block. -/
theorem Sleeps.awake (sleeps : Sleeps woken here) (runs : here.context.runThread = some running)
    (stays : (here.registry.threads running).blocker = none) : Awake woken here.registry := by
  intro process thread member
  refine (sleeps process thread member).resolve_right ?_
  rintro ⟨runsToo, blocks⟩
  rw [runs] at runsToo
  obtain rfl := Option.some.inj runsToo
  exact blocks stays

/-- The search of a processor whose thread may go on. -/
theorem chooseNext_running {levels : List Priority} {found : Option Nat} {left : Queues} {after : Registry Blocker}
    (runs : here.context.runThread = some running) (stays : (here.registry.threads running).blocker = none)
    (leveled : Leveled here.registry here.context.queues)
    (survives : ((here.registry.processes (here.registry.threads running).process).killed &&
      !trap.kernelCode) = false)
    (sorted : levels.Pairwise (· > ·))
    (above : ∀ level, (here.registry.threads running).priority < level → level ∈ levels)
    (upward : ∀ level ∈ levels, ∀ higher, level < higher → higher ∈ levels)
    (searches : (if (here.registry.threads running).timeEnd < trap.sliceUptime then
        findAny woken here.context.queues here.registry
      else findHigher woken here.context.queues here.registry (here.registry.threads running).priority) =
        (found, left, after))
    (selects : Selects woken levels here.context.queues here.registry found left after) :
    Respects (chooseNext woken here trap) ↔ ∀ next, found = some next →
      ¬ (here.registry.threads next).priority < (here.registry.threads running).priority := by
  simp only [chooseNext, runs, stays, searches]
  cases found with
  | none => exact iff_of_true (respects_kept leveled selects above rfl rfl rfl) fun next none => by cases none
  | some next =>
    refine (respects_replaced sorted upward leveled selects survives rfl rfl rfl).trans ?_
    constructor
    · rintro notLess found same
      obtain rfl := Option.some.inj same
      exact notLess
    · exact fun notLess => notLess next rfl

/-- A thread whose slice has ended is replaced by one of a lower priority if and only if all
live threads that compete with it have lower priorities. -/
theorem demotes_iff {found : Option Nat} {left : Queues} {after : Registry Blocker}
    (runs : here.context.runThread = some running) (stays : (here.registry.threads running).blocker = none)
    (ended : (here.registry.threads running).timeEnd < trap.sliceUptime)
    (leveled : Leveled here.registry here.context.queues)
    (selects : Selects woken [2, 1, 0] here.context.queues here.registry found left after) :
    Demotes woken here trap ↔ ∃ next, found = some next ∧
      (here.registry.threads next).priority < (here.registry.threads running).priority := by
  cases found with
  | none =>
    refine iff_of_false ?_ (by rintro ⟨next, none, -⟩; cases none)
    rintro ⟨_, _, _, _, ⟨thread, ⟨level, queued⟩, alive⟩, _⟩
    rw [dead_of_none selects (every_level level) queued] at alive
    cases alive
  | some next =>
    obtain ⟨-, queued, alive, highest⟩ := highest_of_some (sorted_levels fun _ => true)
      (fun _ _ higher _ => every_level higher) leveled selects
    constructor
    · rintro ⟨_, runsToo, -, -, -, below⟩
      rw [runs] at runsToo
      obtain rfl := Option.some.inj runsToo
      exact ⟨next, rfl, below next ⟨queued, alive⟩⟩
    · rintro ⟨_, same, less⟩
      obtain rfl := Option.some.inj same
      refine ⟨running, runs, stays, ended, ⟨next, queued, alive⟩, ?_⟩
      rintro thread ⟨⟨level, member⟩, lives⟩
      exact lt_of_le_of_lt (not_lt.mp (highest level thread member lives)) less

/-- A thread whose slice has ended is replaced by the highest live thread. -/
theorem chooseNext_ended (sleeps : Sleeps woken here) (runs : here.context.runThread = some running)
    (stays : (here.registry.threads running).blocker = none)
    (leveled : Leveled here.registry here.context.queues)
    (survives : ((here.registry.processes (here.registry.threads running).process).killed &&
      !trap.kernelCode) = false)
    (ended : (here.registry.threads running).timeEnd < trap.sliceUptime) :
    Respects (chooseNext woken here trap) ↔ ¬ Demotes woken here trap := by
  have selects := findAny_selects here.context.queues (sleeps.awake runs stays)
  rw [chooseNext_running runs stays leveled survives (sorted_levels fun _ => true) (fun level _ => every_level level)
      (fun _ _ higher _ => every_level higher) (if_pos ended) selects,
    demotes_iff runs stays ended leveled selects]
  push Not
  rfl

/-- A thread whose slice goes on is replaced by a higher one only. -/
theorem chooseNext_goesOn (sleeps : Sleeps woken here) (runs : here.context.runThread = some running)
    (stays : (here.registry.threads running).blocker = none)
    (leveled : Leveled here.registry here.context.queues)
    (survives : ((here.registry.processes (here.registry.threads running).process).killed &&
      !trap.kernelCode) = false)
    (goesOn : ¬ (here.registry.threads running).timeEnd < trap.sliceUptime) :
    Respects (chooseNext woken here trap) := by
  let priority := (here.registry.threads running).priority
  have upward : ∀ level ∈ ([2, 1, 0] : List Priority).filter (fun level => level > priority),
      ∀ higher, level < higher → higher ∈ ([2, 1, 0] : List Priority).filter fun level => level > priority := by
    intro level member higher less
    rw [higherLevel] at member ⊢
    exact lt_trans member less
  have selects := findHigher_selects here.context.queues priority (sleeps.awake runs stays)
  rcases searched : findHigher woken here.context.queues here.registry priority with ⟨found, left, after⟩
  rw [searched] at selects
  rw [chooseNext_running runs stays leveled survives (sorted_levels _)
    (fun level less => (higherLevel priority level).mpr less) upward ((if_neg goesOn).trans searched) selects]
  rintro next rfl
  have member := (highest_of_some (sorted_levels _) upward leveled selects).1
  exact lt_asymm ((higherLevel _ _).mp member)

/-- The choice respects the priorities if and only if it demotes no thread. -/
theorem chooseNext_respects (sleeps : Sleeps woken here) (leveled : Leveled here.registry here.context.queues)
    (survives : ∀ running, here.context.runThread = some running →
      ((here.registry.processes (here.registry.threads running).process).killed && !trap.kernelCode) = false) :
    Respects (chooseNext woken here trap) ↔ ¬ Demotes woken here trap := by
  cases runs : here.context.runThread with
  | none =>
    refine iff_of_true (chooseNext_idle sleeps leveled runs) ?_
    rintro ⟨_, runsToo, _⟩
    rw [runs] at runsToo
    cases runsToo
  | some running =>
    cases blocks : (here.registry.threads running).blocker with
    | some blocker =>
      refine iff_of_true (chooseNext_blocked sleeps leveled runs (survives running runs) blocks) ?_
      rintro ⟨_, runsToo, stays, _⟩
      rw [runs] at runsToo
      obtain rfl := Option.some.inj runsToo
      rw [blocks] at stays
      cases stays
    | none =>
      by_cases ended : (here.registry.threads running).timeEnd < trap.sliceUptime
      · exact chooseNext_ended sleeps runs blocks leveled (survives running runs) ended
      · refine iff_of_true (chooseNext_goesOn sleeps runs blocks leveled (survives running runs) ended) ?_
        rintro ⟨_, runsToo, _, slice, _⟩
        rw [runs] at runsToo
        obtain rfl := Option.some.inj runsToo
        exact ended slice

variable [DecidableEq Blocker]

/-- When `sched_schedule` returns, no live thread in the queues has a higher priority than
the one that runs, if and only if it did not find a thread whose slice had ended and live
threads, queued or woken by its own frees, that all had lower priorities. The three ways to
choose are taken one by one: a search over all levels finds the highest live thread, and a
search over the higher ones leaves none of them. -/
theorem schedule_respects_iff (woken : Nat → List Nat) (sched : Sched cpus Blocker) (cpu : Fin (cpus + 1))
    (trap : Trap) (leveled : Leveled sched.registry (sched.contexts cpu).queues)
    (sleeps : Sleeps woken (ready woken sched cpu trap)) (depth : trap.trapDepth ≤ 1) :
    Respects (schedule woken sched cpu trap) ↔ ¬ Demotes woken (ready woken sched cpu trap) trap := by
  rw [schedule, if_neg (Nat.not_lt.mpr depth)]
  refine chooseNext_respects sleeps (leveled.chosen cpu trap) fun running runs => ?_
  rw [ready] at runs ⊢
  rw [(buryRunning_same _ _).1]
  exact buryRunning_alive runs

/-- One processor, where a thread of the highest priority runs and one of the lowest is
queued. -/
def lowQueued : Sched 0 Unit where
  contexts := fun _ => {
    queues := fun level => if level = 0 then [1] else []
    graveyard := []
    runThread := some 0 }
  blocked := fun _ => []
  blockers := []
  registry := {
    threads := fun thread => {
      (newThread 0 (if thread = 0 then 2 else 0) : Thread Unit) with timeEnd := 10000000 }
    processes := fun _ => { killed := false, ref := 2 }
    createdThreads := [1, 0]
    createdProcesses := [0]
    freedThreads := []
    freedProcesses := [] }
  detached := []
  pushed := [1, 0]

/-- A timer tick at an uptime. -/
def tickAt (uptime : Nat) : Trap where
  kernelCode := false
  trapDepth := 1
  blockerUptime := uptime
  sliceUptime := uptime
  loadUptime := uptime

/-- After its slice, the queued thread runs, and the running one waits behind it although
its priority is higher. -/
theorem lowQueued_demoted : (lowQueued.contexts 0).runThread = some 0 ∧
    (lowQueued.registry.threads 0).timeEnd = 10000000 ∧
    ¬ Respects (schedule quiet lowQueued 0 (tickAt 10000001)) := by
  refine ⟨rfl, rfl, fun respects => ?_⟩
  exact respects 1 (by decide) 0 ⟨⟨2, by decide⟩, by decide⟩ (by decide)

/-- One processor, where a thread of the middle priority runs and two of the lowest are
queued. The first of these is dead, and the last one of its process. -/
def deadQueued : Sched 0 Unit where
  contexts := fun _ => {
    queues := fun level => if level = 0 then [1, 2] else []
    graveyard := []
    runThread := some 0 }
  blocked := fun _ => [7]
  blockers := [()]
  registry := {
    threads := fun thread => {
      (newThread (if thread = 1 then 1 else 0) (if thread = 1 ∨ thread = 2 then 0 else 1) : Thread Unit) with
      timeEnd := 10000000
      deadline := never
      kernelCode := thread ≠ 1 }
    processes := fun process => { killed := process = 1, ref := if process = 1 then 1 else 3 }
    createdThreads := [7, 2, 1, 0]
    createdProcesses := [1, 0]
    freedThreads := []
    freedProcesses := [] }
  detached := []
  pushed := [7, 2, 1, 0]

/-- The cleanups of that process wake thread 7, of the middle priority. -/
def wakesSeven : Nat → List Nat := fun process => if process = 1 then [7] else []

/-- The queues of the sample. -/
theorem deadQueued_leveled : Leveled deadQueued.registry (deadQueued.contexts 0).queues := by
  intro level thread queued
  by_cases lowest : level = 0
  · subst lowest
    have one : thread = 1 ∨ thread = 2 := by simpa [deadQueued] using queued
    rcases one with rfl | rfl
    · rfl
    · rfl
  · simp [deadQueued, lowest] at queued

/-- The dead thread is freed, the woken one replaces the running one, and the order is
kept, although a live thread of a lower priority was queued. -/
theorem deadQueued_kept : Respects (schedule wakesSeven deadQueued 0 (tickAt 10000001)) := by
  refine (schedule_respects_iff wakesSeven deadQueued 0 (tickAt 10000001) deadQueued_leveled ?_ (by decide)).mpr ?_
  · intro process thread member
    by_cases last : process = 1
    · obtain rfl : thread = 7 := by simpa [wakesSeven, last] using member
      exact Or.inl (by decide)
    · simp [wakesSeven, last] at member
  · rintro ⟨running, runs, -, -, -, below⟩
    obtain rfl : 0 = running := Option.some.inj runs
    exact absurd (below 7 ⟨⟨1, by decide⟩, by decide⟩) (by decide)

end Schedule

section Reachable

/-- The queues of all processors. -/
def AllLeveled (sched : Sched cpus Blocker) : Prop :=
  ∀ cpu, Leveled sched.registry (sched.contexts cpu).queues

/-- A processor is given other queues, and no priority changes. -/
theorem leveled_dispatch {registry after : Registry Blocker} {contexts : Fin (cpus + 1) → Context}
    {context : Context} (all : ∀ cpu, Leveled registry (contexts cpu).queues) (cpu : Fin (cpus + 1))
    (same : ∀ thread, (after.threads thread).priority = (registry.threads thread).priority)
    (given : Leveled registry context.queues) (tested : Fin (cpus + 1)) :
    Leveled after (Function.update contexts cpu context tested).queues := by
  by_cases here : tested = cpu
  · subst here
    rw [Function.update_self]
    exact given.kept (fun _ thread _ => same thread) fun _ => List.Subset.refl _
  · rw [Function.update_of_ne here]
    exact (all tested).kept (fun _ thread _ => same thread) fun _ => List.Subset.refl _

variable [DecidableEq Blocker] {sched : Sched cpus Blocker}

omit [DecidableEq Blocker] in
/-- What a search leaves is queued where it was, and the data of threads do not change. -/
theorem findThread_leveled (levels : List Priority) (fuel : Nat) {queues : Queues} {registry base : Registry Blocker}
    (leveled : Leveled base queues) :
    (Scheduler.findThread levels fuel queues registry).2.2.threads = registry.threads ∧
      Leveled base (Scheduler.findThread levels fuel queues registry).2.1 := by
  induction fuel generalizing queues registry with
  | zero => exact ⟨rfl, leveled⟩
  | succ fuel ih =>
    rw [Scheduler.findThread]
    cases found : popFirst queues levels with
    | none => exact ⟨rfl, leveled⟩
    | some pair =>
      obtain ⟨thread, popped⟩ := pair
      obtain ⟨-, level, -, rest, -, -, here, rfl⟩ := popFirst_split found
      have left : Leveled base (Function.update queues level rest) := by
        refine leveled.kept (fun _ _ _ => rfl) fun tested => ?_
        by_cases same : tested = level
        · subst same
          rw [Function.update_self, here]
          exact List.subset_cons_self _ _
        · rw [Function.update_of_ne same]
          exact List.Subset.refl _
      simp only
      split
      · obtain ⟨threads, queued⟩ := @ih _ (threadFree registry thread) left
        exact ⟨threads, queued⟩
      · exact ⟨rfl, left⟩

/-- Choosing the next thread. -/
theorem AllLeveled.chooseNext (all : AllLeveled sched) (cpu : Fin (cpus + 1)) (trap : Trap) :
    AllLeveled (Scheduler.chooseNext sched cpu trap) := by
  have search (levels : List Priority) (registry : Registry Blocker) :=
    @findThread_leveled _ levels (queuedAmount (sched.contexts cpu).queues + 1) _ registry _ (all cpu)
  rw [Scheduler.chooseNext]
  split
  · obtain ⟨threads, left⟩ := search [2, 1, 0] sched.registry
    refine leveled_dispatch all cpu (fun thread => ?_) left
    exact (threadLoad_same _ _ _ _).1.trans (by rw [Scheduler.findAny, threads])
  · next running runs =>
    split
    · obtain ⟨threads, left⟩ := search [2, 1, 0] (threadSave sched.registry running trap.kernelCode)
      refine leveled_dispatch all cpu (fun thread => ?_) left
      refine (threadLoad_same _ _ _ _).1.trans ?_
      rw [Scheduler.findAny, threads]
      exact threadSave_priority _ _ _ _
    · obtain ⟨found, queues, after, searched, threads, left⟩ : ∃ found queues after,
          (if (sched.registry.threads running).timeEnd < trap.sliceUptime then
            Scheduler.findAny (sched.contexts cpu).queues sched.registry
          else Scheduler.findHigher (sched.contexts cpu).queues sched.registry
            (sched.registry.threads running).priority) = (found, queues, after) ∧
            after.threads = sched.registry.threads ∧ Leveled sched.registry queues := by
        split_ifs
        · exact ⟨_, _, _, rfl, search [2, 1, 0] sched.registry⟩
        · exact ⟨_, _, _, rfl, search _ sched.registry⟩
      simp only [searched]
      split
      · exact leveled_dispatch all cpu (fun thread => by rw [threads]) left
      · refine leveled_dispatch all cpu (fun thread => ?_) (left.pushAll [running])
        rw [(threadLoad_same _ _ _ _).1, threadSave_priority, threads]

omit [DecidableEq Blocker] in
/-- Burying the running thread. -/
theorem AllLeveled.bury (all : AllLeveled sched) (cpu : Fin (cpus + 1)) (kernelCode : Bool) :
    AllLeveled (Scheduler.buryRunning sched cpu kernelCode) := by
  rw [Scheduler.buryRunning]
  split
  · exact all
  · dsimp only
    split_ifs
    · refine leveled_dispatch all cpu (fun _ => rfl) ?_
      exact all cpu
    · exact all

/-- `sched_schedule`. -/
theorem AllLeveled.schedule (all : AllLeveled sched) (cpu : Fin (cpus + 1)) (trap : Trap) :
    AllLeveled (schedSchedule sched cpu trap) := by
  have freed : AllLeveled (Scheduler.freeGraveyard
      (if cpu = 0 then updateBlockers sched trap.blockerUptime else sched) cpu) := by
    have updated := fun tested => (all tested).updated cpu trap.blockerUptime
    refine leveled_dispatch updated cpu (Alike.foldl Alike.threadFree _ _).priority ?_
    exact updated cpu
  by_cases deep : trap.trapDepth > 1
  · rw [schedSchedule, if_pos deep]
    exact all
  · rw [schedSchedule, if_neg deep]
    exact (freed.bury cpu trap.kernelCode).chooseNext cpu trap

omit [DecidableEq Blocker] in
/-- Edits of the running thread that keep its priority. -/
theorem AllLeveled.editRunning (all : AllLeveled sched) (cpu : Fin (cpus + 1))
    {edit : Thread Blocker → Thread Blocker} (same : ∀ data, (edit data).priority = data.priority) :
    AllLeveled (Scheduler.editRunning sched cpu edit) := by
  rw [Scheduler.editRunning]
  split
  · exact all
  · exact fun tested => (all tested).edit _ same

/-- Waking all threads of a blocker. -/
theorem AllLeveled.wakeAll (blocker : Blocker) (threads : List Nat) (all : AllLeveled sched) :
    AllLeveled (Scheduler.wakeAll sched blocker threads) := by
  induction threads generalizing sched with
  | nil => exact all
  | cons thread rest ih =>
    have edited (tested : Fin (cpus + 1)) := @Leveled.edit _ _ _ (all tested) thread
      (fun data => { data with deadline := 0, result := .norm, blocker := none }) fun _ => rfl
    exact ih fun tested => Leveled.pushed thread (edited tested)

omit [DecidableEq Blocker] in
/-- The data of a thread that is in no queue may be written. -/
theorem AllLeveled.created {registry : Registry Blocker} (all : AllLeveled sched) (created : Nat)
    (absent : ∀ cpu level, created ∉ (sched.contexts cpu).queues level)
    (others : ∀ thread ≠ created, registry.threads thread = sched.registry.threads thread) (cpu : Fin (cpus + 1)) :
    Leveled registry (sched.contexts cpu).queues := by
  refine (all cpu).kept (fun level thread queued => ?_) fun _ => List.Subset.refl _
  rw [others]
  rintro rfl
  exact absent cpu level queued

/-- Each step keeps threads in the queues of their priorities. -/
theorem AllLeveled.step {after : Sched cpus Blocker} (all : AllLeveled sched)
    (conserved : ThreadCustody.Conserved sched) (taken : Scheduler.Step sched after) : AllLeveled after := by
  have unknown {thread : Nat} (fresh : thread ∉ sched.registry.createdThreads) (cpu : Fin (cpus + 1))
      (level : Priority) : thread ∉ (sched.contexts cpu).queues level := fun queued =>
    fresh ((conserved.balanced.live thread).mp ⟨.queue cpu level, queued⟩).1
  cases taken with
  | schedule cpu trap => exact all.schedule cpu trap
  | spawn process thread priority newThread newProcess =>
    exact all.created thread (unknown newThread) fun other different => by simp [threadNew, different]
  | split cpu running thread priority kernelCode newThread runs =>
    exact all.created thread (unknown newThread) fun other different => by simp [threadSplit, different]
  | push thread created => exact fun tested => Leveled.pushed thread (all tested)
  | abandon thread created => exact all
  | block cpu blocker timeout uptime => exact all.editRunning cpu fun _ => rfl
  | yield cpu => exact all.editRunning cpu fun _ => rfl
  | threadExit cpu => exact all.editRunning cpu fun _ => rfl
  | processExit cpu =>
    rw [schedProcessExit]
    split
    · exact all
    · have exited : AllLeveled (schedThreadExit sched cpu) := all.editRunning cpu fun _ => rfl
      exact exited
  | unblock blocker => exact all.wakeAll blocker _
  | blockerInit blocker => exact all
  | blockerCleanup blocker empty => exact all

/-- Threads are in the queues of their priorities, and none is lost. -/
def LeveledAndConserved (sched : Sched cpus Blocker) : Prop := AllLeveled sched ∧ ThreadCustody.Conserved sched

/-- In every state that is reached, threads are in the queues of their priorities. -/
theorem reachable_leveled (reached : Runs.Reachable ThreadCustody.Initial Scheduler.Step sched) :
    AllLeveled sched := by
  have initially : ∀ start : Sched cpus Blocker, ThreadCustody.Initial start → LeveledAndConserved start := by
    rintro start ⟨process, thread, rfl⟩
    refine ⟨fun cpu level queued member => ?_, ThreadCustody.reachable_conserved ⟨_, ⟨process, thread, rfl⟩, .refl⟩⟩
    by_cases first : cpu = 0
    · subst first
      simp [schedInit] at member
    · simp [schedInit, first] at member
  have keeps : ∀ before after : Sched cpus Blocker, LeveledAndConserved before → Scheduler.Step before after →
      LeveledAndConserved after := by
    intro before after facts taken
    exact ⟨facts.1.step facts.2 taken, ThreadCustody.step_conserved before after facts.2 taken⟩
  exact (Runs.reachable_invariant initially keeps reached).1

end Reachable

end Asym.SchedulingOrder
