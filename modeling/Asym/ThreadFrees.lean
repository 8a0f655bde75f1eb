import Asym.ThreadCustody

/-!
# What the scheduler frees

Inside `sched_schedule` threads are freed while the processor is still on the
stack and the page table of the thread it came from: first those of the
graveyard, then the killed ones met in the queues. Every `thread_free` of a call
is recorded with the registry and the running slots at its time. The tables that
are loaded change in `thread_load` only, which comes after all of them.

The argument uses the books of custody. At the time of a free, the thread that
each processor came from is held somewhere: in its slot, in the graveyard where
it was just buried, or in its blocker. The freed thread is held elsewhere, so it
is another one; and a process with both of them has a count of at least two.
-/

namespace Asym.ThreadFrees

open Scheduler Custody ThreadPlaces ThreadCustody Runs

variable {cpus : Nat} {Blocker : Type}

/-- One `thread_free`, with the registry and the running slots before it. -/
structure Freeing (cpus : Nat) (Blocker : Type) where
  thread : Nat
  registry : Registry Blocker
  running : Fin (cpus + 1) → Option Nat

/-- The process of the freed thread. -/
def Freeing.process (freeing : Freeing cpus Blocker) : Nat :=
  (freeing.registry.threads freeing.thread).process

/-- The running slots. -/
def slots (sched : Sched cpus Blocker) (cpu : Fin (cpus + 1)) : Option Nat :=
  (sched.contexts cpu).runThread

/-- The frees of the loop of `sched_update_graveyard`. -/
def graveyardFrees (running : Fin (cpus + 1) → Option Nat) :
    List Nat → Registry Blocker → List (Freeing cpus Blocker)
  | [], _ => []
  | thread :: rest, registry =>
      ⟨thread, registry, running⟩ :: graveyardFrees running rest (threadFree registry thread)

/-- The frees of `sched_context_find_any` and `sched_context_find_higher`. -/
def findFrees (running : Fin (cpus + 1) → Option Nat) (levels : List Priority) :
    Nat → Queues → Registry Blocker → List (Freeing cpus Blocker)
  | 0, _, _ => []
  | fuel + 1, queues, registry =>
      match popFirst queues levels with
      | none => []
      | some (thread, popped) =>
          if dead registry thread then
            ⟨thread, registry, running⟩ ::
              findFrees running levels fuel popped (threadFree registry thread)
          else []

/-- The levels that are searched while a thread runs that does not block. -/
def searched (sched : Sched cpus Blocker) (running : Nat) (trap : Trap) : List Priority :=
  if (sched.registry.threads running).timeEnd < trap.sliceUptime then [2, 1, 0]
  else [2, 1, 0].filter (fun level => level > (sched.registry.threads running).priority)

/-- The frees of the part of `sched_schedule` that chooses the next thread. The
slot of the processor is written after them. -/
def chooseFrees (sched : Sched cpus Blocker) (cpu : Fin (cpus + 1)) (trap : Trap) :
    List (Freeing cpus Blocker) :=
  let queues := (sched.contexts cpu).queues
  match (sched.contexts cpu).runThread with
  | none => findFrees (slots sched) [2, 1, 0] (queuedAmount queues + 1) queues sched.registry
  | some running =>
      match (sched.registry.threads running).blocker with
      | some _ => findFrees (slots sched) [2, 1, 0] (queuedAmount queues + 1) queues
          (threadSave sched.registry running trap.kernelCode)
      | none => findFrees (slots sched) (searched sched running trap) (queuedAmount queues + 1)
          queues sched.registry

/-- Whether `sched_schedule` calls `thread_load` once the killed threads are gone. -/
def loads (sched : Sched cpus Blocker) (cpu : Fin (cpus + 1)) (trap : Trap) : Bool :=
  match (sched.contexts cpu).runThread with
  | none => true
  | some running =>
      match (sched.registry.threads running).blocker with
      | some _ => true
      | none => (findThread (searched sched running trap)
          (queuedAmount (sched.contexts cpu).queues + 1) (sched.contexts cpu).queues
          sched.registry).1.isSome

/-- The scheduler with the page table that each processor has loaded: that of a
process, or the kernel's. -/
structure Machine (cpus : Nat) (Blocker : Type) where
  sched : Sched cpus Blocker
  loaded : Fin (cpus + 1) → Option Nat

variable [DecidableEq Blocker]

/-- The first part of `sched_schedule`, up to the graveyard. -/
def updated (sched : Sched cpus Blocker) (cpu : Fin (cpus + 1)) (trap : Trap) : Sched cpus Blocker :=
  if cpu = 0 then updateBlockers sched trap.blockerUptime else sched

/-- The state in which `sched_schedule` chooses the next thread: the graveyard is
emptied and a killed running thread is in it. -/
def buried (sched : Sched cpus Blocker) (cpu : Fin (cpus + 1)) (trap : Trap) : Sched cpus Blocker :=
  buryRunning (freeGraveyard (updated sched cpu trap) cpu) cpu trap.kernelCode

/-- The frees of `sched_schedule`. -/
def scheduleFrees (sched : Sched cpus Blocker) (cpu : Fin (cpus + 1)) (trap : Trap) :
    List (Freeing cpus Blocker) :=
  if trap.trapDepth > 1 then []
  else
    graveyardFrees (slots (updated sched cpu trap)) ((updated sched cpu trap).contexts cpu).graveyard
      (updated sched cpu trap).registry ++ chooseFrees (buried sched cpu trap) cpu trap

/-- `sched_schedule` with the page table that its `thread_load` loads. -/
def schedule (machine : Machine cpus Blocker) (cpu : Fin (cpus + 1)) (trap : Trap) :
    Machine cpus Blocker :=
  let next := schedSchedule machine.sched cpu trap
  { sched := next
    loaded :=
      if trap.trapDepth ≤ 1 ∧ loads (buried machine.sched cpu trap) cpu trap = true then
        Function.update machine.loaded cpu
          ((slots next cpu).map (fun thread => (next.registry.threads thread).process))
      else machine.loaded }

/-- One step of the machine. Every step of the scheduler but `sched_schedule`
leaves the running slots and the loaded tables alone. -/
inductive Step : Machine cpus Blocker → Machine cpus Blocker → Prop where
  | schedule (machine : Machine cpus Blocker) (cpu : Fin (cpus + 1)) (trap : Trap) :
      Step machine (schedule machine cpu trap)
  | other (machine : Machine cpus Blocker) (next : Sched cpus Blocker)
      (taken : Scheduler.Step machine.sched next) (same : slots next = slots machine.sched) :
      Step machine { machine with sched := next }

/-- After `sched_init` all processors have the kernel's page table. -/
def Initial (machine : Machine cpus Blocker) : Prop :=
  ThreadCustody.Initial machine.sched ∧ ∀ cpu, machine.loaded cpu = none

omit [DecidableEq Blocker] in
/-- The choice between the two searches is a choice of levels. -/
theorem search_eq (sched : Sched cpus Blocker) (cpu : Fin (cpus + 1)) (running : Nat) (trap : Trap) :
    (if (sched.registry.threads running).timeEnd < trap.sliceUptime then
      findAny (sched.contexts cpu).queues sched.registry
    else findHigher (sched.contexts cpu).queues sched.registry
      (sched.registry.threads running).priority) =
    findThread (searched sched running trap) (queuedAmount (sched.contexts cpu).queues + 1)
      (sched.contexts cpu).queues sched.registry := by
  rw [searched]
  split <;> rfl

omit [DecidableEq Blocker] in
/-- The recorded frees of a graveyard are its threads. -/
theorem graveyardFrees_threads (running : Fin (cpus + 1) → Option Nat) (threads : List Nat)
    (registry : Registry Blocker) :
    (graveyardFrees running threads registry).map Freeing.thread = threads := by
  induction threads generalizing registry with
  | nil => rfl
  | cons thread rest ih =>
    rw [graveyardFrees, List.map_cons, ih]

omit [DecidableEq Blocker] in
/-- The recorded frees of a scan are the threads that it frees. -/
theorem findFrees_freed (running : Fin (cpus + 1) → Option Nat) (levels : List Priority)
    (fuel : Nat) (queues : Queues) (registry : Registry Blocker) :
    (findThread levels fuel queues registry).2.2.freedThreads =
      ((findFrees running levels fuel queues registry).map Freeing.thread).reverse ++
        registry.freedThreads := by
  induction fuel generalizing queues registry with
  | zero => rfl
  | succ fuel ih =>
    rw [findThread, findFrees]
    cases popFirst queues levels with
    | none => rfl
    | some found =>
      obtain ⟨thread, popped⟩ := found
      simp only
      split
      · rw [ih, List.map_cons, List.reverse_cons, List.append_assoc]
        rfl
      · rfl

omit [DecidableEq Blocker] in
/-- Loading a thread frees none. -/
theorem load_freed (registry : Registry Blocker) (next : Option Nat) (uptime : Nat) :
    (threadLoad registry next uptime).freedThreads = registry.freedThreads := by
  cases next <;> rfl

/-- The recorded frees of the choice of the next thread are the threads that it
frees. -/
theorem chooseFrees_freed (sched : Sched cpus Blocker) (cpu : Fin (cpus + 1)) (trap : Trap) :
    (chooseNext sched cpu trap).registry.freedThreads =
      ((chooseFrees sched cpu trap).map Freeing.thread).reverse ++ sched.registry.freedThreads := by
  cases runs : (sched.contexts cpu).runThread with
  | none =>
    simp only [chooseNext, chooseFrees, runs, findAny, load_freed]
    exact findFrees_freed _ _ _ _ _
  | some running =>
    cases blocks : (sched.registry.threads running).blocker with
    | some blocker =>
      simp only [chooseNext, chooseFrees, runs, blocks, findAny, load_freed]
      exact findFrees_freed _ _ _ _ _
    | none =>
      simp only [chooseNext, chooseFrees, runs, blocks, search_eq]
      rw [← findFrees_freed]
      split
      · rfl
      · rw [load_freed]
        rfl

omit [DecidableEq Blocker] in
/-- Giving a thread to the scheduler writes no slot. -/
theorem schedPush_slots (sched : Sched cpus Blocker) (thread : Nat) :
    slots (schedPush sched thread) = slots sched := by
  funext cpu
  simp only [slots, schedPush]
  generalize pickCpu _ _ _ _ = target
  by_cases same : cpu = target
  · subst same
    simp
  · simp [same]

/-- Looking for expired deadlines changes no running slot and frees no thread. -/
theorem updateBlockers_frame (sched : Sched cpus Blocker) (uptime : Nat) :
    slots (updateBlockers sched uptime) = slots sched ∧
      (updateBlockers sched uptime).registry.freedThreads = sched.registry.freedThreads := by
  rw [updateBlockers]
  generalize sched.blockers = blockers
  induction blockers generalizing sched with
  | nil => exact ⟨rfl, rfl⟩
  | cons blocker rest ih =>
    obtain ⟨laterSlots, laterFreed⟩ := ih (updateBlocker uptime sched blocker)
    rw [List.foldl_cons, laterSlots, laterFreed, updateBlocker]
    split
    · exact ⟨rfl, rfl⟩
    · split
      · exact ⟨schedPush_slots _ _, rfl⟩
      · exact ⟨rfl, rfl⟩

/-- The first part of `sched_schedule` changes no running slot and frees no
thread. -/
theorem updated_frame (sched : Sched cpus Blocker) (cpu : Fin (cpus + 1)) (trap : Trap) :
    slots (updated sched cpu trap) = slots sched ∧
      (updated sched cpu trap).registry.freedThreads = sched.registry.freedThreads := by
  rw [updated]
  split
  · exact updateBlockers_frame sched trap.blockerUptime
  · exact ⟨rfl, rfl⟩

omit [DecidableEq Blocker] in
/-- Burying the running thread frees none. -/
theorem buryRunning_registry (sched : Sched cpus Blocker) (cpu : Fin (cpus + 1)) (kernelCode : Bool) :
    (buryRunning sched cpu kernelCode).registry = sched.registry := by
  rw [buryRunning]
  split
  · rfl
  · simp only
    split <;> rfl

/-- `sched_schedule` in its parts. -/
theorem schedSchedule_eq (sched : Sched cpus Blocker) (cpu : Fin (cpus + 1)) (trap : Trap) :
    schedSchedule sched cpu trap =
      if trap.trapDepth > 1 then sched else chooseNext (buried sched cpu trap) cpu trap := rfl

/-- The recorded frees of `sched_schedule` are the threads that it frees. -/
theorem scheduleFrees_freed (sched : Sched cpus Blocker) (cpu : Fin (cpus + 1)) (trap : Trap) :
    (schedSchedule sched cpu trap).registry.freedThreads =
      ((scheduleFrees sched cpu trap).map Freeing.thread).reverse ++ sched.registry.freedThreads := by
  rw [schedSchedule_eq, scheduleFrees]
  split
  · rfl
  · rw [chooseFrees_freed, buried, buryRunning_registry, freeGraveyard, freedThreads_foldl,
      (updated_frame sched cpu trap).2, List.map_append, List.reverse_append,
      graveyardFrees_threads, List.append_assoc]

/-- What is known at the time of a free: the books are in order, the thread is at
one of the given places, and the other places are as before the frees. -/
def Snapshot (held : Place cpus Blocker → List Nat) (registry : Registry Blocker)
    (sources : Place cpus Blocker → Prop) (freeing : Freeing cpus Blocker) : Prop :=
  (∀ thread, (freeing.registry.threads thread).process = (registry.threads thread).process) ∧
    ∃ before source, sources source ∧ Balanced (ledgerOf before freeing.registry) ∧
      freeing.thread ∈ before source ∧ ∀ place, ¬ sources place → before place = held place

/-- The frees of a graveyard. -/
theorem graveyardFrees_snapshot (running : Fin (cpus + 1) → Option Nat)
    (held : Place cpus Blocker → List Nat) (registry : Registry Blocker) (cpu : Fin (cpus + 1))
    (threads : List Nat) (listed : held (.graveyard cpu) = threads)
    (balanced : Balanced (ledgerOf held registry)) :
    ∀ freeing ∈ graveyardFrees running threads registry, freeing.running = running ∧
      Snapshot held registry (fun place => place = .graveyard cpu) freeing := by
  induction threads generalizing held registry with
  | nil => simp [graveyardFrees]
  | cons thread rest ih =>
    intro freeing member
    rcases List.mem_cons.mp member with rfl | later
    · refine ⟨rfl, fun _ => rfl, held, .graveyard cpu, rfl, balanced, ?_, fun _ _ => rfl⟩
      rw [listed]
      exact List.mem_cons_self
    · have freed := free_step held registry (.graveyard cpu) thread rest (by rw [listed])
      obtain ⟨slots, same, before, source, isSource, inOrder, here, others⟩ :=
        ih (Function.update held (.graveyard cpu) rest) (threadFree registry thread)
          (by simp) (step_balanced _ _ balanced freed) freeing later
      refine ⟨slots, same, before, source, isSource, inOrder, here, fun place notSource => ?_⟩
      rw [others place notSource, Function.update_of_ne notSource]

/-- The frees of a scan of the queues. -/
theorem findFrees_snapshot (running : Fin (cpus + 1) → Option Nat)
    (held : Place cpus Blocker → List Nat) (cpu : Fin (cpus + 1)) (levels : List Priority)
    (fuel : Nat) (queues : Queues) (registry : Registry Blocker)
    (agree : ∀ tested, held (.queue cpu tested) = queues tested)
    (balanced : Balanced (ledgerOf held registry)) :
    ∀ freeing ∈ findFrees running levels fuel queues registry, freeing.running = running ∧
      Snapshot held registry (fun place => ∃ level, place = .queue cpu level) freeing := by
  induction fuel generalizing held queues registry with
  | zero => simp [findFrees]
  | succ fuel ih =>
    intro freeing member
    rw [findFrees] at member
    cases popped : popFirst queues levels with
    | none => simp [popped] at member
    | some found =>
      obtain ⟨thread, after⟩ := found
      obtain ⟨level, rest, here, rfl⟩ := popFirst_some queues after levels thread popped
      have leaves : (held (.queue cpu level)).Perm (thread :: rest) := by
        rw [agree, here]
      simp only [popped] at member
      split at member
      · rcases List.mem_cons.mp member with rfl | later
        · exact ⟨rfl, fun _ => rfl, held, .queue cpu level, ⟨level, rfl⟩, balanced,
            leaves.mem_iff.mpr List.mem_cons_self, fun _ _ => rfl⟩
        · have freed := free_step held registry (.queue cpu level) thread rest leaves
          have still : ∀ tested, Function.update held (.queue cpu level) rest (.queue cpu tested) =
              Function.update queues level rest tested := by
            intro tested
            rw [← withQueues_update held cpu queues level rest agree]
            simp [withQueues]
          obtain ⟨slots, same, before, source, isSource, inOrder, there, others⟩ :=
            ih (Function.update held (.queue cpu level) rest) _
              (threadFree registry thread) still (step_balanced _ _ balanced freed) freeing later
          refine ⟨slots, same, before, source, isSource, inOrder, there, fun place notSource => ?_⟩
          rw [others place notSource,
            Function.update_of_ne (fun isQueue => notSource ⟨level, isQueue⟩)]
      · contradiction

/-- A free that takes nothing that is in use. -/
structure Safe (entered : Option Nat) (loaded : Fin (cpus + 1) → Option Nat)
    (freeing : Freeing cpus Blocker) : Prop where
  notRunning : ∀ cpu, freeing.running cpu ≠ some freeing.thread
  notEntered : entered ≠ some freeing.thread
  notLoaded : (freeing.registry.processes freeing.process).ref ≤ 1 →
    ∀ cpu, loaded cpu ≠ some freeing.process

omit [DecidableEq Blocker] in
/-- A free is safe if every thread that a processor came from is held at a place
where nothing is freed. -/
theorem snapshot_safe {held : Place cpus Blocker → List Nat} {registry : Registry Blocker}
    {sources : Place cpus Blocker → Prop} {freeing : Freeing cpus Blocker}
    {entered loaded : Fin (cpus + 1) → Option Nat} (cpu : Fin (cpus + 1))
    (snapshot : Snapshot held registry sources freeing)
    (places : ∀ tested thread, entered tested = some thread →
      ∃ place, ¬ sources place ∧ thread ∈ held place)
    (slotted : ∀ tested thread, freeing.running tested = some thread → entered tested = some thread)
    (tables : ∀ tested process, loaded tested = some process →
      ∃ thread, entered tested = some thread ∧ (registry.threads thread).process = process) :
    Safe (entered cpu) loaded freeing := by
  obtain ⟨same, before, source, isSource, balanced, here, others⟩ := snapshot
  have elsewhere : ∀ tested thread, entered tested = some thread →
      freeing.thread ≠ thread ∧ ∃ place, thread ∈ before place := by
    intro tested thread came
    obtain ⟨place, notSource, there⟩ := places tested thread came
    rw [← others place notSource] at there
    refine ⟨?_, place, there⟩
    rintro rfl
    have samePlace := balanced.exclusive.apart source place freeing.thread here there
    exact notSource (samePlace ▸ isSource)
  refine ⟨fun tested runs => (elsewhere tested _ (slotted tested _ runs)).1 rfl,
    fun came => (elsewhere cpu _ came).1 rfl, fun last tested isLoaded => ?_⟩
  obtain ⟨thread, came, ofProcess⟩ := tables tested _ isLoaded
  obtain ⟨different, place, there⟩ := elsewhere tested thread came
  rw [← same] at ofProcess
  have shared := shared_group balanced source place freeing.thread
    thread here there different ofProcess
  have single : (ledgerOf before freeing.registry).references
      ((ledgerOf before freeing.registry).group freeing.thread) ≤ 1 := last
  omega

omit [DecidableEq Blocker] in
/-- Burying empties the slot of the processor or changes nothing. -/
theorem buryRunning_slots (sched : Sched cpus Blocker) (cpu : Fin (cpus + 1)) (kernelCode : Bool) :
    (slots (buryRunning sched cpu kernelCode) = slots sched) ∨
      (slots (buryRunning sched cpu kernelCode) = Function.update (slots sched) cpu none ∧
        ∀ thread, slots sched cpu = some thread →
          thread ∈ ((buryRunning sched cpu kernelCode).contexts cpu).graveyard) := by
  rw [buryRunning]
  split
  · exact .inl rfl
  · rename_i thread runs
    simp only
    split
    · refine .inr ⟨?_, ?_⟩
      · funext tested
        by_cases same : tested = cpu
        · subst same
          simp [slots]
        · simp [slots, same]
      · intro tested came
        rw [slots, runs] at came
        simp [Option.some.inj came]
    · exact .inl rfl

omit [DecidableEq Blocker] in
/-- Emptying a graveyard changes no slot. -/
theorem freeGraveyard_slots (sched : Sched cpus Blocker) (cpu : Fin (cpus + 1)) :
    slots (freeGraveyard sched cpu) = slots sched := by
  funext tested
  by_cases same : tested = cpu
  · subst same
    simp [slots, freeGraveyard]
  · simp [slots, freeGraveyard, same]

/-- When the next thread is chosen, every thread that a processor came from is in
its slot or was just buried. -/
theorem buried_slots (sched : Sched cpus Blocker) (cpu : Fin (cpus + 1)) (trap : Trap) :
    slots (buried sched cpu trap) = slots sched ∨
      (slots (buried sched cpu trap) = Function.update (slots sched) cpu none ∧
        ∀ thread, slots sched cpu = some thread →
          thread ∈ ((buried sched cpu trap).contexts cpu).graveyard) := by
  have parts := buryRunning_slots (freeGraveyard (updated sched cpu trap) cpu) cpu trap.kernelCode
  rw [freeGraveyard_slots, (updated_frame sched cpu trap).1] at parts
  exact parts

/-- The slot of a thread that a processor came from, when the next is chosen. -/
theorem buried_held (sched : Sched cpus Blocker) (cpu tested : Fin (cpus + 1)) (trap : Trap)
    (thread : Nat) (came : slots sched tested = some thread) :
    slots (buried sched cpu trap) tested = some thread ∨
      (tested = cpu ∧ slots (buried sched cpu trap) cpu = none ∧
        thread ∈ contents (buried sched cpu trap) (.graveyard cpu)) := by
  rcases buried_slots sched cpu trap with same | ⟨emptied, inGraveyard⟩
  · rw [same]
    exact .inl came
  · by_cases here : tested = cpu
    · subst here
      refine .inr ⟨rfl, ?_, inGraveyard thread came⟩
      rw [emptied, Function.update_self]
    · rw [emptied, Function.update_of_ne here]
      exact .inl came

/-- What stands in a slot when the next thread is chosen stood there before. -/
theorem buried_slotted (sched : Sched cpus Blocker) (cpu tested : Fin (cpus + 1)) (trap : Trap)
    (thread : Nat) (runs : slots (buried sched cpu trap) tested = some thread) :
    slots sched tested = some thread := by
  rcases buried_slots sched cpu trap with same | ⟨emptied, -⟩
  · rwa [same] at runs
  · by_cases here : tested = cpu
    · subst here
      rw [emptied, Function.update_self] at runs
      contradiction
    · rwa [emptied, Function.update_of_ne here] at runs

/-- The choice of the next thread writes the slot of the processor only, and only
if it loads a thread. -/
theorem chooseNext_slots {sched : Sched cpus Blocker} {cpu tested : Fin (cpus + 1)} {trap : Trap}
    (untouched : tested ≠ cpu ∨ loads sched cpu trap = false) :
    slots (chooseNext sched cpu trap) tested = slots sched tested := by
  have elsewhere : ∀ context : Context, tested ≠ cpu →
      (Function.update sched.contexts cpu context tested).runThread =
        (sched.contexts tested).runThread := by
    intro context different
    rw [Function.update_of_ne different]
  cases runs : (sched.contexts cpu).runThread with
  | none =>
    rcases untouched with different | notLoaded
    · simp only [slots, chooseNext, runs]
      exact elsewhere _ different
    · simp [loads, runs] at notLoaded
  | some running =>
    cases blocks : (sched.registry.threads running).blocker with
    | some blocker =>
      rcases untouched with different | notLoaded
      · simp only [slots, chooseNext, runs, blocks]
        exact elsewhere _ different
      · simp [loads, runs, blocks] at notLoaded
    | none =>
      rw [loads, runs] at untouched
      simp only [blocks] at untouched
      simp only [slots, chooseNext, runs, blocks, search_eq]
      generalize findThread _ _ _ _ = answer at untouched ⊢
      obtain ⟨next, queues, registry⟩ := answer
      cases next with
      | none =>
        by_cases same : tested = cpu
        · subst same
          simp [runs]
        · exact elsewhere _ same
      | some thread => exact elsewhere _ (untouched.resolve_right (by simp))

/-- The custody changes of the first part of `sched_schedule`. -/
theorem updated_run (sched : Sched cpus Blocker) (cpu : Fin (cpus + 1)) (trap : Trap) :
    Run (ledger sched) (ledger (updated sched cpu trap)) := by
  rw [updated]
  split
  · exact updateBlockers_run sched trap.blockerUptime
  · exact .refl

/-- The custody changes of `sched_schedule` up to the choice of the next thread. -/
theorem buried_run (sched : Sched cpus Blocker) (cpu : Fin (cpus + 1)) (trap : Trap) :
    Run (ledger sched) (ledger (buried sched cpu trap)) :=
  (updated_run sched cpu trap).trans
    ((freeGraveyard_run _ cpu).trans (buryRunning_run _ cpu trap.kernelCode))

/-- A thread that exists keeps its process. -/
theorem process_kept (before after : Sched cpus Blocker) (run : Run (ledger before) (ledger after))
    (thread : Nat) (created : thread ∈ before.registry.createdThreads) :
    (after.registry.threads thread).process = (before.registry.threads thread).process :=
  run_group run thread created

/-- The table that a processor has loaded is the kernel's or that of its running
thread. -/
def TablesLoaded (machine : Machine cpus Blocker) : Prop :=
  ∀ cpu process, machine.loaded cpu = some process →
    ∃ thread, slots machine.sched cpu = some thread ∧
      (machine.sched.registry.threads thread).process = process

omit [DecidableEq Blocker] in
/-- What stands in a slot is held there. -/
theorem slot_held {sched : Sched cpus Blocker} {tested : Fin (cpus + 1)} {thread : Nat}
    (runs : slots sched tested = some thread) : thread ∈ contents sched (.run tested) := by
  rw [slots] at runs
  simp [contents, runs]

omit [DecidableEq Blocker] in
/-- A running thread exists. -/
theorem slot_created {sched : Sched cpus Blocker} (balanced : Balanced (ledger sched))
    (cpu : Fin (cpus + 1)) (thread : Nat) (runs : slots sched cpu = some thread) :
    thread ∈ sched.registry.createdThreads := by
  have here := slot_held runs
  exact ((balanced.live thread).mp ⟨.run cpu, here⟩).1

omit [DecidableEq Blocker] in
/-- Saving a thread changes no thread's process. -/
theorem threadSave_process (registry : Registry Blocker) (running thread : Nat) (kernelCode : Bool) :
    ((threadSave registry running kernelCode).threads thread).process =
      (registry.threads thread).process := by
  rw [threadSave, Registry.editThread]
  by_cases same : thread = running
  · subst same
    simp
  · simp [same]

/-- A thread that a processor came from is held in a place that the search for the
next thread does not look at, also after the running thread went to its blocker:
in its slot, or with the blocker. -/
theorem blocked_places {sched : Sched cpus Blocker} {cpu : Fin (cpus + 1)} {running : Nat}
    (blocker : Blocker) (deadline : Nat → Nat) (runs : (sched.contexts cpu).runThread = some running)
    (tested : Fin (cpus + 1)) (thread : Nat)
    (held : slots sched tested = some thread ∨ (tested = cpu ∧ slots sched cpu = none ∧
      thread ∈ contents sched (.graveyard cpu))) :
    ∃ place, (¬∃ level, place = .queue cpu level) ∧
      thread ∈ Function.update (Function.update (contents sched) (.run cpu) []) (.blocker blocker)
        (blockerInsert deadline running (sched.blocked blocker)) place := by
  have busy : slots sched cpu = some running := runs
  have stays : slots sched tested = some thread := by
    refine held.resolve_right ?_
    rintro ⟨-, empty, -⟩
    rw [busy] at empty
    contradiction
  by_cases here : tested = cpu
  · subst here
    refine ⟨.blocker blocker, by simp, ?_⟩
    rw [Function.update_self, ← Option.some.inj (busy.symm.trans stays)]
    exact (blockerInsert_perm _ _ _).mem_iff.mpr List.mem_cons_self
  · refine ⟨.run tested, by simp, ?_⟩
    rw [Function.update_of_ne (by simp), Function.update_of_ne (by simp [here])]
    exact slot_held stays

/-- Custody changes keep the process of each thread that a table was loaded for. -/
theorem tables_kept (machine : Machine cpus Blocker) (after : Sched cpus Blocker)
    (balanced : Balanced (ledger machine.sched)) (run : Run (ledger machine.sched) (ledger after))
    (tables : TablesLoaded machine) (tested : Fin (cpus + 1)) (process : Nat)
    (isLoaded : machine.loaded tested = some process) :
    ∃ thread, slots machine.sched tested = some thread ∧
      (after.registry.threads thread).process = process := by
  obtain ⟨thread, runs, ofProcess⟩ := tables tested process isLoaded
  refine ⟨thread, runs, ?_⟩
  rw [process_kept _ _ run thread (slot_created balanced tested thread runs)]
  exact ofProcess

/-- The frees of the choice of the next thread are safe. -/
theorem chooseFrees_safe (machine : Machine cpus Blocker) (cpu : Fin (cpus + 1)) (trap : Trap)
    (balanced : Balanced (ledger machine.sched)) (tables : TablesLoaded machine) :
    ∀ freeing ∈ chooseFrees (buried machine.sched cpu trap) cpu trap,
      Safe (slots machine.sched cpu) machine.loaded freeing := by
  intro freeing member
  have run := buried_run machine.sched cpu trap
  have inOrder := run_balanced run balanced
  have held := fun tested thread => buried_held machine.sched cpu tested trap thread
  have slotted := fun tested thread => buried_slotted machine.sched cpu tested trap thread
  have loadedTables := tables_kept machine _ balanced run tables
  generalize buried machine.sched cpu trap = sched at *
  -- a thread that a processor came from, unless it blocks, is in a slot or in the graveyard
  have places : ∀ tested thread, slots machine.sched tested = some thread →
      ∃ place, (¬ ∃ level, place = .queue cpu level) ∧ thread ∈ contents sched place := by
    intro tested thread came
    rcases held tested thread came with runs | ⟨-, -, inGraveyard⟩
    · exact ⟨.run tested, by simp, slot_held runs⟩
    · exact ⟨.graveyard cpu, by simp, inGraveyard⟩
  cases runs : (sched.contexts cpu).runThread with
  | none =>
    simp only [chooseFrees, runs] at member
    obtain ⟨atTime, snapshot⟩ := findFrees_snapshot (slots sched) (contents sched) cpu _ _ _
      sched.registry (fun _ => rfl) inOrder freeing member
    exact snapshot_safe cpu snapshot places (by rw [atTime]; exact slotted) loadedTables
  | some running =>
    cases blocks : (sched.registry.threads running).blocker with
    | none =>
      simp only [chooseFrees, runs, blocks] at member
      obtain ⟨atTime, snapshot⟩ := findFrees_snapshot (slots sched) (contents sched) cpu _ _ _
        sched.registry (fun _ => rfl) inOrder freeing member
      exact snapshot_safe cpu snapshot places (by rw [atTime]; exact slotted) loadedTables
    | some blocker =>
      simp only [chooseFrees, runs, blocks] at member
      have moved := block_step trap.kernelCode running blocker (fun _ => 0) runs
      obtain ⟨atTime, snapshot⟩ := findFrees_snapshot (slots sched) _ cpu _ _ _
        (threadSave sched.registry running trap.kernelCode) (by simp [contents])
        (step_balanced _ _ inOrder moved) freeing member
      refine snapshot_safe cpu snapshot ?_ (by rw [atTime]; exact slotted) ?_
      · intro tested thread came
        exact blocked_places blocker _ runs tested thread (held tested thread came)
      · simp only [threadSave_process]
        exact loadedTables

/-- All frees of `sched_schedule` are safe. -/
theorem scheduleFrees_safe (machine : Machine cpus Blocker) (cpu : Fin (cpus + 1)) (trap : Trap)
    (balanced : Balanced (ledger machine.sched)) (tables : TablesLoaded machine) :
    ∀ freeing ∈ scheduleFrees machine.sched cpu trap,
      Safe (slots machine.sched cpu) machine.loaded freeing := by
  intro freeing member
  rw [scheduleFrees] at member
  split at member
  · contradiction
  · rcases List.mem_append.mp member with fromGraveyard | chosen
    · have run := updated_run machine.sched cpu trap
      have same := (updated_frame machine.sched cpu trap).1
      obtain ⟨atTime, snapshot⟩ := graveyardFrees_snapshot (slots (updated machine.sched cpu trap))
        (contents (updated machine.sched cpu trap)) _ cpu _ rfl (run_balanced run balanced) freeing
        fromGraveyard
      refine snapshot_safe cpu snapshot ?_ ?_ (tables_kept machine _ balanced run tables)
      · intro tested thread came
        refine ⟨.run tested, by simp, ?_⟩
        rw [← same, slots] at came
        simp [contents, came]
      · rw [atTime, same]
        exact fun _ _ => id
    · exact chooseFrees_safe machine cpu trap balanced tables freeing chosen

/-- `sched_schedule` keeps the loaded tables right. -/
theorem schedule_tables (machine : Machine cpus Blocker) (cpu : Fin (cpus + 1)) (trap : Trap)
    (balanced : Balanced (ledger machine.sched)) (tables : TablesLoaded machine) :
    TablesLoaded (schedule machine cpu trap) := by
  intro tested process isLoaded
  have run := schedule_run machine.sched cpu trap
  -- a slot that was not written still holds the thread of the table
  have kept : machine.loaded tested = some process →
      slots (schedSchedule machine.sched cpu trap) tested = slots machine.sched tested →
        ∃ thread, slots (schedSchedule machine.sched cpu trap) tested = some thread ∧
          ((schedSchedule machine.sched cpu trap).registry.threads thread).process = process := by
    intro wasLoaded same
    obtain ⟨thread, runs, ofProcess⟩ := tables_kept machine _ balanced run tables tested process wasLoaded
    exact ⟨thread, same.trans runs, ofProcess⟩
  simp only [schedule] at isLoaded ⊢
  by_cases nested : trap.trapDepth > 1
  · rw [if_neg (fun both => absurd both.1 (by omega))] at isLoaded
    refine kept isLoaded ?_
    rw [schedSchedule_eq, if_pos nested]
  · have whole : schedSchedule machine.sched cpu trap =
        chooseNext (buried machine.sched cpu trap) cpu trap := if_neg nested
    by_cases writes : loads (buried machine.sched cpu trap) cpu trap = true
    · rw [if_pos ⟨by omega, writes⟩] at isLoaded
      by_cases here : tested = cpu
      · subst here
        rw [Function.update_self, Option.map_eq_some_iff] at isLoaded
        exact isLoaded
      · rw [Function.update_of_ne here] at isLoaded
        refine kept isLoaded ?_
        rw [whole, chooseNext_slots (.inl here)]
        rcases buried_slots machine.sched cpu trap with same | ⟨emptied, -⟩
        · rw [same]
        · rw [emptied, Function.update_of_ne here]
    · rw [if_neg (fun both => writes both.2)] at isLoaded
      refine kept isLoaded ?_
      rw [whole, chooseNext_slots (.inr (by simpa using writes))]
      rcases buried_slots machine.sched cpu trap with same | ⟨emptied, -⟩
      · rw [same]
      · have empty : ((buried machine.sched cpu trap).contexts cpu).runThread = none := by
          have atCpu := congrFun emptied cpu
          rwa [Function.update_self] at atCpu
        exact absurd (by rw [loads, empty]) writes

/-- A step of the machine is a step of the scheduler. -/
theorem step_scheduler (before after : Machine cpus Blocker) (taken : Step before after) :
    Scheduler.Step before.sched after.sched := by
  cases taken with
  | schedule cpu trap => exact .schedule before.sched cpu trap
  | other next step same => exact step

omit [DecidableEq Blocker] in
/-- Changing the data of the running thread writes no slot. -/
theorem editRunning_slots (sched : Sched cpus Blocker) (cpu : Fin (cpus + 1))
    (edit : Thread Blocker → Thread Blocker) : slots (editRunning sched cpu edit) = slots sched := by
  rw [editRunning]
  split <;> rfl

/-- In every reachable state the books are in order and the loaded tables are
those of the running threads. -/
theorem reachable_tables (machine : Machine cpus Blocker) (reached : Reachable Initial Step machine) :
    Conserved machine.sched ∧ TablesLoaded machine := by
  have preserved : ∀ before after : Machine cpus Blocker,
      (Conserved before.sched ∧ TablesLoaded before) → Step before after →
        Conserved after.sched ∧ TablesLoaded after := by
    rintro before after ⟨conserved, tables⟩ taken
    refine ⟨step_conserved _ _ conserved (step_scheduler before after taken), ?_⟩
    cases taken with
    | schedule cpu trap => exact schedule_tables before cpu trap conserved.balanced tables
    | other next step same =>
      intro tested process isLoaded
      obtain ⟨thread, runs, ofProcess⟩ := tables_kept before next conserved.balanced
        (step_run step) tables tested process isLoaded
      exact ⟨thread, (congrFun same tested).trans runs, ofProcess⟩
  refine reachable_invariant ?_ preserved reached
  rintro start ⟨initial, noTable⟩
  refine ⟨reachable_conserved ⟨start.sched, initial, .refl⟩, ?_⟩
  intro cpu process isLoaded
  rw [noTable cpu] at isLoaded
  contradiction

/-- Nothing in use is freed by the scheduler. The threads that `sched_schedule`
frees in any reachable state, on any processor and from any trap, are those of
the record, and at the time of each free the thread is in no running slot, is not
the thread that the processor entered on, and if it is the last of its process,
no processor has the page table of the process loaded. -/
theorem scheduler_frees_unused (machine : Machine cpus Blocker)
    (reached : Reachable Initial Step machine) (cpu : Fin (cpus + 1)) (trap : Trap) :
    (schedSchedule machine.sched cpu trap).registry.freedThreads =
      ((scheduleFrees machine.sched cpu trap).map Freeing.thread).reverse ++
        machine.sched.registry.freedThreads ∧
    ∀ freeing ∈ scheduleFrees machine.sched cpu trap,
      (∀ tested, freeing.running tested ≠ some freeing.thread) ∧
      (machine.sched.contexts cpu).runThread ≠ some freeing.thread ∧
      ((freeing.registry.processes freeing.process).ref ≤ 1 →
        ∀ tested, machine.loaded tested ≠ some freeing.process) := by
  obtain ⟨conserved, tables⟩ := reachable_tables machine reached
  refine ⟨scheduleFrees_freed machine.sched cpu trap, fun freeing member => ?_⟩
  have safe := scheduleFrees_safe machine cpu trap conserved.balanced tables freeing member
  exact ⟨safe.notRunning, safe.notEntered, safe.notLoaded⟩

/-- A timer tick in the kernel, long after the start. -/
def sampleTrap : Trap := ⟨true, 1, 0, 0, 0⟩

/-- The only thread of a machine with one processor has exited and is buried. -/
def sampleMachine : Machine 0 Unit :=
  schedule ⟨schedThreadExit (schedInit 0 0) 0, fun _ => none⟩ 0 sampleTrap

/-- The next tick frees the thread and its process, which no processor uses. -/
theorem scheduler_frees_unused_sample :
    (scheduleFrees sampleMachine.sched 0 sampleTrap).map Freeing.thread = [0] ∧
      (schedSchedule sampleMachine.sched 0 sampleTrap).registry.freedProcesses = [0] ∧
      ∀ freeing ∈ scheduleFrees sampleMachine.sched 0 sampleTrap,
        ∀ tested, freeing.running tested ≠ some freeing.thread := by
  have exited : Relation.ReflTransGen Step (⟨schedInit 0 0, fun _ => none⟩ : Machine 0 Unit)
      ⟨schedThreadExit (schedInit 0 0) 0, fun _ => none⟩ :=
    .single (.other _ _ (.threadExit _ 0) (editRunning_slots _ 0 _))
  have reached : Reachable Initial Step sampleMachine :=
    ⟨_, ⟨⟨0, 0, rfl⟩, fun _ => rfl⟩, exited.tail (.schedule _ 0 sampleTrap)⟩
  have unused := (scheduler_frees_unused sampleMachine reached 0 sampleTrap).2
  exact ⟨by decide, by decide, fun freeing member => (unused freeing member).1⟩

end Asym.ThreadFrees
