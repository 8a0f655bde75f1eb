import Asym.ThreadPlaces

/-!
# Thread conservation

Every operation of the scheduler is a run of custody changes between the places
of threads, so the books are in order in every reachable state: a live thread is
in exactly one place, nothing is freed twice, and a process is freed exactly
when its last thread is. Threads once given to `sched_push` do not come back
into their creators' hands, so their place is one of the scheduler's.
-/

namespace Asym.ThreadCustody

open Scheduler Custody ThreadPlaces

variable {cpus : Nat} {Blocker : Type} [DecidableEq Blocker]

/-- `sched_push` appends the thread to one queue. -/
theorem contents_push (sched : Sched cpus Blocker) (thread : Nat) : ∃ cpu level,
    contents (schedPush sched thread) =
      Function.update (contents sched) (.queue cpu level)
        (contents sched (.queue cpu level) ++ [thread]) := by
  simp only [schedPush]
  generalize pickCpu (fun cpu => contextThreadAmount (sched.contexts cpu)) 0 (2 ^ 63 - 1)
    (List.finRange (cpus + 1)) = cpu
  generalize (sched.registry.threads thread).priority = level
  refine ⟨cpu, level, ?_⟩
  have pushed := contents_dispatch sched cpu
    (contextPush (sched.contexts cpu).queues thread level) (sched.contexts cpu).runThread
    sched.registry
  rw [contextPush, withQueues_update (contents sched) cpu (sched.contexts cpu).queues level _
    (fun _ => rfl)] at pushed
  refine pushed.trans (Function.update_eq_self_iff.mpr ?_)
  simp [contents]

/-- A thread taken from a list that is no queue is pushed. -/
theorem push_step (before taken : Sched cpus Blocker) (source : Place cpus Blocker) (thread : Nat)
    (left : List Nat) (outside : ∀ cpu level, source ≠ .queue cpu level)
    (leaves : (contents before source).Perm (thread :: left))
    (after : contents taken = Function.update (contents before) source left)
    (books : ∀ held : Place cpus Blocker → List Nat,
      ledgerOf held taken.registry = ledgerOf held before.registry) :
    Custody.Step (ledger before) (ledger (schedPush taken thread)) := by
  obtain ⟨cpu, level, pushed⟩ := contents_push taken thread
  have moved := move_step (contents before) before.registry source (.queue cpu level) thread left
    (contents before (.queue cpu level) ++ [thread]) (outside cpu level) leaves
    (List.perm_append_singleton thread _)
  have result : ledger (schedPush taken thread) =
      ledgerOf (contents (schedPush taken thread)) before.registry := books _
  rw [result, pushed, after, Function.update_of_ne (outside cpu level).symm]
  exact moved

/-- Waking all threads of a blocker is a run of custody changes. -/
theorem wakeAll_run (sched : Sched cpus Blocker) (blocker : Blocker) (threads : List Nat)
    (listed : sched.blocked blocker = threads) :
    Run (ledger sched) (ledger (wakeAll sched blocker threads)) := by
  induction threads generalizing sched with
  | nil => exact .refl
  | cons thread rest ih =>
    have woken : Custody.Step (ledger sched) (ledger (wakeFirst sched blocker thread rest)) := by
      refine push_step sched _ (.blocker blocker) thread rest (by simp) ?_
        (contents_blocked sched blocker rest _) ?_
      · simp only [contents, listed]
        exact .refl _
      · intro held
        simp only [ledgerOf_edit, implies_true]
    have remaining : (wakeFirst sched blocker thread rest).blocked blocker = rest := by
      simp [wakeFirst, schedPush]
    exact .head woken (ih _ remaining)

/-- The first thread of a blocker leaves its list, and its data is edited. -/
def takeWaiting (sched : Sched cpus Blocker) (blocker : Blocker) (thread : Nat) (rest : List Nat)
    (edit : Thread Blocker → Thread Blocker) : Sched cpus Blocker :=
  { sched with
    blocked := Function.update sched.blocked blocker rest
    registry := sched.registry.editThread thread edit }

/-- What the timeout of a blocked thread changes. -/
def timeOut (data : Thread Blocker) : Thread Blocker := { data with result := .timeout, blocker := none }

/-- Looking at one blocker for an expired deadline. -/
theorem updateBlocker_run (uptime : Nat) (sched : Sched cpus Blocker) (blocker : Blocker) :
    Run (ledger sched) (ledger (updateBlocker uptime sched blocker)) := by
  rw [updateBlocker]
  split
  · exact .refl
  · rename_i thread rest listed
    split
    · refine .single (push_step sched _ (.blocker blocker) thread rest (by simp) ?_
        (contents_blocked sched blocker rest _) ?_)
      · simp only [contents, listed]
        exact .refl _
      · intro held
        simp only [ledgerOf_edit, implies_true]
    · exact .refl

/-- Looking at all blockers for expired deadlines. -/
theorem updateBlockers_run (sched : Sched cpus Blocker) (uptime : Nat) :
    Run (ledger sched) (ledger (updateBlockers sched uptime)) := by
  rw [updateBlockers]
  generalize sched.blockers = blockers
  induction blockers generalizing sched with
  | nil => exact .refl
  | cons blocker rest ih =>
    exact (updateBlocker_run uptime sched blocker).trans (ih _)

/-- Freeing the threads of a graveyard one after the other. -/
theorem freeAll_run (held : Place cpus Blocker → List Nat) (registry : Registry Blocker)
    (cpu : Fin (cpus + 1)) (threads : List Nat) (listed : held (.graveyard cpu) = threads) :
    Run (ledgerOf held registry)
      (ledgerOf (Function.update held (.graveyard cpu) []) (threads.foldl threadFree registry)) := by
  induction threads generalizing held registry with
  | nil =>
    have same : Function.update held (.graveyard cpu) [] = held := by
      rw [← listed, Function.update_eq_self]
    rw [same]
    exact .refl
  | cons thread rest ih =>
    have freed := free_step held registry (.graveyard cpu) thread rest (by rw [listed])
    have later := ih (Function.update held (.graveyard cpu) rest)
      (threadFree registry thread) (by simp)
    rw [Function.update_idem] at later
    exact .head freed later

/-- The places after a graveyard is replaced. -/
theorem contents_graveyard (sched : Sched cpus Blocker) (cpu : Fin (cpus + 1)) (list : List Nat)
    (registry : Registry Blocker) :
    contents { sched with
        contexts := Function.update sched.contexts cpu { sched.contexts cpu with graveyard := list }
        registry := registry } = Function.update (contents sched) (.graveyard cpu) list := by
  rw [contents_context]
  simp only
  rw [withQueues_self (contents sched) cpu (sched.contexts cpu).queues (fun _ => rfl)]
  have same : Function.update (contents sched) (.run cpu) (sched.contexts cpu).runThread.toList =
      contents sched := Function.update_eq_self (.run cpu) (contents sched)
  rw [same]

/-- Emptying the graveyard is a run of custody changes. -/
theorem freeGraveyard_run (sched : Sched cpus Blocker) (cpu : Fin (cpus + 1)) :
    Run (ledger sched) (ledger (freeGraveyard sched cpu)) := by
  have freed := freeAll_run (contents sched) sched.registry cpu (sched.contexts cpu).graveyard rfl
  rw [← contents_graveyard sched cpu [] ((sched.contexts cpu).graveyard.foldl threadFree
    sched.registry)] at freed
  exact freed

/-- Burying a killed running thread is a custody change. -/
theorem buryRunning_run (sched : Sched cpus Blocker) (cpu : Fin (cpus + 1)) (kernelCode : Bool) :
    Run (ledger sched) (ledger (buryRunning sched cpu kernelCode)) := by
  rw [buryRunning]
  split
  · exact .refl
  · rename_i thread runs
    simp only
    split
    · have moved := move_step (contents sched) sched.registry (.run cpu) (.graveyard cpu) thread []
        (contents sched (.graveyard cpu) ++ [thread]) (by simp) (by simp [contents, runs])
        (List.perm_append_singleton thread _)
      have places := contents_context sched cpu { sched.contexts cpu with
        graveyard := (sched.contexts cpu).graveyard ++ [thread], runThread := none } sched.registry
      simp only [Option.toList_none] at places
      rw [withQueues_self (contents sched) cpu (sched.contexts cpu).queues (fun _ => rfl)] at places
      rw [ledger, ledger, places]
      exact .single moved
    · exact .refl

/-- `sched_schedule` is a run of custody changes. -/
theorem schedule_run (sched : Sched cpus Blocker) (cpu : Fin (cpus + 1)) (trap : Trap) :
    Run (ledger sched) (ledger (schedSchedule sched cpu trap)) := by
  rw [schedSchedule]
  split
  · exact .refl
  · have updated : Run (ledger sched)
        (ledger (if cpu = 0 then updateBlockers sched trap.blockerUptime else sched)) := by
      split
      · exact updateBlockers_run sched trap.blockerUptime
      · exact .refl
    exact updated.trans ((freeGraveyard_run _ cpu).trans
      ((buryRunning_run _ cpu trap.kernelCode).trans (chooseNext_run _ cpu trap)))

omit [DecidableEq Blocker] in
/-- Editing the running thread's data changes no book. -/
theorem ledger_editRunning (sched : Sched cpus Blocker) (cpu : Fin (cpus + 1))
    (edit : Thread Blocker → Thread Blocker)
    (same : ∀ data, (edit data).process = data.process) :
    ledger (editRunning sched cpu edit) = ledger sched := by
  rw [editRunning]
  split
  · rfl
  · rename_i thread runs
    exact ledgerOf_edit (contents sched) sched.registry thread edit same

omit [DecidableEq Blocker] in
/-- Ending a process changes no book. -/
theorem ledger_processExit (sched : Sched cpus Blocker) (cpu : Fin (cpus + 1)) :
    ledger (schedProcessExit sched cpu) = ledger sched := by
  rw [schedProcessExit]
  split
  · rfl
  · rename_i thread runs
    have exited : ledger (schedThreadExit sched cpu) = ledger sched :=
      ledger_editRunning sched cpu _ (fun _ => rfl)
    rw [← exited]
    generalize schedThreadExit sched cpu = next
    generalize (sched.registry.threads thread).process = process
    have references : (fun tested => (Function.update next.registry.processes process
        { next.registry.processes process with killed := true } tested).ref) =
        fun tested => (next.registry.processes tested).ref := by
      funext tested
      by_cases here : tested = process
      · subst here
        simp
      · simp [here]
    simp only [ledger, ledgerOf, references]
    rfl

/-- The places after the detached threads are replaced. -/
theorem contents_detached (sched : Sched cpus Blocker) (list pushed : List Nat)
    (registry : Registry Blocker) :
    contents { sched with detached := list, pushed := pushed, registry := registry } =
      Function.update (contents sched) .detached list := by
  funext place
  cases place <;> simp [contents]

/-- The ledger after the detached threads and the registry are replaced. -/
theorem ledger_detached (sched : Sched cpus Blocker) (list : List Nat) (registry : Registry Blocker) :
    ledger { sched with detached := list, registry := registry } =
      ledgerOf (Function.update (contents sched) .detached list) registry := by
  rw [ledger, contents_detached sched list sched.pushed registry]

/-- The books of a new process with its first thread. -/
theorem spawn_step (held : Place cpus Blocker → List Nat) (registry : Registry Blocker)
    (target : Place cpus Blocker) (process thread : Nat) (priority : Priority)
    (arrived : List Nat) (newThread : thread ∉ registry.createdThreads)
    (newProcess : process ∉ registry.createdProcesses)
    (arrives : arrived.Perm (thread :: held target)) :
    Custody.Step (ledgerOf held registry)
      (ledgerOf (Function.update held target arrived)
        (threadNew registry process thread priority)) := by
  have founded := Custody.Step.found (ledgerOf held registry) target thread process arrived newThread
    newProcess arrives
  have groups : (fun tested => ((threadNew registry process thread priority).threads tested).process) =
      Function.update (fun tested => (registry.threads tested).process) thread process := by
    funext tested
    by_cases here : tested = thread
    · subst here
      simp [threadNew, Scheduler.newThread]
    · simp [threadNew, here]
  have references : (fun tested =>
      ((threadNew registry process thread priority).processes tested).ref) =
      Function.update (fun tested => (registry.processes tested).ref) process 1 := by
    funext tested
    by_cases here : tested = process
    · subst here
      simp [threadNew]
    · simp [threadNew, here]
  have after : ledgerOf (Function.update held target arrived)
      (threadNew registry process thread priority) = { ledgerOf held registry with
        held := Function.update held target arrived
        group := Function.update (ledgerOf held registry).group thread process
        references := Function.update (ledgerOf held registry).references process 1
        items := thread :: registry.createdThreads
        groups := process :: registry.createdProcesses } := by
    simp only [ledgerOf, groups, references]
    rfl
  rw [after]
  exact founded

/-- The books of one more thread of a process that has a thread at a place. -/
theorem split_step (held : Place cpus Blocker → List Nat) (registry : Registry Blocker)
    (source target : Place cpus Blocker) (existing thread : Nat) (priority : Priority)
    (kernelCode : Bool) (arrived : List Nat) (newThread : thread ∉ registry.createdThreads)
    (live : existing ∈ held source) (arrives : arrived.Perm (thread :: held target)) :
    Custody.Step (ledgerOf held registry)
      (ledgerOf (Function.update held target arrived)
        (threadSplit registry existing thread priority kernelCode)) := by
  have joined := Custody.Step.join (ledgerOf held registry) source target existing thread arrived
    newThread live arrives
  generalize process : (registry.threads existing).process = group
  have groups : (fun tested =>
      ((threadSplit registry existing thread priority kernelCode).threads tested).process) =
      Function.update (fun tested => (registry.threads tested).process) thread group := by
    funext tested
    by_cases here : tested = thread
    · subst here
      simp [threadSplit, Scheduler.newThread, process]
    · simp [threadSplit, here]
  have references : (fun tested =>
      ((threadSplit registry existing thread priority kernelCode).processes tested).ref) =
      Function.update (fun tested => (registry.processes tested).ref) group
        ((registry.processes group).ref + 1) := by
    funext tested
    by_cases here : tested = group
    · subst here
      simp [threadSplit, process]
    · simp [threadSplit, process, here]
  have after : ledgerOf (Function.update held target arrived)
      (threadSplit registry existing thread priority kernelCode) = { ledgerOf held registry with
        held := Function.update held target arrived
        group := Function.update (ledgerOf held registry).group thread
          ((ledgerOf held registry).group existing)
        references := Function.update (ledgerOf held registry).references
          ((ledgerOf held registry).group existing)
          ((ledgerOf held registry).references ((ledgerOf held registry).group existing) + 1)
        items := thread :: registry.createdThreads } := by
    simp only [ledgerOf, groups, references, process]
    rfl
  rw [after]
  exact joined

/-- Every step of the system is a run of custody changes. -/
theorem step_run {before after : Sched cpus Blocker} (taken : Scheduler.Step before after) :
    Run (ledger before) (ledger after) := by
  cases taken with
  | schedule cpu trap => exact schedule_run before cpu trap
  | spawn process thread priority newThread newProcess =>
    rw [ledger_detached before (thread :: before.detached)]
    exact .single (spawn_step (contents before) before.registry .detached process thread priority
      (thread :: before.detached) newThread newProcess (.refl _))
  | split cpu running thread priority kernelCode newThread runs =>
    rw [ledger_detached before (thread :: before.detached)]
    exact .single (split_step (contents before) before.registry (.run cpu) .detached running thread
      priority kernelCode (thread :: before.detached) newThread (by simp [contents, runs]) (.refl _))
  | push thread created =>
    refine .single (push_step before _ .detached thread (before.detached.erase thread) (by simp)
      (List.perm_cons_erase created) (contents_detached before _ _ before.registry) ?_)
    exact fun _ => rfl
  | abandon thread created =>
    rw [ledger_detached before (before.detached.erase thread)]
    exact .single (free_step (contents before) before.registry .detached thread
      (before.detached.erase thread) (List.perm_cons_erase created))
  | block cpu blocker timeout uptime =>
    have same : ledger (schedBlock before cpu blocker timeout uptime) = ledger before := by
      rw [schedBlock, ledger_editRunning]
      exact fun _ => rfl
    rw [same]
  | yield cpu =>
    have same : ledger (schedYield before cpu) = ledger before := by
      rw [schedYield, ledger_editRunning]
      exact fun _ => rfl
    rw [same]
  | threadExit cpu =>
    have same : ledger (schedThreadExit before cpu) = ledger before := by
      rw [schedThreadExit, ledger_editRunning]
      exact fun _ => rfl
    rw [same]
  | processExit cpu => rw [ledger_processExit]
  | unblock blocker => exact wakeAll_run before blocker _ rfl
  | blockerInit blocker => exact .refl
  | blockerCleanup blocker empty => exact .refl

/-- States in which the system starts: after `sched_init`. -/
def Initial (start : Sched cpus Blocker) : Prop :=
  ∃ process thread, start = schedInit process thread

/-- At the start the only thread runs on the first processor. -/
theorem contents_init (process thread : Nat) :
    contents (schedInit process thread : Sched cpus Blocker) =
      Function.update (fun _ => []) (.run 0) [thread] := by
  funext place
  cases place with
  | run cpu =>
    by_cases same : cpu = 0
    · subst same
      simp [contents, schedInit]
    · simp [contents, schedInit, same]
  | queue cpu level =>
    by_cases same : cpu = 0
    · subst same
      simp [contents, schedInit]
    · simp [contents, schedInit, same]
  | graveyard cpu =>
    by_cases same : cpu = 0
    · subst same
      simp [contents, schedInit]
    · simp [contents, schedInit, same]
  | _ => simp [contents, schedInit]

/-- The books are in order at the start. -/
theorem init_balanced (process thread : Nat) :
    Balanced (ledger (schedInit process thread : Sched cpus Blocker)) := by
  generalize nothing : ({
    threads := fun _ => newThread process 2
    processes := fun _ => { killed := false, ref := 0 }
    createdThreads := []
    createdProcesses := []
    freedThreads := []
    freedProcesses := [] } : Registry Blocker) = registry
  have empty : Balanced (ledgerOf (fun _ => [] : Place cpus Blocker → List Nat) registry) := by
    subst nothing
    constructor <;> simp [ledgerOf, Ledger.liveOf]
    constructor <;> simp
  have founded := spawn_step (fun _ => [] : Place cpus Blocker → List Nat) registry (.run 0) process
    thread 2 [thread] (by simp [← nothing]) (by simp [← nothing]) (.refl _)
  have start : ledger (schedInit process thread : Sched cpus Blocker) =
      ledgerOf (Function.update (fun _ => []) (.run 0) [thread])
        (threadNew registry process thread 2) := by
    rw [ledger, contents_init, schedInit, ledgerOf_edit, nothing]
    exact fun _ => rfl
  rw [start]
  exact step_balanced _ _ empty founded

/-- The books, and the threads given to the scheduler: they are known and no
longer detached. -/
structure Conserved (sched : Sched cpus Blocker) : Prop where
  balanced : Balanced (ledger sched)
  given : ∀ thread ∈ sched.pushed,
    thread ∈ sched.registry.createdThreads ∧ thread ∉ sched.detached

/-- Operations other than creating, pushing and abandoning a thread leave the
detached and the pushed threads alone. -/
structure Untouched (before after : Sched cpus Blocker) : Prop where
  detached : after.detached = before.detached
  pushed : after.pushed = before.pushed

omit [DecidableEq Blocker] in
/-- Changing the running thread's data touches neither. -/
theorem editRunning_untouched (sched : Sched cpus Blocker) (cpu : Fin (cpus + 1))
    (edit : Thread Blocker → Thread Blocker) : Untouched sched (editRunning sched cpu edit) := by
  rw [editRunning]
  split <;> exact ⟨rfl, rfl⟩

/-- Waking threads touches neither. -/
theorem wakeAll_untouched (sched : Sched cpus Blocker) (blocker : Blocker) (threads : List Nat) :
    Untouched sched (wakeAll sched blocker threads) := by
  induction threads generalizing sched with
  | nil => exact ⟨rfl, rfl⟩
  | cons thread rest ih =>
    have later := ih (wakeFirst sched blocker thread rest)
    exact ⟨later.detached, later.pushed⟩

/-- Looking for expired deadlines touches neither. -/
theorem updateBlockers_untouched (sched : Sched cpus Blocker) (uptime : Nat) :
    Untouched sched (updateBlockers sched uptime) := by
  rw [updateBlockers]
  generalize sched.blockers = blockers
  induction blockers generalizing sched with
  | nil => exact ⟨rfl, rfl⟩
  | cons blocker rest ih =>
    have one : Untouched sched (updateBlocker uptime sched blocker) := by
      rw [updateBlocker]
      split
      · exact ⟨rfl, rfl⟩
      · split <;> exact ⟨rfl, rfl⟩
    have later := ih (updateBlocker uptime sched blocker)
    exact ⟨later.detached.trans one.detached, later.pushed.trans one.pushed⟩

/-- Choosing the next thread touches neither. -/
theorem chooseNext_untouched (sched : Sched cpus Blocker) (cpu : Fin (cpus + 1)) (trap : Trap) :
    Untouched sched (chooseNext sched cpu trap) := by
  rw [chooseNext]
  split
  · exact ⟨rfl, rfl⟩
  · split
    · exact ⟨rfl, rfl⟩
    · simp only
      split <;> exact ⟨rfl, rfl⟩

/-- `sched_schedule` touches neither. -/
theorem schedule_untouched (sched : Sched cpus Blocker) (cpu : Fin (cpus + 1)) (trap : Trap) :
    Untouched sched (schedSchedule sched cpu trap) := by
  rw [schedSchedule]
  split
  · exact ⟨rfl, rfl⟩
  · have updated : Untouched sched
        (if cpu = 0 then updateBlockers sched trap.blockerUptime else sched) := by
      split
      · exact updateBlockers_untouched sched trap.blockerUptime
      · exact ⟨rfl, rfl⟩
    generalize (if cpu = 0 then updateBlockers sched trap.blockerUptime else sched) = middle
      at updated ⊢
    have buried : Untouched middle (buryRunning (freeGraveyard middle cpu) cpu trap.kernelCode) := by
      rw [buryRunning]
      split
      · exact ⟨rfl, rfl⟩
      · simp only
        split <;> exact ⟨rfl, rfl⟩
    have chosen := chooseNext_untouched (buryRunning (freeGraveyard middle cpu) cpu trap.kernelCode)
      cpu trap
    exact ⟨chosen.detached.trans (buried.detached.trans updated.detached),
      chosen.pushed.trans (buried.pushed.trans updated.pushed)⟩

/-- A step keeps the books in order and the pushed threads out of the creators'
hands. -/
theorem step_conserved (before after : Sched cpus Blocker) (conserved : Conserved before)
    (taken : Scheduler.Step before after) : Conserved after := by
  have run := step_run taken
  have balanced := run_balanced run conserved.balanced
  have grows : ∀ thread ∈ before.registry.createdThreads, thread ∈ after.registry.createdThreads :=
    fun thread => run_items run thread
  have kept : Untouched before after → Conserved after := by
    intro untouched
    refine ⟨balanced, ?_⟩
    rw [untouched.pushed, untouched.detached]
    intro thread pushed
    exact ⟨grows thread (conserved.given thread pushed).1, (conserved.given thread pushed).2⟩
  -- a new thread is none of those that were given to the scheduler
  have apart : ∀ thread ∉ before.registry.createdThreads, ∀ other ∈ before.pushed,
      other ∈ after.registry.createdThreads ∧ other ∉ thread :: before.detached := by
    intro thread newThread other pushed
    obtain ⟨created, gone⟩ := conserved.given other pushed
    refine ⟨grows other created, ?_⟩
    rw [List.mem_cons, not_or]
    exact ⟨fun same => newThread (same ▸ created), gone⟩
  cases taken with
  | schedule cpu trap => exact kept (schedule_untouched before cpu trap)
  | spawn process thread priority newThread newProcess => exact ⟨balanced, apart thread newThread⟩
  | split cpu running thread priority kernelCode newThread runs =>
    exact ⟨balanced, apart thread newThread⟩
  | push thread created =>
    have once : before.detached.Nodup := conserved.balanced.exclusive.once .detached
    have known : thread ∈ before.registry.createdThreads :=
      ((conserved.balanced.live thread).mp ⟨.detached, created⟩).1
    refine ⟨balanced, ?_⟩
    intro other pushed
    rcases List.mem_cons.mp pushed with rfl | earlier
    · exact ⟨grows other known, fun still => (once.mem_erase_iff.mp still).1 rfl⟩
    · obtain ⟨otherKnown, gone⟩ := conserved.given other earlier
      exact ⟨grows other otherKnown, fun still => gone (List.mem_of_mem_erase still)⟩
  | abandon thread created =>
    refine ⟨balanced, ?_⟩
    intro other pushed
    obtain ⟨otherKnown, gone⟩ := conserved.given other pushed
    exact ⟨grows other otherKnown, fun still => gone (List.mem_of_mem_erase still)⟩
  | block cpu blocker timeout uptime => exact kept (editRunning_untouched before cpu _)
  | yield cpu => exact kept (editRunning_untouched before cpu _)
  | threadExit cpu => exact kept (editRunning_untouched before cpu _)
  | processExit cpu =>
    refine kept ?_
    rw [schedProcessExit]
    split
    · exact ⟨rfl, rfl⟩
    · have edited : Untouched before (schedThreadExit before cpu) := editRunning_untouched before cpu _
      exact ⟨edited.detached, edited.pushed⟩
  | unblock blocker => exact kept (wakeAll_untouched before blocker _)
  | blockerInit blocker => exact kept ⟨rfl, rfl⟩
  | blockerCleanup blocker empty => exact kept ⟨rfl, rfl⟩

/-- Every reachable state is conserved. -/
theorem reachable_conserved {sched : Sched cpus Blocker}
    (reached : Runs.Reachable Initial Scheduler.Step sched) : Conserved sched := by
  refine Runs.reachable_invariant ?_ step_conserved reached
  rintro start ⟨process, thread, rfl⟩
  refine ⟨init_balanced process thread, ?_⟩
  intro other pushed
  rw [schedInit, List.mem_singleton] at pushed
  subst pushed
  exact ⟨List.mem_singleton_self other, List.not_mem_nil⟩

/-- Thread conservation, in every state reached by any run of the scheduler's
operations. A thread given to `sched_push` and not freed is in exactly one of
the running slots, queues, blocker lists and graveyards, and there once. A freed
thread is in none of them and was freed once. A process is freed once, exactly
when all its threads are. -/
theorem threads_conserved (sched : Sched cpus Blocker)
    (reached : Runs.Reachable Initial Scheduler.Step sched) :
    (∀ thread ∈ sched.pushed, thread ∉ sched.registry.freedThreads →
      ∃! place, place ≠ .detached ∧ thread ∈ contents sched place) ∧
    (∀ place, (contents sched place).Nodup) ∧
    sched.registry.freedThreads.Nodup ∧
    (∀ thread ∈ sched.registry.freedThreads, ∀ place, thread ∉ contents sched place) ∧
    sched.registry.freedProcesses.Nodup ∧
    (∀ process, process ∈ sched.registry.freedProcesses ↔
      process ∈ sched.registry.createdProcesses ∧
        ∀ thread ∈ sched.registry.createdThreads,
          (sched.registry.threads thread).process = process →
            thread ∈ sched.registry.freedThreads) := by
  obtain ⟨balanced, given⟩ := reachable_conserved reached
  refine ⟨?_, balanced.exclusive.once, balanced.discardedOnce, ?_, balanced.groupsOnce, ?_⟩
  · intro thread pushed unfreed
    obtain ⟨created, gone⟩ := given thread pushed
    obtain ⟨place, here⟩ := (balanced.live thread).mpr ⟨created, unfreed⟩
    refine ⟨place, ⟨?_, here⟩, ?_⟩
    · rintro rfl
      exact gone here
    · rintro other ⟨_, there⟩
      exact balanced.exclusive.apart other place thread there here
  · intro thread freed place here
    exact ((balanced.live thread).mp ⟨place, here⟩).2 freed
  · intro process
    rw [show process ∈ sched.registry.freedProcesses ↔ _ from balanced.finished process]
    have none : (ledger sched).liveOf process = [] ↔ ∀ thread ∈ sched.registry.createdThreads,
        (sched.registry.threads thread).process = process →
          thread ∈ sched.registry.freedThreads := by
      rw [Ledger.liveOf, List.filter_eq_nil_iff]
      simp only [decide_eq_true_eq, not_and, not_not]
      rfl
    rw [none]
    rfl

/-- Two processors after a second thread has been made and given to the
scheduler. -/
def sampleSched : Sched 1 Unit :=
  let started : Sched 1 Unit := schedInit 0 0
  let spawned := { started with
    registry := threadNew started.registry 1 1 0, detached := [1] }
  schedPush { spawned with detached := spawned.detached.erase 1, pushed := 1 :: spawned.pushed } 1

/-- The second thread of the sample is in exactly one place. -/
theorem threads_conserved_sample :
    ∃! place, place ≠ .detached ∧ 1 ∈ contents sampleSched place := by
  have started : Relation.ReflTransGen Scheduler.Step (schedInit 0 0 : Sched 1 Unit) _ :=
    .single (.spawn _ 1 1 0 (by decide) (by decide))
  have reached : Runs.Reachable Initial Scheduler.Step sampleSched :=
    ⟨schedInit 0 0, ⟨0, 0, rfl⟩, started.tail (.push _ 1 (by decide))⟩
  exact (threads_conserved sampleSched reached).1 1 (by decide) (by decide)

end Asym.ThreadCustody
