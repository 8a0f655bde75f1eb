import Asym.Custody
import Asym.OrderedLists
import Asym.Scheduler

/-!
# The places of threads

The places of a thread are the running slot, the priority queues and the
graveyard of a processor, the list of a blocker, and the hands of the creator of
a detached thread. A ledger of custody is read off the scheduler's state, with
processes as groups. Edits of thread data change no book; moves and frees are
custody changes.

Inside `sched_schedule` a thread taken from a queue is in no list until it is
loaded. In the runs of custody changes it is meanwhile among the detached
threads. The choice of the next thread, with all its branches, is such a run.
-/

namespace Asym.ThreadPlaces

open Scheduler Custody

/-- Where a thread can be. -/
inductive Place (cpus : Nat) (Blocker : Type) where
  | run (cpu : Fin (cpus + 1))
  | queue (cpu : Fin (cpus + 1)) (level : Priority)
  | graveyard (cpu : Fin (cpus + 1))
  | blocker (blocker : Blocker)
  | detached
  deriving DecidableEq

variable {cpus : Nat} {Blocker : Type} [DecidableEq Blocker]

/-- The threads at every place. -/
def contents (sched : Sched cpus Blocker) : Place cpus Blocker → List Nat
  | .run cpu => (sched.contexts cpu).runThread.toList
  | .queue cpu level => (sched.contexts cpu).queues level
  | .graveyard cpu => (sched.contexts cpu).graveyard
  | .blocker blocker => sched.blocked blocker
  | .detached => sched.detached

/-- Threads at places, with the registry's books: groups are processes. -/
def ledgerOf (held : Place cpus Blocker → List Nat) (registry : Registry Blocker) :
    Ledger (Place cpus Blocker) Nat Nat where
  held := held
  group := fun thread => (registry.threads thread).process
  references := fun process => (registry.processes process).ref
  items := registry.createdThreads
  groups := registry.createdProcesses
  discardedItems := registry.freedThreads
  discardedGroups := registry.freedProcesses

/-- The ledger of a scheduler state. -/
def ledger (sched : Sched cpus Blocker) : Ledger (Place cpus Blocker) Nat Nat :=
  ledgerOf (contents sched) sched.registry

/-- A run of custody changes. -/
abbrev Run := Relation.ReflTransGen (@Custody.Step (Place cpus Blocker) Nat Nat _ _ _)

omit [DecidableEq Blocker] in
/-- Editing data other than a thread's process changes no book. -/
theorem ledgerOf_edit (held : Place cpus Blocker → List Nat) (registry : Registry Blocker)
    (thread : Nat) (edit : Thread Blocker → Thread Blocker)
    (same : ∀ data, (edit data).process = data.process) :
    ledgerOf held (registry.editThread thread edit) = ledgerOf held registry := by
  have groups : (fun tested => ((registry.editThread thread edit).threads tested).process) =
      fun tested => (registry.threads tested).process := by
    funext tested
    by_cases here : tested = thread
    · subst here
      simp [Registry.editThread, same]
    · simp [Registry.editThread, here]
  simp only [ledgerOf, groups]
  rfl

omit [DecidableEq Blocker] in
/-- Loading a thread changes no book. -/
theorem ledgerOf_load (held : Place cpus Blocker → List Nat) (registry : Registry Blocker)
    (next : Option Nat) (uptime : Nat) :
    ledgerOf held (threadLoad registry next uptime) = ledgerOf held registry := by
  cases next with
  | none => rfl
  | some thread =>
    rw [threadLoad]
    exact ledgerOf_edit held registry thread _ (fun _ => rfl)

/-- Moving a thread from one place to another. -/
theorem move_step (held : Place cpus Blocker → List Nat) (registry : Registry Blocker)
    (source target : Place cpus Blocker) (thread : Nat) (left arrived : List Nat)
    (different : source ≠ target) (leaves : (held source).Perm (thread :: left))
    (arrives : arrived.Perm (thread :: held target)) :
    Custody.Step (ledgerOf held registry)
      (ledgerOf (Function.update (Function.update held source left) target arrived) registry) :=
  Custody.Step.move (ledgerOf held registry) source target thread left arrived different leaves arrives

/-- Freeing a thread taken from a place. -/
theorem free_step (held : Place cpus Blocker → List Nat) (registry : Registry Blocker)
    (source : Place cpus Blocker) (thread : Nat) (left : List Nat)
    (leaves : (held source).Perm (thread :: left)) :
    Custody.Step (ledgerOf held registry)
      (ledgerOf (Function.update held source left) (threadFree registry thread)) := by
  have references : (fun process => ((threadFree registry thread).processes process).ref) =
      Function.update (fun process => (registry.processes process).ref)
        (registry.threads thread).process
        ((registry.processes (registry.threads thread).process).ref - 1) := by
    funext process
    by_cases here : process = (registry.threads thread).process
    · subst here
      simp [threadFree]
    · simp [threadFree, here]
  have discarded := Custody.Step.discard (ledgerOf held registry) source thread left leaves
  have after : ledgerOf (Function.update held source left) (threadFree registry thread) =
      { (ledgerOf held registry).dropReference thread with
        held := Function.update held source left } := by
    simp only [ledgerOf, references]
    rfl
  rw [after]
  exact discarded

/-- The places with the queues of one processor replaced. -/
def withQueues (held : Place cpus Blocker → List Nat) (cpu : Fin (cpus + 1)) (queues : Queues) :
    Place cpus Blocker → List Nat
  | .queue other level => if other = cpu then queues level else held (.queue other level)
  | place => held place

/-- Replacing one queue. -/
theorem withQueues_update (held : Place cpus Blocker → List Nat) (cpu : Fin (cpus + 1))
    (queues : Queues) (level : Priority) (rest : List Nat)
    (agree : ∀ tested, held (.queue cpu tested) = queues tested) :
    withQueues held cpu (Function.update queues level rest) =
      Function.update held (.queue cpu level) rest := by
  funext place
  cases place with
  | queue other tested =>
    by_cases same : other = cpu
    · subst same
      by_cases here : tested = level
      · subst here
        simp [withQueues]
      · simp [withQueues, here, agree]
    · simp [withQueues, same]
  | _ => simp [withQueues]

omit [DecidableEq Blocker] in
/-- Replacing the queues by themselves. -/
theorem withQueues_self (held : Place cpus Blocker → List Nat) (cpu : Fin (cpus + 1))
    (queues : Queues) (agree : ∀ tested, held (.queue cpu tested) = queues tested) :
    withQueues held cpu queues = held := by
  funext place
  cases place with
  | queue other tested =>
    by_cases same : other = cpu
    · subst same
      simp [withQueues, agree]
    · simp [withQueues, same]
  | _ => rfl

omit [DecidableEq Blocker] in
/-- Replacing the queues twice. -/
theorem withQueues_twice (held : Place cpus Blocker → List Nat) (cpu : Fin (cpus + 1))
    (first second : Queues) :
    withQueues (withQueues held cpu first) cpu second = withQueues held cpu second := by
  funext place
  cases place with
  | queue other tested =>
    by_cases same : other = cpu
    · simp [withQueues, same]
    · simp [withQueues, same]
  | _ => rfl

/-- A popped thread is the first of one queue. -/
theorem popFirst_some (queues popped : Queues) (levels : List Priority) (thread : Nat)
    (found : popFirst queues levels = some (thread, popped)) : ∃ level rest,
      queues level = thread :: rest ∧ popped = Function.update queues level rest := by
  induction levels with
  | nil => contradiction
  | cons level lower ih =>
    rw [popFirst] at found
    split at found
    · exact ih found
    · rename_i first rest here
      simp only [Option.some.injEq, Prod.mk.injEq] at found
      obtain ⟨rfl, rfl⟩ := found
      exact ⟨level, rest, here, rfl⟩

/-- A scan without a thread to pop has seen only empty queues. -/
theorem popFirst_none {queues : Queues} {levels : List Priority}
    (nothing : popFirst queues levels = none) : ∀ level ∈ levels, queues level = [] := by
  induction levels with
  | nil => simp
  | cons level lower ih =>
    rw [popFirst] at nothing
    split at nothing
    · rename_i empty
      intro tested member
      rcases List.mem_cons.mp member with rfl | below
      · exact empty
      · exact ih nothing tested below
    · contradiction

/-- The places with a thread taken in hand: it is among the detached ones. -/
def inHand (held : Place cpus Blocker → List Nat) : Option Nat → Place cpus Blocker → List Nat
  | none => held
  | some thread => Function.update held .detached (thread :: held .detached)

omit [DecidableEq Blocker] in
/-- Freeing threads one after the other records them. -/
theorem freedThreads_foldl (threads : List Nat) (registry : Registry Blocker) :
    (threads.foldl threadFree registry).freedThreads = threads.reverse ++ registry.freedThreads := by
  induction threads generalizing registry with
  | nil => rfl
  | cons thread rest ih =>
    rw [List.foldl_cons, ih, List.reverse_cons, List.append_assoc]
    rfl

/-- The scan of a processor's queues frees the dead threads it meets and takes
the first other one in hand. -/
theorem find_run (held : Place cpus Blocker → List Nat) (cpu : Fin (cpus + 1))
    (levels : List Priority) (fuel : Nat) (queues : Queues) (registry : Registry Blocker)
    (agree : ∀ tested, held (.queue cpu tested) = queues tested) :
    Run (ledgerOf held registry)
      (ledgerOf (inHand (withQueues held cpu (findThread levels fuel queues registry).2.1)
        (findThread levels fuel queues registry).1) (findThread levels fuel queues registry).2.2) := by
  induction fuel generalizing held queues registry with
  | zero =>
    rw [findThread, withQueues_self held cpu queues agree]
    exact .refl
  | succ fuel ih =>
    rw [findThread]
    cases popped : popFirst queues levels with
    | none =>
      simp only
      rw [withQueues_self held cpu queues agree]
      exact .refl
    | some found =>
      obtain ⟨thread, after⟩ := found
      obtain ⟨level, rest, here, rfl⟩ := popFirst_some queues after levels thread popped
      have leaves : (held (.queue cpu level)).Perm (thread :: rest) := by
        rw [agree, here]
      have taken := withQueues_update held cpu queues level rest agree
      simp only
      split
      · have freed := free_step held registry (.queue cpu level) thread rest leaves
        rw [← taken] at freed
        have still : ∀ tested,
            withQueues held cpu (Function.update queues level rest) (.queue cpu tested) =
              Function.update queues level rest tested := by
          intro tested
          simp [withQueues]
        have later := ih _ _ (threadFree registry thread) still
        rw [withQueues_twice] at later
        exact .head freed later
      · have moved := move_step held registry (.queue cpu level) .detached thread rest
          (thread :: held .detached) (by simp) leaves (.refl _)
        rw [← taken] at moved
        exact .single moved

/-- A thread in hand is loaded into an empty running slot. -/
theorem load_run (held : Place cpus Blocker → List Nat) (cpu : Fin (cpus + 1))
    (registry : Registry Blocker) (next : Option Nat) (idle : held (.run cpu) = []) :
    Run (ledgerOf (inHand held next) registry)
      (ledgerOf (Function.update held (.run cpu) next.toList) registry) := by
  cases next with
  | none =>
    rw [Option.toList_none, ← idle, Function.update_eq_self]
    exact .refl
  | some thread =>
    have moved := move_step (inHand held (some thread)) registry .detached (.run cpu) thread
      (held .detached) [thread] (by simp) (by simp [inHand]) (by simp [inHand, idle])
    have back : Function.update (inHand held (some thread)) .detached (held .detached) = held := by
      rw [inHand, Function.update_idem, Function.update_eq_self]
    rw [back] at moved
    exact .single moved

/-- The scan of the queues with the load of what it finds. -/
theorem find_load (held : Place cpus Blocker → List Nat) (cpu : Fin (cpus + 1))
    (levels : List Priority) (fuel : Nat) (queues : Queues) (registry : Registry Blocker)
    (agree : ∀ tested, held (.queue cpu tested) = queues tested) (idle : held (.run cpu) = []) :
    Run (ledgerOf held registry)
      (ledgerOf (Function.update (withQueues held cpu (findThread levels fuel queues registry).2.1)
        (.run cpu) (findThread levels fuel queues registry).1.toList)
        (findThread levels fuel queues registry).2.2) :=
  (find_run held cpu levels fuel queues registry agree).trans
    (load_run _ cpu _ _ (by simpa [withQueues] using idle))

/-- The places after the context of one processor is replaced. -/
theorem contents_context (sched : Sched cpus Blocker) (cpu : Fin (cpus + 1)) (context : Context)
    (registry : Registry Blocker) :
    contents { sched with
        contexts := Function.update sched.contexts cpu context
        registry := registry } =
      Function.update (Function.update (withQueues (contents sched) cpu context.queues) (.run cpu)
        context.runThread.toList) (.graveyard cpu) context.graveyard := by
  funext place
  cases place with
  | run other =>
    by_cases same : other = cpu
    · subst same
      simp [contents]
    · simp [contents, withQueues, same]
  | queue other level =>
    by_cases same : other = cpu
    · subst same
      simp [contents, withQueues]
    · simp [contents, withQueues, same]
  | graveyard other =>
    by_cases same : other = cpu
    · subst same
      simp [contents]
    · simp [contents, withQueues, same]
  | _ => simp [contents, withQueues]

/-- The places after the queues and the running slot of one processor are
replaced. -/
theorem contents_dispatch (sched : Sched cpus Blocker) (cpu : Fin (cpus + 1)) (queues : Queues)
    (running : Option Nat) (registry : Registry Blocker) :
    contents { sched with
        contexts := Function.update sched.contexts cpu
          { sched.contexts cpu with queues := queues, runThread := running }
        registry := registry } =
      Function.update (withQueues (contents sched) cpu queues) (.run cpu) running.toList := by
  rw [contents_context]
  have unchanged : (sched.contexts cpu).graveyard = Function.update
      (withQueues (contents sched) cpu queues) (.run cpu) running.toList (.graveyard cpu) := by
    simp [withQueues, contents]
  simp only
  rw [unchanged, Function.update_eq_self]

/-- The places after the list of a blocker is replaced. -/
theorem contents_blocked (sched : Sched cpus Blocker) (blocker : Blocker) (list : List Nat)
    (registry : Registry Blocker) :
    contents { sched with
        blocked := Function.update sched.blocked blocker list
        registry := registry } =
      Function.update (contents sched) (.blocker blocker) list := by
  funext place
  cases place with
  | blocker other =>
    by_cases same : other = blocker
    · subst same
      simp [contents]
    · simp [contents, same]
  | _ => simp [contents]

omit [DecidableEq Blocker] in
/-- The sorted insertion places a thread by its deadline. -/
theorem blockerInsert_eq (deadline : Nat → Nat) (thread : Nat) (list : List Nat) :
    blockerInsert deadline thread list = OrderedLists.place deadline thread list := by
  induction list with
  | nil => rfl
  | cons other rest ih => rw [blockerInsert, OrderedLists.place_cons, ih]

omit [DecidableEq Blocker] in
/-- The sorted insertion adds exactly the thread. -/
theorem blockerInsert_perm (deadline : Nat → Nat) (thread : Nat) (list : List Nat) :
    (blockerInsert deadline thread list).Perm (thread :: list) := by
  rw [blockerInsert_eq]
  exact OrderedLists.place_perm deadline thread list

omit [DecidableEq Blocker] in
/-- Saving a thread changes no book. -/
theorem ledgerOf_save (held : Place cpus Blocker → List Nat) (registry : Registry Blocker)
    (thread : Nat) (kernelCode : Bool) :
    ledgerOf held (threadSave registry thread kernelCode) = ledgerOf held registry := by
  rw [threadSave]
  exact ledgerOf_edit held registry thread _ (fun _ => rfl)

/-- Emptying the running slot before it is filled makes no difference. -/
theorem dispatch_blocked (held : Place cpus Blocker → List Nat) (cpu : Fin (cpus + 1))
    (blocker : Blocker) (list : List Nat) (queues : Queues) (next : List Nat) :
    Function.update (withQueues (Function.update (Function.update held (.run cpu) [])
        (.blocker blocker) list) cpu queues) (.run cpu) next =
      Function.update (withQueues (Function.update held (.blocker blocker) list) cpu queues)
        (.run cpu) next := by
  funext place
  cases place with
  | run other =>
    by_cases same : other = cpu
    · subst same
      simp
    · simp [withQueues, same]
  | _ => simp [withQueues, Function.update_apply]

/-- A running thread that is saved and pushed to its blocker changes custody. -/
theorem block_step {sched : Sched cpus Blocker} {cpu : Fin (cpus + 1)} (kernelCode : Bool)
    (running : Nat) (blocker : Blocker) (deadline : Nat → Nat)
    (runs : (sched.contexts cpu).runThread = some running) :
    Custody.Step (ledger sched)
      (ledgerOf (Function.update (Function.update (contents sched) (.run cpu) []) (.blocker blocker)
        (blockerInsert deadline running (sched.blocked blocker)))
        (threadSave sched.registry running kernelCode)) := by
  have busy : contents sched (.run cpu) = [running] := by simp [contents, runs]
  have moved := move_step (contents sched) (threadSave sched.registry running kernelCode) (.run cpu)
    (.blocker blocker) running [] (blockerInsert deadline running (sched.blocked blocker)) (by simp)
    (by rw [busy]) (blockerInsert_perm deadline running _)
  rw [ledgerOf_save (contents sched)] at moved
  exact moved

/-- A running thread that blocks moves to its blocker, and the next thread is
loaded. -/
theorem blocked_run (sched : Sched cpus Blocker) (cpu : Fin (cpus + 1)) (trap : Trap)
    (running : Nat) (blocker : Blocker) (runs : (sched.contexts cpu).runThread = some running)
    (blocks : (sched.registry.threads running).blocker = some blocker) :
    Run (ledger sched) (ledger (chooseNext sched cpu trap)) := by
  simp only [chooseNext, runs, blocks, findAny]
  have moved := block_step trap.kernelCode running blocker
    (fun thread => ((threadSave sched.registry running trap.kernelCode).threads thread).deadline) runs
  generalize threadSave sched.registry running trap.kernelCode = saved at moved ⊢
  generalize blockerInsert (fun thread => (saved.threads thread).deadline) running
    (sched.blocked blocker) = list at moved ⊢
  have found := find_load (Function.update (Function.update (contents sched) (.run cpu) [])
    (.blocker blocker) list) cpu [2, 1, 0] (queuedAmount (sched.contexts cpu).queues + 1)
    (sched.contexts cpu).queues saved (by simp [contents]) (by simp)
  rw [dispatch_blocked, ← contents_blocked sched blocker list saved] at found
  rw [ledger, ledger, ledgerOf_load]
  refine .head moved ?_
  rw [← contents_dispatch { sched with
    blocked := Function.update sched.blocked blocker list, registry := saved }] at found
  exact found

/-- The places after a running thread has gone back to a queue and another one
has been loaded. -/
theorem dispatch_preempted (held : Place cpus Blocker → List Nat) (cpu : Fin (cpus + 1))
    (queues : Queues) (running : Nat) (level : Priority) (next : List Nat) :
    Function.update (Function.update (Function.update (withQueues held cpu queues) (.run cpu) [])
        (.queue cpu level) (queues level ++ [running])) (.run cpu) next =
      Function.update (withQueues held cpu (contextPush queues running level)) (.run cpu) next := by
  funext place
  cases place with
  | run other =>
    by_cases same : other = cpu
    · subst same
      simp
    · simp [withQueues, same]
  | queue other tested =>
    by_cases same : other = cpu
    · subst same
      by_cases here : tested = level
      · subst here
        simp [withQueues, contextPush]
      · simp [withQueues, contextPush, here]
    · simp [withQueues, same]
  | _ => simp [withQueues]

/-- A running thread that is preempted goes back to its queue, and the thread
found is loaded; if none is found, it stays. -/
theorem preempted_run (sched : Sched cpus Blocker) (cpu : Fin (cpus + 1)) (trap : Trap)
    (running : Nat) (runs : (sched.contexts cpu).runThread = some running)
    (blocks : (sched.registry.threads running).blocker = none) :
    Run (ledger sched) (ledger (chooseNext sched cpu trap)) := by
  have busy : contents sched (.run cpu) = [running] := by simp [contents, runs]
  have levels : ∃ levels, (if (sched.registry.threads running).timeEnd < trap.sliceUptime then
      findAny (sched.contexts cpu).queues sched.registry
      else findHigher (sched.contexts cpu).queues sched.registry
        (sched.registry.threads running).priority) =
      findThread levels (queuedAmount (sched.contexts cpu).queues + 1) (sched.contexts cpu).queues
        sched.registry := by
    split
    · exact ⟨_, rfl⟩
    · exact ⟨_, rfl⟩
  obtain ⟨levels, scan⟩ := levels
  have found := find_run (contents sched) cpu levels (queuedAmount (sched.contexts cpu).queues + 1)
    (sched.contexts cpu).queues sched.registry (fun _ => rfl)
  simp only [chooseNext, runs, blocks, scan]
  generalize findThread levels (queuedAmount (sched.contexts cpu).queues + 1)
    (sched.contexts cpu).queues sched.registry = answer at found ⊢
  obtain ⟨next, queues, registry⟩ := answer
  cases next with
  | none =>
    have same : Function.update (withQueues (contents sched) cpu queues) (.run cpu)
        (some running).toList = withQueues (contents sched) cpu queues := by
      rw [Function.update_eq_self_iff]
      exact busy.symm
    simp only [ledger, contents_dispatch, same]
    exact found
  | some thread =>
    generalize level : (sched.registry.threads running).priority = priority
    simp only [ledger, ledgerOf_load, ledgerOf_save, contents_dispatch]
    have requeued := move_step (inHand (withQueues (contents sched) cpu queues) (some thread)) registry
      (.run cpu) (.queue cpu priority) running [] (queues priority ++ [running]) (by simp)
      (by simp [inHand, withQueues, busy]) (by simp [inHand, withQueues])
    have hand : Function.update (Function.update (inHand (withQueues (contents sched) cpu queues)
        (some thread)) (.run cpu) []) (.queue cpu priority) (queues priority ++ [running]) =
        inHand (Function.update (Function.update (withQueues (contents sched) cpu queues)
          (.run cpu) []) (.queue cpu priority) (queues priority ++ [running])) (some thread) := by
      funext place
      cases place <;> simp [inHand, Function.update_apply]
    rw [hand] at requeued
    have loaded := load_run (Function.update (Function.update (withQueues (contents sched) cpu queues)
      (.run cpu) []) (.queue cpu priority) (queues priority ++ [running])) cpu registry (some thread)
      (by simp)
    rw [dispatch_preempted] at loaded
    exact found.trans (.head requeued loaded)

/-- The choice of the next thread is a run of custody changes. -/
theorem chooseNext_run (sched : Sched cpus Blocker) (cpu : Fin (cpus + 1)) (trap : Trap) :
    Run (ledger sched) (ledger (chooseNext sched cpu trap)) := by
  cases runs : (sched.contexts cpu).runThread with
  | none =>
    have found := find_load (contents sched) cpu [2, 1, 0]
      (queuedAmount (sched.contexts cpu).queues + 1) (sched.contexts cpu).queues sched.registry
      (fun _ => rfl) (by simp [contents, runs])
    simp only [chooseNext, runs, findAny, ledger, ledgerOf_load, contents_dispatch]
    exact found
  | some running =>
    cases blocks : (sched.registry.threads running).blocker with
    | some blocker => exact blocked_run sched cpu trap running blocker runs blocks
    | none => exact preempted_run sched cpu trap running runs blocks

end Asym.ThreadPlaces
