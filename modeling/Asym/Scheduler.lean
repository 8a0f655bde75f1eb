import Asym.MachineWords
import Mathlib.Algebra.GroupWithZero.Nat
import Mathlib.Logic.Function.Basic

/-!
# The scheduler

A model of `sched.c` and of the creation and freeing of threads in `thread.c`,
for any number of processors and any type of blockers. Threads and processes are
names that are never used twice; their data is kept in a registry together with
the record of what has been freed. Intrusive lists and the priority queues are
lists of threads: a queue's length counter changes only together with its list.

Each operation is one function of the whole state, as if it held every lock.
Readings of the clock, the interrupted code segment and the trap depth are
arguments. A created thread is detached until it is given to `sched_push` or
freed by the error path of its creator.

With the last thread of a process its files are closed, and their cleanups may
call `sched_unblock`: that of a window makes the window manager redraw, that of a
pipe wakes its other end. `threadFree` leaves this out. A wake-up is a step
`unblock` of its own, at any time after the free. Only the searches of
`sched_schedule` can meet a thread that a free of theirs has woken; they are
modelled with these wake-ups in `ThreadSelection` and `SchedulingOrder`.
-/

namespace Asym.Scheduler

open MachineWords

/-- `NEVER`. -/
def never : Nat := 2 ^ 64 - 1

/-- `CONFIG_TIME_SLICE`. -/
def configTimeSlice : Nat := 1000000000 / 100

/-- `PRIORITY_LEVELS`. -/
abbrev Priority := Fin 3

-- Some priority and some processor have the number 0.

scoped instance (priority := high) someCpu (cpus : Nat) : NeZero (cpus + 1) := ⟨Nat.succ_ne_zero cpus⟩

scoped instance (priority := high) firstCpu : NeZero (0 + 1) := ⟨Nat.succ_ne_zero 0⟩

scoped instance (priority := high) someLevel : NeZero 3 := ⟨Nat.succ_ne_zero 2⟩

/-- `block_result_t`. -/
inductive BlockResult where
  | norm
  | timeout
  deriving DecidableEq, Repr

/-- The fields of `thread_t` that the scheduler reads or writes. `kernelCode` is
whether the saved trap frame's code segment is `GDT_KERNEL_CODE`. -/
structure Thread (Blocker : Type) where
  process : Nat
  killed : Bool
  timeStart : Nat
  timeEnd : Nat
  deadline : Nat
  result : BlockResult
  blocker : Option Blocker
  priority : Priority
  kernelCode : Bool

/-- The fields of `process_t` that the scheduler reads or writes. -/
structure Process where
  killed : Bool
  ref : Nat

/-- Threads and processes, and the record of `thread_free` and `process_free`. -/
structure Registry (Blocker : Type) where
  threads : Nat → Thread Blocker
  processes : Nat → Process
  createdThreads : List Nat
  createdProcesses : List Nat
  freedThreads : List Nat
  freedProcesses : List Nat

/-- The priority queues of one processor. -/
abbrev Queues := Priority → List Nat

/-- `sched_context_t`. -/
structure Context where
  queues : Queues
  graveyard : List Nat
  runThread : Option Nat

/-- The scheduler's state: the contexts of the processors, the threads of every
blocker and the list of initialised blockers. `detached` and `pushed` are the
created threads not yet given, and those once given, to `sched_push`. -/
structure Sched (cpus : Nat) (Blocker : Type) where
  contexts : Fin (cpus + 1) → Context
  blocked : Blocker → List Nat
  blockers : List Blocker
  registry : Registry Blocker
  detached : List Nat
  pushed : List Nat

variable {cpus : Nat} {Blocker : Type}

/-- Change the data of one thread. -/
def Registry.editThread (registry : Registry Blocker) (thread : Nat)
    (edit : Thread Blocker → Thread Blocker) : Registry Blocker :=
  { registry with
    threads := Function.update registry.threads thread (edit (registry.threads thread)) }

/-- `thread_free`: the old value of the reference count decides whether
`process_free` runs, without the threads that its cleanups wake. -/
def threadFree (registry : Registry Blocker) (thread : Nat) : Registry Blocker :=
  let process := (registry.threads thread).process
  let ref := (registry.processes process).ref
  { registry with
    processes := Function.update registry.processes process
      { registry.processes process with ref := ref - 1 }
    freedThreads := thread :: registry.freedThreads
    freedProcesses :=
      if ref ≤ 1 then process :: registry.freedProcesses else registry.freedProcesses }

/-- The data `process_thread_new` gives to a thread. -/
def newThread (process : Nat) (priority : Priority) : Thread Blocker where
  process := process
  killed := false
  timeStart := 0
  timeEnd := 0
  deadline := 0
  result := .norm
  blocker := none
  priority := priority
  kernelCode := true

/-- `thread_new`: a process with one thread. -/
def threadNew (registry : Registry Blocker) (process thread : Nat) (priority : Priority) :
    Registry Blocker :=
  { registry with
    threads := Function.update registry.threads thread (newThread process priority)
    processes := Function.update registry.processes process { killed := false, ref := 1 }
    createdThreads := thread :: registry.createdThreads
    createdProcesses := process :: registry.createdProcesses }

/-- `thread_split`: one more thread of the process of an existing thread.
`loader_split` then sets the user code segment. -/
def threadSplit (registry : Registry Blocker) (existing thread : Nat) (priority : Priority)
    (kernelCode : Bool) : Registry Blocker :=
  let process := (registry.threads existing).process
  { registry with
    threads := Function.update registry.threads thread
      { newThread process priority with kernelCode := kernelCode }
    processes := Function.update registry.processes process
      { registry.processes process with ref := (registry.processes process).ref + 1 }
    createdThreads := thread :: registry.createdThreads }

/-- `blocker_push`: before the first thread with a later deadline. -/
def blockerInsert (deadline : Nat → Nat) (thread : Nat) : List Nat → List Nat
  | [] => [thread]
  | other :: rest =>
      if deadline other > deadline thread then thread :: other :: rest
      else other :: blockerInsert deadline thread rest

/-- `sched_context_push`. -/
def contextPush (queues : Queues) (thread : Nat) (priority : Priority) : Queues :=
  Function.update queues priority (queues priority ++ [thread])

/-- Sum of the lengths of a processor's queues. -/
def queuedAmount (queues : Queues) : Nat :=
  (queues 2).length + (queues 1).length + (queues 0).length

/-- `sched_context_thread_amount`. -/
def contextThreadAmount (context : Context) : Nat :=
  (if context.runThread.isSome then 1 else 0) + queuedAmount context.queues

/-- Whether a thread found in a queue is freed instead of run. -/
def dead (registry : Registry Blocker) (thread : Nat) : Bool :=
  (registry.processes (registry.threads thread).process).killed &&
    !(registry.threads thread).kernelCode

/-- `queue_pop` on the first of the given levels that is not empty. -/
def popFirst (queues : Queues) : List Priority → Option (Nat × Queues)
  | [] => none
  | level :: lower =>
      match queues level with
      | [] => popFirst queues lower
      | thread :: rest => some (thread, Function.update queues level rest)

/-- The scan of `sched_context_find_any` and `sched_context_find_higher` over
their levels. A dead thread is freed and the scan starts again. -/
def findThread (levels : List Priority) :
    Nat → Queues → Registry Blocker → Option Nat × Queues × Registry Blocker
  | 0, queues, registry => (none, queues, registry)
  | fuel + 1, queues, registry =>
      match popFirst queues levels with
      | none => (none, queues, registry)
      | some (thread, popped) =>
          if dead registry thread then findThread levels fuel popped (threadFree registry thread)
          else (some thread, popped, registry)

/-- `sched_context_find_any`. Every restart removes a thread, so the fuel is not
exhausted. -/
def findAny (queues : Queues) (registry : Registry Blocker) :
    Option Nat × Queues × Registry Blocker :=
  findThread [2, 1, 0] (queuedAmount queues + 1) queues registry

/-- `sched_context_find_higher`. -/
def findHigher (queues : Queues) (registry : Registry Blocker) (priority : Priority) :
    Option Nat × Queues × Registry Blocker :=
  findThread ([2, 1, 0].filter (fun level => level > priority)) (queuedAmount queues + 1) queues
    registry

/-- The loop of `sched_push` over the processors: the first idle one, else the
first with the fewest threads. The starting value stands for `NULL`; every
length is below the starting bound, so the first processor replaces it. -/
def pickCpu (amount : Fin (cpus + 1) → Nat) (best : Fin (cpus + 1)) (bestLength : Nat) :
    List (Fin (cpus + 1)) → Fin (cpus + 1)
  | [] => best
  | cpu :: rest =>
      if amount cpu = 0 then cpu
      else if amount cpu < bestLength then pickCpu amount cpu (amount cpu) rest
      else pickCpu amount best bestLength rest

/-- `sched_push`. -/
def schedPush (sched : Sched cpus Blocker) (thread : Nat) : Sched cpus Blocker :=
  let amount := fun cpu => contextThreadAmount (sched.contexts cpu)
  let cpu := pickCpu amount 0 (2 ^ 63 - 1) (List.finRange (cpus + 1))
  let context := sched.contexts cpu
  { sched with
    contexts := Function.update sched.contexts cpu
      { context with
        queues := contextPush context.queues thread (sched.registry.threads thread).priority } }

variable [DecidableEq Blocker]

/-- One turn of the loop of `sched_unblock` on the first thread of a blocker. -/
def wakeFirst (sched : Sched cpus Blocker) (blocker : Blocker) (thread : Nat) (rest : List Nat) :
    Sched cpus Blocker :=
  schedPush { sched with
    blocked := Function.update sched.blocked blocker rest
    registry := sched.registry.editThread thread (fun data =>
      { data with deadline := 0, result := .norm, blocker := none }) } thread

/-- The loop of `sched_unblock` over the threads of the blocker. -/
def wakeAll (sched : Sched cpus Blocker) (blocker : Blocker) : List Nat → Sched cpus Blocker
  | [] => sched
  | thread :: rest => wakeAll (wakeFirst sched blocker thread rest) blocker rest

/-- `sched_unblock`. -/
def schedUnblock (sched : Sched cpus Blocker) (blocker : Blocker) : Sched cpus Blocker :=
  wakeAll sched blocker (sched.blocked blocker)

/-- The loop body of `sched_update_blockers`: the first thread of a blocker is
woken once its deadline has passed. -/
def updateBlocker (uptime : Nat) (sched : Sched cpus Blocker) (blocker : Blocker) :
    Sched cpus Blocker :=
  match sched.blocked blocker with
  | [] => sched
  | thread :: rest =>
      if (sched.registry.threads thread).deadline < uptime then
        schedPush { sched with
          blocked := Function.update sched.blocked blocker rest
          registry := sched.registry.editThread thread (fun data =>
            { data with result := .timeout, blocker := none }) } thread
      else sched

/-- `sched_update_blockers`. -/
def updateBlockers (sched : Sched cpus Blocker) (uptime : Nat) : Sched cpus Blocker :=
  sched.blockers.foldl (updateBlocker uptime) sched

/-- The loop of `sched_update_graveyard`. -/
def freeGraveyard (sched : Sched cpus Blocker) (cpu : Fin (cpus + 1)) : Sched cpus Blocker :=
  { sched with
    contexts := Function.update sched.contexts cpu { sched.contexts cpu with graveyard := [] }
    registry := (sched.contexts cpu).graveyard.foldl threadFree sched.registry }

/-- The second half of `sched_update_graveyard`: a killed running thread is
buried. -/
def buryRunning (sched : Sched cpus Blocker) (cpu : Fin (cpus + 1)) (kernelCode : Bool) :
    Sched cpus Blocker :=
  match (sched.contexts cpu).runThread with
  | none => sched
  | some thread =>
      let data := sched.registry.threads thread
      if data.killed || ((sched.registry.processes data.process).killed && !kernelCode) then
        { sched with
          contexts := Function.update sched.contexts cpu { sched.contexts cpu with
            graveyard := (sched.contexts cpu).graveyard ++ [thread]
            runThread := none } }
      else sched

/-- `thread_load`, for a thread or for the idle loop. -/
def threadLoad (registry : Registry Blocker) (next : Option Nat) (uptime : Nat) :
    Registry Blocker :=
  match next with
  | none => registry
  | some thread => registry.editThread thread (fun data =>
      { data with timeStart := uptime, timeEnd := add uptime configTimeSlice })

/-- `thread_save`. -/
def threadSave (registry : Registry Blocker) (thread : Nat) (kernelCode : Bool) :
    Registry Blocker :=
  registry.editThread thread (fun data => { data with kernelCode := kernelCode })

/-- The arguments of one call of `sched_schedule`: the interrupted code segment,
the trap depth and the readings of the clock. -/
structure Trap where
  kernelCode : Bool
  trapDepth : Nat
  blockerUptime : Nat
  sliceUptime : Nat
  loadUptime : Nat

/-- The part of `sched_schedule` that chooses the next thread. -/
def chooseNext (sched : Sched cpus Blocker) (cpu : Fin (cpus + 1)) (trap : Trap) :
    Sched cpus Blocker :=
  let context := sched.contexts cpu
  match context.runThread with
  | none =>
      let (next, queues, registry) := findAny context.queues sched.registry
      { sched with
        contexts := Function.update sched.contexts cpu
          { context with queues := queues, runThread := next }
        registry := threadLoad registry next trap.loadUptime }
  | some running =>
      match (sched.registry.threads running).blocker with
      | some blocker =>
          let saved := threadSave sched.registry running trap.kernelCode
          let deadline := fun thread => (saved.threads thread).deadline
          let (next, queues, registry) := findAny context.queues saved
          { sched with
            contexts := Function.update sched.contexts cpu
              { context with queues := queues, runThread := next }
            blocked := Function.update sched.blocked blocker
              (blockerInsert deadline running (sched.blocked blocker))
            registry := threadLoad registry next trap.loadUptime }
      | none =>
          let data := sched.registry.threads running
          let (next, queues, registry) :=
            if data.timeEnd < trap.sliceUptime then findAny context.queues sched.registry
            else findHigher context.queues sched.registry data.priority
          match next with
          | none => { sched with
              contexts := Function.update sched.contexts cpu { context with queues := queues }
              registry := registry }
          | some thread => { sched with
              contexts := Function.update sched.contexts cpu { context with
                queues := contextPush queues running data.priority
                runThread := some thread }
              registry := threadLoad (threadSave registry running trap.kernelCode) (some thread)
                trap.loadUptime }

/-- `sched_schedule`. Only the first processor looks for expired deadlines. -/
def schedSchedule (sched : Sched cpus Blocker) (cpu : Fin (cpus + 1)) (trap : Trap) :
    Sched cpus Blocker :=
  if trap.trapDepth > 1 then sched
  else
    let updated := if cpu = 0 then updateBlockers sched trap.blockerUptime else sched
    chooseNext (buryRunning (freeGraveyard updated cpu) cpu trap.kernelCode) cpu trap

/-- Change the data of the thread that runs on a processor. -/
def editRunning (sched : Sched cpus Blocker) (cpu : Fin (cpus + 1))
    (edit : Thread Blocker → Thread Blocker) : Sched cpus Blocker :=
  match (sched.contexts cpu).runThread with
  | none => sched
  | some thread => { sched with registry := sched.registry.editThread thread edit }

/-- The writes of `sched_block`. -/
def schedBlock (sched : Sched cpus Blocker) (cpu : Fin (cpus + 1)) (blocker : Blocker)
    (timeout uptime : Nat) : Sched cpus Blocker :=
  editRunning sched cpu (fun data => { data with
    timeEnd := 0
    deadline := if timeout = never then never else add timeout uptime
    blocker := some blocker })

/-- The write of `sched_yield`. -/
def schedYield (sched : Sched cpus Blocker) (cpu : Fin (cpus + 1)) : Sched cpus Blocker :=
  editRunning sched cpu (fun data => { data with timeEnd := 0 })

/-- The write of `sched_thread_exit`. -/
def schedThreadExit (sched : Sched cpus Blocker) (cpu : Fin (cpus + 1)) : Sched cpus Blocker :=
  editRunning sched cpu (fun data => { data with killed := true })

/-- The writes of `sched_process_exit`. -/
def schedProcessExit (sched : Sched cpus Blocker) (cpu : Fin (cpus + 1)) : Sched cpus Blocker :=
  match (sched.contexts cpu).runThread with
  | none => sched
  | some thread =>
      let process := (sched.registry.threads thread).process
      let exited := schedThreadExit sched cpu
      { exited with
        registry := { exited.registry with
          processes := Function.update exited.registry.processes process
            { exited.registry.processes process with killed := true } } }

/-- One atomic step of the system. -/
inductive Step : Sched cpus Blocker → Sched cpus Blocker → Prop where
  /-- A processor takes a timer tick or a `sched_invoke`. -/
  | schedule (sched : Sched cpus Blocker) (cpu : Fin (cpus + 1)) (trap : Trap) :
      Step sched (schedSchedule sched cpu trap)
  /-- A new process is made, with one thread. -/
  | spawn (sched : Sched cpus Blocker) (process thread : Nat) (priority : Priority)
      (newThread : thread ∉ sched.registry.createdThreads)
      (newProcess : process ∉ sched.registry.createdProcesses) :
      Step sched { sched with
        registry := threadNew sched.registry process thread priority
        detached := thread :: sched.detached }
  /-- A running thread makes another thread of its process. -/
  | split (sched : Sched cpus Blocker) (cpu : Fin (cpus + 1)) (running thread : Nat)
      (priority : Priority) (kernelCode : Bool)
      (newThread : thread ∉ sched.registry.createdThreads)
      (runs : (sched.contexts cpu).runThread = some running) :
      Step sched { sched with
        registry := threadSplit sched.registry running thread priority kernelCode
        detached := thread :: sched.detached }
  /-- A new thread is given to the scheduler. -/
  | push (sched : Sched cpus Blocker) (thread : Nat) (created : thread ∈ sched.detached) :
      Step sched (schedPush { sched with
        detached := sched.detached.erase thread
        pushed := thread :: sched.pushed } thread)
  /-- The creator of a thread gives up and frees it. -/
  | abandon (sched : Sched cpus Blocker) (thread : Nat) (created : thread ∈ sched.detached) :
      Step sched { sched with
        registry := threadFree sched.registry thread
        detached := sched.detached.erase thread }
  /-- A running thread asks to block. -/
  | block (sched : Sched cpus Blocker) (cpu : Fin (cpus + 1)) (blocker : Blocker)
      (timeout uptime : Nat) : Step sched (schedBlock sched cpu blocker timeout uptime)
  /-- A running thread gives up its time slice. -/
  | yield (sched : Sched cpus Blocker) (cpu : Fin (cpus + 1)) : Step sched (schedYield sched cpu)
  /-- A running thread exits. -/
  | threadExit (sched : Sched cpus Blocker) (cpu : Fin (cpus + 1)) :
      Step sched (schedThreadExit sched cpu)
  /-- A running thread ends its process. -/
  | processExit (sched : Sched cpus Blocker) (cpu : Fin (cpus + 1)) :
      Step sched (schedProcessExit sched cpu)
  /-- A blocker's threads are woken. -/
  | unblock (sched : Sched cpus Blocker) (blocker : Blocker) :
      Step sched (schedUnblock sched blocker)
  /-- A blocker is initialised. -/
  | blockerInit (sched : Sched cpus Blocker) (blocker : Blocker) :
      Step sched { sched with blockers := sched.blockers ++ [blocker] }
  /-- A blocker without threads is cleaned up. -/
  | blockerCleanup (sched : Sched cpus Blocker) (blocker : Blocker)
      (empty : sched.blocked blocker = []) :
      Step sched { sched with blockers := sched.blockers.erase blocker }

/-- The state after `sched_init`: one process with one thread, which runs on the
first processor. -/
def schedInit (process thread : Nat) : Sched cpus Blocker where
  contexts := Function.update
    (fun _ => { queues := fun _ => [], graveyard := [], runThread := none }) 0
    { queues := fun _ => [], graveyard := [], runThread := some thread }
  blocked := fun _ => []
  blockers := []
  registry := (threadNew {
      threads := fun _ => newThread process 2
      processes := fun _ => { killed := false, ref := 0 }
      createdThreads := []
      createdProcesses := []
      freedThreads := []
      freedProcesses := [] } process thread 2).editThread thread
    (fun data => { data with timeEnd := 2 ^ 64 - 1 })
  detached := []
  pushed := [thread]

end Asym.Scheduler
