import Asym.Polling
import Asym.ThreadCustody

/-!
# Timeouts

`sched_block` turns a timeout into a deadline, and `sched_update_blockers` releases a thread
when the uptime is after its deadline. `vfs_poll` and `SCHED_BLOCK_LOCK_TIMEOUT` do the same sum
for themselves, and the macro turns its deadline back into the time that remains for every call
of `sched_block`.

The sums are of 64 bits. A sum that wraps gives a deadline that has passed already, so a thread
that asked for a very long timeout is released at once.
-/

namespace Asym.Timeouts

open MachineWords Scheduler Polling

/-- A time out at an uptime is early: it comes before the timeout, or there was none. -/
def Early (timeout uptime released : Nat) : Prop := timeout = never ∨ released < uptime + timeout

section Blocking

variable {cpus : Nat} {Blocker : Type}

/-- The data of a thread before and after: its deadline and its blocker are the same, or it
waits no longer. -/
def Follows (thread : Nat) (before after : Registry Blocker) : Prop :=
  ((after.threads thread).deadline = (before.threads thread).deadline ∧
    (after.threads thread).blocker = (before.threads thread).blocker) ∨ (after.threads thread).blocker = none

/-- Nothing happens. -/
theorem Follows.same {thread : Nat} {registry : Registry Blocker} : Follows thread registry registry :=
  .inl ⟨rfl, rfl⟩

/-- One change after another. -/
theorem Follows.trans {thread : Nat} {before middle after : Registry Blocker}
    (first : Follows thread before middle) (second : Follows thread middle after) :
    Follows thread before after := by
  rcases second with ⟨deadline, blocker⟩ | free
  · rcases first with ⟨earlier, same⟩ | free
    · exact .inl ⟨deadline.trans earlier, blocker.trans same⟩
    · exact .inr (blocker.trans free)
  · exact .inr free

/-- `thread_free` changes no thread. -/
theorem Follows.freed {thread : Nat} (registry : Registry Blocker) (freed : Nat) :
    Follows thread registry (threadFree registry freed) := .inl ⟨rfl, rfl⟩

/-- An edit that keeps the deadline and the blocker, or frees from the blocker. -/
theorem Follows.edit {thread : Nat} (registry : Registry Blocker) (edited : Nat)
    {edit : Thread Blocker → Thread Blocker}
    (keeps : ∀ data, ((edit data).deadline = data.deadline ∧ (edit data).blocker = data.blocker) ∨
      (edit data).blocker = none) : Follows thread registry (registry.editThread edited edit) := by
  by_cases here : thread = edited
  · subst here
    simpa [Follows, Registry.editThread] using keeps (registry.threads thread)
  · simp [Follows, Registry.editThread, here]

/-- Freeing threads. -/
theorem Follows.free {thread : Nat} (threads : List Nat) (registry : Registry Blocker) :
    Follows thread registry (threads.foldl threadFree registry) := by
  induction threads generalizing registry with
  | nil => exact Follows.same
  | cons freed rest ih =>
    exact (Follows.freed registry freed).trans (ih _)

/-- A search frees threads only. -/
theorem Follows.find {thread : Nat} (levels : List Priority) (fuel : Nat) (queues : Queues)
    (registry : Registry Blocker) : Follows thread registry (findThread levels fuel queues registry).2.2 := by
  induction fuel generalizing queues registry with
  | zero => exact Follows.same
  | succ fuel ih =>
    rw [findThread]
    split
    · exact Follows.same
    · next found popped _ =>
      split
      · exact (Follows.freed registry found).trans (ih _ _)
      · exact Follows.same

/-- Loading a thread. -/
theorem Follows.load {thread : Nat} (registry : Registry Blocker) (next : Option Nat) (uptime : Nat) :
    Follows thread registry (threadLoad registry next uptime) := by
  cases next with
  | none => exact Follows.same
  | some loaded =>
    rw [threadLoad]
    refine Follows.edit registry loaded ?_
    exact fun data => .inl ⟨rfl, rfl⟩

/-- Saving a thread. -/
theorem Follows.save {thread : Nat} (registry : Registry Blocker) (saved : Nat) (kernelCode : Bool) :
    Follows thread registry (threadSave registry saved kernelCode) := by
  refine Follows.edit registry saved ?_
  exact fun data => .inl ⟨rfl, rfl⟩

variable [DecidableEq Blocker]

/-- A look at a blocker. -/
theorem updateBlocker_follows (uptime thread : Nat) (sched : Sched cpus Blocker) (blocker : Blocker) :
    Follows thread sched.registry (updateBlocker uptime sched blocker).registry := by
  rw [updateBlocker]
  split
  · exact Follows.same
  · next first rest _ =>
    split
    · simp only [schedPush]
      refine Follows.edit sched.registry first ?_
      exact fun data => .inr rfl
    · exact Follows.same

/-- `sched_update_blockers`. -/
theorem updateBlockers_follows (uptime thread : Nat) (sched : Sched cpus Blocker) :
    Follows thread sched.registry (updateBlockers sched uptime).registry := by
  rw [updateBlockers]
  generalize sched.blockers = blockers
  induction blockers generalizing sched with
  | nil => exact Follows.same
  | cons blocker rest ih =>
    exact (updateBlocker_follows uptime thread sched blocker).trans (ih _)

/-- The choice of the next thread. -/
theorem chooseNext_follows (thread : Nat) (sched : Sched cpus Blocker) (cpu : Fin (cpus + 1)) (trap : Trap) :
    Follows thread sched.registry (chooseNext sched cpu trap).registry := by
  rw [chooseNext]
  split
  · exact (Follows.find _ _ _ _).trans (Follows.load _ _ _)
  · next running _ =>
    split
    · exact (Follows.save _ running trap.kernelCode).trans ((Follows.find _ _ _ _).trans (Follows.load _ _ _))
    · have searched : Follows thread sched.registry
          (if (sched.registry.threads running).timeEnd < trap.sliceUptime then
            findAny (sched.contexts cpu).queues sched.registry
          else findHigher (sched.contexts cpu).queues sched.registry
            (sched.registry.threads running).priority).2.2 := by
        split_ifs
        · exact Follows.find _ _ _ _
        · exact Follows.find _ _ _ _
      simp only
      split
      · exact searched
      · next found _ =>
        exact searched.trans ((Follows.save _ running trap.kernelCode).trans
          (Follows.load _ (some found) trap.loadUptime))

/-- `sched_schedule`. -/
theorem schedule_follows (thread : Nat) (sched : Sched cpus Blocker) (cpu : Fin (cpus + 1)) (trap : Trap) :
    Follows thread sched.registry (schedSchedule sched cpu trap).registry := by
  by_cases deep : trap.trapDepth > 1
  · rw [schedSchedule, if_pos deep]
    exact Follows.same
  · rw [schedSchedule, if_neg deep]
    have updated : Follows thread sched.registry
        (if cpu = 0 then updateBlockers sched trap.blockerUptime else sched).registry := by
      split_ifs
      · exact updateBlockers_follows _ thread sched
      · exact Follows.same
    generalize (if cpu = 0 then updateBlockers sched trap.blockerUptime else sched) = woken at updated
    have buried : Follows thread woken.registry
        (buryRunning (freeGraveyard woken cpu) cpu trap.kernelCode).registry := by
      have freed : Follows thread woken.registry (freeGraveyard woken cpu).registry := Follows.free _ _
      rw [buryRunning]
      split
      · exact freed
      · simp only
        split
        · exact freed
        · exact freed
    exact updated.trans (buried.trans (chooseNext_follows thread _ cpu trap))

/-- Waking the threads of a blocker. -/
theorem wakeAll_follows (thread : Nat) (sched : Sched cpus Blocker) (blocker : Blocker) (threads : List Nat) :
    Follows thread sched.registry (wakeAll sched blocker threads).registry := by
  induction threads generalizing sched with
  | nil => exact Follows.same
  | cons first rest ih =>
    have woken : Follows thread sched.registry (wakeFirst sched blocker first rest).registry := by
      simp only [wakeFirst, schedPush]
      refine Follows.edit sched.registry first ?_
      exact fun data => .inr rfl
    exact woken.trans (ih _)

omit [DecidableEq Blocker] in
/-- Edits of the running thread that keep its deadline and its blocker. -/
theorem editRunning_follows (thread : Nat) (sched : Sched cpus Blocker) (cpu : Fin (cpus + 1))
    {edit : Thread Blocker → Thread Blocker}
    (keeps : ∀ data, (edit data).deadline = data.deadline ∧ (edit data).blocker = data.blocker) :
    Follows thread sched.registry (editRunning sched cpu edit).registry := by
  rw [editRunning]
  split
  · exact Follows.same
  · next running _ => exact Follows.edit sched.registry running fun data => .inl (keeps data)

/-- A thread calls `sched_block`, or `sched_sleep`, which is `sched_block` on its blocker. -/
def Calls (thread : Nat) (before after : Sched cpus Blocker) : Prop :=
  ∃ cpu blocker timeout uptime, (before.contexts cpu).runThread = some thread ∧
    after = schedBlock before cpu blocker timeout uptime

/-- A step in which a thread does not call `sched_block`. -/
def Meanwhile (thread : Nat) (before after : Sched cpus Blocker) : Prop :=
  Scheduler.Step before after ∧ ¬ Calls thread before after

/-- Such a step keeps the deadline that the thread waits for, until it waits no longer. -/
theorem meanwhile_follows {thread : Nat} {before after : Sched cpus Blocker}
    (created : thread ∈ before.registry.createdThreads) (meanwhile : Meanwhile thread before after) :
    Follows thread before.registry after.registry ∧ thread ∈ after.registry.createdThreads := by
  obtain ⟨taken, silent⟩ := meanwhile
  refine ⟨?_, Custody.run_items (ThreadCustody.step_run taken) thread created⟩
  cases taken with
  | schedule cpu trap => exact schedule_follows thread before cpu trap
  | spawn process other priority newThread newProcess =>
    have different : thread ≠ other := fun same => newThread (same ▸ created)
    exact .inl (by simp [threadNew, different])
  | split cpu running other priority kernelCode newThread runs =>
    have different : thread ≠ other := fun same => newThread (same ▸ created)
    exact .inl (by simp [threadSplit, different])
  | push other detached => exact Follows.same
  | abandon other detached => exact Follows.freed before.registry other
  | block cpu blocker timeout uptime =>
    have notRunning : (before.contexts cpu).runThread ≠ some thread :=
      fun runs => silent ⟨cpu, blocker, timeout, uptime, runs, rfl⟩
    rw [schedBlock, editRunning]
    split
    · exact Follows.same
    · next running runs =>
      have different : thread ≠ running := fun same => notRunning (same ▸ runs)
      exact .inl (by simp [Registry.editThread, different])
  | yield cpu => exact editRunning_follows thread before cpu fun data => ⟨rfl, rfl⟩
  | threadExit cpu => exact editRunning_follows thread before cpu fun data => ⟨rfl, rfl⟩
  | processExit cpu =>
    rw [schedProcessExit]
    split
    · exact Follows.same
    · have exited : Follows thread before.registry (schedThreadExit before cpu).registry :=
        editRunning_follows thread before cpu fun data => ⟨rfl, rfl⟩
      exact exited
  | unblock blocker => exact wakeAll_follows thread before blocker _
  | blockerInit blocker => exact Follows.same
  | blockerCleanup blocker empty => exact Follows.same

/-- A run of such steps. -/
theorem run_follows {thread : Nat} {start later : Sched cpus Blocker}
    (created : thread ∈ start.registry.createdThreads)
    (run : Relation.ReflTransGen (Meanwhile thread) start later) :
    Follows thread start.registry later.registry ∧ thread ∈ later.registry.createdThreads := by
  induction run with
  | refl => exact ⟨Follows.same, created⟩
  | tail _ step ih =>
    obtain ⟨follows, known⟩ := ih
    obtain ⟨next, still⟩ := meanwhile_follows known step
    exact ⟨follows.trans next, still⟩

/-- `sched_update_blockers` releases a thread with `BLOCK_TIMEOUT`. -/
structure TimesOut (sched : Sched cpus Blocker) (uptime thread : Nat) : Prop where
  waited : (sched.registry.threads thread).blocker ≠ none
  free : ((updateBlockers sched uptime).registry.threads thread).blocker = none
  result : ((updateBlockers sched uptime).registry.threads thread).result = .timeout

/-- It does so only if the uptime is after the deadline. -/
theorem timesOut_late {sched : Sched cpus Blocker} {uptime thread : Nat} (timesOut : TimesOut sched uptime thread) :
    (sched.registry.threads thread).deadline < uptime := by
  have waited := timesOut.waited
  have free := timesOut.free
  rw [updateBlockers] at free
  generalize sched.blockers = blockers at free
  clear timesOut
  induction blockers generalizing sched with
  | nil => exact absurd free waited
  | cons blocker rest ih =>
    rw [List.foldl_cons] at free
    rcases updateBlocker_follows uptime thread sched blocker with ⟨deadline, same⟩ | released
    · rw [← deadline]
      exact ih (same ▸ waited) free
    · rw [updateBlocker] at released
      split at released
      · exact absurd released waited
      · next first _ _ =>
        split at released
        · next late =>
          by_cases here : thread = first
          · rw [here]
            exact late
          · rw [schedPush, Registry.editThread] at released
            simp only [Function.update_of_ne here] at released
            exact absurd released waited
        · exact absurd released waited

omit [DecidableEq Blocker] in
/-- The deadline that `sched_block` writes. -/
theorem schedBlock_deadline {sched : Sched cpus Blocker} {cpu : Fin (cpus + 1)} {thread : Nat} (blocker : Blocker)
    (timeout uptime : Nat) (runs : (sched.contexts cpu).runThread = some thread) :
    ((schedBlock sched cpu blocker timeout uptime).registry.threads thread).deadline = deadlineOf timeout uptime := by
  simp [schedBlock, editRunning, runs, Registry.editThread, deadlineOf]

/-- A thread that called `sched_block` times out after the deadline of its call. -/
theorem block_late {sched later : Sched cpus Blocker} {cpu : Fin (cpus + 1)} {blocker : Blocker}
    {thread timeout uptime released : Nat} (created : thread ∈ sched.registry.createdThreads)
    (runs : (sched.contexts cpu).runThread = some thread)
    (run : Relation.ReflTransGen (Meanwhile thread) (schedBlock sched cpu blocker timeout uptime) later)
    (timesOut : TimesOut later released thread) : deadlineOf timeout uptime < released := by
  have known : thread ∈ (schedBlock sched cpu blocker timeout uptime).registry.createdThreads := by
    simpa [schedBlock, editRunning, runs, Registry.editThread] using created
  rcases (run_follows known run).1 with ⟨deadline, _⟩ | free
  · rw [← schedBlock_deadline blocker timeout uptime runs, ← deadline]
    exact timesOut_late timesOut
  · exact absurd free timesOut.waited

/-- The first thread of a processor without others, and a blocker where it may wait. -/
def lone : Sched 0 Unit := { (schedInit 0 0 : Sched 0 Unit) with blockers := [()] }

/-- A tick at the start. -/
def firstTick : Trap where
  kernelCode := true
  trapDepth := 1
  blockerUptime := 0
  sliceUptime := 0
  loadUptime := 0

/-- It blocks, and the processor becomes idle. -/
def parked (timeout uptime : Nat) : Sched 0 Unit := schedSchedule (schedBlock lone 0 () timeout uptime) 0 firstTick

/-- Such a thread can time out at any uptime after its deadline. -/
theorem parked_timesOut (timeout uptime released : Nat) (late : deadlineOf timeout uptime < released) :
    Relation.ReflTransGen (Meanwhile 0) (schedBlock lone 0 () timeout uptime) (parked timeout uptime) ∧
      TimesOut (parked timeout uptime) released 0 := by
  have waits : (parked timeout uptime).blocked () = [0] := rfl
  have blockers : (parked timeout uptime).blockers = [()] := rfl
  have deadline : ((parked timeout uptime).registry.threads 0).deadline = deadlineOf timeout uptime := rfl
  have blocker : ((parked timeout uptime).registry.threads 0).blocker = some () := rfl
  have idle : ((parked timeout uptime).contexts 0).runThread = none := rfl
  have released : ((updateBlockers (parked timeout uptime) released).registry.threads 0).blocker = none ∧
      ((updateBlockers (parked timeout uptime) released).registry.threads 0).result = .timeout := by
    rw [updateBlockers, blockers, List.foldl_cons, List.foldl_nil, updateBlocker, waits]
    simp only [deadline, late, if_true, schedPush, Registry.editThread, Function.update_self, and_self]
  refine ⟨.single ⟨.schedule _ 0 firstTick, ?_⟩, ?_, released.1, released.2⟩
  · rintro ⟨cpu, other, otherTimeout, otherUptime, runs, same⟩
    have still : ((schedBlock (schedBlock lone 0 () timeout uptime) cpu other otherTimeout otherUptime).contexts
        cpu).runThread = some 0 := by
      rw [schedBlock, editRunning, runs]
      exact runs
    have nobody : ((parked timeout uptime).contexts cpu).runThread = none := by
      rw [Fin.fin_one_eq_zero cpu]
      exact idle
    rw [same, still] at nobody
    cases nobody
  · rw [blocker]
    exact Option.some_ne_none ()

end Blocking

section Macro

/-- The readings of the clock in one turn of the loop: the one in `sched_block`, and the one
after it. -/
structure Reading where
  entry : Nat
  uptime : Nat

/-- One turn of the loop of `SCHED_BLOCK_LOCK_TIMEOUT`: whether the condition holds, the
readings, and the uptime at which `sched_update_blockers` releases the thread, if it was not
`sched_unblock`. -/
structure Wait where
  condition : Bool
  reading : Reading
  expiry : Option Nat

/-- `remaining`. -/
def remaining (deadline uptime : Nat) : Nat :=
  if deadline = never then never else if deadline > uptime then sub deadline uptime else 0

/-- The loop of `SCHED_BLOCK_LOCK_TIMEOUT`: its result, and the uptime at which it was known.
There is no result while it goes on. -/
def lockLoop (deadline : Nat) : Nat → List Wait → Option (BlockResult × Nat)
  | uptime, [] => if deadline < uptime then some (.timeout, uptime) else none
  | uptime, wait :: rest =>
      if deadline < uptime then some (.timeout, uptime)
      else if wait.condition then some (.norm, uptime)
      else
        match wait.expiry with
        | some released => some (.timeout, released)
        | none => lockLoop deadline wait.reading.uptime rest

/-- `SCHED_BLOCK_LOCK_TIMEOUT`. -/
def schedBlockLockTimeout (timeout uptime : Nat) (waits : List Wait) : Option (BlockResult × Nat) :=
  lockLoop (deadlineOf timeout uptime) uptime waits

/-- Threads are released with `BLOCK_TIMEOUT` after the deadline of their call of `sched_block`
only. -/
def Released (deadline : Nat) : Nat → List Wait → Prop
  | _, [] => True
  | uptime, wait :: rest =>
      (∀ released, wait.expiry = some released → released < wordSize ∧
        deadlineOf (remaining deadline uptime) wait.reading.entry < released) ∧
      Released deadline wait.reading.uptime rest

/-- No time out of the loop has a property. -/
def Avoids (early : Nat → Prop) (deadline : Nat) : Nat → List Reading → Prop
  | uptime, [] => deadline < uptime → ¬ early uptime
  | uptime, reading :: rest =>
      (deadline < uptime → ¬ early uptime) ∧ (¬ deadline < uptime →
        (∀ released < wordSize, deadlineOf (remaining deadline uptime) reading.entry < released → ¬ early released) ∧
          Avoids early deadline reading.uptime rest)

/-- A turn that blocks until `sched_unblock`. -/
def silent (reading : Reading) : Wait := ⟨false, reading, none⟩

/-- Such turns with given readings. -/
theorem silent_released (deadline uptime : Nat) (readings : List Reading) :
    (readings.map silent).map Wait.reading = readings ∧ Released deadline uptime (readings.map silent) := by
  induction readings generalizing uptime with
  | nil => exact ⟨rfl, trivial⟩
  | cons reading rest ih =>
    obtain ⟨same, released⟩ := ih reading.uptime
    refine ⟨?_, fun _ expired => ?_, released⟩
    · rw [List.map_cons, List.map_cons, same]
      rfl
    · cases expired

/-- The loop times out at an uptime with a property exactly if one of its calls of `sched_block`
or of its own tests can. -/
theorem lockLoop_avoids (early : Nat → Prop) (deadline uptime : Nat) (readings : List Reading) :
    (∀ waits, waits.map Wait.reading = readings → Released deadline uptime waits → ∀ released,
      lockLoop deadline uptime waits = some (.timeout, released) → ¬ early released) ↔
      Avoids early deadline uptime readings := by
  induction readings generalizing uptime with
  | nil =>
    constructor
    · intro none late
      exact none [] rfl trivial uptime (if_pos late)
    · intro avoids waits same _ released result
      rw [List.map_eq_nil_iff.mp same, lockLoop] at result
      split_ifs at result with late
      cases result
      exact avoids late
  | cons reading rest ih =>
    constructor
    · intro none
      refine ⟨fun late => ?_, fun goesOn => ⟨fun released word later => ?_, ?_⟩⟩
      · obtain ⟨same, quiet⟩ := silent_released deadline uptime (reading :: rest)
        refine none _ same quiet uptime ?_
        rw [List.map_cons, lockLoop, if_pos late]
      · obtain ⟨same, quiet⟩ := silent_released deadline reading.uptime rest
        refine none (⟨false, reading, some released⟩ :: rest.map silent) ?_ ⟨?_, quiet⟩ released ?_
        · rw [List.map_cons, same]
        · rintro other expired
          obtain rfl := Option.some.inj expired
          exact ⟨word, later⟩
        · rw [lockLoop, if_neg goesOn]
          rfl
      · refine (ih reading.uptime).mp fun waits same released uptimeReleased result => ?_
        refine none (silent reading :: waits) ?_ ⟨fun _ expired => ?_, released⟩ uptimeReleased ?_
        · rw [List.map_cons, same]
          rfl
        · cases expired
        · rw [lockLoop, if_neg goesOn]
          exact result
    · intro avoids waits same released uptimeReleased result
      obtain ⟨wait, others, rfl, rfl, rfl⟩ := List.map_eq_cons_iff.mp same
      rw [lockLoop] at result
      split_ifs at result with late holds
      · cases result
        exact avoids.1 late
      · cases result
      · obtain ⟨blocked, later⟩ := avoids.2 late
        split at result
        · next expired =>
          obtain ⟨word, after⟩ := released.1 _ expired
          cases result
          exact blocked _ word after
        · exact (ih wait.reading.uptime).mpr later others rfl released.2 uptimeReleased result

/-- In every turn of the loop, the deadline that `sched_block` computes from the time that
remains is not before that of the loop, up to one. -/
def Punctual (deadline : Nat) : Nat → List Reading → Prop
  | _, [] => True
  | uptime, reading :: rest =>
      uptime ≤ deadline → deadline ≤ add (deadline - uptime) reading.entry + 1 ∧
        Punctual deadline reading.uptime rest

/-- A loop without a deadline does not time out. -/
theorem avoids_never (early : Nat → Prop) (uptime : Nat) (readings : List Reading) (word : uptime < wordSize)
    (words : ∀ reading ∈ readings, reading.uptime < wordSize) : Avoids early never uptime readings := by
  have passed (number : Nat) (small : number < wordSize) : ¬ never < number := by
    simp only [never, wordSize] at *
    omega
  induction readings generalizing uptime with
  | nil => exact fun late => absurd late (passed uptime word)
  | cons reading rest ih =>
    rw [List.forall_mem_cons] at words
    refine ⟨fun late => absurd late (passed uptime word), fun _ => ⟨fun released small late => ?_, ?_⟩⟩
    · rw [remaining, if_pos rfl, deadlineOf, if_pos rfl] at late
      exact absurd late (passed released small)
    · exact ih reading.uptime words.1 words.2

/-- The deadline that `sched_block` computes from the time that remains. -/
theorem deadlineOf_remaining {deadline uptime : Nat} (entry : Nat) (limited : deadline < never)
    (goesOn : uptime ≤ deadline) : deadlineOf (remaining deadline uptime) entry = add (deadline - uptime) entry := by
  have rest : remaining deadline uptime = deadline - uptime := by
    rw [remaining, if_neg (Nat.ne_of_lt limited)]
    split_ifs with later
    · refine sub_of_le _ _ goesOn ?_
      simp only [never, wordSize] at *
      omega
    · omega
  rw [rest, deadlineOf, if_neg (by omega)]

/-- A loop with a deadline times out before it exactly if one of its calls of `sched_block` can. -/
theorem avoids_iff_punctual {deadline : Nat} (limited : deadline < never) (uptime : Nat) (readings : List Reading) :
    Avoids (fun released => released < deadline) deadline uptime readings ↔ Punctual deadline uptime readings := by
  induction readings generalizing uptime with
  | nil => exact iff_of_true (fun late => Nat.lt_asymm late) trivial
  | cons reading rest ih =>
    have tested : deadline < uptime → ¬ uptime < deadline := fun late => Nat.lt_asymm late
    rw [Avoids, Punctual, and_iff_right tested, Nat.not_lt, ih reading.uptime]
    refine imp_congr_right fun goesOn => and_congr_left' ?_
    rw [deadlineOf_remaining reading.entry limited goesOn]
    have word := add_lt (deadline - uptime) reading.entry
    constructor
    · intro none
      by_contra early
      refine none (add (deadline - uptime) reading.entry + 1) ?_ (Nat.lt_succ_self _) (Nat.not_le.mp early)
      simp only [never, wordSize] at *
      omega
    · intro close released _ late
      omega

end Macro

section Claim

/-- No time out is early: not of a thread that called `sched_block`, whatever the other threads
and the scheduler do; not of `vfs_poll`, with given readings of the clock in its turns; and not
of `SCHED_BLOCK_LOCK_TIMEOUT`, with given readings in its turns. -/
structure NoEarlyTimeout (timeout uptime : Nat) (polls : List Nat) (blocks : List Reading) : Prop where
  block : ∀ (cpus : Nat) (Blocker : Type) [DecidableEq Blocker] (sched later : Sched cpus Blocker)
    (cpu : Fin (cpus + 1)) (blocker : Blocker) (thread released : Nat),
    thread ∈ sched.registry.createdThreads → (sched.contexts cpu).runThread = some thread →
    Relation.ReflTransGen (Meanwhile thread) (schedBlock sched cpu blocker timeout uptime) later →
    released < wordSize → TimesOut later released thread → ¬ Early timeout uptime released
  poll : ∀ (File World : Type) (status : StatusOf File World) (files : List (PollFile File))
    (turns : List (Turn World)) (polled : Polled File), turns.map Turn.uptime = polls →
    vfsPoll status files timeout uptime turns = some polled → polled.value = some 0 →
    ¬ Early timeout uptime polled.uptime
  lock : ∀ (waits : List Wait) (released : Nat), waits.map Wait.reading = blocks →
    Released (deadlineOf timeout uptime) uptime waits →
    schedBlockLockTimeout timeout uptime waits = some (.timeout, released) → ¬ Early timeout uptime released

variable {timeout uptime : Nat}

/-- The deadline of a sum that does not wrap. -/
theorem deadlineOf_fits (limited : timeout ≠ never) (fits : uptime + timeout < wordSize) :
    deadlineOf timeout uptime = uptime + timeout := by
  rw [deadlineOf, if_neg limited, Nat.add_comm uptime]
  exact add_of_lt _ _ (by omega)

/-- Time outs of `sched_block`. -/
theorem block_iff (small : timeout < wordSize) (word : uptime < wordSize) :
    (∀ released < wordSize, deadlineOf timeout uptime < released → ¬ Early timeout uptime released) ↔
      timeout = never ∨ uptime + timeout < wordSize := by
  by_cases unlimited : timeout = never
  · refine iff_of_true (fun released bound late => ?_) (.inl unlimited)
    rw [deadlineOf, if_pos unlimited] at late
    simp only [never, wordSize] at *
    omega
  · rw [or_iff_right unlimited]
    constructor
    · intro none
      by_contra wraps
      refine none (deadlineOf timeout uptime + 1) ?_ (Nat.lt_succ_self _) (.inr ?_)
      · rw [deadlineOf, if_neg unlimited, add]
        simp only [never, wordSize] at *
        omega
      · rw [deadlineOf, if_neg unlimited, add]
        simp only [never, wordSize] at *
        omega
    · intro fits released _ late early
      rw [deadlineOf_fits unlimited fits] at late
      rcases early with never | early
      · exact unlimited never
      · omega

/-- Without files, `vfs_poll` waits until the deadline. -/
theorem pollTurns_empty (status : StatusOf Unit Unit) (deadline : Nat) {polls : List Nat}
    (passes : ∃ reading ∈ polls, deadline ≤ reading) : ∃ polled,
      pollTurns status deadline [] (polls.map fun reading => ⟨(), reading⟩) = some polled ∧ polled.value = some 0 := by
  induction polls with
  | nil =>
    obtain ⟨reading, member, _⟩ := passes
    cases member
  | cons first rest ih =>
    by_cases goesOn : deadline > first
    · obtain ⟨reading, member, late⟩ := passes
      rcases List.mem_cons.mp member with rfl | later
      · exact absurd late (Nat.not_le.mpr goesOn)
      · obtain ⟨polled, ended, nothing⟩ := ih ⟨reading, later, late⟩
        refine ⟨polled, ?_, nothing⟩
        rw [List.map_cons, pollTurns]
        simpa [vfsPollCondition, countEvents, goesOn] using ended
    · refine ⟨⟨some 0, [], first⟩, ?_, rfl⟩
      rw [List.map_cons, pollTurns]
      simp [vfsPollCondition, countEvents, goesOn]

/-- Time outs of `vfs_poll`. -/
theorem poll_iff {polls : List Nat} (words : ∀ reading ∈ polls, reading < wordSize)
    (fits : timeout = never ∨ uptime + timeout < wordSize) :
    (∀ (File World : Type) (status : StatusOf File World) (files : List (PollFile File))
      (turns : List (Turn World)) (polled : Polled File), turns.map Turn.uptime = polls →
      vfsPoll status files timeout uptime turns = some polled → polled.value = some 0 →
      ¬ Early timeout uptime polled.uptime) ↔ (timeout = never → never ∉ polls) := by
  constructor
  · rintro none rfl member
    obtain ⟨polled, ended, nothing⟩ :=
      pollTurns_empty (fun _ => Option.none) (deadlineOf never uptime) ⟨never, member, Nat.le_refl never⟩
    refine none Unit Unit (fun _ => Option.none) [] _ polled ?_ ended nothing (.inl rfl)
    rw [List.map_map]
    exact List.map_id polls
  · intro unread File World status files turns polled same result nothing early
    rw [vfsPoll] at result
    split_ifs at result with refused
    · cases result
      cases nothing
    · obtain ⟨late, turn, member, here⟩ := pollTurns_late result nothing
      have read : polled.uptime ∈ polls := by
        rw [← same, ← here]
        exact List.mem_map_of_mem member
      by_cases unlimited : timeout = never
      · rw [deadlineOf, if_pos unlimited] at late
        have word := words polled.uptime read
        have last : polled.uptime = never := by
          simp only [never, wordSize] at *
          omega
        exact unread unlimited (last ▸ read)
      · rw [deadlineOf_fits unlimited (fits.resolve_left unlimited)] at late
        rcases early with never | early
        · exact unlimited never
        · omega

/-- Time outs of `SCHED_BLOCK_LOCK_TIMEOUT`. -/
theorem lock_iff {blocks : List Reading} (word : uptime < wordSize)
    (words : ∀ reading ∈ blocks, reading.uptime < wordSize)
    (fits : timeout = never ∨ uptime + timeout < wordSize) :
    (∀ (waits : List Wait) (released : Nat), waits.map Wait.reading = blocks →
      Released (deadlineOf timeout uptime) uptime waits →
      schedBlockLockTimeout timeout uptime waits = some (.timeout, released) → ¬ Early timeout uptime released) ↔
      (uptime + timeout < never → Punctual (uptime + timeout) uptime blocks) := by
  have avoids : (∀ (waits : List Wait) (released : Nat), waits.map Wait.reading = blocks →
      Released (deadlineOf timeout uptime) uptime waits →
      schedBlockLockTimeout timeout uptime waits = some (.timeout, released) → ¬ Early timeout uptime released) ↔
      Avoids (Early timeout uptime) (deadlineOf timeout uptime) uptime blocks := by
    rw [← lockLoop_avoids]
    exact ⟨fun none waits same released uptimeReleased => none waits uptimeReleased same released,
      fun none waits uptimeReleased same released => none waits same released uptimeReleased⟩
  rw [avoids]
  by_cases endless : deadlineOf timeout uptime = never
  · rw [endless]
    refine iff_of_true (avoids_never _ uptime blocks word words) fun limited => ?_
    have unlimited : timeout ≠ never := by
      rintro rfl
      omega
    rw [deadlineOf_fits unlimited (fits.resolve_left unlimited)] at endless
    omega
  · have unlimited : timeout ≠ never := fun same => endless (if_pos same)
    have sum := deadlineOf_fits unlimited (fits.resolve_left unlimited)
    have limited : uptime + timeout < never := by
      have small := fits.resolve_left unlimited
      rw [sum] at endless
      simp only [never, wordSize] at *
      omega
    have early : Early timeout uptime = fun released => released < uptime + timeout := by
      funext released
      exact propext (or_iff_right unlimited)
    rw [sum, early, avoids_iff_punctual limited]
    exact (imp_iff_right limited).symm

/-- No time out is early if and only if the timeout is `NEVER` or its sum with the uptime fits
into 64 bits, a poll without a timeout does not read the last of all uptimes, and the deadlines
that are computed from the time that remains do not wrap or fall back. -/
theorem no_early_timeout_iff (timeout uptime : Nat) (polls : List Nat) (blocks : List Reading)
    (small : timeout < wordSize) (word : uptime < wordSize) (pollWords : ∀ reading ∈ polls, reading < wordSize)
    (blockWords : ∀ reading ∈ blocks, reading.uptime < wordSize) :
    NoEarlyTimeout timeout uptime polls blocks ↔
      (timeout = never ∨ uptime + timeout < wordSize) ∧ (timeout = never → never ∉ polls) ∧
        (uptime + timeout < never → Punctual (uptime + timeout) uptime blocks) := by
  constructor
  · rintro ⟨block, poll, lock⟩
    have fits : timeout = never ∨ uptime + timeout < wordSize := by
      refine (block_iff small word).mp fun released bound late => ?_
      obtain ⟨run, timesOut⟩ := parked_timesOut timeout uptime released late
      exact block 0 Unit lone _ 0 () 0 released List.mem_cons_self rfl run bound timesOut
    exact ⟨fits, (poll_iff pollWords fits).mp poll, (lock_iff word blockWords fits).mp lock⟩
  · rintro ⟨fits, unread, punctual⟩
    refine ⟨?_, (poll_iff pollWords fits).mpr unread, (lock_iff word blockWords fits).mpr punctual⟩
    intro cpus Blocker _ sched later cpu blocker thread released created runs run bound timesOut
    exact (block_iff small word).mpr fits released bound (block_late created runs run timesOut)

/-- A timeout of 5 at uptime 7. -/
theorem short_timeout_kept : NoEarlyTimeout 5 7 [9, 12] [⟨8, 10⟩] := by
  refine (no_early_timeout_iff 5 7 [9, 12] [⟨8, 10⟩] (by decide) (by decide) (by decide) ?_).mpr ⟨?_, ?_, ?_⟩
  · exact List.forall_mem_singleton.mpr (by decide)
  · exact .inr (by decide)
  · exact fun unlimited => absurd unlimited (by decide)
  · exact fun _ _ => ⟨by decide, trivial⟩

/-- The longest timeout at uptime 2: its thread times out at uptime 3. -/
theorem longest_timeout_early : ¬ NoEarlyTimeout (2 ^ 64 - 2) 2 [] [] := by
  intro none
  obtain ⟨run, timesOut⟩ := parked_timesOut (2 ^ 64 - 2) 2 3 (by decide)
  exact none.block 0 Unit lone _ 0 () 0 3 List.mem_cons_self rfl run (by decide) timesOut (.inr (by decide))

end Claim

end Asym.Timeouts
