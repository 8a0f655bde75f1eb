import Asym.FileLifetimes
import Asym.Pipe

/-!
# The end of a pipe

The two files of a pipe share one private structure, which the cleanup of the
file that goes second has to free. Here the system of files, descriptor tables
and kernel tasks runs together with the calls on one pipe. A task that calls
`pipe_read`, `pipe_write` or a status function has a temporary reference to the
file and does not give it back before it returns; a thread that sleeps in the
blocker of the pipe is such a task.

The `file_deref` that frees a file leaves its cleanup to be run, and the section
of the cleanup under the lock of the pipe is one step.
-/

namespace Asym.PipeTeardown

open FileTables hiding Request
open FileLifetimes hiding State Step Initial
open Pipe hiding State Step Initial
open References hiding Step
open Runs Scheduler MachineWords

/-- The two files of a pipe. -/
structure Ends where
  read : Nat
  write : Nat
  different : read ≠ write

/-- One of the two ends. -/
inductive Side where
  | read
  | write
  deriving DecidableEq, Repr

/-- The file of an end. -/
def Ends.file (ends : Ends) : Side → Nat
  | .read => ends.read
  | .write => ends.write

/-- The end that a request is made on. -/
def side : Request → Side
  | .read _ => .read
  | .write _ => .write

/-- Where a task is in a call on the pipe. -/
inductive Call where
  | outside
  /-- About to take the lock, with the result of the last block. -/
  | locking (request : Request) (result : BlockResult)
  /-- In the blocker of the pipe. -/
  | blocked (request : Request) (deadline : Nat)
  /-- The lock is released, `sched_unblock` is still to be called. -/
  | unblocking (request : Request)
  /-- In `pipe_read_status` or `pipe_write_status`. -/
  | status (on : Side)

/-- The end that a call is made on. -/
def Call.side : Call → Option Side
  | .outside => none
  | .locking request _ => some (PipeTeardown.side request)
  | .blocked request _ => some (PipeTeardown.side request)
  | .unblocking request => some (PipeTeardown.side request)
  | .status on => some on

/-- The calls after `sched_unblock`: every thread of the blocker goes on. -/
def Call.wake : Call → Call
  | .blocked request _ => .locking request .norm
  | call => call

/-- The system with one pipe. `pending` are the freed files whose cleanup was not
yet run, `frees` counts the executions of `pipe_private_free`. -/
structure State (Process Task : Type) where
  system : FileLifetimes.State Process Task
  pipe : Private
  call : Task → Call
  pending : List Nat
  frees : Nat

/-- The files that a step freed. -/
def newlyFreed (before after : Files) : List Nat :=
  after.freed.take (after.freed.length - before.freed.length)

variable {Process Task : Type} [DecidableEq Process] [DecidableEq Task]

/-- Change the call of a task. -/
def State.goto (state : State Process Task) (task : Task) (call : Call) : State Process Task :=
  { state with call := Function.update state.call task call }

/-- One section of a call under the lock: the test of `SCHED_BLOCK_LOCK`, and the
rest of the call unless the test fails. -/
def lockedSection (state : State Process Task) (task : Task) (request : Request)
    (result : BlockResult) : State Process Task :=
  if result ≠ .norm then state.goto task .outside
  else if condition state.pipe request then
    { state.goto task (.unblocking request) with pipe := (finish state.pipe request).2 }
  else state.goto task (.blocked request never)

/-- One step of the system with the pipe. -/
inductive Step (ends : Ends) : State Process Task → State Process Task → Prop where
  /-- A task that is not in a call works on files and tables. -/
  | files (state : State Process Task) (task : Task) (next : FileLifetimes.State Process Task)
      (free : state.call task = .outside) (taken : FileLifetimes.Step task state.system next) :
      Step ends state { state with
        system := next
        pending := newlyFreed state.system.files next.files ++ state.pending }
  /-- The start of `pipe_read` or `pipe_write`, past the test of the size. -/
  | enter (state : State Process Task) (task : Task) (request : Request)
      (free : state.call task = .outside)
      (refers : ends.file (side request) ∈ state.system.temporary task)
      (small : request.count < ringSize) :
      Step ends state (state.goto task (.locking request .norm))
  /-- The section under the lock. -/
  | locked (state : State Process Task) (task : Task) (request : Request) (result : BlockResult)
      (ready : state.call task = .locking request result) :
      Step ends state (lockedSection state task request result)
  /-- `sched_unblock` at the end of a call. -/
  | unblock (state : State Process Task) (task : Task) (request : Request)
      (ready : state.call task = .unblocking request) :
      Step ends state (({ state with call := fun tested => (state.call tested).wake } :
        State Process Task).goto task .outside)
  /-- The scheduler wakes a thread whose deadline has passed. -/
  | expire (state : State Process Task) (task : Task) (request : Request) (deadline uptime : Nat)
      (waits : state.call task = .blocked request deadline) (clock : uptime < wordSize)
      (late : deadline < uptime) :
      Step ends state (state.goto task (.locking request .timeout))
  /-- The start of a status function. -/
  | status (state : State Process Task) (task : Task) (on : Side)
      (free : state.call task = .outside) (refers : ends.file on ∈ state.system.temporary task) :
      Step ends state (state.goto task (.status on))
  /-- The end of a status function. -/
  | statusDone (state : State Process Task) (task : Task) (on : Side)
      (ready : state.call task = .status on) : Step ends state (state.goto task .outside)
  /-- `pipe_read_cleanup`. -/
  | readCleanup (state : State Process Task) (freed : ends.read ∈ state.pending) :
      Step ends state { state with
        pipe := pipeReadCleanup state.pipe
        pending := state.pending.erase ends.read
        frees := if state.pipe.writeClosed then state.frees + 1 else state.frees }
  /-- `pipe_write_cleanup`. -/
  | writeCleanup (state : State Process Task) (freed : ends.write ∈ state.pending) :
      Step ends state { state with
        pipe := pipeWriteCleanup state.pipe
        pending := state.pending.erase ends.write
        frees := if state.pipe.readClosed then state.frees + 1 else state.frees }

/-- `pipe_init` in a system that has been running: both files exist and the pipe is
empty. -/
def Initial (ends : Ends) (state : State Process Task) : Prop :=
  Reachable FileLifetimes.Initial AnyStep state.system ∧
    (ends.read ∈ state.system.created ∧ ends.read ∉ state.system.files.freed) ∧
    (ends.write ∈ state.system.created ∧ ends.write ∉ state.system.files.freed) ∧
    (∃ page, state.pipe = ⟨ringInit page, false, false, false⟩) ∧
    (∀ task, state.call task = .outside) ∧ state.pending = [] ∧ state.frees = 0

omit [DecidableEq Process] [DecidableEq Task] in
/-- A finished call changes no flag of the pipe. -/
theorem finish_closed (pipe : Private) (request : Request) :
    (finish pipe request).2.readClosed = pipe.readClosed ∧
      (finish pipe request).2.writeClosed = pipe.writeClosed := by
  cases request with
  | read count =>
    simp only [finish, finishRead]
    split <;> exact ⟨rfl, rfl⟩
  | write buffer =>
    simp only [finish, finishWrite]
    split
    · exact ⟨rfl, rfl⟩
    · split <;> exact ⟨rfl, rfl⟩

/-- A step of the files frees files in front of those freed before. -/
theorem step_freed {task : Task} {before after : FileLifetimes.State Process Task}
    (taken : FileLifetimes.Step task before after) :
    after.files.freed = newlyFreed before.files after.files ++ before.files.freed := by
  have enough : ∀ new, after.files.freed = new ++ before.files.freed →
      after.files.freed = newlyFreed before.files after.files ++ before.files.freed := by
    intro new split
    have exactly : newlyFreed before.files after.files = new := by
      rw [newlyFreed, split, List.length_append, Nat.add_sub_cancel, List.take_left]
    rw [exactly, split]
  have deref : ∀ file, ∃ new, (fileDeref before.files file).freed = new ++ before.files.freed := by
    intro file
    rw [fileDeref]
    split
    · exact ⟨[file], rfl⟩
    · exact ⟨[], rfl⟩
  cases taken with
  | closeDeref process file closing =>
    obtain ⟨new, split⟩ := deref file
    exact enough new split
  | release file refers =>
    obtain ⟨new, split⟩ := deref file
    exact enough new split
  | cleanupDeref file rest cleaning =>
    obtain ⟨new, split⟩ := deref file
    exact enough new split
  | _ => exact enough [] rfl

/-- A step of the files by one task leaves the temporary references of the others. -/
theorem step_temporary {task other : Task} {before after : FileLifetimes.State Process Task}
    (taken : FileLifetimes.Step task before after) (different : other ≠ task) :
    after.temporary other = before.temporary other := by
  cases taken with
  | create file fresh => exact Function.update_of_ne different _ _
  | get process fd file unlocked found => exact Function.update_of_ne different _ _
  | release file refers => exact Function.update_of_ne different _ _
  | _ => rfl

/-- A step of the files forgets no file. -/
theorem step_created {task : Task} {before after : FileLifetimes.State Process Task}
    (taken : FileLifetimes.Step task before after) (file : Nat) (created : file ∈ before.created) :
    file ∈ after.created := by
  cases taken with
  | create _ _ => exact List.mem_cons_of_mem _ created
  | _ => exact created

/-- Number of a flag that is set. -/
def once (flag : Bool) : Nat := if flag then 1 else 0

variable [Fintype Process] [Fintype Task]

/-- The invariant. Every cleanup of an end is to be run or was run, as often as
the file was freed; the private structure was freed when both ends were cleaned
up; and every call holds a reference to its file. -/
structure Sound (ends : Ends) (state : State Process Task) : Prop where
  kept : Kept state.system
  readCreated : ends.read ∈ state.system.created
  writeCreated : ends.write ∈ state.system.created
  readCleanups : state.pending.count ends.read + once state.pipe.readClosed =
    state.system.files.freed.count ends.read
  writeCleanups : state.pending.count ends.write + once state.pipe.writeClosed =
    state.system.files.freed.count ends.write
  freed : state.frees = once (state.pipe.readClosed && state.pipe.writeClosed)
  pinned : ∀ task on, (state.call task).side = some on → ends.file on ∈ state.system.temporary task

omit [Fintype Process] [Fintype Task] [DecidableEq Process] in
/-- The pins after one task goes on. -/
theorem pinned_goto {ends : Ends} {state : State Process Task} {task : Task} {call : Call}
    (pinned : ∀ task on, (state.call task).side = some on →
      ends.file on ∈ state.system.temporary task)
    (mine : ∀ on, call.side = some on → ends.file on ∈ state.system.temporary task) :
    ∀ tested on, ((state.goto task call).call tested).side = some on →
      ends.file on ∈ (state.goto task call).system.temporary tested := by
  intro tested on called
  simp only [State.goto] at called ⊢
  by_cases same : tested = task
  · subst same
    rw [Function.update_self] at called
    exact mine on called
  · rw [Function.update_of_ne same] at called
    exact pinned tested on called

omit [DecidableEq Process] in
/-- A task goes on in the same system with the same flags. -/
theorem goto_sound (ends : Ends) (state : State Process Task) (task : Task) (call : Call)
    (sound : Sound ends state)
    (mine : ∀ on, call.side = some on → ends.file on ∈ state.system.temporary task) :
    Sound ends (state.goto task call) :=
  ⟨sound.kept, sound.readCreated, sound.writeCreated, sound.readCleanups, sound.writeCleanups,
    sound.freed, pinned_goto sound.pinned mine⟩

/-- A step of the files keeps the invariant. -/
theorem files_sound {ends : Ends} {state : State Process Task} {task : Task}
    {next : FileLifetimes.State Process Task} (sound : Sound ends state)
    (free : state.call task = .outside) (taken : FileLifetimes.Step task state.system next) :
    Sound ends { state with
      system := next
      pending := newlyFreed state.system.files next.files ++ state.pending } := by
  have freed := step_freed taken
  have stays := step_created taken
  refine ⟨step_kept _ _ sound.kept ⟨task, taken⟩, stays _ sound.readCreated,
    stays _ sound.writeCreated, ?_, ?_, sound.freed, ?_⟩
  · rw [freed, List.count_append, List.count_append, Nat.add_assoc, sound.readCleanups]
  · rw [freed, List.count_append, List.count_append, Nat.add_assoc, sound.writeCleanups]
  · intro tested on called
    by_cases same : tested = task
    · subst same
      simp only [free, Call.side] at called
      contradiction
    · rw [step_temporary taken same]
      exact sound.pinned tested on called

omit [DecidableEq Process] in
/-- A section under the lock keeps the invariant. -/
theorem locked_sound {ends : Ends} {state : State Process Task} {task : Task} {request : Request}
    {result : BlockResult} (sound : Sound ends state)
    (ready : state.call task = .locking request result) :
    Sound ends (lockedSection state task request result) := by
  have mine : ∀ on, some (side request) = some on →
      ends.file on ∈ state.system.temporary task := by
    intro on same
    exact sound.pinned task on (by rw [ready]; exact same)
  rw [lockedSection]
  split_ifs with failed holds
  · exact goto_sound ends state task .outside sound (by simp [Call.side])
  · obtain ⟨readSame, writeSame⟩ := finish_closed state.pipe request
    have moved := goto_sound ends state task (.unblocking request) sound mine
    refine ⟨moved.kept, moved.readCreated, moved.writeCreated, ?_, ?_, ?_, moved.pinned⟩
    · rw [readSame]
      exact sound.readCleanups
    · rw [writeSame]
      exact sound.writeCleanups
    · rw [readSame, writeSame]
      exact sound.freed
  · exact goto_sound ends state task (.blocked request never) sound mine

omit [DecidableEq Process] [DecidableEq Task] [Fintype Process] [Fintype Task] in
/-- Waking keeps the end of a call. -/
theorem wake_side (call : Call) : call.wake.side = call.side := by
  cases call <;> rfl

omit [DecidableEq Process] [DecidableEq Task] in
/-- An end whose cleanup is to be run was not closed before. -/
theorem pending_open {ends : Ends} {state : State Process Task} (sound : Sound ends state)
    (file : Nat) (closed : Bool)
    (cleanups : state.pending.count file + once closed = state.system.files.freed.count file)
    (isPending : file ∈ state.pending) : closed = false ∧ state.pending.count file = 1 := by
  have atMost := List.nodup_iff_count_le_one.mp sound.kept.exact.once file
  have atLeast := List.count_pos_iff.mpr isPending
  simp only [counts] at atMost
  cases closed with
  | false =>
    simp only [once, Bool.false_eq_true, if_false] at cleanups
    exact ⟨rfl, by omega⟩
  | true =>
    simp only [once, if_true] at cleanups
    omega

omit [DecidableEq Process] [DecidableEq Task] in
/-- `pipe_read_cleanup` keeps the invariant. -/
theorem readCleanup_sound (ends : Ends) (state : State Process Task) (sound : Sound ends state)
    (isPending : ends.read ∈ state.pending) :
    Sound ends { state with
      pipe := pipeReadCleanup state.pipe
      pending := state.pending.erase ends.read
      frees := if state.pipe.writeClosed then state.frees + 1 else state.frees } := by
  obtain ⟨wasOpen, single⟩ := pending_open sound ends.read _ sound.readCleanups isPending
  have cleanups := sound.readCleanups
  have freed := sound.freed
  rw [wasOpen] at cleanups freed
  refine ⟨sound.kept, sound.readCreated, sound.writeCreated, ?_, ?_, ?_, sound.pinned⟩
  · simp only [pipeReadCleanup, List.count_erase_self, once, if_true]
    simp only [once, Bool.false_eq_true, if_false] at cleanups
    omega
  · rw [List.count_erase_of_ne ends.different.symm]
    exact sound.writeCleanups
  · simp only [pipeReadCleanup, Bool.true_and, freed, Bool.false_and]
    cases state.pipe.writeClosed <;> rfl

omit [DecidableEq Process] [DecidableEq Task] in
/-- `pipe_write_cleanup` keeps the invariant. -/
theorem writeCleanup_sound (ends : Ends) (state : State Process Task) (sound : Sound ends state)
    (isPending : ends.write ∈ state.pending) :
    Sound ends { state with
      pipe := pipeWriteCleanup state.pipe
      pending := state.pending.erase ends.write
      frees := if state.pipe.readClosed then state.frees + 1 else state.frees } := by
  obtain ⟨wasOpen, single⟩ := pending_open sound ends.write _ sound.writeCleanups isPending
  have cleanups := sound.writeCleanups
  have freed := sound.freed
  rw [wasOpen] at cleanups freed
  refine ⟨sound.kept, sound.readCreated, sound.writeCreated, ?_, ?_, ?_, sound.pinned⟩
  · rw [List.count_erase_of_ne ends.different]
    exact sound.readCleanups
  · simp only [pipeWriteCleanup, List.count_erase_self, once, if_true]
    simp only [once, Bool.false_eq_true, if_false] at cleanups
    omega
  · simp only [pipeWriteCleanup, Bool.and_true, freed, Bool.and_false]
    cases state.pipe.readClosed <;> rfl

/-- Every step keeps the invariant. -/
theorem step_sound_teardown (ends : Ends) (before after : State Process Task)
    (sound : Sound ends before) (taken : Step ends before after) : Sound ends after := by
  cases taken with
  | files task next free step => exact files_sound sound free step
  | enter task request free refers small =>
    refine goto_sound ends before task _ sound fun on same => ?_
    rwa [← Option.some.inj same]
  | locked task request result ready => exact locked_sound sound ready
  | unblock task request ready =>
    refine goto_sound ends _ task .outside ?_ (by simp [Call.side])
    refine ⟨sound.kept, sound.readCreated, sound.writeCreated, sound.readCleanups,
      sound.writeCleanups, sound.freed, fun tested on called => ?_⟩
    rw [wake_side] at called
    exact sound.pinned tested on called
  | expire task request deadline uptime waits clock late =>
    refine goto_sound ends before task _ sound fun on same => ?_
    exact sound.pinned task on (by rw [waits]; exact same)
  | status task on free refers =>
    refine goto_sound ends before task _ sound fun other same => ?_
    rwa [← Option.some.inj same]
  | statusDone task on ready => exact goto_sound ends before task .outside sound (by simp [Call.side])
  | readCleanup isPending => exact readCleanup_sound ends before sound isPending
  | writeCleanup isPending => exact writeCleanup_sound ends before sound isPending

/-- The invariant holds in every reachable state. -/
theorem reachable_sound_teardown (ends : Ends) (state : State Process Task)
    (reached : Reachable (Initial ends) (Step ends) state) : Sound ends state := by
  refine reachable_invariant ?_ (step_sound_teardown ends) reached
  rintro start ⟨runs, ⟨readCreated, readLives⟩, ⟨writeCreated, writeLives⟩, ⟨page, same⟩, outside,
    noneWaits, noneFreed⟩
  refine ⟨reachable_kept_files runs, readCreated, writeCreated, ?_, ?_, ?_, ?_⟩
  · rw [noneWaits, same, List.count_eq_zero.mpr readLives]
    rfl
  · rw [noneWaits, same, List.count_eq_zero.mpr writeLives]
    rfl
  · rw [noneFreed, same]
    rfl
  · intro task on called
    rw [outside task] at called
    contradiction

omit [DecidableEq Process] [DecidableEq Task] in
/-- Once an end is cleaned up, nothing refers to its file. -/
theorem closed_unreferenced {ends : Ends} {state : State Process Task} (sound : Sound ends state)
    (file : Nat)
    (cleanups : state.pending.count file + once true = state.system.files.freed.count file) :
    state.system.files.ref file = 0 ∧
      (∀ process (fd : Fin configMaxFd), state.system.slot process fd ≠ some file) ∧
      ∀ task, file ∉ state.system.references task := by
  have freed : file ∈ state.system.files.freed := by
    rw [← List.count_pos_iff, ← cleanups]
    exact Nat.succ_pos _
  obtain ⟨created, none⟩ := (sound.kept.exact.ends file).mp freed
  have nobody := (total_eq_zero_iff _ file).mp none
  refine ⟨(sound.kept.exact.counted file created).trans none, fun process fd found => ?_,
    fun task => nobody (.inr task)⟩
  exact nobody (.inl (process, fd)) (by simp [counts, held, found])

omit [DecidableEq Process] [DecidableEq Task] in
/-- A freed pipe has no file, and nobody is in a call. -/
theorem freed_unused {ends : Ends} {state : State Process Task} (sound : Sound ends state)
    (freed : state.frees ≠ 0) :
    (∀ on, state.system.files.ref (ends.file on) = 0 ∧
      (∀ process (fd : Fin configMaxFd), state.system.slot process fd ≠ some (ends.file on)) ∧
      ∀ task, ends.file on ∉ state.system.references task) ∧
    ∀ task, state.call task = .outside := by
  have both : (state.pipe.readClosed && state.pipe.writeClosed) = true := by
    by_contra one
    rw [Bool.not_eq_true] at one
    rw [sound.freed, one] at freed
    exact freed rfl
  rw [Bool.and_eq_true] at both
  have readCleanups := sound.readCleanups
  have writeCleanups := sound.writeCleanups
  rw [both.1] at readCleanups
  rw [both.2] at writeCleanups
  have unreferenced : ∀ on, state.system.files.ref (ends.file on) = 0 ∧
      (∀ process (fd : Fin configMaxFd), state.system.slot process fd ≠ some (ends.file on)) ∧
      ∀ task, ends.file on ∉ state.system.references task := by
    intro on
    cases on with
    | read => exact closed_unreferenced sound ends.read readCleanups
    | write => exact closed_unreferenced sound ends.write writeCleanups
  refine ⟨unreferenced, fun task => ?_⟩
  have free : ∀ on, (state.call task).side ≠ some on := by
    intro on called
    exact (unreferenced on).2.2 task (List.mem_append_left _ (sound.pinned task on called))
  cases called : state.call task with
  | outside => rfl
  | locking request _ => exact absurd (by rw [called]; rfl) (free (side request))
  | blocked request _ => exact absurd (by rw [called]; rfl) (free (side request))
  | unblocking request => exact absurd (by rw [called]; rfl) (free (side request))
  | status on => exact absurd (by rw [called]; rfl) (free on)

omit [Fintype Process] [Fintype Task] in
/-- A freed pipe stays freed. -/
theorem frees_mono {ends : Ends} {before after : State Process Task} (taken : Step ends before after) :
    before.frees ≤ after.frees := by
  cases taken with
  | locked task request result ready =>
    rw [lockedSection]
    split_ifs <;> exact Nat.le_refl _
  | readCleanup _ =>
    simp only
    split <;> omega
  | writeCleanup _ =>
    simp only
    split <;> omega
  | _ => exact Nat.le_refl _

omit [DecidableEq Process] [DecidableEq Task] in
/-- An end without references whose cleanup is not to be run any more is closed. -/
theorem cleaned_closed {ends : Ends} {state : State Process Task} (sound : Sound ends state) (file : Nat)
    (closed : Bool) (created : file ∈ state.system.created) (unused : state.system.files.ref file = 0)
    (waits : file ∉ state.pending)
    (cleanups : state.pending.count file + once closed = state.system.files.freed.count file) :
    closed = true := by
  have freed : file ∈ state.system.files.freed :=
    (sound.kept.exact.ends file).mpr
      ⟨created, (sound.kept.exact.counted file created).symm.trans unused⟩
  rw [List.count_eq_zero.mpr waits, Nat.zero_add] at cleanups
  have positive := List.count_pos_iff.mpr freed
  cases closed with
  | true => rfl
  | false =>
    rw [← cleanups] at positive
    exact absurd positive (by decide)

/-- The teardown of a pipe is exact in every reachable state. `pipe_private_free`
was executed once if both ends were cleaned up, and not at all otherwise. If it
was executed, the last reference to both files is gone, and neither now nor later
is a thread in the blocker or in another part of a call on the pipe. It was
executed if both counts are zero and no cleanup is to be run, and the step that
executes it finds nobody in a call. -/
theorem pipe_teardown_exact (ends : Ends) (state : State Process Task)
    (reached : Reachable (Initial ends) (Step ends) state) :
    state.frees = once (state.pipe.readClosed && state.pipe.writeClosed) ∧
    (state.frees ≠ 0 → ∀ on, state.system.files.ref (ends.file on) = 0 ∧
      (∀ process (fd : Fin configMaxFd), state.system.slot process fd ≠ some (ends.file on)) ∧
      ∀ task, ends.file on ∉ state.system.references task) ∧
    (state.frees ≠ 0 → ∀ later, Relation.ReflTransGen (Step ends) state later →
      later.frees = 1 ∧ ∀ task, later.call task = .outside) ∧
    ((∀ on, state.system.files.ref (ends.file on) = 0 ∧ ends.file on ∉ state.pending) →
      state.frees = 1) ∧
    (∀ after, Step ends state after → after.frees ≠ state.frees →
      ∀ task, state.call task = .outside) := by
  have sound := reachable_sound_teardown ends state reached
  refine ⟨sound.freed, fun freed => (freed_unused sound freed).1, ?_, ?_, ?_⟩
  · intro freed later run
    have laterSound : Sound ends later :=
      run_preserves (step_sound_teardown ends) run sound
    have stays : ∀ before after : State Process Task, 0 < before.frees → Step ends before after →
        0 < after.frees := fun before after positive taken =>
      Nat.lt_of_lt_of_le positive (frees_mono taken)
    have still : 0 < later.frees := run_preserves stays run (Nat.pos_of_ne_zero freed)
    refine ⟨?_, (freed_unused laterSound (Nat.ne_of_gt still)).2⟩
    have count := laterSound.freed
    rw [once] at count
    split at count <;> omega
  · intro unused
    have readClosed := cleaned_closed sound ends.read _ sound.readCreated (unused .read).1
      (unused .read).2 sound.readCleanups
    have writeClosed := cleaned_closed sound ends.write _ sound.writeCreated (unused .write).1
      (unused .write).2 sound.writeCleanups
    rw [sound.freed, readClosed, writeClosed]
    rfl
  · intro after taken executed task
    have afterSound := step_sound_teardown ends state after sound taken
    have more := frees_mono taken
    have nobody := (freed_unused afterSound (by omega)).2 task
    cases taken with
    | readCleanup _ => exact nobody
    | writeCleanup _ => exact nobody
    | locked task request result ready =>
      refine absurd ?_ executed
      rw [lockedSection]
      split_ifs <;> rfl
    | _ => exact absurd rfl executed

/-- The files 0 and 1 as the ends of a pipe. -/
def sampleEnds : Ends := ⟨0, 1, by decide⟩

/-- The system after the two files were created by the only task. -/
def sampleSystem : FileLifetimes.State Unit Unit :=
  ⟨⟨Function.update (Function.update (fun _ => 0) 0 1) 1 1, []⟩, [1, 0], fun _ => none,
    fun _ => .between, Function.update (Function.update (fun _ => []) () [0]) () [1, 0]⟩

/-- The pipe right after `pipe_init`. -/
def sampleStart : State Unit Unit :=
  ⟨sampleSystem, ⟨ringInit (fun _ => 0), false, false, false⟩, fun _ => .outside, [], 0⟩

/-- A pipe that is closed by its only user, first at the read end, is freed once. -/
theorem pipe_teardown_sample :
    ∃ state : State Unit Unit, Reachable (Initial sampleEnds) (Step sampleEnds) state ∧
      state.frees = 1 ∧ ∀ task, state.call task = .outside := by
  have created := (Relation.ReflTransGen.single (show AnyStep emptyState _ from
    ⟨(), .create _ 0 (by decide)⟩)).tail (show AnyStep _ sampleSystem from
      ⟨(), .create _ 1 (by decide)⟩)
  have begins : Initial sampleEnds sampleStart :=
    ⟨⟨emptyState, ⟨rfl, rfl, fun _ => rfl, fun _ => ⟨rfl, rfl⟩⟩, created⟩, by decide, by decide,
      ⟨fun _ => 0, rfl⟩, fun _ => rfl, rfl, rfl⟩
  have closed := (Relation.ReflTransGen.single (show Step sampleEnds sampleStart _ from
    .files _ () _ rfl (.release _ 0 (by decide)))).tail (show Step sampleEnds _ _ from
      .readCleanup _ (by decide))
  have gone := (closed.tail (show Step sampleEnds _ _ from
    .files _ () _ rfl (.release _ 1 (by decide)))).tail (show Step sampleEnds _ _ from
      .writeCleanup _ (by decide))
  have reached : Reachable (Initial sampleEnds) (Step sampleEnds) _ := ⟨_, begins, gone⟩
  have exact := pipe_teardown_exact sampleEnds _ reached
  exact ⟨_, reached, exact.1, (exact.2.2.1 (by decide) _ .refl).2⟩

end Asym.PipeTeardown
