import Asym.SyscallResources

/-!
# Failing system calls

What is left of a failing `syscall_open`, `syscall_pipe` or `syscall_spawn`. The caller's table
and the counts of files and volumes are as before, and whatever was made is freed once.

Each call is followed up to the step that fails. An open has one file with a reference to its
volume; a pipe has two files with one reference each, one of them maybe stored and closed again;
a spawn has a process whose table refers to files of the caller. From there the `FILE_DEFER`s and
`thread_free` take everything back.
-/

namespace Asym.SyscallFailures

open SyscallResources MachineWords
open Ramfs (Allocator bumpAllocator)
open WorkingDirectory (contextInit sysSystem)
open FileTables (Slots configMaxFd vfsContextInit)

section Calls

/-- A call. -/
inductive Call where
  | opening (stack : Nat → UInt8) (path : Nat)
  | pipe (page : Nat → UInt8) (pipefd : Nat)
  | spawn (garbage : Garbage) (argv fds : Nat)

/-- Perform a call. -/
def perform (allocator : Allocator) (kernel : Kernel) : Call → Option (Except Errno Nat × Kernel)
  | .opening stack path => syscallOpen allocator kernel stack path
  | .pipe page pipefd => some (syscallPipe allocator kernel page pipefd)
  | .spawn garbage argv fds => syscallSpawn allocator kernel garbage argv fds

/-- The parent descriptors of a spawn are in the table. -/
def ParentsInside (user : UserMemory) : Call → Prop
  | .spawn _ _ fds => ∀ entries, spawnFds user fds = .ok entries → ∀ entry ∈ entries, entry.parent < configMaxFd
  | _ => True

/-- The calling process exists, the files of its table are alive, and what was freed was made. -/
structure Sound (kernel : Kernel) : Prop where
  self : kernel.self ∈ kernel.used
  live : ∀ fd < configMaxFd, ∀ file, kernel.slots fd = some file →
    file ∈ kernel.used ∧ 1 ≤ kernel.files.ref file
  freed : ∀ name ∈ kernel.files.freed ++ kernel.freed, name ∈ kernel.used

/-- A call leaves no trace: the table, the counts of the files that existed and those of the
volumes are as before, every object made was freed once, and none that existed was. -/
structure LeavesNoTrace (before after : Kernel) : Prop where
  table : after.slots = before.slots
  files : ∀ file ∈ before.used, after.files.ref file = before.files.ref file
  volumes : after.volumeRef = before.volumeRef
  made : ∀ name ∈ after.used, name ∉ before.used → after.releases name = 1
  existing : ∀ name ∈ before.used, after.releases name = before.releases name

/-- A state leaves no trace in itself. -/
theorem LeavesNoTrace.refl (kernel : Kernel) : LeavesNoTrace kernel kernel :=
  ⟨rfl, fun _ _ => rfl, rfl, fun _ inside outside => absurd inside outside, fun _ _ => rfl⟩

/-- What was never made was never freed. -/
theorem Sound.unreleased {kernel : Kernel} (sound : Sound kernel) {name : Nat} (new : name ∉ kernel.used) :
    kernel.releases name = 0 :=
  List.count_eq_zero.mpr fun freed => new (sound.freed name freed)

end Calls

section Opening

/-- No resource has an `open` of its own. -/
def Unasked (kernel : Kernel) : Prop := ∀ node, (kernel.system.resources node).opens = none

/-- The kernel after a file was made on a volume. A resource may be counted once more. -/
def madeOn (allocator : Allocator) (kernel : Kernel) (volume : Nat) (resourceRef : Nat → Nat) : Kernel :=
  { (fileNew allocator kernel (some volume) .plain).2 with resourceRef := resourceRef }

/-- The open of a volume has no effect, or makes a file. -/
theorem openOn_cases {allocator : Allocator} {kernel after : Kernel} (unasked : Unasked kernel) {volume : Nat}
    {path : List UInt8} {result : Except Ramfs.Errno Nat}
    (opened : openOn allocator kernel volume path = (result, after)) :
    (∃ error, result = .error error ∧ after = kernel) ∨
      ∃ resourceRef, result = .ok (allocator.malloc kernel.used) ∧
        after = madeOn allocator kernel volume resourceRef := by
  rw [openOn] at opened
  cases kind : (kernel.system.volume volume).fileSystem with
  | ramfs =>
    simp only [kind, ramfsOpen] at opened
    split at opened
    · obtain ⟨rfl, rfl⟩ := Prod.mk.inj opened
      exact .inl ⟨_, rfl, rfl⟩
    · split_ifs at opened
      · obtain ⟨rfl, rfl⟩ := Prod.mk.inj opened
        exact .inl ⟨_, rfl, rfl⟩
      · obtain ⟨rfl, rfl⟩ := Prod.mk.inj opened
        exact .inr ⟨kernel.resourceRef, rfl, rfl⟩
  | sysfs =>
    simp only [kind, sysfsOpen] at opened
    split at opened
    · obtain ⟨rfl, rfl⟩ := Prod.mk.inj opened
      exact .inl ⟨_, rfl, rfl⟩
    · next node _ =>
      rw [unasked node] at opened
      split_ifs at opened with directory asked
      · obtain ⟨rfl, rfl⟩ := Prod.mk.inj opened
        exact .inl ⟨_, rfl, rfl⟩
      · cases asked
      · obtain ⟨rfl, rfl⟩ := Prod.mk.inj opened
        exact .inr ⟨_, rfl, rfl⟩

/-- `vfs_open` has no effect, or makes a file that keeps a reference to its volume. -/
theorem vfsOpen_cases {allocator : Allocator} {kernel after : Kernel} (unasked : Unasked kernel)
    {stack : Nat → UInt8} {path : List UInt8} {result : Except Errno Nat}
    (opened : vfsOpen allocator kernel stack path = some (result, after)) :
    (∃ error, result = .error error ∧ after = kernel) ∨
      ∃ volume resourceRef, result = .ok (allocator.malloc kernel.used) ∧
        after = madeOn allocator (volumeRef kernel volume) volume resourceRef := by
  rw [vfsOpen] at opened
  split_ifs at opened
  · obtain ⟨rfl, rfl⟩ := Prod.mk.inj (Option.some.inj opened)
    exact .inl ⟨_, rfl, rfl⟩
  · dsimp only at opened
    split at opened
    · obtain ⟨rfl, rfl⟩ := Prod.mk.inj (Option.some.inj opened)
      exact .inl ⟨_, rfl, rfl⟩
    · next volume _ =>
      have there : Unasked (volumeRef kernel volume) := unasked
      split at opened
      · obtain ⟨rfl, rfl⟩ := Prod.mk.inj (Option.some.inj opened)
        exact .inl ⟨_, rfl, volumeDeref_volumeRef kernel volume⟩
      · split at opened
        · next error left called =>
          obtain ⟨rfl, rfl⟩ := Prod.mk.inj (Option.some.inj opened)
          rcases openOn_cases there called with ⟨_, _, rfl⟩ | ⟨_, made, _⟩
          · exact .inl ⟨_, rfl, volumeDeref_volumeRef kernel volume⟩
          · cases made
        · next file made called =>
          obtain ⟨rfl, rfl⟩ := Prod.mk.inj (Option.some.inj opened)
          rcases openOn_cases there called with ⟨_, failed, _⟩ | ⟨resourceRef, same, rfl⟩
          · cases failed
          · exact .inr ⟨volume, resourceRef, congrArg Except.ok (Except.ok.inj same), rfl⟩

/-- The file of an open is freed with its only reference, and the reference to the volume
goes with it. -/
theorem madeOn_deref {allocator : Allocator} {kernel : Kernel} (sound : Sound kernel) (volume : Nat)
    (resourceRef : Nat → Nat) :
    LeavesNoTrace kernel (fileDeref (madeOn allocator (volumeRef kernel volume) volume resourceRef)
      (allocator.malloc kernel.used)) := by
  have new := allocator.fresh kernel.used
  have single : (madeOn allocator (volumeRef kernel volume) volume resourceRef).files.ref
      (allocator.malloc kernel.used) = 1 := Function.update_self ..
  rw [fileDeref_last single]
  have file : (madeOn allocator (volumeRef kernel volume) volume resourceRef).file
      (allocator.malloc kernel.used) = ⟨some volume, .plain⟩ := Function.update_self ..
  rw [file]
  refine ⟨rfl, fun other member => ?_, ?_, fun name inside outside => ?_, fun name member => ?_⟩
  · have different : other ≠ allocator.malloc kernel.used := fun same => new (same ▸ member)
    exact (Function.update_of_ne different ..).trans (Function.update_of_ne different ..)
  · have back := congrArg Kernel.volumeRef (volumeDeref_volumeRef kernel volume)
    exact back
  · obtain rfl : name = allocator.malloc kernel.used := (List.mem_cons.mp inside).resolve_right outside
    exact List.count_cons_self.trans (congrArg (· + 1) (sound.unreleased new))
  · have different : allocator.malloc kernel.used ≠ name := fun same => new (same ▸ member)
    exact List.count_cons_of_ne different

/-- A failing `syscall_open` leaves no trace. -/
theorem syscallOpen_noTrace {allocator : Allocator} {kernel after : Kernel} (sound : Sound kernel)
    (unasked : Unasked kernel) {stack : Nat → UInt8} {path : Nat} {error : Errno}
    (failed : syscallOpen allocator kernel stack path = some (.error error, after)) :
    LeavesNoTrace kernel after := by
  rw [syscallOpen] at failed
  split_ifs at failed
  · obtain ⟨-, rfl⟩ := Prod.mk.inj (Option.some.inj failed)
    exact .refl kernel
  · split at failed
    · cases failed
    · next refusal left opened =>
      obtain ⟨-, rfl⟩ := Prod.mk.inj (Option.some.inj failed)
      rcases vfsOpen_cases unasked opened with ⟨_, _, rfl⟩ | ⟨_, _, made, _⟩
      · exact .refl left
      · cases made
    · next file left opened =>
      rcases vfsOpen_cases unasked opened with ⟨_, refused, _⟩ | ⟨volume, resourceRef, same, rfl⟩
      · cases refused
      · obtain rfl : file = allocator.malloc kernel.used := Except.ok.inj same
        cases served : vfsContextOpen (madeOn allocator (volumeRef kernel volume) volume resourceRef)
          (madeOn allocator (volumeRef kernel volume) volume resourceRef).self (allocator.malloc kernel.used) with
        | mk answer stored =>
          rw [served] at failed
          obtain ⟨rfl, rfl⟩ := Prod.mk.inj (Option.some.inj failed)
          rw [vfsContextOpen_error served]
          exact madeOn_deref sound volume resourceRef

end Opening

section Pipes

/-- A new pipe whose ends have one reference each, and nothing else. -/
structure Piped (before now : Kernel) (ends : PipeFile) (pipe : Nat) : Prop where
  readNew : ends.read ∉ before.used
  writeNew : ends.write ∉ before.used
  pipeNew : pipe ∉ before.used
  distinct : ends.read ≠ ends.write
  pipeRead : pipe ≠ ends.read
  pipeWrite : pipe ≠ ends.write
  used : now.used = pipe :: ends.write :: ends.read :: before.used
  readFile : now.file ends.read = ⟨none, .readOps pipe⟩
  writeFile : now.file ends.write = ⟨none, .writeOps pipe⟩
  opened : (now.pipes pipe).readClosed = false
  readCount : now.files.ref ends.read = 1
  writeCount : now.files.ref ends.write = 1
  table : now.slots = before.slots
  files : ∀ file ∈ before.used, now.files.ref file = before.files.ref file
  volumes : now.volumeRef = before.volumeRef
  freedFiles : now.files.freed = before.files.freed
  freed : now.freed = before.freed

/-- `pipe_init` makes a pipe. -/
theorem pipeInit_piped (allocator : Allocator) (kernel : Kernel) (page : Nat → UInt8) :
    ∃ pipe, Piped kernel (pipeInit allocator kernel page).2 (pipeInit allocator kernel page).1 pipe := by
  have readNew := allocator.fresh kernel.used
  have writeNew := allocator.fresh (allocator.malloc kernel.used :: kernel.used)
  have pipeNew := allocator.fresh
    (allocator.malloc (allocator.malloc kernel.used :: kernel.used) :: allocator.malloc kernel.used :: kernel.used)
  simp only [List.mem_cons, not_or] at writeNew pipeNew
  refine ⟨_, readNew, writeNew.2, pipeNew.2.2, Ne.symm writeNew.1, pipeNew.2.1, pipeNew.1, rfl, ?_, ?_, ?_, ?_, ?_,
    rfl, fun file member => ?_, rfl, rfl, rfl⟩
  · exact (Function.update_of_ne (Ne.symm writeNew.1) ..).trans (Function.update_self ..)
  · exact Function.update_self ..
  · have fresh := congrArg Pipe.Private.readClosed
      (Function.update_self (allocator.malloc (allocator.malloc (allocator.malloc kernel.used :: kernel.used) ::
        allocator.malloc kernel.used :: kernel.used)) ⟨Pipe.ringInit page, false, false, false⟩ kernel.pipes)
    exact fresh
  · exact (Function.update_of_ne (Ne.symm writeNew.1) ..).trans (Function.update_self ..)
  · exact Function.update_self ..
  · have notRead : file ≠ allocator.malloc kernel.used := fun same => readNew (same ▸ member)
    have notWrite : file ≠ allocator.malloc (allocator.malloc kernel.used :: kernel.used) :=
      fun same => writeNew.2 (same ▸ member)
    exact (Function.update_of_ne notWrite ..).trans (Function.update_of_ne notRead ..)

/-- Both ends are given up, the write end first: each file is freed, and the read end frees the
pipe. -/
theorem Piped.leave {before now : Kernel} {ends : PipeFile} {pipe : Nat} (piped : Piped before now ends pipe)
    (sound : Sound before) :
    LeavesNoTrace before (fileDeref (fileDeref now ends.write) ends.read) := by
  have middle := fileDeref_writeEnd piped.writeCount piped.writeFile piped.opened
  have readSingle : (fileDeref now ends.write).files.ref ends.read = 1 := by
    rw [middle]
    exact (Function.update_of_ne piped.distinct ..).trans piped.readCount
  have readFile : (fileDeref now ends.write).file ends.read = ⟨none, .readOps pipe⟩ := by
    rw [middle]
    exact piped.readFile
  have closed : ((fileDeref now ends.write).pipes pipe).writeClosed = true := by
    rw [middle]
    dsimp only
    rw [Function.update_self, Pipe.pipeWriteCleanup]
  rw [fileDeref_readEnd readSingle readFile closed, middle]
  have releases : ∀ name, ((ends.read :: ends.write :: now.files.freed) ++ pipe :: now.freed).count name =
      (if ends.read = name then 1 else 0) + (if ends.write = name then 1 else 0) + (if pipe = name then 1 else 0) +
        before.releases name := by
    intro name
    rw [piped.freedFiles, piped.freed, Kernel.releases]
    simp only [List.count_append, List.count_cons, beq_iff_eq]
    omega
  refine ⟨piped.table, fun file member => ?_, piped.volumes, fun name inside outside => ?_, fun name member => ?_⟩
  · have notRead : file ≠ ends.read := fun same => piped.readNew (same ▸ member)
    have notWrite : file ≠ ends.write := fun same => piped.writeNew (same ▸ member)
    exact ((Function.update_of_ne notRead ..).trans (Function.update_of_ne notWrite ..)).trans
      (piped.files file member)
  · have none := sound.unreleased outside
    have made : name ∈ now.used := inside
    rw [piped.used] at made
    refine (releases name).trans ?_
    rw [none]
    have different := piped.distinct
    have pipeRead := piped.pipeRead
    have pipeWrite := piped.pipeWrite
    rcases List.mem_cons.mp made with rfl | rest
    · simp [pipeRead.symm, pipeWrite.symm]
    · rcases List.mem_cons.mp rest with rfl | rest
      · simp [different, pipeWrite]
      · rcases List.mem_cons.mp rest with rfl | old
        · simp [different.symm, pipeRead]
        · exact absurd old outside
  · have notRead : ends.read ≠ name := fun same => piped.readNew (same ▸ member)
    have notWrite : ends.write ≠ name := fun same => piped.writeNew (same ▸ member)
    have notPipe : pipe ≠ name := fun same => piped.pipeNew (same ▸ member)
    refine (releases name).trans ?_
    rw [if_neg notRead, if_neg notWrite, if_neg notPipe]
    omega

/-- Writes to user memory do not matter. -/
theorem Piped.store {before now : Kernel} {ends : PipeFile} {pipe : Nat} (piped : Piped before now ends pipe)
    (place value : Nat) : Piped before (now.store place value) ends pipe :=
  { piped with }

/-- The read end was stored in the table and is closed again. -/
theorem Piped.reclose {before now stored : Kernel} {ends : PipeFile} {pipe fd : Nat}
    (piped : Piped before now ends pipe) (stores : Stores now now.self fd ends.read stored) (user : UserMemory) :
    Piped before (vfsContextClose { stored with user := user } now.self fd).2 ends pipe := by
  have two : stored.files.ref ends.read = 2 := stores.count.trans (congrArg (· + 1) piped.readCount)
  have slot : (stored.processes now.self).slots fd = some ends.read := by
    rw [stores.slots, Function.update_self]
  have closes : (vfsContextClose { stored with user := user } now.self fd).2 = { now with user := user } := by
    rw [vfsContextClose, if_neg (Nat.not_le.mpr stores.inside)]
    dsimp only
    rw [slot]
    dsimp only
    have cleared : Kernel.setSlots { stored with user := user } now.self
        (Function.update (stored.processes now.self).slots fd none) =
          { now with files := stored.files, user := user } :=
      congrArg (fun kernel : Kernel => { kernel with user := user }) stores.cleared
    have left : Function.update stored.files.ref ends.read (stored.files.ref ends.read - 1) = now.files.ref := by
      rw [stores.count, Nat.add_sub_cancel, stores.same]
      dsimp only [FileTables.fileRef]
      rw [Function.update_idem, Function.update_eq_self]
    have freed : stored.files.freed = now.files.freed := by
      rw [stores.same]
      rfl
    rw [cleared, fileDeref_more (by rw [two]; decide)]
    dsimp only [Kernel.recount]
    rw [left, freed]
  rw [closes]
  exact { piped with }

/-- A failing `syscall_pipe` leaves no trace. -/
theorem syscallPipe_noTrace {allocator : Allocator} {kernel after : Kernel} (sound : Sound kernel)
    {page : Nat → UInt8} {pipefd : Nat} {error : Errno}
    (failed : syscallPipe allocator kernel page pipefd = (.error error, after)) :
    LeavesNoTrace kernel after := by
  obtain ⟨pipe, piped⟩ := pipeInit_piped allocator kernel page
  rw [syscallPipe] at failed
  split_ifs at failed
  · obtain ⟨-, rfl⟩ := Prod.mk.inj failed
    exact .refl kernel
  · generalize pipeInit allocator kernel page = initial at piped failed
    obtain ⟨ends, made⟩ := initial
    dsimp only at piped failed
    cases readServed : vfsContextOpen made made.self ends.read with
    | mk read first =>
      rw [readServed] at failed
      dsimp only at failed
      cases read with
      | error refusal =>
        obtain ⟨-, rfl⟩ := Prod.mk.inj failed
        rw [vfsContextOpen_error readServed]
        exact (piped.store ..).leave sound
      | ok readFd =>
        have stores := vfsContextOpen_ok readServed
        dsimp only at failed
        cases writeServed : vfsContextOpen (first.store pipefd (returned (.ok readFd)))
            (first.store pipefd (returned (.ok readFd))).self ends.write with
        | mk write second =>
          rw [writeServed] at failed
          dsimp only at failed
          cases write with
          | error refusal =>
            obtain ⟨-, rfl⟩ := Prod.mk.inj failed
            rw [vfsContextOpen_error writeServed]
            have apart : pipefd ≠ add pipefd 8 := by
              simp only [add, wordSize]
              omega
            have kept : Function.update (Function.update first.user.word pipefd readFd) (add pipefd 8)
                (returned (.error refusal)) pipefd = readFd :=
              (Function.update_of_ne apart ..).trans (Function.update_self ..)
            dsimp only [Kernel.store, returned, Except.toOption, Option.getD] at kept ⊢
            rw [kept]
            obtain rfl := stores.same
            exact (piped.reclose stores _).leave sound
          | ok writeFd => cases failed

end Pipes

section Spawning

/-- A new process that is being given files of its parent. The counts are raised by the slots of
the new table and by the references that are taken besides. -/
structure Installing (before now : Kernel) (process thread array : Nat) (taken : List Nat) : Prop where
  self : now.self = before.self
  processNew : process ∉ before.used
  threadNew : thread ∉ before.used
  arrayNew : array ∉ before.used
  processArray : process ≠ array
  threadProcess : thread ≠ process
  threadArray : thread ≠ array
  used : now.used = thread :: array :: process :: before.used
  owner : now.threads thread = process
  single : (now.processes process).ref = 1
  argv : (now.processes process).argv = array
  table : now.slots = before.slots
  counts : ∀ file ∈ before.used, now.files.ref file =
    before.files.ref file + (tableReferences now process).count file + taken.count file
  owned : ∀ file ∈ tableReferences now process ++ taken, file ∈ before.used ∧ 1 ≤ before.files.ref file
  volumes : now.volumeRef = before.volumeRef
  freedFiles : now.files.freed = before.files.freed
  freed : now.freed = before.freed

/-- Everything that was made is gone; some references are still to be given back. -/
structure Undone (before now : Kernel) (taken : List Nat) : Prop where
  table : now.slots = before.slots
  counts : ∀ file ∈ before.used, now.files.ref file = before.files.ref file + taken.count file
  volumes : now.volumeRef = before.volumeRef
  made : ∀ name ∈ now.used, name ∉ before.used → now.releases name = 1
  existing : ∀ name ∈ before.used, now.releases name = before.releases name

/-- Without references to give back there is no trace. -/
theorem Undone.noTrace {before now : Kernel} (undone : Undone before now []) : LeavesNoTrace before now :=
  ⟨undone.table, undone.counts, undone.volumes, undone.made, undone.existing⟩

/-- The last reference is given back. -/
theorem Undone.deref {before now : Kernel} {file : Nat} (undone : Undone before now [file])
    (known : file ∈ before.used) (lives : 1 ≤ before.files.ref file) :
    LeavesNoTrace before (fileDeref now file) := by
  have count := undone.counts file known
  rw [List.count_singleton_self] at count
  rw [fileDeref_more (by omega)]
  refine ⟨undone.table, fun other member => ?_, undone.volumes, undone.made, undone.existing⟩
  have counts := undone.counts other member
  by_cases same : other = file
  · subst same
    refine (Function.update_self ..).trans ?_
    omega
  · rw [List.count_singleton, if_neg (by simpa using Ne.symm same)] at counts
    exact (Function.update_of_ne same ..).trans counts

/-- The kernel when the last thread of a process is gone. -/
def threadless (kernel : Kernel) (process : Nat) : Kernel :=
  { kernel with
    processes := Function.update kernel.processes process { kernel.processes process with ref := 0 } }

/-- `thread_free` frees the thread, its process and what the process has. -/
theorem Installing.threadFree_eq {before now : Kernel} {process thread array : Nat} {taken : List Nat}
    (installing : Installing before now process thread array taken) :
    threadFree now thread = { now.recount fun file => now.files.ref file - (tableReferences now process).count file with
      processes := Function.update now.processes process { now.processes process with ref := 0 }
      freed := thread :: process :: array :: now.freed } := by
  have record : (threadless now process).processes process = { now.processes process with ref := 0 } :=
    Function.update_self ..
  have same : tableReferences (threadless now process) process = tableReferences now process := by
    rw [tableReferences, record]
    rfl
  have more : ∀ file ∈ tableReferences (threadless now process) process,
      (tableReferences (threadless now process) process).count file < (threadless now process).files.ref file := by
    rw [same]
    intro file member
    obtain ⟨known, lives⟩ := installing.owned file (List.mem_append_left _ member)
    have counts := installing.counts file known
    show _ < now.files.ref file
    omega
  have ended := processFree_eq more
  rw [same, record, installing.argv] at ended
  rw [threadFree]
  dsimp only
  rw [installing.owner, installing.single, if_pos (Nat.le_refl 1)]
  exact congrArg (fun left => free left thread) ended

/-- `thread_free` leaves the references that were taken besides. -/
theorem Installing.undone {before now : Kernel} {process thread array : Nat} {taken : List Nat}
    (sound : Sound before) (installing : Installing before now process thread array taken) :
    Undone before (threadFree now thread) taken := by
  have apart : now.self ≠ process := by
    rw [installing.self]
    exact fun same => installing.processNew (same ▸ sound.self)
  have releases : ∀ name, (now.files.freed ++ thread :: process :: array :: now.freed).count name =
      (if thread = name then 1 else 0) + (if process = name then 1 else 0) + (if array = name then 1 else 0) +
        before.releases name := by
    intro name
    rw [installing.freedFiles, installing.freed, Kernel.releases]
    simp only [List.count_append, List.count_cons, beq_iff_eq]
    omega
  rw [installing.threadFree_eq]
  refine ⟨?_, fun file member => ?_, installing.volumes, fun name inside outside => ?_, fun name member => ?_⟩
  · rw [← installing.table]
    exact congrArg Process.slots (Function.update_of_ne apart ..)
  · have counts := installing.counts file member
    dsimp only [Kernel.recount]
    omega
  · have none := sound.unreleased outside
    have made : name ∈ now.used := inside
    rw [installing.used] at made
    refine (releases name).trans ?_
    rw [none]
    have processArray := installing.processArray
    have threadProcess := installing.threadProcess
    have threadArray := installing.threadArray
    rcases List.mem_cons.mp made with rfl | rest
    · simp [threadProcess.symm, threadArray.symm]
    · rcases List.mem_cons.mp rest with rfl | rest
      · simp [processArray, threadArray]
      · rcases List.mem_cons.mp rest with rfl | old
        · simp [processArray.symm, threadProcess]
        · exact absurd old outside
  · have notThread : thread ≠ name := fun same => installing.threadNew (same ▸ member)
    have notProcess : process ≠ name := fun same => installing.processNew (same ▸ member)
    have notArray : array ≠ name := fun same => installing.arrayNew (same ▸ member)
    refine (releases name).trans ?_
    rw [if_neg notThread, if_neg notProcess, if_neg notArray]
    omega

/-- Taking a reference of the caller's table. -/
theorem Installing.get {before now after : Kernel} {process thread array file fd : Nat}
    (sound : Sound before) (installing : Installing before now process thread array [])
    (inside : fd < configMaxFd) (got : vfsContextGet now now.self fd = (.ok file, after)) :
    Installing before after process thread array [file] := by
  obtain ⟨content, rfl⟩ := vfsContextGet_ok got
  have slot : before.slots fd = some file := by
    rw [← installing.table]
    exact content
  obtain ⟨known, lives⟩ := sound.live fd inside file slot
  refine { installing with counts := fun other member => ?_, owned := fun other member => ?_ }
  · have counts := installing.counts other member
    rw [List.count_nil] at counts
    by_cases same : other = file
    · subst same
      rw [List.count_singleton_self]
      refine (Function.update_self ..).trans ?_
      rw [counts]
      rfl
    · rw [List.count_singleton, if_neg (by simpa using Ne.symm same)]
      exact (Function.update_of_ne same ..).trans counts
  · rcases List.mem_append.mp member with old | new
    · exact installing.owned other (List.mem_append_left _ old)
    · obtain rfl := List.mem_singleton.mp new
      exact ⟨known, lives⟩

/-- Storing a file in the new table, and giving the reference back. -/
theorem Installing.store {before now after : Kernel} {process thread array file fd answer : Nat}
    (sound : Sound before) (installing : Installing before now process thread array [file])
    (stored : vfsContextOpenat now process fd file = (.ok answer, after)) :
    Installing before (fileDeref after file) process thread array [] := by
  have stores := vfsContextOpenat_ok stored
  have apart : now.self ≠ process := by
    rw [installing.self]
    exact fun same => installing.processNew (same ▸ sound.self)
  obtain ⟨known, lives⟩ := installing.owned file (List.mem_append_right _ List.mem_cons_self)
  have counts := installing.counts file known
  rw [List.count_singleton_self] at counts
  have raised := stores.count
  rw [fileDeref_more (by omega)]
  have references := stores.references
  obtain rfl := stores.same
  have record := Function.update_self process
    { now.processes process with slots := Function.update (now.processes process).slots fd (some file) } now.processes
  refine { installing with single := ?_, argv := ?_, table := ?_, counts := fun other member => ?_,
                           owned := fun other member => ?_ }
  · exact (congrArg Process.ref record).trans installing.single
  · exact (congrArg Process.argv record).trans installing.argv
  · rw [← installing.table]
    exact congrArg Process.slots (Function.update_of_ne apart ..)
  · have others := installing.counts other member
    have gained := references other
    refine Eq.trans ?_ (congrArg (before.files.ref other + · + 0) gained.symm)
    by_cases same : other = file
    · subst same
      rw [if_pos rfl]
      refine (Function.update_self ..).trans ?_
      omega
    · rw [List.count_singleton, if_neg (by simpa using Ne.symm same)] at others
      rw [if_neg same]
      refine ((Function.update_of_ne same ..).trans (Function.update_of_ne same ..)).trans ?_
      omega
  · rw [List.append_nil] at member
    by_cases same : other = file
    · exact same ▸ ⟨known, lives⟩
    · have gained := references other
      rw [if_neg same, Nat.add_zero] at gained
      have positive := List.count_pos_iff.mpr member
      refine installing.owned other (List.mem_append_left _ (List.count_pos_iff.mp ?_))
      rw [← gained]
      exact positive

/-- If a descriptor cannot be installed, everything is undone. -/
theorem installFds_noTrace {before now after : Kernel} {process thread array : Nat} {entries : List SpawnFd}
    {error : Errno} (sound : Sound before) (installing : Installing before now process thread array [])
    (inside : ∀ entry ∈ entries, entry.parent < configMaxFd)
    (failed : installFds now thread entries = (.error error, after)) : LeavesNoTrace before after := by
  induction entries generalizing now with
  | nil => cases failed
  | cons entry rest ih =>
    rw [installFds] at failed
    split at failed
    · next got =>
      obtain ⟨-, rfl⟩ := Prod.mk.inj failed
      rw [vfsContextGet_error got]
      exact (installing.undone sound).noTrace
    · next file held got =>
      have getting := installing.get sound (inside entry List.mem_cons_self) got
      rw [getting.owner] at failed
      split at failed
      · next refused stored =>
        obtain ⟨-, rfl⟩ := Prod.mk.inj failed
        obtain ⟨known, lives⟩ := getting.owned file (List.mem_append_right _ List.mem_cons_self)
        rw [vfsContextOpenat_error stored]
        exact (getting.undone sound).deref known lives
      · next stored =>
        exact ih (getting.store sound stored)
          (fun other member => inside other (List.mem_cons_of_mem entry member)) failed

/-- A process whose arguments are too long is freed again. -/
theorem LeavesNoTrace.refused (allocator : Allocator) {kernel : Kernel} (sound : Sound kernel) :
    LeavesNoTrace kernel (free (malloc allocator kernel).2 (allocator.malloc kernel.used)) := by
  have new := allocator.fresh kernel.used
  have releases : ∀ name, (kernel.files.freed ++ allocator.malloc kernel.used :: kernel.freed).count name =
      (if allocator.malloc kernel.used = name then 1 else 0) + kernel.releases name := by
    intro name
    rw [Kernel.releases]
    simp only [List.count_append, List.count_cons, beq_iff_eq]
    omega
  refine ⟨rfl, fun _ _ => rfl, rfl, fun name inside outside => ?_, fun name member => ?_⟩
  · obtain rfl : name = allocator.malloc kernel.used := (List.mem_cons.mp inside).resolve_right outside
    refine (releases _).trans ?_
    rw [if_pos rfl, sound.unreleased new]
  · have different : allocator.malloc kernel.used ≠ name := fun same => new (same ▸ member)
    refine (releases name).trans ?_
    rw [if_neg different, Nat.zero_add]

/-- The process that `process_new` makes. -/
def madeProcess (allocator : Allocator) (kernel : Kernel) (behind : Slots) : Process :=
  ⟨allocator.malloc (allocator.malloc kernel.used :: kernel.used), kernel.newPid, 0, contextInit,
    vfsContextInit behind⟩

/-- The processes after `process_new`. -/
def madeProcesses (allocator : Allocator) (kernel : Kernel) (behind : Slots) : Nat → Process :=
  Function.update kernel.processes (allocator.malloc kernel.used) (madeProcess allocator kernel behind)

/-- The processes when the new one has its first thread. -/
def startedProcesses (allocator : Allocator) (kernel : Kernel) (behind : Slots) : Nat → Process :=
  Function.update (madeProcesses allocator kernel behind) (allocator.malloc kernel.used)
    { madeProcesses allocator kernel behind (allocator.malloc kernel.used) with
      ref := (madeProcesses allocator kernel behind (allocator.malloc kernel.used)).ref + 1 }

/-- The new process has one thread then. -/
theorem madeProcesses_started (allocator : Allocator) (kernel : Kernel) (behind : Slots) :
    startedProcesses allocator kernel behind (allocator.malloc kernel.used) =
      { madeProcess allocator kernel behind with ref := 1 } := by
  rw [startedProcesses, Function.update_self, madeProcesses, Function.update_self]
  rfl

/-- `thread_new` leaves no trace, or makes a process with one thread and an empty table. -/
theorem threadNew_cases {allocator : Allocator} {kernel after : Kernel} (sound : Sound kernel) {behind : Slots}
    {argv : List (List UInt8)} {result : Except Errno Nat}
    (called : threadNew allocator kernel behind argv = (result, after)) :
    LeavesNoTrace kernel after ∧ (∃ error, result = .error error) ∨
      ∃ process thread array, result = .ok thread ∧ Installing kernel after process thread array [] := by
  have processNew := allocator.fresh kernel.used
  have arrayNew := allocator.fresh (allocator.malloc kernel.used :: kernel.used)
  have threadNew := allocator.fresh
    (allocator.malloc (allocator.malloc kernel.used :: kernel.used) :: allocator.malloc kernel.used :: kernel.used)
  simp only [List.mem_cons, not_or] at arrayNew threadNew
  rw [SyscallResources.threadNew, SyscallResources.processNew] at called
  dsimp only [malloc] at called
  split_ifs at called
  · obtain ⟨rfl, rfl⟩ := Prod.mk.inj called
    exact .inl ⟨.refused allocator sound, _, rfl⟩
  · dsimp only at called
    obtain ⟨rfl, rfl⟩ := Prod.mk.inj called
    have last := madeProcesses_started allocator kernel behind
    have apart : kernel.self ≠ allocator.malloc kernel.used := by
      intro same
      have known := sound.self
      rw [same] at known
      exact processNew known
    have empty : FileLifetimes.slotReferences
        (startedProcesses allocator kernel behind (allocator.malloc kernel.used)).slots = [] := by
      rw [last]
      exact contextInit_references behind
    refine .inr ⟨allocator.malloc kernel.used, _, allocator.malloc (allocator.malloc kernel.used :: kernel.used), rfl,
      rfl, processNew, threadNew.2.2, arrayNew.2, Ne.symm arrayNew.1, threadNew.2.1, threadNew.1, rfl,
      Function.update_self .., ?_, ?_, ?_, fun file member => ?_, fun file member => ?_, rfl, rfl, rfl⟩
    · exact congrArg Process.ref last
    · exact congrArg Process.argv last
    · exact congrArg Process.slots ((Function.update_of_ne apart ..).trans (Function.update_of_ne apart ..))
    · refine Eq.trans ?_ (congrArg (kernel.files.ref file + List.count file · + 0) empty.symm)
      rfl
    · have stored : file ∈ FileLifetimes.slotReferences
          (startedProcesses allocator kernel behind (allocator.malloc kernel.used)).slots ++ [] := member
      rw [List.append_nil, empty] at stored
      cases stored

/-- `loader_spawn` leaves no trace, or makes a process with one thread and an empty table. -/
theorem loaderSpawn_cases {allocator : Allocator} {kernel after : Kernel} (sound : Sound kernel) {garbage : Garbage}
    {argv : List (List UInt8)} {result : Except Errno Nat}
    (called : loaderSpawn allocator kernel garbage argv = some (result, after)) :
    LeavesNoTrace kernel after ∧ (∃ error, result = .error error) ∨
      ∃ process thread array, result = .ok thread ∧ Installing kernel after process thread array [] := by
  cases argv with
  | nil =>
    obtain ⟨rfl, rfl⟩ := Prod.mk.inj (Option.some.inj called)
    exact .inl ⟨.refl kernel, _, rfl⟩
  | cons argv0 rest =>
    rw [loaderSpawn] at called
    split_ifs at called
    split at called
    · obtain ⟨rfl, rfl⟩ := Prod.mk.inj (Option.some.inj called)
      exact .inl ⟨.refl kernel, _, rfl⟩
    · split at called
      · cases called
      · next error left served =>
        obtain ⟨rfl, rfl⟩ := Prod.mk.inj (Option.some.inj called)
        obtain rfl := vfsStat_same served
        exact .inl ⟨.refl left, _, rfl⟩
      · next info left served =>
        obtain rfl := vfsStat_same served
        split_ifs at called
        · obtain ⟨rfl, rfl⟩ := Prod.mk.inj (Option.some.inj called)
          exact .inl ⟨.refl left, _, rfl⟩
        · exact threadNew_cases sound (Option.some.inj called)

/-- A failing `syscall_spawn` leaves no trace. -/
theorem syscallSpawn_noTrace {allocator : Allocator} {kernel after : Kernel} (sound : Sound kernel)
    {garbage : Garbage} {argv fds : Nat} {error : Errno}
    (inside : ParentsInside kernel.user (.spawn garbage argv fds))
    (failed : syscallSpawn allocator kernel garbage argv fds = some (.error error, after)) :
    LeavesNoTrace kernel after := by
  rw [syscallSpawn] at failed
  split at failed
  · obtain ⟨-, rfl⟩ := Prod.mk.inj (Option.some.inj failed)
    exact .refl kernel
  · obtain ⟨-, rfl⟩ := Prod.mk.inj (Option.some.inj failed)
    exact .refl kernel
  · next arguments entries _ found =>
    split at failed
    · cases failed
    · next refusal left loaded =>
      obtain ⟨-, rfl⟩ := Prod.mk.inj (Option.some.inj failed)
      rcases loaderSpawn_cases sound loaded with ⟨noTrace, -⟩ | ⟨_, _, _, made, -⟩
      · exact noTrace
      · cases made
    · next thread left loaded =>
      rcases loaderSpawn_cases sound loaded with ⟨-, _, refused⟩ | ⟨process, _, array, same, installing⟩
      · cases refused
      · obtain rfl := Except.ok.inj same
        split at failed
        · next refusal undone installed =>
          obtain ⟨-, rfl⟩ := Prod.mk.inj (Option.some.inj failed)
          exact installFds_noTrace sound installing (inside entries found) installed
        · cases failed

end Spawning

section Results

/-- The table and the counts of a process are those of files and tables in a reachable state. -/
theorem sound_of_reachable {Process Task : Type} [DecidableEq Process] [DecidableEq Task] [Fintype Process]
    [Fintype Task] {state : FileLifetimes.State Process Task}
    (reached : Runs.Reachable FileLifetimes.Initial FileLifetimes.AnyStep state) {process : Process} {kernel : Kernel}
    (table : state.tables process = some kernel.slots) (counts : kernel.files = state.files)
    (self : kernel.self ∈ kernel.used) (files : ∀ file ∈ state.created, file ∈ kernel.used)
    (freed : ∀ name ∈ kernel.freed, name ∈ kernel.used) : Sound kernel := by
  have kept := FileLifetimes.reachable_kept_files reached
  refine ⟨self, fun fd inside file slot => ?_, fun name member => ?_⟩
  · have found : state.slot process fd = some file := by
      rw [FileLifetimes.State.slot, table]
      exact slot
    have refers : file ∈ FileLifetimes.held state (.inl (process, ⟨fd, inside⟩)) := by
      rw [FileLifetimes.held, found]
      exact List.mem_singleton_self file
    have known := kept.exact.known (.inl (process, ⟨fd, inside⟩)) file refers
    have count := kept.exact.counted file known
    have positive := References.total_pos refers
    refine ⟨files file known, ?_⟩
    rw [counts]
    exact positive.trans_eq count.symm
  · rcases List.mem_append.mp member with gone | other
    · rw [counts] at gone
      exact files name ((kept.exact.ends name).mp gone).1
    · exact freed name other

/-- Failing calls leave no trace, whichever step fails. The table and all counts are as before, what the call
made was freed once, and nothing else was.

Proof: each call is followed to its failing steps, where each object that it holds is released. -/
theorem failing_calls_leave_no_trace (allocator : Allocator) (kernel : Kernel) (call : Call) (sound : Sound kernel)
    (unasked : Unasked kernel) (inside : ParentsInside kernel.user call) (error : Errno) (after : Kernel)
    (failed : perform allocator kernel call = some (.error error, after)) : LeavesNoTrace kernel after := by
  cases call with
  | opening stack path => exact syscallOpen_noTrace sound unasked failed
  | pipe page pipefd => exact syscallPipe_noTrace sound (Option.some.inj failed)
  | spawn garbage argv fds => exact syscallSpawn_noTrace sound inside failed

/-- A process with one slot left. -/
def crowded : Kernel where
  system := sysSystem
  user := ⟨MappingRequests.partlyMapped, fun _ => 0, fun _ => []⟩
  self := 1
  files := ⟨fun _ => 63, []⟩
  file _ := ⟨none, .plain⟩
  volumeRef _ := 1
  resourceRef _ := 1
  pipes _ := ⟨Pipe.ringInit fun _ => 0, false, false, false⟩
  processes _ := ⟨2, 1, 1, contextInit, fun fd => if fd < 63 then some 0 else none⟩
  threads _ := 1
  newPid := 2
  ready := []
  used := [0, 1, 2]
  freed := []

/-- A pipe of which only one end fits into the table leaves no trace. -/
theorem crowded_pipe : ∃ after,
    perform bumpAllocator crowded (.pipe (fun _ => 0) 0x400000) = some (.error .emfile, after) ∧
      LeavesNoTrace crowded after := by
  have sound : Sound crowded := by
    refine ⟨by decide, fun fd inside file slot => ?_, nofun⟩
    have member : file = 0 := by
      have content : (if fd < 63 then some 0 else none) = some file := slot
      split_ifs at content
      exact (Option.some.inj content).symm
    rw [member]
    exact ⟨by decide, by decide⟩
  have refused : (syscallPipe bumpAllocator crowded (fun _ => 0) 0x400000).1 = .error .emfile := by
    decide +kernel
  have failed : perform bumpAllocator crowded (.pipe (fun _ => 0) 0x400000) =
      some (.error .emfile, (syscallPipe bumpAllocator crowded (fun _ => 0) 0x400000).2) :=
    congrArg some (Prod.ext refused rfl)
  exact ⟨_, failed, failing_calls_leave_no_trace bumpAllocator crowded (.pipe (fun _ => 0) 0x400000) sound
    (fun _ => rfl) trivial .emfile _ failed⟩

end Results

end Asym.SyscallFailures
