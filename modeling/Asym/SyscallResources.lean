import Asym.CanonicalPaths
import Asym.FileLifetimes
import Asym.Pipe
import Asym.UserBuffers
import Asym.WorkingDirectory

/-!
# System calls and what they hold

A model of `syscall_open`, `syscall_pipe` and `syscall_spawn`, each from its checks to its
return, with everything on the way that is counted or allocated. A call takes references and
makes objects one after another. When a step fails, the steps before it are undone in three
ways: by a close, by `thread_free` down to `vfs_context_cleanup`, and by the `FILE_DEFER`s of
the scopes that are left, the last one first.

Objects are names that are never used twice; memory of the kernel does not run out without a
panic. User memory is what the calls read of it, words and strings. Nobody else runs. There is
no result where a path overruns a buffer.

The count of a resource is not restored: the file of a resource has the operations of the
resource, whose `cleanup` does not know about it.
-/

namespace Asym.SyscallResources

open MachineWords VirtualMemory PathParser PathStack PathLookup NodeTrees Ramfs
open UserBuffers hiding configMaxFd
open FileTables (Slots Files Outcome configMaxFd vfsContextInit)

/-- The error codes of the calls. -/
inductive Errno where
  | efault
  | einval
  | ebadf
  | emfile
  | path (error : Ramfs.Errno)
  deriving DecidableEq, Repr

/-- An error of a descriptor function. -/
def ofTable : FileTables.Errno → Errno
  | .emfile => .emfile
  | .ebadf => .ebadf
  | .einval => .einval

/-- `file->ops`, as far as `cleanup` goes: the table of the ram disk and those of the resources
have none. -/
inductive FileOps where
  | plain
  | readOps (pipe : Nat)
  | writeOps (pipe : Nat)
  | window (window : Nat)
  deriving DecidableEq, Repr

/-- `file_t` without its count. -/
structure File where
  volume : Option Nat
  ops : FileOps

/-- `process_t`, with `vfsContext`. -/
structure Process where
  argv : Nat
  id : Nat
  ref : Nat
  cwd : Cwd
  slots : Slots

/-- User memory: the page tables, the words, and the strings up to their ends. -/
structure UserMemory where
  space : Space
  word : Nat → Nat
  string : Nat → List UInt8

/-- The kernel. `self` is `sched_process()`, `used` are the names of all objects ever made, and
`freed` those freed that are not files. -/
structure Kernel where
  system : System
  user : UserMemory
  self : Nat
  files : Files
  file : Nat → File
  volumeRef : Nat → Nat
  resourceRef : Nat → Nat
  pipes : Nat → Pipe.Private
  processes : Nat → Process
  threads : Nat → Nat
  newPid : Nat
  ready : List Nat
  used : List Nat
  freed : List Nat

/-- The table of the calling process. -/
def Kernel.slots (kernel : Kernel) : Slots := (kernel.processes kernel.self).slots

/-- The working directory of the calling process. -/
def Kernel.cwd (kernel : Kernel) : Cwd := (kernel.processes kernel.self).cwd

/-- How often an object was freed. -/
def Kernel.releases (kernel : Kernel) (name : Nat) : Nat := (kernel.files.freed ++ kernel.freed).count name

/-- Write a table. -/
def Kernel.setSlots (kernel : Kernel) (process : Nat) (slots : Slots) : Kernel :=
  { kernel with
    processes := Function.update kernel.processes process { kernel.processes process with slots := slots } }

/-- Change the counts of the files. -/
def Kernel.recount (kernel : Kernel) (ref : Nat → Nat) : Kernel :=
  { kernel with files := { kernel.files with ref := ref } }

/-- What a descriptor function leaves in the table of a process. -/
def Kernel.absorb (kernel : Kernel) (process : Nat) (outcome : Outcome) : Kernel :=
  { kernel.setSlots process outcome.slots with files := outcome.files }

/-- `file->ops->cleanup`, if there is one. The end that closes second frees the pipe. -/
def cleanup (kernel : Kernel) : FileOps → Kernel
  | .plain => kernel
  | .readOps pipe =>
      let closed := Pipe.pipeReadCleanup (kernel.pipes pipe)
      { kernel with
        pipes := Function.update kernel.pipes pipe closed
        freed := if closed.freed then pipe :: kernel.freed else kernel.freed }
  | .writeOps pipe =>
      let closed := Pipe.pipeWriteCleanup (kernel.pipes pipe)
      { kernel with
        pipes := Function.update kernel.pipes pipe closed
        freed := if closed.freed then pipe :: kernel.freed else kernel.freed }
  | .window window => { kernel with freed := window :: kernel.freed }

/-- `volume_ref`. -/
def volumeRef (kernel : Kernel) (volume : Nat) : Kernel :=
  { kernel with volumeRef := VolumeLifetimes.volumeRef kernel.volumeRef volume }

/-- `volume_deref`. -/
def volumeDeref (kernel : Kernel) (volume : Nat) : Kernel :=
  { kernel with volumeRef := VolumeLifetimes.volumeDeref kernel.volumeRef volume }

/-- `file_deref`. -/
def fileDeref (kernel : Kernel) (file : Nat) : Kernel :=
  let dropped := { kernel with files := FileTables.fileDeref kernel.files file }
  if kernel.files.ref file ≤ 1 then
    let cleaned := cleanup dropped (kernel.file file).ops
    (kernel.file file).volume.elim cleaned (volumeDeref cleaned)
  else dropped

/-- `malloc` of an object. -/
def malloc (allocator : Allocator) (kernel : Kernel) : Nat × Kernel :=
  let name := allocator.malloc kernel.used
  (name, { kernel with used := name :: kernel.used })

/-- `free` of an object other than a file. -/
def free (kernel : Kernel) (name : Nat) : Kernel := { kernel with freed := name :: kernel.freed }

/-- `file_new`, with the operations that its callers set. -/
def fileNew (allocator : Allocator) (kernel : Kernel) (volume : Option Nat) (ops : FileOps) : Nat × Kernel :=
  let (name, taken) := malloc allocator kernel
  (name, { taken with
    files := FileTables.fileNew taken.files name
    file := Function.update taken.file name ⟨volume, ops⟩ })

/-- `vfs_context_open`. -/
def vfsContextOpen (kernel : Kernel) (process file : Nat) : Except Errno Nat × Kernel :=
  let outcome := FileTables.vfsContextOpen (kernel.processes process).slots kernel.files file
  (outcome.result.mapError ofTable, kernel.absorb process outcome)

/-- `vfs_context_openat`. -/
def vfsContextOpenat (kernel : Kernel) (process fd file : Nat) : Except Errno Nat × Kernel :=
  let outcome := FileTables.vfsContextOpenat (kernel.processes process).slots kernel.files fd file
  (outcome.result.mapError ofTable, kernel.absorb process outcome)

/-- `vfs_context_get`. -/
def vfsContextGet (kernel : Kernel) (process fd : Nat) : Except Errno Nat × Kernel :=
  let outcome := FileTables.vfsContextGet (kernel.processes process).slots kernel.files fd
  (outcome.result.mapError ofTable, kernel.absorb process outcome)

/-- `vfs_context_close`. -/
def vfsContextClose (kernel : Kernel) (process fd : Nat) : Except Errno Nat × Kernel :=
  if fd ≥ configMaxFd then (.error .ebadf, kernel)
  else match (kernel.processes process).slots fd with
    | none => (.error .ebadf, kernel)
    | some file =>
        (.ok 0, fileDeref (kernel.setSlots process
          (Function.update (kernel.processes process).slots fd none)) file)

/-- `vfs_context_cleanup`. -/
def vfsContextCleanup (kernel : Kernel) (process : Nat) : Kernel :=
  (FileLifetimes.slotReferences (kernel.processes process).slots).foldl fileDeref kernel

section Paths

/-- `ramfs_open`. -/
def ramfsOpen (allocator : Allocator) (kernel : Kernel) (volume : Nat) (path : List UInt8) :
    Except Ramfs.Errno Nat × Kernel :=
  match nodeTraverse kernel.system.memory.nodes (kernel.system.volume volume).root path nameSeparator with
  | none => (.error .epath, kernel)
  | some node =>
      if (kernel.system.memory.nodes node).type = ramfsDir then (.error .eisdir, kernel)
      else
        let (file, made) := fileNew allocator kernel (some volume) .plain
        (.ok file, made)

/-- `sysfs_open`. The file that a failing `open` of a resource is given is lost. -/
def sysfsOpen (allocator : Allocator) (kernel : Kernel) (volume : Nat) (path : List UInt8) :
    Except Ramfs.Errno Nat × Kernel :=
  match nodeTraverse kernel.system.memory.nodes (kernel.system.volume volume).root path nameSeparator with
  | none => (.error .epath, kernel)
  | some node =>
      if (kernel.system.memory.nodes node).type = sysfsSystem then (.error .eisdir, kernel)
      else
        let (file, made) := fileNew allocator kernel (some volume) .plain
        if (kernel.system.resources node).opens = some false then (.error .own, made)
        else (.ok file, { made with
          resourceRef := Function.update made.resourceRef node (made.resourceRef node + 1) })

/-- `volume->ops->open`. -/
def openOn (allocator : Allocator) (kernel : Kernel) (volume : Nat) (path : List UInt8) :
    Except Ramfs.Errno Nat × Kernel :=
  match (kernel.system.volume volume).fileSystem with
  | .ramfs => ramfsOpen allocator kernel volume path
  | .sysfs => sysfsOpen allocator kernel volume path

/-- `vfs_open`. The bytes of the buffer on the stack are arbitrary. -/
def vfsOpen (allocator : Allocator) (kernel : Kernel) (stack : Nat → UInt8) (path : List UInt8) :
    Option (Except Errno Nat × Kernel) :=
  if (vfsParsePath kernel.cwd ⟨stack, 0⟩ path).2.extent ≤ maxPath then
    if (vfsParsePath kernel.cwd ⟨stack, 0⟩ path).1 = false then some (.error (.path .epath), kernel)
    else
      let parsedPath := bufferString (vfsParsePath kernel.cwd ⟨stack, 0⟩ path).2.bytes
      match volumeGet kernel.system parsedPath with
      | none => some (.error (.path .epath), kernel)
      | some volume =>
          let held := volumeRef kernel volume
          match (volumeOps held.system (held.system.volume volume).fileSystem).opening with
          | none => some (.error (.path .eacces), volumeDeref held volume)
          | some _ =>
              match openOn allocator held volume (rootPath parsedPath) with
              | (.error error, after) => some (.error (.path error), volumeDeref after volume)
              | (.ok file, after) => some (.ok file, after)
  else none

/-- `vfs_stat`. -/
def vfsStat (kernel : Kernel) (stack : Nat → UInt8) (path : List UInt8) :
    Option (Except Errno Stat × Kernel) :=
  if (vfsParsePath kernel.cwd ⟨stack, 0⟩ path).2.extent ≤ maxPath then
    if (vfsParsePath kernel.cwd ⟨stack, 0⟩ path).1 = false then some (.error (.path .epath), kernel)
    else
      let parsedPath := bufferString (vfsParsePath kernel.cwd ⟨stack, 0⟩ path).2.bytes
      match volumeGet kernel.system parsedPath with
      | none => some (.error (.path .epath), kernel)
      | some volume =>
          let held := volumeRef kernel volume
          match (volumeOps held.system (held.system.volume volume).fileSystem).stat with
          | none => some (.error (.path .eacces), volumeDeref held volume)
          | some call =>
              some ((call volume (rootPath parsedPath)).mapError Errno.path, volumeDeref held volume)
  else none

end Paths

section Objects

/-- The two files of a pipe. -/
structure PipeFile where
  read : Nat
  write : Nat

/-- `pipe_init`. The page of the ring has arbitrary bytes. -/
def pipeInit (allocator : Allocator) (kernel : Kernel) (page : Nat → UInt8) : PipeFile × Kernel :=
  let (read, first) := fileNew allocator kernel none .plain
  let (write, second) := fileNew allocator first none .plain
  let (pipe, third) := malloc allocator second
  (⟨read, write⟩, { third with
    pipes := Function.update third.pipes pipe ⟨Pipe.ringInit page, false, false, false⟩
    file := Function.update (Function.update third.file read ⟨none, .readOps pipe⟩) write
      ⟨none, .writeOps pipe⟩ })

/-- `process_new`. The memory behind the table is arbitrary. No process is returned if an
argument is too long. -/
def processNew (allocator : Allocator) (kernel : Kernel) (behind : Slots) (argv : List (List UInt8)) :
    Option Nat × Kernel :=
  let (process, taken) := malloc allocator kernel
  if argv.any fun arg => arg.length > maxPath then (none, free taken process)
  else
    let (array, filled) := malloc allocator taken
    (some process, { filled with
      processes := Function.update filled.processes process
        ⟨array, filled.newPid, 0, WorkingDirectory.contextInit, vfsContextInit behind⟩
      newPid := filled.newPid + 1 })

/-- `process_free`. -/
def processFree (kernel : Kernel) (process : Nat) : Kernel :=
  free (free (vfsContextCleanup kernel process) (kernel.processes process).argv) process

/-- `process_thread_new`. -/
def processThreadNew (allocator : Allocator) (kernel : Kernel) (process : Nat) : Nat × Kernel :=
  let record := kernel.processes process
  let counted := { kernel with
    processes := Function.update kernel.processes process { record with ref := record.ref + 1 } }
  let (thread, taken) := malloc allocator counted
  (thread, { taken with threads := Function.update taken.threads thread process })

/-- `thread_new`. -/
def threadNew (allocator : Allocator) (kernel : Kernel) (behind : Slots) (argv : List (List UInt8)) :
    Except Errno Nat × Kernel :=
  match processNew allocator kernel behind argv with
  | (none, after) => (.error .einval, after)
  | (some process, after) =>
      let (thread, made) := processThreadNew allocator after process
      (.ok thread, made)

/-- `thread_free`. -/
def threadFree (kernel : Kernel) (thread : Nat) : Kernel :=
  let process := kernel.threads thread
  let record := kernel.processes process
  let counted := { kernel with
    processes := Function.update kernel.processes process { record with ref := record.ref - 1 } }
  free (if record.ref ≤ 1 then processFree counted process else counted) thread

/-- The buffers on the stack of `loader_spawn` and of what it calls, and the memory behind a
new table. -/
structure Garbage where
  executable : Nat → UInt8
  parsedPath : Nat → UInt8
  behind : Slots

/-- `loader_spawn`. -/
def loaderSpawn (allocator : Allocator) (kernel : Kernel) (garbage : Garbage) :
    List (List UInt8) → Option (Except Errno Nat × Kernel)
  | [] => some (.error .einval, kernel)
  | argv0 :: rest =>
      if (vfsParsePath kernel.cwd ⟨garbage.executable, 0⟩ argv0).2.extent ≤ maxPath then
        match CanonicalPaths.vfsRealpath kernel.cwd ⟨garbage.executable, 0⟩ argv0 with
        | .error _ => some (.error (.path .epath), kernel)
        | .ok executable =>
            match vfsStat kernel garbage.parsedPath (bufferString executable.bytes) with
            | none => none
            | some (.error error, after) => some (.error error, after)
            | some (.ok info, after) =>
                if info.type ≠ .file then some (.error (.path .eisdir), after)
                else some (threadNew allocator after garbage.behind (argv0 :: rest))
      else none

end Objects

section Calls

/-- `CONFIG_MAX_ARG`. -/
def configMaxArg : Nat := 256

/-- `sizeof(spawn_fd_t)`. -/
def spawnFdSize : Nat := 16

/-- `FD_NONE`. -/
def fdNone : Nat := wordSize - 1

/-- `spawn_fd_t`. -/
structure SpawnFd where
  child : Nat
  parent : Nat

/-- `verify_string`. -/
def verifyString (user : UserMemory) (pointer : Nat) : Bool :=
  verifyBuffer user.space pointer 0 && verifyBuffer user.space pointer (user.string pointer).length

/-- The loop of `syscall_spawn` that checks the arguments, from one of them on. -/
def checkArgv (user : UserMemory) (argv : Nat) : Nat → Nat → Except Errno (List (List UInt8))
  | _, 0 => .error .einval
  | argc, remaining + 1 =>
      let place := add argv (argc * 8)
      if !verifyBuffer user.space place 8 then .error .efault
      else if user.word place = 0 then .ok []
      else if !verifyString user (user.word place) then .error .efault
      else (checkArgv user argv (argc + 1) remaining).map (user.string (user.word place) :: ·)

/-- The loop of `syscall_spawn` that checks the descriptors, from one pair of them on. -/
def checkFds (user : UserMemory) (fds : Nat) : Nat → Nat → Except Errno (List SpawnFd)
  | _, 0 => .error .einval
  | fdAmount, remaining + 1 =>
      let place := add fds (fdAmount * spawnFdSize)
      let entry : SpawnFd := ⟨user.word place, user.word (add place 8)⟩
      if !verifyBuffer user.space place 8 then .error .efault
      else if entry.child = fdNone ∨ entry.parent = fdNone then .ok []
      else (checkFds user fds (fdAmount + 1) remaining).map (entry :: ·)

/-- The descriptors that `syscall_spawn` finds. -/
def spawnFds (user : UserMemory) (fds : Nat) : Except Errno (List SpawnFd) :=
  if fds = 0 then .ok [] else checkFds user fds 0 configMaxFd

/-- The last loop of `syscall_spawn`. The reference of `vfs_context_get` is given back at the
end of each turn, and after `thread_free` if the turn fails. -/
def installFds (kernel : Kernel) (thread : Nat) : List SpawnFd → Except Errno Unit × Kernel
  | [] => (.ok (), kernel)
  | entry :: rest =>
      match vfsContextGet kernel kernel.self entry.parent with
      | (.error _, after) => (.error .ebadf, threadFree after thread)
      | (.ok file, after) =>
          match vfsContextOpenat after (after.threads thread) entry.child file with
          | (.error _, refused) => (.error .ebadf, fileDeref (threadFree refused thread) file)
          | (.ok _, stored) => installFds (fileDeref stored file) thread rest

/-- `syscall_spawn`. -/
def syscallSpawn (allocator : Allocator) (kernel : Kernel) (garbage : Garbage) (argv fds : Nat) :
    Option (Except Errno Nat × Kernel) :=
  match checkArgv kernel.user argv 0 configMaxArg, spawnFds kernel.user fds with
  | .error error, _ => some (.error error, kernel)
  | .ok _, .error error => some (.error error, kernel)
  | .ok arguments, .ok entries =>
      match loaderSpawn allocator kernel garbage arguments with
      | none => none
      | some (.error error, after) => some (.error error, after)
      | some (.ok thread, after) =>
          match installFds after thread entries with
          | (.error error, failed) => some (.error error, failed)
          | (.ok (), done) =>
              some (.ok (done.processes (done.threads thread)).id, { done with ready := thread :: done.ready })

/-- `syscall_open`. -/
def syscallOpen (allocator : Allocator) (kernel : Kernel) (stack : Nat → UInt8) (path : Nat) :
    Option (Except Errno Nat × Kernel) :=
  if !verifyString kernel.user path then some (.error .efault, kernel)
  else
    match vfsOpen allocator kernel stack (kernel.user.string path) with
    | none => none
    | some (.error error, after) => some (.error error, after)
    | some (.ok file, after) =>
        let (result, stored) := vfsContextOpen after after.self file
        some (result, fileDeref stored file)

/-- What a descriptor function returns, as a word. -/
def returned (result : Except Errno Nat) : Nat := result.toOption.getD (wordSize - 1)

/-- Write a word of user memory. -/
def Kernel.store (kernel : Kernel) (place value : Nat) : Kernel :=
  { kernel with user := { kernel.user with word := Function.update kernel.user.word place value } }

/-- `syscall_pipe`. The write end is given back first. -/
def syscallPipe (allocator : Allocator) (kernel : Kernel) (page : Nat → UInt8) (pipefd : Nat) :
    Except Errno Nat × Kernel :=
  if !verifyBuffer kernel.user.space pipefd pipefdSize then (.error .efault, kernel)
  else
    let (pipe, made) := pipeInit allocator kernel page
    let leave (kernel : Kernel) : Kernel := fileDeref (fileDeref kernel pipe.write) pipe.read
    let (read, first) := vfsContextOpen made made.self pipe.read
    let readStored := first.store pipefd (returned read)
    match read with
    | .error error => (.error error, leave readStored)
    | .ok _ =>
        let (write, second) := vfsContextOpen readStored readStored.self pipe.write
        let writeStored := second.store (add pipefd 8) (returned write)
        match write with
        | .error error =>
            (.error error, leave (vfsContextClose writeStored writeStored.self (writeStored.user.word pipefd)).2)
        | .ok _ => (.ok 0, leave writeStored)

end Calls

section Derefs

/-- A `file_deref` that is not the last one changes the count only. -/
theorem fileDeref_more {kernel : Kernel} {file : Nat} (more : 1 < kernel.files.ref file) :
    fileDeref kernel file =
      kernel.recount (Function.update kernel.files.ref file (kernel.files.ref file - 1)) := by
  rw [fileDeref, if_neg (by omega), FileTables.fileDeref, if_neg (by omega)]
  rfl

/-- The `file_deref` of the last reference. -/
theorem fileDeref_last {kernel : Kernel} {file : Nat} (single : kernel.files.ref file = 1) :
    fileDeref kernel file =
      let dropped := { kernel with
        files := ⟨Function.update kernel.files.ref file 0, file :: kernel.files.freed⟩ }
      let cleaned := cleanup dropped (kernel.file file).ops
      (kernel.file file).volume.elim cleaned (volumeDeref cleaned) := by
  rw [fileDeref, if_pos (by omega), FileTables.fileDeref, if_pos (by omega), single]

/-- References that all have another one besides them are given up without a last one. -/
theorem derefs_more {kernel : Kernel} {references : List Nat}
    (more : ∀ file ∈ references, references.count file < kernel.files.ref file) :
    references.foldl fileDeref kernel =
      kernel.recount fun file => kernel.files.ref file - references.count file := by
  induction references generalizing kernel with
  | nil => rfl
  | cons first others ih =>
    have here := more first List.mem_cons_self
    rw [List.count_cons_self] at here
    have counts : (fun file => Function.update kernel.files.ref first (kernel.files.ref first - 1) file -
        others.count file) = fun file => kernel.files.ref file - (first :: others).count file := by
      funext file
      by_cases same : file = first
      · subst same
        simp only [Function.update_self, List.count_cons_self]
        omega
      · simp only [Function.update_of_ne same, List.count_cons_of_ne (Ne.symm same)]
    rw [List.foldl_cons, fileDeref_more (by omega), ih, ← counts]
    · rfl
    · intro file member
      have count := more file (List.mem_cons_of_mem first member)
      by_cases same : file = first
      · subst same
        simp only [Kernel.recount, Function.update_self]
        omega
      · rw [List.count_cons_of_ne (Ne.symm same)] at count
        simpa only [Kernel.recount, Function.update_of_ne same] using count

/-- Writing a table with what it holds. -/
theorem Kernel.setSlots_self (kernel : Kernel) (process : Nat) :
    kernel.setSlots process (kernel.processes process).slots = kernel := by
  rw [Kernel.setSlots, Function.update_eq_self]

/-- A table that was written. -/
theorem Kernel.setSlots_slots (kernel : Kernel) (process : Nat) (slots : Slots) :
    ((kernel.setSlots process slots).processes process).slots = slots := by
  rw [Kernel.setSlots]
  dsimp only
  rw [Function.update_self]

/-- The later write of a table counts. -/
theorem Kernel.setSlots_again (kernel : Kernel) (process : Nat) (slots other : Slots) :
    (kernel.setSlots process slots).setSlots process other = kernel.setSlots process other := by
  simp only [Kernel.setSlots, Function.update_self, Function.update_idem]

/-- A reference to a volume that is taken and given back. -/
theorem volumeDeref_volumeRef (kernel : Kernel) (volume : Nat) :
    volumeDeref (volumeRef kernel volume) volume = kernel := by
  rw [volumeDeref, volumeRef]
  simp only [VolumeLifetimes.volumeDeref, VolumeLifetimes.volumeRef, Function.update_self, Function.update_idem,
    Nat.add_sub_cancel, Function.update_eq_self]

/-- A descriptor function that fails has no effect. -/
theorem absorb_error {kernel after : Kernel} {process : Nat} {request : FileTables.Request} {error : Errno}
    (refines : FileTables.Refines (kernel.processes process).slots kernel.files request)
    (failed : ((FileTables.serve (kernel.processes process).slots kernel.files request).result.mapError ofTable,
      kernel.absorb process (FileTables.serve (kernel.processes process).slots kernel.files request)) =
        (.error error, after)) : after = kernel := by
  obtain ⟨result, rfl⟩ := Prod.mk.inj failed
  cases served : (FileTables.serve (kernel.processes process).slots kernel.files request).result with
  | ok answer =>
    rw [served] at result
    cases result
  | error other =>
    obtain ⟨slots, files⟩ := refines.fails other served
    rw [Kernel.absorb, slots, files, Kernel.setSlots_self]

/-- `vfs_context_open` fails without an effect. -/
theorem vfsContextOpen_error {kernel after : Kernel} {process file : Nat} {error : Errno}
    (failed : vfsContextOpen kernel process file = (.error error, after)) : after = kernel :=
  absorb_error (FileTables.open_refines _ _ file) failed

/-- `vfs_context_openat` fails without an effect. -/
theorem vfsContextOpenat_error {kernel after : Kernel} {process fd file : Nat} {error : Errno}
    (failed : vfsContextOpenat kernel process fd file = (.error error, after)) : after = kernel :=
  absorb_error (FileTables.openat_refines _ _ fd file) failed

/-- A slot that was empty holds a file. -/
structure Stores (kernel : Kernel) (process fd file : Nat) (after : Kernel) : Prop where
  inside : fd < configMaxFd
  empty : (kernel.processes process).slots fd = none
  same : after = { kernel.setSlots process (Function.update (kernel.processes process).slots fd (some file)) with
    files := FileTables.fileRef kernel.files file }

/-- The table after a file was stored. -/
theorem Stores.slots {kernel after : Kernel} {process fd file : Nat} (stores : Stores kernel process fd file after) :
    (after.processes process).slots = Function.update (kernel.processes process).slots fd (some file) := by
  rw [stores.same]
  exact kernel.setSlots_slots process _

/-- The count of the file after it was stored. -/
theorem Stores.count {kernel after : Kernel} {process fd file : Nat} (stores : Stores kernel process fd file after) :
    after.files.ref file = kernel.files.ref file + 1 := by
  rw [stores.same]
  exact Function.update_self ..

/-- Clearing the slot again restores the table. -/
theorem Stores.cleared {kernel after : Kernel} {process fd file : Nat} (stores : Stores kernel process fd file after) :
    after.setSlots process (Function.update (after.processes process).slots fd none) =
      { kernel with files := after.files } := by
  rw [stores.slots, Function.update_idem, ← stores.empty, Function.update_eq_self, stores.same]
  have restored := kernel.setSlots_again process (Function.update (kernel.processes process).slots fd (some file))
    (kernel.processes process).slots
  rw [kernel.setSlots_self] at restored
  exact congrArg (fun kernel' : Kernel => { kernel' with files := FileTables.fileRef kernel.files file }) restored

/-- `vfs_context_open` stores a reference in a slot that was empty. -/
theorem vfsContextOpen_ok {kernel after : Kernel} {process file fd : Nat}
    (stored : vfsContextOpen kernel process file = (.ok fd, after)) : Stores kernel process fd file after := by
  obtain ⟨result, rfl⟩ := Prod.mk.inj stored
  have finds := (FileTables.openFrom_spec (kernel.processes process).slots 0 configMaxFd).1
  rw [FileTables.vfsContextOpen] at result ⊢
  generalize FileTables.openFrom (kernel.processes process).slots 0 configMaxFd = searched at result finds ⊢
  obtain ⟨_ | found, read⟩ := searched
  · cases result
  · obtain rfl : found = fd := Except.ok.inj result
    obtain ⟨-, inside, empty, -⟩ := finds found rfl
    exact ⟨by omega, empty, rfl⟩

/-- `vfs_context_openat` stores a reference in the slot, which was empty. -/
theorem vfsContextOpenat_ok {kernel after : Kernel} {process fd file answer : Nat}
    (stored : vfsContextOpenat kernel process fd file = (.ok answer, after)) :
    Stores kernel process fd file after := by
  obtain ⟨result, rfl⟩ := Prod.mk.inj stored
  rw [FileTables.vfsContextOpenat] at result ⊢
  split_ifs at result ⊢ with outside used
  · cases result
  · cases result
  · exact ⟨Nat.lt_of_not_ge outside, not_not.mp used, rfl⟩

/-- `vfs_context_get` fails without an effect. -/
theorem vfsContextGet_error {kernel after : Kernel} {process fd : Nat} {error : Errno}
    (failed : vfsContextGet kernel process fd = (.error error, after)) : after = kernel := by
  obtain ⟨result, rfl⟩ := Prod.mk.inj failed
  rw [FileTables.vfsContextGet] at result ⊢
  cases content : (kernel.processes process).slots fd with
  | none => exact kernel.setSlots_self process
  | some file =>
    rw [content] at result
    cases result

/-- `vfs_context_get` takes a reference to the file in the slot. -/
theorem vfsContextGet_ok {kernel after : Kernel} {process fd file : Nat}
    (got : vfsContextGet kernel process fd = (.ok file, after)) :
    (kernel.processes process).slots fd = some file ∧
      after = { kernel with files := FileTables.fileRef kernel.files file } := by
  obtain ⟨result, rfl⟩ := Prod.mk.inj got
  rw [FileTables.vfsContextGet] at result ⊢
  cases content : (kernel.processes process).slots fd with
  | none =>
    rw [content] at result
    cases result
  | some other =>
    rw [content] at result
    obtain rfl : other = file := Except.ok.inj result
    refine ⟨rfl, ?_⟩
    dsimp only [Kernel.absorb]
    rw [Kernel.setSlots_self]

/-- The last reference to the write end of a pipe that is open for reading closes it. -/
theorem fileDeref_writeEnd {kernel : Kernel} {file pipe : Nat} (single : kernel.files.ref file = 1)
    (ops : kernel.file file = ⟨none, .writeOps pipe⟩) (opened : (kernel.pipes pipe).readClosed = false) :
    fileDeref kernel file = { kernel with
      files := ⟨Function.update kernel.files.ref file 0, file :: kernel.files.freed⟩
      pipes := Function.update kernel.pipes pipe (Pipe.pipeWriteCleanup (kernel.pipes pipe)) } := by
  rw [fileDeref_last single, ops]
  simp only [Option.elim, cleanup, Pipe.pipeWriteCleanup, opened, Bool.false_eq_true, if_false]

/-- The last reference to the read end of a pipe that is closed for writing frees the pipe. -/
theorem fileDeref_readEnd {kernel : Kernel} {file pipe : Nat} (single : kernel.files.ref file = 1)
    (ops : kernel.file file = ⟨none, .readOps pipe⟩) (closed : (kernel.pipes pipe).writeClosed = true) :
    fileDeref kernel file = { kernel with
      files := ⟨Function.update kernel.files.ref file 0, file :: kernel.files.freed⟩
      pipes := Function.update kernel.pipes pipe (Pipe.pipeReadCleanup (kernel.pipes pipe))
      freed := pipe :: kernel.freed } := by
  rw [fileDeref_last single, ops]
  simp only [Option.elim, cleanup, Pipe.pipeReadCleanup, closed, if_true]

/-- The references of a table. -/
def tableReferences (kernel : Kernel) (process : Nat) : List Nat :=
  FileLifetimes.slotReferences (kernel.processes process).slots

/-- A new table has no references. -/
theorem contextInit_references (behind : Slots) : FileLifetimes.slotReferences (vfsContextInit behind) = [] := by
  refine List.eq_nil_iff_forall_not_mem.mpr fun file member => ?_
  have positive := List.count_pos_iff.mpr member
  rw [FileLifetimes.slotReferences_count] at positive
  simp [vfsContextInit] at positive

/-- The references of a table after a file was stored in an empty slot. -/
theorem Stores.references {kernel after : Kernel} {process fd file : Nat} (stores : Stores kernel process fd file after)
    (tested : Nat) : (tableReferences after process).count tested =
      (tableReferences kernel process).count tested + if tested = file then 1 else 0 := by
  let held : Fin configMaxFd → List Nat := fun fd => ((kernel.processes process).slots fd).toList
  have here : held ⟨fd, stores.inside⟩ = [] := by
    dsimp only [held]
    rw [stores.empty]
    rfl
  have changed : (fun slot : Fin configMaxFd => ((after.processes process).slots slot).toList) =
      Function.update held ⟨fd, stores.inside⟩ [file] := by
    funext slot
    rw [stores.slots]
    by_cases same : slot = ⟨fd, stores.inside⟩
    · subst same
      simp
    · have different : slot.val ≠ fd := fun equal => same (Fin.ext equal)
      rw [Function.update_of_ne different, Function.update_of_ne same]
  have gained := References.total_gain held ⟨fd, stores.inside⟩ file [file] (by rw [here]) tested
  rw [← changed] at gained
  rw [tableReferences, tableReferences, FileLifetimes.slotReferences_count, FileLifetimes.slotReferences_count]
  exact gained

/-- `process_free` gives the references of the table back and frees the process with its
arguments. -/
theorem processFree_eq {kernel : Kernel} {process : Nat}
    (more : ∀ file ∈ tableReferences kernel process,
      (tableReferences kernel process).count file < kernel.files.ref file) :
    processFree kernel process = {
      kernel.recount fun file => kernel.files.ref file - (tableReferences kernel process).count file with
      freed := process :: (kernel.processes process).argv :: kernel.freed } := by
  rw [processFree, vfsContextCleanup]
  have cleaned := derefs_more more
  exact congrArg (fun left : Kernel => free (free left (kernel.processes process).argv) process) cleaned

end Derefs

section Lookups

/-- `vfs_stat` gives back the reference to the volume. -/
theorem vfsStat_same {kernel after : Kernel} {stack : Nat → UInt8} {path : List UInt8} {result : Except Errno Stat}
    (served : vfsStat kernel stack path = some (result, after)) : after = kernel := by
  rw [vfsStat] at served
  split_ifs at served
  · exact (Prod.mk.inj (Option.some.inj served)).2.symm
  · dsimp only at served
    split at served
    · exact (Prod.mk.inj (Option.some.inj served)).2.symm
    · next volume _ =>
      split at served
      · exact (Prod.mk.inj (Option.some.inj served)).2.symm.trans (volumeDeref_volumeRef kernel volume)
      · exact (Prod.mk.inj (Option.some.inj served)).2.symm.trans (volumeDeref_volumeRef kernel volume)

end Lookups

end Asym.SyscallResources
