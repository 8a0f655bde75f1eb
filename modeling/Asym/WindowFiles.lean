import Asym.DwmShown
import Asym.References
import Mathlib.Data.Fintype.Sum

/-!
# The files of windows

Any number of threads open `sys:/dwm`, request windows and close descriptors, while the
window manager goes on. A request takes a reference to the file with `vfs_context_get`,
reads the operations of the file in `vfs_ioctl`, and then runs them under the lock of the
manager; the reference is given up at the end. When the last reference to a file is gone,
the file is cleaned up and freed.

A request that creates a window turns the file it came through into the file of that
window. The operations that it runs are those that were read before, so the file may have
become that of another window in between.

The references to files are counted as in `References`, with descriptors and threads as
holders. A thread that has a reference can rely on the file being there.
-/

namespace Asym.WindowFiles

open Dwm References

/-- `file->ops`: those of `dwm.c` or those of `window.c`. -/
inductive Ops where
  | dwm
  | window
  deriving DecidableEq, Repr

/-- What a thread does with a file. -/
inductive Phase where
  | idle
  /-- It has a reference. -/
  | holding (file : Nat)
  /-- It has read which operations to run. -/
  | chosen (file : Nat) (ops : Ops)
  /-- It is about to give the reference up. -/
  | done (file : Nat)
  /-- It gave up the last reference. -/
  | cleaning (file : Nat)
  deriving DecidableEq, Repr

/-- The reference that a thread has. -/
def Phase.references : Phase → List Nat
  | .idle => []
  | .holding file => [file]
  | .chosen file _ => [file]
  | .done file => [file]
  | .cleaning _ => []

/-- A thread that can give a file up has a reference to it. -/
theorem Phase.references_of_has {phase : Phase} {file : Nat} (has : phase = .holding file ∨ phase = .done file) :
    phase.references = [file] := by
  rcases has with rfl | rfl
  · rfl
  · rfl

/-- `IOCTL_DWM_CREATE`, with the address of the new window. An invalid request has another
size, or a type that `window_new` does not know. -/
inductive Request where
  | create (id : Nat) (pos : Graphics.Point) (width height : Nat) (type : DwmType)
  | invalid

/-- The window manager, the files with their operations and private pointers, the
descriptors of all processes, and what the threads do. `finished` are the files that lost
their last reference. -/
structure State (Descriptor Thread : Type) where
  dwm : Dwm.State
  ops : Nat → Ops
  privatePointer : Nat → Option Nat
  ref : Nat → Nat
  created : List Nat
  finished : List Nat
  freed : List Nat
  slot : Descriptor → Option Nat
  phase : Thread → Phase

variable {Descriptor Thread : Type} [DecidableEq Descriptor] [DecidableEq Thread]

/-- Change what a thread does. -/
def State.turn (state : State Descriptor Thread) (thread : Thread) (phase : Phase) :
    State Descriptor Thread :=
  { state with phase := Function.update state.phase thread phase }

/-- `sysfs_open` of `sys:/dwm`, with the address of the new file. -/
def sysfsOpen (state : State Descriptor Thread) (file : Nat) : State Descriptor Thread :=
  { state with
    ops := Function.update state.ops file .dwm
    privatePointer := Function.update state.privatePointer file none
    ref := Function.update state.ref file 1
    created := file :: state.created }

/-- `file_ref`. -/
def fileRef (state : State Descriptor Thread) (file : Nat) : State Descriptor Thread :=
  { state with ref := Function.update state.ref file (state.ref file + 1) }

/-- `file_deref` up to the cleanup of the file. -/
def fileDeref (state : State Descriptor Thread) (thread : Thread) (file : Nat) :
    State Descriptor Thread :=
  if state.ref file ≤ 1 then
    { state.turn thread (.cleaning file) with
      ref := Function.update state.ref file (state.ref file - 1)
      finished := file :: state.finished }
  else
    { state.turn thread .idle with ref := Function.update state.ref file (state.ref file - 1) }

/-- `window_populate_file`. -/
def windowPopulateFile (state : State Descriptor Thread) (window file : Nat) : State Descriptor Thread :=
  { state with
    privatePointer := Function.update state.privatePointer file (some window)
    ops := Function.update state.ops file .window }

variable (screen : Screen)

/-- `dwm_ioctl`, if memory is free at the address that `window_new` is given. -/
def dwmIoctl (state : State Descriptor Thread) (file : Nat) : Request → Option (State Descriptor Thread)
  | .invalid => some state
  | .create id pos width height type =>
      if state.dwm.live id then none
      else
        let (dwm, error) := dwmCreate screen state.dwm id pos width height type
        match error with
        | none => some { windowPopulateFile state id file with dwm := dwm }
        | some _ => some { state with dwm := dwm }

/-- The operations that were chosen for a request. Those of a window have another request
of the same number and another size, so they reject this one. -/
def vfsIoctl (state : State Descriptor Thread) (file : Nat) (request : Request) :
    Ops → Option (State Descriptor Thread)
  | .dwm => dwmIoctl screen state file request
  | .window => some state

/-- The rest of `file_deref`: `window_cleanup` for the file of a window, and `free`. -/
def cleanupFile (state : State Descriptor Thread) (file : Nat) : State Descriptor Thread :=
  { state with
    dwm := match state.ops file, state.privatePointer file with
      | .window, some id => windowCleanup screen state.dwm id
      | _, _ => state.dwm
    freed := file :: state.freed }

/-- Steps of threads, and events of the manager. -/
inductive Event (Descriptor Thread : Type) where
  | sysfsOpen (thread : Thread) (file : Nat)
  | get (thread : Thread) (descriptor : Descriptor)
  | store (thread : Thread) (descriptor : Descriptor)
  | choose (thread : Thread)
  | ioctl (thread : Thread) (request : Request)
  | close (thread : Thread) (descriptor : Descriptor)
  | deref (thread : Thread)
  | cleanup (thread : Thread)
  | manager (event : Dwm.Event)

/-- What an event does, if it can happen. `get` is `vfs_context_get`; `store` is the end of
`vfs_context_open` or `vfs_context_openat`, on an empty slot; without one the reference is
given up at once. -/
def step (state : State Descriptor Thread) : Event Descriptor Thread → Option (State Descriptor Thread)
  | .sysfsOpen thread file =>
      if state.phase thread = .idle ∧ file ∉ state.created then
        some ((sysfsOpen state file).turn thread (.holding file))
      else none
  | .get thread descriptor =>
      match state.phase thread, state.slot descriptor with
      | .idle, some file => some ((fileRef state file).turn thread (.holding file))
      | _, _ => none
  | .store thread descriptor =>
      match state.phase thread, state.slot descriptor with
      | .holding file, none =>
          some { (fileRef state file).turn thread (.done file) with
            slot := Function.update state.slot descriptor (some file) }
      | _, _ => none
  | .choose thread =>
      match state.phase thread with
      | .holding file => some (state.turn thread (.chosen file (state.ops file)))
      | _ => none
  | .ioctl thread request =>
      match state.phase thread with
      | .chosen file ops => (vfsIoctl screen state file request ops).map (·.turn thread (.done file))
      | _ => none
  | .close thread descriptor =>
      match state.phase thread, state.slot descriptor with
      | .idle, some file =>
          some { state.turn thread (.done file) with slot := Function.update state.slot descriptor none }
      | _, _ => none
  | .deref thread =>
      match state.phase thread with
      | .holding file => some (fileDeref state thread file)
      | .done file => some (fileDeref state thread file)
      | _ => none
  | .cleanup thread =>
      match state.phase thread with
      | .cleaning file => some ((cleanupFile screen state file).turn thread .idle)
      | _ => none
  | .manager event =>
      if event.standing then (Dwm.step screen state.dwm event).map fun dwm => { state with dwm := dwm }
      else none

/-- No file, and the manager after `dwm_init`. -/
def initial (memory : Nat → Window) (back : Int → Graphics.Pixel) : State Descriptor Thread where
  dwm := Dwm.initial screen memory back
  ops := fun _ => .dwm
  privatePointer := fun _ => none
  ref := fun _ => 0
  created := []
  finished := []
  freed := []
  slot := fun _ => none
  phase := fun _ => .idle

/-- What the events do, each with what it found. -/
inductive Performed (state : State Descriptor Thread) :
    Event Descriptor Thread → State Descriptor Thread → Prop where
  | sysfsOpen (thread : Thread) (file : Nat) (idle : state.phase thread = .idle)
      (fresh : file ∉ state.created) :
      Performed state (.sysfsOpen thread file) ((sysfsOpen state file).turn thread (.holding file))
  | get (thread : Thread) (descriptor : Descriptor) (file : Nat) (idle : state.phase thread = .idle)
      (found : state.slot descriptor = some file) :
      Performed state (.get thread descriptor) ((fileRef state file).turn thread (.holding file))
  | store (thread : Thread) (descriptor : Descriptor) (file : Nat) (holding : state.phase thread = .holding file)
      (empty : state.slot descriptor = none) :
      Performed state (.store thread descriptor) { (fileRef state file).turn thread (.done file) with
        slot := Function.update state.slot descriptor (some file) }
  | choose (thread : Thread) (file : Nat) (holding : state.phase thread = .holding file) :
      Performed state (.choose thread) (state.turn thread (.chosen file (state.ops file)))
  | ioctl (thread : Thread) (request : Request) (file : Nat) (ops : Ops) (done : State Descriptor Thread)
      (chosen : state.phase thread = .chosen file ops)
      (requested : vfsIoctl screen state file request ops = some done) :
      Performed state (.ioctl thread request) (done.turn thread (.done file))
  | close (thread : Thread) (descriptor : Descriptor) (file : Nat) (idle : state.phase thread = .idle)
      (found : state.slot descriptor = some file) :
      Performed state (.close thread descriptor) { state.turn thread (.done file) with
        slot := Function.update state.slot descriptor none }
  | deref (thread : Thread) (file : Nat)
      (has : state.phase thread = .holding file ∨ state.phase thread = .done file) :
      Performed state (.deref thread) (fileDeref state thread file)
  | cleanup (thread : Thread) (file : Nat) (cleaning : state.phase thread = .cleaning file) :
      Performed state (.cleanup thread) ((cleanupFile screen state file).turn thread .idle)
  | manager (event : Dwm.Event) (dwm : Dwm.State) (standing : event.standing = true)
      (stepped : Dwm.step screen state.dwm event = some dwm) :
      Performed state (.manager event) { state with dwm := dwm }

/-- Every step is one of these. -/
theorem step_cases {state next : State Descriptor Thread} {event : Event Descriptor Thread}
    (taken : step screen state event = some next) : Performed screen state event next := by
  cases event with
  | sysfsOpen thread file =>
    simp only [step, Option.ite_none_right_eq_some, Option.some.injEq] at taken
    obtain ⟨⟨idle, fresh⟩, rfl⟩ := taken
    exact .sysfsOpen thread file idle fresh
  | get thread descriptor =>
    simp only [step] at taken
    split at taken
    · next file idle found =>
      obtain rfl := Option.some.inj taken
      exact .get thread descriptor file idle found
    · cases taken
  | store thread descriptor =>
    simp only [step] at taken
    split at taken
    · next file holding empty =>
      obtain rfl := Option.some.inj taken
      exact .store thread descriptor file holding empty
    · cases taken
  | choose thread =>
    simp only [step] at taken
    split at taken
    · next file holding =>
      obtain rfl := Option.some.inj taken
      exact .choose thread file holding
    · cases taken
  | ioctl thread request =>
    simp only [step] at taken
    split at taken
    · next file ops chosen =>
      obtain ⟨done, requested, rfl⟩ := Option.map_eq_some_iff.mp taken
      exact .ioctl thread request file ops done chosen requested
    · cases taken
  | close thread descriptor =>
    simp only [step] at taken
    split at taken
    · next file idle found =>
      obtain rfl := Option.some.inj taken
      exact .close thread descriptor file idle found
    · cases taken
  | deref thread =>
    simp only [step] at taken
    split at taken
    · next file holding =>
      obtain rfl := Option.some.inj taken
      exact .deref thread file (.inl holding)
    · next file done =>
      obtain rfl := Option.some.inj taken
      exact .deref thread file (.inr done)
    · cases taken
  | cleanup thread =>
    simp only [step] at taken
    split at taken
    · next file cleaning =>
      obtain rfl := Option.some.inj taken
      exact .cleanup thread file cleaning
    · cases taken
  | manager event =>
    simp only [step, Option.ite_none_right_eq_some] at taken
    obtain ⟨standing, dwm, stepped, rfl⟩ := taken.imp id Option.map_eq_some_iff.mp
    exact .manager event dwm standing stepped

/-- The references that descriptors and threads hold. -/
def held (state : State Descriptor Thread) : Descriptor ⊕ Thread → List Nat
  | .inl descriptor => (state.slot descriptor).toList
  | .inr thread => (state.phase thread).references

/-- Descriptors and threads with the counts of the files. -/
def counts (state : State Descriptor Thread) : Store (Descriptor ⊕ Thread) Nat where
  held := held state
  count := state.ref
  created := state.created
  finished := state.finished

/-- The references after a thread turned to something else. -/
theorem held_turn (state : State Descriptor Thread) (thread : Thread) (phase : Phase) :
    held (state.turn thread phase) = Function.update (held state) (.inr thread) phase.references := by
  funext holder
  rcases holder with descriptor | other
  · rfl
  · by_cases same : other = thread
    · subst same
      simp [held, State.turn]
    · simp [held, State.turn, same]

/-- The references after a slot is written. -/
theorem held_slot (state : State Descriptor Thread) (descriptor : Descriptor) (content : Option Nat) :
    held { state with slot := Function.update state.slot descriptor content } =
      Function.update (held state) (.inl descriptor) content.toList := by
  funext holder
  rcases holder with other | thread
  · by_cases same : other = descriptor
    · subst same
      simp [held]
    · simp [held, same]
  · rfl

/-- A thread that keeps its reference, or has none and gets none. -/
theorem held_turn_same (state : State Descriptor Thread) {thread : Thread} {phase : Phase}
    (same : phase.references = (state.phase thread).references) :
    held (state.turn thread phase) = held state := by
  rw [held_turn, same]
  exact Function.update_eq_self (Sum.inr thread) (held state)

omit [DecidableEq Descriptor] [DecidableEq Thread] in
/-- A request changes the manager, and maybe the file that it came through. -/
theorem vfsIoctl_cases {state next : State Descriptor Thread} {file : Nat} {request : Request} {ops : Ops}
    (taken : vfsIoctl screen state file request ops = some next) :
    (∃ dwm, next = { state with dwm := dwm }) ∨
      ∃ id dwm, next = { windowPopulateFile state id file with dwm := dwm } := by
  cases ops with
  | window => exact .inl ⟨state.dwm, (Option.some.inj taken).symm⟩
  | dwm =>
    cases request with
    | invalid => exact .inl ⟨state.dwm, (Option.some.inj taken).symm⟩
    | create id pos width height type =>
      simp only [vfsIoctl, dwmIoctl, Option.ite_none_left_eq_some] at taken
      obtain ⟨-, taken⟩ := taken
      split at taken
      · exact .inr ⟨id, _, (Option.some.inj taken).symm⟩
      · exact .inl ⟨_, (Option.some.inj taken).symm⟩

omit [DecidableEq Descriptor] [DecidableEq Thread] in
/-- A request changes no references. -/
theorem vfsIoctl_held {state next : State Descriptor Thread} {file : Nat} {request : Request} {ops : Ops}
    (taken : vfsIoctl screen state file request ops = some next) :
    next.slot = state.slot ∧ next.phase = state.phase ∧ next.ref = state.ref ∧
      next.created = state.created ∧ next.finished = state.finished ∧ next.freed = state.freed := by
  rcases vfsIoctl_cases screen taken with ⟨dwm, rfl⟩ | ⟨id, dwm, rfl⟩
  · exact ⟨rfl, rfl, rfl, rfl, rfl, rfl⟩
  · exact ⟨rfl, rfl, rfl, rfl, rfl, rfl⟩

variable [Fintype Descriptor] [Fintype Thread]

/-- Taking a reference to the file of a descriptor. -/
theorem get_counts {state : State Descriptor Thread} {thread : Thread} {descriptor : Descriptor} {file : Nat}
    (idle : state.phase thread = .idle) (found : state.slot descriptor = some file) :
    References.Step (counts state) (counts ((fileRef state file).turn thread (.holding file))) := by
  have taken := References.Step.share (counts state) (.inl descriptor) (.inr thread) file [file]
    (by simp [counts, held, found]) (by simp [counts, held, idle, Phase.references])
  have same : held ((fileRef state file).turn thread (.holding file)) =
      Function.update (held state) (.inr thread) [file] := held_turn _ _ _
  simp only [counts] at taken ⊢
  rwa [← same] at taken

/-- Storing a file into an empty slot. -/
theorem store_counts {state : State Descriptor Thread} {thread : Thread} {descriptor : Descriptor} {file : Nat}
    (holding : state.phase thread = .holding file) (empty : state.slot descriptor = none) :
    References.Step (counts state) (counts { (fileRef state file).turn thread (.done file) with
      slot := Function.update state.slot descriptor (some file) }) := by
  have taken := References.Step.share (counts state) (.inr thread) (.inl descriptor) file [file]
    (by simp [counts, held, holding, Phase.references]) (by simp [counts, held, empty])
  have same : held { (fileRef state file).turn thread (.done file) with
      slot := Function.update state.slot descriptor (some file) } =
      Function.update (held state) (.inl descriptor) [file] := by
    have turned : held ((fileRef state file).turn thread (.done file)) = held (fileRef state file) :=
      held_turn_same (fileRef state file) (congrArg Phase.references holding).symm
    have written := held_slot ((fileRef state file).turn thread (.done file)) descriptor (some file)
    rw [turned] at written
    exact written
  simp only [counts] at taken ⊢
  rwa [← same] at taken

/-- Clearing a slot hands its reference over to the thread. -/
theorem close_counts {state : State Descriptor Thread} {thread : Thread} {descriptor : Descriptor} {file : Nat}
    (idle : state.phase thread = .idle) (found : state.slot descriptor = some file) :
    References.Step (counts state) (counts { state.turn thread (.done file) with
      slot := Function.update state.slot descriptor none }) := by
  have moved := total_move (held state) (.inl descriptor) (.inr thread) file [] [file] (by simp)
    (by simp [held, found]) (by simp [held, idle, Phase.references])
  have same : held { state.turn thread (.done file) with
      slot := Function.update state.slot descriptor none } =
      Function.update (Function.update (held state) (.inl descriptor) []) (.inr thread) [file] := by
    have written := held_slot (state.turn thread (.done file)) descriptor none
    rw [held_turn, Function.update_comm (by simp)] at written
    exact written
  rw [← same] at moved
  exact References.Step.regroup (counts state) _ moved

/-- Giving a reference up. -/
theorem deref_counts {state : State Descriptor Thread} {thread : Thread} {file : Nat}
    (has : (state.phase thread).references = [file]) :
    References.Step (counts state) (counts (fileDeref state thread file)) := by
  have taken := References.Step.release (counts state) (.inr thread) file [] (by simp [counts, held, has])
  have left (phase : Phase) (empty : phase.references = []) :
      held (state.turn thread phase) = Function.update (held state) (.inr thread) [] := by
    rw [held_turn, empty]
  simp only [counts, Store.drop] at taken
  rw [fileDeref]
  by_cases last : state.ref file ≤ 1
  · rw [if_pos last]
    simp only [← left (.cleaning file) rfl, last, if_true] at taken
    exact taken
  · rw [if_neg last]
    simp only [← left .idle rfl, last, if_false] at taken
    exact taken

/-- A step does nothing to references, or one operation on them. -/
theorem step_counts {state next : State Descriptor Thread} {event : Event Descriptor Thread}
    (taken : step screen state event = some next) :
    counts next = counts state ∨ References.Step (counts state) (counts next) := by
  cases step_cases screen taken with
  | sysfsOpen thread file idle fresh =>
    have made := References.Step.create (counts state) (.inr thread) file [file] fresh
      (by simp [counts, held, idle, Phase.references])
    have same : held ((sysfsOpen state file).turn thread (.holding file)) =
        Function.update (held state) (.inr thread) [file] := held_turn _ _ _
    right
    simp only [counts] at made ⊢
    rwa [← same] at made
  | get thread descriptor file idle found => exact .inr (get_counts idle found)
  | store thread descriptor file holding empty => exact .inr (store_counts holding empty)
  | choose thread file holding =>
    left
    have has : (Phase.chosen file (state.ops file)).references = (state.phase thread).references := by
      rw [holding]
      rfl
    simp only [counts]
    rw [held_turn_same state has]
    rfl
  | ioctl thread request file ops done chosen requested =>
    obtain ⟨slot, phase, ref, created, finished, -⟩ := vfsIoctl_held screen requested
    left
    have has : (Phase.done file).references = (done.phase thread).references := by
      rw [phase, chosen]
      rfl
    have kept : held done = held state := by
      funext holder
      rcases holder with descriptor | other
      · simp only [held, slot]
      · simp only [held, phase]
    simp only [counts]
    rw [held_turn_same done has, kept]
    simp only [State.turn, ref, created, finished]
  | close thread descriptor file idle found => exact .inr (close_counts idle found)
  | deref thread file has => exact .inr (deref_counts (Phase.references_of_has has))
  | cleanup thread file cleaning =>
    left
    simp only [counts]
    have without : Phase.idle.references = ((cleanupFile screen state file).phase thread).references :=
      (congrArg Phase.references cleaning).symm
    rw [held_turn_same (cleanupFile screen state file) without]
    rfl
  | manager event dwm standing stepped => exact .inl rfl

/-- A file that lost its last reference is cleaned up by one thread, and freed then. -/
structure Cleans (finished freed : List Nat) (phase : Thread → Phase) : Prop where
  ended : ∀ thread file, phase thread = .cleaning file → file ∈ finished ∧ file ∉ freed
  alone : ∀ first second file, phase first = .cleaning file → phase second = .cleaning file → first = second
  pending : ∀ file ∈ finished, file ∈ freed ∨ ∃ thread, phase thread = .cleaning file
  freed : ∀ file ∈ freed, file ∈ finished

section Cleans

variable {finished freed : List Nat} {phase : Thread → Phase} {thread : Thread} {file : Nat}

omit [Fintype Thread] in
/-- A thread cleans up after another one turned to something. -/
theorem cleaning_update_iff {turned : Phase} {other : Thread} {tested : Nat} :
    Function.update phase thread turned other = .cleaning tested ↔
      other = thread ∧ turned = .cleaning tested ∨ other ≠ thread ∧ phase other = .cleaning tested := by
  by_cases same : other = thread
  · simp [same]
  · simp [same]

omit [Fintype Thread] in
/-- A thread that cleans up neither before nor after. -/
theorem Cleans.turn (cleans : Cleans finished freed phase) {turned : Phase}
    (before : ∀ file, phase thread ≠ .cleaning file) (after : ∀ file, turned ≠ .cleaning file) :
    Cleans finished freed (Function.update phase thread turned) := by
  have same (other : Thread) (tested : Nat) : Function.update phase thread turned other = .cleaning tested ↔
      phase other = .cleaning tested := by
    rw [cleaning_update_iff]
    constructor
    · rintro (⟨-, absent⟩ | ⟨-, cleaning⟩)
      · exact absurd absent (after tested)
      · exact cleaning
    · intro cleaning
      refine .inr ⟨?_, cleaning⟩
      rintro rfl
      exact before tested cleaning
  constructor
  · intro other tested cleaning
    exact cleans.ended other tested ((same other tested).mp cleaning)
  · intro first second tested cleaningFirst cleaningSecond
    exact cleans.alone first second tested ((same first tested).mp cleaningFirst)
      ((same second tested).mp cleaningSecond)
  · intro tested ended
    simp only [same]
    exact cleans.pending tested ended
  · exact cleans.freed

omit [Fintype Thread] in
/-- A thread that gave up the last reference to a file turns to clean it up. -/
theorem Cleans.finish (cleans : Cleans finished freed phase) (before : ∀ file, phase thread ≠ .cleaning file)
    (new : file ∉ finished) : Cleans (file :: finished) freed (Function.update phase thread (.cleaning file)) := by
  constructor
  · intro other tested cleaning
    rcases cleaning_update_iff.mp cleaning with ⟨-, same⟩ | ⟨-, already⟩
    · obtain rfl := Phase.cleaning.inj same
      exact ⟨List.mem_cons_self, fun freed => new (cleans.freed file freed)⟩
    · obtain ⟨ended, notFreed⟩ := cleans.ended other tested already
      exact ⟨List.mem_cons_of_mem _ ended, notFreed⟩
  · intro first second tested cleaningFirst cleaningSecond
    rcases cleaning_update_iff.mp cleaningFirst with ⟨isFirst, same⟩ | ⟨-, alreadyFirst⟩
    · rcases cleaning_update_iff.mp cleaningSecond with ⟨isSecond, -⟩ | ⟨-, alreadySecond⟩
      · rw [isFirst, isSecond]
      · obtain rfl := Phase.cleaning.inj same
        exact absurd (cleans.ended second file alreadySecond).1 new
    · rcases cleaning_update_iff.mp cleaningSecond with ⟨-, same⟩ | ⟨-, alreadySecond⟩
      · obtain rfl := Phase.cleaning.inj same
        exact absurd (cleans.ended first file alreadyFirst).1 new
      · exact cleans.alone first second tested alreadyFirst alreadySecond
  · intro tested ended
    rcases List.mem_cons.mp ended with rfl | earlier
    · exact .inr ⟨thread, cleaning_update_iff.mpr (.inl ⟨rfl, rfl⟩)⟩
    · rcases cleans.pending tested earlier with done | ⟨other, cleaning⟩
      · exact .inl done
      · refine .inr ⟨other, cleaning_update_iff.mpr (.inr ⟨?_, cleaning⟩)⟩
        rintro rfl
        exact before tested cleaning
  · intro tested done
    exact List.mem_cons_of_mem _ (cleans.freed tested done)

omit [Fintype Thread] in
/-- A file is cleaned up and freed. -/
theorem Cleans.clean (cleans : Cleans finished freed phase) (cleaning : phase thread = .cleaning file) :
    Cleans finished (file :: freed) (Function.update phase thread .idle) := by
  have other_of {other : Thread} {tested : Nat}
      (still : Function.update phase thread .idle other = .cleaning tested) :
      other ≠ thread ∧ phase other = .cleaning tested := by
    rcases cleaning_update_iff.mp still with ⟨-, absent⟩ | other_
    · cases absent
    · exact other_
  constructor
  · intro other tested still
    obtain ⟨different, already⟩ := other_of still
    obtain ⟨ended, notFreed⟩ := cleans.ended other tested already
    refine ⟨ended, fun done => ?_⟩
    rcases List.mem_cons.mp done with rfl | before
    · exact different (cleans.alone other thread tested already cleaning)
    · exact notFreed before
  · intro first second tested stillFirst stillSecond
    exact cleans.alone first second tested (other_of stillFirst).2 (other_of stillSecond).2
  · intro tested ended
    rcases cleans.pending tested ended with done | ⟨other, already⟩
    · exact .inl (List.mem_cons_of_mem _ done)
    · by_cases same : other = thread
      · rw [same, cleaning] at already
        obtain rfl := Phase.cleaning.inj already
        exact .inl List.mem_cons_self
      · exact .inr ⟨other, cleaning_update_iff.mpr (.inr ⟨same, already⟩)⟩
  · intro tested done
    rcases List.mem_cons.mp done with rfl | before
    · exact (cleans.ended thread tested cleaning).1
    · exact cleans.freed tested before

end Cleans

/-- The counts are exact, the files without references are cleaned up, and a file with the
operations of windows has one. -/
structure Tracked (state : State Descriptor Thread) : Prop where
  exact : Exact (counts state)
  cleans : Cleans state.finished state.freed state.phase
  populated : ∀ file, state.ops file = .window → state.privatePointer file ≠ none

omit [DecidableEq Descriptor] [DecidableEq Thread] in
/-- A file that a thread has a reference to is there. -/
theorem Tracked.present {state : State Descriptor Thread} (tracked : Tracked state) {thread : Thread} {file : Nat}
    (has : (state.phase thread).references = [file]) :
    file ∈ state.created ∧ file ∉ state.finished ∧ file ∉ state.freed := by
  have refers : file ∈ (counts state).held (.inr thread) := by simp [counts, held, has]
  have notFinished : file ∉ state.finished := by
    intro finished
    have none := ((tracked.exact.ends file).mp finished).2
    exact (total_eq_zero_iff _ file).mp none (.inr thread) refers
  exact ⟨tracked.exact.known _ file refers, notFinished, fun freed =>
    notFinished (tracked.cleans.freed file freed)⟩

omit [DecidableEq Descriptor] [DecidableEq Thread] [Fintype Descriptor] [Fintype Thread] in
/-- A file that becomes that of a window. -/
theorem populated_windowPopulateFile {state : State Descriptor Thread} (id file : Nat)
    (populated : ∀ file, state.ops file = .window → state.privatePointer file ≠ none) (tested : Nat) :
    (windowPopulateFile state id file).ops tested = .window →
      (windowPopulateFile state id file).privatePointer tested ≠ none := by
  by_cases same : tested = file
  · simp [windowPopulateFile, same]
  · simpa [windowPopulateFile, same] using populated tested

omit [DecidableEq Descriptor] [DecidableEq Thread] [Fintype Descriptor] [Fintype Thread] in
/-- Requests leave files with the operations of windows with one. -/
theorem vfsIoctl_populated {state next : State Descriptor Thread} {file : Nat} {request : Request} {ops : Ops}
    (populated : ∀ file, state.ops file = .window → state.privatePointer file ≠ none)
    (taken : vfsIoctl screen state file request ops = some next) :
    ∀ file, next.ops file = .window → next.privatePointer file ≠ none := by
  rcases vfsIoctl_cases screen taken with ⟨dwm, rfl⟩ | ⟨id, dwm, rfl⟩
  · exact populated
  · exact populated_windowPopulateFile id file populated

omit [DecidableEq Descriptor] in
/-- Giving a reference up keeps track of the files. -/
theorem fileDeref_cleans {state : State Descriptor Thread} (tracked : Tracked state) {thread : Thread} {file : Nat}
    (has : (state.phase thread).references = [file]) :
    Cleans (fileDeref state thread file).finished (fileDeref state thread file).freed
      (fileDeref state thread file).phase := by
  have busy : ∀ other, state.phase thread ≠ .cleaning other := by
    intro other cleaning
    rw [cleaning] at has
    cases has
  rw [fileDeref]
  split_ifs with last
  · exact tracked.cleans.finish busy (tracked.present has).2.1
  · exact tracked.cleans.turn busy (fun _ => nofun)

/-- What a step does to the files that are cleaned up and to those of windows. -/
theorem step_files {state next : State Descriptor Thread} {event : Event Descriptor Thread}
    (tracked : Tracked state) (taken : step screen state event = some next) :
    Cleans next.finished next.freed next.phase ∧
      ∀ file, next.ops file = .window → next.privatePointer file ≠ none := by
  have busy {thread : Thread} {phase : Phase} (is : state.phase thread = phase)
      (never : ∀ file, phase ≠ .cleaning file) (file : Nat) : state.phase thread ≠ .cleaning file :=
    is ▸ never file
  cases step_cases screen taken with
  | sysfsOpen thread file idle fresh =>
    refine ⟨tracked.cleans.turn (busy idle fun _ => nofun) (fun _ => nofun), fun tested => ?_⟩
    by_cases same : tested = file
    · simp [sysfsOpen, State.turn, same]
    · simpa [sysfsOpen, State.turn, same] using tracked.populated tested
  | get thread descriptor file idle found =>
    exact ⟨tracked.cleans.turn (busy idle fun _ => nofun) (fun _ => nofun), tracked.populated⟩
  | store thread descriptor file holding empty =>
    exact ⟨tracked.cleans.turn (busy holding fun _ => nofun) (fun _ => nofun), tracked.populated⟩
  | choose thread file holding =>
    exact ⟨tracked.cleans.turn (busy holding fun _ => nofun) (fun _ => nofun), tracked.populated⟩
  | ioctl thread request file ops done chosen requested =>
    obtain ⟨-, phase, -, -, finished, freed⟩ := vfsIoctl_held screen requested
    have populated := vfsIoctl_populated screen tracked.populated requested
    refine ⟨?_, populated⟩
    simp only [State.turn, phase, finished, freed]
    exact tracked.cleans.turn (busy chosen fun _ => nofun) (fun _ => nofun)
  | close thread descriptor file idle found =>
    exact ⟨tracked.cleans.turn (busy idle fun _ => nofun) (fun _ => nofun), tracked.populated⟩
  | deref thread file has =>
    have kept : (fileDeref state thread file).ops = state.ops ∧
        (fileDeref state thread file).privatePointer = state.privatePointer := by
      rw [fileDeref]
      split_ifs with last
      · exact ⟨rfl, rfl⟩
      · exact ⟨rfl, rfl⟩
    rw [kept.1, kept.2]
    exact ⟨fileDeref_cleans tracked (Phase.references_of_has has), tracked.populated⟩
  | cleanup thread file cleaning => exact ⟨tracked.cleans.clean cleaning, tracked.populated⟩
  | manager event dwm standing stepped => exact ⟨tracked.cleans, tracked.populated⟩

/-- Every step keeps track of the files. -/
theorem step_tracked {state next : State Descriptor Thread} {event : Event Descriptor Thread}
    (tracked : Tracked state) (taken : step screen state event = some next) : Tracked next := by
  obtain ⟨cleans, populated⟩ := step_files screen tracked taken
  refine ⟨?_, cleans, populated⟩
  rcases step_counts screen taken with same | changed
  · rw [same]
    exact tracked.exact
  · exact step_exact _ _ tracked.exact changed

end Asym.WindowFiles
