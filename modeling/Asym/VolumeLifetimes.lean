import Asym.PathParser
import Asym.References
import Mathlib.Data.Fintype.BigOperators

/-!
# The lifetime of volumes

Any number of kernel tasks attach, use and unmount volumes. The operations of a
volume are not fixed: any of them may be absent, and a call of one that is there
succeeds or fails as it likes. A successful open returns a file that `file_new`
made for the volume. One that fails may leave files that it has made: `sysfs_open`
does not free its file when the open of the resource fails. `vfs_open` takes the
reference back all the same, so a file that is left is one that the count misses.

A path operation takes its reference in `volume_get`, under the lock of the list
of volumes, and runs without the lock afterwards. `vfs_unmount` holds the lock
from its test of the count to its end, while files and path operations may give
up their references. The other functions that take the lock do so in one step.

The state also records, for each task, by how much its current or last call has
changed every count.
-/

namespace Asym.VolumeLifetimes

open PathParser References Runs

/-- `MAX_NAME`. -/
def maxName : Nat := 32

/-- `VFS_END_OF_LABEL`. -/
def endOfLabel (ch : UInt8) : Bool := ch == labelSeparator || ch == 0

/-- The loop of `label_compare`. -/
def labelCompareFrom : Nat → List UInt8 → List UInt8 → Bool
  | 0, _, _ => false
  | turns + 1, a, b =>
      if endOfLabel (charAt a) then endOfLabel (charAt b)
      else if charAt a ≠ charAt b then false
      else labelCompareFrom turns a.tail b.tail

/-- `label_compare`. -/
def labelCompare (a b : List UInt8) : Bool := labelCompareFrom maxPath a b

/-- The path operations. -/
inductive PathCall where
  | opening
  | stat
  | listdir
  deriving DecidableEq, Repr

/-- `volume_ops_t`: which of the pointers are not `NULL`. -/
structure VolumeOps where
  unmount : Bool
  path : PathCall → Bool

/-- `volume_t` without its count. -/
structure Volume where
  label : List UInt8
  ops : VolumeOps

/-- A live file and its field `volume`, which is `NULL` for the ends of a pipe. -/
structure File where
  name : Nat
  volume : Option Nat
  deriving DecidableEq, Repr

/-- The error codes of the volume functions. `own` is the error that an operation
of the volume has left. -/
inductive Errno where
  | einval
  | eexist
  | epath
  | eacces
  | ebusy
  | own
  deriving DecidableEq, Repr

/-- What an operation of a volume does: it succeeds, for an open with the file that it returns, or
fails and leaves the files that it has made for the volume and not freed. -/
inductive Answer where
  | succeeds (name : Nat)
  | fails (left : List Nat)

/-- The files that are live when the operation has returned. -/
def Answer.files : Answer → List Nat
  | .succeeds name => [name]
  | .fails left => left

/-- Where a task is. -/
inductive Phase where
  /-- No call was made yet. -/
  | fresh
  /-- In a path operation, between `volume_get` and `volume_deref` or the return of
  the file. -/
  | inside (call : PathCall) (volume : Nat)
  /-- In `vfs_unmount`, past the test of the count. -/
  | unmounting (volume : Nat)
  /-- The last call has returned. -/
  | returned (result : Except Errno Unit)

/-- The volume that a path operation uses. -/
def Phase.uses : Phase → Option Nat
  | .inside _ volume => some volume
  | _ => none

/-- The task is not in a call. -/
def Phase.Ready : Phase → Prop
  | .fresh => True
  | .returned _ => True
  | _ => False

/-- Volumes, files and tasks. `volumes` is the list of the source; volumes are
names that are never used twice. -/
structure State (Task : Type) where
  volumes : List Nat
  volume : Nat → Volume
  ref : Nat → Nat
  created : List Nat
  freed : List Nat
  live : List File
  phase : Task → Phase
  effect : Task → Nat → Int

variable {Task : Type}

/-- Nobody holds the lock of the list of volumes. -/
def State.Unlocked (state : State Task) : Prop := ∀ task volume, state.phase task ≠ .unmounting volume

/-- `volume_ref`. -/
def volumeRef (ref : Nat → Nat) (volume : Nat) : Nat → Nat :=
  Function.update ref volume (ref volume + 1)

/-- `volume_deref`. -/
def volumeDeref (ref : Nat → Nat) (volume : Nat) : Nat → Nat :=
  Function.update ref volume (ref volume - 1)

/-- The search of `volume_get`. -/
def volumeGet (state : State Task) (label : List UInt8) : Option Nat :=
  state.volumes.find? (fun volume => labelCompare (state.volume volume).label label)

/-- The search of `vfs_attach_simple` and `vfs_unmount`. -/
def volumeNamed (state : State Task) (label : List UInt8) : Option Nat :=
  state.volumes.find? (fun volume => nameCompare (state.volume volume).label label)

variable [DecidableEq Task]

/-- The first step of a call. -/
def State.enter (state : State Task) (task : Task) (phase : Phase) (ref : Nat → Nat) : State Task :=
  { state with
    ref := ref
    phase := Function.update state.phase task phase
    effect := Function.update state.effect task (fun volume => (ref volume : Int) - state.ref volume) }

/-- A later step of a call. -/
def State.settle (state : State Task) (task : Task) (phase : Phase) (ref : Nat → Nat) : State Task :=
  { state with
    ref := ref
    phase := Function.update state.phase task phase
    effect := Function.update state.effect task
      (fun volume => state.effect task volume + ((ref volume : Int) - state.ref volume)) }

/-- `vfs_attach_simple`, with the name of the volume that it creates. -/
def vfsAttachSimple (state : State Task) (task : Task) (label : List UInt8) (ops : VolumeOps)
    (name : Nat) : State Task :=
  if label.length ≥ maxName then state.enter task (.returned (.error .einval)) state.ref
  else match volumeNamed state label with
    | some _ => state.enter task (.returned (.error .eexist)) state.ref
    | none =>
        { state.enter task (.returned (.ok ())) (Function.update state.ref name 1) with
          volumes := state.volumes ++ [name]
          volume := Function.update state.volume name ⟨label, ops⟩
          created := name :: state.created }

/-- A path operation up to the end of `volume_get`, with what `vfs_parse_path`
has made of its path. -/
def pathStart (state : State Task) (task : Task) (call : PathCall) (parsed : Option (List UInt8)) :
    State Task :=
  match parsed with
  | none => state.enter task (.returned (.error .epath)) state.ref
  | some path =>
      match volumeGet state path with
      | none => state.enter task (.returned (.error .epath)) state.ref
      | some volume => state.enter task (.inside call volume) (volumeRef state.ref volume)

/-- The rest of a path operation, with what the operation of the volume does. -/
def pathEnd (state : State Task) (task : Task) (call : PathCall) (volume : Nat)
    (answer : Answer) : State Task :=
  if (state.volume volume).ops.path call = false then
    state.settle task (.returned (.error .eacces)) (volumeDeref state.ref volume)
  else match answer with
    | .fails left =>
        { state.settle task (.returned (.error .own)) (volumeDeref state.ref volume) with
          live := left.map (⟨·, some volume⟩) ++ state.live }
    | .succeeds name =>
        if call = .opening then
          { state.settle task (.returned (.ok ())) state.ref with
            live := ⟨name, some volume⟩ :: state.live }
        else state.settle task (.returned (.ok ())) (volumeDeref state.ref volume)

/-- `vfs_unmount` up to its test of the count. -/
def unmountStart (state : State Task) (task : Task) (label : List UInt8) : State Task :=
  match volumeNamed state label with
  | none => state.enter task (.returned (.error .epath)) state.ref
  | some volume =>
      if state.ref volume ≠ 1 then state.enter task (.returned (.error .ebusy)) state.ref
      else state.enter task (.unmounting volume) state.ref

/-- The rest of `vfs_unmount`, with whether the operation of the volume succeeds. -/
def unmountEnd (state : State Task) (task : Task) (volume : Nat) (succeeds : Bool) : State Task :=
  if (state.volume volume).ops.unmount = false then
    state.settle task (.returned (.error .eacces)) state.ref
  else if succeeds = false then state.settle task (.returned (.error .own)) state.ref
  else
    { state.settle task (.returned (.ok ())) state.ref with
      volumes := state.volumes.erase volume
      freed := volume :: state.freed }

/-- The `file_deref` that finds the count of a file at one. -/
def lastDeref (state : State Task) (file : File) : State Task :=
  { state with
    live := state.live.erase file
    ref := match file.volume with
      | none => state.ref
      | some volume => volumeDeref state.ref volume }

/-- One step of a task. -/
inductive Step : State Task → State Task → Prop where
  | attach (state : State Task) (task : Task) (label : List UInt8) (ops : VolumeOps) (name : Nat)
      (ready : (state.phase task).Ready) (unlocked : label.length < maxName → state.Unlocked)
      (new : name ∉ state.created) : Step state (vfsAttachSimple state task label ops name)
  | pathStart (state : State Task) (task : Task) (call : PathCall) (parsed : Option (List UInt8))
      (ready : (state.phase task).Ready) (unlocked : parsed ≠ none → state.Unlocked) :
      Step state (pathStart state task call parsed)
  | pathEnd (state : State Task) (task : Task) (call : PathCall) (volume : Nat)
      (answer : Answer) (running : state.phase task = .inside call volume)
      (new : ∀ file ∈ state.live, file.name ∉ answer.files) (distinct : answer.files.Nodup) :
      Step state (pathEnd state task call volume answer)
  | unmountStart (state : State Task) (task : Task) (label : List UInt8)
      (ready : (state.phase task).Ready) (unlocked : state.Unlocked) :
      Step state (unmountStart state task label)
  | unmountEnd (state : State Task) (task : Task) (volume : Nat) (succeeds : Bool)
      (running : state.phase task = .unmounting volume) :
      Step state (unmountEnd state task volume succeeds)
  /-- `file_new(NULL)`. -/
  | fileNew (state : State Task) (name : Nat) (new : ∀ file ∈ state.live, file.name ≠ name) :
      Step state { state with live := ⟨name, none⟩ :: state.live }
  | lastDeref (state : State Task) (file : File) (lives : file ∈ state.live) :
      Step state (lastDeref state file)

/-- A step in which an operation of a volume fails and leaves files that it has made. -/
def Leaks (before after : State Task) : Prop :=
  ∃ task call volume left, before.phase task = .inside call volume ∧
    (before.volume volume).ops.path call = true ∧ left ≠ [] ∧
      after = pathEnd before task call volume (.fails left)

/-- A step in which no failing operation leaves a file. -/
def CarefulStep (before after : State Task) : Prop := Step before after ∧ ¬ Leaks before after

/-- `vfs_init`: no volume and no file. -/
def Initial (state : State Task) : Prop :=
  state.volumes = [] ∧ state.created = [] ∧ state.freed = [] ∧ state.live = [] ∧
    ∀ task, state.phase task = .fresh

/-- The references to volumes: those of all live files, and that of each task. -/
def held (state : State Task) : Option Task → List Nat
  | none => state.live.filterMap File.volume
  | some task => (state.phase task).uses.toList

/-- The references after a call has begun. -/
theorem held_enter (state : State Task) (task : Task) (phase : Phase) (ref : Nat → Nat) :
    held (state.enter task phase ref) =
      Function.update (held state) (some task) phase.uses.toList := by
  funext holder
  cases holder with
  | none => rfl
  | some other =>
    by_cases same : other = task
    · subst same
      simp [held, State.enter]
    · simp [held, State.enter, same]

/-- The references after a call went on. -/
theorem held_settle (state : State Task) (task : Task) (phase : Phase) (ref : Nat → Nat) :
    held (state.settle task phase ref) =
      Function.update (held state) (some task) phase.uses.toList :=
  held_enter state task phase ref

omit [DecidableEq Task] in
/-- A task that is not in a call uses no volume. -/
theorem ready_unused (phase : Phase) (ready : phase.Ready) : phase.uses = none := by
  cases phase with
  | inside call volume => exact ready.elim
  | _ => rfl

omit [DecidableEq Task] in
/-- A task that uses no volume has no reference. -/
theorem held_unused {state : State Task} {task : Task} (unused : (state.phase task).uses = none) :
    held state (some task) = [] := by
  simp only [held, unused]
  rfl

omit [DecidableEq Task] in
/-- A path operation has the reference to its volume. -/
theorem held_inside {state : State Task} {task : Task} {call : PathCall} {volume : Nat}
    (running : state.phase task = .inside call volume) : held state (some task) = [volume] := by
  simp only [held, running]
  rfl

/-- The references stay when a task that uses no volume goes on without one. -/
theorem held_enter_unused (state : State Task) (task : Task) (phase : Phase) (ref : Nat → Nat)
    (before : (state.phase task).uses = none) (after : phase.uses = none) :
    held (state.enter task phase ref) = held state := by
  have none : phase.uses.toList = held state (some task) := by
    rw [after, held_unused before]
    rfl
  rw [held_enter, none, Function.update_eq_self]

variable [Fintype Task]

/-- The invariant. What a file or a task refers to is in the list of volumes, the
count of a volume in the list is one more than the references to it, and a volume
that is being unmounted has no others. -/
structure Counted (state : State Task) : Prop where
  distinct : state.volumes.Nodup
  known : ∀ volume ∈ state.volumes, volume ∈ state.created
  gone : ∀ volume ∈ state.freed, volume ∈ state.created ∧ volume ∉ state.volumes
  once : state.freed.Nodup
  mounted : ∀ holder, ∀ volume ∈ held state holder, volume ∈ state.volumes
  counted : ∀ volume ∈ state.volumes, state.ref volume = 1 + total (held state) volume
  locked : ∀ task volume, state.phase task = .unmounting volume →
    volume ∈ state.volumes ∧ state.ref volume = 1
  exclusive : ∀ first second volume other, state.phase first = .unmounting volume →
    state.phase second = .unmounting other → first = second

omit [DecidableEq Task] in
/-- The record of changes does not matter. -/
theorem effect_counted {state : State Task} (effect : Task → Nat → Int) (counted : Counted state) :
    Counted { state with effect := effect } :=
  ⟨counted.distinct, counted.known, counted.gone, counted.once, counted.mounted, counted.counted,
    counted.locked, counted.exclusive⟩

omit [DecidableEq Task] in
/-- While no task unmounts a volume, the invariant is about the volumes and their references only. -/
theorem Counted.of_calm {state : State Task} (nobody : ∀ task volume, state.phase task ≠ .unmounting volume)
    (distinct : state.volumes.Nodup) (known : ∀ volume ∈ state.volumes, volume ∈ state.created)
    (gone : ∀ volume ∈ state.freed, volume ∈ state.created ∧ volume ∉ state.volumes) (once : state.freed.Nodup)
    (mounted : ∀ holder, ∀ volume ∈ held state holder, volume ∈ state.volumes)
    (counted : ∀ volume ∈ state.volumes, state.ref volume = 1 + total (held state) volume) : Counted state where
  distinct := distinct
  known := known
  gone := gone
  once := once
  mounted := mounted
  counted := counted
  locked task volume holds := absurd holds (nobody task volume)
  exclusive first _ volume _ holds := absurd holds (nobody first volume)

/-- What a list of references of one holder refers to after it was replaced. -/
theorem mounted_update {state : State Task} (counted : Counted state) (holder : Option Task)
    (kept : List Nat) (keeps : ∀ volume ∈ kept, volume ∈ state.volumes) :
    ∀ other, ∀ volume ∈ Function.update (held state) holder kept other, volume ∈ state.volumes := by
  intro other volume refers
  by_cases same : other = holder
  · subst same
    rw [Function.update_self] at refers
    exact keeps volume refers
  · rw [Function.update_of_ne same] at refers
    exact counted.mounted other volume refers

omit [Fintype Task] in
/-- Who holds the lock after a task went on to a phase that does not. -/
theorem unmounting_update {state : State Task} {task : Task} {phase : Phase}
    (unlocks : ∀ volume, phase ≠ .unmounting volume) (tested : Task) (volume : Nat)
    (holds : Function.update state.phase task phase tested = .unmounting volume) :
    tested ≠ task ∧ state.phase tested = .unmounting volume := by
  by_cases same : tested = task
  · subst same
    rw [Function.update_self] at holds
    exact absurd holds (unlocks volume)
  · rw [Function.update_of_ne same] at holds
    exact ⟨same, holds⟩

/-- Two tasks that hold the lock are one, also after a task went on to a phase
that does not hold it. -/
theorem exclusive_update {state : State Task} (counted : Counted state) (task : Task) (phase : Phase)
    (unlocks : ∀ volume, phase ≠ .unmounting volume) (first second : Task) (volume other : Nat)
    (firstHolds : Function.update state.phase task phase first = .unmounting volume)
    (secondHolds : Function.update state.phase task phase second = .unmounting other) :
    first = second := by
  have firstBefore := unmounting_update unlocks first volume firstHolds
  have secondBefore := unmounting_update unlocks second other secondHolds
  exact counted.exclusive first second volume other firstBefore.2 secondBefore.2

omit [Fintype Task] in
/-- The lock stays free when a task goes on to a phase that does not hold it. -/
theorem unlocked_update (state : State Task) (unlocked : state.Unlocked) (task : Task) (phase : Phase)
    (unlocks : ∀ volume, phase ≠ .unmounting volume) (tested : Task) (volume : Nat) :
    Function.update state.phase task phase tested ≠ .unmounting volume := by
  intro holds
  have before := unmounting_update unlocks tested volume holds
  exact unlocked tested volume before.2

/-- A task goes on to a phase that uses no volume, from one that used none. -/
theorem idle_counted {state : State Task} {task : Task} (result : Except Errno Unit)
    (counted : Counted state) (unused : (state.phase task).uses = none) :
    Counted { state with phase := Function.update state.phase task (.returned result) } := by
  have same : held ({ state with
      phase := Function.update state.phase task (.returned result) } : State Task) = held state :=
    held_enter_unused state task (.returned result) state.ref unused rfl
  refine ⟨counted.distinct, counted.known, counted.gone, counted.once, ?_, ?_, ?_, ?_⟩
  · rw [same]
    exact counted.mounted
  · rw [same]
    exact counted.counted
  · intro tested volume holds
    have before := unmounting_update (by simp) tested volume holds
    exact counted.locked tested volume before.2
  · exact exclusive_update counted task _ (by simp)

omit [DecidableEq Task] in
/-- A reference that a holder has is one that the count shows besides the list's. -/
theorem shared_count (state : State Task) (counted : Counted state) (holder : Option Task)
    (volume : Nat) (refers : volume ∈ held state holder) : 2 ≤ state.ref volume := by
  have count := counted.counted volume (counted.mounted holder volume refers)
  have positive := total_pos refers
  omega

/-- The counts after a reference was given up. -/
theorem deref_counts (state : State Task) (counted : Counted state) (holder : Option Task)
    (volume : Nat) (left : List Nat) (leaves : (held state holder).Perm (volume :: left)) :
    ∀ tested ∈ state.volumes, volumeDeref state.ref volume tested =
      1 + total (Function.update (held state) holder left) tested := by
  intro tested member
  have count := counted.counted tested member
  have loss := total_loss leaves tested
  by_cases same : tested = volume
  · subst same
    rw [if_pos rfl] at loss
    rw [volumeDeref, Function.update_self]
    omega
  · rw [if_neg same] at loss
    rw [volumeDeref, Function.update_of_ne same]
    omega

omit [DecidableEq Task] in
/-- The volume that is being unmounted keeps its count when a reference to another
one is given up. -/
theorem deref_locked (state : State Task) (counted : Counted state) (holder : Option Task)
    (volume : Nat) (refers : volume ∈ held state holder) (task : Task) (unmounted : Nat)
    (holds : state.phase task = .unmounting unmounted) :
    unmounted ∈ state.volumes ∧ volumeDeref state.ref volume unmounted = 1 := by
  obtain ⟨member, single⟩ := counted.locked task unmounted holds
  have shared := shared_count state counted holder volume refers
  have different : unmounted ≠ volume := by
    rintro rfl
    omega
  refine ⟨member, ?_⟩
  rw [volumeDeref, Function.update_of_ne different]
  exact single

/-- A path operation that gives its reference back. -/
theorem release_counted {state : State Task} {task : Task} {call : PathCall} {volume : Nat}
    (result : Except Errno Unit) (counted : Counted state)
    (running : state.phase task = .inside call volume) :
    Counted (state.settle task (.returned result) (volumeDeref state.ref volume)) := by
  have mine := held_inside running
  have refers : volume ∈ held state (some task) := by
    rw [mine]
    exact List.mem_singleton_self volume
  have after := held_settle state task (.returned result) (volumeDeref state.ref volume)
  refine ⟨counted.distinct, counted.known, counted.gone, counted.once, ?_, ?_, ?_, ?_⟩
  · rw [after]
    exact mounted_update counted (some task) [] (by simp)
  · rw [after]
    exact deref_counts state counted (some task) volume [] (by rw [mine])
  · intro tested unmounted holds
    have before := unmounting_update (by simp) tested unmounted holds
    exact deref_locked state counted (some task) volume refers tested unmounted before.2
  · exact exclusive_update counted task _ (by simp)

/-- `volume_get` keeps the invariant. -/
theorem get_counted (state : State Task) (task : Task) (call : PathCall) (volume : Nat)
    (counted : Counted state) (ready : (state.phase task).Ready) (unlocked : state.Unlocked)
    (member : volume ∈ state.volumes) :
    Counted (state.enter task (.inside call volume) (volumeRef state.ref volume)) := by
  have mine := held_unused (ready_unused _ ready)
  have after : held (state.enter task (.inside call volume) (volumeRef state.ref volume)) =
      Function.update (held state) (some task) [volume] := held_enter _ _ _ _
  have nobody : ∀ tested unmounted, (state.enter task (.inside call volume)
      (volumeRef state.ref volume)).phase tested ≠ .unmounting unmounted :=
    unlocked_update state unlocked task _ (by simp)
  refine .of_calm nobody counted.distinct counted.known counted.gone counted.once ?_ ?_
  · rw [after]
    refine mounted_update counted (some task) [volume] fun tested refers => ?_
    rwa [List.mem_singleton.mp refers]
  · intro tested inside
    have count := counted.counted tested inside
    have gain := total_gain (held state) (some task) volume [volume] (by rw [mine]) tested
    rw [after, gain]
    by_cases same : tested = volume
    · subst same
      simp only [State.enter, volumeRef, Function.update_self, if_true]
      omega
    · simp only [State.enter, volumeRef, Function.update_of_ne same, same, if_false]
      omega

/-- A successful open hands its reference on to the file. -/
theorem opened_counted {state : State Task} {task : Task} {call : PathCall} (volume name : Nat)
    (counted : Counted state) (running : state.phase task = .inside call volume) :
    Counted { state.settle task (.returned (.ok ())) state.ref with
      live := ⟨name, some volume⟩ :: state.live } := by
  have mine := held_inside running
  have mounted : volume ∈ state.volumes := counted.mounted (some task) volume (by simp [mine])
  have after : held ({ state.settle task (.returned (.ok ())) state.ref with
      live := ⟨name, some volume⟩ :: state.live } : State Task) =
      Function.update (Function.update (held state) (some task) []) none
        (volume :: held state none) := by
    funext holder
    cases holder with
    | none => rfl
    | some other =>
      have settled := congrFun (held_settle state task (.returned (.ok ())) state.ref) (some other)
      rw [Function.update_of_ne (by simp)]
      exact settled
  refine ⟨counted.distinct, counted.known, counted.gone, counted.once, ?_, ?_, ?_, ?_⟩
  · intro holder tested refers
    rw [after] at refers
    cases holder with
    | none =>
      rw [Function.update_self] at refers
      rcases List.mem_cons.mp refers with rfl | before
      · exact mounted
      · exact counted.mounted none tested before
    | some other =>
      rw [Function.update_of_ne (by simp)] at refers
      exact mounted_update counted (some task) [] (by simp) (some other) tested refers
  · intro tested inside
    rw [after, total_move (held state) (some task) none volume [] (volume :: held state none)
      (by simp) (by rw [mine]) (.refl _)]
    exact counted.counted tested inside
  · intro tested unmounted holds
    have before := unmounting_update (by simp) tested unmounted holds
    exact counted.locked tested unmounted before.2
  · exact exclusive_update counted task _ (by simp)

/-- The test of `vfs_unmount` keeps the invariant. -/
theorem tested_counted {state : State Task} {task : Task} {volume : Nat} (counted : Counted state)
    (ready : (state.phase task).Ready) (unlocked : state.Unlocked)
    (member : volume ∈ state.volumes) (single : state.ref volume = 1) :
    Counted (state.enter task (.unmounting volume) state.ref) := by
  have after := held_enter_unused state task (.unmounting volume) state.ref (ready_unused _ ready) rfl
  have holder : ∀ tested unmounted,
      (state.enter task (.unmounting volume) state.ref).phase tested = .unmounting unmounted →
        tested = task ∧ unmounted = volume := by
    intro tested unmounted holds
    by_cases same : tested = task
    · subst same
      simp only [State.enter, Function.update_self, Phase.unmounting.injEq] at holds
      exact ⟨rfl, holds.symm⟩
    · simp only [State.enter, Function.update_of_ne same] at holds
      exact absurd holds (unlocked tested unmounted)
  refine ⟨counted.distinct, counted.known, counted.gone, counted.once, ?_, ?_, ?_, ?_⟩
  · rw [after]
    exact counted.mounted
  · rw [after]
    exact counted.counted
  · intro tested unmounted holds
    obtain ⟨-, rfl⟩ := holder tested unmounted holds
    exact ⟨member, single⟩
  · intro first second unmounted other firstHolds secondHolds
    rw [(holder first unmounted firstHolds).1, (holder second other secondHolds).1]

/-- The end of a successful `vfs_unmount` keeps the invariant: nothing refers to
the volume that is freed. -/
theorem unmounted_counted {state : State Task} {task : Task} {volume : Nat}
    (counted : Counted state) (running : state.phase task = .unmounting volume) :
    Counted { state with
      phase := Function.update state.phase task (.returned (.ok ()))
      volumes := state.volumes.erase volume
      freed := volume :: state.freed } := by
  obtain ⟨member, single⟩ := counted.locked task volume running
  have count := counted.counted volume member
  have unused := (total_eq_zero_iff (held state) volume).mp (by omega)
  have idle := idle_counted (.ok ()) counted (by rw [running]; rfl)
  have inList : ∀ tested ∈ state.volumes.erase volume, tested ∈ state.volumes :=
    fun tested => List.mem_of_mem_erase
  have nobody : ∀ tested unmounted,
      Function.update state.phase task (.returned (.ok ())) tested ≠ .unmounting unmounted := by
    intro tested unmounted holds
    obtain ⟨different, before⟩ := unmounting_update (by simp) tested unmounted holds
    exact different (counted.exclusive tested task unmounted volume before running)
  refine .of_calm nobody (counted.distinct.erase volume)
    (fun tested inside => counted.known tested (inList tested inside)) ?_ ?_ ?_ ?_
  · intro tested freed
    rcases List.mem_cons.mp freed with rfl | before
    · exact ⟨counted.known tested member, counted.distinct.not_mem_erase⟩
    · exact ⟨(counted.gone tested before).1, fun inside =>
        (counted.gone tested before).2 (inList tested inside)⟩
  · exact List.nodup_cons.mpr ⟨fun freed => (counted.gone volume freed).2 member, counted.once⟩
  · intro holder tested refers
    refine (List.mem_erase_of_ne ?_).mpr (idle.mounted holder tested refers)
    rintro rfl
    cases holder with
    | none => exact unused none refers
    | some other =>
      by_cases same : other = task
      · subst same
        simp [held, Phase.uses] at refers
      · simp only [held, Function.update_of_ne same] at refers
        exact unused (some other) refers
  · intro tested inside
    exact idle.counted tested (inList tested inside)

/-- The end of a successful `vfs_attach_simple` keeps the invariant. -/
theorem attached_counted (state : State Task) (task : Task) (added : Volume) (name : Nat)
    (counted : Counted state) (ready : (state.phase task).Ready) (unlocked : state.Unlocked)
    (new : name ∉ state.created) :
    Counted { state with
      phase := Function.update state.phase task (.returned (.ok ()))
      ref := Function.update state.ref name 1
      volumes := state.volumes ++ [name]
      volume := Function.update state.volume name added
      created := name :: state.created } := by
  have idle := idle_counted (.ok ()) counted (ready_unused _ ready)
  have notMounted : name ∉ state.volumes := fun member => new (counted.known name member)
  have nobody : ∀ tested unmounted,
      Function.update state.phase task (.returned (.ok ())) tested ≠ .unmounting unmounted :=
    unlocked_update state unlocked task _ (by simp)
  refine .of_calm nobody ?_ ?_ ?_ counted.once ?_ ?_
  · refine List.nodup_append.mpr ⟨counted.distinct, List.nodup_singleton name, ?_⟩
    intro tested member other isNew same
    rw [List.mem_singleton.mp isNew] at same
    exact notMounted (same ▸ member)
  · intro tested inside
    rcases List.mem_append.mp inside with before | isNew
    · exact List.mem_cons_of_mem _ (counted.known tested before)
    · rw [List.mem_singleton.mp isNew]
      exact List.mem_cons_self
  · intro tested freed
    obtain ⟨created, removed⟩ := counted.gone tested freed
    refine ⟨List.mem_cons_of_mem _ created, fun inside => ?_⟩
    rcases List.mem_append.mp inside with before | isNew
    · exact removed before
    · exact new (List.mem_singleton.mp isNew ▸ created)
  · intro holder tested refers
    exact List.mem_append_left _ (idle.mounted holder tested refers)
  · intro tested inside
    rcases List.mem_append.mp inside with before | isNew
    · have different : tested ≠ name := by
        rintro rfl
        exact notMounted before
      simp only [Function.update_of_ne different]
      exact idle.counted tested before
    · obtain rfl := List.mem_singleton.mp isNew
      have unused := (total_eq_zero_iff (held ({ state with
        phase := Function.update state.phase task (.returned (.ok ())) } : State Task)) tested).mpr
          fun holder refers => notMounted (idle.mounted holder tested refers)
      simp only [Function.update_self]
      exact congrArg (1 + ·) unused.symm

/-- The end of a file keeps the invariant. -/
theorem lastDeref_counted (state : State Task) (file : File) (counted : Counted state)
    (lives : file ∈ state.live) : Counted (lastDeref state file) := by
  have order : (held state none).Perm ((file :: state.live.erase file).filterMap File.volume) :=
    (List.perm_cons_erase lives).filterMap File.volume
  have after : held (lastDeref state file) = Function.update (held state) none
      ((state.live.erase file).filterMap File.volume) := by
    funext holder
    cases holder with
    | none => rfl
    | some other => rfl
  have fewer : ∀ volume ∈ (state.live.erase file).filterMap File.volume,
      volume ∈ state.volumes := by
    intro volume refers
    obtain ⟨other, member, field⟩ := List.mem_filterMap.mp refers
    exact counted.mounted none volume
      (List.mem_filterMap.mpr ⟨other, List.mem_of_mem_erase member, field⟩)
  refine ⟨counted.distinct, counted.known, counted.gone, counted.once, ?_, ?_, ?_,
    counted.exclusive⟩
  · rw [after]
    exact mounted_update counted none _ fewer
  · intro tested inside
    rw [after]
    cases field : file.volume with
    | none =>
      rw [List.filterMap_cons_none field] at order
      have changed := total_update (held state) none
        ((state.live.erase file).filterMap File.volume) tested
      rw [order.count_eq] at changed
      simp only [lastDeref, field]
      have count := counted.counted tested inside
      omega
    | some volume =>
      rw [List.filterMap_cons_some field] at order
      simp only [lastDeref, field]
      exact deref_counts state counted none volume _ order tested inside
  · intro tested unmounted holds
    simp only [lastDeref]
    cases field : file.volume with
    | none => exact counted.locked tested unmounted holds
    | some volume =>
      exact deref_locked state counted none volume (List.mem_filterMap.mpr ⟨file, lives, field⟩)
        tested unmounted holds

omit [Fintype Task] in
/-- The end of a path operation whose operation fails. -/
theorem pathEnd_fails (state : State Task) (task : Task) (call : PathCall) (volume : Nat) (left : List Nat)
    (present : (state.volume volume).ops.path call = true) :
    pathEnd state task call volume (.fails left) =
      { state.settle task (.returned (.error .own)) (volumeDeref state.ref volume) with
        live := left.map (⟨·, some volume⟩) ++ state.live } := by
  rw [pathEnd, if_neg (by simp [present])]

omit [Fintype Task] in
/-- The end of a path operation whose operation succeeds. -/
theorem pathEnd_succeeds (state : State Task) (task : Task) (call : PathCall) (volume name : Nat)
    (present : (state.volume volume).ops.path call = true) :
    pathEnd state task call volume (.succeeds name) =
      if call = .opening then
        { state.settle task (.returned (.ok ())) state.ref with
          live := ⟨name, some volume⟩ :: state.live }
      else state.settle task (.returned (.ok ())) (volumeDeref state.ref volume) := by
  rw [pathEnd, if_neg (by simp [present])]

omit [Fintype Task] in
/-- After a step that leaves files some call has failed. -/
theorem Leaks.fails {before after : State Task} (leaks : Leaks before after) :
    ∃ task, after.phase task = .returned (.error .own) := by
  obtain ⟨task, call, volume, left, -, present, -, rfl⟩ := leaks
  rw [pathEnd_fails _ _ _ _ _ present]
  exact ⟨task, Function.update_self task _ _⟩

/-- Every step in which no failing operation leaves a file keeps the invariant. -/
theorem step_counted (before after : State Task) (counted : Counted before)
    (taken : CarefulStep before after) : Counted after := by
  obtain ⟨taken, careful⟩ := taken
  cases taken with
  | attach task label ops name ready unlocked new =>
    have unused := ready_unused _ ready
    rw [vfsAttachSimple]
    split
    · exact effect_counted _ (idle_counted _ counted unused)
    · rename_i short
      split
      · exact effect_counted _ (idle_counted _ counted unused)
      · exact effect_counted _
          (attached_counted before task _ name counted ready (unlocked (by omega)) new)
  | pathStart task call parsed ready unlocked =>
    have unused := ready_unused _ ready
    cases parsed with
    | none => exact effect_counted _ (idle_counted _ counted unused)
    | some path =>
      simp only [pathStart]
      cases found : volumeGet before path with
      | none => exact effect_counted _ (idle_counted _ counted unused)
      | some volume =>
        exact get_counted before task call volume counted ready (unlocked (by simp))
          (List.mem_of_find?_eq_some found)
  | pathEnd task call volume answer running new distinct =>
    cases present : (before.volume volume).ops.path call with
    | false =>
      rw [pathEnd.eq_def, if_pos present]
      exact release_counted _ counted running
    | true =>
      cases answer with
      | fails left =>
        have none : left = [] :=
          not_not.mp fun some => careful ⟨task, call, volume, left, running, present, some, rfl⟩
        subst none
        rw [pathEnd_fails _ _ _ _ _ present]
        exact release_counted _ counted running
      | succeeds name =>
        rw [pathEnd_succeeds _ _ _ _ _ present]
        split
        · exact opened_counted volume _ counted running
        · exact release_counted _ counted running
  | unmountStart task label ready unlocked =>
    have unused := ready_unused _ ready
    rw [unmountStart]
    cases found : volumeNamed before label with
    | none => exact effect_counted _ (idle_counted _ counted unused)
    | some volume =>
      simp only
      split
      · exact effect_counted _ (idle_counted _ counted unused)
      · rename_i single
        exact tested_counted counted ready unlocked
          (List.mem_of_find?_eq_some found) (not_not.mp single)
  | unmountEnd task volume succeeds running =>
    have unused : (before.phase task).uses = none := by
      rw [running]
      rfl
    rw [unmountEnd]
    split
    · exact effect_counted _ (idle_counted _ counted unused)
    · split
      · exact effect_counted _ (idle_counted _ counted unused)
      · exact effect_counted _ (unmounted_counted counted running)
  | fileNew name new =>
    exact ⟨counted.distinct, counted.known, counted.gone, counted.once, counted.mounted,
      counted.counted, counted.locked, counted.exclusive⟩
  | lastDeref file lives => exact lastDeref_counted before file counted lives

/-- Number of live files whose field `volume` is a volume. -/
def liveFiles (state : State Task) (volume : Nat) : Nat :=
  state.live.countP (fun file => file.volume = some volume)

/-- Number of path operations between `volume_get` and `volume_deref` of a volume. -/
def pathOperations (state : State Task) (volume : Nat) : Nat :=
  ∑ task, if (state.phase task).uses = some volume then 1 else 0

omit [DecidableEq Task] in
/-- The references to a volume are those of files and those of path operations. -/
theorem total_eq_uses (state : State Task) (volume : Nat) :
    total (held state) volume = liveFiles state volume + pathOperations state volume := by
  have files : (held state none).count volume = liveFiles state volume := by
    rw [held, liveFiles, List.count_filterMap]
    congr 1
    funext file
    exact Bool.beq_eq_decide_eq _ _
  have tasks : ∀ task, (held state (some task)).count volume =
      if (state.phase task).uses = some volume then 1 else 0 := by
    intro task
    rw [held]
    cases (state.phase task).uses with
    | none => simp
    | some other =>
      by_cases same : other = volume
      · simp [same]
      · simp [same]
  rw [total, Fintype.sum_option, files, pathOperations]
  congr 1
  exact Finset.sum_congr rfl fun task _ => tasks task

/-- The count of each volume in the list is one more than its live files and the path operations
on it. -/
def Exact (state : State Task) : Prop :=
  ∀ volume ∈ state.volumes, state.ref volume = 1 + liveFiles state volume + pathOperations state volume

omit [DecidableEq Task] in
/-- The counts of the invariant are exact. -/
theorem Counted.exact {state : State Task} (counted : Counted state) : Exact state := by
  intro volume member
  rw [Nat.add_assoc, ← total_eq_uses]
  exact counted.counted volume member

/-- No volume and no file, with one task to come. -/
def emptyState : State Unit where
  volumes := []
  volume := fun _ => ⟨[], ⟨false, fun _ => false⟩⟩
  ref := fun _ => 0
  created := []
  freed := []
  live := []
  phase := fun _ => .fresh
  effect := fun _ _ => 0

end Asym.VolumeLifetimes
