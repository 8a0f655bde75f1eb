import Asym.FileTables
import Asym.References
import Mathlib.Algebra.BigOperators.Fin

/-!
# The lifetime of files

Any number of kernel tasks work on the descriptor tables of any number of
processes. The functions of `vfs_context.c` are cut into their atomic steps: the
change of a count, the write of a slot. A table is locked from the first step of
an operation on it to the last. A task keeps the temporary references that
`file_new` and `vfs_context_get` gave it until `file_deref` takes them back, in
whatever order the system calls do so.

When a process ends, its table is gone and `vfs_context_cleanup` is left with the
references of its slots, which it gives up one after the other. No thread of the
process is left then, so no operation on the table is under way.

References are counted as in `References`, with slots and tasks as holders.
-/

namespace Asym.FileLifetimes

open FileTables References Runs

/-- What a task is in the middle of. -/
inductive Activity (Process : Type) where
  /-- Between operations on files. -/
  | between
  /-- In `vfs_context_open` or `vfs_context_openat`: the reference is taken and
  the slot is not yet written. -/
  | storing (process : Process) (fd : Fin configMaxFd) (file : Nat)
  /-- In `vfs_context_close`: the slot is cleared and the reference is not yet
  given up. -/
  | closing (process : Process) (file : Nat)
  /-- In `vfs_context_cleanup`, with the references still to be given up. -/
  | cleaning (files : List Nat)

/-- The table that an activity has locked. -/
def Activity.locks {Process : Type} : Activity Process → Option Process
  | .between => none
  | .storing process _ _ => some process
  | .closing process _ => some process
  | .cleaning _ => none

/-- The references that an activity is about to hand on or give up. -/
def Activity.references {Process : Type} : Activity Process → List Nat
  | .between => []
  | .storing _ _ file => [file]
  | .closing _ file => [file]
  | .cleaning files => files

/-- Files, the tables of the processes that exist, and what the tasks do. -/
structure State (Process Task : Type) where
  files : Files
  created : List Nat
  tables : Process → Option Slots
  activity : Task → Activity Process
  temporary : Task → List Nat

variable {Process Task : Type}

/-- The content of a slot. A process without a table has no slots. -/
def State.slot (state : State Process Task) (process : Process) (fd : Nat) : Option Nat :=
  (state.tables process).bind (fun slots => slots fd)

/-- No operation on a table is under way. -/
def State.Unlocked (state : State Process Task) (process : Process) : Prop :=
  ∀ task, (state.activity task).locks ≠ some process

/-- The references that a task holds. -/
def State.references (state : State Process Task) (task : Task) : List Nat :=
  state.temporary task ++ (state.activity task).references

/-- The references of the slots of a table, in the order of the descriptors. -/
def slotReferences (slots : Slots) : List Nat :=
  (List.finRange configMaxFd).flatMap (fun fd => (slots fd).toList)

variable [DecidableEq Process] [DecidableEq Task]

/-- Change what a task does. -/
def State.turn (state : State Process Task) (task : Task) (activity : Activity Process) :
    State Process Task :=
  { state with activity := Function.update state.activity task activity }

/-- Change the temporary references of a task. -/
def State.keep (state : State Process Task) (task : Task) (files : List Nat) :
    State Process Task :=
  { state with temporary := Function.update state.temporary task files }

/-- Write a slot of an existing table. -/
def State.write (state : State Process Task) (process : Process) (fd : Nat)
    (content : Option Nat) : State Process Task :=
  { state with
    tables := Function.update state.tables process
      ((state.tables process).map (fun slots => Function.update slots fd content)) }

/-- One atomic step of a task. -/
inductive Step (task : Task) : State Process Task → State Process Task → Prop where
  /-- `process_new` with `vfs_context_init`. -/
  | start (state : State Process Task) (process : Process) (behind : Slots)
      (absent : state.tables process = none) :
      Step task state { state with
        tables := Function.update state.tables process (some (vfsContextInit behind)) }
  /-- `file_new`. -/
  | create (state : State Process Task) (file : Nat) (fresh : file ∉ state.created) :
      Step task state { state.keep task (file :: state.temporary task) with
        files := fileNew state.files file
        created := file :: state.created }
  /-- `vfs_context_get` on an occupied slot of the table. -/
  | get (state : State Process Task) (process : Process) (fd : Fin configMaxFd) (file : Nat)
      (unlocked : state.Unlocked process) (found : state.slot process fd = some file) :
      Step task state { state.keep task (file :: state.temporary task) with
        files := fileRef state.files file }
  /-- The search of `vfs_context_open` and its `file_ref`. -/
  | openRef (state : State Process Task) (process : Process) (slots : Slots)
      (fd : Fin configMaxFd) (file : Nat) (idle : state.activity task = .between)
      (unlocked : state.Unlocked process) (existing : state.tables process = some slots)
      (found : (openFrom slots 0 configMaxFd).1 = some fd.val)
      (held : file ∈ state.temporary task) :
      Step task state { state.turn task (.storing process fd file) with
        files := fileRef state.files file }
  /-- The tests of `vfs_context_openat` and its `file_ref`. -/
  | openatRef (state : State Process Task) (process : Process) (slots : Slots)
      (fd : Fin configMaxFd) (file : Nat) (idle : state.activity task = .between)
      (unlocked : state.Unlocked process) (existing : state.tables process = some slots)
      (empty : slots fd = none) (held : file ∈ state.temporary task) :
      Step task state { state.turn task (.storing process fd file) with
        files := fileRef state.files file }
  /-- The write of the slot in `vfs_context_open` and `vfs_context_openat`. -/
  | store (state : State Process Task) (process : Process) (fd : Fin configMaxFd) (file : Nat)
      (storing : state.activity task = .storing process fd file) :
      Step task state ((state.turn task .between).write process fd (some file))
  /-- The write of the slot in `vfs_context_close`. -/
  | clear (state : State Process Task) (process : Process) (fd : Fin configMaxFd) (file : Nat)
      (idle : state.activity task = .between) (unlocked : state.Unlocked process)
      (found : state.slot process fd = some file) :
      Step task state ((state.turn task (.closing process file)).write process fd none)
  /-- The `file_deref` of `vfs_context_close`. -/
  | closeDeref (state : State Process Task) (process : Process) (file : Nat)
      (closing : state.activity task = .closing process file) :
      Step task state { state.turn task .between with files := fileDeref state.files file }
  /-- The `file_deref` of a temporary reference, as `FILE_DEFER` and `syscall_poll`
  do. -/
  | release (state : State Process Task) (file : Nat) (held : file ∈ state.temporary task) :
      Step task state { state.keep task ((state.temporary task).erase file) with
        files := fileDeref state.files file }
  /-- The last thread of a process is freed: `process_free` calls
  `vfs_context_cleanup`. -/
  | finish (state : State Process Task) (process : Process) (slots : Slots)
      (idle : state.activity task = .between) (unlocked : state.Unlocked process)
      (existing : state.tables process = some slots) :
      Step task state { state.turn task (.cleaning (slotReferences slots)) with
        tables := Function.update state.tables process none }
  /-- The next `file_deref` of `vfs_context_cleanup`. -/
  | cleanupDeref (state : State Process Task) (file : Nat) (rest : List Nat)
      (cleaning : state.activity task = .cleaning (file :: rest)) :
      Step task state { state.turn task (.cleaning rest) with files := fileDeref state.files file }
  /-- The end of `vfs_context_cleanup`. -/
  | cleanupEnd (state : State Process Task) (cleaning : state.activity task = .cleaning []) :
      Step task state (state.turn task .between)

/-- A step of any task. -/
def AnyStep (before after : State Process Task) : Prop := ∃ task, Step task before after

/-- No file, no process. -/
def Initial (state : State Process Task) : Prop :=
  state.created = [] ∧ state.files.freed = [] ∧ (∀ process, state.tables process = none) ∧
    ∀ task, state.activity task = .between ∧ state.temporary task = []

/-- Who holds references: slots and tasks. -/
abbrev Holder (Process Task : Type) := (Process × Fin configMaxFd) ⊕ Task

/-- The references that slots and tasks hold. -/
def held (state : State Process Task) : Holder Process Task → List Nat
  | .inl (process, fd) => (state.slot process fd).toList
  | .inr task => state.references task

/-- Slots and tasks with the counts of the files. -/
def counts (state : State Process Task) : Store (Holder Process Task) Nat where
  held := held state
  count := state.files.ref
  created := state.created
  finished := state.files.freed

/-- What the lock of a table protects: one operation at a time, and the slot to be
written stays empty. -/
structure Guarded (state : State Process Task) : Prop where
  exclusive : ∀ first second process, (state.activity first).locks = some process →
    (state.activity second).locks = some process → first = second
  ready : ∀ task process fd file, state.activity task = .storing process fd file →
    ∃ slots, state.tables process = some slots ∧ slots fd = none

/-- The references after the temporary ones of a task are changed. -/
theorem held_keep (state : State Process Task) (task : Task) (files : List Nat) :
    held (state.keep task files) = Function.update (held state) (.inr task)
      (files ++ (state.activity task).references) := by
  funext holder
  rcases holder with ⟨process, fd⟩ | other
  · rfl
  · by_cases same : other = task
    · subst same
      simp [held, State.references, State.keep]
    · simp [held, State.references, State.keep, same]

/-- The references after a task turned to something else. -/
theorem held_turn (state : State Process Task) (task : Task) (activity : Activity Process) :
    held (state.turn task activity) = Function.update (held state) (.inr task)
      (state.temporary task ++ activity.references) := by
  funext holder
  rcases holder with ⟨process, fd⟩ | other
  · rfl
  · by_cases same : other = task
    · subst same
      simp [held, State.references, State.turn]
    · simp [held, State.references, State.turn, same]

/-- The references after a slot is written. -/
theorem held_write (state : State Process Task) (process : Process) (fd : Fin configMaxFd)
    (content : Option Nat) (slots : Slots) (existing : state.tables process = some slots) :
    held (state.write process fd content) =
      Function.update (held state) (.inl (process, fd)) content.toList := by
  funext holder
  rcases holder with ⟨other, tested⟩ | task
  · by_cases sameProcess : other = process
    · subst sameProcess
      by_cases sameSlot : tested = fd
      · subst sameSlot
        simp [held, State.slot, State.write, existing]
      · simp [held, State.slot, State.write, existing, sameSlot, Fin.val_inj]
    · simp [held, State.slot, State.write, sameProcess]
  · simp [held, State.references, State.write]

variable [Fintype Process] [Fintype Task]

/-- Taking a temporary reference to a file that somebody holds. -/
theorem keep_counts (state : State Process Task) (task : Task) (owner : Holder Process Task)
    (file : Nat) (refers : file ∈ held state owner) :
    References.Step (counts state) (counts { state.keep task (file :: state.temporary task) with
      files := fileRef state.files file }) := by
  have taken := References.Step.share (counts state) owner (.inr task) file
    (file :: state.references task) refers (.refl _)
  have same : held (state.keep task (file :: state.temporary task)) =
      Function.update (held state) (.inr task) (file :: state.references task) := by
    rw [held_keep]
    rfl
  simp only [counts] at taken ⊢
  rwa [← same] at taken

/-- The `file_ref` of an operation that stores the file. -/
theorem storing_counts {state : State Process Task} {task : Task} (process : Process)
    (fd : Fin configMaxFd) (file : Nat) (idle : state.activity task = .between)
    (refers : file ∈ state.temporary task) :
    References.Step (counts state) (counts { state.turn task (.storing process fd file) with
      files := fileRef state.files file }) := by
  have here : file ∈ held state (.inr task) := List.mem_append_left _ refers
  have taken := References.Step.share (counts state) (.inr task) (.inr task) file
    (state.temporary task ++ [file]) here (by
      simp only [counts, held, State.references, idle, Activity.references, List.append_nil]
      exact List.perm_append_singleton _ _)
  have same : held (state.turn task (.storing process fd file)) =
      Function.update (held state) (.inr task) (state.temporary task ++ [file]) := held_turn _ _ _
  simp only [counts] at taken ⊢
  rwa [← same] at taken

/-- A `file_deref` at the end of which the task does something else. -/
theorem deref_counts (state : State Process Task) (task : Task) (activity : Activity Process)
    (file : Nat)
    (gives : (state.activity task).references = file :: activity.references) :
    References.Step (counts state) (counts { state.turn task activity with
      files := fileDeref state.files file }) := by
  have taken := References.Step.release (counts state) (.inr task) file
    (state.temporary task ++ activity.references) (by
      simp only [counts, held, State.references, gives]
      exact List.perm_middle)
  have same : held (state.turn task activity) =
      Function.update (held state) (.inr task) (state.temporary task ++ activity.references) :=
    held_turn _ _ _
  simp only [counts, Store.drop] at taken ⊢
  rwa [← same] at taken

/-- A `file_deref` of a temporary reference. -/
theorem release_counts {state : State Process Task} {task : Task} {file : Nat}
    (refers : file ∈ state.temporary task) :
    References.Step (counts state) (counts { state.keep task ((state.temporary task).erase file) with
      files := fileDeref state.files file }) := by
  have taken := References.Step.release (counts state) (.inr task) file
    ((state.temporary task).erase file ++ (state.activity task).references) (by
      simp only [counts, held, State.references]
      exact (List.perm_cons_erase refers).append_right _)
  have same := held_keep state task ((state.temporary task).erase file)
  simp only [counts, Store.drop] at taken ⊢
  rwa [← same] at taken

/-- The write of a slot hands the reference over to the slot. -/
theorem store_counts (state : State Process Task) (task : Task) (process : Process)
    (fd : Fin configMaxFd) (file : Nat) (slots : Slots)
    (storing : state.activity task = .storing process fd file)
    (existing : state.tables process = some slots) (empty : slots fd = none) :
    References.Step (counts state)
      (counts ((state.turn task .between).write process fd (some file))) := by
  have same : held ((state.turn task .between).write process fd (some file)) =
      Function.update (Function.update (held state) (.inr task) (state.temporary task))
        (.inl (process, fd)) [file] := by
    rw [held_write (state.turn task .between) process fd (some file) slots existing, held_turn]
    simp [Activity.references]
  have moved := total_move (held state) (.inr task) (.inl (process, fd)) file (state.temporary task)
    [file] (by simp) (by
      simp only [held, State.references, storing, Activity.references]
      exact List.perm_append_singleton _ _) (by
      simp [held, State.slot, existing, empty])
  rw [← same] at moved
  exact References.Step.regroup (counts state) _ moved

/-- Clearing a slot hands its reference over to the task. -/
theorem clear_counts {state : State Process Task} {task : Task} {process : Process}
    {fd : Fin configMaxFd} {file : Nat} (idle : state.activity task = .between)
    (found : state.slot process fd = some file) :
    References.Step (counts state)
      (counts ((state.turn task (.closing process file)).write process fd none)) := by
  obtain ⟨slots, existing, -⟩ := Option.bind_eq_some_iff.mp found
  have same : held ((state.turn task (.closing process file)).write process fd none) =
      Function.update (Function.update (held state) (.inl (process, fd)) []) (.inr task)
        (state.temporary task ++ [file]) := by
    rw [held_write (state.turn task (.closing process file)) process fd none slots existing,
      held_turn, Function.update_comm (by simp)]
    rfl
  have moved := total_move (held state) (.inl (process, fd)) (.inr task) file []
    (state.temporary task ++ [file]) (by simp) (by simp [held, found]) (by
      simp only [held, State.references, idle, Activity.references, List.append_nil]
      exact List.perm_append_singleton _ _)
  rw [← same] at moved
  exact References.Step.regroup (counts state) _ moved

omit [DecidableEq Process] [DecidableEq Task] in
/-- The references, those of the slots and those of the tasks. -/
theorem total_held (state : State Process Task) (file : Nat) :
    total (held state) file =
      (∑ process, ∑ fd : Fin configMaxFd, (state.slot process fd).toList.count file) +
        ∑ task, (state.references task).count file := by
  rw [total, Fintype.sum_sum_type, Fintype.sum_prod_type]
  rfl

/-- The references of the slots of a table, counted. -/
theorem slotReferences_count (slots : Slots) (file : Nat) :
    (slotReferences slots).count file =
      ∑ fd : Fin configMaxFd, (slots fd).toList.count file := by
  rw [slotReferences, List.count_flatMap, Fin.sum_univ_def]
  rfl

/-- The end of a process hands the references of its slots over to the task. -/
theorem finish_counts {state : State Process Task} {task : Task} {process : Process}
    {slots : Slots} (idle : state.activity task = .between)
    (existing : state.tables process = some slots) :
    References.Step (counts state) (counts { state.turn task (.cleaning (slotReferences slots)) with
      tables := Function.update state.tables process none }) := by
  refine References.Step.regroup (counts state) _ fun file => ?_
  simp only [counts]
  rw [total_held, total_held, ← Finset.add_sum_erase _ _ (Finset.mem_univ process),
    ← Finset.add_sum_erase _ (fun tested => ∑ fd : Fin configMaxFd,
      (state.slot tested fd).toList.count file) (Finset.mem_univ process),
    ← Finset.add_sum_erase _ _ (Finset.mem_univ task),
    ← Finset.add_sum_erase _ (fun tested => (state.references tested).count file)
      (Finset.mem_univ task)]
  have others : ∀ tested ∈ Finset.univ.erase process, ∑ fd : Fin configMaxFd,
      (({ state.turn task (.cleaning (slotReferences slots)) with
        tables := Function.update state.tables process none } :
          State Process Task).slot tested fd).toList.count file =
      ∑ fd : Fin configMaxFd, (state.slot tested fd).toList.count file := by
    intro tested member
    simp [State.slot, Finset.ne_of_mem_erase member]
  have otherTasks : ∀ tested ∈ Finset.univ.erase task,
      (({ state.turn task (.cleaning (slotReferences slots)) with
        tables := Function.update state.tables process none } :
          State Process Task).references tested).count file =
      (state.references tested).count file := by
    intro tested member
    simp [State.references, State.turn, Finset.ne_of_mem_erase member]
  rw [Finset.sum_congr rfl others, Finset.sum_congr rfl otherTasks]
  have mine : (({ state.turn task (.cleaning (slotReferences slots)) with
        tables := Function.update state.tables process none } :
          State Process Task).references task).count file =
      (state.references task).count file + (slotReferences slots).count file := by
    simp [State.references, State.turn, Activity.references, idle]
  have gone : ∑ fd : Fin configMaxFd, (({ state.turn task (.cleaning (slotReferences slots)) with
        tables := Function.update state.tables process none } :
          State Process Task).slot process fd).toList.count file = 0 := by
    simp [State.slot]
  have before : ∑ fd : Fin configMaxFd, (state.slot process fd).toList.count file =
      (slotReferences slots).count file := by
    rw [slotReferences_count]
    simp [State.slot, existing]
  rw [mine, gone, before]
  omega

/-- Every step is a run of operations on references. -/
theorem step_counts (task : Task) (before after : State Process Task) (guarded : Guarded before)
    (taken : Step task before after) :
    Relation.ReflTransGen References.Step (counts before) (counts after) := by
  cases taken with
  | start process behind absent =>
    have same : held { before with
        tables := Function.update before.tables process (some (vfsContextInit behind)) } =
        held before := by
      funext holder
      rcases holder with ⟨other, fd⟩ | other
      · by_cases here : other = process
        · subst here
          simp [held, State.slot, absent, vfsContextInit]
        · simp [held, State.slot, here]
      · rfl
    simp only [counts, same]
    exact .refl
  | create file fresh =>
    have created := References.Step.create (counts before) (.inr task) file
      (file :: before.references task) fresh (.refl _)
    have same : held (before.keep task (file :: before.temporary task)) =
        Function.update (held before) (.inr task) (file :: before.references task) := by
      rw [held_keep]
      rfl
    simp only [counts] at created ⊢
    rw [← same] at created
    exact .single created
  | get process fd file unlocked found =>
    exact .single (keep_counts before task (.inl (process, fd)) file (by simp [held, found]))
  | openRef process slots fd file idle unlocked existing found refers =>
    exact .single (storing_counts process fd file idle refers)
  | openatRef process slots fd file idle unlocked existing empty refers =>
    exact .single (storing_counts process fd file idle refers)
  | store process fd file storing =>
    obtain ⟨slots, existing, empty⟩ := guarded.ready task process fd file storing
    exact .single (store_counts before task process fd file slots storing existing empty)
  | clear process fd file idle unlocked found =>
    exact .single (clear_counts idle found)
  | closeDeref process file closing =>
    exact .single (deref_counts before task .between file (by rw [closing]; rfl))
  | release file refers => exact .single (release_counts refers)
  | finish process slots idle unlocked existing =>
    exact .single (finish_counts idle existing)
  | cleanupDeref file rest cleaning =>
    exact .single (deref_counts before task (.cleaning rest) file (by rw [cleaning]; rfl))
  | cleanupEnd cleaning =>
    have same : held (before.turn task .between) = held before := by
      rw [held_turn, Function.update_eq_self_iff]
      simp [held, State.references, cleaning, Activity.references]
    have unchanged : counts (before.turn task .between) = counts before := by
      rw [counts, same]
      rfl
    rw [unchanged]

omit [Fintype Process] [Fintype Task] [DecidableEq Process] in
/-- A task that takes or keeps a lock leaves the locks exclusive if no other task
has the lock. -/
theorem exclusive_turn {state : State Process Task} {task : Task} {activity : Activity Process}
    (guarded : Guarded state)
    (alone : ∀ process, activity.locks = some process → ∀ other ≠ task,
      (state.activity other).locks ≠ some process) :
    ∀ first second process, ((state.turn task activity).activity first).locks = some process →
      ((state.turn task activity).activity second).locks = some process → first = second := by
  intro first second process lockFirst lockSecond
  simp only [State.turn] at lockFirst lockSecond
  by_cases isFirst : first = task
  · by_cases isSecond : second = task
    · rw [isFirst, isSecond]
    · rw [isFirst, Function.update_self] at lockFirst
      rw [Function.update_of_ne isSecond] at lockSecond
      exact absurd lockSecond (alone process lockFirst second isSecond)
  · rw [Function.update_of_ne isFirst] at lockFirst
    by_cases isSecond : second = task
    · rw [isSecond, Function.update_self] at lockSecond
      exact absurd lockFirst (alone process lockSecond first isFirst)
    · rw [Function.update_of_ne isSecond] at lockSecond
      exact guarded.exclusive first second process lockFirst lockSecond

omit [Fintype Process] [Fintype Task] [DecidableEq Process] in
/-- A storing task after another task turned to something that is not storing. -/
theorem storing_turn {state : State Process Task} {task tested : Task}
    {activity : Activity Process} {process : Process} {fd : Fin configMaxFd} {file : Nat}
    (other : ∀ process fd file, activity ≠ .storing process fd file)
    (storing : (state.turn task activity).activity tested = .storing process fd file) :
    tested ≠ task ∧ state.activity tested = .storing process fd file := by
  simp only [State.turn] at storing
  by_cases same : tested = task
  · rw [same, Function.update_self] at storing
    exact absurd storing (other process fd file)
  · rw [Function.update_of_ne same] at storing
    exact ⟨same, storing⟩

omit [Fintype Process] [Fintype Task] [DecidableEq Process] in
/-- Taking a lock on an existing table in order to store into an empty slot. -/
theorem storing_guarded {state : State Process Task} (task : Task) (process : Process)
    (slots : Slots) (fd : Fin configMaxFd) (file : Nat) (files : Files) (guarded : Guarded state)
    (unlocked : state.Unlocked process) (existing : state.tables process = some slots)
    (empty : slots fd = none) :
    Guarded { state.turn task (.storing process fd file) with files := files } := by
  refine ⟨exclusive_turn guarded ?_, ?_⟩
  · rintro locked same other -
    rw [Activity.locks, Option.some.injEq] at same
    exact same ▸ unlocked other
  · intro tested other slot stored storing
    simp only [State.turn] at storing
    by_cases same : tested = task
    · rw [same, Function.update_self, Activity.storing.injEq] at storing
      obtain ⟨rfl, rfl, rfl⟩ := storing
      exact ⟨slots, existing, empty⟩
    · rw [Function.update_of_ne same] at storing
      exact guarded.ready tested other slot stored storing

omit [Fintype Process] [Fintype Task] [DecidableEq Process] in
/-- A task that turns to something without a lock. -/
theorem unlock_guarded {state : State Process Task} (task : Task) (activity : Activity Process)
    (files : Files) (guarded : Guarded state) (free : activity.locks = none) :
    Guarded { state.turn task activity with files := files } := by
  refine ⟨exclusive_turn guarded ?_, ?_⟩
  · intro process locked
    rw [free] at locked
    contradiction
  · intro tested process fd file storing
    refine guarded.ready tested process fd file (storing_turn ?_ storing).2
    rintro _ _ _ rfl
    contradiction

omit [Fintype Process] [Fintype Task] [DecidableEq Task] in
/-- Writing a slot of a table that no other task is about to store into. -/
theorem write_guarded {state : State Process Task} {process : Process} {fd : Fin configMaxFd}
    (content : Option Nat) (guarded : Guarded state)
    (alone : ∀ task fd file, state.activity task ≠ .storing process fd file) :
    Guarded (state.write process fd content) := by
  refine ⟨guarded.exclusive, ?_⟩
  intro task other slot file storing
  obtain ⟨slots, existing, empty⟩ := guarded.ready task other slot file storing
  have different : other ≠ process := by
    rintro rfl
    exact alone task slot file storing
  exact ⟨slots, by simpa [State.write, different] using existing, empty⟩

omit [Fintype Process] [Fintype Task] in
/-- Every step keeps the tables guarded. -/
theorem step_guarded {task : Task} {before after : State Process Task} (guarded : Guarded before)
    (taken : Step task before after) : Guarded after := by
  cases taken with
  | start process behind absent =>
    refine ⟨guarded.exclusive, fun tested other fd file storing => ?_⟩
    obtain ⟨slots, existing, empty⟩ := guarded.ready tested other fd file storing
    have different : other ≠ process := by
      rintro rfl
      rw [absent] at existing
      contradiction
    exact ⟨slots, by simpa [different] using existing, empty⟩
  | create file fresh => exact ⟨guarded.exclusive, guarded.ready⟩
  | get process fd file unlocked found => exact ⟨guarded.exclusive, guarded.ready⟩
  | openRef process slots fd file idle unlocked existing found refers =>
    exact storing_guarded task process slots fd file _ guarded unlocked existing
      ((openFrom_spec slots 0 configMaxFd).1 fd.val found).2.2.1
  | openatRef process slots fd file idle unlocked existing empty refers =>
    exact storing_guarded task process slots fd file _ guarded unlocked existing empty
  | store process fd file storing =>
    have turned := unlock_guarded task .between before.files guarded rfl
    refine write_guarded _ turned ?_
    intro tested slot stored again
    obtain ⟨different, still⟩ := storing_turn (by simp) again
    exact different (guarded.exclusive tested task process (by rw [still]; rfl)
      (by rw [storing]; rfl))
  | clear process fd file idle unlocked found =>
    have turned : Guarded (before.turn task (.closing process file)) := by
      refine ⟨exclusive_turn guarded ?_, ?_⟩
      · rintro locked same other -
        rw [Activity.locks, Option.some.injEq] at same
        exact same ▸ unlocked other
      · intro tested other slot stored storing
        exact guarded.ready tested other slot stored
          (storing_turn (by simp) storing).2
    refine write_guarded _ turned ?_
    intro tested slot stored again
    have still := (storing_turn (by simp) again).2
    exact unlocked tested (by rw [still]; rfl)
  | closeDeref process file closing => exact unlock_guarded task .between _ guarded rfl
  | release file refers => exact ⟨guarded.exclusive, guarded.ready⟩
  | finish process slots idle unlocked existing =>
    have turned := unlock_guarded task (.cleaning (slotReferences slots)) before.files guarded rfl
    refine ⟨turned.exclusive, fun tested other fd file storing => ?_⟩
    obtain ⟨stored, present, empty⟩ := turned.ready tested other fd file storing
    have still := (storing_turn (by simp) storing).2
    have different : other ≠ process := by
      rintro rfl
      exact unlocked tested (by rw [still]; rfl)
    exact ⟨stored, by simpa [different, State.turn] using present, empty⟩
  | cleanupDeref file rest cleaning =>
    exact unlock_guarded task (.cleaning rest) _ guarded rfl
  | cleanupEnd cleaning => exact unlock_guarded task .between before.files guarded rfl

/-- The invariant of runs. -/
structure Kept (state : State Process Task) : Prop where
  guarded : Guarded state
  exact : Exact (counts state)

/-- Every step keeps the invariant. -/
theorem step_kept (before after : State Process Task) (kept : Kept before)
    (taken : AnyStep before after) : Kept after := by
  obtain ⟨task, step⟩ := taken
  exact ⟨step_guarded kept.guarded step,
    run_exact (step_counts task before after kept.guarded step) kept.exact⟩

/-- The invariant holds in every reachable state. -/
theorem reachable_kept_files {state : State Process Task}
    (reached : Reachable Initial AnyStep state) : Kept state := by
  refine reachable_invariant ?_ step_kept reached
  rintro start ⟨noFile, noneFreed, noTable, idle⟩
  have nothing : ∀ holder, held start holder = [] := by
    rintro (⟨process, fd⟩ | task)
    · simp [held, State.slot, noTable]
    · simp [held, State.references, idle, Activity.references]
  refine ⟨⟨fun first second process locked => ?_, fun task process fd file storing => ?_⟩, ?_, ?_, ?_, ?_⟩
  · rw [(idle first).1] at locked
    contradiction
  · rw [(idle task).1] at storing
    contradiction
  · intro holder file refers
    simp only [counts, nothing] at refers
    contradiction
  · intro file member
    simp only [counts, noFile] at member
    contradiction
  · simp [counts, noFile, noneFreed]
  · simp [counts, noneFreed]

/-- Number of slots, over all processes, that hold a file. -/
def slotCount (state : State Process Task) (file : Nat) : Nat :=
  ∑ process, ∑ fd : Fin configMaxFd, if state.slot process fd = some file then 1 else 0

/-- Number of references to a file that running kernel code holds. -/
def temporaryCount (state : State Process Task) (file : Nat) : Nat :=
  ∑ task, (state.references task).count file

omit [DecidableEq Process] [DecidableEq Task] in
/-- The references to a file are those of the slots and those of running code. -/
theorem total_eq_counts (state : State Process Task) (file : Nat) :
    total (held state) file = slotCount state file + temporaryCount state file := by
  have one : ∀ process (fd : Fin configMaxFd), (state.slot process fd).toList.count file =
      if state.slot process fd = some file then 1 else 0 := by
    intro process fd
    cases state.slot process fd with
    | none => simp
    | some other =>
      by_cases same : other = file
      · simp [same]
      · simp [same]
  rw [total_held, slotCount, temporaryCount]
  simp only [one]

/-- The reference counts of files are exact in every reachable state: the count of
a file is the number of slots and of temporary references that refer to it; a
file is cleaned up and freed once, when its count is zero and nothing refers to
it; and the step that does so is the one that brings the count to zero. -/
theorem file_references_exact (state : State Process Task)
    (reached : Reachable Initial AnyStep state) :
    (∀ file ∈ state.created,
      state.files.ref file = slotCount state file + temporaryCount state file) ∧
    state.files.freed.Nodup ∧
    (∀ file ∈ state.files.freed, state.files.ref file = 0 ∧
      (∀ process (fd : Fin configMaxFd), state.slot process fd ≠ some file) ∧
      ∀ task, file ∉ state.references task) ∧
    (∀ after, AnyStep state after → ∀ file ∈ state.created,
      (file ∈ after.files.freed ∧ file ∉ state.files.freed ↔
        0 < state.files.ref file ∧ after.files.ref file = 0)) := by
  have kept := reachable_kept_files reached
  refine ⟨?_, kept.exact.once, ?_, ?_⟩
  · intro file member
    rw [← total_eq_counts]
    exact kept.exact.counted file member
  · intro file freed
    obtain ⟨created, none⟩ := (kept.exact.ends file).mp freed
    have nobody := (total_eq_zero_iff _ file).mp none
    refine ⟨(kept.exact.counted file created).trans none, fun process fd found => ?_, fun task =>
      nobody (.inr task)⟩
    exact nobody (.inl (process, fd)) (by simp [counts, held, found])
  · intro after taken file member
    have next := step_kept state after kept taken
    have stays : file ∈ after.created := by
      obtain ⟨task, step⟩ := taken
      cases step with
      | create _ _ => exact List.mem_cons_of_mem _ member
      | _ => exact member
    have countBefore := kept.exact.counted file member
    have countAfter := next.exact.counted file stays
    have endsBefore := kept.exact.ends file
    have endsAfter := next.exact.ends file
    simp only [counts, member, stays, true_and] at countBefore countAfter endsBefore endsAfter
    rw [endsAfter, endsBefore, countBefore, countAfter]
    omega

/-- No file and no process, with one process and one task to come. -/
def emptyState : State Unit Unit :=
  ⟨⟨fun _ => 0, []⟩, [], fun _ => none, fun _ => .between, fun _ => []⟩

/-- A file that is opened and whose temporary reference is given back is held by
its slot alone. -/
theorem file_references_sample :
    ∃ state : State Unit Unit, Reachable Initial AnyStep state ∧ state.slot () 0 = some 5 ∧
      state.files.ref 5 = 1 ∧ slotCount state 5 + temporaryCount state 5 = 1 := by
  have created := (Relation.ReflTransGen.single (show AnyStep emptyState _ from
    ⟨(), .start _ () (fun _ => none) rfl⟩)).tail (show AnyStep _ _ from
      ⟨(), .create _ 5 List.not_mem_nil⟩)
  have stored := (created.tail (show AnyStep _ _ from
    ⟨(), .openRef _ () _ ⟨0, by decide⟩ 5 rfl (by intro task; simp [State.keep, emptyState, Activity.locks])
      rfl rfl List.mem_cons_self⟩)).tail (show AnyStep _ _ from ⟨(), .store _ () ⟨0, by decide⟩ 5 rfl⟩)
  have released := stored.tail (show AnyStep _ _ from ⟨(), .release _ 5 List.mem_cons_self⟩)
  have reached : Reachable Initial AnyStep _ :=
    ⟨emptyState, ⟨rfl, rfl, fun _ => rfl, fun _ => ⟨rfl, rfl⟩⟩, released⟩
  have exact := (file_references_exact _ reached).1 5 List.mem_cons_self
  exact ⟨_, reached, rfl, rfl, exact.symm⟩

end Asym.FileLifetimes
