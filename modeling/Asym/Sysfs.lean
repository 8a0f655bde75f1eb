import Mathlib.Data.List.Induction
import Mathlib.Logic.Function.Basic

/-!
# Resources of sysfs

A model of one resource of `sysfs.c` from `sysfs_expose` on, with the files that
are opened on it. The functions of the resource and of its files are not fixed:
an event carries what the function that is called answers.

A file has one of three tables of operations: the wrappers of `sysfs.c`, which
test `hidden` and count the close, the table of the resource, and the table of
`window.c`, which `window_populate_file` puts in when the resource is the window
manager. `sysfs_open` gives every file the table of the resource.
-/

namespace Asym.Sysfs

/-- The operations on a file. -/
inductive Operation where
  | read
  | write
  | seek
  | ioctl
  | flush
  | mmap
  | status
  deriving DecidableEq, Repr

/-- The error codes. `own` is any code that a function of a resource or of
`window.c` sets by itself. -/
inductive Errno where
  | eacces
  | enores
  | own (code : Nat)
  deriving DecidableEq, Repr

/-- What an operation returns. -/
abbrev Answer := Except Errno Nat

/-- The tables that `file->ops` may point at. -/
inductive Table where
  /-- `fileOps` of `sysfs.c`. -/
  | wrapper
  /-- `resource->ops`. -/
  | own
  /-- `fileOps` of `window.c`. -/
  | window
  deriving DecidableEq, Repr

/-- `resource->ops`: which of the pointers are not `NULL`. -/
abbrev Resource := Operation → Bool

/-- Which pointers of `fileOps` of `window.c` are not `NULL`. -/
def windowOps : Operation → Bool
  | .ioctl => true
  | .flush => true
  | .status => true
  | _ => false

/-- The resource with the files that are open on it. `frees` counts the executions
of `resource_free`, `late` are the answers that operations gave after
`sysfs_hide`, newest first. -/
structure State where
  ref : Nat
  hidden : Bool
  frees : Nat
  opened : List Nat
  ops : Nat → Table
  late : List Answer

/-- `sysfs_expose`. -/
def sysfsExpose : State := ⟨1, false, 0, [], fun _ => .own, []⟩

/-- The `atomic_fetch_sub` on the count of the resource and the `resource_free`
that may follow. -/
def State.drop (state : State) : State :=
  { state with
    ref := state.ref - 1
    frees := if state.ref ≤ 1 then state.frees + 1 else state.frees }

/-- `sysfs_open`, with whether the resource's own open accepts the file. A hidden
resource is not found. -/
def sysfsOpen (state : State) (name : Nat) (accepts : Bool) : State :=
  if state.hidden || !accepts then state
  else
    { state with
      ref := state.ref + 1
      opened := name :: state.opened
      ops := Function.update state.ops name .own }

/-- The error of an operation whose function is not reached: `SYSFS_OPERATION` in
the wrappers, and the test for `NULL` in `vfs_read` and its like. -/
def refusal (resource : Resource) (hidden : Bool) : Table → Operation → Option Errno
  | .wrapper, operation =>
      if hidden then some .enores else if resource operation then none else some .eacces
  | .own, operation => if resource operation then none else some .eacces
  | .window, operation => if windowOps operation then none else some .eacces

/-- What an operation answers, given the answer of the function behind it. -/
def answer (resource : Resource) (state : State) (name : Nat) (operation : Operation)
    (own : Answer) : Answer :=
  match refusal resource state.hidden (state.ops name) operation with
  | some errno => .error errno
  | none => own

/-- An operation on a file, with whether the function behind it calls
`window_populate_file`, which only the `ioctl` of a resource does. -/
def operate (resource : Resource) (state : State) (name : Nat) (operation : Operation)
    (own : Answer) (populates : Bool) : State :=
  { state with
    ops :=
      if populates ∧ operation = .ioctl ∧ state.ops name ≠ .window ∧
          refusal resource state.hidden (state.ops name) operation = none then
        Function.update state.ops name .window
      else state.ops
    late :=
      if state.hidden then answer resource state name operation own :: state.late else state.late }

/-- The last `file_deref` of a file. Only `sysfs_cleanup` counts it. -/
def close (state : State) (name : Nat) : State :=
  let closed := { state with opened := state.opened.erase name }
  match state.ops name with
  | .wrapper => closed.drop
  | .own => closed
  | .window => closed

/-- `sysfs_hide`. -/
def sysfsHide (state : State) : State := { state.drop with hidden := true }

/-- A call. -/
inductive Event where
  | opening (name : Nat) (accepts : Bool)
  | operate (name : Nat) (operation : Operation) (own : Answer) (populates : Bool)
  | close (name : Nat)
  | hide

/-- One call. New files have new names, operations and closes are on open files,
and a resource is hidden once. -/
def step (resource : Resource) (state : State) : Event → Option State
  | .opening name accepts => if name ∈ state.opened then none else some (sysfsOpen state name accepts)
  | .operate name operation own populates =>
      if name ∈ state.opened then some (operate resource state name operation own populates) else none
  | .close name => if name ∈ state.opened then some (close state name) else none
  | .hide => if state.hidden then none else some (sysfsHide state)

/-- The calls of a run, from `sysfs_expose` on. -/
def run (resource : Resource) (events : List Event) : Option State :=
  events.foldlM (step resource) sysfsExpose

/-- What the lifetime of a resource should be: the count is the number of open
files, and one more while the resource is not hidden; the resource was freed once
if it is hidden and no file is open, and not at all otherwise; and every operation
since it was hidden has failed with `ENORES`. -/
structure Exact (state : State) : Prop where
  counted : state.ref = state.opened.length + if state.hidden then 0 else 1
  freed : state.frees = if state.hidden ∧ state.opened = [] then 1 else 0
  refused : ∀ given ∈ state.late, given = .error .enores

/-- A call that meets no defect: no close, and no operation on a hidden resource
unless it reaches a function that fails with `ENORES` by itself. -/
def Harmless (resource : Resource) (state : State) : Event → Prop
  | .opening _ _ => True
  | .operate name operation own _ => state.hidden = true →
      refusal resource true (state.ops name) operation = none ∧ own = .error .enores
  | .close _ => False
  | .hide => True

/-- No file has the wrappers. -/
def Unwrapped (state : State) : Prop := ∀ name, state.ops name ≠ .wrapper

/-- No call puts the wrappers in. -/
theorem step_unwrapped {resource : Resource} {state next : State} {event : Event}
    (unwrapped : Unwrapped state) (taken : step resource state event = some next) :
    Unwrapped next := by
  cases event with
  | opening name accepts =>
    simp only [step, Option.ite_none_left_eq_some, Option.some.injEq] at taken
    obtain ⟨-, rfl⟩ := taken
    rw [sysfsOpen]
    split
    · exact unwrapped
    · intro tested
      by_cases same : tested = name
      · subst same
        simp
      · simp only [Function.update_of_ne same]
        exact unwrapped tested
  | operate name operation own populates =>
    simp only [step, Option.ite_none_right_eq_some, Option.some.injEq] at taken
    obtain ⟨-, rfl⟩ := taken
    intro tested
    simp only [operate]
    split
    · by_cases same : tested = name
      · subst same
        simp
      · rw [Function.update_of_ne same]
        exact unwrapped tested
    · exact unwrapped tested
  | close name =>
    simp only [step, Option.ite_none_right_eq_some, Option.some.injEq] at taken
    obtain ⟨-, rfl⟩ := taken
    rw [close]
    split <;> exact unwrapped
  | hide =>
    simp only [step, Option.ite_none_left_eq_some, Option.some.injEq] at taken
    obtain ⟨-, rfl⟩ := taken
    exact unwrapped

/-- Opening a file keeps the lifetime exact. -/
theorem open_exact (state : State) (name : Nat) (accepts : Bool) (exact : Exact state) :
    Exact (sysfsOpen state name accepts) := by
  rw [sysfsOpen]
  split
  · exact exact
  · rename_i present
    simp only [Bool.or_eq_true, Bool.not_eq_true', not_or, Bool.not_eq_true] at present
    have counted := exact.counted
    have freed := exact.freed
    rw [present.1] at counted freed
    refine ⟨?_, ?_, exact.refused⟩
    · simp only [present.1, List.length_cons, Bool.false_eq_true, if_false] at counted ⊢
      omega
    · simpa [present.1] using freed

/-- Hiding the resource keeps the lifetime exact. -/
theorem hide_exact (state : State) (exact : Exact state) (shown : state.hidden = false) :
    Exact (sysfsHide state) := by
  have counted := exact.counted
  have freed := exact.freed
  simp only [shown, Bool.false_eq_true, if_false, false_and] at counted freed
  refine ⟨?_, ?_, exact.refused⟩
  · simp only [sysfsHide, State.drop, if_true]
    omega
  · simp only [sysfsHide, State.drop, true_and, freed]
    cases opened : state.opened with
    | nil =>
      rw [opened, List.length_nil] at counted
      simp [counted]
    | cons first rest =>
      rw [opened, List.length_cons] at counted
      have many : ¬ state.ref ≤ 1 := by omega
      simp [many]

/-- An operation keeps the lifetime exact if and only if it is harmless. -/
theorem operate_exact_iff (resource : Resource) (state : State) (name : Nat) (operation : Operation)
    (own : Answer) (populates : Bool) (exact : Exact state) (unwrapped : Unwrapped state) :
    Exact (operate resource state name operation own populates) ↔
      Harmless resource state (.operate name operation own populates) := by
  cases hidden : state.hidden with
  | false =>
    have holds : Exact (operate resource state name operation own populates) := by
      refine ⟨exact.counted, exact.freed, ?_⟩
      simp only [operate, hidden, Bool.false_eq_true, if_false]
      exact exact.refused
    simp [holds, Harmless, hidden]
  | true =>
    -- the file has no wrapper, so a refusal is `EACCES`
    have refused : ∀ errno, refusal resource true (state.ops name) operation = some errno →
        errno = .eacces := by
      intro errno found
      cases table : state.ops name with
      | wrapper => exact absurd table (unwrapped name)
      | own =>
        rw [table] at found
        simp only [refusal, Option.ite_none_left_eq_some, Option.some.injEq] at found
        exact found.2.symm
      | window =>
        rw [table] at found
        simp only [refusal, Option.ite_none_left_eq_some, Option.some.injEq] at found
        exact found.2.symm
    constructor
    · intro after _
      have given := after.refused (answer resource state name operation own)
        (by simp [operate, hidden])
      rw [answer, hidden] at given
      split at given
      · rename_i errno found
        rw [refused errno found] at given
        cases given
      · rename_i reached
        exact ⟨reached, given⟩
    · intro harmless
      obtain ⟨reached, same⟩ := harmless hidden
      refine ⟨exact.counted, exact.freed, ?_⟩
      intro given member
      simp only [operate, hidden, if_true] at member
      rcases List.mem_cons.mp member with rfl | before
      · rw [answer, hidden, reached]
        exact same
      · exact exact.refused given before

/-- A close that is not counted makes the count wrong. -/
theorem close_inexact (state : State) (name : Nat) (exact : Exact state)
    (unwrapped : Unwrapped state) (isOpen : name ∈ state.opened) : ¬ Exact (close state name) := by
  have closed : close state name = { state with opened := state.opened.erase name } := by
    rw [close]
    split
    · rename_i table
      exact absurd table (unwrapped name)
    · rfl
    · rfl
  intro after
  have counted := exact.counted
  have countedAfter := after.counted
  rw [closed] at countedAfter
  have shorter := List.length_erase_of_mem isOpen
  have positive := List.length_pos_of_mem isOpen
  simp only [shorter] at countedAfter
  omega

/-- A call keeps the lifetime exact if and only if it is harmless. -/
theorem step_exact_iff_harmless {resource : Resource} {state next : State} {event : Event}
    (exact : Exact state) (unwrapped : Unwrapped state)
    (taken : step resource state event = some next) :
    Exact next ↔ Harmless resource state event := by
  cases event with
  | opening name accepts =>
    simp only [step, Option.ite_none_left_eq_some, Option.some.injEq] at taken
    obtain ⟨-, rfl⟩ := taken
    simp [Harmless, open_exact state name accepts exact]
  | operate name operation own populates =>
    simp only [step, Option.ite_none_right_eq_some, Option.some.injEq] at taken
    obtain ⟨-, rfl⟩ := taken
    exact operate_exact_iff resource state name operation own populates exact unwrapped
  | close name =>
    simp only [step, Option.ite_none_right_eq_some, Option.some.injEq] at taken
    obtain ⟨isOpen, rfl⟩ := taken
    simp [Harmless, close_inexact state name exact unwrapped isOpen]
  | hide =>
    simp only [step, Option.ite_none_left_eq_some, Option.some.injEq] at taken
    obtain ⟨shown, rfl⟩ := taken
    simp [Harmless, hide_exact state exact (by simpa using shown)]

/-- A run that is one call longer. -/
theorem run_snoc (resource : Resource) (events : List Event) (event : Event) :
    run resource (events ++ [event]) =
      (run resource events).bind (fun state => step resource state event) := by
  simp only [run, List.foldlM_append, List.foldlM_cons, List.foldlM_nil, bind_pure]
  rfl

/-- No run puts the wrappers in. -/
theorem run_unwrapped (resource : Resource) (events : List Event) (state : State)
    (reached : run resource events = some state) : Unwrapped state := by
  induction events using List.reverseRecOn generalizing state with
  | nil =>
    obtain rfl : sysfsExpose = state := Option.some.inj reached
    intro name
    simp [sysfsExpose]
  | append_singleton events event ih =>
    rw [run_snoc, Option.bind_eq_some_iff] at reached
    obtain ⟨before, runs, taken⟩ := reached
    exact step_unwrapped (ih before runs) taken

/-- A resource that was just exposed. -/
theorem expose_exact : Exact sysfsExpose :=
  ⟨rfl, rfl, by simp [sysfsExpose]⟩

/-- The lifetime is exact in every state of a run. -/
def ExactThroughout (resource : Resource) (events : List Event) : Prop :=
  ∀ before, before <+: events → ∀ state, run resource before = some state → Exact state

/-- Every call of a run is harmless in the state in which it is made. -/
def HarmlessThroughout (resource : Resource) (events : List Event) : Prop :=
  ∀ before event, before ++ [event] <+: events → ∀ state, run resource before = some state →
    (step resource state event).isSome → Harmless resource state event

/-- The lifetime of a resource is exact throughout a run if and only if no file is
closed in it and every operation after `sysfs_hide` reaches a function that fails
with `ENORES` by itself. -/
theorem resource_lifetime_exact_iff (resource : Resource) (events : List Event) :
    ExactThroughout resource events ↔ HarmlessThroughout resource events := by
  constructor
  · intro exact before event isPrefix state reached possible
    obtain ⟨next, taken⟩ := Option.isSome_iff_exists.mp possible
    have after : run resource (before ++ [event]) = some next := by
      rw [run_snoc, reached]
      exact taken
    exact (step_exact_iff_harmless
      (exact before ((List.prefix_append before [event]).trans isPrefix) state reached)
      (run_unwrapped resource before state reached) taken).mp
        (exact (before ++ [event]) isPrefix next after)
  · intro harmless before isPrefix state reached
    -- by induction on the calls made so far
    induction before using List.reverseRecOn generalizing state with
    | nil =>
      obtain rfl : sysfsExpose = state := Option.some.inj reached
      exact expose_exact
    | append_singleton earlier event ih =>
      rw [run_snoc, Option.bind_eq_some_iff] at reached
      obtain ⟨previous, runs, taken⟩ := reached
      have exact := ih ((List.prefix_append earlier [event]).trans isPrefix)
        previous runs
      exact (step_exact_iff_harmless exact (run_unwrapped resource earlier previous runs) taken).mpr
          (harmless earlier event isPrefix previous runs (by simp [taken]))

/-- A file that is opened and closed is still counted; the resource is not freed
when it is hidden afterwards. A file that is open when the resource is hidden can
still be read. -/
theorem closed_file_counted :
    (∃ state, run (fun _ => true) [.opening 0 true, .close 0, .hide] = some state ∧
      state.hidden = true ∧ state.opened = [] ∧ state.ref = 1 ∧ state.frees = 0) ∧
    (∃ state, run (fun _ => true) [.opening 0 true, .hide, .operate 0 .read (.ok 5) false] =
      some state ∧ state.late = [.ok 5]) ∧
    ¬ ExactThroughout (fun _ => true) [.opening 0 true, .close 0] := by
  refine ⟨⟨_, rfl, rfl, rfl, rfl, rfl⟩, ⟨_, rfl, rfl⟩, fun exact => ?_⟩
  have counted := (exact _ (List.prefix_refl _) _ rfl).counted
  exact absurd counted (by decide)

end Asym.Sysfs
