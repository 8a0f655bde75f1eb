import Asym.Leases
import Asym.WindowFiles

/-!
# Creating windows

`IOCTL_DWM_CREATE` of `dwm_ioctl` with any number for the type, and with what it allocates,
accesses and frees. `window_new` refuses numbers above `DWM_MAX`; the switch knows four of the
five others. A second cursor or wall is freed while the lock in it is held, and the lock is
released when the function is left.

The state of the manager after the switch is the one of `Dwm.dwmCreate`. Only objects that the
request allocates are logged. An access through `NULL` is an exception, which is a panic.
-/

namespace Asym.WindowCreation

open Dwm WindowFiles Leases
open Graphics (Point)

section Model

/-- `DWM_MAX`. -/
def dwmMax : Nat := 4

/-- `sizeof(ioctl_dwm_create_t)`. -/
def createSize : Nat := 64

/-- `ioctl_dwm_create_t`. Its type is a number that a process has chosen. -/
structure Create where
  pos : Point
  width : BitVec 32
  height : BitVec 32
  type : BitVec 32

/-- The cases of the switch over `window->type`. `DWM_FULLSCREEN` is not among them. -/
def dwmType (type : BitVec 32) : Option DwmType :=
  match type.toNat with
  | 0 => some .window
  | 2 => some .panel
  | 3 => some .cursor
  | 4 => some .wall
  | _ => none

/-- What a request allocates. -/
inductive Object where
  | window (address : Nat)
  | buffer (address : Nat)
  deriving DecidableEq, Repr

/-- What `malloc` returns for the window and for its buffer. -/
structure Host where
  window : Option Nat
  buffer : Option Nat

/-- The manager, the operations and the private pointer of the file of the request, and the
log of what was allocated. -/
structure Manager where
  dwm : Dwm.State
  ops : Ops
  privatePointer : Option Nat
  log : List (Leases.Event Object)

def Manager.note (manager : Manager) (events : List (Leases.Event Object)) : Manager :=
  { manager with log := manager.log ++ events }

/-- What a request returns: zero, or `ERR`, with or without an error that it sets. -/
inductive Answer where
  | done
  | err (errno : Option Errno)
  deriving DecidableEq, Repr

/-- `window_new`: the window with its buffer, if it is not `NULL`. An error is a panic. -/
def windowNew (host : Host) (create : Create) (manager : Manager) :
    Except Manager (Option (Nat × Option Nat) × Manager) :=
  if dwmMax < create.type.toNat then .ok (none, manager)
  else
    match host.window with
    | none => .error manager
    | some window =>
        let placed := manager.note [.take (.window window), .use (.window window)]
        if create.width * create.height = 0 then .ok (some (window, none), placed)
        else
          match host.buffer with
          | none => .ok (some (window, none), placed)
          | some buffer =>
              .ok (some (window, some buffer), placed.note [.take (.buffer buffer), .use (.buffer buffer)])

/-- `window_free`. To free `NULL` is a panic. -/
def windowFree (window : Nat) (buffer : Option Nat) (manager : Manager) : Except Manager Manager :=
  let cleaned := manager.note [.use (.window window)]
  match buffer with
  | none => .error cleaned
  | some buffer => .ok (cleaned.note [.give (.buffer buffer), .give (.window window)])

variable (screen : Screen)

/-- A case of the switch over the type of the new window, and the return from it. The lock of the
window is released last. -/
def enlist (manager : Manager) (create : Create) (window : Nat) (buffer : Option Nat) (type : DwmType) :
    Except Manager (Answer × Manager) :=
  let created := dwmCreate screen manager.dwm window create.pos create.width.toNat create.height.toNat type
  match created.2 with
  | none =>
      .ok (.done, { manager with dwm := created.1, ops := .window, privatePointer := some window }.note
        [.use (.window window)])
  | some errno =>
      match windowFree window buffer { manager with dwm := created.1 } with
      | .error panicked => .error panicked
      | .ok freed => .ok (.err (some errno), freed.note [.use (.window window)])

/-- `IOCTL_DWM_CREATE` of `dwm_ioctl`. The lock of the window is acquired, and its type is read. An
error is a panic. -/
def dwmIoctl (host : Host) (manager : Manager) (create : Create) (size : Nat) : Except Manager (Answer × Manager) :=
  if size ≠ createSize then .ok (.err (some .einval), manager)
  else
    match windowNew host create manager with
    | .error panicked => .error panicked
    | .ok (none, manager) => .ok (.err none, manager)
    | .ok (some (window, buffer), manager) =>
        let locked := manager.note [.use (.window window)]
        match dwmType create.type with
        | none => .error locked
        | some type => enlist screen locked create window buffer type

end Model

section Requests

/-- Nothing that a log takes is used or given back after it was given back, and all of it is given
back once. -/
structure Released (log : List (Leases.Event Object)) : Prop where
  once : ∀ object ∈ takes log, (gives log).count object = 1
  never : ∀ before after object, log = before ++ .give object :: after →
    .use object ∉ after ∧ .give object ∉ after

/-- A request does not panic. If it returns `ERR`, nothing has changed, and what it has allocated
is released. -/
def Atomic (manager : Manager) : Except Manager (Answer × Manager) → Prop
  | .error _ => False
  | .ok (.done, _) => True
  | .ok (.err _, after) =>
      (after.dwm.windows = manager.dwm.windows ∧ after.dwm.selected = manager.dwm.selected ∧
        after.dwm.cursor = manager.dwm.cursor ∧ after.dwm.wall = manager.dwm.wall ∧
        after.dwm.clientRect = manager.dwm.clientRect ∧ after.ops = manager.ops ∧
        after.privatePointer = manager.privatePointer) ∧
        ∃ log, after.log = manager.log ++ log ∧ Released log

variable {screen : Screen} {host : Host} {manager : Manager} {create : Create}

/-- A request that has done nothing. -/
theorem atomic_untouched (manager : Manager) (errno : Option Errno) : Atomic manager (.ok (.err errno, manager)) := by
  refine ⟨⟨rfl, rfl, rfl, rfl, rfl, rfl, rfl⟩, [], (List.append_nil _).symm, ?_, ?_⟩
  · exact fun _ member => absurd member List.not_mem_nil
  · exact fun before _ _ same => absurd same.symm (List.append_ne_nil_of_right_ne_nil before (List.cons_ne_nil _ _))

/-- `window_new` makes a window for every type up to `DWM_MAX`, if there is memory for it. -/
theorem windowNew_some {window : Nat} (obtained : host.window = some window) (few : ¬ dwmMax < create.type.toNat)
    (manager : Manager) :
    ∃ buffer log, windowNew host create manager = .ok (some (window, buffer), manager.note log) := by
  rw [windowNew, if_neg few, obtained]
  by_cases empty : create.width * create.height = 0
  · exact ⟨none, _, if_pos empty⟩
  · cases room : host.buffer with
    | none => exact ⟨none, _, if_neg empty⟩
    | some buffer =>
      refine ⟨some buffer, [.take (.window window), .use (.window window)] ++ [.take (.buffer buffer),
        .use (.buffer buffer)], (if_neg empty).trans ?_⟩
      simp only [Manager.note, List.append_assoc]

/-- A window of a type that the manager accepts is created. -/
theorem enlist_accepted {type : DwmType} (accepts : Accepts manager.dwm type) (window : Nat) (buffer : Option Nat) :
    ∃ after, enlist screen manager create window buffer type = .ok (.done, after) := by
  have accepted := (dwmCreate_done_iff screen manager.dwm window create.pos create.width.toNat create.height.toNat
    type).mpr accepts
  simp only [enlist, accepted]
  exact ⟨_, rfl⟩

/-- A window of a type that the manager refuses is accessed after it was freed, if nothing panics
before. -/
theorem enlist_refused {type : DwmType} (refuses : ¬ Accepts manager.dwm type) (window : Nat) (buffer : Option Nat) :
    (∃ panicked, enlist screen manager create window buffer type = .error panicked) ∨
      ∃ errno after log, enlist screen manager create window buffer type = .ok (.err errno, after) ∧
        after.log = manager.log ++ (log ++ [.give (.window window), .use (.window window)]) := by
  have refused := mt (dwmCreate_done_iff screen manager.dwm window create.pos create.width.toNat create.height.toNat
    type).mp refuses
  obtain ⟨errno, error⟩ := Option.ne_none_iff_exists'.mp refused
  simp only [enlist, error]
  cases buffer with
  | none => exact Or.inl ⟨_, rfl⟩
  | some buffer =>
    refine Or.inr ⟨some errno, _, [.use (.window window), .give (.buffer buffer)], rfl, ?_⟩
    simp only [Manager.note, List.append_assoc, List.cons_append, List.nil_append]

/-- A request of the right size, for a type up to `DWM_MAX`, with memory for the window, gets to the
switch. -/
theorem dwmIoctl_switch {window : Nat} (obtained : host.window = some window) (few : ¬ dwmMax < create.type.toNat) :
    ∃ buffer log, dwmIoctl screen host manager create createSize =
      match dwmType create.type with
      | none => .error (manager.note log)
      | some type => enlist screen (manager.note log) create window buffer type := by
  obtain ⟨buffer, log, created⟩ := windowNew_some obtained few manager
  refine ⟨buffer, log ++ [.use (.window window)], ?_⟩
  simp only [dwmIoctl, ne_eq, not_true_eq_false, if_false, created, Manager.note, List.append_assoc]

/-- A log that ends with an access to what was given back before is not released. -/
theorem not_released (log : List (Leases.Event Object)) (object : Object) :
    ¬ Released (log ++ [.give object, .use object]) := by
  intro released
  exact (released.never log [.use object] object rfl).1 (List.mem_singleton.mpr rfl)

/-- A request is atomic exactly if it has another size, or a type above `DWM_MAX`, or if there is
memory for the window and the manager accepts its type. -/
theorem create_atomic_iff (screen : Screen) (host : Host) (manager : Manager) (create : Create) (size : Nat) :
    Atomic manager (dwmIoctl screen host manager create size) ↔
      size ≠ createSize ∨ dwmMax < create.type.toNat ∨
        host.window ≠ none ∧ ∃ type, dwmType create.type = some type ∧ Accepts manager.dwm type := by
  by_cases sized : size ≠ createSize
  · refine iff_of_true ?_ (Or.inl sized)
    rw [dwmIoctl, if_pos sized]
    exact atomic_untouched manager _
  obtain rfl := not_not.mp sized
  by_cases large : dwmMax < create.type.toNat
  · refine iff_of_true ?_ (Or.inr (Or.inl large))
    rw [dwmIoctl, if_neg sized, windowNew, if_pos large]
    exact atomic_untouched manager _
  rw [or_iff_right sized, or_iff_right large]
  cases obtained : host.window with
  | none =>
    refine iff_of_false ?_ fun granted => granted.1 rfl
    rw [dwmIoctl, if_neg sized, windowNew, if_neg large, obtained]
    exact not_false
  | some window =>
    rw [and_iff_right (Option.some_ne_none window)]
    obtain ⟨buffer, log, switched⟩ := @dwmIoctl_switch screen host manager create window obtained large
    rw [switched]
    cases known : dwmType create.type with
    | none => exact iff_of_false not_false fun ⟨_, same, _⟩ => Option.some_ne_none _ same.symm
    | some type =>
      constructor
      · intro atomic
        refine ⟨type, rfl, ?_⟩
        by_contra refuses
        rcases @enlist_refused screen (manager.note log) create type refuses window buffer with
          ⟨_, panics⟩ | ⟨_, after, later, done, logged⟩
        · simp only [panics] at atomic
          exact atomic
        · simp only [done] at atomic
          obtain ⟨_, own, same, released⟩ := atomic
          have whole := List.append_cancel_left (same.symm.trans (logged.trans (List.append_assoc _ _ _)))
          rw [whole, ← List.append_assoc] at released
          exact not_released _ _ released
      · rintro ⟨other, same, accepts⟩
        obtain rfl := Option.some.inj same
        obtain ⟨after, done⟩ := @enlist_accepted screen (manager.note log) create _ accepts window buffer
        simp only [done]
        trivial

/-- A manager without windows, and the file of a request. -/
def idle : Manager := ⟨initial smallScreen blankMemory fun _ => 0, .dwm, none, []⟩

/-- A request for a window of one pixel, with a type. -/
def onePixel (type : BitVec 32) : Create := ⟨⟨0, 0⟩, 1, 1, type⟩

/-- A request for a fullscreen window stops the kernel, and a second cursor is accessed after it was
freed. -/
theorem fullscreen_and_second_cursor :
    ¬ Atomic idle (dwmIoctl smallScreen ⟨some 1, some 2⟩ idle (onePixel 1) createSize) ∧
      ¬ Atomic { idle with dwm := { idle.dwm with cursor := some 5 } }
        (dwmIoctl smallScreen ⟨some 1, some 2⟩ { idle with dwm := { idle.dwm with cursor := some 5 } } (onePixel 3)
          createSize) := by
  refine ⟨not_false, ?_⟩
  rintro ⟨_, log, same, released⟩
  obtain rfl := List.nil_append log ▸ same
  exact not_released [.take (.window 1), .use (.window 1), .take (.buffer 2), .use (.buffer 2), .use (.window 1),
    .use (.window 1), .give (.buffer 2)] (.window 1) released

end Requests

end Asym.WindowCreation
