import Asym.Ownership
import Asym.WindowFiles

/-!
# Windows and the files that own them

A window that is shown is owned by the one file whose private pointer it is: when the file
is closed, the window goes with it. A request that runs the operations of the manager on a
file that has become that of another window overwrites the pointer to that window, and no
file is left to close it.

Files with the operations of windows hold titles in the sense of `Ownership`, and the
items are the windows in use. Every window that is shown is owned by one file as long as
each window is created through a file that still has the operations of the manager.
-/

namespace Asym.WindowFiles

open Dwm EventRuns Ownership References

variable {Descriptor Thread : Type}

/-- The file is there, it has the operations of windows, and the window is its private
pointer. -/
structure Owns (state : State Descriptor Thread) (file id : Nat) : Prop where
  created : file ∈ state.created
  live : file ∉ state.freed
  ops : state.ops file = .window
  pointer : state.privatePointer file = some id

/-- Each window that is shown is owned by exactly one file, and when all descriptors are
closed and all threads are done, there is no window any more. -/
structure OwnedByFiles (state : State Descriptor Thread) : Prop where
  owner : ∀ id, Shown state.dwm id → ∃! file, Owns state file id
  closed : (∀ descriptor, state.slot descriptor = none) → (∀ thread, state.phase thread = .idle) →
    state.dwm.windows = [] ∧ state.dwm.cursor = none ∧ state.dwm.wall = none ∧
      ∀ id, state.dwm.live id = false

/-- A window is created through a file that still has the operations of the manager. -/
def Unclaimed (state : State Descriptor Thread) : Event Descriptor Thread → Prop
  | .ioctl thread (.create _ _ _ _ type) =>
      ∀ file, state.phase thread = .chosen file .dwm → Accepts state.dwm type → state.ops file = .dwm
  | _ => True

/-- The window that a file has: that of its private pointer, if it is there and has the
operations of windows. -/
def title (state : State Descriptor Thread) (file : Nat) : Option Nat :=
  if file ∈ state.created ∧ file ∉ state.freed ∧ state.ops file = .window then state.privatePointer file
  else none

/-- The window that a file has is the one it owns. -/
theorem title_iff (state : State Descriptor Thread) (file id : Nat) :
    title state file = some id ↔ Owns state file id := by
  rw [title, Option.ite_none_right_eq_some]
  constructor
  · rintro ⟨⟨created, live, ops⟩, pointer⟩
    exact ⟨created, live, ops, pointer⟩
  · intro owns
    exact ⟨⟨owns.created, owns.live, owns.ops⟩, owns.pointer⟩

/-- What a step does to windows: nothing, or it grants a new window to a file, or it
removes the window of a file. -/
inductive Effect (before after : State Descriptor Thread) (unclaimed : Prop) : Prop where
  | keep (titles : title after = title before) (windows : used after.dwm = used before.dwm)
      (allowed : unclaimed)
  | grant (file id : Nat) (titles : title after = Function.update (title before) file (some id))
      (new : id ∉ used before.dwm) (windows : used after.dwm = insert id (used before.dwm))
      (allowed : unclaimed ↔ title before file = none)
  | retire (file id : Nat) (has : title before file = some id)
      (titles : title after = Function.update (title before) file none)
      (windows : used after.dwm = used before.dwm \ {id}) (allowed : unclaimed)

/-- The file of a window that was created. -/
theorem title_windowPopulateFile {state : State Descriptor Thread} {file : Nat} (created : file ∈ state.created)
    (live : file ∉ state.freed) (id : Nat) (dwm : Dwm.State) :
    title { windowPopulateFile state id file with dwm := dwm } =
      Function.update (title state) file (some id) := by
  funext other
  by_cases same : other = file
  · simp [title, windowPopulateFile, same, created, live]
  · simp [title, windowPopulateFile, same]

/-- What a thread turns to does not matter for windows. -/
theorem Effect.turn [DecidableEq Thread] {before after : State Descriptor Thread} {unclaimed : Prop}
    (effect : Effect before after unclaimed) (thread : Thread) (phase : Phase) :
    Effect before (after.turn thread phase) unclaimed := by
  cases effect with
  | keep titles windows allowed => exact .keep titles windows allowed
  | grant file id titles new windows allowed => exact .grant file id titles new windows allowed
  | retire file id has titles windows allowed => exact .retire file id has titles windows allowed

variable (screen : Screen) [Fintype Descriptor] [Fintype Thread]

/-- The facts about runs: the files are tracked, every window in use is shown, and the
titles of files are sound. -/
structure Sound (state : State Descriptor Thread) : Prop where
  tracked : Tracked state
  allShown : AllShown state.dwm
  titles : Titles (title state) (used state.dwm)

/-- What a request does to windows. -/
theorem vfsIoctl_effect {state done : State Descriptor Thread} {thread : Thread} {file : Nat} {request : Request}
    {ops : Ops} (tracked : Tracked state) (allShown : AllShown state.dwm)
    (chosen : state.phase thread = .chosen file ops)
    (taken : vfsIoctl screen state file request ops = some done) :
    Effect state done (Unclaimed state (.ioctl thread request)) ∧ AllShown done.dwm := by
  cases ops with
  | window =>
    obtain rfl := Option.some.inj taken
    refine ⟨.keep rfl rfl ?_, allShown⟩
    cases request with
    | invalid => trivial
    | create id pos width height type =>
      intro other chosenOther
      rw [chosen] at chosenOther
      cases chosenOther
  | dwm =>
    cases request with
    | invalid =>
      obtain rfl := Option.some.inj taken
      exact ⟨.keep rfl rfl trivial, allShown⟩
    | create id pos width height type =>
      simp only [vfsIoctl, dwmIoctl, Option.ite_none_left_eq_some, Bool.not_eq_true] at taken
      obtain ⟨free, taken⟩ := taken
      have shown := allShown.dwmCreate screen free pos width height type
      have unclaimed_iff : Unclaimed state (.ioctl thread (.create id pos width height type)) ↔
          (Accepts state.dwm type → state.ops file = .dwm) := by
        simp only [Unclaimed, chosen, Phase.chosen.injEq, and_true]
        exact ⟨fun each => each file rfl, fun each other same => same ▸ each⟩
      split at taken
      · next accepted =>
        have accepts := (dwmCreate_done_iff screen state.dwm id pos width height type).mp accepted
        obtain rfl := Option.some.inj taken
        obtain ⟨created, -, live⟩ := tracked.present (congrArg Phase.references chosen)
        refine ⟨.grant file id (title_windowPopulateFile created live id _) ?_
          (used_created screen accepts id pos width height) ?_, shown⟩
        · rw [mem_used, free]
          exact Bool.false_ne_true
        · rw [unclaimed_iff]
          constructor
          · intro unclaimed
            simp [title, unclaimed accepts]
          · intro untitled _
            cases ops : state.ops file with
            | dwm => rfl
            | window =>
              rw [title, if_pos ⟨created, live, ops⟩] at untitled
              exact absurd untitled (tracked.populated file ops)
      · next error refused =>
        have refuses : ¬ Accepts state.dwm type := by
          rw [← dwmCreate_done_iff screen state.dwm id pos width height type, refused]
          exact fun same => by cases same
        obtain rfl := Option.some.inj taken
        refine ⟨.keep rfl ?_ (unclaimed_iff.mpr fun accepts => absurd accepts refuses), shown⟩
        ext other
        rw [mem_used, mem_used, (dwmCreate_refused screen refuses free pos width height).live]

/-- What cleaning up a file does to windows. -/
theorem cleanupFile_effect {state : State Descriptor Thread} {thread : Thread} {file : Nat}
    (tracked : Tracked state) (allShown : AllShown state.dwm)
    (titles : Titles (title state) (used state.dwm)) (cleaning : state.phase thread = .cleaning file) :
    Effect state (cleanupFile screen state file) True ∧ AllShown (cleanupFile screen state file).dwm := by
  obtain ⟨finished, live⟩ := tracked.cleans.ended thread file cleaning
  have created := ((tracked.exact.ends file).mp finished).1
  have gone : title (cleanupFile screen state file) = Function.update (title state) file none := by
    funext other
    by_cases same : other = file
    · simp [title, cleanupFile, same]
    · simp [title, cleanupFile, same]
  cases ops : state.ops file with
  | dwm =>
    have untitled : title state file = none := by simp [title, ops]
    have same : (cleanupFile screen state file).dwm = state.dwm := by simp [cleanupFile, ops]
    rw [same]
    refine ⟨.keep ?_ (congrArg used same) trivial, allShown⟩
    rw [gone, ← untitled, Function.update_eq_self]
  | window =>
    obtain ⟨id, pointer⟩ := Option.ne_none_iff_exists'.mp (tracked.populated file ops)
    have has : title state file = some id := by rw [title, if_pos ⟨created, live, ops⟩, pointer]
    have closed : (cleanupFile screen state file).dwm = windowCleanup screen state.dwm id := by
      simp [cleanupFile, ops, pointer]
    have inUse := titles.backed file id has
    refine ⟨.retire file id has gone ?_ trivial, ?_⟩
    · rw [closed, allShown.toConsistent.used_closed screen id]
    · rw [closed]
      exact allShown.windowCleanup screen (mem_used.mp inUse)

/-- Without descriptors and without threads that do something, no file has a window. -/
theorem Tracked.no_title {state : State Descriptor Thread} (tracked : Tracked state)
    (closed : ∀ descriptor, state.slot descriptor = none) (idle : ∀ thread, state.phase thread = .idle)
    (file : Nat) : title state file = none := by
  rw [title, if_neg]
  rintro ⟨created, live, -⟩
  have nothing : total (held state) file = 0 := by
    rw [total_eq_zero_iff]
    rintro (descriptor | thread)
    · simp [held, closed]
    · simp [held, idle, Phase.references]
  rcases tracked.cleans.pending file ((tracked.exact.ends file).mpr ⟨created, nothing⟩) with
    freed | ⟨thread, cleaning⟩
  · exact live freed
  · rw [idle thread] at cleaning
    cases cleaning

/-- The windows are owned by files if those in use are owned by titles. -/
theorem ownedByFiles_iff {state : State Descriptor Thread} (sound : Sound state) :
    OwnedByFiles state ↔ Owned (title state) (used state.dwm) := by
  have same : (∀ id, Shown state.dwm id → ∃! file, Owns state file id) ↔
      Owned (title state) (used state.dwm) := by
    simp only [Owned, title_iff, sound.allShown.shown_iff]
  constructor
  · intro ownedByFiles
    exact same.mp ownedByFiles.owner
  · intro owned
    refine ⟨same.mpr owned, fun closed idle => ?_⟩
    have unused := owned.empty (sound.tracked.no_title closed idle)
    have hidden (id : Nat) : ¬ Shown state.dwm id := fun shown =>
      unused id ((sound.allShown.shown_iff id).mp shown)
    refine ⟨?_, ?_, ?_, fun id => Bool.not_eq_true _ ▸ unused id⟩
    · exact List.eq_nil_iff_forall_not_mem.mpr fun id listed => hidden id (.inl listed)
    · exact Option.eq_none_iff_forall_ne_some.mpr fun id pointed => hidden id (.inr (.inl pointed))
    · exact Option.eq_none_iff_forall_ne_some.mpr fun id pointed => hidden id (.inr (.inr pointed))

/-- No file at the start, and no window. -/
theorem initial_sound (memory : Nat → Window) (back : Int → Graphics.Pixel) :
    Sound (initial screen memory back : State Descriptor Thread) := by
  have nothing (holder : Descriptor ⊕ Thread) :
      held (initial screen memory back : State Descriptor Thread) holder = [] := by
    rcases holder with descriptor | thread
    · rfl
    · rfl
  refine ⟨⟨⟨?_, ?_, ?_, ?_⟩, ⟨?_, ?_, ?_, ?_⟩, ?_⟩, initial_allShown screen memory back, ⟨?_, ?_⟩⟩
  · intro holder file refers
    simp only [counts, nothing] at refers
    cases refers
  · intro file created
    cases created
  · intro file
    simp [counts, initial]
  · exact List.nodup_nil
  · intro thread file cleaning
    cases cleaning
  · intro first second file cleaning
    cases cleaning
  · intro file finished
    cases finished
  · intro file freed
    cases freed
  · intro file ops
    cases ops
  · intro file id has
    simp [title, initial] at has
  · intro first second id has
    simp [title, initial] at has

variable [DecidableEq Descriptor] [DecidableEq Thread]

/-- What every step does to windows. -/
theorem step_effect {state next : State Descriptor Thread} {event : Event Descriptor Thread}
    (sound : Sound state) (taken : step screen state event = some next) :
    Effect state next (Unclaimed state event) ∧ AllShown next.dwm := by
  cases step_cases screen taken with
  | sysfsOpen thread file idle fresh =>
    refine ⟨.keep ?_ rfl trivial, sound.allShown⟩
    funext other
    by_cases same : other = file
    · simp [title, sysfsOpen, State.turn, same, fresh]
    · simp [title, sysfsOpen, State.turn, same]
  | get thread descriptor file idle found => exact ⟨.keep rfl rfl trivial, sound.allShown⟩
  | store thread descriptor file holding empty => exact ⟨.keep rfl rfl trivial, sound.allShown⟩
  | choose thread file holding => exact ⟨.keep rfl rfl trivial, sound.allShown⟩
  | ioctl thread request file ops done chosen requested =>
    obtain ⟨effect, shown⟩ := vfsIoctl_effect screen sound.tracked sound.allShown chosen requested
    exact ⟨effect.turn thread (.done file), shown⟩
  | close thread descriptor file idle found => exact ⟨.keep rfl rfl trivial, sound.allShown⟩
  | deref thread file has =>
    rw [fileDeref]
    split_ifs with last
    · exact ⟨.keep rfl rfl trivial, sound.allShown⟩
    · exact ⟨.keep rfl rfl trivial, sound.allShown⟩
  | cleanup thread file cleaning =>
    obtain ⟨effect, shown⟩ := cleanupFile_effect screen sound.tracked sound.allShown sound.titles cleaning
    exact ⟨effect.turn thread .idle, shown⟩
  | manager event dwm standing stepped =>
    have same := step_sameUse screen state.dwm event dwm standing stepped
    refine ⟨.keep rfl ?_ trivial, ?_⟩
    · ext id
      rw [mem_used, mem_used, same.live]
    · exact sound.allShown.of_sameUse same
        (step_consistent screen state.dwm event dwm sound.allShown.toConsistent stepped)

/-- Every step keeps the facts. -/
theorem step_windows_sound (state : State Descriptor Thread) (event : Event Descriptor Thread)
    (next : State Descriptor Thread) (sound : Sound state) (taken : step screen state event = some next) :
    Sound next := by
  obtain ⟨effect, shown⟩ := step_effect screen sound taken
  refine ⟨step_tracked screen sound.tracked taken, shown, ?_⟩
  cases effect with
  | keep titles windows =>
    rw [titles, windows]
    exact sound.titles
  | grant file id titles new windows =>
    rw [titles, windows]
    exact sound.titles.grant new
  | retire file id has titles windows =>
    rw [titles, windows]
    exact sound.titles.retire has

/-- A step keeps the windows owned exactly if it is not a request through a file that has
become that of another window. -/
theorem step_owned_iff {state next : State Descriptor Thread} {event : Event Descriptor Thread}
    (sound : Sound state) (owned : Owned (title state) (used state.dwm))
    (taken : step screen state event = some next) :
    Owned (title next) (used next.dwm) ↔ Unclaimed state event := by
  obtain ⟨effect, -⟩ := step_effect screen sound taken
  cases effect with
  | keep titles windows allowed =>
    rw [titles, windows]
    exact iff_of_true owned allowed
  | grant file id titles new windows allowed =>
    rw [titles, windows, allowed]
    exact sound.titles.owned_grant_iff owned new
  | retire file id has titles windows allowed =>
    rw [titles, windows]
    exact iff_of_true (sound.titles.owned_retire owned has) allowed

/-- In a run, every window that is shown is always owned by exactly one file, and closing
everything removes all windows, if and only if each window is created through a file that
still has the operations of the manager. -/
theorem windows_owned_iff (memory : Nat → Window) (back : Int → Graphics.Pixel)
    (events : List (Event Descriptor Thread)) :
    Always (step screen) (initial screen memory back) OwnedByFiles events ↔
      Each (step screen) (initial screen memory back) Unclaimed events := by
  have sound : Sound (initial screen memory back : State Descriptor Thread) :=
    initial_sound screen memory back
  apply always_iff_each sound (step_windows_sound screen)
  · rw [ownedByFiles_iff sound]
    intro id inUse
    cases inUse
  · intro state event next soundState owned taken
    rw [ownedByFiles_iff (step_windows_sound screen state event next soundState taken)]
    exact step_owned_iff screen soundState ((ownedByFiles_iff soundState).mp owned) taken

/-- Two threads choose the operations of one file, then both create a window, and at last
the file is closed. -/
def raceOnFile : List (Event Unit Bool) :=
  [.sysfsOpen false 0, .store false (), .deref false, .get false (), .get true (), .choose false,
    .choose true, .ioctl false (.create 0 ⟨0, 0⟩ 1 1 .window), .ioctl true (.create 1 ⟨0, 0⟩ 1 1 .window),
    .deref false, .deref true, .close false (), .deref false, .cleanup false]

/-- The second window takes the file of the first one, which is left when everything is
closed. -/
theorem first_window_left : ∃ state,
    run (step smallScreen) (initial smallScreen blankMemory fun _ => 0) raceOnFile = some state ∧
      (∀ descriptor, state.slot descriptor = none) ∧ (∀ thread, state.phase thread = .idle) ∧
      state.dwm.windows = [0] ∧ ¬ OwnedByFiles state := by
  have left : ∃ state,
      run (step smallScreen) (initial smallScreen blankMemory fun _ => 0) raceOnFile = some state ∧
        (∀ descriptor, state.slot descriptor = none) ∧ (∀ thread, state.phase thread = .idle) ∧
        state.dwm.windows = [0] :=
    ⟨_, rfl, fun _ => rfl, fun thread => by cases thread <;> rfl, rfl⟩
  obtain ⟨state, reached, closed, idle, windows⟩ := left
  refine ⟨state, reached, closed, idle, windows, fun ownedByFiles => ?_⟩
  rw [(ownedByFiles.closed closed idle).1] at windows
  cases windows

end Asym.WindowFiles
