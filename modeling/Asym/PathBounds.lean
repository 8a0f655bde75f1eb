import Asym.PathRuns

/-!
# Where the path parser writes

The output buffer of `vfs_parse_path` has `MAX_PATH` bytes. The only check in the
loop measures the distance from the label separator, once for every character
copied; the separator and terminator after a name, the label and the copied
working directory are written without any. The writes therefore stay inside the
buffer exactly when the path leaves room for them, and this is a condition on
the working directory and the path that is stated here name by name.
-/

namespace Asym.PathBounds

open PathParser PathStack PathRuns

/-- The valid characters at the start of a name, as far as the distance from the
label separator allows them. -/
def kept (stack : List Segment) (name : Segment) : Nat :=
  min (name.takeWhile validChar).length (maxPath - 2 - used stack)

/-- A name leaves room when it follows the names on a stack: the characters kept
fit, and after a whole name its separator and the terminator. -/
def LeavesRoom (labelLength : Nat) (stack : List Segment) (name : Segment) : Prop :=
  name = dot ∨ name = dotdot ∨
    labelLength + used stack + kept stack name +
      (if kept stack name = name.length then 3 else 1) ≤ maxPath

/-- A path leaves room when what is copied first fits and every name leaves room
that is reached by resolving the names before it. -/
def PathLeavesRoom (cwd : Cwd) (path : List UInt8) : Prop :=
  ∀ start, entry cwd path = some start → start.first ≤ maxPath ∧
    ∀ front name back stack, visited start.names = front ++ name :: back →
      front.foldlM resolve start.stack = some stack →
        LeavesRoom start.label.length stack name

/-- The number of characters copied is that of the valid ones allowed. -/
theorem copied_eq_min (distance : Nat) (name : Segment) :
    copied distance name = min (name.takeWhile validChar).length (maxPath - 2 - distance) := by
  induction name generalizing distance with
  | nil => simp [copied]
  | cons ch rest ih =>
    have later := ih (distance + 1)
    rw [copied, List.takeWhile_cons]
    cases valid : validChar ch with
    | false => simp
    | true =>
      simp only [Bool.not_true, Bool.false_or, decide_eq_true_eq, if_true, List.length_cons]
      split <;> omega

/-- A name leaves room exactly when the writes for it fit. -/
theorem leavesRoom_iff (labelLength : Nat) (stack : List Segment) (name : Segment) :
    LeavesRoom labelLength stack name ↔ reach labelLength stack name ≤ maxPath := by
  have count : copied (used stack) name = kept stack name := copied_eq_min _ _
  by_cases moves : name = dot ∨ name = dotdot
  · rw [LeavesRoom, reach, if_pos moves, ← or_assoc]
    exact ⟨fun _ => Nat.zero_le _, fun _ => .inl moves⟩
  · rw [LeavesRoom, reach, if_neg moves, ← or_assoc, count]
    exact ⟨fun leaves => leaves.resolve_left moves, .inr⟩

/-- The writes for names visited one after another fit exactly when those for
each name reached fit. -/
theorem reaches_le_iff (labelLength bound : Nat) (stack names : List Segment) :
    reaches labelLength stack names ≤ bound ↔
      ∀ front name back reached, names = front ++ name :: back →
        front.foldlM resolve stack = some reached → reach labelLength reached name ≤ bound := by
  induction names generalizing stack with
  | nil => simp [reaches]
  | cons first later ih =>
    rw [reaches, Nat.max_le]
    constructor
    · rintro ⟨here, further⟩ front name back reached shape folded
      cases front with
      | nil =>
        obtain ⟨rfl, rfl⟩ := List.cons.inj shape
        obtain rfl : stack = reached := by simpa using folded
        exact here
      | cons head rest =>
        obtain ⟨rfl, rfl⟩ := List.cons.inj shape
        rw [List.foldlM_cons] at folded
        cases resolved : resolve stack first with
        | none => simp [resolved] at folded
        | some next =>
          rw [resolved] at folded further
          exact (ih next).mp further rest name back reached rfl folded
    · intro each
      refine ⟨each [] first later stack rfl rfl, ?_⟩
      cases resolved : resolve stack first with
      | none => exact Nat.zero_le _
      | some next =>
        refine (ih next).mpr fun front name back reached shape folded => ?_
        refine each (first :: front) name back reached (by rw [shape]; rfl) ?_
        rw [List.foldlM_cons, resolved]
        exact folded

/-- The writes of `vfs_parse_path` stay inside the buffer exactly when the path
leaves room. -/
theorem parse_path_inside_iff (cwd : Cwd) (bytes : Nat → UInt8) (path : List UInt8)
    (terminated : ∀ ch ∈ path, ch ≠ 0) :
    (vfsParsePath cwd ⟨bytes, 0⟩ path).2.extent ≤ maxPath ↔ PathLeavesRoom cwd path := by
  cases entered : entry cwd path with
  | none =>
    rw [vfsParsePath_refused _ path entered]
    refine ⟨fun _ start found => ?_, fun _ => Nat.zero_le _⟩
    rw [entered] at found
    contradiction
  | some start =>
    have parsed := vfsParsePath_parsed ⟨bytes, 0⟩ path start terminated entered
    rw [parsed.extent, Nat.zero_max, Nat.max_le, reaches_le_iff]
    constructor
    · rintro ⟨first, each⟩ other found
      obtain rfl : start = other := by
        rw [entered] at found
        exact Option.some.inj found
      refine ⟨first, fun front name back stack shape folded => ?_⟩
      exact (leavesRoom_iff _ _ _).mpr (each front name back stack shape folded)
    · intro room
      obtain ⟨first, each⟩ := room start entered
      refine ⟨first, fun front name back stack shape folded => ?_⟩
      exact (leavesRoom_iff _ _ _).mp (each front name back stack shape folded)

/-- The directory `a:`. -/
def rootCwd : Cwd where
  label := [97]
  rest := []
  labelChars := List.forall_mem_singleton.mpr (by decide)
  restChars := List.forall_mem_nil _
  short := by decide

/-- The path `b` from `a:` leaves room. -/
theorem parse_path_inside_sample :
    (vfsParsePath rootCwd ⟨fun _ => 0, 0⟩ [98]).2.extent ≤ maxPath ∧ PathLeavesRoom rootCwd [98] := by
  have inside : (vfsParsePath rootCwd ⟨fun _ => 0, 0⟩ [98]).2.extent ≤ maxPath := by decide +kernel
  have terminated : ∀ ch ∈ [98], ch ≠ (0 : UInt8) := List.forall_mem_singleton.mpr (by decide)
  exact ⟨inside, (parse_path_inside_iff rootCwd (fun _ => 0) [98] terminated).mp inside⟩

/-- The path `a:/` followed by a name of 252 characters. -/
def longPath : List UInt8 := [97, 58, 47] ++ List.replicate 252 98

/-- A path shorter than `MAX_PATH` makes the parser write behind the buffer. -/
theorem parse_path_overruns :
    longPath.length < maxPath ∧ (∀ ch ∈ longPath, ch ≠ 0) ∧
      (vfsParsePath rootCwd ⟨fun _ => 0, 0⟩ longPath).2.extent = maxPath + 1 := by
  decide +kernel

end Asym.PathBounds
