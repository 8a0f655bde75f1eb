import Mathlib.Data.Nat.Find
import Mathlib.Logic.Function.Basic

/-!
# Files and descriptor tables

A model of the reference counts of `vfs.c` and of the descriptor tables of
`vfs_context.c`. Files are names that are never used twice. A table is the words
from its first slot on: the table itself is the first `CONFIG_MAX_FD` of them,
and what lies behind it is memory of something else that reads as pointers all
the same. `touched` lists the slots that a function indexes.

The descriptor functions are compared with a partial map from descriptors to
files.
-/

namespace Asym.FileTables

/-- `CONFIG_MAX_FD`. -/
def configMaxFd : Nat := 64

/-- The error codes of the descriptor functions. -/
inductive Errno where
  | emfile
  | ebadf
  | einval
  deriving DecidableEq, Repr

/-- The reference counts, and the files that were cleaned up and freed, newest
first. -/
structure Files where
  ref : Nat → Nat
  freed : List Nat

/-- `file_new`, for a name that was not used before. -/
def fileNew (files : Files) (file : Nat) : Files :=
  { files with ref := Function.update files.ref file 1 }

/-- `file_ref`. -/
def fileRef (files : Files) (file : Nat) : Files :=
  { files with ref := Function.update files.ref file (files.ref file + 1) }

/-- `file_deref`: the old value of the count decides whether the file is cleaned
up and freed. -/
def fileDeref (files : Files) (file : Nat) : Files where
  ref := Function.update files.ref file (files.ref file - 1)
  freed := if files.ref file ≤ 1 then file :: files.freed else files.freed

/-- `context->files` of `vfs_context_t`, and the words behind it. -/
abbrev Slots := Nat → Option Nat

/-- `vfs_context_init`. -/
def vfsContextInit (behind : Slots) : Slots := fun fd => if fd < configMaxFd then none else behind fd

/-- What a descriptor function returns and leaves. `vfs_context_get` returns a
file, the others a number. -/
structure Outcome where
  result : Except Errno Nat
  slots : Slots
  files : Files
  touched : List Nat

/-- The loop of `vfs_context_open` from a descriptor on: the first empty slot, and
the slots that were read. -/
def openFrom (slots : Slots) (fd : Nat) : Nat → Option Nat × List Nat
  | 0 => (none, [])
  | remaining + 1 =>
      if slots fd = none then (some fd, [fd])
      else
        let (found, read) := openFrom slots (fd + 1) remaining
        (found, fd :: read)

/-- `vfs_context_open`. -/
def vfsContextOpen (slots : Slots) (files : Files) (file : Nat) : Outcome :=
  match openFrom slots 0 configMaxFd with
  | (some fd, read) => {
      result := .ok fd
      slots := Function.update slots fd (some file)
      files := fileRef files file
      touched := read ++ [fd] }
  | (none, read) => { result := .error .emfile, slots, files, touched := read }

/-- `vfs_context_close`. -/
def vfsContextClose (slots : Slots) (files : Files) (fd : Nat) : Outcome :=
  if fd ≥ configMaxFd then { result := .error .ebadf, slots, files, touched := [] }
  else match slots fd with
    | none => { result := .error .ebadf, slots, files, touched := [fd] }
    | some file => {
        result := .ok 0
        slots := Function.update slots fd none
        files := fileDeref files file
        touched := [fd, fd, fd] }

/-- `vfs_context_openat`. -/
def vfsContextOpenat (slots : Slots) (files : Files) (fd file : Nat) : Outcome :=
  if fd ≥ configMaxFd then { result := .error .einval, slots, files, touched := [] }
  else if slots fd ≠ none then { result := .error .emfile, slots, files, touched := [fd] }
  else {
    result := .ok fd
    slots := Function.update slots fd (some file)
    files := fileRef files file
    touched := [fd, fd] }

/-- `vfs_context_get`. The descriptor is not compared with `CONFIG_MAX_FD`. -/
def vfsContextGet (slots : Slots) (files : Files) (fd : Nat) : Outcome :=
  match slots fd with
  | none => { result := .error .ebadf, slots, files, touched := [fd] }
  | some file => { result := .ok file, slots, files := fileRef files file, touched := [fd, fd] }

/-- A call of a descriptor function. -/
inductive Request where
  | opening (file : Nat)
  | openat (fd file : Nat)
  | close (fd : Nat)
  | get (fd : Nat)

/-- The descriptor function that serves a request. -/
def serve (slots : Slots) (files : Files) : Request → Outcome
  | .opening file => vfsContextOpen slots files file
  | .openat fd file => vfsContextOpenat slots files fd file
  | .close fd => vfsContextClose slots files fd
  | .get fd => vfsContextGet slots files fd

/-- A partial map from descriptors to files. -/
abbrev Descriptors := Nat → Option Nat

/-- The partial map of a table. -/
def descriptors (slots : Slots) : Descriptors := fun fd => if fd < configMaxFd then slots fd else none

/-- A descriptor without a file. -/
def Free (map : Descriptors) (fd : Nat) : Prop := fd < configMaxFd ∧ map fd = none

instance (map : Descriptors) : DecidablePred (Free map) := fun _ => inferInstanceAs (Decidable (_ ∧ _))

instance (map : Descriptors) : Decidable (∃ fd, Free map fd) :=
  decidable_of_iff (∃ fd < configMaxFd, map fd = none) Iff.rfl

/-- What a request means for a partial map: the answer and the map after it. -/
def specify (map : Descriptors) : Request → Except Errno Nat × Descriptors
  | .opening file =>
      if free : ∃ fd, Free map fd then
        (.ok (Nat.find free), Function.update map (Nat.find free) (some file))
      else (.error .emfile, map)
  | .openat fd file =>
      if Free map fd then (.ok fd, Function.update map fd (some file))
      else (.error (if fd < configMaxFd then .emfile else .einval), map)
  | .close fd =>
      if (map fd).isSome then (.ok 0, Function.update map fd none) else (.error .ebadf, map)
  | .get fd =>
      match map fd with
      | some file => (.ok file, map)
      | none => (.error .ebadf, map)

/-- The counts after a request that succeeded on a partial map. -/
def specifyFiles (map : Descriptors) (files : Files) : Request → Files
  | .opening file => fileRef files file
  | .openat _ file => fileRef files file
  | .close fd => (map fd).elim files (fileDeref files)
  | .get fd => (map fd).elim files (fileRef files)

/-- A request is served as the partial map says: with its answer, with its effect
on the table, with its effect on the counts if it succeeds and with none if it
fails, and without touching a slot outside the table. -/
structure Refines (slots : Slots) (files : Files) (request : Request) : Prop where
  result : (serve slots files request).result = (specify (descriptors slots) request).1
  table : descriptors (serve slots files request).slots = (specify (descriptors slots) request).2
  succeeds : ∀ answer, (serve slots files request).result = .ok answer →
    (serve slots files request).files = specifyFiles (descriptors slots) files request
  fails : ∀ error, (serve slots files request).result = .error error →
    (serve slots files request).slots = slots ∧ (serve slots files request).files = files
  inside : ∀ fd ∈ (serve slots files request).touched, fd < configMaxFd
  behind : ∀ fd, configMaxFd ≤ fd → (serve slots files request).slots fd = slots fd

/-- A slot of the table in the partial map. -/
theorem descriptors_inside (slots : Slots) (fd : Nat) (inside : fd < configMaxFd) :
    descriptors slots fd = slots fd := if_pos inside

/-- Writing a slot of the table writes the partial map. -/
theorem descriptors_update (slots : Slots) (fd : Nat) (content : Option Nat)
    (inside : fd < configMaxFd) :
    descriptors (Function.update slots fd content) =
      Function.update (descriptors slots) fd content := by
  funext tested
  by_cases same : tested = fd
  · subst same
    simp [descriptors, inside]
  · simp [descriptors, same]

/-- The loop of `vfs_context_open` finds the first empty slot, and reads no slot
behind the ones it is to search. -/
theorem openFrom_spec (slots : Slots) (fd remaining : Nat) :
    (∀ found, (openFrom slots fd remaining).1 = some found →
      fd ≤ found ∧ found < fd + remaining ∧ slots found = none ∧
        ∀ lower, fd ≤ lower → lower < found → slots lower ≠ none) ∧
    ((openFrom slots fd remaining).1 = none →
      ∀ tested, fd ≤ tested → tested < fd + remaining → slots tested ≠ none) ∧
    ∀ read ∈ (openFrom slots fd remaining).2, read < fd + remaining := by
  induction remaining generalizing fd with
  | zero =>
    refine ⟨by simp [openFrom], fun _ tested low high => by omega, by simp [openFrom]⟩
  | succ remaining ih =>
    obtain ⟨finds, misses, reads⟩ := ih (fd + 1)
    rw [openFrom]
    by_cases empty : slots fd = none
    · rw [if_pos empty]
      refine ⟨?_, by simp, by simp⟩
      rintro found same
      rw [Option.some.injEq] at same
      subst same
      exact ⟨Nat.le_refl fd, by omega, empty, fun lower low high => by omega⟩
    · rw [if_neg empty]
      refine ⟨?_, ?_, ?_⟩
      · intro found later
        obtain ⟨low, high, free, used⟩ := finds found later
        refine ⟨by omega, by omega, free, fun lower first last => ?_⟩
        rcases Nat.eq_or_lt_of_le first with rfl | after
        · exact empty
        · exact used lower after last
      · intro none tested first last
        rcases Nat.eq_or_lt_of_le first with rfl | after
        · exact empty
        · exact misses none tested after (by omega)
      · intro read member
        rcases List.mem_cons.mp member with rfl | later
        · omega
        · have bound := reads read later
          omega

/-- `vfs_context_open` refines the partial map. -/
theorem open_refines (slots : Slots) (files : Files) (file : Nat) :
    Refines slots files (.opening file) := by
  obtain ⟨finds, misses, reads⟩ := openFrom_spec slots 0 configMaxFd
  have read : ∀ fd ∈ (openFrom slots 0 configMaxFd).2, fd < configMaxFd := by
    intro fd member
    have bound := reads fd member
    omega
  cases searched : openFrom slots 0 configMaxFd with
  | mk found list =>
    rw [searched] at finds misses read
    cases found with
    | none =>
      have served : serve slots files (.opening file) =
          { result := .error .emfile, slots, files, touched := list } := by
        simp only [serve, vfsContextOpen, searched]
      have full : ¬ ∃ fd, Free (descriptors slots) fd := by
        rintro ⟨fd, inside, empty⟩
        rw [descriptors_inside slots fd inside] at empty
        exact misses rfl fd (Nat.zero_le fd) (by omega) empty
      have specified : specify (descriptors slots) (.opening file) =
          (.error .emfile, descriptors slots) := by
        simp only [specify, dif_neg full]
      constructor
      · rw [served, specified]
      · rw [served, specified]
      · simp [served]
      · simp [served]
      · simpa [served] using read
      · simp [served]
    | some fd =>
      obtain ⟨-, high, empty, used⟩ := finds fd rfl
      have inside : fd < configMaxFd := by omega
      have served : serve slots files (.opening file) = {
          result := .ok fd
          slots := Function.update slots fd (some file)
          files := fileRef files file
          touched := list ++ [fd] } := by
        simp only [serve, vfsContextOpen, searched]
      have free : ∃ fd, Free (descriptors slots) fd :=
        ⟨fd, inside, by rw [descriptors_inside slots fd inside, empty]⟩
      have least : Nat.find free = fd := by
        rw [Nat.find_eq_iff]
        refine ⟨⟨inside, by rw [descriptors_inside slots fd inside, empty]⟩, ?_⟩
        rintro lower less ⟨lowerInside, lowerEmpty⟩
        rw [descriptors_inside slots lower lowerInside] at lowerEmpty
        exact used lower (Nat.zero_le lower) less lowerEmpty
      have specified : specify (descriptors slots) (.opening file) =
          (.ok fd, Function.update (descriptors slots) fd (some file)) := by
        simp only [specify, dif_pos free, least]
      constructor
      · rw [served, specified]
      · rw [served, specified]
        exact descriptors_update slots fd (some file) inside
      · simp [served, specifyFiles]
      · simp [served]
      · rw [served]
        intro tested member
        rcases List.mem_append.mp member with earlier | last
        · exact read tested earlier
        · rwa [List.mem_singleton.mp last]
      · intro tested beyond
        rw [served]
        exact Function.update_of_ne (by omega) _ _

/-- `vfs_context_openat` refines the partial map. -/
theorem openat_refines (slots : Slots) (files : Files) (fd file : Nat) :
    Refines slots files (.openat fd file) := by
  by_cases inside : fd < configMaxFd
  · have below : ¬ fd ≥ configMaxFd := by omega
    have same := descriptors_inside slots fd inside
    cases content : slots fd with
    | none =>
      have free : Free (descriptors slots) fd := ⟨inside, same.trans content⟩
      constructor <;> simp [serve, vfsContextOpenat, specify, specifyFiles, below, content, free, inside]
      · exact descriptors_update slots fd (some file) inside
      · intro tested beyond
        exact Function.update_of_ne (by omega) _ _
    | some other =>
      have used : ¬ Free (descriptors slots) fd := by
        rintro ⟨-, empty⟩
        rw [same, content] at empty
        contradiction
      constructor <;> simp [serve, vfsContextOpenat, specify, below, content, used, inside]
  · have beyond : fd ≥ configMaxFd := by omega
    have outside : ¬ Free (descriptors slots) fd := fun free => inside free.1
    constructor <;> simp [serve, vfsContextOpenat, specify, beyond, outside, inside]

/-- `vfs_context_close` refines the partial map. -/
theorem close_refines (slots : Slots) (files : Files) (fd : Nat) : Refines slots files (.close fd) := by
  by_cases inside : fd < configMaxFd
  · have below : ¬ fd ≥ configMaxFd := by omega
    have same := descriptors_inside slots fd inside
    cases content : slots fd with
    | none =>
      rw [content] at same
      constructor <;> simp [serve, vfsContextClose, specify, below, content, same, inside]
    | some file =>
      rw [content] at same
      constructor <;> simp [serve, vfsContextClose, specify, specifyFiles, below, content, same, inside]
      · exact descriptors_update slots fd none inside
      · intro tested beyond
        exact Function.update_of_ne (by omega) _ _
  · have beyond : fd ≥ configMaxFd := by omega
    have outside : descriptors slots fd = none := if_neg inside
    constructor <;> simp [serve, vfsContextClose, specify, beyond, outside]

/-- `vfs_context_get` refines the partial map for descriptors of the table. -/
theorem get_refines (slots : Slots) (files : Files) (fd : Nat) (inside : fd < configMaxFd) :
    Refines slots files (.get fd) := by
  have same := descriptors_inside slots fd inside
  cases content : slots fd with
  | none =>
    rw [content] at same
    constructor <;> simp [serve, vfsContextGet, specify, content, same, inside]
  | some file =>
    rw [content] at same
    constructor <;> simp [serve, vfsContextGet, specify, specifyFiles, content, same, inside]

/-- The descriptor functions refine a partial map, whatever the table, the counts
and the request are, with the exception of `vfs_context_get` on a descriptor that
is not below `CONFIG_MAX_FD`. -/
theorem descriptor_table_refines_iff (slots : Slots) (files : Files) (request : Request) :
    Refines slots files request ↔ ∀ fd, request = .get fd → fd < configMaxFd := by
  constructor
  · rintro refines fd rfl
    have first : fd ∈ (serve slots files (.get fd)).touched := by
      rw [serve, vfsContextGet]
      split <;> simp
    exact refines.inside fd first
  · intro bounded
    cases request with
    | opening file => exact open_refines slots files file
    | openat fd file => exact openat_refines slots files fd file
    | close fd => exact close_refines slots files fd
    | get fd => exact get_refines slots files fd (bounded fd rfl)

/-- The first descriptor behind the table is served from memory that is not the
table's: an empty table gives out a file. -/
theorem get_behind_table :
    (∀ fd < configMaxFd, vfsContextInit (fun _ => some 7) fd = none) ∧
      (vfsContextGet (vfsContextInit (fun _ => some 7)) ⟨fun _ => 0, []⟩ 64).result = .ok 7 ∧
      ¬ Refines (vfsContextInit (fun _ => some 7)) ⟨fun _ => 0, []⟩ (.get 64) := by
  have served : (vfsContextGet (vfsContextInit (fun _ => some 7)) ⟨fun _ => 0, []⟩ 64).result =
      .ok 7 := rfl
  refine ⟨fun fd inside => if_pos inside, served, fun refines => ?_⟩
  have specified := refines.result
  rw [serve, served] at specified
  exact absurd specified (by simp [specify, descriptors, configMaxFd])

end Asym.FileTables
