import Asym.Scheduler

/-!
# Polling

A model of `vfs_poll` and `vfs_poll_condition`. What the status operation of a file finds
depends on a world that changes between the turns of the loop; the worlds of the turns and the
readings of the clock are arguments.
-/

namespace Asym.Polling

open MachineWords Scheduler

/-- `POLL_READ`. -/
def pollRead : Nat := 1 <<< 0

/-- `POLL_WRITE`. -/
def pollWrite : Nat := 1 <<< 1

/-- `poll_file_t`. -/
structure PollFile (File : Type) where
  file : File
  requested : Nat
  occurred : Nat

/-- A status operation, if a file has one: what it writes into `occurred`, or no result for
`ERR`. -/
abbrev StatusOf (File World : Type) := File → Option (World → Option Nat)

variable {File World : Type}

/-- The test of one file: `none` stands for `ERR`. A file without a status operation is never
tested. -/
def occurredOf (status : StatusOf File World) (world : World) (file : File) : Option Nat :=
  (status file).bind fun operation => operation world

/-- The loop of `vfs_poll_condition` from a number of events on, and the files with what
occurred. The events are `ERR` once a status operation fails. -/
def countEvents (status : StatusOf File World) (world : World) (events : Nat) :
    List (PollFile File) → Option Nat × List (PollFile File)
  | [] => (some events, [])
  | file :: rest =>
      match occurredOf status world file.file with
      | none => (none, file :: rest)
      | some occurred =>
          let counted := if occurred &&& file.requested ≠ 0 then events + 1 else events
          let (total, tested) := countEvents status world counted rest
          (total, { file with occurred := occurred } :: tested)

/-- `vfs_poll_condition`: whether it returns true is read off the events. -/
def vfsPollCondition (status : StatusOf File World) (world : World) (files : List (PollFile File)) :
    Option Nat × List (PollFile File) :=
  countEvents status world 0 files

/-- One turn of the loop of `vfs_poll`: the world that the condition sees, and the uptime that
is read after it. -/
structure Turn (World : Type) where
  world : World
  uptime : Nat

/-- What `vfs_poll` returns, the files, and the uptime of the last turn. No value stands for
`ERR`. -/
structure Polled (File : Type) where
  value : Option Nat
  files : List (PollFile File)
  uptime : Nat

/-- The loop of `vfs_poll`. There is no result while it goes on. -/
def pollTurns (status : StatusOf File World) (deadline : Nat) (files : List (PollFile File)) :
    List (Turn World) → Option (Polled File)
  | [] => none
  | turn :: later =>
      match vfsPollCondition status turn.world files with
      | (none, tested) => some ⟨none, tested, turn.uptime⟩
      | (some events, tested) =>
          if events ≠ 0 then some ⟨some events, tested, turn.uptime⟩
          else if deadline > turn.uptime then pollTurns status deadline tested later
          else some ⟨some events, tested, turn.uptime⟩

/-- The deadline of a timeout at an uptime. -/
def deadlineOf (timeout uptime : Nat) : Nat := if timeout = never then never else add timeout uptime

/-- `vfs_poll`. -/
def vfsPoll (status : StatusOf File World) (files : List (PollFile File)) (timeout uptime : Nat)
    (turns : List (Turn World)) : Option (Polled File) :=
  if files.any fun file => (status file.file).isNone then some ⟨none, files, uptime⟩
  else pollTurns status (deadlineOf timeout uptime) files turns

/-- The number of files whose requested events occurred. -/
def readyAmount (status : StatusOf File World) (world : World) (files : List (PollFile File)) : Nat :=
  files.countP fun file => (occurredOf status world file.file).any fun occurred =>
    occurred &&& file.requested ≠ 0

/-- If no status operation fails, the condition counts the files whose requested events
occurred. -/
theorem countEvents_ready (status : StatusOf File World) (world : World) (events : Nat)
    (files : List (PollFile File)) (works : ∀ file ∈ files, (occurredOf status world file.file).isSome) :
    (countEvents status world events files).1 = some (events + readyAmount status world files) := by
  induction files generalizing events with
  | nil => rfl
  | cons file rest ih =>
    obtain ⟨occurred, here⟩ := Option.isSome_iff_exists.mp (works file List.mem_cons_self)
    have later := fun counted => ih counted fun other member =>
      works other (List.mem_cons_of_mem file member)
    rw [countEvents, here]
    simp only [later, readyAmount, List.countP_cons, here, Option.any_some, decide_eq_true_eq]
    split_ifs with happened
    · rw [Nat.add_right_comm, Nat.add_assoc]
    · rfl

/-- The loop gives up at an uptime that is not before the deadline. -/
theorem pollTurns_late {status : StatusOf File World} {deadline : Nat} {files : List (PollFile File)}
    {turns : List (Turn World)} {polled : Polled File} (ended : pollTurns status deadline files turns = some polled)
    (nothing : polled.value = some 0) : deadline ≤ polled.uptime ∧ ∃ turn ∈ turns, turn.uptime = polled.uptime := by
  induction turns generalizing files with
  | nil => cases ended
  | cons turn later ih =>
    rw [pollTurns] at ended
    split at ended
    · cases ended
      cases nothing
    · next events tested _ =>
      split_ifs at ended with happened goesOn
      · cases ended
        exact absurd (Option.some.inj nothing) happened
      · obtain ⟨late, other, member, same⟩ := ih ended
        exact ⟨late, other, List.mem_cons_of_mem turn member, same⟩
      · cases ended
        exact ⟨Nat.not_lt.mp goesOn, turn, List.mem_cons_self, rfl⟩

end Asym.Polling
