import Asym.EventRuns
import Asym.SegmentLoads

/-!
# The cursor of a file of the ram disk

`ramfs_seek` and `ramfs_read` move the position of an open file. The position stays inside of
the file, and a read returns what follows it.

A seek computes its target in `uint64_t` and stores the target or the size, whichever is
smaller, but returns the target as it is. So it returns the position of the next read, and a
target below zero never moves the position forward, if and only if the target is in the file,
or wraps to a place where nothing of this is lost. In a file of less than `2 ^ 63` bytes no
target wraps to such a place.
-/

namespace Asym.RamfsCursor

open MachineWords Ramfs SegmentLoads EventRuns

/-- A call that moves the position of a file. -/
inductive Call where
  | seek (offset : Int64) (origin : SeekOrigin)
  | read (count : Nat)
  deriving DecidableEq

/-- A signed offset in `uint64_t`. -/
def offsetWord (offset : Int64) : Nat := (offset.toInt % (wordSize : Int)).toNat

/-- The size of the file that is open. -/
def fileSize (memory : Memory) (file : File) : Nat := (memory.ramFiles file.privateAddress).size

/-- The file after a call. -/
def use (memory : Memory) (file : File) : Call → Option File
  | .seek offset origin => some (ramfsSeek memory file (offsetWord offset) origin).2
  | .read count => some (ramfsRead memory file count).2

/-- Where a seek is to go, as a number. -/
def target (memory : Memory) (file : File) (offset : Int64) : SeekOrigin → Int
  | .seekSet => offset.toInt
  | .seekCur => file.pos + offset.toInt
  | .seekEnd => fileSize memory file - offset.toInt
  | .other => 0

/-- The position is in the file, or at its end. -/
def Inside (memory : Memory) (size : Nat) (file : File) : Prop :=
  fileSize memory file = size ∧ file.pos ≤ size

/-- A seek returns the position that it leaves, in the file, and does not go forward to a target
below zero. A read returns the bytes that follow the position, and goes on behind them. -/
def Moves (memory : Memory) (file : File) : Call → Prop
  | .seek offset origin =>
      let sought := ramfsSeek memory file (offsetWord offset) origin
      sought.2.pos ≤ fileSize memory file ∧ sought.1 = sought.2.pos ∧
        (target memory file offset origin < 0 → sought.2.pos ≤ file.pos)
  | .read count =>
      let read := ramfsRead memory file count
      read.1 = ((fileBytes memory file).drop file.pos).take count ∧
        read.1.length = min count (fileSize memory file - file.pos) ∧
        read.2.pos = file.pos + read.1.length ∧ read.2.pos ≤ fileSize memory file

/-- The target of a seek is in the file, or a target below zero wraps to a place that is not
behind the position, or one that is too large wraps to a place in the file. -/
def Aimed (memory : Memory) (file : File) : Call → Prop
  | .seek offset origin =>
      let place := target memory file offset origin
      0 ≤ place ∧ place ≤ fileSize memory file ∨ place < 0 ∧ place + wordSize ≤ file.pos ∨
        wordSize ≤ place ∧ place - wordSize ≤ fileSize memory file
  | .read _ => True

/-- A signed offset is put into `uint64_t` by its remainder. -/
theorem offsetWord_eq (offset : Int64) : (offsetWord offset : Int) = offset.toInt % wordSize :=
  Int.toNat_of_nonneg (Int.emod_nonneg _ (by decide))

/-- The position that a seek computes is the remainder of its target. -/
theorem ramfsSeek_position (memory : Memory) (file : File) (offset : Int64) (origin : SeekOrigin) :
    ((ramfsSeek memory file (offsetWord offset) origin).1 : Int) =
      target memory file offset origin % wordSize := by
  have word := offsetWord_eq offset
  cases origin with
  | seekSet => exact word
  | seekCur =>
    simp only [ramfsSeek, target, add, wordSize] at word ⊢
    omega
  | seekEnd =>
    simp only [ramfsSeek, target, fileSize, sub, wordSize] at word ⊢
    omega
  | other => rfl

/-- A seek stores its position, or the size. -/
theorem ramfsSeek_pos (memory : Memory) (file : File) (offset : Nat) (origin : SeekOrigin) :
    (ramfsSeek memory file offset origin).2.pos =
      min (ramfsSeek memory file offset origin).1 (fileSize memory file) := rfl

/-- The target of a seek is not far from the words. -/
theorem target_bounds {memory : Memory} {size : Nat} {file : File} (inside : Inside memory size file)
    (offset : Int64) (origin : SeekOrigin) :
    -(2 ^ 63 : Int) ≤ target memory file offset origin ∧
      target memory file offset origin ≤ (size : Int) + 2 ^ 63 := by
  have above := offset.toInt_lt
  have below := offset.le_toInt
  obtain ⟨sameSize, inFile⟩ := inside
  cases origin <;> simp only [target, sameSize] <;> omega

/-- A seek moves as it should, if and only if its target is in the file or wraps to a harmless
place. -/
theorem seek_moves_iff {memory : Memory} {size : Nat} {file : File} (inside : Inside memory size file)
    (word : size < wordSize) (offset : Int64) (origin : SeekOrigin) :
    Moves memory file (.seek offset origin) ↔ Aimed memory file (.seek offset origin) := by
  obtain ⟨above, below⟩ := target_bounds inside offset origin
  have position := ramfsSeek_position memory file offset origin
  have stored := ramfsSeek_pos memory file (offsetWord offset) origin
  obtain ⟨sameSize, inFile⟩ := inside
  simp only [Moves, Aimed, sameSize] at stored ⊢
  rw [stored]
  generalize (ramfsSeek memory file (offsetWord offset) origin).1 = returned at position ⊢
  generalize target memory file offset origin = place at position above below ⊢
  rw [wordSize] at *
  omega

/-- A read moves as it should. -/
theorem read_moves {memory : Memory} {size : Nat} {file : File} (inside : Inside memory size file) (count : Nat) :
    Moves memory file (.read count) := by
  obtain ⟨sameSize, inFile⟩ := inside
  have length : (fileBytes memory file).length = size := by
    rw [fileBytes, List.length_map, List.length_range]
    exact sameSize
  obtain ⟨read, _, _, _⟩ := @ramfsRead_eq memory file (fileBytes memory file) rfl (by rw [length]; exact inFile) count
  have amount : (ramfsRead memory file count).1.length = min count (size - file.pos) := by
    rw [read, List.length_take, List.length_drop, length]
  have moved : (ramfsRead memory file count).2.pos = file.pos + min count (size - file.pos) := by
    simp only [ramfsRead]
    rw [show (memory.ramFiles file.privateAddress).size = size from sameSize, if_pos inFile]
  refine ⟨read, ?_, ?_, ?_⟩
  · rw [sameSize]
    exact amount
  · rw [amount]
    exact moved
  · rw [moved, sameSize]
    omega

/-- No call leaves the file, wherever it is to go. -/
theorem use_inside {memory : Memory} {size : Nat} {file next : File} {call : Call} (inside : Inside memory size file)
    (taken : use memory file call = some next) : Inside memory size next := by
  cases call with
  | seek offset origin =>
    obtain rfl := Option.some.inj taken
    refine ⟨inside.1, ?_⟩
    rw [ramfsSeek_pos, inside.1]
    exact Nat.min_le_right _ _
  | read count =>
    obtain rfl := Option.some.inj taken
    obtain ⟨_, _, _, stays⟩ := read_moves inside count
    rw [inside.1] at stays
    exact ⟨inside.1, stays⟩

/-- Seeks and reads form a cursor, if and only if each seek is aimed at the file.

Proof: no call leaves the file, and in the file a seek moves as it should exactly if it is aimed. A read
always does. -/
theorem cursor_iff {memory : Memory} {size : Nat} {file : File} (inside : Inside memory size file)
    (word : size < wordSize) (calls : List Call) :
    Each (use memory) file (Moves memory) calls ↔ Each (use memory) file (Aimed memory) calls := by
  refine each_iff_each inside ?_ (fun _ _ _ before _ taken => use_inside before taken) calls
  intro state call inState
  cases call with
  | seek offset origin => exact seek_moves_iff inState word offset origin
  | read count => exact iff_of_true (read_moves inState count) trivial

/-- Memory with one file of three bytes. -/
def threeBytes : Memory where
  nodes := fun _ => ⟨ramfsFile, none, [], []⟩
  ramFiles := fun _ => ⟨0, 3⟩
  blocks := fun _ offset => UInt8.ofNat (7 + offset)
  used := []

/-- A file at its start. -/
def atStart : File := ⟨0, 0, 0, none, .ramfs⟩

/-- A seek into a file of three bytes and a read move its cursor. -/
theorem cursor_threeBytes : Each (use threeBytes) atStart (Moves threeBytes) [.seek 1 .seekEnd, .read 5] := by
  have aimed : Each (use threeBytes) atStart (Aimed threeBytes) [.seek 1 .seekEnd, .read 5] :=
    each_cons (by rw [Aimed]; decide) rfl <| each_cons trivial rfl each_nil
  exact (cursor_iff (show Inside threeBytes 3 atStart from ⟨rfl, Nat.zero_le _⟩) (by decide) _).mpr aimed

/-- A seek to one byte before the start goes to the end of the file. -/
theorem seek_before_start :
    ¬ Each (use threeBytes) atStart (Moves threeBytes) [.seek (-1) .seekSet] := by
  intro moves
  obtain ⟨_, _, notForward⟩ := moves [] (.seek (-1) .seekSet) atStart _ (List.prefix_refl _) rfl rfl
  exact absurd (notForward (by decide)) (by decide)

end Asym.RamfsCursor
