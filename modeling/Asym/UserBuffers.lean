import Asym.MappingRequests
import Mathlib.Tactic.Ring

/-!
# User buffers of system calls

A model of the buffer checks of `syscall.c` and of what the kernel then does
through the checked pointers. The check is three wrapping computations in a row:
the end of the buffer, the lengthening of the region to its first page, and the
number of pages.

For every system call that passes a buffer on, `accesses` lists the byte
intervals, as offsets from the pointer, that the functions behind it may touch:
the event loops of the keyboard and the mouse, the copies of the ram disk and
the pipe, the request structures of the window files, the poll array, the
directory entries and the rows of a window flush. The check is compared with
these intervals.
-/

namespace Asym.UserBuffers

open MachineWords PhysicalMemory PageEntries PageTables PageTree PageRefinement VirtualMemory
open MappingRequests

/-- `VMM_LOWER_HALF_MAX`. -/
def vmmLowerHalfMax : Nat := 0x800000000000

/-- `verify_pointer`. -/
def verifyPointer (pointer length : Nat) : Bool :=
  if pointer = 0 then false
  else if vmmLowerHalfMax < add pointer length then false
  else true

/-- `verify_buffer`. -/
def verifyBuffer (space : Space) (pointer length : Nat) : Bool :=
  if !verifyPointer pointer length then false
  else if !vmmMapped space pointer length then false
  else true

/-- Number of pages that the check of a buffer visits. -/
def checkedPages (pointer length : Nat) : Nat := sizeInPages (add length (pointer % pageSize))

/-- What the check is for: the buffer ends in the lower half and all its bytes
lie on mapped pages. The end is computed without wrapping. -/
def BufferMapped (space : Space) (pointer length : Nat) : Prop :=
  pointer + length ≤ vmmLowerHalfMax ∧
    ∀ byte, pointer ≤ byte → byte < pointer + length →
      (translation space.memory.tables space.pml (byte / pageSize)).isSome

/-- The mapping test of a buffer visits consecutive pages from the page of the
pointer on. -/
theorem vmmMapped_iff (space : Space) (pointer length : Nat)
    (tree : Tree space.memory.tables space.pml) :
    vmmMapped space pointer length = true ↔
      RunMapped (translation space.memory.tables space.pml) (pageNumber pointer)
        (checkedPages pointer length) := by
  have offset : sub pointer (roundDown pointer pageSize) = pointer % pageSize := by
    simp only [sub, roundDown, pageSize, wordSize]
    omega
  rw [vmmMapped, vmmAlignRegion, offset, mapped_iff _ _ _ tree, page_roundDown]
  rfl

/-- The check as a condition on the pointer, the wrapped end and the visited
pages. -/
theorem verifyBuffer_iff (space : Space) (pointer length : Nat)
    (tree : Tree space.memory.tables space.pml) :
    verifyBuffer space pointer length = true ↔
      pointer ≠ 0 ∧ add pointer length ≤ vmmLowerHalfMax ∧
        RunMapped (translation space.memory.tables space.pml) (pageNumber pointer)
          (checkedPages pointer length) := by
  rw [← vmmMapped_iff space pointer length tree, verifyBuffer, verifyPointer]
  by_cases null : pointer = 0
  · simp [null]
  · by_cases beyond : vmmLowerHalfMax < add pointer length
    · have above : ¬add pointer length ≤ vmmLowerHalfMax := Nat.not_le.mpr beyond
      simp [null, beyond, above]
    · have below : add pointer length ≤ vmmLowerHalfMax := Nat.not_lt.mp beyond
      simp [null, beyond, below]

/-- Without a wrap the visited pages are those that hold the buffer's bytes. -/
theorem byte_position {pointer length byte : Nat}
    (low : pointer + length ≤ vmmLowerHalfMax) (first : pointer ≤ byte)
    (last : byte < pointer + length) : ∃ position < checkedPages pointer length,
      (pageNumber pointer + position) % pageCount = byte / pageSize := by
  refine ⟨byte / pageSize - pointer / pageSize, ?_, ?_⟩
  · simp only [checkedPages, sizeInPages, add, sub, pageSize, wordSize, vmmLowerHalfMax] at *
    omega
  · simp only [pageNumber, pageCount, pageSize, vmmLowerHalfMax] at *
    omega

/-- The check of a buffer is sound exactly when its end does not wrap, or the
wrapped end is refused, or one of the pages visited is unmapped. -/
theorem verifyBuffer_sound_iff {space : Space} {pointer length : Nat}
    (tree : Tree space.memory.tables space.pml) (pointerWord : pointer < wordSize)
    (lengthWord : length < wordSize) :
    (verifyBuffer space pointer length = true → BufferMapped space pointer length) ↔
      pointer + length < wordSize ∨ vmmLowerHalfMax < pointer + length - wordSize ∨
        ¬RunMapped (translation space.memory.tables space.pml) (pageNumber pointer)
          (checkedPages pointer length) := by
  rw [verifyBuffer_iff space pointer length tree]
  by_cases fits : pointer + length < wordSize
  · simp only [fits, true_or, iff_true]
    rintro ⟨_, low, mapped⟩
    rw [add_of_lt _ _ fits] at low
    refine ⟨low, ?_⟩
    intro byte first last
    obtain ⟨position, less, here⟩ := byte_position low first last
    rw [← here]
    exact mapped position less
  · have wrapped : add pointer length = pointer + length - wordSize := by
      simp only [add, wordSize] at *
      omega
    have notNull : pointer ≠ 0 := by omega
    have refuted : ¬BufferMapped space pointer length := by
      rintro ⟨low, _⟩
      simp only [vmmLowerHalfMax, wordSize] at *
      omega
    rw [wrapped]
    simp only [ne_eq, notNull, not_false_eq_true, true_and, refuted, imp_false, fits, false_or,
      not_and_or, Nat.not_le]

/-- A byte interval, as an offset from a buffer and a number of bytes. -/
abbrev Interval := Nat × Nat

/-- Every byte of the intervals lies among the first `size` bytes after the
pointer. Addresses wrap, so offsets are compared modulo the address range. -/
def Within (intervals : List Interval) (size : Nat) : Prop :=
  ∀ interval ∈ intervals, ∀ byte < interval.2, (interval.1 + byte) % wordSize < size

/-- Consecutive records from the start of a buffer. -/
def records (width amount : Nat) : List Interval :=
  (List.range amount).map (fun index => (index * width, width))

/-- `RING_SIZE`. -/
def ringSize : Nat := 100

/-- The copies of `ring_read` and `ring_write` on the caller's buffer: one, or
two when the transfer passes the end of the ring. -/
def ringCopies (index : Fin ringSize) (count : Nat) : List Interval :=
  if count < ringSize - index then [(0, count)]
  else [(0, ringSize - index), (ringSize - index, count - (ringSize - index))]

/-- The functions behind `read`, with the state that decides how much they
copy: how many events arrive before the read ends, the position and size of a
ram disk file, the state of a pipe. -/
inductive Reader where
  | kbd (events : Nat)
  | mouse (events : Nat)
  | ramfs (pos size : Nat)
  | pipe (writeClosed : Bool) (dataLength : Nat) (readIndex : Fin ringSize)

/-- `sizeof(kbd_event_t)`. -/
def kbdEventSize : Nat := 24

/-- `sizeof(mouse_event_t)`. -/
def mouseEventSize : Nat := 32

/-- Bytes written by the functions behind `read`. -/
def readAccesses (count : Nat) : Reader → List Interval
  | .kbd events =>
      records kbdEventSize (min events (roundDown count kbdEventSize / kbdEventSize))
  | .mouse events =>
      records mouseEventSize (min events (roundDown count mouseEventSize / mouseEventSize))
  | .ramfs pos size => [(0, if pos ≤ size then min count (size - pos) else 0)]
  | .pipe writeClosed dataLength readIndex =>
      if ringSize ≤ count then []
      else ringCopies readIndex (if writeClosed then min count dataLength else count)

/-- Bytes read by `pipe_write`, the only function behind `write`. -/
def writeAccesses (count : Nat) (readClosed : Bool) (writeIndex : Fin ringSize) : List Interval :=
  if ringSize ≤ count then [] else if readClosed then [] else ringCopies writeIndex count

/-- The requests of `window_ioctl` and `dwm_ioctl`. -/
inductive IoctlRequest where
  | windowReceive
  | windowSend
  | windowMove
  | dwmCreate
  | dwmSize
  | unknown

/-- Size of the structure of a request, which the request's size must equal. -/
def IoctlRequest.size : IoctlRequest → Option Nat
  | .windowReceive => some 88
  | .windowSend => some 80
  | .windowMove => some 24
  | .dwmCreate => some 64
  | .dwmSize => some 8
  | .unknown => none

/-- Bytes accessed by the functions behind `ioctl`. -/
def ioctlAccesses (request : IoctlRequest) (size : Nat) : List Interval :=
  if request.size = some size then [(0, size)] else []

/-- `sizeof(pollfd_t)`. -/
def pollfdSize : Nat := 16

/-- `CONFIG_MAX_FD`. -/
def configMaxFd : Nat := 64

/-- `sizeof(stat_t)`. -/
def statSize : Nat := 16

/-- `sizeof(pipefd_t)`. -/
def pipefdSize : Nat := 16

/-- `sizeof(rect_t)`. -/
def rectSize : Nat := 32

/-- `sizeof(dir_entry_t)`. -/
def dirEntrySize : Nat := 36

/-- Entries written by successive calls of `dir_entry_push`, one for each child
of the directory. -/
def listdirAccesses (amount : Nat) : Nat → Nat → List Interval
  | 0, _ => []
  | children + 1, index =>
      if index < amount then
        (index * dirEntrySize % wordSize, dirEntrySize) :: listdirAccesses amount children (index + 1)
      else listdirAccesses amount children index

/-- `rect_t`, with its four signed coordinates. -/
structure Rect where
  left : Int
  top : Int
  right : Int
  bottom : Int

/-- The dimensions of a window's surface, each a `uint32_t`. -/
structure Surface where
  width : Nat
  height : Nat
  stride : Nat
  widthWord : width < 2 ^ 32
  heightWord : height < 2 ^ 32
  strideWord : stride < 2 ^ 32

/-- `sizeof(pixel_t)`. -/
def pixelSize : Nat := 4

/-- The size a flush must have. The product of the dimensions is a `uint32_t`. -/
def surfaceSize (surface : Surface) : Nat := surface.width * surface.height % 2 ^ 32 * pixelSize

/-- The tests of `window_flush` on its rectangle. -/
def rectAccepted (surface : Surface) (rect : Rect) : Bool :=
  !(rect.left > rect.right || rect.top > rect.bottom || rect.right > surface.width ||
    rect.bottom > surface.height)

/-- Number of rows copied: `RECT_HEIGHT`, a signed 64-bit difference. -/
def flushRows (rect : Rect) : Nat := (Int.bmod (rect.bottom - rect.top) wordSize).toNat

/-- Offset of the row at position `row` of the rectangle. -/
def rowOffset (surface : Surface) (rect : Rect) (row : Nat) : Nat :=
  ((rect.left + (rect.top + row) * surface.stride) * pixelSize % wordSize).toNat

/-- Bytes copied for each row: `RECT_WIDTH` times the size of a pixel. -/
def rowBytes (rect : Rect) : Nat := ((rect.right - rect.left) * pixelSize % wordSize).toNat

/-- Rows that `window_flush` reads from the buffer. -/
def flushAccesses (surface : Surface) (rect : Rect) (size : Nat) : List Interval :=
  if size ≠ surfaceSize surface then []
  else if !rectAccepted surface rect then []
  else (List.range (flushRows rect)).map (fun row => (rowOffset surface rect row, rowBytes rect))

/-- The system calls that pass a buffer on. A flush passes two. -/
inductive BufferCall where
  | read (reader : Reader) (buffer count : Nat)
  | write (readClosed : Bool) (writeIndex : Fin ringSize) (buffer count : Nat)
  | ioctl (request : IoctlRequest) (argp size : Nat)
  | poll (fds amount : Nat)
  | stat (buffer : Nat)
  | flush (surface : Surface) (area : Rect) (buffer size rect : Nat)
  | flushRect (buffer size rect : Nat)
  | listdir (children entries amount : Nat)
  | pipe (pipefd : Nat)

/-- The tests a system call makes before it passes its buffer on. -/
def passesOn (space : Space) : BufferCall → Bool
  | .read _ buffer count => verifyBuffer space buffer count
  | .write _ _ buffer count => verifyBuffer space buffer count
  | .ioctl _ argp size => verifyBuffer space argp size
  | .poll fds amount =>
      !(amount == 0 || amount > configMaxFd) && verifyBuffer space fds (mul pollfdSize amount)
  | .stat buffer => verifyBuffer space buffer statSize
  | .flush _ _ buffer size rect => verifyBuffer space buffer size && verifyBuffer space rect rectSize
  | .flushRect buffer size rect => verifyBuffer space buffer size && verifyBuffer space rect rectSize
  | .listdir _ entries amount =>
      !(entries != 0 && !verifyBuffer space entries (mul dirEntrySize amount))
  | .pipe pipefd => verifyBuffer space pipefd pipefdSize

/-- Number of bytes verified from the pointer on. A directory listing without a
buffer is passed on unverified. -/
def verifiedBytes : BufferCall → Nat
  | .read _ _ count => count
  | .write _ _ _ count => count
  | .ioctl _ _ size => size
  | .poll _ amount => mul pollfdSize amount
  | .stat _ => statSize
  | .flush _ _ _ size _ => size
  | .flushRect _ _ _ => rectSize
  | .listdir _ entries amount => if entries = 0 then 0 else mul dirEntrySize amount
  | .pipe _ => pipefdSize

/-- Bytes the kernel may access through the pointer. -/
def accesses : BufferCall → List Interval
  | .read reader _ count => readAccesses count reader
  | .write readClosed writeIndex _ count => writeAccesses count readClosed writeIndex
  | .ioctl request _ size => ioctlAccesses request size
  | .poll _ amount => records pollfdSize amount
  | .stat _ => [(0, statSize)]
  | .flush surface area _ size _ => flushAccesses surface area size
  | .flushRect _ _ _ => [(0, rectSize)]
  | .listdir children _ amount => listdirAccesses amount children 0
  | .pipe _ => [(0, pipefdSize)]

/-- Intervals that end inside the buffer stay within it. -/
theorem within_of_ends (intervals : List Interval) (size : Nat)
    (ends : ∀ interval ∈ intervals, interval.1 + interval.2 ≤ size) : Within intervals size := by
  intro interval member byte less
  have inside := ends interval member
  have reduced := Nat.mod_le (interval.1 + byte) wordSize
  omega

/-- Records that fit the buffer stay within it. -/
theorem within_records {width amount size : Nat} (fits : amount * width ≤ size) :
    Within (records width amount) size := by
  apply within_of_ends
  intro interval member
  simp only [records, List.mem_map, List.mem_range] at member
  obtain ⟨index, less, rfl⟩ := member
  calc index * width + width = (index + 1) * width := (Nat.succ_mul index width).symm
    _ ≤ amount * width := Nat.mul_le_mul_right width less
    _ ≤ size := fits

/-- The copies of a ring transfer cover the transferred bytes. -/
theorem within_ringCopies (index : Fin ringSize) (count size : Nat) (fits : count ≤ size) :
    Within (ringCopies index count) size := by
  apply within_of_ends
  intro interval member
  rw [ringCopies] at member
  split at member
  · simp only [List.mem_singleton] at member
    subst member
    omega
  · simp only [List.mem_cons, List.not_mem_nil, or_false] at member
    rcases member with rfl | rfl <;> simp only <;> omega

/-- Every function behind `read` stays within the requested count. -/
theorem within_read (reader : Reader) (count : Nat) : Within (readAccesses count reader) count := by
  have rounded : ∀ events width, min events (roundDown count width / width) * width ≤ count := by
    intro events width
    calc min events (roundDown count width / width) * width
        ≤ roundDown count width / width * width := Nat.mul_le_mul_right width (Nat.min_le_right _ _)
      _ ≤ roundDown count width := Nat.div_mul_le_self _ _
      _ ≤ count := Nat.div_mul_le_self _ _
  cases reader with
  | kbd events => exact within_records (rounded events kbdEventSize)
  | mouse events => exact within_records (rounded events mouseEventSize)
  | ramfs pos size =>
    apply within_of_ends
    intro interval member
    simp only [readAccesses, List.mem_singleton] at member
    subst member
    simp only
    split <;> omega
  | pipe writeClosed dataLength readIndex =>
    rw [readAccesses]
    split
    · exact within_of_ends _ _ (by simp)
    · apply within_ringCopies
      split <;> omega

/-- `pipe_write` stays within the requested count. -/
theorem within_write (count : Nat) (readClosed : Bool) (writeIndex : Fin ringSize) :
    Within (writeAccesses count readClosed writeIndex) count := by
  rw [writeAccesses]
  split
  · exact within_of_ends _ _ (by simp)
  · split
    · exact within_of_ends _ _ (by simp)
    · exact within_ringCopies writeIndex count count (Nat.le_refl count)

/-- The functions behind `ioctl` access a structure of exactly the given size or
nothing. -/
theorem within_ioctl (request : IoctlRequest) (size : Nat) :
    Within (ioctlAccesses request size) size := by
  apply within_of_ends
  intro interval member
  rw [ioctlAccesses] at member
  split at member
  · simp only [List.mem_singleton] at member
    subst member
    simp
  · simp at member

/-- The directory entries written are those below both the amount and the number
of children. -/
theorem mem_listdir (amount children index : Nat) (interval : Interval) :
    interval ∈ listdirAccesses amount children index ↔
      ∃ entry, index ≤ entry ∧ entry < index + children ∧ entry < amount ∧
        interval = (entry * dirEntrySize % wordSize, dirEntrySize) := by
  induction children generalizing index with
  | zero =>
    simp only [listdirAccesses, List.not_mem_nil, false_iff]
    rintro ⟨entry, low, high, _⟩
    omega
  | succ children ih =>
    rw [listdirAccesses]
    split
    · rename_i room
      rw [List.mem_cons, ih]
      constructor
      · rintro (rfl | ⟨entry, low, high, below, rfl⟩)
        · exact ⟨index, Nat.le_refl index, by omega, room, rfl⟩
        · exact ⟨entry, by omega, by omega, below, rfl⟩
      · rintro ⟨entry, low, high, below, rfl⟩
        rcases Nat.eq_or_lt_of_le low with rfl | later
        · exact .inl rfl
        · exact .inr ⟨entry, later, by omega, below, rfl⟩
    · rename_i full
      rw [ih]
      constructor
      · rintro ⟨entry, low, high, below, _⟩
        omega
      · rintro ⟨entry, low, high, below, _⟩
        omega

/-- The directory entries stay within the verified bytes exactly when all of
them fit. If they do not, the byte after the verified ones is written. -/
theorem within_listdir_iff (amount children size : Nat) (word : size < wordSize) :
    Within (listdirAccesses amount children 0) size ↔
      dirEntrySize * min children amount ≤ size := by
  have positive : 0 < dirEntrySize := by decide
  constructor
  · intro within
    by_contra more
    have entry : size / dirEntrySize < min children amount :=
      (Nat.div_lt_iff_lt_mul positive).mpr (by rw [Nat.mul_comm]; omega)
    have member : (size / dirEntrySize * dirEntrySize % wordSize, dirEntrySize) ∈
        listdirAccesses amount children 0 :=
      (mem_listdir amount children 0 _).mpr
        ⟨size / dirEntrySize, Nat.zero_le _, by omega, by omega, rfl⟩
    have beyond := within _ member (size % dirEntrySize) (Nat.mod_lt _ positive)
    simp only [Nat.mod_add_mod] at beyond
    rw [Nat.div_add_mod' size dirEntrySize, Nat.mod_eq_of_lt word] at beyond
    omega
  · intro fits interval member byte less
    obtain ⟨entry, _, high, below, rfl⟩ := (mem_listdir amount children 0 _).mp member
    simp only at less ⊢
    rw [Nat.mod_add_mod]
    have reduced := Nat.mod_le (entry * dirEntrySize + byte) wordSize
    have whole : dirEntrySize * (entry + 1) ≤ dirEntrySize * min children amount :=
      Nat.mul_le_mul_left dirEntrySize (by omega)
    rw [Nat.mul_succ, Nat.mul_comm dirEntrySize entry] at whole
    omega

/-- One interval stays within a buffer exactly when it is empty or ends inside.
If it does not, the byte after the buffer is among its bytes. -/
theorem interval_within_iff (offset count size : Nat) (word : size < wordSize)
    (offsetWord : offset < wordSize) :
    (∀ byte < count, (offset + byte) % wordSize < size) ↔ count = 0 ∨ offset + count ≤ size := by
  constructor
  · intro within
    by_contra outside
    rw [not_or, Nat.not_le] at outside
    by_cases starts : offset < size
    · have beyond := within (size - offset) (by omega)
      rw [Nat.add_sub_cancel' (Nat.le_of_lt starts), Nat.mod_eq_of_lt word] at beyond
      omega
    · have first := within 0 (by omega)
      rw [Nat.add_zero, Nat.mod_eq_of_lt offsetWord] at first
      omega
  · intro fits byte less
    have reduced := Nat.mod_le (offset + byte) wordSize
    omega

/-- Rows follow each other at the distance of the stride. -/
theorem rowOffset_eq (surface : Surface) (rect : Rect) (row : Nat) :
    rowOffset surface rect row =
      (rowOffset surface rect 0 + row * (surface.stride * pixelSize)) % wordSize := by
  have words : (wordSize : Int) = 2 ^ 64 := by decide
  have spread : (rect.left + (rect.top + row) * surface.stride) * pixelSize =
      (rect.left + (rect.top + (0 : Nat)) * surface.stride) * pixelSize +
        ((row * (surface.stride * pixelSize) : Nat) : Int) := by
    push_cast
    ring
  rw [rowOffset, rowOffset, spread]
  generalize (rect.left + (rect.top + (0 : Nat)) * surface.stride) * pixelSize = first
  generalize row * (surface.stride * pixelSize) = distance
  rw [words]
  simp only [wordSize]
  omega

/-- Every row offset is a machine word. -/
theorem rowOffset_lt (surface : Surface) (rect : Rect) (row : Nat) :
    rowOffset surface rect row < wordSize := by
  rw [rowOffset_eq]
  exact Nat.mod_lt _ (by decide)

/-- The size of a surface is far below the address range. -/
theorem surfaceSize_lt (surface : Surface) : surfaceSize surface < 2 ^ 34 := by
  simp only [surfaceSize, pixelSize]
  omega

/-- Where the last row ends, counted from the start of the first. -/
def flushEnd (surface : Surface) (rect : Rect) : Nat :=
  rowOffset surface rect 0 + (flushRows rect - 1) * (surface.stride * pixelSize) + rowBytes rect

/-- The rows of an accepted flush stay within the surface size exactly when none
is copied or the last one ends inside. Row by row, as long as a row is inside,
the next one is found one stride further without a wrap. -/
theorem within_rows_iff (surface : Surface) (rect : Rect) (size : Nat)
    (exactly : size = surfaceSize surface) :
    Within ((List.range (flushRows rect)).map
        (fun row => (rowOffset surface rect row, rowBytes rect))) size ↔
      flushRows rect = 0 ∨ rowBytes rect = 0 ∨ flushEnd surface rect ≤ size := by
  have small : size < 2 ^ 34 := exactly ▸ surfaceSize_lt surface
  have word : size < wordSize := Nat.lt_trans small (by decide)
  have step : surface.stride * pixelSize < 2 ^ 34 := by
    have bound := surface.strideWord
    simp only [pixelSize]
    omega
  have rows : Within ((List.range (flushRows rect)).map
      (fun row => (rowOffset surface rect row, rowBytes rect))) size ↔
        ∀ row < flushRows rect,
          rowBytes rect = 0 ∨ rowOffset surface rect row + rowBytes rect ≤ size := by
    simp only [Within, List.forall_mem_map, List.mem_range,
      fun row => interval_within_iff _ (rowBytes rect) size word (rowOffset_lt surface rect row)]
  rw [rows]
  by_cases empty : rowBytes rect = 0
  · simp [empty]
  · simp only [empty, false_or]
    constructor
    · intro inside
      have placed : ∀ row < flushRows rect, rowOffset surface rect 0 +
          row * (surface.stride * pixelSize) + rowBytes rect ≤ size := by
        intro row less
        induction row with
        | zero => simpa using inside 0 less
        | succ row ih =>
          have before := ih (by omega)
          have here := inside (row + 1) less
          rw [rowOffset_eq, Nat.succ_mul, ← Nat.add_assoc, Nat.mod_eq_of_lt] at here
          · rwa [Nat.succ_mul, ← Nat.add_assoc]
          · simp only [wordSize]
            omega
      rcases Nat.eq_zero_or_pos (flushRows rect) with none | some
      · exact .inl none
      · exact .inr (placed (flushRows rect - 1) (by omega))
    · rintro (none | ends) row less
      · omega
      · have ordered : row * (surface.stride * pixelSize) ≤
            (flushRows rect - 1) * (surface.stride * pixelSize) :=
          Nat.mul_le_mul_right _ (by omega)
        have reduced := Nat.mod_le (rowOffset surface rect 0 + row * (surface.stride * pixelSize))
          wordSize
        rw [rowOffset_eq]
        rw [flushEnd] at ends
        omega

/-- When a system call that passes its buffer on has verified enough. All calls
but two always have. A listing that writes any entry needs a buffer, and the
product of the entry size and the amount must not wrap, or at least leave room
for the entries written. A flush that copies any row must have its last row end
within the given size, counted from its first one. -/
def VerifiesEnough : BufferCall → Prop
  | .listdir children entries amount =>
      min children amount = 0 ∨ (entries ≠ 0 ∧ (dirEntrySize * amount < wordSize ∨
        dirEntrySize * min children amount ≤ dirEntrySize * amount % wordSize))
  | .flush surface area _ size _ =>
      size ≠ surfaceSize surface ∨ rectAccepted surface area = false ∨ flushRows area = 0 ∨
        rowBytes area = 0 ∨ flushEnd surface area ≤ size
  | _ => True

/-- The directory listing, with its wrapping product. -/
theorem listdir_verifies_iff (children entries amount : Nat) :
    Within (listdirAccesses amount children 0)
        (if entries = 0 then 0 else mul dirEntrySize amount) ↔
      VerifiesEnough (.listdir children entries amount) := by
  have word : (if entries = 0 then 0 else mul dirEntrySize amount) < wordSize := by
    split
    · decide
    · exact Nat.mod_lt _ (by decide)
  rw [within_listdir_iff _ _ _ word, VerifiesEnough]
  by_cases null : entries = 0
  · simp [null, dirEntrySize]
  · simp only [ne_eq, null, not_false_eq_true, true_and, mul]
    constructor
    · exact fun fits => .inr (.inr fits)
    · rintro (nothing | whole | fits)
      · simp [nothing]
      · rw [Nat.mod_eq_of_lt whole]
        exact Nat.mul_le_mul_left dirEntrySize (Nat.min_le_right children amount)
      · exact fits

/-- The flush of a window, with the tests made before any row is copied. -/
theorem flush_verifies_iff (surface : Surface) (area : Rect) (buffer size rect : Nat) :
    Within (flushAccesses surface area size) size ↔
      VerifiesEnough (.flush surface area buffer size rect) := by
  have nothing : Within [] size := within_of_ends [] size (by simp)
  rw [flushAccesses, VerifiesEnough]
  split
  · rename_i different
    exact ⟨fun _ => .inl different, fun _ => nothing⟩
  · rename_i same
    rw [ne_eq, not_not] at same
    split
    · rename_i refused
      exact ⟨fun _ => .inr (.inl (by simpa using refused)), fun _ => nothing⟩
    · rename_i accepted
      have taken : ¬rectAccepted surface area = false := by simpa using accepted
      rw [within_rows_iff surface area size same]
      simp [same, taken]

/-- Every system call that passes a buffer on has verified all bytes the kernel
may access through it, exactly under the stated condition. -/
theorem call_verifies_iff (space : Space) (call : BufferCall) :
    (passesOn space call = true → Within (accesses call) (verifiedBytes call)) ↔
      passesOn space call = false ∨ VerifiesEnough call := by
  have single : ∀ size, Within [(0, size)] size := by
    intro size
    exact within_of_ends _ _ (by simp)
  have enough : (passesOn space call = true →
      (Within (accesses call) (verifiedBytes call) ↔ VerifiesEnough call)) := by
    intro passes
    cases call with
    | read reader buffer count => exact iff_of_true (within_read reader count) trivial
    | write readClosed writeIndex buffer count =>
      exact iff_of_true (within_write count readClosed writeIndex) trivial
    | ioctl request argp size => exact iff_of_true (within_ioctl request size) trivial
    | poll fds amount =>
      simp only [passesOn, Bool.and_eq_true, Bool.not_eq_true', Bool.or_eq_false_iff] at passes
      have bound : amount ≤ configMaxFd := by simpa using passes.1.2
      refine iff_of_true (within_records ?_) trivial
      simp only [mul, pollfdSize, wordSize, verifiedBytes, configMaxFd] at bound ⊢
      omega
    | stat buffer => exact iff_of_true (single statSize) trivial
    | flush surface area buffer size rect =>
      exact flush_verifies_iff surface area buffer size rect
    | flushRect buffer size rect => exact iff_of_true (single rectSize) trivial
    | listdir children entries amount => exact listdir_verifies_iff children entries amount
    | pipe pipefd => exact iff_of_true (single pipefdSize) trivial
  cases passes : passesOn space call with
  | false => simp
  | true => simpa using enough passes

/-- Exactly when user ranges are verified soundly, for every address space,
every 64-bit pointer and length and every system call that passes a buffer on. -/
theorem user_ranges_verified_iff (space : Space) (tree : Tree space.memory.tables space.pml) :
    (∀ pointer length, pointer < wordSize → length < wordSize →
      ((verifyBuffer space pointer length = true → BufferMapped space pointer length) ↔
        pointer + length < wordSize ∨ vmmLowerHalfMax < pointer + length - wordSize ∨
          ¬RunMapped (translation space.memory.tables space.pml) (pageNumber pointer)
            (checkedPages pointer length))) ∧
    (∀ call, (passesOn space call = true → Within (accesses call) (verifiedBytes call)) ↔
      passesOn space call = false ∨ VerifiesEnough call) := by
  refine ⟨?_, call_verifies_iff space⟩
  intro pointer length pointerWord lengthWord
  exact verifyBuffer_sound_iff tree pointerWord lengthWord

/-- A buffer in the mapped page passes the check, and is mapped. -/
theorem user_ranges_verified_iff_sample :
    verifyBuffer partlyMapped 0x400010 0x10 = true ∧ BufferMapped partlyMapped 0x400010 0x10 := by
  have passes : verifyBuffer partlyMapped 0x400010 0x10 = true := by decide +kernel
  have sound := (user_ranges_verified_iff partlyMapped partlyMapped_sound.tree).1 0x400010 0x10 (by decide) (by decide)
  exact ⟨passes, sound.mpr (.inl (by decide)) passes⟩

/-- The longest length makes the check a test of no page at all: the buffer is
accepted although it leaves the lower half and nothing is mapped. A listing into
a verified one-entry buffer can be made to write a second entry. -/
theorem verifyBuffer_wraps :
    Tree emptySpace.memory.tables emptySpace.pml ∧
      verifyBuffer emptySpace 0x1001 (2 ^ 64 - 1) = true ∧
      ¬BufferMapped emptySpace 0x1001 (2 ^ 64 - 1) ∧
      mul dirEntrySize (2 ^ 62 + 1) = dirEntrySize ∧
      ¬Within (accesses (.listdir 2 0x1000 (2 ^ 62 + 1)))
        (verifiedBytes (.listdir 2 0x1000 (2 ^ 62 + 1))) := by
  refine ⟨sampleTables_sound.tree, by decide +kernel, ?_, by decide, ?_⟩
  · rintro ⟨low, _⟩
    simp [vmmLowerHalfMax] at low
  · intro within
    have fits := (within_listdir_iff _ _ _ (by decide)).mp within
    exact absurd fits (by decide)

end Asym.UserBuffers
