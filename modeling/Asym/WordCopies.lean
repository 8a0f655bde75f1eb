import Asym.ByteMemory
import Asym.Folds
import Asym.MachineWords

/-!
# Copies in words

`memcpy` and `memset` go byte by byte up to an aligned destination, then by eight words, by one
word, and by bytes for the rest. `memmove` goes byte by byte, from the end if the destination is
behind the source. Every address that is read or written is recorded.

Pointers wrap at `2 ^ 64`, and a range lies in the address space.
-/

namespace Asym.WordCopies

open ByteMemory Folds MachineWords

section Model

/-- The memory, and the addresses that were read and written. -/
structure Machine where
  memory : Memory
  reads : List Nat
  writes : List Nat

/-- A value is stored. -/
def Machine.put (machine : Machine) (width address value : Nat) : Machine :=
  { machine with
    memory := store machine.memory address width value
    writes := machine.writes ++ List.range' address width }

/-- A value is loaded and stored, as `*d = *s` does. -/
def Machine.move (machine : Machine) (width d s : Nat) : Machine :=
  { machine.put width d (load machine.memory s width) with reads := machine.reads ++ List.range' s width }

/-- The variables of `memcpy` and `memmove`. -/
structure Copying where
  machine : Machine
  d : Nat
  s : Nat
  count : Nat

/-- `*d = *s; d += width; s += width; count -= width`. -/
def Copying.next (width : Nat) (copying : Copying) : Copying :=
  ⟨copying.machine.move width copying.d copying.s, add copying.d width, add copying.s width, copying.count - width⟩

/-- The eight words at the offsets `0`, `8`, up to `56`. -/
def Copying.block (copying : Copying) : Copying :=
  ⟨(List.range 8).foldl (fun machine i =>
      machine.move 8 (add copying.d (8 * i)) (add copying.s (8 * i))) copying.machine,
    add copying.d 64, add copying.s 64, copying.count - 64⟩

/-- `while (((uintptr_t)d & 7) && count)`. -/
def Copying.align : Copying → Copying :=
  loopWhile Copying.count (fun copying => copying.d % 8 ≠ 0 ∧ copying.count ≠ 0) (Copying.next 1)
    fun _ guard => Nat.sub_lt (Nat.pos_of_ne_zero guard.2) Nat.one_pos

/-- `while (count >= 64)`. -/
def Copying.blocks : Copying → Copying :=
  loopWhile Copying.count (fun copying => 64 ≤ copying.count) Copying.block
    fun _ guard => Nat.sub_lt (Nat.lt_of_lt_of_le (by decide) guard) (by decide)

/-- `while (count >= 8)`. -/
def Copying.words : Copying → Copying :=
  loopWhile Copying.count (fun copying => 8 ≤ copying.count) (Copying.next 8)
    fun _ guard => Nat.sub_lt (Nat.lt_of_lt_of_le (by decide) guard) (by decide)

/-- `while (count--)`. What it leaves in `count` is not used any more. -/
def Copying.rest : Copying → Copying :=
  loopWhile Copying.count (fun copying => copying.count ≠ 0) (Copying.next 1)
    fun _ guard => Nat.sub_lt (Nat.pos_of_ne_zero guard) Nat.one_pos

/-- `memcpy`: its result and the machine. -/
def memcpy (machine : Machine) (dest src count : Nat) : Nat × Machine :=
  (dest, (Copying.align ⟨machine, dest, src, count⟩).blocks.words.rest.machine)

/-- `*--p2 = *--p1; count--`. -/
def Copying.previous (copying : Copying) : Copying :=
  ⟨copying.machine.move 1 (sub copying.d 1) (sub copying.s 1), sub copying.d 1, sub copying.s 1, copying.count - 1⟩

/-- `while (count--)` from the end. -/
def Copying.restBack : Copying → Copying :=
  loopWhile Copying.count (fun copying => copying.count ≠ 0) Copying.previous
    fun _ guard => Nat.sub_lt (Nat.pos_of_ne_zero guard) Nat.one_pos

/-- `memmove`: its result and the machine. -/
def memmove (machine : Machine) (dest src count : Nat) : Nat × Machine :=
  if dest ≤ src then (dest, (Copying.rest ⟨machine, dest, src, count⟩).machine)
  else (dest, (Copying.restBack ⟨machine, add dest count, add src count, count⟩).machine)

/-- The variables of `memset`. -/
structure Filling where
  machine : Machine
  p : Nat
  count : Nat

/-- `ch64`: the byte at each of the eight places. -/
def ch64 (ch8 : Nat) : Nat :=
  ch8 ||| ch8 <<< 8 ||| ch8 <<< 16 ||| ch8 <<< 24 ||| ch8 <<< 32 ||| ch8 <<< 40 ||| ch8 <<< 48 ||| ch8 <<< 56

/-- `*p = value; p += width; count -= width`. -/
def Filling.next (width value : Nat) (filling : Filling) : Filling :=
  ⟨filling.machine.put width filling.p value, add filling.p width, filling.count - width⟩

/-- The eight words at the offsets `0`, `8`, up to `56`. -/
def Filling.block (value : Nat) (filling : Filling) : Filling :=
  ⟨(List.range 8).foldl (fun machine i => machine.put 8 (add filling.p (8 * i)) value) filling.machine,
    add filling.p 64, filling.count - 64⟩

/-- `while (((uintptr_t)p & 7) && count)`. -/
def Filling.align (ch8 : Nat) : Filling → Filling :=
  loopWhile Filling.count (fun filling => filling.p % 8 ≠ 0 ∧ filling.count ≠ 0) (Filling.next 1 ch8)
    fun _ guard => Nat.sub_lt (Nat.pos_of_ne_zero guard.2) Nat.one_pos

/-- `while (count >= 64)`. -/
def Filling.blocks (ch8 : Nat) : Filling → Filling :=
  loopWhile Filling.count (fun filling => 64 ≤ filling.count) (Filling.block (ch64 ch8))
    fun _ guard => Nat.sub_lt (Nat.lt_of_lt_of_le (by decide) guard) (by decide)

/-- `while (count >= 8)`. -/
def Filling.words (ch8 : Nat) : Filling → Filling :=
  loopWhile Filling.count (fun filling => 8 ≤ filling.count) (Filling.next 8 (ch64 ch8))
    fun _ guard => Nat.sub_lt (Nat.lt_of_lt_of_le (by decide) guard) (by decide)

/-- `while (count--)`. -/
def Filling.rest (ch8 : Nat) : Filling → Filling :=
  loopWhile Filling.count (fun filling => filling.count ≠ 0) (Filling.next 1 ch8)
    fun _ guard => Nat.sub_lt (Nat.pos_of_ne_zero guard) Nat.one_pos

/-- `memset`: its result and the machine. -/
def memset (machine : Machine) (dest : Nat) (ch : Int) (count : Nat) : Nat × Machine :=
  let ch8 := (ch % 256).toNat
  (dest, (Filling.rest ch8 (Filling.words ch8 (Filling.blocks ch8 (Filling.align ch8 ⟨machine, dest, count⟩)))).machine)

end Model

section Filled

/-- Bytes from a destination on are filled up to an offset; behind the log of a machine, only
addresses of a source were read, and addresses of the destination written. -/
structure Filled (before : Machine) (dest : Nat) (bytes : Nat → UInt8) (total src reach amount : Nat)
    (machine : Machine) : Prop where
  memory : machine.memory = fill before.memory dest bytes amount
  reads : ∀ address ∈ machine.reads, address ∈ before.reads ∨ src ≤ address ∧ address < src + reach
  writes : ∀ address ∈ machine.writes, address ∈ before.writes ∨ dest ≤ address ∧ address < dest + total

variable {before machine : Machine} {dest src total reach amount width : Nat} {bytes : Nat → UInt8}

/-- At first nothing is filled. -/
theorem Filled.start (before : Machine) (dest : Nat) (bytes : Nat → UInt8) (total src reach : Nat) :
    Filled before dest bytes total src reach 0 before where
  memory := funext fun tested => (fill_outside _ _ _ (by omega)).symm
  reads _ member := .inl member
  writes _ member := .inl member

/-- A store of the next bytes. -/
theorem Filled.put (filled : Filled before dest bytes total src reach amount machine) (fits : amount + width ≤ total)
    {value : Nat} (same : ∀ offset < width, UInt8.ofNat (value / 256 ^ offset) = bytes (amount + offset)) :
    Filled before dest bytes total src reach (amount + width) (machine.put width (dest + amount) value) where
  memory := by
    rw [Machine.put, filled.memory]
    exact store_fill _ _ _ same
  reads := filled.reads
  writes := by
    intro address member
    rcases List.mem_append.mp member with earlier | new
    · exact filled.writes address earlier
    · rw [List.mem_range'_1] at new
      exact .inr (by omega)

/-- A load and a store of the next bytes, which are still those from the source on. -/
theorem Filled.move (filled : Filled before dest bytes total src total amount machine) (fits : amount + width ≤ total)
    (same : ∀ offset < width, machine.memory (src + amount + offset) = bytes (amount + offset)) :
    Filled before dest bytes total src total (amount + width) (machine.move width (dest + amount) (src + amount)) := by
  have stored : Filled before dest bytes total src total (amount + width)
      (machine.put width (dest + amount) (load machine.memory (src + amount) width)) :=
    filled.put fits fun offset inside => (load_at _ _ inside).trans (same offset inside)
  refine ⟨stored.memory, fun address member => ?_, stored.writes⟩
  rcases List.mem_append.mp member with earlier | new
  · exact filled.reads address earlier
  · rw [List.mem_range'_1] at new
    exact .inr (by omega)

/-- A load and a store of the byte before. -/
theorem Filled.back (filled : Filled before (dest + 1) (fun offset => bytes (1 + offset)) total (src + 1) total total
      machine) (same : machine.memory src = bytes 0) :
    Filled before dest bytes (1 + total) src (1 + total) (1 + total) (machine.move 1 dest src) where
  memory := by
    have byte := load_at machine.memory src Nat.one_pos
    rw [Nat.pow_zero, Nat.div_one, Nat.add_zero, same] at byte
    rw [← store_fill_back before.memory dest bytes byte, ← filled.memory]
    rfl
  reads := by
    intro address member
    rcases List.mem_append.mp member with earlier | new
    · exact (filled.reads address earlier).imp_right fun inside => by omega
    · rw [List.mem_range'_1] at new
      exact .inr (by omega)
  writes := by
    intro address member
    rcases List.mem_append.mp member with earlier | new
    · exact (filled.writes address earlier).imp_right fun inside => by omega
    · rw [List.mem_range'_1] at new
      exact .inr (by omega)

end Filled

section Forward

variable {before machine : Machine} {dest src total amount width : Nat} {bytes : Nat → UInt8}

/-- Two ranges of the address space, where a copy upward does not overrun its source. -/
structure Clear (dest src total : Nat) : Prop where
  target : dest + total ≤ wordSize
  source : src + total ≤ wordSize
  ahead : dest ≤ src ∨ src + total ≤ dest

/-- A pointer that advances in its range. -/
theorem pointer_add {start : Nat} (fits : start + total ≤ wordSize) (inside : amount + width < total) :
    add (start + amount) width = start + (amount + width) := by
  rw [add_of_lt _ _ (by omega), Nat.add_assoc]

/-- A copy after some bytes. Its pointers are right while something is left. -/
structure Forward (before : Machine) (dest src total amount : Nat) (copying : Copying) : Prop where
  d : amount < total → copying.d = dest + amount
  s : amount < total → copying.s = src + amount
  count : copying.count + amount = total
  filled : Filled before dest (fun offset => before.memory (src + offset)) total src total amount copying.machine

/-- The bytes ahead in the source are as before, if the source is not overrun. -/
theorem Filled.ahead (filled : Filled before dest bytes total src total amount machine)
    (clear : Clear dest src total) {offset : Nat} (inside : amount + offset < total) :
    machine.memory (src + amount + offset) = before.memory (src + (amount + offset)) := by
  have := clear.ahead
  rw [filled.memory, fill_outside _ _ _ (by omega), Nat.add_assoc]

/-- The next bytes of a copy. -/
theorem Filled.next (clear : Clear dest src total)
    (filled : Filled before dest (fun offset => before.memory (src + offset)) total src total amount machine)
    (fits : amount + width ≤ total) :
    Filled before dest (fun offset => before.memory (src + offset)) total src total (amount + width)
      (machine.move width (dest + amount) (src + amount)) :=
  filled.move fits fun _ inside => filled.ahead clear (by omega)

/-- The words of an iteration that copies eight. -/
theorem Filled.words (clear : Clear dest src total)
    (filled : Filled before dest (fun offset => before.memory (src + offset)) total src total amount machine)
    {words : Nat} (fits : amount + 8 * words ≤ total) :
    Filled before dest (fun offset => before.memory (src + offset)) total src total (amount + 8 * words)
      ((List.range words).foldl (fun machine i => machine.move 8 (add (dest + amount) (8 * i))
        (add (src + amount) (8 * i))) machine) := by
  induction words with
  | zero => exact filled
  | succ words ih =>
    have earlier := ih (by omega)
    rw [List.range_succ, List.foldl_append, List.foldl_cons, List.foldl_nil, pointer_add clear.target (by omega),
      pointer_add clear.source (by omega)]
    exact @Filled.next before _ dest src total (amount + 8 * words) 8 clear earlier (by omega)

/-- An iteration that copies a byte or a word. -/
theorem Forward.next {copying : Copying} (clear : Clear dest src total)
    (forward : Forward before dest src total amount copying) (positive : 0 < width) (fits : width ≤ copying.count) :
    Forward before dest src total (amount + width) (copying.next width) := by
  have count := forward.count
  have d := forward.d (by omega)
  have s := forward.s (by omega)
  refine ⟨fun more => ?_, fun more => ?_, ?_, ?_⟩
  · rw [Copying.next, d, pointer_add clear.target more]
  · rw [Copying.next, s, pointer_add clear.source more]
  · simp only [Copying.next]
    omega
  · rw [Copying.next, d, s]
    exact forward.filled.next clear (by omega)

/-- An iteration that copies eight words. -/
theorem Forward.block {copying : Copying} (clear : Clear dest src total)
    (forward : Forward before dest src total amount copying) (fits : 64 ≤ copying.count) :
    Forward before dest src total (amount + 64) copying.block := by
  have count := forward.count
  have d := forward.d (by omega)
  have s := forward.s (by omega)
  refine ⟨fun more => ?_, fun more => ?_, ?_, ?_⟩
  · rw [Copying.block, d, pointer_add clear.target more]
  · rw [Copying.block, s, pointer_add clear.source more]
  · simp only [Copying.block]
    omega
  · rw [Copying.block, d, s]
    exact @Filled.words before _ dest src total amount clear forward.filled 8 (by omega)

/-- A copy that is under way. -/
def Underway (before : Machine) (dest src total : Nat) (copying : Copying) : Prop :=
  ∃ amount, Forward before dest src total amount copying

/-- An iteration keeps a copy under way. -/
theorem Underway.next {copying : Copying} (clear : Clear dest src total)
    (underway : Underway before dest src total copying) (positive : 0 < width) (fits : width ≤ copying.count) :
    Underway before dest src total (copying.next width) := by
  obtain ⟨amount, forward⟩ := underway
  exact ⟨amount + width, forward.next clear positive fits⟩

/-- An iteration with eight words keeps a copy under way. -/
theorem Underway.block {copying : Copying} (clear : Clear dest src total)
    (underway : Underway before dest src total copying) (fits : 64 ≤ copying.count) :
    Underway before dest src total copying.block := by
  obtain ⟨amount, forward⟩ := underway
  exact ⟨amount + 64, forward.block clear fits⟩

/-- The loop up to an aligned destination keeps a copy under way. -/
theorem Underway.align {copying : Copying} (clear : Clear dest src total)
    (underway : Underway before dest src total copying) : Underway before dest src total copying.align :=
  (loopWhile_rule (fun _ underway guard =>
    underway.next clear Nat.one_pos (Nat.pos_of_ne_zero guard.2)) copying underway).1

/-- The loop over eight words keeps a copy under way. -/
theorem Underway.blocks {copying : Copying} (clear : Clear dest src total)
    (underway : Underway before dest src total copying) : Underway before dest src total copying.blocks :=
  (loopWhile_rule (fun _ underway guard => underway.block clear guard)
    copying underway).1

/-- The loop over single words keeps a copy under way. -/
theorem Underway.words {copying : Copying} (clear : Clear dest src total)
    (underway : Underway before dest src total copying) : Underway before dest src total copying.words :=
  (loopWhile_rule (fun _ underway guard =>
    underway.next clear (by decide) guard) copying underway).1

/-- The last loop ends the copy. -/
theorem Underway.rest {copying : Copying} (clear : Clear dest src total)
    (underway : Underway before dest src total copying) :
    Filled before dest (fun offset => before.memory (src + offset)) total src total total copying.rest.machine := by
  have ends : Underway before dest src total copying.rest ∧ ¬ copying.rest.count ≠ 0 :=
    loopWhile_rule (fun _ underway guard =>
      underway.next clear Nat.one_pos (Nat.pos_of_ne_zero guard)) copying underway
  obtain ⟨⟨amount, forward⟩, ended⟩ := ends
  have count := forward.count
  rw [not_not.mp ended, Nat.zero_add] at count
  subst count
  exact forward.filled

/-- A copy starts. -/
theorem Underway.start (before : Machine) (dest src total : Nat) :
    Underway before dest src total ⟨before, dest, src, total⟩ :=
  ⟨0, fun _ => rfl, fun _ => rfl, rfl, Filled.start _ _ _ _ _ _⟩

/-- `memcpy` copies. -/
theorem memcpy_filled (clear : Clear dest src total) (before : Machine) :
    Filled before dest (fun offset => before.memory (src + offset)) total src total total
      (memcpy before dest src total).2 :=
  ((((Underway.start before dest src total).align clear).blocks clear).words clear).rest clear

end Forward

section Backward

variable {before : Machine} {dest src total : Nat}

/-- A copy from the end, with some bytes left. Its pointers have wrapped if the range ends with the
address space. -/
structure Backward (before : Machine) (dest src total : Nat) (copying : Copying) : Prop where
  d : copying.d = (dest + copying.count) % wordSize
  s : copying.s = (src + copying.count) % wordSize
  count : copying.count ≤ total
  filled : Filled before (dest + copying.count) (fun offset => before.memory (src + (copying.count + offset)))
    (total - copying.count) (src + copying.count) (total - copying.count) (total - copying.count) copying.machine

/-- A pointer that goes back in its range. -/
theorem pointer_sub {start count : Nat} (fits : start + (count + 1) ≤ wordSize) :
    sub ((start + (count + 1)) % wordSize) 1 = start + count := by
  simp only [sub, wordSize] at *
  omega

/-- An iteration that copies the byte before. -/
theorem Backward.previous {copying : Copying} (target : dest + total ≤ wordSize) (source : src + total ≤ wordSize)
    (behind : src < dest) (backward : Backward before dest src total copying) (guard : copying.count ≠ 0) :
    Backward before dest src total copying.previous := by
  obtain ⟨machine, d, s, count⟩ := copying
  obtain ⟨count, rfl⟩ := Nat.exists_eq_succ_of_ne_zero guard
  obtain ⟨d_eq, s_eq, within, filled⟩ := backward
  dsimp only at d_eq s_eq within filled
  have within' : count + 1 ≤ total := within
  have d_back : sub d 1 = dest + count := d_eq ▸ pointer_sub (by omega)
  have s_back : sub s 1 = src + count := s_eq ▸ pointer_sub (by omega)
  -- The byte before is still as it was, for the source starts before the destination.
  have same : machine.memory (src + count) = before.memory (src + (count + 0)) := by
    rw [filled.memory, fill_outside _ _ _ (by omega), Nat.add_zero]
  have left : total - count = 1 + (total - (count + 1)) := by omega
  refine ⟨?_, ?_, Nat.le_of_succ_le within', ?_⟩
  · exact d_back.trans (Nat.mod_eq_of_lt (by omega)).symm
  · exact s_back.trans (Nat.mod_eq_of_lt (by omega)).symm
  · simp only [Copying.previous, d_back, s_back, Nat.succ_eq_add_one, Nat.add_sub_cancel, left]
    refine @Filled.back before machine (dest + count) (src + count) (total - (count + 1))
      (fun offset => before.memory (src + (count + offset))) ?_ same
    simp only [← Nat.add_assoc] at filled ⊢
    exact filled

/-- The loop from the end ends the copy. -/
theorem Backward.rest {copying : Copying} (target : dest + total ≤ wordSize) (source : src + total ≤ wordSize)
    (behind : src < dest) (backward : Backward before dest src total copying) :
    Filled before dest (fun offset => before.memory (src + offset)) total src total total
      copying.restBack.machine := by
  have ends : Backward before dest src total copying.restBack ∧ ¬ copying.restBack.count ≠ 0 :=
    loopWhile_rule (fun _ backward guard =>
      backward.previous target source behind guard) copying backward
  have filled := ends.1.filled
  simp only [not_not.mp ends.2, Nat.add_zero, Nat.sub_zero, Nat.zero_add] at filled
  exact filled

/-- `memmove` copies. -/
theorem memmove_filled (target : dest + total ≤ wordSize) (source : src + total ≤ wordSize) (before : Machine) :
    Filled before dest (fun offset => before.memory (src + offset)) total src total total
      (memmove before dest src total).2 := by
  rw [memmove]
  split_ifs with upward
  · exact (Underway.start before dest src total).rest ⟨target, source, .inl upward⟩
  · refine Backward.rest target source (Nat.lt_of_not_le upward) ⟨rfl, rfl, Nat.le_refl _, ?_⟩
    simp only [Nat.sub_self]
    exact ⟨(Filled.start before (dest + total) _ 0 0 0).memory, fun _ member => .inl member,
      fun _ member => .inl member⟩

end Backward

section Fillings

variable {before machine : Machine} {dest total amount width ch8 : Nat}

/-- A number in front of a shifted one. -/
theorem or_shiftLeft {low bits : Nat} (fits : low < 2 ^ bits) (high : Nat) :
    low ||| high <<< bits = high * 2 ^ bits + low := by
  rw [Nat.shiftLeft_eq, Nat.mul_comm, Nat.or_comm, Nat.two_pow_add_eq_or_of_lt fits]

/-- `ch64` is a word of memory with the byte at every place. -/
theorem ch64_eq (byte : ch8 < 256) : ch64 ch8 = load (fun _ => UInt8.ofNat ch8) 0 8 := by
  have two := @or_shiftLeft ch8 8 (by omega) ch8
  have three := @or_shiftLeft (ch8 * 2 ^ 8 + ch8) 16 (by omega) ch8
  have four := @or_shiftLeft (ch8 * 2 ^ 16 + (ch8 * 2 ^ 8 + ch8)) 24 (by omega) ch8
  have five := @or_shiftLeft (ch8 * 2 ^ 24 + (ch8 * 2 ^ 16 + (ch8 * 2 ^ 8 + ch8))) 32 (by omega) ch8
  have six := @or_shiftLeft (ch8 * 2 ^ 32 + (ch8 * 2 ^ 24 + (ch8 * 2 ^ 16 + (ch8 * 2 ^ 8 + ch8)))) 40 (by omega) ch8
  have seven := @or_shiftLeft
    (ch8 * 2 ^ 40 + (ch8 * 2 ^ 32 + (ch8 * 2 ^ 24 + (ch8 * 2 ^ 16 + (ch8 * 2 ^ 8 + ch8))))) 48 (by omega) ch8
  rw [ch64, two, three, four, five, six, seven, or_shiftLeft (by omega)]
  simp only [load, UInt8.toNat_ofNat', Nat.mod_eq_of_lt (show ch8 < 2 ^ 8 from byte)]
  omega

/-- Each byte of `ch64` is the byte. -/
theorem ch64_byte (byte : ch8 < 256) {offset : Nat} (inside : offset < 8) :
    UInt8.ofNat (ch64 ch8 / 256 ^ offset) = UInt8.ofNat ch8 := by
  rw [ch64_eq byte]
  exact load_at _ 0 inside

/-- A filling after some bytes. Its pointer is right while something is left. -/
structure Poured (before : Machine) (dest ch8 total amount : Nat) (filling : Filling) : Prop where
  p : amount < total → filling.p = dest + amount
  count : filling.count + amount = total
  filled : Filled before dest (fun _ => UInt8.ofNat ch8) total 0 0 amount filling.machine

/-- An iteration that stores a byte or a word. -/
theorem Poured.next {filling : Filling} (target : dest + total ≤ wordSize)
    (poured : Poured before dest ch8 total amount filling) {value : Nat}
    (same : ∀ offset < width, UInt8.ofNat (value / 256 ^ offset) = UInt8.ofNat ch8) (positive : 0 < width)
    (fits : width ≤ filling.count) : Poured before dest ch8 total (amount + width) (filling.next width value) := by
  have count := poured.count
  have p := poured.p (by omega)
  refine ⟨fun more => ?_, ?_, ?_⟩
  · rw [Filling.next, p, pointer_add target more]
  · simp only [Filling.next]
    omega
  · rw [Filling.next, p]
    exact poured.filled.put (by omega) same

/-- The words of an iteration that stores eight. -/
theorem Filled.pourWords (target : dest + total ≤ wordSize)
    (filled : Filled before dest (fun _ => UInt8.ofNat ch8) total 0 0 amount machine) {value : Nat}
    (same : ∀ offset < 8, UInt8.ofNat (value / 256 ^ offset) = UInt8.ofNat ch8) {words : Nat}
    (fits : amount + 8 * words ≤ total) :
    Filled before dest (fun _ => UInt8.ofNat ch8) total 0 0 (amount + 8 * words)
      ((List.range words).foldl (fun machine i => machine.put 8 (add (dest + amount) (8 * i)) value) machine) := by
  induction words with
  | zero => exact filled
  | succ words ih =>
    have earlier := ih (by omega)
    rw [List.range_succ, List.foldl_append, List.foldl_cons, List.foldl_nil, pointer_add target (by omega)]
    exact @Filled.put before _ dest 0 total 0 (amount + 8 * words) 8 _ earlier (by omega) value same

/-- An iteration that stores eight words. -/
theorem Poured.block {filling : Filling} (target : dest + total ≤ wordSize)
    (poured : Poured before dest ch8 total amount filling) {value : Nat}
    (same : ∀ offset < 8, UInt8.ofNat (value / 256 ^ offset) = UInt8.ofNat ch8) (fits : 64 ≤ filling.count) :
    Poured before dest ch8 total (amount + 64) (filling.block value) := by
  have count := poured.count
  have p := poured.p (by omega)
  refine ⟨fun more => ?_, ?_, ?_⟩
  · rw [Filling.block, p, pointer_add target more]
  · simp only [Filling.block]
    omega
  · rw [Filling.block, p]
    exact @Filled.pourWords before _ dest total amount ch8 target poured.filled value same 8 (by omega)

/-- A filling that is under way. -/
def Pouring (before : Machine) (dest ch8 total : Nat) (filling : Filling) : Prop :=
  ∃ amount, Poured before dest ch8 total amount filling

/-- An iteration with a byte or a word keeps a filling under way. -/
theorem Pouring.next {filling : Filling} (target : dest + total ≤ wordSize)
    (pouring : Pouring before dest ch8 total filling) {value : Nat}
    (same : ∀ offset < width, UInt8.ofNat (value / 256 ^ offset) = UInt8.ofNat ch8) (positive : 0 < width)
    (fits : width ≤ filling.count) : Pouring before dest ch8 total (filling.next width value) := by
  obtain ⟨amount, poured⟩ := pouring
  exact ⟨amount + width, poured.next target same positive fits⟩

/-- An iteration with a byte keeps a filling under way. -/
theorem Pouring.byte {filling : Filling} (target : dest + total ≤ wordSize)
    (pouring : Pouring before dest ch8 total filling) (some_ : filling.count ≠ 0) :
    Pouring before dest ch8 total (filling.next 1 ch8) := by
  refine pouring.next target (fun offset inside => ?_) Nat.one_pos (Nat.pos_of_ne_zero some_)
  rw [Nat.lt_one_iff.mp inside, Nat.pow_zero, Nat.div_one]

/-- The loops before the last keep a filling under way. -/
theorem Pouring.words {filling : Filling} (target : dest + total ≤ wordSize) (byte : ch8 < 256)
    (pouring : Pouring before dest ch8 total filling) :
    Pouring before dest ch8 total (Filling.words ch8 (Filling.blocks ch8 (Filling.align ch8 filling))) := by
  have aligned : Pouring before dest ch8 total (Filling.align ch8 filling) :=
    (loopWhile_rule (fun _ pouring guard => pouring.byte target guard.2)
      filling pouring).1
  have blocks : Pouring before dest ch8 total (Filling.blocks ch8 (Filling.align ch8 filling)) := by
    refine (loopWhile_rule ?_ _ aligned).1
    rintro filling ⟨amount, poured⟩ guard
    exact ⟨amount + 64, poured.block target (fun _ inside => ch64_byte byte inside) guard⟩
  exact (loopWhile_rule (fun _ pouring guard =>
    pouring.next target (fun _ inside => ch64_byte byte inside) (by decide) guard) _ blocks).1

/-- The last loop ends the filling. -/
theorem Pouring.rest {filling : Filling} (target : dest + total ≤ wordSize)
    (pouring : Pouring before dest ch8 total filling) :
    Filled before dest (fun _ => UInt8.ofNat ch8) total 0 0 total (Filling.rest ch8 filling).machine := by
  have ends : Pouring before dest ch8 total (Filling.rest ch8 filling) ∧ ¬ (Filling.rest ch8 filling).count ≠ 0 :=
    loopWhile_rule (fun _ pouring guard => pouring.byte target guard) filling pouring
  obtain ⟨⟨amount, poured⟩, ended⟩ := ends
  have count := poured.count
  rw [not_not.mp ended, Nat.zero_add] at count
  subst count
  exact poured.filled

/-- `memset` fills. -/
theorem memset_filled (target : dest + total ≤ wordSize) (before : Machine) (ch : Int) :
    Filled before dest (fun _ => UInt8.ofNat (ch % 256).toNat) total 0 0 total (memset before dest ch total).2 :=
  Pouring.rest target (Pouring.words target (by omega) ⟨0, fun _ => rfl, rfl, Filled.start _ _ _ _ _ _⟩)

end Fillings

section Results

/-- A routine returned its destination and wrote these bytes there, and changed no others; it read
no other addresses than it may, and wrote only addresses of the destination. -/
structure Exact (memory : Memory) (dest count : Nat) (bytes : Nat → UInt8) (readable : Nat → Prop)
    (result : Nat × Machine) : Prop where
  returned : result.1 = dest
  target : ∀ offset < count, result.2.memory (dest + offset) = bytes offset
  elsewhere : ∀ address, address < dest ∨ dest + count ≤ address → result.2.memory address = memory address
  reads : ∀ address ∈ result.2.reads, readable address
  writes : ∀ address ∈ result.2.writes, dest ≤ address ∧ address < dest + count

variable {memory : Memory} {dest src count reach : Nat} {bytes : Nat → UInt8} {machine : Machine}

/-- What a routine that fills does. -/
theorem Filled.exact (filled : Filled ⟨memory, [], []⟩ dest bytes count src reach count machine) :
    Exact memory dest count bytes (fun address => src ≤ address ∧ address < src + reach) (dest, machine) where
  returned := rfl
  target offset inside := by
    rw [filled.memory, fill_at _ _ _ inside]
  elsewhere address outside := by
    rw [filled.memory, fill_outside _ _ _ outside]
  reads address member := (filled.reads address member).resolve_left List.not_mem_nil
  writes address member := (filled.writes address member).resolve_left List.not_mem_nil

/-- The routines that go in words do what the same routines would that go byte by byte, and they read and
write no other byte.

Proof: each of their loops fills a part of the destination, and the parts join to the whole. -/
theorem word_routines_exact (memory : Memory) (dest count : Nat) (target : dest + count ≤ wordSize) :
    (∀ src, src + count ≤ wordSize → src + count ≤ dest ∨ dest + count ≤ src →
      Exact memory dest count (fun offset => memory (src + offset))
        (fun address => src ≤ address ∧ address < src + count) (memcpy ⟨memory, [], []⟩ dest src count)) ∧
    (∀ src, src + count ≤ wordSize →
      Exact memory dest count (fun offset => memory (src + offset))
        (fun address => src ≤ address ∧ address < src + count) (memmove ⟨memory, [], []⟩ dest src count)) ∧
    ∀ ch : Int, Exact memory dest count (fun _ => UInt8.ofNat (ch % 256).toNat) (fun _ => False)
      (memset ⟨memory, [], []⟩ dest ch count) := by
  refine ⟨fun src source apart => ?_, fun src source => ?_, fun ch => ?_⟩
  · exact (memcpy_filled ⟨target, source, by omega⟩ ⟨memory, [], []⟩).exact
  · have exact := (memmove_filled target source ⟨memory, [], []⟩).exact
    rw [memmove] at exact ⊢
    split_ifs at exact ⊢
    · exact exact
    · exact exact
  · have exact := (memset_filled target ⟨memory, [], []⟩ ch).exact
    exact ⟨exact.returned, exact.target, exact.elsewhere, fun address member => by
      have := exact.reads address member
      omega, exact.writes⟩

/-- Nineteen bytes are copied to an odd address. -/
theorem word_routines_sample : Exact (fun address => UInt8.ofNat address) 101 19
    (fun offset => UInt8.ofNat (7 + offset)) (fun address => 7 ≤ address ∧ address < 7 + 19)
    (memcpy ⟨fun address => UInt8.ofNat address, [], []⟩ 101 7 19) :=
  (word_routines_exact (fun address => UInt8.ofNat address) 101 19 (by decide)).1 7 (by decide) (.inl (by decide))

end Results

end Asym.WordCopies
