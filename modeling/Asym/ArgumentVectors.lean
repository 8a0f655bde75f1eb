import Asym.CStrings
import Asym.MachineWords
import Mathlib.Algebra.Group.Action.Defs
import Mathlib.Algebra.Order.BigOperators.Group.List
import Mathlib.Algebra.Order.Ring.Nat
import Mathlib.Tactic.Common

/-!
# Copies of argument vectors

A model of `process_allocate_argv`. An argument vector is an array of pointers to strings with
`NULL` at its end. The function adds up the size of a copy, allocates a block of that size, puts
the strings one after the other behind the array of the pointers to them, and fills in the array.

The first pass and the second agree byte for byte: the copies are disjoint, they are in the block
behind the array, and the last one ends where the block ends.
-/

namespace Asym.ArgumentVectors

open ByteMemory CStrings MachineWords

/-! ## The source -/

/-- `MAX_PATH`. -/
def maxPath : Nat := 256

/-- `src[i]`. -/
def argAt (memory : Memory) (src index : Nat) : Nat := load64 memory (src + 8 * index)

/-- The loop that counts the arguments. -/
def countArgs (memory : Memory) (src : Nat) : Nat → Nat → Option Nat
  | 0, _ => none
  | fuel + 1, argc => if argAt memory src argc = 0 then some argc else countArgs memory src fuel (argc + 1)

/-- A turn of the loop that adds up the size. A string that is too long ends the function. -/
def sizeStep (memory : Memory) (src size index : Nat) : Option Nat :=
  let strLen := strnlen memory (argAt memory src index) (maxPath + 1)
  if strLen ≥ maxPath + 1 then none else some (add size (strLen + 1))

/-- A turn of the loop that copies the strings, with `offset`. -/
def placeStep (fuel dest src : Nat) (state : Memory × Nat) (index : Nat) : Option (Memory × Nat) :=
  let arg := add dest state.2
  (strcpy fuel state.1 arg (argAt state.1 src index)).bind fun copied =>
    let linked := store64 copied (dest + 8 * index) arg
    (strlen fuel linked (argAt linked src index)).map fun length => (linked, add state.2 (length + 1))

/-- `process_allocate_argv`: memory and the pointer that it returns. `malloc` gives memory and a
pointer for a size. -/
def processAllocateArgv (malloc : Memory → Nat → Memory × Nat) (fuel : Nat) (memory : Memory) (src : Nat) :
    Option (Memory × Nat) :=
  (if src = 0 then some 0 else countArgs memory src fuel 0).bind fun argc =>
    if argc ≠ 0 then
      match (List.range argc).foldlM (sizeStep memory src) (mul 8 (argc + 1)) with
      | none => some (memory, 0)
      | some size =>
          let dest := (malloc memory size).2
          ((List.range argc).foldlM (placeStep fuel dest src) ((malloc memory size).1, mul 8 (argc + 1))).map
            fun placed => (store64 placed.1 (dest + 8 * argc) 0, dest)
    else
      let dest := (malloc memory 8).2
      some (store64 (malloc memory 8).1 dest 0, dest)

/-! ## Vectors and their copies -/

/-- An argument: its pointer, and the bytes of its string. -/
structure Arg where
  pointer : Nat
  string : List UInt8
  deriving DecidableEq, Repr

/-- An array of pointers to strings, with `NULL` at its end, in one half of the addresses. -/
structure Vector (memory : Memory) (src : Nat) (args : List Arg) : Prop where
  pointers : ∀ index arg, args[index]? = some arg → arg.pointer ≠ 0 ∧ argAt memory src index = arg.pointer
  ends : argAt memory src args.length = 0
  strings : ∀ arg ∈ args, Holds memory arg.pointer arg.string
  half : src + 8 * (args.length + 1) ≤ 2 ^ 47 ∨
    wordSize - 2 ^ 47 ≤ src ∧ src + 8 * (args.length + 1) ≤ wordSize

/-- The argument of the function: a vector, or `NULL` for no arguments. -/
def Given (memory : Memory) (src : Nat) (args : List Arg) : Prop :=
  src = 0 ∧ args = [] ∨ src ≠ 0 ∧ Vector memory src args

/-- A byte of a vector or of one of its strings. -/
def Occupied (src : Nat) (args : List Arg) (address : Nat) : Prop :=
  src ≠ 0 ∧ src ≤ address ∧ address < src + 8 * (args.length + 1) ∨
    ∃ arg ∈ args, arg.pointer ≤ address ∧ address ≤ arg.pointer + arg.string.length

/-- The offset of the copy of an argument in the block. -/
def offsetOf (args : List Arg) (index : Nat) : Nat :=
  8 * (args.length + 1) + ((args.take index).map fun arg => arg.string.length + 1).sum

/-- The size of a block for a vector. -/
def blockSize (args : List Arg) : Nat := offsetOf args args.length

/-- A block that is not `NULL` and has none of the bytes of a vector. -/
structure Block (src : Nat) (args : List Arg) (dest : Nat) : Prop where
  notNull : dest ≠ 0
  inside : dest + blockSize args ≤ wordSize
  apart : ∀ address, Occupied src args address → address < dest ∨ dest + blockSize args ≤ address

/-- `malloc` returns a block of the size of a copy, apart from the vector, and does not write to the
vector. -/
structure Provides (malloc : Memory → Nat → Memory × Nat) (memory : Memory) (src : Nat) (args : List Arg) :
    Prop where
  block : Block src args (malloc memory (blockSize args)).2
  kept : ∀ address, Occupied src args address → (malloc memory (blockSize args)).1 address = memory address

/-- A vector depends only on its own bytes. -/
theorem Vector.congr {memory other : Memory} {src : Nat} {args : List Arg} (vector : Vector memory src args)
    (some_ : src ≠ 0) (same : ∀ address, Occupied src args address → other address = memory address) :
    Vector other src args := by
  have array : ∀ index ≤ args.length, argAt other src index = argAt memory src index := by
    intro index inside
    exact load64_congr _ _ _ fun offset small => same _ (.inl ⟨some_, by omega, by omega⟩)
  refine ⟨?_, ?_, ?_, vector.half⟩
  · intro index arg found
    have inside : index < args.length := (List.getElem?_eq_some_iff.mp found).1
    rw [array index (Nat.le_of_lt inside)]
    exact vector.pointers index arg found
  · rw [array _ (Nat.le_refl _)]
    exact vector.ends
  · intro arg member
    exact (vector.strings arg member).congr fun offset small => same _ (.inr ⟨arg, member, by omega, by omega⟩)

variable {memory : Memory} {src : Nat} {args : List Arg}

/-! ## Offsets -/

/-- The copy of an argument ends where the next one begins. -/
theorem offsetOf_succ {index : Nat} {arg : Arg} (found : args[index]? = some arg) :
    offsetOf args (index + 1) = offsetOf args index + (arg.string.length + 1) := by
  rw [offsetOf, offsetOf, List.take_add_one, found, List.map_append, List.sum_append]
  simp only [Option.toList_some, List.map_cons, List.map_nil, List.sum_singleton, Nat.add_assoc]

/-- Offsets grow. -/
theorem offsetOf_mono (args : List Arg) {first second : Nat} (order : first ≤ second) :
    offsetOf args first ≤ offsetOf args second := by
  induction order with
  | refl => exact Nat.le_refl _
  | @step second _ ih =>
    refine Nat.le_trans ih ?_
    cases found : args[second]? with
    | none =>
      have all := List.getElem?_eq_none_iff.mp found
      rw [offsetOf, offsetOf, List.take_of_length_le all, List.take_of_length_le (Nat.le_succ_of_le all)]
    | some arg =>
      rw [offsetOf_succ found]
      exact Nat.le_add_right _ _

/-- The first copy begins behind the array. -/
theorem offsetOf_zero (args : List Arg) : offsetOf args 0 = 8 * (args.length + 1) := rfl

/-- A copy ends before all later ones begin. -/
theorem offsetOf_apart {first second : Nat} {arg : Arg} (found : args[first]? = some arg) (order : first < second) :
    offsetOf args first + arg.string.length < offsetOf args second := by
  have next := offsetOf_mono args (Nat.succ_le_of_lt order)
  rw [Nat.succ_eq_add_one, offsetOf_succ found] at next
  omega

/-- The strings of the first arguments are not longer than `MAX_PATH`. -/
def Short (args : List Arg) : Prop := ∀ arg ∈ args, arg.string.length ≤ maxPath

instance (args : List Arg) : Decidable (Short args) := inferInstanceAs (Decidable (∀ arg ∈ args, _))

/-- Short strings do not take much room. -/
theorem offsetOf_le {count : Nat} (short : Short (args.take count)) :
    offsetOf args count ≤ 8 * (args.length + 1) + count * (maxPath + 1) := by
  have bound := List.sum_le_card_nsmul ((args.take count).map fun arg => arg.string.length + 1) (maxPath + 1) (by
    intro length inside
    obtain ⟨arg, member, rfl⟩ := List.mem_map.mp inside
    exact Nat.succ_le_succ (short arg member))
  rw [List.length_map, List.length_take, smul_eq_mul] at bound
  have fewer : min count args.length * (maxPath + 1) ≤ count * (maxPath + 1) :=
    Nat.mul_le_mul_right _ (Nat.min_le_left _ _)
  rw [offsetOf]
  omega

/-- A vector in memory has less than `2 ^ 44` arguments. -/
theorem Vector.length_lt (vector : Vector memory src args) : args.length < 2 ^ 44 := by
  rcases vector.half with lower | upper
  · omega
  · rw [wordSize] at upper
    omega

/-- The size of a copy is a machine word. -/
theorem Vector.offsetOf_lt (vector : Vector memory src args) {count : Nat} (inside : count ≤ args.length)
    (short : Short (args.take count)) : offsetOf args count < wordSize := by
  have few := vector.length_lt
  have bound := offsetOf_le short
  have product : count * (maxPath + 1) ≤ 2 ^ 44 * (maxPath + 1) := Nat.mul_le_mul_right _ (by omega)
  rw [maxPath] at bound product
  rw [wordSize]
  omega

/-! ## The loops -/

/-- The arguments are counted. -/
theorem Vector.countArgs (vector : Vector memory src args) (fuel start : Nat) (inside : start ≤ args.length)
    (enough : args.length < start + fuel) : countArgs memory src fuel start = some args.length := by
  induction fuel generalizing start with
  | zero => omega
  | succ fuel ih =>
    rw [ArgumentVectors.countArgs]
    rcases Nat.lt_or_eq_of_le inside with more | rfl
    · obtain ⟨some_, pointer⟩ := vector.pointers start args[start] (List.getElem?_eq_getElem more)
      rw [if_neg (by rw [pointer]; exact some_)]
      exact ih (start + 1) more (by omega)
    · rw [if_pos vector.ends]

/-- The first turns add up the sizes of the first arguments, as long as these are short. -/
theorem Vector.sizeLoop (vector : Vector memory src args) {count : Nat} (inside : count ≤ args.length) :
    (List.range count).foldlM (sizeStep memory src) (mul 8 (args.length + 1)) =
      if Short (args.take count) then some (offsetOf args count) else none := by
  induction count with
  | zero =>
    have few := vector.length_lt
    have start : mul 8 (args.length + 1) = offsetOf args 0 := by
      rw [mul, offsetOf_zero, Nat.mod_eq_of_lt (by rw [wordSize]; omega)]
    have none : Short (args.take 0) := fun _ member => absurd member List.not_mem_nil
    rw [start, if_pos none]
    rfl
  | succ count ih =>
    have more : count < args.length := inside
    have found := List.getElem?_eq_getElem more
    have split : Short (args.take (count + 1)) ↔ Short (args.take count) ∧ args[count].string.length ≤ maxPath := by
      rw [Short, List.take_add_one, found, List.forall_mem_append]
      simp [Short]
    have string := vector.strings args[count] (List.getElem_mem more)
    rw [List.range_succ, List.foldlM_append, ih (Nat.le_of_lt inside)]
    by_cases short : Short (args.take count)
    · rw [if_pos short, Option.bind_eq_bind, Option.bind_some, List.foldlM_cons, sizeStep,
        (vector.pointers count _ found).2, string.strnlen]
      by_cases fits : args[count].string.length ≤ maxPath
      · have all := split.mpr ⟨short, fits⟩
        have counted : min args[count].string.length (maxPath + 1) = args[count].string.length :=
          Nat.min_eq_left (Nat.le_succ_of_le fits)
        have word := vector.offsetOf_lt inside all
        rw [if_pos all, counted, if_neg (Nat.not_le_of_lt (Nat.lt_succ_of_le fits)), offsetOf_succ found] at *
        rw [add_of_lt _ _ word]
        rfl
      · have tooLong : maxPath + 1 ≤ min args[count].string.length (maxPath + 1) :=
          Nat.le_min.mpr ⟨Nat.lt_of_not_le fits, Nat.le_refl _⟩
        rw [if_pos tooLong, if_neg (fun all => fits (split.mp all).2)]
        rfl
    · rw [if_neg short, if_neg (fun all => short (split.mp all).1)]
      rfl

/-- After some turns: their pointers and copies are in the block, and nothing else has changed. -/
structure Copied (allocated : Memory) (args : List Arg) (dest count : Nat) (memory : Memory) : Prop where
  pointers : ∀ index < count, load64 memory (dest + 8 * index) = dest + offsetOf args index
  strings : ∀ index < count, ∀ arg, args[index]? = some arg → Holds memory (dest + offsetOf args index) arg.string
  kept : ∀ address, address < dest ∨ dest + blockSize args ≤ address → memory address = allocated address

/-- A copy ends in the block. -/
theorem offsetOf_inside {index : Nat} {arg : Arg} (found : args[index]? = some arg) :
    offsetOf args index + arg.string.length < blockSize args :=
  offsetOf_apart found (List.getElem?_eq_some_iff.mp found).1

/-- A string of the vector is apart from every copy in the block. -/
theorem Block.apart_string {dest : Nat} (block : Block src args dest) {arg copy : Arg} (member : arg ∈ args)
    {index : Nat} (found : args[index]? = some copy) :
    dest + offsetOf args index + copy.string.length < arg.pointer ∨
      arg.pointer + arg.string.length < dest + offsetOf args index := by
  have bound := offsetOf_inside found
  have zero := offsetOf_zero args
  have first := offsetOf_mono args (Nat.zero_le index)
  rcases block.apart arg.pointer (.inr ⟨arg, member, Nat.le_refl _, Nat.le_add_right _ _⟩) with before | behind
  · -- the string begins before the block, so it cannot get to the first byte of it
    refine .inr ?_
    by_contra reaches
    have inBlock := block.apart (dest + offsetOf args index) (.inr ⟨arg, member, by omega, by omega⟩)
    omega
  · exact .inl (by omega)

/-- One turn copies one argument. -/
theorem Copied.step {allocated : Memory} {dest count fuel : Nat} (some_ : src ≠ 0) (vector : Vector allocated src args)
    (block : Block src args dest) (copied : Copied allocated args dest count memory) {arg : Arg}
    (found : args[count]? = some arg) (enough : arg.string.length < fuel) :
    ∃ after, placeStep fuel dest src (memory, offsetOf args count) count = some (after, offsetOf args (count + 1)) ∧
      Copied allocated args dest (count + 1) after := by
  have member := List.mem_of_getElem? found
  have inVector := (List.getElem?_eq_some_iff.mp found).1
  have room := offsetOf_inside found
  have array := offsetOf_mono args (Nat.zero_le count)
  rw [offsetOf_zero] at array
  have inside := block.inside
  have notNull := block.notNull
  have place : add dest (offsetOf args count) = dest + offsetOf args count := add_of_lt _ _ (by omega)
  -- the vector is still there, since it is outside of the block
  have still : ∀ {other : Memory}, (∀ address, address < dest ∨ dest + blockSize args ≤ address →
      other address = allocated address) → Vector other src args := fun kept =>
    vector.congr some_ fun address occupied => kept address (block.apart address occupied)
  have now := still copied.kept
  obtain ⟨stringed, result, held, other⟩ := (now.strings arg member).strcpy enough
    (block.apart_string member found)
  have linkedKept : ∀ address, address < dest ∨ dest + blockSize args ≤ address →
      store64 stringed (dest + 8 * count) (dest + offsetOf args count) address = allocated address := by
    intro address outside
    rw [store64_outside _ _ _ _ (by omega), other address (by omega)]
    exact copied.kept address outside
  have linked := still linkedKept
  have length := (linked.strings arg member).strlen enough
  refine ⟨store64 stringed (dest + 8 * count) (dest + offsetOf args count), ?_, ?_, ?_, linkedKept⟩
  · rw [placeStep]
    simp only [place]
    rw [(now.pointers count arg found).2, result, Option.bind_some, (linked.pointers count arg found).2, length,
      Option.map_some, offsetOf_succ found, add_of_lt]
    rw [← Nat.add_assoc]
    omega
  · intro index below
    rcases Nat.lt_or_eq_of_le (Nat.le_of_lt_succ below) with earlier | rfl
    · rw [load64_store64_disjoint _ _ _ _ (by omega), ← copied.pointers index earlier]
      exact load64_congr _ _ _ fun offset small => other _ (by omega)
    · exact load64_store64_same _ _ _ (by rw [wordSize] at inside; omega)
  · intro index below copy foundCopy
    have firstCopy := offsetOf_mono args (Nat.zero_le index)
    rw [offsetOf_zero] at firstCopy
    have beforeLink : Holds stringed (dest + offsetOf args index) copy.string := by
      rcases Nat.lt_or_eq_of_le (Nat.le_of_lt_succ below) with earlier | rfl
      · have ends := offsetOf_apart foundCopy earlier
        exact (copied.strings index earlier copy foundCopy).congr fun offset small => other _ (by omega)
      · rw [found] at foundCopy
        rw [← Option.some.inj foundCopy]
        exact held
    exact beforeLink.congr fun offset small => store64_outside _ _ _ _ (by omega)

/-- The turns copy the arguments in order. -/
theorem Vector.placeLoop {allocated : Memory} {dest fuel : Nat} (some_ : src ≠ 0) (vector : Vector allocated src args)
    (block : Block src args dest) (enough : ∀ arg ∈ args, arg.string.length < fuel) {count : Nat}
    (inside : count ≤ args.length) :
    ∃ after, (List.range count).foldlM (placeStep fuel dest src) (allocated, offsetOf args 0) =
        some (after, offsetOf args count) ∧ Copied allocated args dest count after := by
  induction count with
  | zero => exact ⟨allocated, rfl, fun _ none => absurd none (Nat.not_lt_zero _),
      fun _ none => absurd none (Nat.not_lt_zero _), fun _ _ => rfl⟩
  | succ count ih =>
    obtain ⟨before, looped, copied⟩ := ih (Nat.le_of_succ_le inside)
    have found := List.getElem?_eq_getElem (show count < args.length from inside)
    obtain ⟨after, turn, copiedAfter⟩ := copied.step some_ vector block found
      (enough _ (List.mem_of_getElem? found))
    refine ⟨after, ?_, copiedAfter⟩
    rw [List.range_succ, List.foldlM_append, looped, Option.bind_eq_bind, Option.bind_some, List.foldlM_cons, turn]
    rfl

/-- A copy of a vector in a block. Nothing outside of the block is written, and the last byte of the
block is the last byte of the last copy, or of the array if there is no copy. -/
structure Copy (allocated memory : Memory) (args : List Arg) (dest : Nat) : Prop where
  ends : load64 memory (dest + 8 * args.length) = 0
  pointers : ∀ index < args.length, load64 memory (dest + 8 * index) = dest + offsetOf args index
  strings : ∀ index arg, args[index]? = some arg → Holds memory (dest + offsetOf args index) arg.string
  behind : ∀ index, 8 * (args.length + 1) ≤ offsetOf args index
  disjoint : ∀ first second arg, args[first]? = some arg → first < second →
    offsetOf args first + arg.string.length < offsetOf args second
  last : ∀ index arg, args[index]? = some arg → index + 1 = args.length →
    offsetOf args index + (arg.string.length + 1) = blockSize args
  array : args = [] → 8 * (args.length + 1) = blockSize args
  kept : ∀ address, address < dest ∨ dest + blockSize args ≤ address → memory address = allocated address

/-- The end of the array completes a copy. -/
theorem Copied.finish {allocated : Memory} {dest : Nat} (copied : Copied allocated args dest args.length memory) :
    Copy allocated (store64 memory (dest + 8 * args.length) 0) args dest := by
  have array : ∀ index, 8 * (args.length + 1) ≤ offsetOf args index := fun index =>
    offsetOf_mono args (Nat.zero_le index)
  refine ⟨load64_store64_same _ _ _ (by decide), ?_, ?_, array, ?_, ?_, ?_, ?_⟩
  · intro index below
    rw [load64_store64_disjoint _ _ _ _ (by omega)]
    exact copied.pointers index below
  · intro index arg found
    have behind := array index
    have below := (List.getElem?_eq_some_iff.mp found).1
    exact (copied.strings index below arg found).congr fun offset small => store64_outside _ _ _ _ (by omega)
  · exact fun first second arg found order => offsetOf_apart found order
  · intro index arg found isLast
    rw [blockSize, ← isLast, offsetOf_succ found]
  · rintro rfl
    rfl
  · intro address outside
    have room := array args.length
    rw [store64_outside _ _ _ _ (by rw [blockSize] at outside; omega)]
    exact copied.kept address outside

/-- An argument vector is copied exactly. The function finishes, and returns `NULL` if and only if a
string is longer than `MAX_PATH`. Else it returns a block with a copy. -/
theorem argv_copied {malloc : Memory → Nat → Memory × Nat} {fuel : Nat} (given : Given memory src args)
    (enough : args.length < fuel) (enoughBytes : maxPath < fuel)
    (provides : Short args → Provides malloc memory src args) :
    ∃ after dest, processAllocateArgv malloc fuel memory src = some (after, dest) ∧
      (dest = 0 ↔ ∃ arg ∈ args, maxPath < arg.string.length) ∧
      (dest ≠ 0 → dest = (malloc memory (blockSize args)).2 ∧
        Copy (malloc memory (blockSize args)).1 after args dest) := by
  have long : ¬ Short args ↔ ∃ arg ∈ args, maxPath < arg.string.length := by
    simp [Short]
  have argc : (if src = 0 then some 0 else countArgs memory src fuel 0) = some args.length := by
    rcases given with ⟨rfl, rfl⟩ | ⟨some_, vector⟩
    · rfl
    · rw [if_neg some_]
      exact vector.countArgs fuel 0 (Nat.zero_le _) (by omega)
  rw [processAllocateArgv, argc, Option.bind_some]
  rcases Nat.eq_zero_or_pos args.length with none | more
  · -- no arguments: the block has only the end of the array
    obtain rfl := List.length_eq_zero_iff.mp none
    have short : Short [] := fun _ member => absurd member List.not_mem_nil
    have block := (provides short).block
    refine ⟨_, (malloc memory 8).2, if_neg (not_not_intro rfl),
      iff_of_false block.notNull (long.not.mp (not_not_intro short)), fun _ => ⟨rfl, ?_⟩⟩
    have nothing : Copied (malloc memory 8).1 [] (malloc memory 8).2 0 (malloc memory 8).1 :=
      ⟨fun _ below => absurd below (Nat.not_lt_zero _), fun _ below => absurd below (Nat.not_lt_zero _), fun _ _ => rfl⟩
    exact nothing.finish
  · obtain ⟨some_, vector⟩ : src ≠ 0 ∧ Vector memory src args := by
      rcases given with ⟨_, rfl⟩ | both
      · exact absurd more (Nat.lt_irrefl 0)
      · exact both
    rw [if_pos (Nat.ne_of_gt more), vector.sizeLoop (Nat.le_refl _), List.take_length]
    by_cases short : Short args
    · obtain ⟨block, kept⟩ := provides short
      have allocated := vector.congr some_ kept
      have start : mul 8 (args.length + 1) = offsetOf args 0 := by
        have few := vector.length_lt
        rw [mul, offsetOf_zero, Nat.mod_eq_of_lt (by rw [wordSize]; omega)]
      obtain ⟨after, placed, copied⟩ := allocated.placeLoop some_ block
        (fun arg member => Nat.lt_of_le_of_lt (short arg member) enoughBytes) (Nat.le_refl args.length)
      refine ⟨_, (malloc memory (blockSize args)).2, ?_,
        iff_of_false block.notNull (long.not.mp (not_not_intro short)), fun _ => ⟨rfl, copied.finish⟩⟩
      rw [if_pos short, start]
      dsimp only
      rw [← blockSize, placed, Option.map_some]
    · rw [if_neg short]
      exact ⟨memory, 0, rfl, iff_of_true rfl (long.mp short), fun some_ => absurd rfl some_⟩

/-- The strings `a` at 64 and `bc` at 72. -/
def smallArgs : List Arg := [⟨64, [97]⟩, ⟨72, [98, 99]⟩]

/-- The vector at 16 with pointers to them. -/
def smallVector : Memory :=
  store64 (store64 (fun address => if address = 64 then 97 else if address = 72 then 98 else
    if address = 73 then 99 else 0) 16 64) 24 72

/-- A block at 1000 for every size. -/
def mallocThousand (memory : Memory) (_ : Nat) : Memory × Nat := (memory, 1000)

/-- The vector is one. -/
theorem smallVector_given : Given smallVector 16 smallArgs := by
  refine .inr ⟨by decide, ?_, by decide, ?_, .inl (by decide)⟩
  · intro index arg found
    obtain ⟨inside, rfl⟩ := List.getElem?_eq_some_iff.mp found
    have two : index = 0 ∨ index = 1 := by
      simp only [smallArgs, List.length_cons, List.length_nil] at inside
      omega
    rcases two with rfl | rfl
    · exact (by decide : (64 : Nat) ≠ 0 ∧ argAt smallVector 16 0 = 64)
    · exact (by decide : (72 : Nat) ≠ 0 ∧ argAt smallVector 16 1 = 72)
  · intro arg member
    rcases List.mem_pair.mp member with rfl | rfl
    · exact ⟨by decide, by decide, show smallVector 65 = 0 by decide⟩
    · exact ⟨by decide, by decide, by decide, by decide, show smallVector 74 = 0 by decide⟩

/-- The copy of a small vector. -/
theorem smallVector_copied : ∃ after,
    processAllocateArgv mallocThousand 300 smallVector 16 = some (after, 1000) ∧
      Copy smallVector after smallArgs 1000 := by
  have provided : Provides mallocThousand smallVector 16 smallArgs := by
    refine ⟨⟨by decide, by decide, ?_⟩, fun _ _ => rfl⟩
    rintro address (⟨_, _, below⟩ | ⟨arg, member, _, below⟩)
    · exact .inl (Nat.lt_trans below (by decide))
    · rcases List.mem_pair.mp member with rfl | rfl
      · exact .inl (Nat.lt_of_le_of_lt below (by decide))
      · exact .inl (Nat.lt_of_le_of_lt below (by decide))
  obtain ⟨after, dest, allocated, refused, copied⟩ :=
    argv_copied smallVector_given (show _ < 300 by decide) (by decide) fun _ => provided
  have some_ : dest ≠ 0 := by
    intro none
    obtain ⟨arg, member, long⟩ := refused.mp none
    rcases List.mem_pair.mp member with rfl | rfl
    · exact absurd long (by decide)
    · exact absurd long (by decide)
  obtain ⟨rfl, copy⟩ := copied some_
  exact ⟨after, allocated, copy⟩

end Asym.ArgumentVectors
