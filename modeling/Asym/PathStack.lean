import Mathlib.Data.List.TakeWhile
import Asym.PathParser

/-!
# The path buffer as a stack of names

While a path is made canonical, the buffer spells a label, the label separator
and a stack of segments, each followed by a separator; the moving pointer stands
on the last separator. The lowest segment lies directly after the label
separator and is never removed. Copying a name pushes a segment, and walking
back from the pointer removes one.

The invariant is kept for every path, empty names and overlong ones included,
together with one past the highest offset written. What is proved of one name is
carried over the names of a path by induction.
-/

namespace Asym.PathStack

open PathParser

/-- Characters between two separators. -/
abbrev Segment := List UInt8

/-- Distance of the pointer from the label separator. -/
def used : List Segment → Nat
  | [] => 0
  | segment :: below => used below + segment.length + 1

/-- The characters spelled by a stack, its top segment last. -/
def text (label : List UInt8) : List Segment → List UInt8
  | [] => label ++ [labelSeparator]
  | segment :: below => text label below ++ segment ++ [nameSeparator]

/-- The bytes from the start of the buffer on spell a word. -/
def Spells (bytes : Nat → UInt8) (word : List UInt8) : Prop :=
  ∀ offset ch, word[offset]? = some ch → bytes offset = ch

/-- The bytes of the buffer are a terminated string. -/
def SpellsString (bytes : Nat → UInt8) (word : List UInt8) : Prop :=
  Spells bytes word ∧ bytes word.length = 0

/-- The buffer and the pointer represent a stack. -/
structure Represents (buffer : Buffer) (label : List UInt8) (stack : List Segment) (out : Nat) :
    Prop where
  place : out = label.length + used stack
  spelled : Spells buffer.bytes (text label stack)
  written : out < buffer.extent
  plain : ∀ segment ∈ stack, nameSeparator ∉ segment

/-- Length of the text of a stack. -/
theorem text_length (label : List UInt8) (stack : List Segment) :
    (text label stack).length = label.length + used stack + 1 := by
  induction stack with
  | nil => simp [text, used]
  | cons segment below ih =>
    simp [text, used, ih]
    omega

/-- A buffer that spells a word spells its beginning. -/
theorem spells_left (bytes : Nat → UInt8) (front back : List UInt8)
    (spelled : Spells bytes (front ++ back)) : Spells bytes front := by
  intro offset ch here
  apply spelled
  rw [List.getElem?_append_left (List.getElem?_eq_some_iff.mp here).1]
  exact here

/-- Writing after a word leaves it spelled. -/
theorem spells_write (buffer : Buffer) (word : List UInt8) (offset : Nat) (ch : UInt8)
    (spelled : Spells buffer.bytes word) (after : word.length ≤ offset) :
    Spells (buffer.write offset ch).bytes word := by
  intro tested found here
  have inside := (List.getElem?_eq_some_iff.mp here).1
  have different : tested ≠ offset := by omega
  simp only [Buffer.write, Function.update_of_ne different]
  exact spelled tested found here

/-- Writing directly after a word extends it. -/
theorem spells_extend (buffer : Buffer) (word : List UInt8) (ch : UInt8)
    (spelled : Spells buffer.bytes word) :
    Spells (buffer.write word.length ch).bytes (word ++ [ch]) := by
  intro tested found here
  rcases Nat.lt_or_ge tested word.length with inside | outside
  · rw [List.getElem?_append_left inside] at here
    exact spells_write buffer word word.length ch spelled (Nat.le_refl _) tested found here
  · have bound := (List.getElem?_eq_some_iff.mp here).1
    rw [List.length_append, List.length_singleton] at bound
    obtain rfl : tested = word.length := by omega
    rw [List.getElem?_append_right (Nat.le_refl _), Nat.sub_self, List.getElem?_cons_zero,
      Option.some.injEq] at here
    simp only [Buffer.write, Function.update_self, here]

/-- Copying a string directly after a word extends it. -/
theorem spells_copy (buffer : Buffer) (word added : List UInt8) (spelled : Spells buffer.bytes word) :
    Spells (buffer.copy word.length added).bytes (word ++ added) := by
  induction added generalizing buffer word with
  | nil => simpa [Buffer.copy] using spelled
  | cons ch rest ih =>
    have next := ih (buffer.write word.length ch) (word ++ [ch])
      (spells_extend buffer word ch spelled)
    rw [List.length_append, List.length_singleton, List.append_assoc, List.singleton_append] at next
    exact next

/-- One past the highest offset after copying to a place not beyond it. -/
theorem copy_extent (buffer : Buffer) (offset : Nat) (added : List UInt8)
    (reached : offset ≤ buffer.extent) :
    (buffer.copy offset added).extent = max buffer.extent (offset + added.length) := by
  induction added generalizing buffer offset with
  | nil => simp [Buffer.copy, reached]
  | cons ch rest ih =>
    have further : offset + 1 ≤ (buffer.write offset ch).extent := by
      simp only [Buffer.write]
      omega
    rw [Buffer.copy, ih _ _ further]
    simp only [Buffer.write, List.length_cons]
    omega

/-- The name at the start of a rest of a path. -/
def component (name : List UInt8) : Segment := name.takeWhile (fun ch => !endOfName ch)

/-- No separator or terminator lies inside a name. -/
theorem component_plain {name : List UInt8} {ch : UInt8} (member : ch ∈ component name) :
    endOfName ch = false := by
  have inside := List.mem_takeWhile_imp member
  simpa using inside

/-- Comparing a name compares its characters. The name compared with is short
and has no separator. -/
theorem nameCompareFrom_eq (turns : Nat) (name word : List UInt8) (room : word.length < turns)
    (plain : ∀ ch ∈ word, endOfName ch = false) :
    nameCompareFrom turns name word = (component name == word) := by
  have terminator : endOfName 0 = true := by decide
  induction word generalizing turns name with
  | nil =>
    cases turns with
    | zero => simp at room
    | succ turns =>
      cases name with
      | nil => simp [nameCompareFrom, charAt, terminator, component]
      | cons ch rest =>
        cases ends : endOfName ch with
        | true => simp [nameCompareFrom, charAt, terminator, component, ends]
        | false =>
          have different : ch ≠ 0 := by
            rintro rfl
            exact Bool.noConfusion (terminator.symm.trans ends)
          simp [nameCompareFrom, charAt, component, ends, different]
  | cons first others ih =>
    have firstPlain : endOfName first = false := plain first List.mem_cons_self
    cases turns with
    | zero => simp at room
    | succ turns =>
      cases name with
      | nil => simp [nameCompareFrom, charAt, terminator, component, firstPlain]
      | cons ch rest =>
        cases ends : endOfName ch with
        | true => simp [nameCompareFrom, charAt, component, ends, firstPlain]
        | false =>
          by_cases same : ch = first
          · subst same
            have later := ih turns rest (by simpa using room)
              (fun other member => plain other (List.mem_cons_of_mem ch member))
            simpa [nameCompareFrom, charAt, component, ends] using later
          · simp [nameCompareFrom, charAt, component, ends, same]

/-- Comparing a name with `.`. -/
theorem nameCompare_dot (name : List UInt8) : nameCompare name dot = (component name == dot) := by
  apply nameCompareFrom_eq maxPath name dot (by decide)
  rw [dot, List.forall_mem_singleton]
  decide

/-- Comparing a name with `..`. -/
theorem nameCompare_dotdot (name : List UInt8) :
    nameCompare name dotdot = (component name == dotdot) := by
  apply nameCompareFrom_eq maxPath name dotdot (by decide)
  rw [dotdot, List.forall_mem_cons, List.forall_mem_singleton]
  decide

/-- Number of characters copied from a name when the pointer is at a distance
from the label separator: up to the first invalid character, or to the limit. -/
def copied (distance : Nat) : Segment → Nat
  | [] => 0
  | ch :: rest =>
      if !validChar ch || distance ≥ maxPath - 2 then 0 else copied (distance + 1) rest + 1

/-- No more characters are copied than there are. -/
theorem copied_le (distance : Nat) (segment : Segment) :
    copied distance segment ≤ segment.length := by
  induction segment generalizing distance with
  | nil => simp [copied]
  | cons ch rest ih =>
    have later := ih (distance + 1)
    rw [copied, List.length_cons]
    split <;> omega

/-- The loop that copies a name copies the characters counted, and succeeds when
these are all. -/
theorem copyName_eq (start : Nat) (name : List UInt8) (out : Nat) (buffer : Buffer)
    (ordered : start ≤ out) :
    copyName start name out buffer =
      (if copied (out - start) (component name) = (component name).length then
          some (out + (component name).length) else none,
        buffer.copy (out + 1) ((component name).take (copied (out - start) (component name)))) := by
  induction name generalizing out buffer with
  | nil => simp [copyName, component, copied, Buffer.copy]
  | cons ch rest ih =>
    rw [copyName]
    cases ends : endOfName ch with
    | true => simp [component, ends, copied, Buffer.copy]
    | false =>
      have spelled : component (ch :: rest) = ch :: component rest := by simp [component, ends]
      by_cases stops : (!validChar ch || out - start ≥ maxPath - 2) = true
      · have none : copied (out - start) (ch :: component rest) = 0 := by
          rw [copied, if_pos stops]
        rw [spelled, none, if_pos stops]
        simp [Buffer.copy]
      · have later := ih (out + 1) (buffer.write (out + 1) ch) (by omega)
        have distance : out + 1 - start = out - start + 1 := by omega
        have some : copied (out - start) (ch :: component rest) =
            copied (out - start + 1) (component rest) + 1 := by
          rw [copied, if_neg stops]
        rw [spelled, some, if_neg stops, if_neg (by simp), later, distance]
        simp [Buffer.copy, Nat.add_assoc, Nat.add_comm 1]

/-- The character of the top segment at a place behind the segments below. -/
theorem spelled_segment {bytes : Nat → UInt8} {label : List UInt8} {segment : Segment}
    {below : List Segment} (spelled : Spells bytes (text label (segment :: below))) (place : Nat)
    (inside : place < segment.length) :
    bytes (label.length + used below + 1 + place) = segment[place] := by
  apply spelled
  have shape : text label (segment :: below) =
      text label below ++ (segment ++ [nameSeparator]) := by simp [text]
  have behind : label.length + used below + 1 + place - (text label below).length = place := by
    rw [text_length]
    omega
  rw [shape, List.getElem?_append_right (by rw [text_length]; omega), behind,
    List.getElem?_append_left inside, List.getElem?_eq_getElem inside]

/-- The character under the pointer: the separator of the top segment, or the
label separator when there is none. -/
theorem spelled_top (bytes : Nat → UInt8) (label : List UInt8) (stack : List Segment)
    (spelled : Spells bytes (text label stack)) :
    bytes (label.length + used stack) =
      if stack = [] then labelSeparator else nameSeparator := by
  cases stack with
  | nil => exact spelled _ _ (by simp [text, used])
  | cons segment below =>
    apply spelled
    have behind : label.length + used (segment :: below) =
        (text label below ++ segment).length := by
      rw [List.length_append, text_length, used]
      omega
    rw [text, behind]
    simp

/-- Walking back stops on the last separator at or before the place it starts
from. -/
theorem walkBack_finds (bytes : Nat → UInt8) (start low high : Nat) (ordered : low ≤ high)
    (after : start ≤ low) (found : bytes low = nameSeparator)
    (between : ∀ offset, low < offset → offset ≤ high → bytes offset ≠ nameSeparator) :
    walkBack bytes start high = some low := by
  induction high with
  | zero =>
    obtain rfl : low = 0 := by omega
    rw [walkBack, if_pos found]
  | succ high ih =>
    rcases Nat.lt_or_ge low (high + 1) with later | here
    · rw [walkBack, if_neg (between _ later (Nat.le_refl _)), if_neg (by omega)]
      refine ih (by omega) fun offset above below => ?_
      exact between offset above (by omega)
    · obtain rfl : low = high + 1 := by omega
      rw [walkBack, if_pos found]

/-- Walking back fails when no separator lies between the start and the place it
starts from. -/
theorem walkBack_fails (bytes : Nat → UInt8) (start high : Nat) (ordered : start ≤ high)
    (absent : ∀ offset, start ≤ offset → offset ≤ high → bytes offset ≠ nameSeparator) :
    walkBack bytes start high = none := by
  induction high with
  | zero => rw [walkBack, if_neg (absent 0 ordered (Nat.le_refl _))]
  | succ high ih =>
    rw [walkBack, if_neg (absent _ ordered (Nat.le_refl _))]
    rcases Nat.lt_or_ge start (high + 1) with later | here
    · rw [if_neg (by omega)]
      refine ih (by omega) fun offset above below => ?_
      exact absent offset above (by omega)
    · rw [if_pos here]

/-- No character of the top segment is a separator. -/
theorem top_plain {bytes : Nat → UInt8} {label : List UInt8} {segment : Segment}
    {below : List Segment} (spelled : Spells bytes (text label (segment :: below)))
    (plain : nameSeparator ∉ segment) (offset : Nat) (above : label.length + used below < offset)
    (within : offset ≤ label.length + used below + segment.length) :
    bytes offset ≠ nameSeparator := by
  obtain ⟨place, rfl⟩ : ∃ place, offset = label.length + used below + 1 + place :=
    ⟨offset - (label.length + used below + 1), by omega⟩
  rw [spelled_segment spelled place (by omega)]
  intro separator
  exact plain (separator ▸ List.getElem_mem _)

/-- Walking back from the pointer finds the segment below the top one, or fails
when there is none. -/
theorem walkBack_stack {buffer : Buffer} {label : List UInt8} {segment : Segment}
    {below : List Segment} {out : Nat}
    (represented : Represents buffer label (segment :: below) out) :
    walkBack buffer.bytes label.length (out - 1) =
      if below = [] then none else some (label.length + used below) := by
  have spelledBelow : Spells buffer.bytes (text label below) := by
    apply spells_left _ _ (segment ++ [nameSeparator])
    rw [← List.append_assoc]
    exact represented.spelled
  have top := spelled_top buffer.bytes label below spelledBelow
  have plain := top_plain represented.spelled (represented.plain segment List.mem_cons_self)
  have last : out - 1 = label.length + used below + segment.length := by
    rw [represented.place, used]
    omega
  rw [last]
  split at top
  · rename_i empty
    subst empty
    rw [if_pos rfl]
    apply walkBack_fails _ _ _ (by omega)
    intro offset above within
    rcases Nat.lt_or_ge (label.length + used []) offset with inside | here
    · exact plain offset inside within
    · obtain rfl : offset = label.length + used [] := by
        simp only [used] at here ⊢
        omega
      rw [top]
      decide
  · rename_i rooted
    rw [if_neg rooted]
    exact walkBack_finds _ _ _ _ (by omega) (by omega) top plain

/-- What one name does to a stack: `.` nothing, `..` removes the top segment
unless it is the only one, and any other name is pushed, unless the copy stops
before its end. -/
def resolve (stack : List Segment) (name : Segment) : Option (List Segment) :=
  if name = dot then some stack
  else if name = dotdot then
    match stack with
    | _ :: below :: rest => some (below :: rest)
    | _ => none
  else if copied (used stack) name = name.length then some (name :: stack)
  else none

/-- One past the highest offset written for one name, when that is beyond the
pointer. -/
def reach (labelLength : Nat) (stack : List Segment) (name : Segment) : Nat :=
  if name = dot ∨ name = dotdot then 0
  else
    let count := copied (used stack) name
    labelLength + used stack + count + if count = name.length then 3 else 1

/-- Resolving `.`. -/
@[simp] theorem resolve_dot (stack : List Segment) : resolve stack dot = some stack := by
  simp [resolve]

/-- What one turn of the loop did, in terms of the stack. -/
structure Turned (buffer : Buffer) (label : List UInt8) (stack : List Segment) (name : Segment)
    (result : Option Nat × Buffer) : Prop where
  kept : ∀ next, resolve stack name = some next →
    ∃ moved, result.1 = some moved ∧ Represents result.2 label next moved
  failed : resolve stack name = none → result.1 = none
  extent : result.2.extent = max buffer.extent (reach label.length stack name)

/-- The turn for `.`. -/
theorem turned_dot {buffer : Buffer} {label : List UInt8} {stack : List Segment} {out : Nat}
    (represented : Represents buffer label stack out) :
    Turned buffer label stack dot (some out, buffer) where
  kept next resolved := by
    rw [resolve_dot, Option.some.injEq] at resolved
    subst resolved
    exact ⟨out, rfl, represented⟩
  failed refused := by
    rw [resolve_dot] at refused
    contradiction
  extent := by simp [reach]

/-- Removing the top segment leaves the segments below it represented. -/
theorem represents_below {buffer : Buffer} {label : List UInt8} {segment : Segment}
    {below : List Segment} {out : Nat}
    (represented : Represents buffer label (segment :: below) out) :
    Represents (buffer.write (label.length + used below + 1) 0) label below
      (label.length + used below) where
  place := rfl
  spelled := by
    apply spells_write
    · apply spells_left _ _ (segment ++ [nameSeparator])
      rw [← List.append_assoc]
      exact represented.spelled
    · rw [text_length]
  written := by
    simp only [Buffer.write]
    omega
  plain other member := represented.plain other (List.mem_cons_of_mem segment member)

/-- The turn for `..`. -/
theorem turned_dotdot {buffer : Buffer} {label : List UInt8} {segment : Segment}
    {below : List Segment} {out : Nat}
    (represented : Represents buffer label (segment :: below) out) :
    Turned buffer label (segment :: below) dotdot
      (match walkBack buffer.bytes label.length (out - 1) with
        | none => (none, buffer)
        | some back => (some back, buffer.write (back + 1) 0)) := by
  have different : dotdot ≠ dot := by decide
  have untouched : reach label.length (segment :: below) dotdot = 0 := by simp [reach]
  have place := represented.place
  have written := represented.written
  rw [walkBack_stack represented]
  cases below with
  | nil =>
    refine ⟨?_, ?_, ?_⟩
    · intro next resolved
      simp [resolve, different] at resolved
    · intro _
      rfl
    · simp [untouched]
  | cons under rest =>
    refine ⟨?_, ?_, ?_⟩
    · intro next resolved
      simp only [resolve, if_neg different, if_pos, Option.some.injEq] at resolved
      subst resolved
      exact ⟨_, rfl, represents_below represented⟩
    · intro refused
      simp [resolve, different] at refused
    · simp only [used] at place
      simp only [untouched, if_neg (List.cons_ne_nil under rest), Buffer.write, used]
      omega

/-- Writing a name and its separator behind a stack pushes the name. -/
theorem represents_push (buffer : Buffer) (label : List UInt8) (stack : List Segment) (out : Nat)
    (name : Segment) (represented : Represents buffer label stack out)
    (plain : nameSeparator ∉ name) :
    Represents (((buffer.copy (out + 1) name).write (out + name.length + 1) nameSeparator).write
      (out + name.length + 2) 0) label (name :: stack) (out + name.length + 1) where
  place := by
    rw [represented.place, used]
    omega
  spelled := by
    have length : (text label stack).length = out + 1 := by rw [text_length, represented.place]
    have copiedName := spells_copy buffer (text label stack) name represented.spelled
    have separated := spells_extend _ _ nameSeparator copiedName
    rw [List.length_append, length, Nat.add_right_comm] at separated
    apply spells_write _ _ _ _ separated
    rw [List.length_append, List.length_append, length, List.length_singleton]
    omega
  written := by
    simp only [Buffer.write]
    omega
  plain segment member := by
    rcases List.mem_cons.mp member with rfl | older
    · exact plain
    · exact represented.plain segment older

/-- The turn for any other name. -/
theorem turned_name {buffer : Buffer} {label : List UInt8} {stack : List Segment} {out : Nat}
    {name : List UInt8} (represented : Represents buffer label stack out)
    (notDot : component name ≠ dot) (notDotdot : component name ≠ dotdot) :
    Turned buffer label stack (component name)
      (match copyName label.length name out buffer with
        | (none, partly) => (none, partly)
        | (some stop, copied) =>
            (some (stop + 1), (copied.write (stop + 1) nameSeparator).write (stop + 2) 0)) := by
  have place := represented.place
  have written := represented.written
  have distance : out - label.length = used stack := by omega
  have bounded := copied_le (used stack) (component name)
  have plain : nameSeparator ∉ component name := by
    intro member
    have ends := component_plain member
    exact absurd ends (by decide)
  have moved : resolve stack (component name) =
      if copied (used stack) (component name) = (component name).length then
        some (component name :: stack) else none := by
    simp [resolve, notDot, notDotdot]
  rw [copyName_eq label.length name out buffer (by omega), distance]
  by_cases whole : copied (used stack) (component name) = (component name).length
  · rw [if_pos whole, whole, List.take_length]
    rw [if_pos whole] at moved
    refine ⟨?_, ?_, ?_⟩
    · intro next resolved
      rw [moved, Option.some.injEq] at resolved
      subst resolved
      exact ⟨_, rfl, represents_push buffer label stack out (component name) represented plain⟩
    · intro refused
      rw [moved] at refused
      contradiction
    · simp only [Buffer.write, copy_extent buffer (out + 1) (component name) (by omega), reach,
        notDot, notDotdot, whole, or_self, if_false, if_true]
      omega
  · rw [if_neg whole]
    rw [if_neg whole] at moved
    refine ⟨?_, ?_, ?_⟩
    · intro next resolved
      rw [moved] at resolved
      contradiction
    · intro _
      rfl
    · simp only [copy_extent buffer (out + 1) _ (show out + 1 ≤ buffer.extent by omega), reach,
        notDot, notDotdot, whole, or_self, if_false, List.length_take]
      omega

/-- One turn of the loop. A stack without segments is met by an empty name only. -/
theorem canonicalName_turned {buffer : Buffer} {label : List UInt8} {stack : List Segment}
    {out : Nat} {name : List UInt8} (represented : Represents buffer label stack out)
    (rooted : stack ≠ [] ∨ component name = []) :
    Turned buffer label stack (component name) (canonicalName label.length out buffer name) := by
  rw [canonicalName, nameCompare_dot, nameCompare_dotdot]
  by_cases isDot : component name = dot
  · rw [if_pos (by simp [isDot]), isDot]
    exact turned_dot represented
  · rw [if_neg (by simp [isDot])]
    by_cases isDotdot : component name = dotdot
    · rw [if_pos (by simp [isDotdot]), isDotdot]
      cases stack with
      | nil =>
        rw [isDotdot] at rooted
        exact absurd rooted (by decide)
      | cons segment below => exact turned_dotdot represented
    · rw [if_neg (by simp [isDotdot])]
      exact turned_name represented isDot isDotdot

end Asym.PathStack
