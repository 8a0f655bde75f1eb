import Mathlib.Logic.Function.Basic
import Mathlib.Tactic.Common

/-!
# Path parsing

A model of `vfs_parse_path` and `vfs_make_canonical`, which edit one output
buffer in place through a moving pointer. A pointer into the buffer is an offset
from its start. A pointer into the path is the rest of the path from there; the
terminator is read where the rest is empty. The buffer remembers, besides its
bytes, one past the highest offset written so far; nothing in the source knows
this number, and nothing here depends on it.
-/

namespace Asym.PathParser

/-- `MAX_PATH`. -/
def maxPath : Nat := 256

/-- `VFS_NAME_SEPARATOR`. -/
def nameSeparator : UInt8 := 47

/-- `VFS_LABEL_SEPARATOR`. -/
def labelSeparator : UInt8 := 58

/-- The name `.`. -/
def dot : List UInt8 := [46]

/-- The name `..`. -/
def dotdot : List UInt8 := [46, 46]

/-- `isalnum`. -/
def isalnum (ch : UInt8) : Bool :=
  (48 ≤ ch && ch ≤ 57) || ((65 ≤ ch && ch ≤ 90) || (97 ≤ ch && ch ≤ 122))

/-- The characters `_-. ()[]`, braces, `~!@#$%^&',;=+` and the terminator, which
`strchr` finds too. -/
def otherChars : List UInt8 :=
  [95, 45, 46, 32, 40, 41, 91, 93, 123, 125, 126, 33, 64, 35, 36, 37, 94, 38, 39, 44, 59, 61, 43, 0]

/-- `VFS_VALID_CHAR`. -/
def validChar (ch : UInt8) : Bool := isalnum ch || otherChars.contains ch

/-- `VFS_END_OF_NAME`. -/
def endOfName (ch : UInt8) : Bool := ch == nameSeparator || ch == 0

/-- The character a pointer into a string points at. -/
def charAt (text : List UInt8) : UInt8 := text.headD 0

/-- The output buffer: its bytes and one past the highest offset written. -/
structure Buffer where
  bytes : Nat → UInt8
  extent : Nat

/-- One assignment to the buffer. -/
def Buffer.write (buffer : Buffer) (offset : Nat) (ch : UInt8) : Buffer where
  bytes := Function.update buffer.bytes offset ch
  extent := max buffer.extent (offset + 1)

/-- `memcpy` of a string's characters into the buffer. -/
def Buffer.copy (buffer : Buffer) (offset : Nat) : List UInt8 → Buffer
  | [] => buffer
  | ch :: rest => (buffer.write offset ch).copy (offset + 1) rest

/-- The loop of `name_compare`. -/
def nameCompareFrom : Nat → List UInt8 → List UInt8 → Bool
  | 0, _, _ => false
  | turns + 1, a, b =>
      if endOfName (charAt a) then endOfName (charAt b)
      else if charAt a ≠ charAt b then false
      else nameCompareFrom turns a.tail b.tail

/-- `name_compare`. -/
def nameCompare (a b : List UInt8) : Bool := nameCompareFrom maxPath a b

/-- `name_next`. -/
def nameNext (path : List UInt8) : Option (List UInt8) :=
  match path.dropWhile (· ≠ nameSeparator) with
  | [] => none
  | _ :: rest => some rest

/-- The loop that walks back to the separator before the last name. Reaching the
start is an error. -/
def walkBack (bytes : Nat → UInt8) (start : Nat) : Nat → Option Nat
  | 0 => if bytes 0 = nameSeparator then some 0 else none
  | out + 1 =>
      if bytes (out + 1) = nameSeparator then some (out + 1)
      else if out + 1 ≤ start then none
      else walkBack bytes start out

/-- The loop that copies a name. -/
def copyName (start : Nat) : List UInt8 → Nat → Buffer → Option Nat × Buffer
  | [], out, buffer => (some out, buffer)
  | ch :: rest, out, buffer =>
      if endOfName ch then (some out, buffer)
      else if !validChar ch || out - start ≥ maxPath - 2 then (none, buffer)
      else copyName start rest (out + 1) (buffer.write (out + 1) ch)

/-- The body of the loop of `vfs_make_canonical` for one name. -/
def canonicalName (start out : Nat) (buffer : Buffer) (name : List UInt8) : Option Nat × Buffer :=
  if nameCompare name dot then (some out, buffer)
  else if nameCompare name dotdot then
    match walkBack buffer.bytes start (out - 1) with
    | none => (none, buffer)
    | some back => (some back, buffer.write (back + 1) 0)
  else
    match copyName start name out buffer with
    | (none, partly) => (none, partly)
    | (some stop, copied) =>
        (some (stop + 1), (copied.write (stop + 1) nameSeparator).write (stop + 2) 0)

/-- The end of `vfs_make_canonical`: a separator at the end is dropped. -/
def dropSeparator (out : Nat) (buffer : Buffer) : Buffer :=
  if buffer.bytes out = nameSeparator then buffer.write out 0 else buffer

/-- `vfs_make_canonical`, with success as `true`. Every turn goes on with a
shorter rest of the path, so fuel above its length is not exhausted. -/
def makeCanonical (start : Nat) : Nat → Nat → Buffer → List UInt8 → Bool × Buffer
  | 0, _, buffer, _ => (false, buffer)
  | fuel + 1, out, buffer, name =>
      match canonicalName start out buffer name with
      | (none, failed) => (false, failed)
      | (some moved, edited) =>
          match nameNext name with
          | none => (true, dropSeparator moved edited)
          | some [] => (true, dropSeparator moved edited)
          | some next => makeCanonical start fuel moved edited next

/-- How the scan of the first name of a path ends. -/
inductive Scan where
  | invalid
  | absolute (labelLength : Nat)
  | relative
  deriving DecidableEq, Repr

/-- The loop of `vfs_parse_path` over the first name. -/
def scanLabel : List UInt8 → Nat → Scan
  | [], _ => .relative
  | ch :: rest, i =>
      if endOfName ch then .relative
      else if ch = labelSeparator then
        if !endOfName (charAt rest) then .invalid else .absolute i
      else if !validChar ch then .invalid
      else scanLabel rest (i + 1)

/-- A working directory: a label, the label separator and the rest, as a string
shorter than `MAX_PATH`. -/
structure Cwd where
  label : List UInt8
  rest : List UInt8
  labelChars : ∀ ch ∈ label, ch ≠ labelSeparator ∧ ch ≠ 0
  restChars : ∀ ch ∈ rest, ch ≠ 0
  short : label.length + 1 + rest.length < maxPath

/-- The string of a working directory. -/
def Cwd.text (cwd : Cwd) : List UInt8 := cwd.label ++ labelSeparator :: cwd.rest

/-- `vfs_parse_path` on a buffer with arbitrary bytes. -/
def vfsParsePath (cwd : Cwd) (out : Buffer) (path : List UInt8) : Bool × Buffer :=
  if charAt path = nameSeparator then
    let labelLength := cwd.label.length
    let labelled := ((out.copy 0 cwd.label).write labelLength labelSeparator).write (labelLength + 1) 0
    makeCanonical labelLength (path.length + 1) labelLength labelled path
  else match scanLabel path 0 with
    | .invalid => (false, out)
    | .absolute labelLength =>
        let labelled := (((out.copy 0 (path.take labelLength)).write labelLength labelSeparator).write
          (labelLength + 1) nameSeparator).write (labelLength + 2) 0
        makeCanonical labelLength (path.length + 1) labelLength labelled (path.drop (labelLength + 1))
    | .relative =>
        let labelLength := cwd.label.length
        let cwdLength := cwd.text.length
        let copied := ((out.copy 0 (cwd.text ++ [0])).write cwdLength nameSeparator).write
          (cwdLength + 1) 0
        makeCanonical labelLength (path.length + 1) cwdLength copied path

end Asym.PathParser
