import Asym.PathRuns
import Mathlib.Algebra.GroupWithZero.Nat

/-!
# Lexical resolution

On paths without empty names, from a working directory in canonical form and
within the length that is promised, the parser computes lexical resolution: a
stack of names that starts with those of the working directory, or empty; `.`
leaves it alone, `..` pops it, and any other name is pushed. The buffer's stack
is this one over an empty lowest segment, so that a stack with one segment is
the empty stack of names.

A path is absolute when its first name ends with the label separator. A path of
the relative form is one whose first name does not.
-/

namespace Asym.PathResolution

open PathParser PathStack PathRuns

/-- What one name does to a stack of names, its last name first. -/
def lexical (names : List Segment) (name : Segment) : Option (List Segment) :=
  if name = dot then some names
  else if name = dotdot then
    match names with
    | [] => none
    | _ :: below => some below
  else some (name :: names)

/-- Every character passes `VFS_VALID_CHAR`. -/
def validName (name : Segment) : Bool := name.all validChar

/-- Names, each behind a separator, and possibly a separator at the end. -/
def rooted (names : List Segment) (trailing : Bool) : List UInt8 :=
  names.flatMap (nameSeparator :: ·) ++ if trailing then [nameSeparator] else []

/-- The three forms of a path. -/
inductive Form where
  | absolute (label : List UInt8) (names : List Segment) (trailing : Bool)
  | root (names : List Segment) (trailing : Bool)
  | relative (first : Segment) (names : List Segment) (trailing : Bool)

/-- The characters of a path. -/
def Form.path : Form → List UInt8
  | absolute label names trailing => label ++ labelSeparator :: rooted names trailing
  | root names trailing => rooted names trailing
  | relative first names trailing => first ++ rooted names trailing

/-- The components of a path. -/
def Form.components : Form → List Segment
  | absolute _ names _ => names
  | root names _ => names
  | relative first names _ => first :: names

/-- The label and the components of a path, all that is checked for validity. -/
def Form.checked : Form → List Segment
  | absolute label names _ => label :: names
  | root names _ => names
  | relative first names _ => first :: names

/-- A non-empty name without separator and terminator. -/
def Word (name : Segment) : Prop := name ≠ [] ∧ ∀ ch ∈ name, endOfName ch = false

/-- The shape of a path of each form. -/
def Form.WellFormed : Form → Prop
  | absolute label names _ => Word label ∧ ∀ name ∈ names, Word name
  | root names trailing => (names ≠ [] ∨ trailing = true) ∧ ∀ name ∈ names, Word name
  | relative first names _ =>
      Word first ∧ first.getLast? ≠ some labelSeparator ∧ ∀ name ∈ names, Word name

/-- A working directory in canonical form, with its names in order. -/
structure Canonical (cwd : Cwd) (names : List Segment) : Prop where
  label : cwd.label ≠ []
  rest : cwd.rest = rooted names false
  valid : ∀ name ∈ names, Word name ∧ validName name = true ∧ name ≠ dot ∧ name ≠ dotdot

/-- The label of the result. -/
def Form.label (cwd : Cwd) : Form → List UInt8
  | absolute label _ _ => label
  | root _ _ => cwd.label
  | relative _ _ _ => cwd.label

/-- The stack of names that resolution starts from, last name first. -/
def Form.start (cwdNames : List Segment) : Form → List Segment
  | absolute _ _ _ => []
  | root _ _ => []
  | relative _ _ _ => cwdNames.reverse

/-- Room taken by names with a separator each. -/
def room (names : List Segment) : Nat := (names.map fun name => name.length + 1).sum

/-- Length of names behind separators. -/
theorem rooted_length (names : List Segment) (trailing : Bool) :
    room names ≤ (rooted names trailing).length := by
  have length : (names.flatMap (nameSeparator :: ·)).length = room names := by
    rw [room, List.length_flatMap]
    rfl
  rw [rooted, List.length_append, length]
  omega

/-- A name is copied whole when its characters are valid and the limit is not
reached. -/
theorem copied_whole (distance : Nat) (name : Segment) (fits : distance + name.length ≤ maxPath - 2) :
    copied distance name = name.length ↔ validName name = true := by
  induction name generalizing distance with
  | nil => simp [copied, validName]
  | cons ch rest ih =>
    rw [List.length_cons] at fits
    have near : ¬ distance ≥ maxPath - 2 := by omega
    have later := ih (distance + 1) (by omega)
    cases valid : validChar ch with
    | false => simp [copied, validName, valid]
    | true =>
      simp only [copied, valid, near, validName, List.all_cons, List.length_cons]
      simpa [validName] using later

/-- With a valid name, resolving on the buffer's stack is lexical. -/
theorem resolve_lexical (names : List Segment) (name : Segment)
    (fits : used (names ++ [[]]) + name.length ≤ maxPath - 2) :
    resolve (names ++ [[]]) name =
      if validName name then (lexical names name).map (· ++ [[]]) else none := by
  have whole := copied_whole (used (names ++ [[]])) name fits
  by_cases isDot : name = dot
  · subst isDot
    have valid : validName dot = true := by decide
    simp [lexical, valid]
  · by_cases isDotdot : name = dotdot
    · subst isDotdot
      have valid : validName dotdot = true := by decide
      rcases names with _ | ⟨top, _ | ⟨under, below⟩⟩
      · simp [resolve, lexical, isDot]
      · simp [resolve, lexical, isDot, valid]
      · simp [resolve, lexical, isDot, valid]
    · simp [resolve, lexical, isDot, isDotdot, whole]

/-- Resolving a name takes no more room than the name. -/
theorem lexical_room {names next : List Segment} {name : Segment}
    (resolved : lexical names name = some next) :
    used (next ++ [[]]) ≤ used (names ++ [[]]) + (name.length + 1) := by
  unfold lexical at resolved
  split_ifs at resolved
  · rw [Option.some.injEq] at resolved
    subst resolved
    omega
  · cases names with
    | nil => simp at resolved
    | cons top below =>
      rw [Option.some.injEq] at resolved
      subst resolved
      simp only [List.cons_append, used]
      omega
  · rw [Option.some.injEq] at resolved
    subst resolved
    simp only [List.cons_append, used]
    omega

/-- A run over names resolves them lexically, if all of them are valid. -/
theorem foldlM_lexical (names components : List Segment)
    (fits : used (names ++ [[]]) + room components ≤ maxPath - 1) :
    components.foldlM resolve (names ++ [[]]) =
      if components.all validName then (components.foldlM lexical names).map (· ++ [[]])
      else none := by
  induction components generalizing names with
  | nil => simp
  | cons name later ih =>
    have shape : room (name :: later) = name.length + 1 + room later := by simp [room]
    rw [shape] at fits
    rw [List.foldlM_cons, List.foldlM_cons, resolve_lexical names name (by omega),
      List.all_cons]
    cases validName name with
    | false => simp
    | true =>
      cases resolved : lexical names name with
      | none => simp
      | some next =>
        have bounded := lexical_room resolved
        simpa using ih next (by omega)

/-- The text of names over the empty lowest segment. -/
theorem text_names (label : List UInt8) (names : List Segment) :
    text label (names ++ [[]]) =
      label ++ labelSeparator :: rooted names.reverse false ++ [nameSeparator] := by
  induction names with
  | nil => simp [text, rooted]
  | cons name below ih =>
    rw [List.cons_append, text, ih]
    simp [rooted]

/-- What is left in the buffer when the names remain. -/
theorem text_result (label : List UInt8) (names below : List Segment) (segment : Segment)
    (shape : names ++ [[]] = segment :: below) :
    text label below ++ segment = label ++ labelSeparator :: rooted names.reverse false := by
  have spelling := text_names label names
  rw [shape, text] at spelling
  exact List.append_cancel_right spelling

/-- A name without separator is joined to the first name visited after it. -/
theorem visited_append (name tail : List UInt8) (first : Segment) (others : List Segment)
    (plain : nameSeparator ∉ name) (after : visited tail = first :: others) :
    visited (name ++ tail) = (name ++ first) :: others := by
  induction name with
  | nil => exact after
  | cons ch rest ih =>
    rw [List.mem_cons, not_or] at plain
    rw [List.cons_append, visited, if_neg (Ne.symm plain.1), ih plain.2]
    rfl

/-- No separator lies inside a name. -/
theorem ends_plain {name : Segment} (inside : ∀ ch ∈ name, endOfName ch = false) : nameSeparator ∉ name := by
  intro member
  exact absurd (inside _ member) (by decide)

/-- A word has no separator. -/
theorem word_plain (name : Segment) (word : Word name) : nameSeparator ∉ name :=
  ends_plain word.2

/-- The names visited behind separators: an empty one before the first separator,
and then the names. -/
theorem visited_rooted (names : List Segment) (trailing : Bool) (words : ∀ name ∈ names, Word name) :
    visited (rooted names trailing) = [] :: names := by
  induction names with
  | nil => cases trailing <;> rfl
  | cons name later ih =>
    have word := words name List.mem_cons_self
    have next := ih fun other member => words other (List.mem_cons_of_mem name member)
    have shape : rooted (name :: later) trailing =
        nameSeparator :: (name ++ rooted later trailing) := by simp [rooted]
    have longer : name ++ rooted later trailing ≠ [] := by simp [word.1]
    rw [shape, visited, if_pos rfl, if_neg longer,
      visited_append name _ [] later (word_plain name word) next, List.append_nil]

/-- The segments of names behind separators. -/
theorem spread_append (below : List Segment) (current name rest : List UInt8)
    (plain : nameSeparator ∉ name) :
    spread below current (name ++ rest) = spread below (current ++ name) rest := by
  induction name generalizing current with
  | nil => simp
  | cons ch others ih =>
    rw [List.mem_cons, not_or] at plain
    rw [List.cons_append, spread, if_neg (Ne.symm plain.1), ih _ plain.2,
      List.append_assoc, List.singleton_append]

/-- The segments of names behind separators are the names over what is there, empty
ones included. -/
theorem spread_rooted_names (below : List Segment) (current : Segment) (names : List Segment)
    (plain : ∀ name ∈ names, ∀ ch ∈ name, endOfName ch = false) :
    spread below current (rooted names false) = names.reverse ++ current :: below := by
  induction names generalizing below current with
  | nil => rfl
  | cons name later ih =>
    have separated := ends_plain (plain name List.mem_cons_self)
    have shape : rooted (name :: later) false = nameSeparator :: (name ++ rooted later false) := by
      simp [rooted]
    rw [shape, spread, if_pos rfl, spread_append _ _ _ _ separated, List.nil_append,
      ih _ _ fun other member => plain other (List.mem_cons_of_mem name member)]
    simp

/-- A valid character is not the label separator. -/
theorem valid_not_label {ch : UInt8} (valid : validChar ch = true) : ch ≠ labelSeparator := by
  rintro rfl
  exact absurd valid (by decide)

/-- The scan passes over valid characters and stops with an error at the first
other one, unless this is a label separator at the end of a name. -/
theorem scanLabel_word (word tail : List UInt8) (passed : Nat)
    (inside : ∀ ch ∈ word, endOfName ch = false)
    (closing : word.getLast? ≠ some labelSeparator ∨ endOfName (charAt tail) = false) :
    scanLabel (word ++ tail) passed =
      if validName word then scanLabel tail (passed + word.length) else .invalid := by
  induction word generalizing passed with
  | nil => simp [validName]
  | cons ch rest ih =>
    have here := inside ch List.mem_cons_self
    have insideRest : ∀ other ∈ rest, endOfName other = false :=
      fun other member => inside other (List.mem_cons_of_mem ch member)
    rw [List.cons_append, scanLabel, if_neg (by simp [here])]
    cases valid : validChar ch with
    | true =>
      have closingRest : rest.getLast? ≠ some labelSeparator ∨
          endOfName (charAt tail) = false := by
        rcases closing with notLast | followed
        · cases rest with
          | nil => simp
          | cons second others =>
            rw [List.getLast?_cons_cons] at notLast
            exact .inl notLast
        · exact .inr followed
      have checked : validName (ch :: rest) = validName rest := by simp [validName, valid]
      rw [if_neg (valid_not_label valid), if_neg (by simp),
        ih (passed + 1) insideRest closingRest, checked, List.length_cons,
        Nat.add_assoc, Nat.add_comm 1]
    | false =>
      have refused : validName (ch :: rest) = false := by simp [validName, valid]
      rw [refused]
      by_cases separator : ch = labelSeparator
      · have followed : endOfName (charAt (rest ++ tail)) = false := by
          cases rest with
          | nil =>
            rcases closing with notLast | followed
            · exact absurd (by rw [separator]; rfl) notLast
            · exact followed
          | cons second others => exact insideRest second List.mem_cons_self
        rw [if_pos separator, if_pos (by simp [followed])]
        rfl
      · rw [if_neg separator]
        rfl

/-- The outcome of a call, given what lexical resolution says. -/
structure Resolved (result : Bool × Buffer) (label : List UInt8) (checked : List Segment)
    (folded : Option (List Segment)) : Prop where
  refused : result.1 = false ↔ checked.all validName = false ∨ folded = none
  spelled : result.1 = true → ∃ names, folded = some names ∧
    SpellsString result.2.bytes (label ++ labelSeparator :: rooted names.reverse false)

/-- A run over the buffer's stack that agrees with lexical resolution has the
lexical outcome. -/
theorem resolved_of_parsed (out : Buffer) (start : Entry) (result : Bool × Buffer)
    (components names : List Segment) (parsed : Parsed out start result)
    (agrees : (visited start.names).foldlM resolve start.stack =
      if components.all validName then (components.foldlM lexical names).map (· ++ [[]])
      else none) :
    Resolved result start.label components (components.foldlM lexical names) := by
  cases valid : components.all validName with
  | false =>
    rw [valid, if_neg (by simp)] at agrees
    have failed := parsed.failed agrees
    exact ⟨⟨fun _ => .inl valid, fun _ => failed⟩, by simp [failed]⟩
  | true =>
    rw [valid, if_pos rfl] at agrees
    cases folded : components.foldlM lexical names with
    | none =>
      rw [folded, Option.map_none] at agrees
      have failed := parsed.failed agrees
      exact ⟨by simp [failed], by simp [failed]⟩
    | some final =>
      rw [folded, Option.map_some] at agrees
      obtain ⟨segment, below, shape⟩ : ∃ segment below, final ++ [[]] = segment :: below :=
        List.exists_cons_of_ne_nil (by simp)
      rw [shape] at agrees
      obtain ⟨succeeded, spelling⟩ := parsed.spelled segment below agrees
      rw [text_result start.label final below segment shape] at spelling
      refine ⟨by simp [succeeded, valid], fun _ => ⟨final, rfl, spelling⟩⟩

/-- No character behind separators is a terminator. -/
theorem rooted_terminated {names : List Segment} {trailing : Bool}
    (words : ∀ name ∈ names, Word name) (ch : UInt8) (member : ch ∈ rooted names trailing) :
    ch ≠ 0 := by
  rw [rooted, List.mem_append] at member
  rcases member with inside | last
  · obtain ⟨name, here, place⟩ := List.mem_flatMap.mp inside
    rcases List.mem_cons.mp place with rfl | within
    · decide
    · rintro rfl
      exact absurd ((words name here).2 0 within) (by decide)
  · cases trailing with
    | false => simp at last
    | true =>
      obtain rfl : ch = nameSeparator := by simpa using last
      decide

/-- No character of a word is a terminator. -/
theorem word_terminated {name : Segment} (word : Word name) (ch : UInt8) (member : ch ∈ name) :
    ch ≠ 0 := by
  rintro rfl
  exact absurd (word.2 0 member) (by decide)

/-- A path that starts with a word does not start with a separator. -/
theorem charAt_word (name tail : List UInt8) (word : Word name) :
    charAt (name ++ tail) ≠ nameSeparator := by
  obtain ⟨first, others, rfl⟩ := List.exists_cons_of_ne_nil word.1
  intro separator
  have ends := word.2 first List.mem_cons_self
  rw [show first = nameSeparator from separator] at ends
  exact absurd ends (by decide)

/-- Names behind separators start with a separator, or there is nothing. -/
theorem charAt_rooted (names : List Segment) (trailing : Bool) :
    charAt (rooted names trailing) =
      if names ≠ [] ∨ trailing = true then nameSeparator else 0 := by
  cases names with
  | nil => cases trailing <;> rfl
  | cons name later => simp [rooted, charAt]

/-- A run from the label alone resolves the names from the empty stack. -/
theorem run_from_label {names : List Segment} {trailing : Bool} (words : ∀ name ∈ names, Word name)
    (short : (rooted names trailing).length < maxPath - 8) :
    (visited (rooted names trailing)).foldlM resolve [] =
      if names.all validName then (names.foldlM lexical []).map (· ++ [[]]) else none := by
  have opened : resolve [] [] = some [[]] := by decide
  have bounded := rooted_length names trailing
  have tight : used ([] ++ [[]]) + room names ≤ maxPath - 1 := by
    simp only [List.nil_append, used, List.length_nil]
    omega
  rw [visited_rooted names trailing words, List.foldlM_cons, opened]
  exact foldlM_lexical [] names tight

/-- Resolution of an absolute path. -/
theorem resolved_absolute (cwd : Cwd) (out : Buffer) (label : List UInt8) (names : List Segment)
    (trailing : Bool) (word : Word label) (words : ∀ name ∈ names, Word name)
    (short : (rooted names trailing).length < maxPath - 8) :
    Resolved (vfsParsePath cwd out (label ++ labelSeparator :: rooted names trailing)) label
      (label :: names) (names.foldlM lexical []) := by
  have notRoot := charAt_word label (labelSeparator :: rooted names trailing) word
  have scanned := scanLabel_word label (labelSeparator :: rooted names trailing) 0 word.2
    (.inr (show endOfName labelSeparator = false by decide))
  have ends : endOfName (charAt (rooted names trailing)) = true := by
    rw [charAt_rooted]
    split <;> decide
  have stopped : scanLabel (labelSeparator :: rooted names trailing) (0 + label.length) =
      .absolute label.length := by
    rw [scanLabel, if_neg (by decide), if_pos rfl, if_neg (by simp [ends]), Nat.zero_add]
  rw [stopped] at scanned
  cases valid : validName label with
  | false =>
    have refused : entry cwd (label ++ labelSeparator :: rooted names trailing) = none := by
      rw [entry, if_neg notRoot, scanned, valid]
      rfl
    rw [vfsParsePath_refused out _ refused]
    exact ⟨by simp [valid], by simp⟩
  | true =>
    have entered : entry cwd (label ++ labelSeparator :: rooted names trailing) =
        some ⟨label, [], label.length + 3, rooted names trailing⟩ := by
      rw [entry, if_neg notRoot, scanned, valid]
      simp
    have terminated : ∀ ch ∈ label ++ labelSeparator :: rooted names trailing, ch ≠ 0 := by
      intro ch member
      rcases List.mem_append.mp member with inside | behind
      · exact word_terminated word ch inside
      · rcases List.mem_cons.mp behind with rfl | later
        · decide
        · exact rooted_terminated words ch later
    have parsed := vfsParsePath_parsed out _ _ terminated entered
    have resolved := resolved_of_parsed out _ _ names [] parsed
      (run_from_label words short)
    refine ⟨?_, resolved.spelled⟩
    rw [List.all_cons, valid, Bool.true_and]
    exact resolved.refused

/-- Resolution of a path from the root of the working directory's volume. -/
theorem resolved_root (cwd : Cwd) (out : Buffer) (names : List Segment) (trailing : Bool)
    (present : names ≠ [] ∨ trailing = true) (words : ∀ name ∈ names, Word name)
    (short : (rooted names trailing).length < maxPath - 8) :
    Resolved (vfsParsePath cwd out (rooted names trailing)) cwd.label names
      (names.foldlM lexical []) := by
  have isRoot : charAt (rooted names trailing) = nameSeparator := by
    rw [charAt_rooted, if_pos present]
  have entered : entry cwd (rooted names trailing) =
      some ⟨cwd.label, [], cwd.label.length + 2, rooted names trailing⟩ := by
    rw [entry, if_pos isRoot]
  have parsed := vfsParsePath_parsed out _ _ (rooted_terminated words) entered
  exact resolved_of_parsed out _ _ names [] parsed (run_from_label words short)

/-- Resolution of a path relative to a canonical working directory. -/
theorem resolved_relative (cwd : Cwd) (cwdNames : List Segment) (canonical : Canonical cwd cwdNames)
    (out : Buffer) (first : Segment) (names : List Segment) (trailing : Bool) (word : Word first)
    (unlabelled : first.getLast? ≠ some labelSeparator) (words : ∀ name ∈ names, Word name)
    (short : cwd.text.length + (first ++ rooted names trailing).length < maxPath - 8) :
    Resolved (vfsParsePath cwd out (first ++ rooted names trailing)) cwd.label (first :: names)
      ((first :: names).foldlM lexical cwdNames.reverse) := by
  have notRoot := charAt_word first (rooted names trailing) word
  have scanned := scanLabel_word first (rooted names trailing) 0 word.2 (.inl unlabelled)
  have stopped : scanLabel (rooted names trailing) (0 + first.length) = .relative := by
    have head := charAt_rooted names trailing
    cases shape : rooted names trailing with
    | nil => rfl
    | cons ch rest =>
      rw [shape] at head
      have ends : endOfName ch = true := by
        rw [show ch = _ from head]
        split <;> decide
      rw [scanLabel, if_pos ends]
  rw [stopped] at scanned
  cases valid : validName first with
  | false =>
    have refused : entry cwd (first ++ rooted names trailing) = none := by
      rw [entry, if_neg notRoot, scanned, valid]
      rfl
    rw [vfsParsePath_refused out _ refused]
    exact ⟨by simp [valid], by simp⟩
  | true =>
    have entered : entry cwd (first ++ rooted names trailing) =
        some ⟨cwd.label, spread [] [] cwd.rest, cwd.text.length + 2,
          first ++ rooted names trailing⟩ := by
      rw [entry, if_neg notRoot, scanned, valid]
      rfl
    have terminated : ∀ ch ∈ first ++ rooted names trailing, ch ≠ 0 := by
      intro ch member
      rcases List.mem_append.mp member with inside | behind
      · exact word_terminated word ch inside
      · exact rooted_terminated words ch behind
    have parsed := vfsParsePath_parsed out _ _ terminated entered
    have segments : spread [] [] cwd.rest = cwdNames.reverse ++ [[]] := by
      rw [canonical.rest]
      exact spread_rooted_names [] [] cwdNames fun name member => (canonical.valid name member).1.2
    have visitedNames : visited (first ++ rooted names trailing) = first :: names := by
      rw [visited_append first _ [] names (word_plain first word)
        (visited_rooted names trailing words), List.append_nil]
    have tight : used (cwdNames.reverse ++ [[]]) + room (first :: names) ≤ maxPath - 1 := by
      have length := congrArg List.length (text_spread cwd.label [] [] cwd.rest)
      have bounded := rooted_length names trailing
      rw [text_length, segments] at length
      simp only [text, Cwd.text, List.length_append, List.length_cons, List.length_nil, room,
        List.map_cons, List.sum_cons] at length short bounded ⊢
      omega
    refine resolved_of_parsed out _ _ (first :: names) cwdNames.reverse parsed ?_
    rw [visitedNames, segments]
    exact foldlM_lexical cwdNames.reverse (first :: names) tight

/-- Some name has an invalid character. -/
theorem invalid_iff (checked : List Segment) :
    checked.all validName = false ↔ ∃ name ∈ checked, ∃ ch ∈ name, validChar ch = false := by
  simp [validName]

/-- Resolution of a path of any form. -/
theorem resolved_form {cwd : Cwd} {cwdNames : List Segment} (canonical : Canonical cwd cwdNames)
    (form : Form) (shaped : form.WellFormed)
    (short : cwd.text.length + form.path.length < maxPath - 8) (out : Buffer) :
    Resolved (vfsParsePath cwd out form.path) (form.label cwd) form.checked
      (form.components.foldlM lexical (form.start cwdNames)) := by
  cases form with
  | absolute label names trailing =>
    have length : (rooted names trailing).length < maxPath - 8 := by
      simp only [Form.path, List.length_append, List.length_cons] at short
      omega
    exact resolved_absolute cwd out label names trailing shaped.1 shaped.2 length
  | root names trailing =>
    have length : (rooted names trailing).length < maxPath - 8 := by
      simp only [Form.path] at short
      omega
    exact resolved_root cwd out names trailing shaped.1 shaped.2 length
  | relative first names trailing =>
    exact resolved_relative cwd cwdNames canonical out first names trailing shaped.1 shaped.2.1
      shaped.2.2 short

/-- `vfs_parse_path` computes lexical resolution. A path is refused exactly if a name has a character that
is not allowed or `..` leaves the root. Otherwise the buffer spells the label and the names that are left.

Proof: each form of a path is entered with the names that it starts from, and each turn of the loop does
to the names in the buffer what `lexical` does to the list. -/
theorem parse_path_lexical (cwd : Cwd) (cwdNames : List Segment) (canonical : Canonical cwd cwdNames)
    (form : Form) (shaped : form.WellFormed)
    (short : cwd.text.length + form.path.length < maxPath - 8) (out : Buffer) :
    ((vfsParsePath cwd out form.path).1 = false ↔
      (∃ name ∈ form.checked, ∃ ch ∈ name, validChar ch = false) ∨
        form.components.foldlM lexical (form.start cwdNames) = none) ∧
    ((vfsParsePath cwd out form.path).1 = true →
      ∃ names, form.components.foldlM lexical (form.start cwdNames) = some names ∧
        SpellsString (vfsParsePath cwd out form.path).2.bytes
          (form.label cwd ++ labelSeparator :: rooted names.reverse false)) := by
  have resolved := resolved_form canonical form shaped short out
  rw [← invalid_iff]
  exact ⟨resolved.refused, resolved.spelled⟩

/-- A name is a word when no character of it ends a name. -/
theorem word_of_all (name : Segment) (present : name ≠ [])
    (inside : name.all (fun ch => !endOfName ch) = true) : Word name := by
  refine ⟨present, fun ch member => ?_⟩
  simpa using List.all_eq_true.mp inside ch member

/-- `a` can be in a label. -/
theorem sampleLabel : ∀ ch ∈ [(97 : UInt8)], ch ≠ labelSeparator ∧ ch ≠ 0 := List.forall_mem_singleton.mpr (by decide)

/-- The directory `a:/b`. -/
def sampleCwd : Cwd where
  label := [97]
  rest := [47, 98]
  labelChars := sampleLabel
  restChars := List.forall_mem_cons.mpr ⟨by decide, List.forall_mem_singleton.mpr (by decide)⟩
  short := by decide

/-- The directory is in canonical form. -/
theorem sampleCwd_canonical : Canonical sampleCwd [[98]] :=
  ⟨by decide, by decide, List.forall_mem_singleton.mpr
    ⟨word_of_all [98] (by decide) (by decide), by decide, by decide, by decide⟩⟩

/-- The path `../c/./d/` has no empty name. -/
theorem samplePath_shaped : (Form.relative dotdot [[99], dot, [100]] true).WellFormed := by
  refine ⟨word_of_all dotdot (by decide) (by decide), by decide, List.forall_mem_cons.mpr
    ⟨?_, List.forall_mem_cons.mpr ⟨?_, List.forall_mem_singleton.mpr ?_⟩⟩⟩
  · exact word_of_all [99] (by decide) (by decide)
  · exact word_of_all dot (by decide) (by decide)
  · exact word_of_all [100] (by decide) (by decide)

/-- The path `../c/./d/` is accepted in `a:/b`. -/
theorem samplePath_accepted : (vfsParsePath sampleCwd ⟨fun _ => 0, 0⟩
    (Form.relative dotdot [[99], dot, [100]] true).path).1 = true := by
  decide +kernel

/-- Resolution of `../c/./d/` from `a:/b`. -/
theorem parse_path_lexical_sample :
    let form := Form.relative dotdot [[99], dot, [100]] true
    let out : Buffer := ⟨fun _ => 0, 0⟩
    (vfsParsePath sampleCwd out form.path).1 = true ∧
      SpellsString (vfsParsePath sampleCwd out form.path).2.bytes [97, 58, 47, 99, 47, 100] := by
  have resolution := parse_path_lexical sampleCwd [[98]] sampleCwd_canonical
    (Form.relative dotdot [[99], dot, [100]] true) samplePath_shaped (by decide) ⟨fun _ => 0, 0⟩
  obtain ⟨names, folded, spelling⟩ := resolution.2 samplePath_accepted
  obtain rfl : [[100], [99]] = names := by
    rw [← Option.some.injEq, ← folded]
    decide
  exact ⟨samplePath_accepted, spelling⟩

end Asym.PathResolution
