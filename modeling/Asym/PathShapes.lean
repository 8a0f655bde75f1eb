import Asym.PathBounds
import Asym.PathLookup

/-!
# What any path parses to

The parser accepts paths with empty names, and then leaves a string that is not
canonical. From a canonical working directory the string still has a fixed shape: a label
and names of valid characters, none of them `.` or `..`, some of them possibly empty. The
shape does not depend on what the buffer held before.

A string of this shape, given as a path, parses to itself, apart from a separator at its
end.
-/

namespace Asym.PathShapes

open PathParser PathStack PathRuns PathResolution PathBounds PathLookup

/-- A name that the parser can have copied. It may be empty. -/
structure Pushed (name : Segment) : Prop where
  plain : ∀ ch ∈ name, endOfName ch = false
  valid : validName name = true
  notDot : name ≠ dot
  notDotdot : name ≠ dotdot

/-- A label that the parser can have copied. -/
structure Labelled (label : List UInt8) : Prop where
  plain : ∀ ch ∈ label, endOfName ch = false
  valid : validName label = true

/-- No character of a label ends one. -/
theorem Labelled.goesOn {label : List UInt8} (labelled : Labelled label) :
    ∀ ch ∈ label, VolumeLifetimes.endOfLabel ch = false := by
  intro ch inside
  have notLabel := valid_not_label (List.all_eq_true.mp labelled.valid ch inside)
  have notEnd : ch ≠ 0 := by
    rintro rfl
    exact absurd (labelled.plain 0 inside) (by decide)
  simp [VolumeLifetimes.endOfLabel, notLabel, notEnd]

/-- A string that the parser can leave: a label, names, and room for the terminator after
one more separator. -/
structure Shaped (label : List UInt8) (names : List Segment) : Prop where
  labelled : Labelled label
  pushed : ∀ name ∈ names, Pushed name
  fits : label.length + used (names.reverse ++ [[]]) + 2 ≤ maxPath

/-- The string with a label and names. -/
def spell (label : List UInt8) (names : List Segment) : List UInt8 :=
  label ++ labelSeparator :: rooted names false

/-- A name that was copied whole has valid characters. -/
theorem copied_valid (distance : Nat) (name : Segment) (whole : copied distance name = name.length) :
    validName name = true := by
  induction name generalizing distance with
  | nil => rfl
  | cons ch rest ih =>
    rw [copied] at whole
    split_ifs at whole with stops
    have valid : validChar ch = true := by
      cases checked : validChar ch with
      | true => rfl
      | false => simp [checked] at stops
    have later := ih (distance + 1) (Nat.succ.inj whole)
    rw [validName, List.all_cons, valid, Bool.true_and]
    exact later

/-- The names of a path have no separators and terminators. -/
theorem visited_plain (path : List UInt8) (terminated : ∀ ch ∈ path, ch ≠ 0) :
    ∀ name ∈ visited path, ∀ ch ∈ name, endOfName ch = false := by
  induction path with
  | nil =>
    intro name member ch inside
    rw [visited, List.mem_singleton] at member
    rw [member] at inside
    exact absurd inside List.not_mem_nil
  | cons first rest ih =>
    have later := ih fun ch member => terminated ch (List.mem_cons_of_mem first member)
    have nonzero := terminated first List.mem_cons_self
    intro name member ch inside
    rw [visited] at member
    split_ifs at member with separator last
    · rw [List.mem_singleton] at member
      rw [member] at inside
      exact absurd inside List.not_mem_nil
    · rcases List.mem_cons.mp member with rfl | inRest
      · exact absurd inside List.not_mem_nil
      · exact later name inRest ch inside
    · have here : endOfName first = false := by simp [endOfName, separator, nonzero]
      cases following : visited rest with
      | nil =>
        simp only [following, List.mem_singleton] at member
        rw [member, List.mem_singleton] at inside
        rw [inside]
        exact here
      | cons second others =>
        simp only [following] at member
        rw [following] at later
        rcases List.mem_cons.mp member with rfl | inOthers
        · rcases List.mem_cons.mp inside with rfl | inSecond
          · exact here
          · exact later second List.mem_cons_self ch inSecond
        · exact later name (List.mem_cons_of_mem second inOthers) ch inside

/-- Resolving a name over the empty lowest segment leaves names over it. -/
theorem resolve_pushed (names next : List Segment) (name : Segment) (plain : ∀ ch ∈ name, endOfName ch = false)
    (pushed : ∀ other ∈ names, Pushed other) (resolved : resolve (names ++ [[]]) name = some next) :
    ∃ after, next = after ++ [[]] ∧ ∀ other ∈ after, Pushed other := by
  unfold resolve at resolved
  split_ifs at resolved with isDot isDotdot whole
  · exact ⟨names, (Option.some.inj resolved).symm, pushed⟩
  · cases names with
    | nil => cases resolved
    | cons top below =>
      refine ⟨below, ?_, fun other member => pushed other (List.mem_cons_of_mem top member)⟩
      cases below with
      | nil => exact (Option.some.inj resolved).symm
      | cons second others => exact (Option.some.inj resolved).symm
  · refine ⟨name :: names, (Option.some.inj resolved).symm, ?_⟩
    exact List.forall_mem_cons.mpr ⟨⟨plain, copied_valid _ name whole, isDot, isDotdot⟩, pushed⟩

/-- Resolving names over the empty lowest segment leaves names over it. -/
theorem fold_pushed (components names final : List Segment)
    (plain : ∀ name ∈ components, ∀ ch ∈ name, endOfName ch = false) (pushed : ∀ name ∈ names, Pushed name)
    (resolved : components.foldlM resolve (names ++ [[]]) = some final) :
    ∃ after, final = after ++ [[]] ∧ ∀ name ∈ after, Pushed name := by
  induction components generalizing names with
  | nil => exact ⟨names, (Option.some.inj resolved).symm, pushed⟩
  | cons name later ih =>
    rw [List.foldlM_cons, Option.bind_eq_bind, Option.bind_eq_some_iff] at resolved
    obtain ⟨next, first, rest⟩ := resolved
    obtain ⟨after, rfl, pushedAfter⟩ :=
      resolve_pushed names next name (plain name List.mem_cons_self) pushed first
    exact ih after (fun other member => plain other (List.mem_cons_of_mem name member))
      pushedAfter rest

/-- The room of a resolved stack was written, or it was there before. -/
theorem fold_room (labelLength : Nat) (components stack final : List Segment)
    (resolved : components.foldlM resolve stack = some final) :
    labelLength + used final + 2 ≤
      max (labelLength + used stack + 2) (reaches labelLength stack components) := by
  induction components generalizing stack with
  | nil =>
    obtain rfl : stack = final := Option.some.inj resolved
    exact Nat.le_max_left _ _
  | cons name later ih =>
    rw [List.foldlM_cons, Option.bind_eq_bind, Option.bind_eq_some_iff] at resolved
    obtain ⟨next, first, rest⟩ := resolved
    have further := ih next rest
    have here : labelLength + used next + 2 ≤
        max (labelLength + used stack + 2) (reach labelLength stack name) := by
      unfold resolve at first
      unfold reach
      split_ifs at first with isDot isDotdot whole
      · obtain rfl := Option.some.inj first
        exact Nat.le_max_left _ _
      · cases stack with
        | nil => cases first
        | cons top below =>
          cases below with
          | nil => cases first
          | cons second others =>
            obtain rfl := Option.some.inj first
            simp only [used]
            omega
      · obtain rfl := Option.some.inj first
        simp only [if_neg (not_or.mpr ⟨isDot, isDotdot⟩), whole, if_true, used]
        omega
    rw [reaches, first]
    simp only
    omega

/-- The label that the scan finds has valid characters and no separators. -/
theorem scanLabel_labelled (path : List UInt8) (passed labelLength : Nat)
    (scanned : scanLabel path passed = .absolute labelLength) :
    Labelled (path.take (labelLength - passed)) := by
  induction path generalizing passed with
  | nil => simp [scanLabel] at scanned
  | cons ch rest ih =>
    rw [scanLabel] at scanned
    split_ifs at scanned with ends separator closed invalid
    · obtain rfl := Scan.absolute.inj scanned
      rw [Nat.sub_self, List.take_zero]
      exact ⟨List.forall_mem_nil _, rfl⟩
    · have ordered := scanLabel_spec rest (passed + 1)
      rw [scanned] at ordered
      have distance : labelLength - passed = labelLength - (passed + 1) + 1 := by omega
      obtain ⟨plain, valid⟩ := ih (passed + 1) scanned
      have notEnds : endOfName ch = false := by simpa using ends
      have validCh : validChar ch = true := by simpa using invalid
      rw [distance, List.take_succ_cons]
      refine ⟨List.forall_mem_cons.mpr ⟨notEnds, plain⟩, ?_⟩
      rw [validName, List.all_cons, validCh, Bool.true_and]
      exact valid

/-- The text of a stack of names over the empty lowest segment. -/
theorem spell_length (label : List UInt8) (names : List Segment) :
    (spell label names).length = label.length + used (names.reverse ++ [[]]) := by
  have spelling := congrArg List.length (text_names label names.reverse)
  rw [text_length, List.reverse_reverse, List.length_append, List.length_singleton] at spelling
  exact (Nat.succ.inj spelling).symm

/-- Names without separators and terminators have no terminator behind separators
either. -/
theorem spell_terminated (label : List UInt8) (names : List Segment)
    (plainLabel : ∀ ch ∈ label, endOfName ch = false)
    (plain : ∀ name ∈ names, ∀ ch ∈ name, endOfName ch = false) : ∀ ch ∈ spell label names, ch ≠ 0 := by
  have ends : endOfName 0 = true := by decide
  intro ch member
  rcases List.mem_append.mp member with inLabel | behind
  · rintro rfl
    exact Bool.false_ne_true ((plainLabel 0 inLabel).symm.trans ends)
  · rcases List.mem_cons.mp behind with rfl | inNames
    · decide
    · rw [rooted, if_neg Bool.false_ne_true, List.append_nil] at inNames
      obtain ⟨name, here, place⟩ := List.mem_flatMap.mp inNames
      rcases List.mem_cons.mp place with rfl | inside
      · decide
      · rintro rfl
        exact Bool.false_ne_true ((plain name here 0 inside).symm.trans ends)

/-- A shaped string is shorter than the buffer and has no terminator. -/
theorem Shaped.string {label : List UInt8} {names : List Segment} (shaped : Shaped label names) :
    (∀ ch ∈ spell label names, ch ≠ 0) ∧ (spell label names).length + 2 ≤ maxPath := by
  refine ⟨spell_terminated label names shaped.labelled.plain (fun name member => (shaped.pushed name member).plain),
    ?_⟩
  rw [spell_length]
  exact shaped.fits

/-- What the parser leaves, when it accepts. -/
def parsedText (cwd : Cwd) (out : Buffer) (path : List UInt8) : Option (List UInt8) :=
  if (vfsParsePath cwd out path).1 = true then some (bufferString (vfsParsePath cwd out path).2.bytes) else none

/-- The result of a run over names on the empty lowest segment, if the writes fit. -/
theorem parsedText_of_parsed (cwd : Cwd) (path : List UInt8) (start : Entry) (components base : List Segment)
    (terminated : ∀ ch ∈ path, ch ≠ 0) (entered : entry cwd path = some start)
    (room : PathLeavesRoom cwd path) (labelled : Labelled start.label)
    (before : start.label.length + used start.stack + 2 ≤ start.first)
    (same : (visited start.names).foldlM resolve start.stack = components.foldlM resolve (base ++ [[]]))
    (plain : ∀ name ∈ components, ∀ ch ∈ name, endOfName ch = false) (pushed : ∀ name ∈ base, Pushed name) :
    (components.foldlM resolve (base ++ [[]]) = none ∧ ∀ out, parsedText cwd out path = none) ∨
      ∃ names, Shaped start.label names ∧ components.foldlM resolve (base ++ [[]]) = some (names.reverse ++ [[]]) ∧
        ∀ out, parsedText cwd out path = some (spell start.label names) := by
  have parsed := fun out => vfsParsePath_parsed out path start terminated entered
  cases resolved : components.foldlM resolve (base ++ [[]]) with
  | none =>
    refine .inl ⟨rfl, fun out => ?_⟩
    have refused := (parsed out).failed (same.trans resolved)
    rw [parsedText, refused, if_neg Bool.false_ne_true]
  | some final =>
    obtain ⟨after, rfl, pushedAfter⟩ := fold_pushed components base final plain pushed resolved
    have fits : start.label.length + used (after ++ [[]]) + 2 ≤ maxPath := by
      have written := fold_room start.label.length _ _ _ (same.trans resolved)
      have inside := (parse_path_inside_iff cwd (fun _ => 0) path terminated).mpr room
      rw [(parsed ⟨fun _ => 0, 0⟩).extent, Nat.zero_max] at inside
      omega
    have shaped : Shaped start.label after.reverse := by
      refine ⟨labelled, fun name member => pushedAfter name (List.mem_reverse.mp member), ?_⟩
      rw [List.reverse_reverse]
      exact fits
    refine .inr ⟨after.reverse, shaped, by rw [List.reverse_reverse], fun out => ?_⟩
    obtain ⟨segment, below, shape⟩ : ∃ segment below, after ++ [[]] = segment :: below :=
      List.exists_cons_of_ne_nil (List.append_ne_nil_of_right_ne_nil _ (List.cons_ne_nil _ _))
    obtain ⟨accepted, spelled⟩ := (parsed out).spelled segment below ((same.trans resolved).trans (congrArg some shape))
    rw [text_result start.label after below segment shape] at spelled
    obtain ⟨ended, short⟩ := shaped.string
    have read := bufferString_of_spells spelled ended (by rw [spell] at short; omega)
    rw [parsedText, accepted, if_pos rfl, read]
    rfl

/-- A working directory of the parser's shape. -/
structure Spelled (cwd : Cwd) (names : List Segment) : Prop where
  rest : cwd.rest = rooted names false
  labelled : Labelled cwd.label
  pushed : ∀ name ∈ names, Pushed name

/-- A working directory in canonical form, with a label that the parser accepts. -/
structure Standing (cwd : Cwd) (names : List Segment) : Prop where
  canonical : Canonical cwd names
  labelled : Labelled cwd.label

/-- A canonical directory has the parser's shape. -/
theorem Standing.spelled {cwd : Cwd} {names : List Segment} (standing : Standing cwd names) : Spelled cwd names := by
  refine ⟨standing.canonical.rest, standing.labelled, ?_⟩
  intro name member
  obtain ⟨word, valid, notDot, notDotdot⟩ := standing.canonical.valid name member
  exact ⟨word.2, valid, notDot, notDotdot⟩

/-- Where the resolution of a path begins: a label, the names it starts from, the last
one first, and the names of the path. -/
inductive Begins (cwd : Cwd) (cwdNames : List Segment) (path : List UInt8) :
    List UInt8 → List Segment → List Segment → Prop where
  | root (separator : charAt path = nameSeparator) :
      Begins cwd cwdNames path cwd.label [] (visitedNext path)
  | absolute (labelLength : Nat) (notRoot : charAt path ≠ nameSeparator)
      (scanned : scanLabel path 0 = .absolute labelLength) :
      Begins cwd cwdNames path (path.take labelLength) [] (visitedNext (path.drop (labelLength + 1)))
  | relative (notRoot : charAt path ≠ nameSeparator) (scanned : scanLabel path 0 = .relative) :
      Begins cwd cwdNames path cwd.label cwdNames.reverse (visited path)

/-- The resolution of a path begins somewhere, unless the parser refuses its first name. -/
theorem begins_or_refused (cwd : Cwd) (cwdNames : List Segment) (path : List UInt8) :
    (∀ out, parsedText cwd out path = none) ∨
      ∃ label base components, Begins cwd cwdNames path label base components := by
  by_cases separator : charAt path = nameSeparator
  · exact .inr ⟨_, _, _, .root separator⟩
  · cases scanned : scanLabel path 0 with
    | invalid =>
      have refused : entry cwd path = none := by rw [entry, if_neg separator, scanned]
      refine .inl fun out => ?_
      rw [parsedText, vfsParsePath_refused out path refused, if_neg Bool.false_ne_true]
    | absolute labelLength => exact .inr ⟨_, _, _, .absolute labelLength separator scanned⟩
    | relative => exact .inr ⟨_, _, _, .relative separator scanned⟩

/-- The first name behind a label is empty, and it is the lowest segment. -/
theorem fold_first (rest : List UInt8) (terminated : ∀ ch ∈ rest, ch ≠ 0)
    (ends : endOfName (charAt rest) = true) :
    (visited rest).foldlM resolve [] = (visitedNext rest).foldlM resolve ([] ++ [[]]) := by
  have opened : resolve [] [] = some [[]] := by decide
  rw [visited_eq terminated, component_ended rest ends, List.foldlM_cons, opened]
  rfl

/-- The names visited after the first have no separators and terminators. -/
theorem visitedNext_plain (path : List UInt8) (terminated : ∀ ch ∈ path, ch ≠ 0) :
    ∀ name ∈ visitedNext path, ∀ ch ∈ name, endOfName ch = false := by
  have all := visited_plain path terminated
  rw [visited_eq terminated] at all
  exact fun name member => all name (List.mem_cons_of_mem _ member)

/-- A path that leaves room parses to the names that its resolution leaves, or is refused
whatever the buffer holds. -/
theorem parsedText_begins {cwd : Cwd} {cwdNames : List Segment} (standing : Spelled cwd cwdNames)
    (path : List UInt8) (terminated : ∀ ch ∈ path, ch ≠ 0) (room : PathLeavesRoom cwd path)
    {label : List UInt8} {base components : List Segment}
    (begins : Begins cwd cwdNames path label base components) :
    (components.foldlM resolve (base ++ [[]]) = none ∧ ∀ out, parsedText cwd out path = none) ∨
      ∃ names, Shaped label names ∧ components.foldlM resolve (base ++ [[]]) = some (names.reverse ++ [[]]) ∧
        ∀ out, parsedText cwd out path = some (spell label names) := by
  cases begins with
  | root separator =>
    have entered : entry cwd path = some ⟨cwd.label, [], cwd.label.length + 2, path⟩ := by
      rw [entry, if_pos separator]
    have ends : endOfName (charAt path) = true := by simp [endOfName, separator]
    refine parsedText_of_parsed cwd path _ _ [] terminated entered room standing.labelled ?_
      (fold_first path terminated ends) (visitedNext_plain path terminated) (List.forall_mem_nil _)
    simp [used]
  | absolute labelLength notRoot scanned =>
    have entered : entry cwd path =
        some ⟨path.take labelLength, [], labelLength + 3, path.drop (labelLength + 1)⟩ := by
      rw [entry, if_neg notRoot, scanned]
    have labelled := scanLabel_labelled path 0 labelLength scanned
    have scan := scanLabel_spec path 0
    rw [scanned] at scan
    obtain ⟨_, inside, ends⟩ := scan
    rw [Nat.sub_zero] at inside ends
    have behind : ∀ ch ∈ path.drop (labelLength + 1), ch ≠ 0 :=
      fun ch member => terminated ch (List.mem_of_mem_drop member)
    refine parsedText_of_parsed cwd path _ _ [] terminated entered room labelled ?_
      (fold_first _ behind ends) (visitedNext_plain _ behind) (List.forall_mem_nil _)
    simp only [used, List.length_take]
    omega
  | relative notRoot scanned =>
    have entered : entry cwd path = some ⟨cwd.label, spread [] [] cwd.rest, cwd.text.length + 2, path⟩ := by
      rw [entry, if_neg notRoot, scanned]
    have segments : spread [] [] cwd.rest = cwdNames.reverse ++ [[]] := by
      rw [standing.rest]
      exact spread_rooted_names [] [] cwdNames fun name member => (standing.pushed name member).plain
    refine parsedText_of_parsed cwd path _ _ cwdNames.reverse terminated entered room standing.labelled ?_ ?_
      (visited_plain path terminated)
      fun name member => standing.pushed name (List.mem_reverse.mp member)
    · have length := congrArg List.length (text_spread cwd.label [] [] cwd.rest)
      rw [text_length] at length
      simp only [text, Cwd.text, List.length_append, List.length_cons, List.length_nil] at length ⊢
      omega
    · rw [segments]

/-- A path that leaves room parses to a string of the same shape, or is refused, whatever
the buffer holds. -/
theorem parsedText_shaped {cwd : Cwd} {cwdNames : List Segment} (standing : Spelled cwd cwdNames)
    (path : List UInt8) (terminated : ∀ ch ∈ path, ch ≠ 0) (room : PathLeavesRoom cwd path) :
    (∀ out, parsedText cwd out path = none) ∨
      ∃ label names, Shaped label names ∧ ∀ out, parsedText cwd out path = some (spell label names) := by
  rcases begins_or_refused cwd cwdNames path with refused | ⟨label, base, components, begins⟩
  · exact .inl refused
  · rcases parsedText_begins standing path terminated room begins with ⟨_, refused⟩ | ⟨names, shaped, _, left⟩
    · exact .inl refused
    · exact .inr ⟨label, names, shaped, left⟩

/-- Names other than `.` and `..` are pushed one after another. -/
theorem fold_lexical_pushed (names base : List Segment) (pushed : ∀ name ∈ names, Pushed name) :
    names.foldlM lexical base = some (names.reverse ++ base) := by
  induction names generalizing base with
  | nil => rfl
  | cons name later ih =>
    obtain ⟨_, _, notDot, notDotdot⟩ := pushed name List.mem_cons_self
    have first : lexical base name = some (name :: base) := by
      simp [lexical, notDot, notDotdot]
    rw [List.foldlM_cons, first, List.reverse_cons, List.append_assoc]
    exact ih (name :: base) fun other member => pushed other (List.mem_cons_of_mem name member)

/-- Room of names over the empty lowest segment. -/
theorem used_names (names : List Segment) : used (names ++ [[]]) = room names + 1 := by
  induction names with
  | nil => rfl
  | cons name below ih =>
    have shape : room (name :: below) = name.length + 1 + room below := by simp [room]
    rw [List.cons_append, used, ih, shape]
    omega

/-- The order of names does not change their room. -/
theorem room_reverse (names : List Segment) : room names.reverse = room names := by
  rw [room, room, List.map_reverse, List.sum_reverse]

/-- Names without an empty one at the end. -/
def settle : List Segment → List Segment
  | [] => []
  | name :: later => if name = [] ∧ later = [] then [] else name :: settle later

/-- Settled names are among the names. -/
theorem settle_subset (names : List Segment) : settle names ⊆ names := by
  induction names with
  | nil => exact List.Subset.refl _
  | cons name later ih =>
    rw [settle]
    split_ifs with last
    · exact List.nil_subset _
    · exact List.cons_subset_cons name ih

/-- Settled names take no more room. -/
theorem settle_room (names : List Segment) : room (settle names) ≤ room names := by
  induction names with
  | nil => exact Nat.le_refl _
  | cons name later ih =>
    have shape (others : List Segment) : room (name :: others) = name.length + 1 + room others := by simp [room]
    rw [settle]
    split_ifs with last
    · exact Nat.zero_le _
    · rw [shape, shape]
      omega

/-- The names visited behind separators: an empty one before the first separator, and
then the settled names. -/
theorem visited_settle (names : List Segment) (plain : ∀ name ∈ names, ∀ ch ∈ name, endOfName ch = false) :
    visited (rooted names false) = [] :: settle names := by
  induction names with
  | nil => rfl
  | cons name later ih =>
    have next := ih fun other member => plain other (List.mem_cons_of_mem name member)
    have separated := ends_plain (plain name List.mem_cons_self)
    have shape : rooted (name :: later) false = nameSeparator :: (name ++ rooted later false) := by
      simp [rooted]
    have empty_iff : name ++ rooted later false = [] ↔ name = [] ∧ later = [] := by
      rw [List.append_eq_nil_iff]
      cases later with
      | nil => simp [rooted]
      | cons second others => simp [rooted]
    rw [shape, visited, if_pos rfl, settle]
    by_cases last : name = [] ∧ later = []
    · rw [if_pos (empty_iff.mpr last), if_pos last]
    · rw [if_neg (mt empty_iff.mp last), if_neg last, visited_append name _ [] _ separated next,
        List.append_nil]

/-- A shaped string is a path that parses to itself in any working directory, apart from a
separator at its end. -/
theorem parsedText_spell {label : List UInt8} {names : List Segment} (shaped : Shaped label names) (cwd : Cwd)
    (out : Buffer) : parsedText cwd out (spell label names) = some (spell label (settle names)) := by
  have pushed : ∀ name ∈ settle names, Pushed name := fun name member => shaped.pushed name (settle_subset names member)
  have allValid : (settle names).all validName = true :=
    List.all_eq_true.mpr fun name member => (pushed name member).valid
  have ends : endOfName (charAt (rooted names false)) = true := by
    rw [charAt_rooted]
    split <;> decide
  have notRoot : charAt (spell label names) ≠ nameSeparator := by
    cases label with
    | nil =>
      rw [spell, List.nil_append]
      exact show labelSeparator ≠ nameSeparator by decide
    | cons ch rest => exact charAt_word _ _ ⟨List.cons_ne_nil _ _, shaped.labelled.plain⟩
  have closing : endOfName (charAt (labelSeparator :: rooted names false)) = false :=
    show endOfName labelSeparator = false by decide
  have scanned : scanLabel (spell label names) 0 = .absolute label.length := by
    rw [spell, scanLabel_word label _ 0 shaped.labelled.plain (.inr closing), if_pos shaped.labelled.valid, scanLabel,
      if_neg (by decide), if_pos rfl, if_neg (by simp [ends]), Nat.zero_add]
  have entered : entry cwd (spell label names) = some ⟨label, [], label.length + 3, rooted names false⟩ := by
    rw [entry, if_neg notRoot, scanned, spell]
    simp
  have fits := shaped.fits
  rw [used_names, room_reverse] at fits
  have smaller := settle_room names
  have tight : used ([] ++ [[]]) + room (settle names) ≤ maxPath - 1 := by
    have nothing : room [] = 0 := rfl
    rw [used_names, nothing]
    omega
  have opened : resolve [] [] = some [[]] := by decide
  have resolved : (visited (rooted names false)).foldlM resolve [] = some ((settle names).reverse ++ [[]]) := by
    rw [visited_settle names fun name member => (shaped.pushed name member).plain, List.foldlM_cons, opened]
    refine (foldlM_lexical [] (settle names) tight).trans ?_
    rw [if_pos allValid, fold_lexical_pushed (settle names) [] pushed, List.append_nil]
    rfl
  have settled : Shaped label (settle names) := by
    refine ⟨shaped.labelled, pushed, ?_⟩
    rw [used_names, room_reverse]
    omega
  have parsed := vfsParsePath_parsed out _ _ shaped.string.1 entered
  obtain ⟨segment, below, shape⟩ : ∃ segment below, (settle names).reverse ++ [[]] = segment :: below :=
    List.exists_cons_of_ne_nil (List.append_ne_nil_of_right_ne_nil _ (List.cons_ne_nil _ _))
  obtain ⟨accepted, spelled⟩ := parsed.spelled segment below (resolved.trans (congrArg some shape))
  rw [text_result label (settle names).reverse below segment shape, List.reverse_reverse] at spelled
  have short := settled.string.2
  have read := bufferString_of_spells spelled settled.string.1 (by rw [spell] at short; omega)
  rw [parsedText, accepted, if_pos rfl, read]
  rfl

end Asym.PathShapes
