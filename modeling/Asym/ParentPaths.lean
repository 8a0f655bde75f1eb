import Asym.PathShapes

/-!
# The path in front of the last separator

A model of `vfs_parent_dir`, which cuts a path at its last separator without parsing it,
and what the part in front resolves to. If it is not empty, it has the names of the whole
path but the last one, and a name more or less at its end where separators meet.
-/

namespace Asym.ParentPaths

open PathParser PathStack PathRuns PathResolution PathBounds PathShapes

/-- `strrchr`: the offset of the last occurrence of a character. -/
def strrchr : List UInt8 → UInt8 → Option Nat
  | [], _ => none
  | first :: rest, ch =>
      match strrchr rest ch with
      | some offset => some (offset + 1)
      | none => if first = ch then some 0 else none

/-- `vfs_parent_dir`: whether there is a separator, and the destination. -/
def vfsParentDir (dest : Buffer) (src : List UInt8) : Bool × Buffer :=
  match strrchr src nameSeparator with
  | none => (false, dest)
  | some length => (true, (dest.copy 0 (src.take length)).write length 0)

/-- A character that does not occur is not found. -/
theorem strrchr_none {text : List UInt8} {ch : UInt8} : strrchr text ch = none ↔ ch ∉ text := by
  induction text with
  | nil => simp [strrchr]
  | cons first rest ih =>
    rw [strrchr]
    cases found : strrchr rest ch with
    | some offset =>
      rw [found] at ih
      have inRest : ch ∈ rest := by
        by_contra absent
        cases ih.mpr absent
      simp [inRest]
    | none =>
      have notIn := ih.mp found
      by_cases here : first = ch
      · simp [here]
      · have other : ¬ ch = first := fun same => here same.symm
        simp [here, other, notIn]

/-- The last occurrence of a character splits the text. -/
theorem strrchr_split {text : List UInt8} {ch : UInt8} {length : Nat} (found : strrchr text ch = some length) :
    ∃ front back, text = front ++ ch :: back ∧ ch ∉ back ∧ front.length = length := by
  induction text generalizing length with
  | nil => cases found
  | cons first rest ih =>
    rw [strrchr] at found
    cases later : strrchr rest ch with
    | some offset =>
      rw [later] at found
      obtain rfl := Option.some.inj found
      obtain ⟨front, back, shape, absent, size⟩ := ih later
      exact ⟨first :: front, back, by rw [shape, List.cons_append], absent, by rw [List.length_cons, size]⟩
    | none =>
      rw [later] at found
      obtain ⟨rfl, same⟩ := Option.ite_none_right_eq_some.mp found
      exact ⟨[], rest, rfl, strrchr_none.mp later, Option.some.inj same⟩

/-- A separator without another one behind it is the last one. -/
theorem strrchr_last {front back : List UInt8} {ch : UInt8} (absent : ch ∉ back) :
    strrchr (front ++ ch :: back) ch = some front.length := by
  induction front with
  | nil => simp [strrchr, strrchr_none.mpr absent]
  | cons first rest ih =>
    rw [List.cons_append, strrchr, ih]
    rfl

/-- The pieces of a path between separators. -/
def pieces : List UInt8 → List Segment
  | [] => [[]]
  | ch :: rest =>
      if ch = nameSeparator then [] :: pieces rest
      else
        match pieces rest with
        | [] => [[ch]]
        | first :: others => (ch :: first) :: others

/-- A path has a first piece. -/
theorem pieces_ne_nil (path : List UInt8) : pieces path ≠ [] := by
  cases path with
  | nil => exact List.cons_ne_nil _ _
  | cons ch rest =>
    rw [pieces]
    split_ifs
    · exact List.cons_ne_nil _ _
    · split <;> exact List.cons_ne_nil _ _

/-- A path has a first name. -/
theorem visited_ne_nil (path : List UInt8) : visited path ≠ [] := by
  cases path with
  | nil => exact List.cons_ne_nil _ _
  | cons ch rest =>
    rw [visited]
    split_ifs
    · exact List.cons_ne_nil _ _
    · exact List.cons_ne_nil _ _
    · split <;> exact List.cons_ne_nil _ _

/-- The names visited are the pieces, without an empty one behind a separator at the
end. -/
theorem pieces_visited (path : List UInt8) : pieces path = visited path ∨ pieces path = visited path ++ [[]] := by
  induction path with
  | nil => exact .inl rfl
  | cons ch rest ih =>
    rw [pieces, visited]
    by_cases separator : ch = nameSeparator
    · rw [if_pos separator, if_pos separator]
      by_cases last : rest = []
      · rw [if_pos last, last]
        exact .inr rfl
      · rw [if_neg last]
        rcases ih with same | longer
        · exact .inl (by rw [same])
        · exact .inr (by rw [longer, List.cons_append])
    · rw [if_neg separator, if_neg separator]
      cases following : visited rest with
      | nil => exact absurd following (visited_ne_nil rest)
      | cons first others =>
        rw [following] at ih
        rcases ih with same | longer
        · rw [same]
          exact .inl rfl
        · rw [longer]
          exact .inr rfl

/-- The last name of a path, if it is not empty. -/
def lastName (name : Segment) : List Segment := if name = [] then [] else [name]

/-- The names of a path are the pieces in front of the last separator and the last name,
if it is not empty. -/
theorem visited_split (dir name : List UInt8) (absent : nameSeparator ∉ name) :
    visited (dir ++ nameSeparator :: name) = pieces dir ++ lastName name := by
  induction dir with
  | nil =>
    rw [List.nil_append, visited, if_pos rfl, lastName]
    by_cases empty : name = []
    · rw [if_pos empty, if_pos empty]
      rfl
    · have alone := visited_append name [] [] [] absent rfl
      rw [List.append_nil] at alone
      rw [if_neg empty, if_neg empty, alone]
      rfl
  | cons ch rest ih =>
    have longer : rest ++ nameSeparator :: name ≠ [] := List.append_ne_nil_of_right_ne_nil _ (List.cons_ne_nil _ _)
    rw [List.cons_append, visited, pieces, if_neg longer, ih]
    by_cases separator : ch = nameSeparator
    · rw [if_pos separator, if_pos separator, List.cons_append]
    · rw [if_neg separator, if_neg separator]
      cases following : pieces rest with
      | nil => exact absurd following (pieces_ne_nil rest)
      | cons first others => rfl

/-- The scan of the first name does not look behind the first separator. -/
theorem scanLabel_split (dir name : List UInt8) (passed : Nat) :
    scanLabel (dir ++ nameSeparator :: name) passed = scanLabel dir passed := by
  induction dir generalizing passed with
  | nil =>
    have ends : endOfName nameSeparator = true := by decide
    simp [scanLabel, ends]
  | cons ch rest ih =>
    have next : endOfName (charAt (rest ++ nameSeparator :: name)) = endOfName (charAt rest) := by
      cases rest with
      | nil => exact show endOfName nameSeparator = endOfName 0 by decide
      | cons second others => rfl
    rw [List.cons_append, scanLabel, scanLabel, next, ih]

/-- The names behind the first one, of a path that is split at its last separator. -/
theorem visitedNext_split {dir name : List UInt8} (absent : nameSeparator ∉ name)
    (terminated : ∀ ch ∈ dir ++ nameSeparator :: name, ch ≠ 0) :
    ∃ front, visitedNext (dir ++ nameSeparator :: name) = front ++ lastName name ∧
      (front = visitedNext dir ∨ front = visitedNext dir ++ [[]]) := by
  have inDir : ∀ ch ∈ dir, ch ≠ 0 := fun ch member => terminated ch (List.mem_append_left _ member)
  have whole := visited_split dir name absent
  have first := visited_eq inDir
  rw [visited_eq terminated] at whole
  rcases pieces_visited dir with same | longer
  · rw [same, first, List.cons_append] at whole
    exact ⟨_, (List.cons.inj whole).2, .inl rfl⟩
  · rw [longer, first, List.cons_append, List.cons_append] at whole
    exact ⟨_, (List.cons.inj whole).2, .inr rfl⟩

/-- The part in front of the last separator begins where the whole path begins. -/
theorem begins_split {cwd : Cwd} {cwdNames : List Segment} {dir name label : List UInt8}
    {base components : List Segment} (absent : nameSeparator ∉ name)
    (terminated : ∀ ch ∈ dir ++ nameSeparator :: name, ch ≠ 0) (present : dir ≠ [])
    (begins : Begins cwd cwdNames (dir ++ nameSeparator :: name) label base components) :
    ∃ front further, components = front ++ lastName name ∧ Begins cwd cwdNames dir label base further ∧
      (front = further ∨ front = further ++ [[]]) := by
  have head : charAt (dir ++ nameSeparator :: name) = charAt dir := by
    cases dir with
    | nil => exact absurd rfl present
    | cons ch rest => rfl
  cases begins with
  | root separator =>
    obtain ⟨front, shape, further⟩ := visitedNext_split absent terminated
    exact ⟨front, _, shape, .root (head ▸ separator), further⟩
  | absolute labelLength notRoot scanned =>
    rw [scanLabel_split] at scanned
    have scan := scanLabel_spec dir 0
    rw [scanned] at scan
    obtain ⟨_, inside, _⟩ := scan
    rw [Nat.sub_zero] at inside
    have cut : (dir ++ nameSeparator :: name).drop (labelLength + 1) =
        dir.drop (labelLength + 1) ++ nameSeparator :: name := List.drop_append_of_le_length inside
    have taken : (dir ++ nameSeparator :: name).take labelLength = dir.take labelLength :=
      List.take_append_of_le_length (Nat.le_of_lt inside)
    have behind : ∀ ch ∈ dir.drop (labelLength + 1) ++ nameSeparator :: name, ch ≠ 0 := by
      rw [← cut]
      exact fun ch member => terminated ch (List.mem_of_mem_drop member)
    obtain ⟨front, shape, further⟩ := visitedNext_split absent behind
    rw [cut, taken]
    exact ⟨front, _, shape, .absolute labelLength (head ▸ notRoot) scanned, further⟩
  | relative notRoot scanned =>
    rw [scanLabel_split] at scanned
    refine ⟨pieces dir, _, visited_split dir name absent, .relative (head ▸ notRoot) scanned, pieces_visited dir⟩

/-- The part in front of the last separator leaves room if the path does. -/
theorem room_split {cwd : Cwd} {dir name : List UInt8} (absent : nameSeparator ∉ name) (present : dir ≠ [])
    (room : PathLeavesRoom cwd (dir ++ nameSeparator :: name)) : PathLeavesRoom cwd dir := by
  have head : charAt (dir ++ nameSeparator :: name) = charAt dir := by
    cases dir with
    | nil => exact absurd rfl present
    | cons ch rest => rfl
  have prefixed (front : List UInt8) : visited front <+: visited (front ++ nameSeparator :: name) := by
    rw [visited_split front name absent]
    rcases pieces_visited front with same | longer
    · exact ⟨lastName name, by rw [same]⟩
    · exact ⟨[[]] ++ lastName name, by rw [longer, List.append_assoc]⟩
  intro start entered
  -- The entry of the whole path differs in its names only.
  have extended : ∃ names, entry cwd (dir ++ nameSeparator :: name) = some { start with names := names } ∧
      visited start.names <+: visited names := by
    rw [entry] at entered ⊢
    rw [head, scanLabel_split]
    split_ifs at entered ⊢ with separator
    · obtain rfl := Option.some.inj entered
      exact ⟨_, rfl, prefixed dir⟩
    · cases scanned : scanLabel dir 0 with
      | invalid => simp [scanned] at entered
      | absolute labelLength =>
        have scan := scanLabel_spec dir 0
        rw [scanned] at entered scan
        obtain ⟨_, inside, _⟩ := scan
        rw [Nat.sub_zero] at inside
        obtain rfl := Option.some.inj entered
        have cut : (dir ++ nameSeparator :: name).drop (labelLength + 1) =
            dir.drop (labelLength + 1) ++ nameSeparator :: name := List.drop_append_of_le_length inside
        have taken : (dir ++ nameSeparator :: name).take labelLength = dir.take labelLength :=
          List.take_append_of_le_length (Nat.le_of_lt inside)
        simp only [cut, taken]
        exact ⟨_, rfl, prefixed _⟩
      | relative =>
        rw [scanned] at entered
        obtain rfl := Option.some.inj entered
        exact ⟨_, rfl, prefixed dir⟩
  obtain ⟨names, whole, ⟨more, longer⟩⟩ := extended
  obtain ⟨first, each⟩ := room _ whole
  refine ⟨first, fun front visitedName back stack shape folded => ?_⟩
  refine each front visitedName (back ++ more) stack ?_ folded
  rw [← longer, shape, List.append_assoc, List.cons_append]

/-- Names resolved from a stack with more names below leave the same names above them, if
both resolutions succeed. -/
theorem fold_below (components above below first second : List Segment)
    (alone : components.foldlM resolve (above ++ [[]]) = some (first ++ [[]]))
    (atop : components.foldlM resolve (above ++ below ++ [[]]) = some (second ++ [[]])) :
    second = first ++ below := by
  induction components generalizing above with
  | nil =>
    have same := List.append_cancel_right (Option.some.inj alone)
    have other := List.append_cancel_right (Option.some.inj atop)
    rw [← same, ← other]
  | cons name later ih =>
    rw [List.foldlM_cons, Option.bind_eq_bind, Option.bind_eq_some_iff] at alone atop
    obtain ⟨next, firstStep, rest⟩ := alone
    obtain ⟨nextAtop, atopStep, restAtop⟩ := atop
    unfold resolve at firstStep atopStep
    split_ifs at firstStep atopStep with isDot isDotdot whole wholeAtop
    · obtain rfl := Option.some.inj firstStep
      obtain rfl := Option.some.inj atopStep
      exact ih above rest restAtop
    · cases above with
      | nil => cases firstStep
      | cons top under =>
        have here : next = under ++ [[]] := by
          cases under with
          | nil => exact (Option.some.inj firstStep).symm
          | cons second others => exact (Option.some.inj firstStep).symm
        have there : nextAtop = under ++ below ++ [[]] := by
          rw [List.cons_append, List.cons_append] at atopStep
          cases shape : under ++ below ++ [[]] with
          | nil => exact absurd shape (List.append_ne_nil_of_right_ne_nil _ (List.cons_ne_nil _ _))
          | cons second others =>
            rw [shape] at atopStep
            exact (Option.some.inj atopStep).symm
        rw [here] at rest
        rw [there] at restAtop
        exact ih under rest restAtop
    · obtain rfl := Option.some.inj firstStep
      obtain rfl := Option.some.inj atopStep
      exact ih (name :: above) rest restAtop

end Asym.ParentPaths
