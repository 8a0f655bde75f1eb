import Asym.PathStack

/-!
# Runs of the path parser

The names that `vfs_make_canonical` visits are resolved one after another on the
stack, so a run of the loop is a fold, and it stops at the first name that is
refused. The three forms of a path only differ in the label, the stack and the
rest of the path that the loop starts from.
-/

namespace Asym.PathRuns

open PathParser PathStack

/-- The names of a path in the order in which they are visited. A separator at
the end opens no further name. -/
def visited : List UInt8 → List Segment
  | [] => [[]]
  | ch :: rest =>
      if ch = nameSeparator then
        if rest = [] then [[]] else [] :: visited rest
      else
        match visited rest with
        | [] => [[ch]]
        | first :: others => (ch :: first) :: others

/-- The names visited after the one at the start of a rest of a path. -/
def visitedNext (name : List UInt8) : List Segment :=
  match nameNext name with
  | none => []
  | some [] => []
  | some next => visited next

/-- A rest of a path begins with its first name, and the loop goes on after the
separator. -/
theorem visited_eq {name : List UInt8} (terminated : ∀ ch ∈ name, ch ≠ 0) :
    visited name = component name :: visitedNext name := by
  induction name with
  | nil => simp [visited, visitedNext, nameNext, component]
  | cons ch rest ih =>
    have nonzero : ch ≠ 0 := terminated ch List.mem_cons_self
    have later := ih fun other member =>
      terminated other (List.mem_cons_of_mem ch member)
    by_cases separator : ch = nameSeparator
    · have ends : endOfName ch = true := by simp [endOfName, separator]
      have next : nameNext (ch :: rest) = some rest := by simp [nameNext, separator]
      have first : component (ch :: rest) = [] := by simp [component, ends]
      rw [visited, if_pos separator, first, visitedNext, next]
      cases rest with
      | nil => rfl
      | cons _ _ => rfl
    · have inside : endOfName ch = false := by simp [endOfName, separator, nonzero]
      have next : visitedNext (ch :: rest) = visitedNext rest := by
        simp [visitedNext, nameNext, separator]
      have first : component (ch :: rest) = ch :: component rest := by simp [component, inside]
      rw [visited, if_neg separator, later, first, next]

/-- A rest of a path after a separator is shorter. -/
theorem nameNext_shorter {name next : List UInt8} (found : nameNext name = some next) :
    next.length < name.length := by
  have shorter : (name.dropWhile (· ≠ nameSeparator)).length ≤ name.length :=
    (List.dropWhile_sublist _).length_le
  unfold nameNext at found
  split at found
  · contradiction
  · rename_i dropped
    rw [dropped, List.length_cons] at shorter
    rw [Option.some.injEq] at found
    subst found
    omega

/-- The characters after a separator are characters of the path. -/
theorem nameNext_subset {name next : List UInt8} (found : nameNext name = some next) (ch : UInt8)
    (member : ch ∈ next) : ch ∈ name := by
  have dropped := List.dropWhile_subset (· ≠ nameSeparator) (l := name)
  unfold nameNext at found
  split at found
  · contradiction
  · rename_i first rest split
    rw [Option.some.injEq] at found
    subst found
    apply dropped
    rw [split]
    exact List.mem_cons_of_mem first member

/-- Resolving a name leaves a segment on the stack. -/
theorem resolve_rooted (stack next : List Segment) (name : Segment) (rooted : stack ≠ [] ∨ name = [])
    (resolved : resolve stack name = some next) : next ≠ [] := by
  unfold resolve at resolved
  split_ifs at resolved with isDot isDotdot whole
  · rw [Option.some.injEq] at resolved
    subst resolved
    rcases rooted with segments | empty
    · exact segments
    · rw [empty] at isDot
      exact absurd isDot (by decide)
  · split at resolved
    · rw [Option.some.injEq] at resolved
      subst resolved
      exact List.cons_ne_nil _ _
    · contradiction
  · rw [Option.some.injEq] at resolved
    subst resolved
    exact List.cons_ne_nil _ _

/-- One past the highest offset written for names visited one after another. -/
def reaches (labelLength : Nat) : List Segment → List Segment → Nat
  | _, [] => 0
  | stack, name :: later =>
      max (reach labelLength stack name)
        (match resolve stack name with
          | none => 0
          | some next => reaches labelLength next later)

/-- What a run of the loop did, in terms of the stack. -/
structure Ran (buffer : Buffer) (label : List UInt8) (stack names : List Segment)
    (result : Bool × Buffer) : Prop where
  spelled : ∀ segment below, names.foldlM resolve stack = some (segment :: below) →
    result.1 = true ∧ SpellsString result.2.bytes (text label below ++ segment)
  failed : names.foldlM resolve stack = none → result.1 = false
  extent : result.2.extent = max buffer.extent (reaches label.length stack names)

/-- Dropping the separator at the end leaves a terminated string. -/
theorem dropSeparator_spells {buffer : Buffer} {label : List UInt8} {segment : Segment}
    {below : List Segment} {out : Nat}
    (represented : Represents buffer label (segment :: below) out) :
    SpellsString (dropSeparator out buffer).bytes (text label below ++ segment) := by
  have top := spelled_top buffer.bytes label _ represented.spelled
  rw [if_neg (List.cons_ne_nil _ _), ← represented.place] at top
  have length : (text label below ++ segment).length = out := by
    rw [List.length_append, text_length, represented.place, used]
    omega
  rw [dropSeparator, if_pos top]
  constructor
  · apply spells_write
    · exact spells_left _ _ _ represented.spelled
    · rw [length]
  · rw [length]
    simp [Buffer.write]

/-- Dropping the separator at the end writes no new offset. -/
theorem dropSeparator_extent (buffer : Buffer) (out : Nat) (written : out < buffer.extent) :
    (dropSeparator out buffer).extent = buffer.extent := by
  rw [dropSeparator]
  split
  · simp only [Buffer.write]
    omega
  · rfl

/-- The end of a run after its last name. -/
theorem ran_last {buffer edited : Buffer} {label : List UInt8} {stack next : List Segment}
    {name : Segment} {moved : Nat} (resolved : resolve stack name = some next)
    (represented : Represents edited label next moved)
    (extent : edited.extent = max buffer.extent (reach label.length stack name)) :
    Ran buffer label stack [name] (true, dropSeparator moved edited) where
  spelled segment below folded := by
    obtain rfl : next = segment :: below := by simpa [resolved] using folded
    exact ⟨rfl, dropSeparator_spells represented⟩
  failed refused := by simp [resolved] at refused
  extent := by
    rw [dropSeparator_extent edited moved represented.written, extent]
    simp [reaches, resolved]

/-- A run goes on with the names after the first. -/
theorem ran_cons {buffer edited : Buffer} {label : List UInt8} {stack next : List Segment}
    {name : Segment} {later : List Segment} {result : Bool × Buffer}
    (resolved : resolve stack name = some next)
    (extent : edited.extent = max buffer.extent (reach label.length stack name))
    (ran : Ran edited label next later result) :
    Ran buffer label stack (name :: later) result where
  spelled segment below folded := by
    rw [List.foldlM_cons, resolved] at folded
    exact ran.spelled segment below folded
  failed refused := by
    rw [List.foldlM_cons, resolved] at refused
    exact ran.failed refused
  extent := by
    rw [ran.extent, extent, reaches, resolved, Nat.max_assoc]

/-- A run ends at the first name that is refused. -/
theorem ran_refused {buffer edited : Buffer} {label : List UInt8} {stack : List Segment}
    {name : Segment} (later : List Segment) (refused : resolve stack name = none)
    (extent : edited.extent = max buffer.extent (reach label.length stack name)) :
    Ran buffer label stack (name :: later) (false, edited) where
  spelled segment below folded := by
    rw [List.foldlM_cons, refused] at folded
    contradiction
  failed _ := rfl
  extent := by
    rw [extent, reaches, refused, Nat.max_zero]

/-- A run of `vfs_make_canonical` resolves the names of the path in order. -/
theorem makeCanonical_ran (fuel : Nat) (buffer : Buffer) (label : List UInt8)
    (stack : List Segment) (out : Nat) (name : List UInt8) (enough : name.length < fuel)
    (terminated : ∀ ch ∈ name, ch ≠ 0) (represented : Represents buffer label stack out)
    (rooted : stack ≠ [] ∨ component name = []) :
    Ran buffer label stack (visited name) (makeCanonical label.length fuel out buffer name) := by
  induction fuel generalizing buffer stack out name with
  | zero => omega
  | succ fuel ih =>
    have turned := canonicalName_turned represented rooted
    rw [visited_eq terminated, visitedNext, makeCanonical]
    generalize canonicalName label.length out buffer name = result at turned
    obtain ⟨moved, edited⟩ := result
    cases resolved : resolve stack (component name) with
    | none =>
      obtain rfl : moved = none := turned.failed resolved
      exact ran_refused _ resolved turned.extent
    | some next =>
      obtain ⟨place, rfl, nextRepresented⟩ := turned.kept next resolved
      cases following : nameNext name with
      | none =>
        exact ran_last resolved nextRepresented turned.extent
      | some further =>
        cases further with
        | nil =>
          exact ran_last resolved nextRepresented turned.extent
        | cons ch rest =>
          have shorter := nameNext_shorter following
          have ran := ih edited next place (ch :: rest) (by omega)
            (fun other member => terminated other
              (nameNext_subset following other member))
            nextRepresented (.inl (resolve_rooted stack next _ rooted resolved))
          exact ran_cons resolved turned.extent ran

/-- The segments of a string: characters join the top segment, and a separator
opens the next. -/
def spread (below : List Segment) (current : Segment) : List UInt8 → List Segment
  | [] => current :: below
  | ch :: rest =>
      if ch = nameSeparator then spread (current :: below) [] rest
      else spread below (current ++ [ch]) rest

/-- The segments of a string spell it. -/
theorem text_spread (label : List UInt8) (below : List Segment) (current : Segment)
    (rest : List UInt8) :
    text label (spread below current rest) =
      text label below ++ current ++ rest ++ [nameSeparator] := by
  induction rest generalizing below current with
  | nil => simp [spread, text]
  | cons ch rest ih =>
    rw [spread]
    split
    · rename_i separator
      rw [ih, separator]
      simp [text]
    · rw [ih]
      simp

/-- No segment of a string has a separator. -/
theorem spread_plain (below : List Segment) (current : Segment) (rest : List UInt8)
    (plainBelow : ∀ segment ∈ below, nameSeparator ∉ segment)
    (plain : nameSeparator ∉ current) (segment : Segment)
    (member : segment ∈ spread below current rest) : nameSeparator ∉ segment := by
  induction rest generalizing below current with
  | nil =>
    rcases List.mem_cons.mp member with rfl | older
    · exact plain
    · exact plainBelow segment older
  | cons ch rest ih =>
    rw [spread] at member
    split at member
    · refine ih (current :: below) [] ?_ (by simp) member
      intro other inside
      rcases List.mem_cons.mp inside with rfl | older
      · exact plain
      · exact plainBelow other older
    · rename_i different
      refine ih below (current ++ [ch]) plainBelow ?_ member
      simp only [List.mem_append, List.mem_singleton, not_or]
      exact ⟨plain, fun same => different same.symm⟩

/-- The segments of a string are not empty as a stack. -/
theorem spread_rooted (below : List Segment) (current : Segment) (rest : List UInt8) :
    spread below current rest ≠ [] := by
  induction rest generalizing below current with
  | nil => simp [spread]
  | cons ch rest ih =>
    rw [spread]
    split <;> exact ih _ _

/-- What the loop starts from: the label, the stack, one past the highest offset
written before it, and the rest of the path. -/
structure Entry where
  label : List UInt8
  stack : List Segment
  first : Nat
  names : List UInt8

/-- The entry for a path, unless its first name is refused. -/
def entry (cwd : Cwd) (path : List UInt8) : Option Entry :=
  if charAt path = nameSeparator then some ⟨cwd.label, [], cwd.label.length + 2, path⟩
  else match scanLabel path 0 with
    | .invalid => none
    | .absolute labelLength =>
        some ⟨path.take labelLength, [], labelLength + 3, path.drop (labelLength + 1)⟩
    | .relative => some ⟨cwd.label, spread [] [] cwd.rest, cwd.text.length + 2, path⟩

/-- A label separator found by the scan lies in the path, at the end of its first
name. -/
theorem scanLabel_spec (path : List UInt8) (passed : Nat) :
    match scanLabel path passed with
    | .invalid => True
    | .relative => True
    | .absolute labelLength =>
        passed ≤ labelLength ∧ labelLength - passed < path.length ∧
          endOfName (charAt (path.drop (labelLength - passed + 1))) = true := by
  induction path generalizing passed with
  | nil => simp [scanLabel]
  | cons ch rest ih =>
    rw [scanLabel]
    split_ifs with ends separator closed invalid
    · trivial
    · trivial
    · simpa using closed
    · trivial
    · have later := ih (passed + 1)
      cases scanned : scanLabel rest (passed + 1) with
      | invalid => trivial
      | relative => trivial
      | absolute labelLength =>
        rw [scanned] at later
        obtain ⟨ordered, inside, last⟩ := later
        have distance : labelLength - passed = labelLength - (passed + 1) + 1 := by omega
        refine ⟨by omega, ?_, ?_⟩
        · rw [List.length_cons]
          omega
        · rw [distance, List.drop_succ_cons]
          exact last

/-- A rest of a path that starts with the end of a name has an empty first name. -/
theorem component_ended (name : List UInt8) (ends : endOfName (charAt name) = true) :
    component name = [] := by
  cases name with
  | nil => rfl
  | cons ch rest =>
    have here : endOfName ch = true := ends
    simp [component, here]

/-- Any buffer spells the empty word. -/
theorem spells_nil (bytes : Nat → UInt8) : Spells bytes [] := by
  intro offset ch here
  simp at here

/-- A label copied to the start of the buffer and its separator, with anything
written after them, represent the empty stack. -/
theorem represents_label (out : Buffer) (label : List UInt8) :
    Represents ((out.copy 0 label).write label.length labelSeparator) label [] label.length where
  place := by simp [used]
  spelled := by
    have copiedLabel := spells_copy out [] label (spells_nil _)
    exact spells_extend _ _ labelSeparator copiedLabel
  written := by
    simp only [Buffer.write]
    omega
  plain segment member := by simp at member

/-- Writing after the pointer leaves a stack represented. -/
theorem represents_write (buffer : Buffer) (label : List UInt8) (stack : List Segment)
    (out offset : Nat) (ch : UInt8) (represented : Represents buffer label stack out)
    (after : out < offset) : Represents (buffer.write offset ch) label stack out where
  place := represented.place
  spelled := by
    apply spells_write _ _ _ _ represented.spelled
    rw [text_length, ← represented.place]
    exact after
  written := by
    have written := represented.written
    simp only [Buffer.write]
    omega
  plain := represented.plain

/-- The working directory copied to the start of the buffer, with a separator
after it, represents its segments. -/
theorem represents_cwd (out : Buffer) (cwd : Cwd) :
    Represents ((out.copy 0 (cwd.text ++ [0])).write cwd.text.length nameSeparator) cwd.label
      (spread [] [] cwd.rest) cwd.text.length := by
  have spelling : text cwd.label (spread [] [] cwd.rest) = cwd.text ++ [nameSeparator] := by
    simp [text_spread, text, Cwd.text]
  have length := congrArg List.length spelling
  rw [text_length, List.length_append, List.length_singleton] at length
  refine ⟨by omega, ?_, ?_, ?_⟩
  · have copiedCwd := spells_copy out [] (cwd.text ++ [0]) (spells_nil _)
    rw [List.nil_append] at copiedCwd
    rw [spelling]
    exact spells_extend _ _ nameSeparator (spells_left _ _ _ copiedCwd)
  · simp only [Buffer.write]
    omega
  · intro segment member
    exact spread_plain [] [] cwd.rest (by simp) (by simp) segment member

/-- What a call of `vfs_parse_path` did, in terms of its entry. -/
structure Parsed (out : Buffer) (start : Entry) (result : Bool × Buffer) : Prop where
  spelled : ∀ segment below,
    (visited start.names).foldlM resolve start.stack = some (segment :: below) →
      result.1 = true ∧ SpellsString result.2.bytes (text start.label below ++ segment)
  failed : (visited start.names).foldlM resolve start.stack = none → result.1 = false
  extent : result.2.extent = max out.extent
    (max start.first (reaches start.label.length start.stack (visited start.names)))

/-- A run of the loop from an entry whose first writes are known. -/
theorem parsed_of_ran {out buffer : Buffer} {start : Entry} {result : Bool × Buffer}
    (first : buffer.extent = max out.extent start.first)
    (ran : Ran buffer start.label start.stack (visited start.names) result) :
    Parsed out start result where
  spelled := ran.spelled
  failed := ran.failed
  extent := by rw [ran.extent, first, Nat.max_assoc]

/-- A call whose first name is refused writes nothing. -/
theorem vfsParsePath_refused {cwd : Cwd} (out : Buffer) (path : List UInt8)
    (refused : entry cwd path = none) : vfsParsePath cwd out path = (false, out) := by
  unfold entry at refused
  unfold vfsParsePath
  split_ifs at refused ⊢
  cases scanned : scanLabel path 0 with
  | invalid => rfl
  | absolute labelLength => simp [scanned] at refused
  | relative => simp [scanned] at refused

/-- Every other call resolves the names of the path on the stack of its entry. -/
theorem vfsParsePath_parsed {cwd : Cwd} (out : Buffer) (path : List UInt8) (start : Entry)
    (terminated : ∀ ch ∈ path, ch ≠ 0) (entered : entry cwd path = some start) :
    Parsed out start (vfsParsePath cwd out path) := by
  unfold entry at entered
  unfold vfsParsePath
  split_ifs at entered ⊢ with root
  · obtain rfl := Option.some.inj entered
    refine parsed_of_ran ?_ (makeCanonical_ran (path.length + 1) _ cwd.label [] _ path
      (by omega) terminated (represents_write _ _ _ _ _ 0 (represents_label out cwd.label)
        (by omega)) (.inr (component_ended path (by simp [endOfName, root]))))
    simp only [Buffer.write, copy_extent out 0 cwd.label (Nat.zero_le _)]
    omega
  · have scan := scanLabel_spec path 0
    cases scanned : scanLabel path 0 with
    | invalid => simp [scanned] at entered
    | absolute labelLength =>
      rw [scanned] at entered scan
      obtain rfl := Option.some.inj entered
      obtain ⟨-, inside, ends⟩ := scan
      rw [Nat.sub_zero] at inside ends
      have length : (path.take labelLength).length = labelLength := by
        rw [List.length_take]
        omega
      have labelled := represents_label out (path.take labelLength)
      rw [length] at labelled
      have behind : ∀ ch ∈ path.drop (labelLength + 1), ch ≠ 0 :=
        fun ch member => terminated ch (List.mem_of_mem_drop member)
      have ran := makeCanonical_ran (path.length + 1) _ (path.take labelLength) [] labelLength
        (path.drop (labelLength + 1)) (by rw [List.length_drop]; omega) behind
        (represents_write _ _ _ _ (labelLength + 2) 0
          (represents_write _ _ _ _ (labelLength + 1) nameSeparator labelled (by omega)) (by omega))
        (.inr (component_ended _ ends))
      rw [length] at ran
      refine parsed_of_ran ?_ ran
      simp only [Buffer.write, copy_extent out 0 _ (Nat.zero_le _), length]
      omega
    | relative =>
      rw [scanned] at entered
      obtain rfl := Option.some.inj entered
      refine parsed_of_ran ?_ (makeCanonical_ran (path.length + 1) _ cwd.label _ _ path
        (by omega) terminated (represents_write _ _ _ _ _ 0 (represents_cwd out cwd) (by omega))
        (.inl (spread_rooted [] [] cwd.rest)))
      simp only [Buffer.write, copy_extent out 0 _ (Nat.zero_le _), List.length_append,
        List.length_singleton]
      omega

end Asym.PathRuns
