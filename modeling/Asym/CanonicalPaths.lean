import Asym.PathShapes

/-!
# The canonical form of accepted paths

`vfs_realpath` returns what `vfs_parse_path` leaves. The loop of `vfs_make_canonical` takes an
empty name for a name like any other and pushes it: only one separator at the end is dropped. So
the path `a//b` keeps its two separators, the empty path leaves a separator at the end, and
parsing such a string again leaves another one.

An empty name goes if a later `..` removes it. The string that is left is canonical if and only
if this happens to every empty name of the path.
-/

namespace Asym.CanonicalPaths

open PathParser PathStack PathRuns PathResolution PathBounds PathLookup PathShapes VolumeLifetimes

/-- `vfs_realpath`. -/
def vfsRealpath (cwd : Cwd) (out : Buffer) (path : List UInt8) : Except Errno Buffer :=
  if (vfsParsePath cwd out path).1 then .ok (vfsParsePath cwd out path).2 else .error .epath

/-- A canonical path: a label, the label separator, and names behind separators, not empty, of
valid characters, none of them `.` or `..`. -/
def IsCanonical (text : List UInt8) : Prop :=
  ∃ label names, Labelled label ∧ (∀ name ∈ names, name ≠ [] ∧ Pushed name) ∧ text = spell label names

/-- The names of a path that `vfs_make_canonical` resolves over the root or the working
directory. -/
def namesOf (path : List UInt8) : List Segment :=
  if charAt path = nameSeparator then visitedNext path
  else
    match scanLabel path 0 with
    | .absolute labelLength => visitedNext (path.drop (labelLength + 1))
    | .relative => visited path
    | .invalid => []

/-- Whether the name below a number of others is removed by the names that follow: some `..`
finds no name above it. -/
def removed : Nat → List Segment → Bool
  | _, [] => false
  | above, name :: later =>
      if name = dot then removed above later
      else if name = dotdot then
        match above with
        | 0 => true
        | above + 1 => removed above later
      else removed (above + 1) later

/-- Every empty name is removed by the names that follow it. -/
def emptiesRemoved : List Segment → Bool
  | [] => true
  | name :: later => (name ≠ [] || removed 0 later) && emptiesRemoved later

/-- An accepted name is resolved lexically. -/
theorem lexical_of_resolve {names next : List Segment} {name : Segment}
    (resolved : resolve (names ++ [[]]) name = some next) :
    ∃ after, next = after ++ [[]] ∧ lexical names name = some after := by
  unfold resolve at resolved
  split_ifs at resolved with isDot isDotdot whole
  · exact ⟨names, (Option.some.inj resolved).symm, by simp [lexical, isDot]⟩
  · cases names with
    | nil => cases resolved
    | cons top below =>
      refine ⟨below, ?_, by simp [lexical, isDotdot, dot, dotdot]⟩
      cases below with
      | nil => exact (Option.some.inj resolved).symm
      | cons second others => exact (Option.some.inj resolved).symm
  · exact ⟨name :: names, (Option.some.inj resolved).symm, by simp [lexical, isDot, isDotdot]⟩

/-- Accepted names are resolved lexically. -/
theorem fold_lexical {components names final : List Segment}
    (resolved : components.foldlM resolve (names ++ [[]]) = some (final ++ [[]])) :
    components.foldlM lexical names = some final := by
  induction components generalizing names with
  | nil => exact congrArg some (List.append_cancel_right (Option.some.inj resolved))
  | cons name later ih =>
    rw [List.foldlM_cons, Option.bind_eq_bind, Option.bind_eq_some_iff] at resolved
    obtain ⟨next, first, rest⟩ := resolved
    obtain ⟨after, rfl, resolvedName⟩ := lexical_of_resolve first
    rw [List.foldlM_cons, resolvedName]
    exact ih rest

/-- An empty name is left exactly if one was there that is not removed, or one was pushed that
is not removed. The stack has its last name first. -/
theorem empty_left_iff {components names final : List Segment}
    (resolved : components.foldlM lexical names = some final) :
    [] ∈ final ↔ (∃ above, names[above]? = some [] ∧ removed above components = false) ∨
      emptiesRemoved components = false := by
  induction components generalizing names with
  | nil =>
    obtain rfl : names = final := Option.some.inj resolved
    simp [removed, emptiesRemoved, List.mem_iff_getElem?]
  | cons name later ih =>
    rw [List.foldlM_cons, Option.bind_eq_bind, Option.bind_eq_some_iff] at resolved
    obtain ⟨next, first, rest⟩ := resolved
    rw [ih rest]
    unfold lexical at first
    split_ifs at first with isDot isDotdot
    · -- the name `.` changes no stack and is not empty
      obtain rfl := Option.some.inj first
      subst isDot
      simp [removed, emptiesRemoved, dot]
    · subst isDotdot
      cases names with
      | nil => cases first
      | cons top below =>
        obtain rfl := Option.some.inj first
        have pushed : emptiesRemoved (dotdot :: later) = emptiesRemoved later := by
          simp [emptiesRemoved, dotdot]
        have shifted (above : Nat) : removed (above + 1) (dotdot :: later) = removed above later := by
          simp [removed, dot, dotdot]
        have gone : removed 0 (dotdot :: later) = true := by simp [removed, dot, dotdot]
        rw [pushed]
        refine or_congr_left ⟨?_, ?_⟩
        · rintro ⟨above, here, stays⟩
          exact ⟨above + 1, here, (shifted above).trans stays⟩
        · rintro ⟨above, here, stays⟩
          cases above with
          | zero =>
            rw [gone] at stays
            cases stays
          | succ above => exact ⟨above, here, (shifted above).symm.trans stays⟩
    · obtain rfl := Option.some.inj first
      have covered (above : Nat) : removed above (name :: later) = removed (above + 1) later := by
        simp [removed, isDot, isDotdot]
      have pushed : emptiesRemoved (name :: later) = false ↔
          (name = [] ∧ removed 0 later = false) ∨ emptiesRemoved later = false := by
        rw [emptiesRemoved, Bool.and_eq_false_iff, Bool.or_eq_false_iff, decide_eq_false_iff_not, not_not]
      rw [pushed, ← or_assoc]
      refine or_congr_left ⟨?_, ?_⟩
      · rintro ⟨above, here, stays⟩
        cases above with
        | zero => exact .inr ⟨Option.some.inj here, stays⟩
        | succ above => exact .inl ⟨above, here, (covered above).trans stays⟩
      · rintro (⟨above, here, stays⟩ | ⟨rfl, stays⟩)
        · exact ⟨above + 1, here, (covered above).symm.trans stays⟩
        · exact ⟨0, rfl, stays⟩

/-- The text of a label and names has only these. -/
theorem spell_inj {firstLabel secondLabel : List UInt8} {first second : List Segment}
    (firstLabelled : Labelled firstLabel) (secondLabelled : Labelled secondLabel)
    (firstPlain : ∀ name ∈ first, ∀ ch ∈ name, endOfName ch = false)
    (secondPlain : ∀ name ∈ second, ∀ ch ∈ name, endOfName ch = false)
    (same : spell firstLabel first = spell secondLabel second) : first = second := by
  have split (label : List UInt8) (names : List Segment) (labelled : Labelled label) :
      (spell label names).dropWhile (· ≠ labelSeparator) = labelSeparator :: rooted names false := by
    have inside : ∀ ch ∈ label, decide (ch ≠ labelSeparator) = true := fun ch member =>
      decide_eq_true (valid_not_label (List.all_eq_true.mp labelled.valid ch member))
    rw [spell, List.dropWhile_append_of_pos inside]
    simp
  have rests := split firstLabel first firstLabelled
  rw [same, split secondLabel second secondLabelled] at rests
  have spread := spread_rooted_names [] [] first firstPlain
  rw [← (List.cons.inj rests).2, spread_rooted_names [] [] second secondPlain] at spread
  exact List.reverse_injective (List.append_cancel_right spread).symm

/-- A string that the parser leaves is canonical if and only if it has no empty name. -/
theorem isCanonical_spell {label : List UInt8} {names : List Segment} (shaped : Shaped label names) :
    IsCanonical (spell label names) ↔ [] ∉ names := by
  constructor
  · rintro ⟨other, others, labelled, present, same⟩ empty
    have plain : ∀ name ∈ others, ∀ ch ∈ name, endOfName ch = false := fun name member => (present name member).2.plain
    have equal := spell_inj shaped.labelled labelled (fun name member => (shaped.pushed name member).plain) plain same
    rw [equal] at empty
    exact (present [] empty).1 rfl
  · intro full
    refine ⟨label, names, shaped.labelled, fun name member => ⟨?_, shaped.pushed name member⟩, rfl⟩
    rintro rfl
    exact full member

/-- Names that are not empty are settled. -/
theorem settle_full {names : List Segment} (full : [] ∉ names) : settle names = names := by
  induction names with
  | nil => rfl
  | cons name later ih =>
    rw [List.mem_cons, not_or] at full
    rw [settle, if_neg fun both => full.1 both.1.symm, ih full.2]

/-- A canonical string of the parser parses to itself in any working directory. -/
theorem parsedText_canonical {label : List UInt8} {names : List Segment} (shaped : Shaped label names)
    (full : [] ∉ names) (cwd : Cwd) (out : Buffer) :
    parsedText cwd out (spell label names) = some (spell label names) := by
  rw [parsedText_spell shaped, settle_full full]

/-- The names that a path is resolved from have no empty one in a canonical directory, and the
path's own names are those of `namesOf`. -/
theorem begins_full {cwd : Cwd} {cwdNames : List Segment} (standing : Standing cwd cwdNames) {path label : List UInt8}
    {base components : List Segment} (begins : Begins cwd cwdNames path label base components) :
    components = namesOf path ∧ [] ∉ base := by
  cases begins with
  | root separator => exact ⟨by rw [namesOf, if_pos separator], List.not_mem_nil⟩
  | absolute labelLength notRoot scanned => exact ⟨by rw [namesOf, if_neg notRoot, scanned], List.not_mem_nil⟩
  | relative notRoot scanned =>
    refine ⟨by rw [namesOf, if_neg notRoot, scanned], fun empty => ?_⟩
    exact (standing.canonical.valid [] (List.mem_reverse.mp empty)).1.1 rfl

/-- An accepted path comes out in canonical form, and the same when it is parsed again, if and
only if every empty name in it is removed by a later `..`. -/
theorem realpath_canonical_iff (cwd : Cwd) (cwdNames : List Segment) (standing : Standing cwd cwdNames)
    (path : List UInt8) (terminated : ∀ ch ∈ path, ch ≠ 0) (room : PathLeavesRoom cwd path) (out parsed : Buffer)
    (accepted : vfsRealpath cwd out path = .ok parsed) :
    (IsCanonical (bufferString parsed.bytes) ∧ ∀ other again, ∃ same,
      vfsRealpath other again (bufferString parsed.bytes) = .ok same ∧
        bufferString same.bytes = bufferString parsed.bytes) ↔
      emptiesRemoved (namesOf path) = true := by
  have read (cwd : Cwd) (out parsed : Buffer) (path text : List UInt8) :
      (vfsRealpath cwd out path = .ok parsed → parsedText cwd out path = some (bufferString parsed.bytes)) ∧
      (parsedText cwd out path = some text → ∃ same, vfsRealpath cwd out path = .ok same ∧
        bufferString same.bytes = text) := by
    rw [vfsRealpath, parsedText]
    split
    · refine ⟨?_, ?_⟩
      · rintro ⟨⟩
        rfl
      · intro found
        exact ⟨_, rfl, Option.some.inj found⟩
    · refine ⟨fun same => ?_, fun same => ?_⟩
      · cases same
      · cases same
  have text := (read cwd out parsed path []).1 accepted
  rcases begins_or_refused cwd cwdNames path with refused | ⟨label, base, components, begins⟩
  · rw [refused out] at text
    cases text
  · obtain ⟨rfl, full⟩ := begins_full standing begins
    rcases parsedText_begins standing.spelled path terminated room begins with
      ⟨_, refused⟩ | ⟨names, shaped, resolved, left⟩
    · rw [refused out] at text
      cases text
    · rw [left out] at text
      rw [← Option.some.inj text]
      have empty := empty_left_iff (fold_lexical resolved)
      have nothing : ¬ ∃ above, base[above]? = some [] ∧ removed above (namesOf path) = false := by
        rintro ⟨above, here, _⟩
        exact full (List.mem_of_getElem? here)
      rw [List.mem_reverse, or_iff_right nothing] at empty
      rw [isCanonical_spell shaped, empty, Bool.not_eq_false]
      refine and_iff_left_of_imp fun allRemoved other again => ?_
      have none : [] ∉ names := by
        rw [empty, allRemoved]
        exact Bool.noConfusion
      exact (read other again parsed _ _).2 (parsedText_canonical shaped none other again)

/-- The directory `a:/b` is canonical, and its label is one that the parser accepts. -/
theorem sampleCwd_standing : Standing sampleCwd [[98]] :=
  ⟨sampleCwd_canonical, List.forall_mem_singleton.mpr (by decide), by decide⟩

/-- The empty name of the path `a//..` is removed: from `a:/b`, the path comes out as `a:/b/a`. -/
theorem removedName_canonical : ∃ parsed,
    vfsRealpath sampleCwd ⟨fun _ => 0, 0⟩ [97, 47, 47, 46, 46] = .ok parsed ∧
      bufferString parsed.bytes = [97, 58, 47, 98, 47, 97] ∧ IsCanonical (bufferString parsed.bytes) := by
  have terminated : ∀ ch ∈ [97, 47, 47, 46, 46], ch ≠ (0 : UInt8) := by simp
  have room : PathLeavesRoom sampleCwd [97, 47, 47, 46, 46] := by
    refine (parse_path_inside_iff sampleCwd (fun _ => 0) _ terminated).mp ?_
    decide +kernel
  have accepted : vfsRealpath sampleCwd ⟨fun _ => 0, 0⟩ [97, 47, 47, 46, 46] = .ok _ :=
    if_pos (show (vfsParsePath sampleCwd ⟨fun _ => 0, 0⟩ [97, 47, 47, 46, 46]).1 = true by decide +kernel)
  refine ⟨_, accepted, by decide +kernel, ?_⟩
  exact ((realpath_canonical_iff sampleCwd [[98]] sampleCwd_standing _ terminated room _ _ accepted).mpr
    (by decide +kernel)).1

/-- The empty path is accepted in `a:/b`, and leaves `a:/b/`. -/
theorem emptyPath_uncanonical : ∃ parsed, vfsRealpath sampleCwd ⟨fun _ => 0, 0⟩ [] = .ok parsed ∧
    bufferString parsed.bytes = [97, 58, 47, 98, 47] ∧ ¬ IsCanonical (bufferString parsed.bytes) := by
  have accepted : vfsRealpath sampleCwd ⟨fun _ => 0, 0⟩ [] = .ok _ :=
    if_pos (show (vfsParsePath sampleCwd ⟨fun _ => 0, 0⟩ []).1 = true by decide +kernel)
  have text : bufferString (vfsParsePath sampleCwd ⟨fun _ => 0, 0⟩ []).2.bytes = spell [97] [[98], []] := by
    decide +kernel
  have named : Pushed [98] := ⟨List.forall_mem_singleton.mpr (by decide), by decide, by decide, by decide⟩
  have empty : Pushed [] := ⟨List.forall_mem_nil _, by decide, by decide, by decide⟩
  have shaped : Shaped [97] [[98], []] :=
    ⟨sampleCwd_standing.labelled, List.forall_mem_cons.mpr ⟨named, List.forall_mem_singleton.mpr empty⟩, by decide⟩
  refine ⟨_, accepted, text, ?_⟩
  rw [text, isCanonical_spell shaped]
  simp

end Asym.CanonicalPaths
