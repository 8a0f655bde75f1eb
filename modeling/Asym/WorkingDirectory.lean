import Asym.PathShapes
import Asym.Runs
import Mathlib.Data.Bool.AllAny
import Mathlib.Data.FinEnum

/-!
# The working directory

A model of `vfs_chdir` with one thread. The call parses the path, asks `vfs_stat` for what
the path names, and copies the parsed string into the context.

The parser alone accepts paths with empty names and would leave `sys:/` for an empty path.
It is the traversal of the tree that refuses them: an empty name is never the name of a
node. A string that is copied is therefore canonical, and the next relative path starts
from it.
-/

namespace Asym.WorkingDirectory

open PathParser PathStack PathRuns PathResolution PathBounds PathLookup PathShapes NodeTrees Ramfs

section Lookup

/-- Labels of volumes are not empty and have no separators, and the names of nodes are
not empty and have no separators. -/
structure Plain (system : System) : Prop where
  labels : ∀ volume ∈ system.volumes, (system.volume volume).label ≠ [] ∧
    ∀ ch ∈ (system.volume volume).label, ch ≠ labelSeparator ∧ ch ≠ nameSeparator
  names : ∀ volume ∈ system.volumes, ∀ names node,
    Follows system.memory.nodes (system.volume volume).root names node →
      ∀ child ∈ (system.memory.nodes node).children, Word (system.memory.nodes child).name

/-- `vfs_stat` after the path was parsed. -/
def statText (system : System) (parsedPath : List UInt8) : Except Errno Stat :=
  match volumeGet system parsedPath with
  | none => .error .epath
  | some volume =>
      match (volumeOps system (system.volume volume).fileSystem).stat with
      | none => .error .eacces
      | some call => call volume (rootPath parsedPath)

/-- `vfs_stat` looks up the string that the parser leaves. -/
theorem vfsStat_eq (system : System) (cwd : Cwd) (out : Buffer) (path : List UInt8) :
    vfsStat system cwd out path =
      (parsedText cwd out path).elim (.error .epath) (statText system) := by
  rw [vfsStat, onVolume, parsedText]
  cases accepted : (vfsParsePath cwd out path).1 with
  | false => simp
  | true =>
    rw [if_neg Bool.noConfusion, if_pos rfl, Option.elim_some, statText]
    dsimp only
    cases volumeGet system (bufferString (vfsParsePath cwd out path).2.bytes) with
    | none => rfl
    | some volume =>
      dsimp only
      cases (volumeOps system (system.volume volume).fileSystem).stat with
      | none => rfl
      | some call => rfl

/-- A label and names lead to a directory, which is what `vfs_stat` reports. -/
def NamesDirectory (system : System) (label : List UInt8) (names : List Segment) : Prop :=
  ∃ volume node info, volumeGet system (spell label names) = some volume ∧
    Leads system label names volume node ∧
    nodeTraverse system.memory.nodes (system.volume volume).root (rooted names false) nameSeparator = some node ∧
    statNode system volume node = .ok info ∧ info.type = .dir

/-- A volume that `volume_get` finds has the label of the parsed path. -/
theorem volumeGet_label {system : System} (plain : Plain system) {label : List UInt8} (labelled : Labelled label)
    (rest : List UInt8) {volume : Nat} (got : volumeGet system (label ++ labelSeparator :: rest) = some volume) :
    volume ∈ system.volumes ∧ (system.volume volume).label = label := by
  have member := List.mem_of_find?_eq_some got
  have compared : VolumeLifetimes.labelCompare (system.volume volume).label
      (label ++ labelSeparator :: rest) = true := by
    have passed := List.find?_some got
    exact passed
  refine ⟨member, (labelCompare_iff ?_ labelled.goesOn ?_ rest).mp compared⟩
  · intro ch inside
    have separators := (plain.labels volume member).2 ch inside
    have terminated := (system.volume volume).terminated ch inside
    simp [VolumeLifetimes.endOfLabel, separators.1, terminated]
  · have short := (system.volume volume).short
    simp only [VolumeLifetimes.maxName, maxPath] at *
    omega

/-- A name that leads to a child is not empty. -/
theorem nodeFind_named {nodes : Nat → Node} {node child : Nat}
    (words : ∀ child ∈ (nodes node).children, Word (nodes child).name) {name : Segment}
    (plain : ∀ ch ∈ name, endOfName ch = false) (later : List Segment)
    (found : nodeFind nodes node (name ++ rooted later false) nameSeparator = some child) :
    name ≠ [] ∧ child ∈ (nodes node).children ∧ (nodes child).name = name := by
  have member := List.mem_of_find?_eq_some found
  have word := words child member
  have compared : Words.compareUpTo (endsNode nameSeparator) 0 VolumeLifetimes.maxName
      (name ++ rooted later false) (nodes child).name = true := by
    have passed := List.find?_some found
    exact passed
  obtain ⟨_, same⟩ := (Words.compareUpTo_iff (by decide) _ _ _).mp compared
  have own : Words.word (endsNode nameSeparator) (nodes child).name = (nodes child).name := by
    have spelled := word_rooted word.2 []
    simpa [rooted] using spelled
  rw [own] at same
  have present : name ≠ [] := by
    rintro rfl
    have empty : Words.word (endsNode nameSeparator) ([] ++ rooted later false) = [] := by
      rw [List.nil_append, Words.word_eq_nil_iff (show endsNode nameSeparator 0 = true by decide)]
      cases later with
      | nil => rfl
      | cons next others => rfl
    exact word.1 (same.symm.trans empty)
  rw [word_rooted plain] at same
  exact ⟨present, member, same.symm⟩

/-- A traversal that finds a node follows names that are not empty. The induction is on
the names. -/
theorem traverse_named {nodes : Nat → Node} {root last : Nat} {names : List Segment} (fuel : Nat)
    (words : ∀ names node, Follows nodes root names node → ∀ child ∈ (nodes node).children, Word (nodes child).name)
    (plain : ∀ name ∈ names, ∀ ch ∈ name, endOfName ch = false)
    (found : traverseFrom nodes nameSeparator fuel root (rooted names false) = some last) :
    (∀ name ∈ names, name ≠ []) ∧ Follows nodes root names last := by
  induction names generalizing root fuel with
  | nil =>
    cases fuel with
    | zero => cases found
    | succ fuel =>
      rw [traverseFrom, if_pos (by rfl)] at found
      obtain rfl := Option.some.inj found
      exact ⟨List.forall_mem_nil _, .here root⟩
  | cons name later ih =>
    cases fuel with
    | zero => cases found
    | succ fuel =>
      have shape : rooted (name :: later) false = nameSeparator :: (name ++ rooted later false) := by
        simp [rooted]
      have head : charAt (nameSeparator :: (name ++ rooted later false)) = nameSeparator := rfl
      rw [shape, traverseFrom, head, if_neg (by decide)] at found
      simp only [if_true, List.tail_cons] at found
      cases child : nodeFind nodes root (name ++ rooted later false) nameSeparator with
      | none => simp [child] at found
      | some next =>
        obtain ⟨present, member, same⟩ := nodeFind_named (words [] root (.here root))
          (plain name List.mem_cons_self) later child
        have isWord : Word name := ⟨present, plain name List.mem_cons_self⟩
        have below : ∀ names node, Follows nodes next names node →
            ∀ child ∈ (nodes node).children, Word (nodes child).name :=
          fun others node followed => words _ node (.down member followed)
        have plainLater : ∀ other ∈ later, ∀ ch ∈ other, endOfName ch = false :=
          fun other inLater => plain other (List.mem_cons_of_mem name inLater)
        simp only [child, strchr_rooted isWord.2] at found
        have onward : (∀ other ∈ later, other ≠ []) ∧ Follows nodes next later last := by
          cases later with
          | nil =>
            obtain rfl := Option.some.inj found
            exact ⟨List.forall_mem_nil _, .here next⟩
          | cons second others => exact ih fuel below plainLater found
        refine ⟨List.forall_mem_cons.mpr ⟨present, onward.1⟩, ?_⟩
        rw [← same]
        exact .down member onward.2

/-- A string of the parser's shape for which a directory is reported is canonical, and
names this directory. -/
theorem statText_directory {system : System} (plain : Plain system) {label : List UInt8} {names : List Segment}
    (shaped : Shaped label names) {info : Stat} (reported : statText system (spell label names) = .ok info)
    (directory : info.type = .dir) :
    label ≠ [] ∧ (∀ name ∈ names, name ≠ []) ∧ NamesDirectory system label names := by
  cases got : volumeGet system (spell label names) with
  | none => simp [statText, got] at reported
  | some volume =>
    obtain ⟨member, labelled⟩ := volumeGet_label plain shaped.labelled (rooted names false) got
    obtain ⟨call, present, calls⟩ := stat_acts system volume
    have below : rootPath (spell label names) = rooted names false := rootPath_eq shaped.labelled.plain names
    simp only [statText, got, present, calls, below, atNode] at reported
    cases traversed : nodeTraverse system.memory.nodes (system.volume volume).root (rooted names false)
        nameSeparator with
    | none => simp [traversed] at reported
    | some node =>
      rw [traversed] at reported
      obtain ⟨words, followed⟩ := traverse_named _ (plain.names volume member)
        (fun name inside => (shaped.pushed name inside).plain) traversed
      refine ⟨?_, words, volume, node, info, got, ⟨member, labelled, followed⟩, traversed, reported, directory⟩
      rw [← labelled]
      exact (plain.labels volume member).1

end Lookup

section Chdir

/-- A string with a label separator is a label, the separator and a rest. -/
theorem split_length (text : List UInt8) (present : labelSeparator ∈ text) :
    (text.takeWhile (· ≠ labelSeparator)).length + 1 + (text.dropWhile (· ≠ labelSeparator)).tail.length =
      text.length := by
  have whole := congrArg List.length (@List.takeWhile_append_dropWhile _ (· ≠ labelSeparator) text)
  rw [List.length_append] at whole
  have found : text.dropWhile (· ≠ labelSeparator) ≠ [] := by
    intro none
    have different := List.dropWhile_eq_nil_iff.mp none labelSeparator present
    simp at different
  have positive := List.length_pos_iff.mpr found
  rw [List.length_tail]
  omega

/-- The characters before the first label separator of a string. -/
theorem label_chars (text : List UInt8) (terminated : ∀ ch ∈ text, ch ≠ 0) :
    ∀ ch ∈ text.takeWhile (· ≠ labelSeparator), ch ≠ labelSeparator ∧ ch ≠ 0 := by
  intro ch member
  have different := List.mem_takeWhile_imp member
  exact ⟨of_decide_eq_true different, terminated ch (List.takeWhile_subset _ member)⟩

/-- A string as a working directory: it is shorter than the field and has a label
separator. -/
def cwdOf (text : List UInt8) : Option Cwd :=
  if string : labelSeparator ∈ text ∧ (∀ ch ∈ text, ch ≠ 0) ∧ text.length < maxPath then
    some {
      label := text.takeWhile (· ≠ labelSeparator)
      rest := (text.dropWhile (· ≠ labelSeparator)).tail
      labelChars := label_chars text string.2.1
      restChars := fun ch member => string.2.1 ch (List.dropWhile_subset _ (List.mem_of_mem_tail member))
      short := (split_length text string.1).symm ▸ string.2.2 }
  else none

/-- A shaped string is a working directory with its label and its names. -/
theorem cwdOf_spell {label : List UInt8} {names : List Segment} (shaped : Shaped label names) :
    ∃ cwd, cwdOf (spell label names) = some cwd ∧ cwd.label = label ∧ cwd.rest = rooted names false := by
  obtain ⟨terminated, short⟩ := shaped.string
  have notLabel : ∀ ch ∈ label, (decide (ch ≠ labelSeparator)) = true := by
    intro ch member
    exact decide_eq_true (valid_not_label (List.all_eq_true.mp shaped.labelled.valid ch member))
  have string : labelSeparator ∈ spell label names ∧ (∀ ch ∈ spell label names, ch ≠ 0) ∧
      (spell label names).length < maxPath :=
    ⟨List.mem_append_right _ List.mem_cons_self, terminated, by omega⟩
  refine ⟨_, by rw [cwdOf, dif_pos string], ?_, ?_⟩
  · dsimp only
    rw [spell, List.takeWhile_append_of_pos notLabel]
    simp
  · dsimp only
    rw [spell, List.dropWhile_append_of_pos notLabel]
    simp

/-- `vfs_chdir`: what it returns, and the working directory after it. The bytes of the two
buffers on the stack are arbitrary. There is no result if the parsed string does not fit
into the field, which would need a write behind the first buffer. -/
def vfsChdir (system : System) (cwd : Cwd) (parsedPath statPath : Buffer) (path : List UInt8) :
    Option (Except Errno Unit × Cwd) :=
  if (vfsParsePath cwd parsedPath path).1 = false then some (.error .epath, cwd)
  else
    match vfsStat system cwd statPath path with
    | .error error => some (.error error, cwd)
    | .ok info =>
        if info.type ≠ .dir then some (.error .enotdir, cwd)
        else
          (cwdOf (bufferString (vfsParsePath cwd parsedPath path).2.bytes)).map fun stored => (.ok (), stored)

/-- `vfs_context_init`: the working directory `sys:`. -/
def contextInit : Cwd where
  label := [115, 121, 115]
  rest := []
  labelChars := List.all_iff_forall_prop.mp (by decide)
  restChars := nofun
  short := by decide

/-- One call of `vfs_chdir`, with a path that leaves the parser in its buffer. -/
def Chdir (system : System) (before after : Cwd) : Prop :=
  ∃ path parsedPath statPath result, (∀ ch ∈ path, ch ≠ 0) ∧ PathLeavesRoom before path ∧
    vfsChdir system before parsedPath statPath path = some (result, after)

/-- The first working directory is canonical. -/
theorem contextInit_standing : Standing contextInit [] := by
  refine ⟨⟨by decide, rfl, nofun⟩, ⟨?_, by decide⟩⟩
  exact List.all_iff_forall_prop.mp (by decide)

/-- The outcomes of a call from a canonical directory. -/
theorem vfsChdir_spec {system : System} (plain : Plain system) {cwd : Cwd} {cwdNames : List Segment}
    (standing : Standing cwd cwdNames) (path : List UInt8) (terminated : ∀ ch ∈ path, ch ≠ 0)
    (room : PathLeavesRoom cwd path) (parsedPath statPath : Buffer) :
    (∃ error, vfsChdir system cwd parsedPath statPath path = some (.error error, cwd)) ∨
      ∃ next names, vfsChdir system cwd parsedPath statPath path = some (.ok (), next) ∧
        Standing next names ∧ NamesDirectory system next.label names := by
  have looked := vfsStat_eq system cwd statPath path
  cases accepted : (vfsParsePath cwd parsedPath path).1 with
  | false => exact .inl ⟨.epath, by rw [vfsChdir, if_pos accepted]⟩
  | true =>
    have goesOn : ¬ (vfsParsePath cwd parsedPath path).1 = false := by
      rw [accepted]
      exact nofun
    cases reported : vfsStat system cwd statPath path with
    | error error => exact .inl ⟨error, by rw [vfsChdir, if_neg goesOn, reported]⟩
    | ok info =>
      by_cases directory : info.type = .dir
      · rcases parsedText_shaped standing.spelled path terminated room with refused | ⟨label, names, shaped, left⟩
        · rw [refused statPath, reported] at looked
          cases looked
        · rw [left statPath, Option.elim_some, reported] at looked
          obtain ⟨present, words, names_⟩ := statText_directory plain shaped looked.symm directory
          obtain ⟨next, stored, sameLabel, sameRest⟩ := cwdOf_spell shaped
          have parsed := left parsedPath
          rw [parsedText, if_pos accepted] at parsed
          refine .inr ⟨next, names, ?_, ⟨⟨?_, sameRest, ?_⟩, ?_⟩, ?_⟩
          · rw [vfsChdir, if_neg goesOn, reported]
            simp only [directory, ne_eq, not_true_eq_false, if_false, Option.some.inj parsed, stored,
              Option.map_some]
          · rw [sameLabel]
            exact present
          · intro name member
            obtain ⟨plainName, valid, notDot, notDotdot⟩ := shaped.pushed name member
            exact ⟨⟨words name member, plainName⟩, valid, notDot, notDotdot⟩
          · rw [sameLabel]
            exact shaped.labelled
          · rw [sameLabel]
            exact names_
      · refine .inl ⟨.enotdir, ?_⟩
        rw [vfsChdir, if_neg goesOn, reported]
        simp [directory]

/-- Every call leaves a canonical directory. -/
theorem chdir_standing {system : System} (plain : Plain system) (before after : Cwd)
    (standing : ∃ names, Standing before names) (taken : Chdir system before after) :
    ∃ names, Standing after names := by
  obtain ⟨cwdNames, standing⟩ := standing
  obtain ⟨path, parsedPath, statPath, result, terminated, room, performed⟩ := taken
  rcases vfsChdir_spec plain standing path terminated room parsedPath statPath with
    ⟨error, failed⟩ | ⟨next, names, moved, standingNext, _⟩
  · obtain ⟨_, rfl⟩ := Prod.mk.inj (Option.some.inj (failed.symm.trans performed))
    exact ⟨cwdNames, standing⟩
  · obtain ⟨_, rfl⟩ := Prod.mk.inj (Option.some.inj (moved.symm.trans performed))
    exact ⟨names, standingNext⟩

/-- After any calls the working directory is canonical. A further call that succeeds
leaves it naming a directory, and one that fails leaves it as it is. -/
theorem working_directory_canonical (system : System) (plain : Plain system) (cwd : Cwd)
    (reached : Relation.ReflTransGen (Chdir system) contextInit cwd) :
    (∃ names, Standing cwd names) ∧
    ∀ path parsedPath statPath, (∀ ch ∈ path, ch ≠ 0) → PathLeavesRoom cwd path →
      ∃ result next, vfsChdir system cwd parsedPath statPath path = some (result, next) ∧
        (result = .ok () → ∃ names, Standing next names ∧ NamesDirectory system next.label names) ∧
        (∀ error, result = .error error → next = cwd) := by
  have canonical : ∃ names, Standing cwd names :=
    Runs.run_preserves (chdir_standing plain) reached ⟨[], contextInit_standing⟩
  refine ⟨canonical, ?_⟩
  obtain ⟨cwdNames, standing⟩ := canonical
  intro path parsedPath statPath terminated room
  rcases vfsChdir_spec plain standing path terminated room parsedPath statPath with
    ⟨error, failed⟩ | ⟨next, names, moved, standingNext, directory⟩
  · exact ⟨_, _, failed, nofun, fun _ _ => rfl⟩
  · exact ⟨_, _, moved, fun _ => ⟨names, standingNext, directory⟩, nofun⟩

/-- A system volume `sys`, with the directory `c` below its root. -/
def sysNodes (address : Nat) : Node :=
  if address = 1 then ⟨sysfsSystem, none, [2], []⟩ else ⟨sysfsSystem, some 1, [], [99]⟩

/-- The volume `sys` with this tree. -/
def sysSystem : System where
  volumes := [1]
  volume _ := ⟨[115, 121, 115], .sysfs, 1, List.all_iff_forall_prop.mp (by decide), by decide⟩
  memory := ⟨sysNodes, fun _ => ⟨0, 0⟩, fun _ _ => 0, []⟩
  resources _ := ⟨0, 0, none⟩

/-- The labels and names of the sample are proper. -/
theorem sysSystem_plain : Plain sysSystem := by
  have named (node : Nat) : ∀ child ∈ (sysNodes node).children, Word (sysNodes child).name := by
    by_cases first : node = 1
    · subst first
      exact List.forall_mem_singleton.mpr (word_of_all [99] (by decide) (by decide))
    · have leaf : (sysNodes node).children = [] := by simp [sysNodes, first]
      rw [leaf]
      exact nofun
  refine ⟨List.forall_mem_singleton.mpr ⟨by decide, ?_⟩, fun volume _ names node _ => named node⟩
  exact List.all_iff_forall_prop.mp (by decide)

/-- The path `c` leaves room in `sys:`. -/
theorem samplePath_room : PathLeavesRoom contextInit [99] := by
  refine (parse_path_inside_iff contextInit (fun _ => 0) [99] (List.forall_mem_singleton.mpr (by decide))).mp ?_
  decide +kernel

/-- From `sys:` the call with the path `c` succeeds, and leaves `sys:/c`. -/
theorem working_directory_sample :
    ∃ next, vfsChdir sysSystem contextInit ⟨fun _ => 0, 0⟩ ⟨fun _ => 0, 0⟩ [99] = some (.ok (), next) ∧
      next.text = [115, 121, 115, 58, 47, 99] ∧
      ∃ names, Standing next names ∧ NamesDirectory sysSystem next.label names := by
  obtain ⟨_, calls⟩ := working_directory_canonical sysSystem sysSystem_plain contextInit .refl
  obtain ⟨result, next, performed, moved, _⟩ :=
    calls [99] ⟨fun _ => 0, 0⟩ ⟨fun _ => 0, 0⟩ (List.forall_mem_singleton.mpr (by decide)) samplePath_room
  have observed : (vfsChdir sysSystem contextInit ⟨fun _ => 0, 0⟩ ⟨fun _ => 0, 0⟩ [99]).map
      (fun outcome => (outcome.1.toBool, outcome.2.text)) = some (true, [115, 121, 115, 58, 47, 99]) := by
    decide +kernel
  rw [performed] at observed
  obtain ⟨succeeds, text⟩ := Prod.mk.inj (Option.some.inj observed)
  cases result with
  | error error => cases succeeds
  | ok value => exact ⟨next, performed, text, moved rfl⟩

end Chdir

end Asym.WorkingDirectory
