import Asym.ParentPaths
import Asym.WorkingDirectory

/-!
# The path of a program

A model of the part of `loader.c` that deals with the path of a program. `loader_spawn`
resolves `argv[0]` in the working directory of the parent and looks at the resolved path.
The first thread of the new process opens `argv[0]` itself, in the working directory
`sys:`, and then changes to the directory in front of the last separator of `argv[0]`.

What `vfs_parent_dir` returns is not looked at. Without a separator the buffer of the
directory keeps what the stack held before.
-/

namespace Asym.ProgramLoads

open PathParser PathStack PathRuns PathResolution PathBounds PathLookup PathShapes ParentPaths NodeTrees Ramfs
  WorkingDirectory

section Lookup

/-- A file system: the labels and names are proper, files have no children, and each node
is reached in one way only. -/
structure FileTrees where
  system : System
  mounted : Mounted system
  directories : ∀ node, (system.memory.nodes node).children ≠ [] → (system.memory.nodes node).type ≠ ramfsFile
  tree : ∀ volume ∈ system.volumes, ∀ first second node,
    Follows system.memory.nodes (system.volume volume).root first node →
      Follows system.memory.nodes (system.volume volume).root second node → first = second

/-- The volume and the node that a parsed path leads to. -/
def lookup (system : System) (parsedPath : List UInt8) : Option (Nat × Nat) :=
  (volumeGet system parsedPath).bind fun volume =>
    (nodeTraverse system.memory.nodes (system.volume volume).root (rootPath parsedPath) nameSeparator).map
      fun node => (volume, node)

/-- A path operation acts at the node that the parsed path leads to. -/
theorem onVolume_lookup {Result : Type} (system : System) (cwd : Cwd) (out : Buffer) (path : List UInt8)
    {operation : VolumeOps → Option (Nat → List UInt8 → Except Errno Result)}
    {act : Nat → Nat → Except Errno Result}
    (acts : ∀ volume, ∃ call, operation (volumeOps system (system.volume volume).fileSystem) = some call ∧
      ∀ path, call volume path = atNode system.memory (system.volume volume).root path (act volume)) :
    onVolume system cwd out path operation =
      ((parsedText cwd out path).bind (lookup system)).elim (.error .epath) fun found => act found.1 found.2 := by
  rw [onVolume, parsedText]
  cases accepted : (vfsParsePath cwd out path).1 with
  | false => simp
  | true =>
    rw [if_neg Bool.noConfusion, if_pos rfl, Option.bind_some, lookup]
    dsimp only
    cases volumeGet system (bufferString (vfsParsePath cwd out path).2.bytes) with
    | none => rfl
    | some volume =>
      obtain ⟨call, present, calls⟩ := acts volume
      dsimp only
      rw [present, Option.bind_some]
      dsimp only
      rw [calls, atNode]
      cases nodeTraverse system.memory.nodes (system.volume volume).root
        (rootPath (bufferString (vfsParsePath cwd out path).2.bytes)) nameSeparator with
      | none => rfl
      | some node => rfl

/-- The names of all nodes are proper. -/
theorem FileTrees.words (trees : FileTrees) {volume : Nat} (member : volume ∈ trees.system.volumes) :
    ∀ names node, Follows trees.system.memory.nodes (trees.system.volume volume).root names node →
      ∀ child ∈ (trees.system.memory.nodes node).children, Word (trees.system.memory.nodes child).name := by
  intro names node followed
  exact (trees.mounted.named volume member names node followed).words

/-- A shaped string leads to a node exactly if no name is empty and the label and the names
lead there. -/
theorem lookup_spell (trees : FileTrees) {label : List UInt8} {names : List Segment} (shaped : Shaped label names)
    (volume node : Nat) :
    lookup trees.system (spell label names) = some (volume, node) ↔
      (∀ name ∈ names, name ≠ []) ∧ Leads trees.system label names volume node := by
  have got := trees.mounted.volumeGet_iff shaped.labelled.goesOn (rooted names false)
  have below : rootPath (spell label names) = rooted names false := rootPath_eq shaped.labelled.plain names
  have plainNames : ∀ name ∈ names, ∀ ch ∈ name, endOfName ch = false :=
    fun name member => (shaped.pushed name member).plain
  rw [lookup, Option.bind_eq_some_iff]
  constructor
  · rintro ⟨found, here, reached⟩
    obtain ⟨last, traversed, same⟩ := Option.map_eq_some_iff.mp reached
    obtain ⟨rfl, rfl⟩ := Prod.mk.inj same
    obtain ⟨member, labelled⟩ := (got found).mp here
    rw [below] at traversed
    obtain ⟨words, followed⟩ := traverse_named _ (trees.words member) plainNames traversed
    exact ⟨words, member, labelled, followed⟩
  · rintro ⟨words, member, labelled, followed⟩
    refine ⟨volume, (got volume).mpr ⟨member, labelled⟩, Option.map_eq_some_iff.mpr ⟨node, ?_, rfl⟩⟩
    rw [below]
    exact (nodeTraverse_iff (trees.mounted.named volume member)
      (fun name inside => ⟨words name inside, plainNames name inside⟩) node).mpr followed

/-- Names that lead somewhere lead to a parent first. -/
theorem follows_snoc {nodes : Nat → Node} {root last : Nat} {names : List Segment} {name : Segment} :
    Follows nodes root (names ++ [name]) last ↔
      ∃ parent, Follows nodes root names parent ∧ last ∈ (nodes parent).children ∧ (nodes last).name = name := by
  induction names generalizing root with
  | nil =>
    constructor
    · intro followed
      cases followed with
      | @down _ child _ _ member later =>
        cases later
        exact ⟨root, .here root, member, rfl⟩
    · rintro ⟨parent, here, member, rfl⟩
      cases here
      exact .down member (.here last)
  | cons first later ih =>
    constructor
    · intro followed
      cases followed with
      | down member rest =>
        obtain ⟨parent, toParent, child, named⟩ := ih.mp rest
        exact ⟨parent, .down member toParent, child, named⟩
    · rintro ⟨parent, toParent, child, named⟩
      cases toParent with
      | down member rest => exact .down member (ih.mpr ⟨parent, rest, child, named⟩)

end Lookup

section Loader

/-- `loader_spawn` up to `thread_new`. The bytes of the buffers on the stack are
arbitrary. There is no result if `executable` is overrun. -/
def loaderSpawn (system : System) (cwd : Cwd) (executable status : Nat → UInt8) (argv0 : List UInt8) :
    Option (Except Errno Unit) :=
  if (vfsParsePath cwd ⟨executable, 0⟩ argv0).2.extent ≤ maxPath then
    match parsedText cwd ⟨executable, 0⟩ argv0 with
    | none => some (.error .epath)
    | some text =>
        match vfsStat system cwd ⟨status, 0⟩ text with
        | .error error => some (.error error)
        | .ok info => some (if info.type ≠ .file then .error .eisdir else .ok ())
  else none

/-- The directory that the first thread changes to: the string in `parentDir`. -/
def parentPath (parentDir : Nat → UInt8) (argv0 : List UInt8) : List UInt8 :=
  bufferString (vfsParentDir ⟨parentDir, 0⟩ argv0).2.bytes

/-- `loader_load_program` up to the change of the directory: the file and the working
directory. The bytes of the buffers on the stack are arbitrary. There is no result if
`parentDir` is overrun. -/
def loaderLoadProgram (system : System) (opening parentDir parsing status : Nat → UInt8) (argv0 : List UInt8) :
    Option (Except Errno (File × Cwd)) :=
  match vfsOpen system contextInit ⟨opening, 0⟩ argv0 with
  | .error error => some (.error error)
  | .ok file =>
      if (vfsParentDir ⟨parentDir, 0⟩ argv0).2.extent ≤ maxPath then
        (vfsChdir system contextInit ⟨parsing, 0⟩ ⟨status, 0⟩ (parentPath parentDir argv0)).map
          fun outcome => outcome.1.map fun _ => (file, outcome.2)
      else none

/-- The parent's path of the program, resolved and resolved again, leads to a node. -/
def RealFile (system : System) (cwd : Cwd) (argv0 : List UInt8) (volume node : Nat) : Prop :=
  ∀ executable status : Buffer, (parsedText cwd executable argv0).bind
    (fun text => (parsedText cwd status text).bind (lookup system)) = some (volume, node)

/-- Whatever the stack holds, the new process stays inside its buffers, opens the file at a
node, and changes to the directory of the node. -/
def LoadsFile (system : System) (argv0 : List UInt8) (volume node : Nat) : Prop :=
  PathLeavesRoom contextInit argv0 ∧ ∀ opening parentDir parsing status,
    PathLeavesRoom contextInit (parentPath parentDir argv0) ∧
    ∃ file next parent, loaderLoadProgram system opening parentDir parsing status argv0 = some (.ok (file, next)) ∧
      (parsedText contextInit ⟨opening, 0⟩ argv0).bind (lookup system) = some (volume, node) ∧
      lookup system next.text = some (volume, parent) ∧ node ∈ (system.memory.nodes parent).children

/-- In front of the last separator of the path there is something that fits into a buffer,
and behind it a name other than `.` and `..`. -/
def NamesProgram (argv0 : List UInt8) : Prop :=
  ∃ dir name, argv0 = dir ++ nameSeparator :: name ∧ nameSeparator ∉ name ∧ dir ≠ [] ∧ dir.length < maxPath ∧
    name ≠ [] ∧ name ≠ dot ∧ name ≠ dotdot

/-- The parent resolves the path as the new process will: it is absolute, or starts with a
separator while the parent's volume is `sys`, or the parent's working directory is
`sys:`. -/
def StartsAlike (cwd : Cwd) (argv0 : List UInt8) : Prop :=
  charAt argv0 = nameSeparator ∧ cwd.label = contextInit.label ∨
    charAt argv0 ≠ nameSeparator ∧ (∃ labelLength, scanLabel argv0 0 = .absolute labelLength) ∨
    charAt argv0 ≠ nameSeparator ∧ scanLabel argv0 0 = .relative ∧ cwd.text = contextInit.text

/-- A path that leaves room resolves: where its resolution begins, and the names that it
leaves. -/
structure Resolves (cwd : Cwd) (cwdNames : List Segment) (path label : List UInt8)
    (base components names : List Segment) : Prop where
  begins : Begins cwd cwdNames path label base components
  shaped : Shaped label names
  folded : components.foldlM resolve (base ++ [[]]) = some (names.reverse ++ [[]])
  left : ∀ out, parsedText cwd out path = some (spell label names)

/-- A path that begins somewhere and is parsed resolves from there. -/
theorem resolves_of_begins {cwd : Cwd} {cwdNames : List Segment} (standing : Standing cwd cwdNames)
    {path : List UInt8} (terminated : ∀ ch ∈ path, ch ≠ 0) (room : PathLeavesRoom cwd path)
    {label : List UInt8} {base components : List Segment} (begins : Begins cwd cwdNames path label base components)
    {out : Buffer} {parsed : List UInt8} (accepted : parsedText cwd out path = some parsed) :
    ∃ names, Resolves cwd cwdNames path label base components names ∧ parsed = spell label names := by
  rcases parsedText_begins standing.spelled path terminated room begins with
    ⟨_, refused⟩ | ⟨names, shaped, folded, left⟩
  · rw [refused out] at accepted
    cases accepted
  · exact ⟨names, ⟨begins, shaped, folded, left⟩, Option.some.inj (accepted.symm.trans (left out))⟩

/-- A path that is parsed resolves. -/
theorem resolves_of_parsed {cwd : Cwd} {cwdNames : List Segment} (standing : Standing cwd cwdNames)
    {path : List UInt8} (terminated : ∀ ch ∈ path, ch ≠ 0) (room : PathLeavesRoom cwd path)
    {out : Buffer} {parsed : List UInt8} (accepted : parsedText cwd out path = some parsed) :
    ∃ label base components names, Resolves cwd cwdNames path label base components names ∧
      parsed = spell label names := by
  rcases begins_or_refused cwd cwdNames path with refused | ⟨label, base, components, begins⟩
  · rw [refused out] at accepted
    cases accepted
  · obtain ⟨names, resolves, same⟩ := resolves_of_begins standing terminated room begins accepted
    exact ⟨label, base, components, names, resolves, same⟩

/-- Names without an empty one stay as they are. -/
theorem settle_words {names : List Segment} (words : ∀ name ∈ names, name ≠ []) : settle names = names := by
  induction names with
  | nil => rfl
  | cons name later ih =>
    have present := words name List.mem_cons_self
    have others := ih fun other member => words other (List.mem_cons_of_mem name member)
    rw [settle, if_neg fun last => present last.1, others]

/-- Names whose last one is not empty stay as they are. -/
theorem settle_last (front : List Segment) {name : Segment} (named : name ≠ []) :
    settle (front ++ [name]) = front ++ [name] := by
  induction front with
  | nil =>
    rw [List.nil_append, settle, if_neg fun empty => named empty.1]
    rfl
  | cons first others ih =>
    have longer : others ++ [name] ≠ [] := List.append_ne_nil_of_right_ne_nil _ (List.cons_ne_nil _ _)
    rw [List.cons_append, settle, if_neg fun empty => longer empty.2, ih]

/-- Settled names are shaped. -/
theorem shaped_settle {label : List UInt8} {names : List Segment} (shaped : Shaped label names) :
    Shaped label (settle names) := by
  refine ⟨shaped.labelled, fun name member => shaped.pushed name (settle_subset names member), ?_⟩
  have smaller := settle_room names
  have fits := shaped.fits
  rw [used_names, room_reverse] at fits ⊢
  omega

/-- A status of a regular file is that of a file of the ram disk. -/
theorem statNode_file {system : System} {volume node : Nat} {info : Stat}
    (reported : statNode system volume node = .ok info) (file : info.type = .file) :
    (system.volume volume).fileSystem = .ramfs ∧ (system.memory.nodes node).type = ramfsFile := by
  rw [statNode] at reported
  cases kind : (system.volume volume).fileSystem with
  | ramfs =>
    simp only [kind, ramfsStatNode, Except.ok.injEq] at reported
    refine ⟨rfl, ?_⟩
    by_contra other
    rw [← reported, if_neg other] at file
    cases file
  | sysfs =>
    simp only [kind, sysfsStatNode, Except.ok.injEq] at reported
    rw [← reported] at file
    dsimp only at file
    split at file <;> cases file

/-- A program that is spawned resolves to a file of the ram disk. -/
theorem loaderSpawn_spec (trees : FileTrees) {cwd : Cwd} {cwdNames : List Segment} (standing : Standing cwd cwdNames)
    {argv0 : List UInt8} (terminated : ∀ ch ∈ argv0, ch ≠ 0) {executable status : Nat → UInt8}
    (spawned : loaderSpawn trees.system cwd executable status argv0 = some (.ok ())) :
    PathLeavesRoom cwd argv0 ∧ ∃ label base components names volume node,
      Resolves cwd cwdNames argv0 label base components names ∧ (∀ name ∈ settle names, name ≠ []) ∧
      Leads trees.system label (settle names) volume node ∧ (trees.system.volume volume).fileSystem = .ramfs ∧
      (trees.system.memory.nodes node).type = ramfsFile ∧ RealFile trees.system cwd argv0 volume node := by
  rw [loaderSpawn] at spawned
  by_cases inside : (vfsParsePath cwd ⟨executable, 0⟩ argv0).2.extent ≤ maxPath
  · rw [if_pos inside] at spawned
    have room := (parse_path_inside_iff cwd executable argv0 terminated).mp inside
    cases parsed : parsedText cwd ⟨executable, 0⟩ argv0 with
    | none => simp [parsed] at spawned
    | some text =>
      obtain ⟨label, base, components, names, resolves, rfl⟩ := resolves_of_parsed standing terminated room parsed
      have again := parsedText_spell resolves.shaped cwd
      have stat : vfsStat trees.system cwd ⟨status, 0⟩ (spell label names) = _ :=
        onVolume_lookup trees.system cwd ⟨status, 0⟩ (spell label names) (stat_acts trees.system)
      rw [again, Option.bind_some] at stat
      simp only [parsed, stat] at spawned
      cases reached : lookup trees.system (spell label (settle names)) with
      | none => simp [reached] at spawned
      | some found =>
        obtain ⟨volume, node⟩ := found
        obtain ⟨words, leads⟩ := (lookup_spell trees (shaped_settle resolves.shaped) volume node).mp reached
        simp only [reached, Option.elim_some] at spawned
        cases reported : statNode trees.system volume node with
        | error error => simp [reported] at spawned
        | ok info =>
          have file : info.type = .file := by
            by_contra other
            simp [reported, other] at spawned
          obtain ⟨ram, type⟩ := statNode_file reported file
          refine ⟨room, label, base, components, names, volume, node, resolves, words, leads, ram, type, ?_⟩
          intro first second
          rw [resolves.left first, Option.bind_some, again second, Option.bind_some, reached]
  · rw [if_neg inside] at spawned
    cases spawned

/-- `vfs_parent_dir` writes the part in front of the last separator, and a terminator. -/
theorem vfsParentDir_split (parentDir : Nat → UInt8) {dir name : List UInt8} (absent : nameSeparator ∉ name) :
    (vfsParentDir ⟨parentDir, 0⟩ (dir ++ nameSeparator :: name)).2.extent = dir.length + 1 ∧
      ((∀ ch ∈ dir, ch ≠ 0) → dir.length < maxPath → parentPath parentDir (dir ++ nameSeparator :: name) = dir) := by
  have found : strrchr (dir ++ nameSeparator :: name) nameSeparator = some dir.length := strrchr_last absent
  have cut : (dir ++ nameSeparator :: name).take dir.length = dir := List.take_left
  constructor
  · rw [vfsParentDir, found]
    dsimp only
    rw [cut, Buffer.write, copy_extent _ _ _ (Nat.le_refl 0)]
    simp
  · intro terminated short
    refine bufferString_of_spells ?_ terminated short
    rw [vfsParentDir, found]
    dsimp only
    rw [cut]
    have copied := spells_copy ⟨parentDir, 0⟩ [] dir (spells_nil parentDir)
    exact ⟨spells_write _ _ _ _ copied (Nat.le_refl _), Function.update_self _ _ _⟩

/-- A shaped string that was stored is the working directory. -/
theorem cwdOf_text {label : List UInt8} {names : List Segment} (shaped : Shaped label names) :
    ∃ cwd, cwdOf (spell label names) = some cwd ∧ cwd.text = spell label names := by
  obtain ⟨cwd, stored, sameLabel, sameRest⟩ := cwdOf_spell shaped
  exact ⟨cwd, stored, by rw [Cwd.text, sameLabel, sameRest, spell]⟩

/-- The status of a path that resolves. -/
theorem Resolves.stat (trees : FileTrees) {cwd : Cwd} {cwdNames : List Segment} {path label : List UInt8}
    {base components names : List Segment} (resolves : Resolves cwd cwdNames path label base components names)
    (status : Buffer) :
    vfsStat trees.system cwd status path =
      (lookup trees.system (spell label names)).elim (.error .epath)
        fun found => statNode trees.system found.1 found.2 := by
  have looked : vfsStat trees.system cwd status path = _ :=
    onVolume_lookup trees.system cwd status path (stat_acts trees.system)
  rw [resolves.left status, Option.bind_some] at looked
  exact looked

/-- A path that resolves is changed to exactly if it leads to a directory. -/
theorem Resolves.vfsChdir_iff (trees : FileTrees) {cwd : Cwd} {cwdNames : List Segment} {path label : List UInt8}
    {base components names : List Segment} (resolves : Resolves cwd cwdNames path label base components names)
    (parsing status : Buffer) :
    ∃ next, next.text = spell label names ∧ ∀ after,
      vfsChdir trees.system cwd parsing status path = some (.ok (), after) ↔
        after = next ∧ ∃ volume node info, lookup trees.system (spell label names) = some (volume, node) ∧
          statNode trees.system volume node = .ok info ∧ info.type = .dir := by
  obtain ⟨next, stored, text⟩ := cwdOf_text resolves.shaped
  have parsed := resolves.left parsing
  have accepted : ¬ (vfsParsePath cwd parsing path).1 = false := by
    intro refused
    rw [parsedText, if_neg (by rw [refused]; exact Bool.false_ne_true)] at parsed
    cases parsed
  rw [parsedText, if_pos (Bool.eq_true_of_not_eq_false accepted)] at parsed
  refine ⟨next, text, fun after => ?_⟩
  rw [vfsChdir, if_neg accepted, resolves.stat trees status, Option.some.inj parsed, stored]
  cases lookup trees.system (spell label names) with
  | none => simp
  | some found =>
    simp only [Option.elim_some, Option.some.injEq, Prod.ext_iff]
    cases reported : statNode trees.system found.1 found.2 with
    | error error =>
      constructor
      · rintro ⟨⟨⟩, _⟩
      · rintro ⟨_, volume, node, info, ⟨sameVolume, sameNode⟩, other, _⟩
        rw [← sameVolume, ← sameNode, reported] at other
        cases other
    | ok info =>
      by_cases directory : info.type = .dir
      · simp only [directory, ne_eq, not_true_eq_false, if_false, Option.map_some, Option.some.injEq, Prod.mk.injEq]
        constructor
        · rintro ⟨_, rfl⟩
          exact ⟨rfl, found.1, found.2, info, ⟨rfl, rfl⟩, reported, directory⟩
        · rintro ⟨rfl, _⟩
          exact ⟨trivial, rfl⟩
      · simp only [ne_eq, directory, not_false_eq_true, if_true, Option.some.injEq, Prod.mk.injEq]
        constructor
        · rintro ⟨⟨⟩, _⟩
        · rintro ⟨_, volume, node, other, ⟨sameVolume, sameNode⟩, same, isDirectory⟩
          rw [← sameVolume, ← sameNode, reported] at same
          obtain rfl := Except.ok.inj same
          exact absurd isDirectory directory

/-- The text of a working directory has its label and its rest. -/
theorem cwd_text_inj {first second : Cwd} (same : first.text = second.text) :
    first.label = second.label ∧ first.rest = second.rest := by
  have label (cwd : Cwd) : cwd.text.takeWhile (· ≠ labelSeparator) = cwd.label := by
    have inside : ∀ ch ∈ cwd.label, decide (ch ≠ labelSeparator) = true :=
      fun ch member => decide_eq_true (cwd.labelChars ch member).1
    rw [Cwd.text, List.takeWhile_append_of_pos inside]
    simp
  have labels : first.label = second.label := by rw [← label first, same, label second]
  refine ⟨labels, ?_⟩
  rw [Cwd.text, Cwd.text, labels] at same
  exact (List.cons.inj (List.append_cancel_left same)).2

/-- A path that starts alike resolves alike in the new process. -/
theorem Resolves.again {cwd : Cwd} {cwdNames : List Segment} {argv0 label : List UInt8}
    {base components names : List Segment} (standing : Standing cwd cwdNames)
    (resolves : Resolves cwd cwdNames argv0 label base components names) (room : PathLeavesRoom cwd argv0)
    (alike : StartsAlike cwd argv0) :
    Resolves contextInit [] argv0 label base components names ∧ PathLeavesRoom contextInit argv0 := by
  obtain ⟨begins, shaped, folded, left⟩ := resolves
  -- The parser and the entry look at the same parts of the two directories.
  have transfer (first : Begins contextInit [] argv0 label base components)
      (parsed : ∀ out, vfsParsePath contextInit out argv0 = vfsParsePath cwd out argv0)
      (entered : entry contextInit argv0 = entry cwd argv0) :
      Resolves contextInit [] argv0 label base components names ∧ PathLeavesRoom contextInit argv0 := by
    refine ⟨⟨first, shaped, folded, fun out => ?_⟩, ?_⟩
    · rw [← left out, parsedText, parsedText, parsed out]
    · intro start found
      exact room start (entered.symm.trans found)
  rcases alike with ⟨separator, sameLabel⟩ | ⟨notRoot, labelLength, scanned⟩ | ⟨notRoot, scanned, sameText⟩
  · refine transfer ?_ ?_ ?_
    · cases begins with
      | root _ =>
        rw [sameLabel]
        exact .root separator
      | absolute _ notRoot _ => exact absurd separator notRoot
      | relative notRoot _ => exact absurd separator notRoot
    · intro out
      rw [vfsParsePath, vfsParsePath, if_pos separator, if_pos separator, sameLabel]
    · rw [entry, entry, if_pos separator, if_pos separator, sameLabel]
  · refine transfer ?_ ?_ ?_
    · cases begins with
      | root separator => exact absurd separator notRoot
      | absolute _ _ found => exact .absolute _ notRoot found
      | relative _ found => cases found.symm.trans scanned
    · intro out
      rw [vfsParsePath, vfsParsePath, if_neg notRoot, if_neg notRoot, scanned]
    · rw [entry, entry, if_neg notRoot, if_neg notRoot, scanned]
  · obtain ⟨sameLabel, sameRest⟩ := cwd_text_inj sameText
    refine transfer ?_ ?_ ?_
    · cases begins with
      | root separator => exact absurd separator notRoot
      | absolute _ _ found => cases found.symm.trans scanned
      | relative _ _ =>
        have empty : cwdNames = [] := by
          have nothing := standing.canonical.rest
          rw [sameRest] at nothing
          cases cwdNames with
          | nil => rfl
          | cons first others => cases nothing
        rw [empty, sameLabel]
        exact .relative notRoot scanned
    · intro out
      rw [vfsParsePath, vfsParsePath, if_neg notRoot, if_neg notRoot, scanned, sameLabel, sameText]
    · rw [entry, entry, if_neg notRoot, if_neg notRoot, scanned, sameLabel, sameText, sameRest]

/-- The last of several names is resolved after the others. -/
theorem fold_snoc {front : List Segment} {name : Segment} {stack final : List Segment}
    (folded : (front ++ [name]).foldlM resolve stack = some final) :
    ∃ below, front.foldlM resolve stack = some below ∧ resolve below name = some final := by
  rw [List.foldlM_append, Option.bind_eq_bind, Option.bind_eq_some_iff] at folded
  obtain ⟨below, reached, last⟩ := folded
  rw [List.foldlM_cons, Option.bind_eq_bind, Option.bind_eq_some_iff] at last
  obtain ⟨top, resolved, same⟩ := last
  exact ⟨below, reached, resolved.trans same⟩

/-- A name other than `.` and `..` is pushed. -/
theorem resolve_named {stack final : List Segment} {name : Segment} (notDot : name ≠ dot) (notDotdot : name ≠ dotdot)
    (resolved : resolve stack name = some final) : name :: stack = final := by
  unfold resolve at resolved
  rw [if_neg notDot, if_neg notDotdot] at resolved
  split_ifs at resolved with whole
  exact Option.some.inj resolved

/-- A path that begins somewhere, and whose names resolve, resolves. -/
theorem resolves_of_folded {path label : List UInt8} {base components stack : List Segment}
    (terminated : ∀ ch ∈ path, ch ≠ 0) (room : PathLeavesRoom contextInit path)
    (begins : Begins contextInit [] path label base components)
    (reached : components.foldlM resolve (base ++ [[]]) = some stack) :
    ∃ names, stack = names.reverse ++ [[]] ∧ Resolves contextInit [] path label base components names := by
  rcases parsedText_begins contextInit_standing.spelled path terminated room begins with
    ⟨failed, _⟩ | ⟨names, shaped, folded, left⟩
  · rw [reached] at failed
    cases failed
  · exact ⟨names, Option.some.inj (reached.symm.trans folded), begins, shaped, folded, left⟩

/-- A program's directory resolves to the names in front of the last one, if no name is
empty. -/
theorem Resolves.parent {dir name label : List UInt8} {base components names : List Segment}
    (resolves : Resolves contextInit [] (dir ++ nameSeparator :: name) label base components names)
    (terminated : ∀ ch ∈ dir ++ nameSeparator :: name, ch ≠ 0)
    (room : PathLeavesRoom contextInit (dir ++ nameSeparator :: name)) (absent : nameSeparator ∉ name)
    (present : dir ≠ []) (named : name ≠ []) (notDot : name ≠ dot) (notDotdot : name ≠ dotdot)
    (words : ∀ other ∈ settle names, other ≠ []) :
    ∃ front further, names = front ++ [name] ∧ Resolves contextInit [] dir label base further front := by
  obtain ⟨before, further, rfl, begins, shape⟩ := begins_split absent terminated present resolves.begins
  have inDir : ∀ ch ∈ dir, ch ≠ 0 := fun ch member => terminated ch (List.mem_append_left _ member)
  have folded := resolves.folded
  rw [lastName, if_neg named] at folded
  obtain ⟨stack, reached, last⟩ := fold_snoc folded
  -- The last name is pushed onto what the names before it leave.
  have pushed := resolve_named notDot notDotdot last
  obtain ⟨front, rfl⟩ : ∃ front, names = front ++ [name] := by
    rcases List.eq_nil_or_concat' names with rfl | ⟨front, final, rfl⟩
    · exact absurd (List.cons.inj pushed).1 named
    · rw [List.reverse_append, List.reverse_singleton, List.singleton_append, List.cons_append] at pushed
      exact ⟨front, by rw [(List.cons.inj pushed).1]⟩
  rw [List.reverse_append, List.reverse_singleton, List.singleton_append, List.cons_append] at pushed
  obtain rfl := (List.cons.inj pushed).2
  rw [settle_last front named] at words
  refine ⟨front, further, rfl, ?_⟩
  rcases shape with rfl | rfl
  · obtain ⟨others, same, resolved⟩ := resolves_of_folded inDir (room_split absent present room) begins reached
    obtain rfl := List.reverse_injective (List.append_cancel_right same)
    exact resolved
  · -- An empty name in front of the last one would be left.
    obtain ⟨below, lower, top⟩ := fold_snoc reached
    have empty := resolve_named (by decide) (by decide) top
    obtain ⟨others, rfl, _⟩ := resolves_of_folded inDir (room_split absent present room) begins lower
    have inside : [] ∈ front := by
      rw [← List.cons_append] at empty
      rw [← List.mem_reverse, ← List.append_cancel_right empty]
      exact List.mem_cons_self
    exact absurd rfl (words [] (List.mem_append_left _ inside))

/-- A program that starts alike and has a directory and a name is loaded. -/
theorem loads_of_reloadable (trees : FileTrees) {cwd : Cwd} {cwdNames : List Segment} (standing : Standing cwd cwdNames)
    {argv0 label : List UInt8} {base components names : List Segment} (terminated : ∀ ch ∈ argv0, ch ≠ 0)
    (resolves : Resolves cwd cwdNames argv0 label base components names) (room : PathLeavesRoom cwd argv0)
    {volume node : Nat} (words : ∀ name ∈ settle names, name ≠ [])
    (leads : Leads trees.system label (settle names) volume node)
    (ram : (trees.system.volume volume).fileSystem = .ramfs) (file : (trees.system.memory.nodes node).type = ramfsFile)
    (alike : StartsAlike cwd argv0) (program : NamesProgram argv0) : LoadsFile trees.system argv0 volume node := by
  obtain ⟨again, roomAgain⟩ := resolves.again standing room alike
  obtain ⟨dir, name, rfl, absent, present, short, named, notDot, notDotdot⟩ := program
  obtain ⟨front, further, rfl, parentResolves⟩ :=
    again.parent terminated roomAgain absent present named notDot notDotdot words
  have inDir : ∀ ch ∈ dir, ch ≠ 0 := fun ch member => terminated ch (List.mem_append_left _ member)
  rw [settle_last front named] at words leads
  have reached : lookup trees.system (spell label (front ++ [name])) = some (volume, node) :=
    (lookup_spell trees again.shaped volume node).mpr ⟨words, leads⟩
  obtain ⟨mounted, labelled, followed⟩ := leads
  obtain ⟨parent, toParent, child, _⟩ := follows_snoc.mp followed
  have parentReached : lookup trees.system (spell label front) = some (volume, parent) := by
    refine (lookup_spell trees parentResolves.shaped volume parent).mpr ⟨?_, mounted, labelled, toParent⟩
    exact fun other member => words other (List.mem_append_left _ member)
  have directory : statNode trees.system volume parent = .ok ⟨.dir, 0⟩ := by
    have notFile := trees.directories parent (List.ne_nil_of_mem child)
    rw [statNode, ram]
    simp [ramfsStatNode, notFile]
  refine ⟨roomAgain, fun opening parentDir parsing status => ?_⟩
  obtain ⟨extent, string⟩ := vfsParentDir_split parentDir absent
  obtain ⟨next, text, changes⟩ := parentResolves.vfsChdir_iff trees ⟨parsing, 0⟩ ⟨status, 0⟩
  have changed := (changes next).mpr ⟨rfl, volume, parent, _, parentReached, directory, rfl⟩
  have opened :
      ∃ opened, vfsOpen trees.system contextInit ⟨opening, 0⟩ (dir ++ nameSeparator :: name) = .ok opened := by
    have looked : vfsOpen trees.system contextInit ⟨opening, 0⟩ (dir ++ nameSeparator :: name) = _ :=
      onVolume_lookup trees.system contextInit ⟨opening, 0⟩ _ (opening_acts trees.system)
    rw [again.left, Option.bind_some, reached, Option.elim_some, openNode, ram] at looked
    simp only [ramfsOpenNode, file] at looked
    exact ⟨_, looked⟩
  obtain ⟨opened, opens⟩ := opened
  rw [string inDir short]
  refine ⟨room_split absent present roomAgain, opened, next, parent, ?_, ?_, ?_, child⟩
  · rw [loaderLoadProgram, opens]
    dsimp only
    rw [if_pos (by omega), string inDir short, changed]
    rfl
  · rw [again.left, Option.bind_some, reached]
  · rw [text, parentReached]

/-- A node of a volume is reached from one label by one list of names. -/
theorem FileTrees.leads_unique (trees : FileTrees) {first second : List UInt8} {names others : List Segment}
    {volume node : Nat} (one : Leads trees.system first names volume node)
    (other : Leads trees.system second others volume node) : first = second ∧ names = others :=
  ⟨one.2.1.symm.trans other.2.1, trees.tree volume one.1 names others node one.2.2 other.2.2⟩

/-- The empty path resolves to an empty name behind the working directory. -/
theorem resolves_nil {label : List UInt8} {base components names : List Segment}
    (resolves : Resolves contextInit [] [] label base components names) : [] ∈ names := by
  have folded := resolves.folded
  cases resolves.begins with
  | root separator => cases separator
  | absolute _ _ scanned => cases scanned
  | relative _ _ =>
    have pushed : [] :: [] :: [] = names.reverse ++ [[]] := Option.some.inj folded
    have only : [[]] = names.reverse := List.append_cancel_right (show [[]] ++ [[]] = names.reverse ++ [[]] from pushed)
    rw [← List.mem_reverse, ← only]
    exact List.mem_singleton_self []

/-- A change that succeeded had a path that resolves, without empty names, to the new
directory. -/
theorem resolves_of_changed (trees : FileTrees) {path : List UInt8} (terminated : ∀ ch ∈ path, ch ≠ 0)
    (room : PathLeavesRoom contextInit path) {parsing status : Buffer} {next : Cwd}
    (changed : vfsChdir trees.system contextInit parsing status path = some (.ok (), next)) {volume node : Nat}
    (there : lookup trees.system next.text = some (volume, node)) {label : List UInt8} {base components : List Segment}
    (begins : Begins contextInit [] path label base components) :
    ∃ names, Resolves contextInit [] path label base components names ∧ (∀ name ∈ names, name ≠ []) ∧
      Leads trees.system label names volume node := by
  have accepted : ∃ parsed, parsedText contextInit parsing path = some parsed := by
    rw [vfsChdir] at changed
    cases accepted : (vfsParsePath contextInit parsing path).1 with
    | false => simp [accepted] at changed
    | true => exact ⟨_, by rw [parsedText, if_pos accepted]⟩
  obtain ⟨parsed, accepted⟩ := accepted
  obtain ⟨names, resolves, _⟩ := resolves_of_begins contextInit_standing terminated room begins accepted
  obtain ⟨stored, text, changes⟩ := resolves.vfsChdir_iff trees parsing status
  obtain ⟨rfl, _⟩ := (changes next).mp changed
  rw [text] at there
  obtain ⟨words, leads⟩ := (lookup_spell trees resolves.shaped volume node).mp there
  exact ⟨names, resolves, words, leads⟩

/-- If the names end with one more name than those of the directory, then the last name of
the path was pushed. -/
theorem name_pushed {name last : Segment} {before further base front : List Segment}
    (shape : before = further ∨ before = further ++ [[]])
    (lower : further.foldlM resolve (base ++ [[]]) = some (front.reverse ++ [[]]))
    (folded : (before ++ lastName name).foldlM resolve (base ++ [[]]) = some ((front ++ [last]).reverse ++ [[]]))
    (present : last ≠ []) : name ≠ [] ∧ name ≠ dot ∧ name ≠ dotdot := by
  have final : (front ++ [last]).reverse ++ [[]] = last :: (front.reverse ++ [[]]) := by simp
  rw [final] at folded
  -- What is there before the last name is not what is left.
  have stack {reached : List Segment} (found : before.foldlM resolve (base ++ [[]]) = some reached) :
      reached = front.reverse ++ [[]] ∨ reached = [] :: (front.reverse ++ [[]]) := by
    rcases shape with rfl | rfl
    · exact .inl (Option.some.inj (found.symm.trans lower))
    · obtain ⟨below, same, top⟩ := fold_snoc found
      obtain rfl := Option.some.inj (same.symm.trans lower)
      exact .inr (resolve_named (by decide) (by decide) top).symm
  have different {reached : List Segment} (found : before.foldlM resolve (base ++ [[]]) = some reached) :
      reached ≠ last :: (front.reverse ++ [[]]) := by
    rintro same
    rcases stack found with below | above
    · have lengths := congrArg List.length (same.symm.trans below)
      simp at lengths
    · exact present (List.cons.inj (same.symm.trans above)).1
  refine ⟨?_, ?_, ?_⟩
  · rintro rfl
    rw [lastName, if_pos rfl, List.append_nil] at folded
    exact different folded rfl
  · rintro rfl
    rw [lastName, if_neg (by decide)] at folded
    obtain ⟨below, found, top⟩ := fold_snoc folded
    unfold resolve at top
    rw [if_pos rfl] at top
    exact different found (Option.some.inj top)
  · rintro rfl
    rw [lastName, if_neg (by decide)] at folded
    obtain ⟨below, found, top⟩ := fold_snoc folded
    unfold resolve at top
    rw [if_neg (by decide), if_pos rfl] at top
    have lengths : below.length ≤ front.length + 2 := by
      rcases stack found with rfl | rfl <;> simp
    split at top
    · have longer := congrArg List.length (Option.some.inj top)
      simp only [List.length_cons, List.length_append, List.length_reverse, List.length_nil] at longer lengths
      omega
    · cases top

/-- A program that is loaded has a directory and a name. -/
theorem namesProgram_of_loads (trees : FileTrees) {argv0 : List UInt8} (terminated : ∀ ch ∈ argv0, ch ≠ 0)
    {label : List UInt8} {base components names : List Segment}
    (resolves : Resolves contextInit [] argv0 label base components names) {volume node parent : Nat}
    (words : ∀ name ∈ names, name ≠ []) (leads : Leads trees.system label names volume node)
    {parentDir : Nat → UInt8} (blank : parentDir = fun _ => 0)
    (inside : (vfsParentDir ⟨parentDir, 0⟩ argv0).2.extent ≤ maxPath)
    (room : PathLeavesRoom contextInit (parentPath parentDir argv0)) {parsing status : Buffer} {next : Cwd}
    (changed : vfsChdir trees.system contextInit parsing status (parentPath parentDir argv0) = some (.ok (), next))
    (there : lookup trees.system next.text = some (volume, parent))
    (child : node ∈ (trees.system.memory.nodes parent).children) : NamesProgram argv0 := by
  -- The change was not to the empty path.
  have notEmpty : parentPath parentDir argv0 ≠ [] := by
    intro empty
    rw [empty] at changed room
    have begins : Begins contextInit [] [] contextInit.label [].reverse (visited []) :=
      .relative (by decide) rfl
    obtain ⟨others, resolved, present, _⟩ := resolves_of_changed trees (List.forall_mem_nil _) room changed there begins
    exact present [] (resolves_nil resolved) rfl
  cases found : strrchr argv0 nameSeparator with
  | none =>
    refine absurd ?_ notEmpty
    rw [parentPath, vfsParentDir, found, blank]
    have nothing : ∀ ch ∈ ([] : List UInt8), ch ≠ 0 := List.forall_mem_nil _
    exact bufferString_of_spells ⟨spells_nil _, rfl⟩ nothing (by decide)
  | some length =>
    obtain ⟨dir, name, rfl, absent, _⟩ := strrchr_split found
    obtain ⟨extent, string⟩ := vfsParentDir_split parentDir absent
    have inDir : ∀ ch ∈ dir, ch ≠ 0 := fun ch member => terminated ch (List.mem_append_left _ member)
    have short : dir.length < maxPath := by
      rw [extent] at inside
      exact inside
    rw [string inDir short] at changed room notEmpty
    obtain ⟨before, further, rfl, begins, shape⟩ := begins_split absent terminated notEmpty resolves.begins
    obtain ⟨front, parentResolves, _, parentLeads⟩ := resolves_of_changed trees inDir room changed there begins
    obtain ⟨_, rfl⟩ := trees.leads_unique leads
      ⟨parentLeads.1, parentLeads.2.1, follows_snoc.mpr ⟨parent, parentLeads.2.2, child, rfl⟩⟩
    have present := words _ (List.mem_append_right front (List.mem_singleton_self _))
    obtain ⟨named, notDot, notDotdot⟩ := name_pushed shape parentResolves.folded resolves.folded present
    exact ⟨dir, name, rfl, absent, notEmpty, short, named, notDot, notDotdot⟩

/-- A path that resolves to the same node in both processes starts alike. -/
theorem startsAlike_of_leads (trees : FileTrees) {cwd : Cwd} {cwdNames : List Segment}
    (standing : Standing cwd cwdNames) {argv0 first second : List UInt8}
    {base components names base' components' names' : List Segment}
    (one : Resolves cwd cwdNames argv0 first base components names)
    (other : Resolves contextInit [] argv0 second base' components' names') {volume node : Nat}
    (leads : Leads trees.system first (settle names) volume node) (words : ∀ name ∈ names', name ≠ [])
    (again : Leads trees.system second names' volume node) : StartsAlike cwd argv0 := by
  obtain ⟨sameLabel, sameNames⟩ := trees.leads_unique leads again
  obtain ⟨begins, _, folded, _⟩ := one
  obtain ⟨begins', _, folded', _⟩ := other
  cases begins with
  | root separator =>
    cases begins' with
    | root _ => exact .inl ⟨separator, sameLabel⟩
    | absolute _ notRoot _ => exact absurd separator notRoot
    | relative notRoot _ => exact absurd separator notRoot
  | absolute labelLength notRoot scanned => exact .inr (.inl ⟨notRoot, labelLength, scanned⟩)
  | relative notRoot scanned =>
    cases begins' with
    | root separator => exact absurd separator notRoot
    | absolute _ _ found => cases found.symm.trans scanned
    | relative _ _ =>
      -- The parent's names are those of its directory and those of the new process.
      have longer := fold_below _ [] cwdNames.reverse _ _ folded' folded
      rw [← List.reverse_append] at longer
      obtain rfl := List.reverse_injective longer
      have allWords : ∀ name ∈ cwdNames ++ names', name ≠ [] := by
        intro name member
        rcases List.mem_append.mp member with above | below
        · exact (standing.canonical.valid name above).1.1
        · exact words name below
      rw [settle_words allWords, List.append_left_eq_self] at sameNames
      have sameRest : cwd.rest = contextInit.rest := by
        rw [standing.canonical.rest, sameNames]
        rfl
      exact .inr (.inr ⟨notRoot, scanned, by rw [Cwd.text, Cwd.text, sameLabel, sameRest]⟩)

/-- The new process loads the file that the parent looked at, and changes to its
directory, exactly if it starts from the same place as the parent and the path has a
directory and a name. -/
theorem spawn_loads_iff (trees : FileTrees) (cwd : Cwd) (cwdNames : List Segment) (standing : Standing cwd cwdNames)
    (argv0 : List UInt8) (terminated : ∀ ch ∈ argv0, ch ≠ 0) (executable status : Nat → UInt8)
    (spawned : loaderSpawn trees.system cwd executable status argv0 = some (.ok ())) :
    ∃ volume node, RealFile trees.system cwd argv0 volume node ∧
      (LoadsFile trees.system argv0 volume node ↔ StartsAlike cwd argv0 ∧ NamesProgram argv0) := by
  obtain ⟨room, label, base, components, names, volume, node, resolves, words, leads, ram, file, real⟩ :=
    loaderSpawn_spec trees standing terminated spawned
  refine ⟨volume, node, real, ?_, ?_⟩
  · rintro ⟨roomAgain, loads⟩
    obtain ⟨roomParent, opened, next, parent, loaded, reached, there, child⟩ :=
      loads (fun _ => 0) (fun _ => 0) (fun _ => 0) (fun _ => 0)
    obtain ⟨parsed, accepted, looked⟩ := Option.bind_eq_some_iff.mp reached
    obtain ⟨label', base', components', names', again, rfl⟩ :=
      resolves_of_parsed contextInit_standing terminated roomAgain accepted
    obtain ⟨words', leads'⟩ := (lookup_spell trees again.shaped volume node).mp looked
    have changed : (vfsParentDir ⟨fun _ => 0, 0⟩ argv0).2.extent ≤ maxPath ∧
        vfsChdir trees.system contextInit ⟨fun _ => 0, 0⟩ ⟨fun _ => 0, 0⟩ (parentPath (fun _ => 0) argv0) =
          some (.ok (), next) := by
      rw [loaderLoadProgram] at loaded
      split at loaded
      · cases Option.some.inj loaded
      · split_ifs at loaded with inside
        obtain ⟨⟨result, after⟩, performed, mapped⟩ := Option.map_eq_some_iff.mp loaded
        cases result with
        | error error => cases mapped
        | ok value =>
          obtain ⟨_, rfl⟩ := Prod.mk.inj (Except.ok.inj mapped)
          exact ⟨inside, performed⟩
    exact ⟨startsAlike_of_leads trees standing resolves again leads words' leads',
      namesProgram_of_loads trees terminated again words' leads' rfl changed.1 roomParent changed.2 there child⟩
  · rintro ⟨alike, program⟩
    exact loads_of_reloadable trees standing terminated resolves room words leads ram file alike program

/-- The names that lead to a node of the sample tree. -/
def samplePlace (address : Nat) : List Segment :=
  if address = 1 then [] else if address = 2 then [[99]] else [[99], [100]]

/-- Names in the sample tree extend the place of the node they start from. -/
theorem sample_follows {start last : Nat} {names : List Segment} (followed : Follows sampleNodes start names last) :
    samplePlace last = samplePlace start ++ names := by
  induction followed with
  | here node => rw [List.append_nil]
  | @down node child last names member later ih =>
    have below : samplePlace child = samplePlace node ++ [(sampleNodes child).name] := by
      by_cases first : node = 1
      · subst first
        obtain rfl : child = 2 := List.mem_singleton.mp member
        rfl
      · by_cases second : node = 2
        · subst second
          obtain rfl : child = 3 := List.mem_singleton.mp member
          rfl
        · simp [sampleNodes, first, second] at member
    rw [ih, below, List.append_assoc]
    rfl

/-- The sample system. -/
def sampleFiles : FileTrees where
  system := sampleSystem
  mounted := sampleSystem_mounted
  directories node parent := by
    show (sampleNodes node).type ≠ ramfsFile
    have children : (sampleNodes node).children ≠ [] := parent
    unfold sampleNodes at children ⊢
    split_ifs at children ⊢
    · decide
    · decide
    · exact absurd rfl children
  tree _ _ _ _ _ one other :=
    List.append_cancel_left ((sample_follows one).symm.trans (sample_follows other))

/-- The directory `a:/c`. -/
def parentCwd : Cwd where
  label := [97]
  rest := [47, 99]
  labelChars := PathBounds.rootCwd.labelChars
  restChars := List.forall_mem_cons.mpr ⟨by decide, List.forall_mem_singleton.mpr (by decide)⟩
  short := by decide

/-- The directory is canonical. -/
theorem parentCwd_standing : Standing parentCwd [[99]] := by
  refine ⟨⟨by decide, rfl, List.forall_mem_singleton.mpr ⟨?_, by decide, by decide, by decide⟩⟩, ⟨?_, by decide⟩⟩
  · exact word_of_all [99] (by decide) (by decide)
  · exact List.forall_mem_singleton.mpr (by decide)

/-- A call that was seen to succeed. -/
theorem spawned_of_seen {outcome : Option (Except Errno Unit)} (seen : outcome.map Except.toBool = some true) :
    outcome = some (.ok ()) := by
  obtain ⟨result, rfl, succeeded⟩ := Option.map_eq_some_iff.mp seen
  cases result with
  | error error => cases succeeded
  | ok value => rfl

/-- From `a:/c`, the program `a:/c/d` is spawned and loaded. -/
theorem spawn_loads_sample : ∃ volume node,
    RealFile sampleSystem parentCwd [97, 58, 47, 99, 47, 100] volume node ∧
      LoadsFile sampleSystem [97, 58, 47, 99, 47, 100] volume node := by
  obtain ⟨volume, node, real, loads⟩ := spawn_loads_iff sampleFiles parentCwd [[99]] parentCwd_standing
    [97, 58, 47, 99, 47, 100] (List.all_iff_forall_prop.mp (by decide)) (fun _ => 0) (fun _ => 0)
    (spawned_of_seen (by decide +kernel))
  refine ⟨volume, node, real, loads.mpr ⟨.inr (.inl ⟨by decide, 1, by decide⟩), ?_⟩⟩
  exact ⟨[97, 58, 47, 99], [100], rfl, by decide, by decide, by decide, by decide, by decide, by decide⟩

/-- From `a:/c`, the program `./d` is spawned, but what is loaded is not the file that was
looked at. -/
theorem spawn_loads_other :
    loaderSpawn sampleSystem parentCwd (fun _ => 0) (fun _ => 0) [46, 47, 100] = some (.ok ()) ∧
      RealFile sampleSystem parentCwd [46, 47, 100] 1 3 ∧ ¬ LoadsFile sampleSystem [46, 47, 100] 1 3 := by
  have spawned : loaderSpawn sampleSystem parentCwd (fun _ => 0) (fun _ => 0) [46, 47, 100] = some (.ok ()) :=
    spawned_of_seen (by decide +kernel)
  refine ⟨spawned, ?_, ?_⟩
  · obtain ⟨_, _, _, _, _, volume, node, _, _, _, _, _, real⟩ :=
      loaderSpawn_spec sampleFiles parentCwd_standing (List.all_iff_forall_prop.mp (by decide)) spawned
    have seen : (parsedText parentCwd ⟨fun _ => 0, 0⟩ [46, 47, 100]).bind
        (fun text => (parsedText parentCwd ⟨fun _ => 0, 0⟩ text).bind (lookup sampleSystem)) = some (1, 3) := by
      decide +kernel
    obtain ⟨rfl, rfl⟩ := Prod.mk.inj (Option.some.inj (seen.symm.trans (real _ _)))
    exact real
  · rintro ⟨_, loads⟩
    obtain ⟨_, opened, next, parent, loaded, _⟩ := loads (fun _ => 0) (fun _ => 0) (fun _ => 0) (fun _ => 0)
    have failed : (loaderLoadProgram sampleSystem (fun _ => 0) (fun _ => 0) (fun _ => 0) (fun _ => 0)
        [46, 47, 100]).map Except.toBool = some false := by decide +kernel
    rw [loaded] at failed
    cases failed

end Loader

end Asym.ProgramLoads
