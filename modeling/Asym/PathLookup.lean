import Asym.Ramfs

/-!
# Path lookup

A model of `vfs_open`, `vfs_stat` and `vfs_listdir` with the two file systems. A path is
parsed into a buffer, the volume is looked up by the label at the start of the buffer,
and the volume's own operation goes down from its root along the rest.

The operation acts at the node that the resolved path names: the one found from the root
of the volume with exactly the label, along exactly the names.

The counts of volumes are left out; path operations hold a reference while they run. No
resource of the kernel has an `open` of its own; such a call is known only by whether it
succeeds.
-/

namespace Asym.PathLookup

open PathParser PathStack PathResolution NodeTrees Ramfs Words

/-- `SYSFS_SYSTEM`. -/
def sysfsSystem : Nat := 1

/-- The file systems of the kernel. -/
inductive FileSystem where
  | ramfs
  | sysfs
  deriving DecidableEq, Repr

/-- `volume_t`, with the root of its tree. The label is a string in its field. -/
structure Volume where
  label : List UInt8
  fileSystem : FileSystem
  root : Nat
  terminated : ∀ ch ∈ label, ch ≠ 0
  short : label.length < VolumeLifetimes.maxName

/-- `resource_t` after its node. `opens` is `open`: what it returns, if it is not
`NULL`. -/
structure Resource where
  ops : Nat
  privateAddress : Nat
  opens : Option Bool
  deriving DecidableEq, Repr

/-- The list of volumes, and memory. -/
structure System where
  volumes : List Nat
  volume : Nat → Volume
  memory : Memory
  resources : Nat → Resource

/-- `sysfs_open`, at a node. -/
def sysfsOpenNode (system : System) (volume node : Nat) : Except Errno File :=
  if (system.memory.nodes node).type = sysfsSystem then .error .eisdir
  else
    let resource := system.resources node
    if resource.opens = some false then .error .own
    else .ok ⟨volume, 0, resource.privateAddress, some node, .resource resource.ops⟩

/-- `sysfs_open`. -/
def sysfsOpen (system : System) (root volume : Nat) (path : List UInt8) : Except Errno File :=
  atNode system.memory root path (sysfsOpenNode system volume)

/-- `sysfs_stat`, at a node. -/
def sysfsStatNode (memory : Memory) (node : Nat) : Except Errno Stat :=
  .ok ⟨if (memory.nodes node).type = sysfsResource then .res else .dir, 0⟩

/-- `sysfs_stat`. -/
def sysfsStat (memory : Memory) (root : Nat) (path : List UInt8) : Except Errno Stat :=
  atNode memory root path (sysfsStatNode memory)

/-- `sysfs_listdir`. -/
def sysfsListdir (memory : Memory) (root : Nat) (path : List UInt8) (amount : Nat) :
    Except Errno (List DirEntry × Nat) :=
  atNode memory root path (listdirNode memory amount)

/-- `volume_ops_t`: the operations on paths, if they are not `NULL`. -/
structure VolumeOps where
  opening : Option (Nat → List UInt8 → Except Errno File)
  stat : Option (Nat → List UInt8 → Except Errno Stat)
  listdir : Option (Nat → List UInt8 → Nat → Except Errno (List DirEntry × Nat))

/-- `volumeOps` of the two file systems. -/
def volumeOps (system : System) : FileSystem → VolumeOps
  | .ramfs => {
      opening := some fun volume path => ramfsOpen system.memory (system.volume volume).root volume path
      stat := some fun volume path => ramfsStat system.memory (system.volume volume).root path
      listdir := some fun volume path amount =>
        ramfsListdir system.memory (system.volume volume).root path amount }
  | .sysfs => {
      opening := some fun volume path => sysfsOpen system (system.volume volume).root volume path
      stat := some fun volume path => sysfsStat system.memory (system.volume volume).root path
      listdir := some fun volume path amount =>
        sysfsListdir system.memory (system.volume volume).root path amount }

/-- `volume_get`. -/
def volumeGet (system : System) (label : List UInt8) : Option Nat :=
  system.volumes.find? fun volume => VolumeLifetimes.labelCompare (system.volume volume).label label

/-- The string in a buffer of `MAX_PATH` bytes. -/
def bufferString (bytes : Nat → UInt8) : List UInt8 :=
  ((List.range maxPath).map bytes).takeWhile (· ≠ 0)

/-- The rest of a parsed path from the first separator on, or the empty string at its
end. -/
def rootPath (parsedPath : List UInt8) : List UInt8 :=
  (strchr parsedPath nameSeparator).getD []

/-- The body that the three functions share. -/
def onVolume {Result : Type} (system : System) (cwd : Cwd) (out : Buffer) (path : List UInt8)
    (operation : VolumeOps → Option (Nat → List UInt8 → Except Errno Result)) : Except Errno Result :=
  if (vfsParsePath cwd out path).1 = false then .error .epath
  else
    let parsedPath := bufferString (vfsParsePath cwd out path).2.bytes
    match volumeGet system parsedPath with
    | none => .error .epath
    | some volume =>
        match operation (volumeOps system (system.volume volume).fileSystem) with
        | none => .error .eacces
        | some call => call volume (rootPath parsedPath)

/-- `vfs_open`. -/
def vfsOpen (system : System) (cwd : Cwd) (out : Buffer) (path : List UInt8) : Except Errno File :=
  onVolume system cwd out path VolumeOps.opening

/-- `vfs_stat`. -/
def vfsStat (system : System) (cwd : Cwd) (out : Buffer) (path : List UInt8) : Except Errno Stat :=
  onVolume system cwd out path VolumeOps.stat

/-- `vfs_listdir`. -/
def vfsListdir (system : System) (cwd : Cwd) (out : Buffer) (path : List UInt8) (amount : Nat) :
    Except Errno (List DirEntry × Nat) :=
  onVolume system cwd out path fun ops => ops.listdir.map fun call volume path => call volume path amount

/-- What the open of a volume's file system does at a node. -/
def openNode (system : System) (volume node : Nat) : Except Errno File :=
  match (system.volume volume).fileSystem with
  | .ramfs => ramfsOpenNode system.memory volume node
  | .sysfs => sysfsOpenNode system volume node

/-- What the stat of a volume's file system does at a node. -/
def statNode (system : System) (volume node : Nat) : Except Errno Stat :=
  match (system.volume volume).fileSystem with
  | .ramfs => ramfsStatNode system.memory node
  | .sysfs => sysfsStatNode system.memory node

/-- Volumes have different labels without separators, and trees with proper names. -/
structure Mounted (system : System) : Prop where
  different : (system.volumes.map fun volume => (system.volume volume).label).Nodup
  plain : ∀ volume ∈ system.volumes, ∀ ch ∈ (system.volume volume).label,
    ch ≠ labelSeparator ∧ ch ≠ nameSeparator
  named : ∀ volume ∈ system.volumes, WellNamed system.memory.nodes (system.volume volume).root

/-- A label and names lead to a node: from the root of the volume with this label. -/
def Leads (system : System) (label : List UInt8) (names : List Segment) (volume node : Nat) : Prop :=
  volume ∈ system.volumes ∧ (system.volume volume).label = label ∧
    Follows system.memory.nodes (system.volume volume).root names node

/-- A string in a buffer is read back. -/
theorem bufferString_of_spells {bytes : Nat → UInt8} {text : List UInt8} (spelled : SpellsString bytes text)
    (terminated : ∀ ch ∈ text, ch ≠ 0) (fits : text.length < maxPath) : bufferString bytes = text := by
  have front : (List.range text.length).map bytes = text := by
    apply List.ext_getElem
    · simp
    · intro offset _ inText
      rw [List.getElem_map, List.getElem_range]
      exact spelled.1 offset _ (List.getElem?_eq_getElem inText)
  obtain ⟨rest, shape⟩ : ∃ rest, (List.range maxPath).map bytes = text ++ 0 :: rest := by
    obtain ⟨more, length⟩ := Nat.exists_eq_add_of_lt fits
    rw [length, Nat.add_assoc, List.range_add, List.map_append, front, List.range_succ_eq_map, List.map_cons,
      List.map_cons, Nat.add_zero, spelled.2]
    exact ⟨_, rfl⟩
  rw [bufferString, shape, List.takeWhile_append_of_pos]
  · simp
  · intro ch member
    simpa using terminated ch member

/-- The loop of `label_compare` is a comparison of words. -/
theorem labelCompareFrom_eq (turns : Nat) (first second : List UInt8) :
    VolumeLifetimes.labelCompareFrom turns first second =
      compareUpTo VolumeLifetimes.endOfLabel 0 turns first second := by
  induction turns generalizing first second with
  | zero => rfl
  | succ turns ih =>
    rw [VolumeLifetimes.labelCompareFrom, compareUpTo, ih]
    rfl

/-- `label_compare` compares labels exactly. -/
theorem labelCompare_iff {label text : List UInt8} (plain : ∀ ch ∈ label, VolumeLifetimes.endOfLabel ch = false)
    (textPlain : ∀ ch ∈ text, VolumeLifetimes.endOfLabel ch = false) (short : label.length < maxPath)
    (rest : List UInt8) :
    VolumeLifetimes.labelCompare label (text ++ labelSeparator :: rest) = true ↔ label = text := by
  rw [VolumeLifetimes.labelCompare, labelCompareFrom_eq, compareUpTo_iff (by decide), word_self plain,
    word_before textPlain (by decide)]
  constructor
  · rintro ⟨_, same⟩
    exact same
  · intro same
    exact ⟨short, same⟩

/-- `volume_get` finds the volume with the label of a parsed path. -/
theorem Mounted.volumeGet_iff {system : System} (mounted : Mounted system) {label : List UInt8}
    (plain : ∀ ch ∈ label, VolumeLifetimes.endOfLabel ch = false) (rest : List UInt8) (volume : Nat) :
    volumeGet system (label ++ labelSeparator :: rest) = some volume ↔
      volume ∈ system.volumes ∧ (system.volume volume).label = label := by
  refine find?_unique mounted.different ?_ volume
  intro other member
  apply labelCompare_iff _ plain
  · have short := (system.volume other).short
    simp only [VolumeLifetimes.maxName, maxPath] at *
    omega
  · intro ch inside
    have separators := mounted.plain other member ch inside
    have terminated := (system.volume other).terminated ch inside
    simp [VolumeLifetimes.endOfLabel, separators.1, terminated]

/-- The rest of a parsed path from the first separator on. -/
theorem rootPath_eq {label : List UInt8} (plain : ∀ ch ∈ label, endOfName ch = false) (names : List Segment) :
    rootPath (label ++ labelSeparator :: rooted names false) = rooted names false := by
  have isWord : Word (label ++ [labelSeparator]) := by
    refine ⟨by simp, ?_⟩
    intro ch member
    rcases List.mem_append.mp member with inside | last
    · exact plain ch inside
    · obtain rfl := List.mem_singleton.mp last
      decide
  have shape : label ++ labelSeparator :: rooted names false =
      (label ++ [labelSeparator]) ++ rooted names false := by simp
  rw [rootPath, shape, strchr_rooted isWord.2]
  split_ifs with empty
  · rw [empty]
    rfl
  · rfl

/-- Lexical resolution leaves names that it has found. -/
theorem lexical_words {start final components : List Segment} (startWords : ∀ name ∈ start, Word name)
    (words : ∀ name ∈ components, Word name) (resolved : components.foldlM lexical start = some final) :
    ∀ name ∈ final, Word name := by
  induction components generalizing start with
  | nil =>
    obtain rfl : start = final := Option.some.inj resolved
    exact startWords
  | cons name later ih =>
    rw [List.foldlM_cons, Option.bind_eq_bind, Option.bind_eq_some_iff] at resolved
    obtain ⟨next, first, rest⟩ := resolved
    refine ih ?_ (fun other member => words other (List.mem_cons_of_mem name member)) rest
    unfold lexical at first
    split_ifs at first with isDot isDotdot
    · obtain rfl := Option.some.inj first
      exact startWords
    · cases start with
      | nil => cases first
      | cons top below =>
        obtain rfl := Option.some.inj first
        exact fun other member => startWords other (List.mem_cons_of_mem top member)
    · obtain rfl := Option.some.inj first
      exact List.forall_mem_cons.mpr ⟨words name List.mem_cons_self, startWords⟩

/-- Lexical resolution takes no more room than the names. -/
theorem lexical_run_room {start final components : List Segment}
    (resolved : components.foldlM lexical start = some final) :
    used (final ++ [[]]) ≤ used (start ++ [[]]) + room components := by
  induction components generalizing start with
  | nil =>
    obtain rfl : start = final := Option.some.inj resolved
    exact Nat.le_add_right _ _
  | cons name later ih =>
    rw [List.foldlM_cons, Option.bind_eq_bind, Option.bind_eq_some_iff] at resolved
    obtain ⟨next, first, rest⟩ := resolved
    have taken := lexical_room first
    have takenLater := ih rest
    have shape : room (name :: later) = name.length + 1 + room later := by simp [room]
    omega

/-- The components of a path are words. -/
theorem components_words {form : Form} (shaped : form.WellFormed) : ∀ name ∈ form.components, Word name := by
  cases form with
  | absolute label names trailing => exact shaped.2
  | root names trailing => exact shaped.2
  | relative first names trailing => exact List.forall_mem_cons.mpr ⟨shaped.1, shaped.2.2⟩

/-- The names that resolution starts from are words. -/
theorem start_words {cwd : Cwd} {cwdNames : List Segment} (canonical : Canonical cwd cwdNames) (form : Form) :
    ∀ name ∈ form.start cwdNames, Word name := by
  cases form with
  | absolute label names trailing => exact nofun
  | root names trailing => exact nofun
  | relative first names trailing =>
    intro name member
    exact (canonical.valid name (List.mem_reverse.mp member)).1

/-- The room that a path and the working directory take together. -/
theorem form_room {cwd : Cwd} {cwdNames : List Segment} (canonical : Canonical cwd cwdNames) (form : Form) :
    (form.label cwd).length + used (form.start cwdNames ++ [[]]) + room form.components ≤
      cwd.text.length + form.path.length + 1 := by
  have cwdLength : cwd.text.length = cwd.label.length + 1 + cwd.rest.length := by
    simp [Cwd.text]
    omega
  cases form with
  | absolute label names trailing =>
    have bounded := rooted_length names trailing
    simp only [Form.label, Form.start, Form.components, Form.path, List.nil_append, used, List.length_nil,
      List.length_append, List.length_cons]
    omega
  | root names trailing =>
    have bounded := rooted_length names trailing
    simp only [Form.label, Form.start, Form.components, Form.path, List.nil_append, used, List.length_nil]
    omega
  | relative first names trailing =>
    have bounded := rooted_length names trailing
    have spelling := congrArg List.length (text_names cwd.label cwdNames.reverse)
    rw [text_length, List.reverse_reverse, ← canonical.rest] at spelling
    have shape : room (first :: names) = first.length + 1 + room names := by simp [room]
    simp only [List.length_append, List.length_cons, List.length_nil] at spelling
    simp only [Form.label, Form.start, Form.components, Form.path, List.length_append, shape]
    omega

/-- What a path parses to, as a string. -/
structure Parses (cwd : Cwd) (form : Form) (names : List Segment) : Prop where
  accepted : ∀ out, (vfsParsePath cwd out form.path).1 = true
  text : ∀ out, bufferString (vfsParsePath cwd out form.path).2.bytes =
    form.label cwd ++ labelSeparator :: rooted names false
  words : ∀ name ∈ names, Word name
  label : ∀ ch ∈ form.label cwd, VolumeLifetimes.endOfLabel ch = false

/-- The label of an accepted path has no separator of labels. -/
theorem label_plain {cwd : Cwd} {form : Form} (shaped : form.WellFormed)
    (valid : form.checked.all validName = true) :
    ∀ ch ∈ form.label cwd, VolumeLifetimes.endOfLabel ch = false := by
  have ofCwd (ch : UInt8) (member : ch ∈ cwd.label) : VolumeLifetimes.endOfLabel ch = false := by
    have chars := cwd.labelChars ch member
    simp [VolumeLifetimes.endOfLabel, chars.1, chars.2]
  cases form with
  | absolute label names trailing =>
    intro ch member
    rw [Form.checked, List.all_cons, Bool.and_eq_true] at valid
    have validCh := List.all_eq_true.mp valid.1 ch member
    have nonzero := word_terminated shaped.1 ch member
    simp [VolumeLifetimes.endOfLabel, valid_not_label validCh, nonzero]
  | root names trailing => exact ofCwd
  | relative first names trailing => exact ofCwd

/-- An accepted path parses to its label and the lexically resolved names. -/
theorem parses_of_accepted {cwd : Cwd} {cwdNames : List Segment} (canonical : Canonical cwd cwdNames)
    {form : Form} (shaped : form.WellFormed) (short : cwd.text.length + form.path.length < maxPath - 8)
    {out : Buffer} (accepted : (vfsParsePath cwd out form.path).1 = true) :
    ∃ names, form.components.foldlM lexical (form.start cwdNames) = some names ∧
      Parses cwd form names.reverse := by
  have resolved := resolved_form canonical form shaped short
  obtain ⟨names, folded, _⟩ := (resolved out).spelled accepted
  have notRefused : ¬ (form.checked.all validName = false ∨
      form.components.foldlM lexical (form.start cwdNames) = none) := by
    rw [← (resolved out).refused, accepted]
    exact nofun
  have valid : form.checked.all validName = true := by
    simpa using fun invalid => notRefused (.inl invalid)
  have always (buffer : Buffer) : (vfsParsePath cwd buffer form.path).1 = true := by
    by_contra failed
    exact notRefused ((resolved buffer).refused.mp (by simpa using failed))
  have words : ∀ name ∈ names.reverse, Word name := by
    intro name member
    exact lexical_words (start_words canonical form) (components_words shaped) folded name
      (List.mem_reverse.mp member)
  have plain := @label_plain cwd form shaped valid
  refine ⟨names, folded, always, ?_, words, plain⟩
  intro buffer
  obtain ⟨others, foldedOthers, spelled⟩ := (resolved buffer).spelled (always buffer)
  obtain rfl : names = others := Option.some.inj (folded.symm.trans foldedOthers)
  apply bufferString_of_spells spelled
  · intro ch member
    rcases List.mem_append.mp member with inside | behind
    · rintro rfl
      exact absurd (plain 0 inside) (by decide)
    · rcases List.mem_cons.mp behind with rfl | later
      · decide
      · exact rooted_terminated words ch later
  · have spelling := congrArg List.length (text_names (form.label cwd) names)
    have taken := lexical_run_room folded
    have bounded := form_room canonical form
    rw [text_length] at spelling
    simp only [List.length_append, List.length_cons, List.length_nil, maxPath] at *
    omega

/-- A path operation acts at the node that the path leads to, and fails if it leads to
none. -/
theorem Parses.onVolume {Result : Type} {system : System} (mounted : Mounted system) {cwd : Cwd} {form : Form}
    {names : List Segment} (parses : Parses cwd form names) (out : Buffer)
    {operation : VolumeOps → Option (Nat → List UInt8 → Except Errno Result)}
    {act : Nat → Nat → Except Errno Result}
    (acts : ∀ volume, ∃ call, operation (volumeOps system (system.volume volume).fileSystem) = some call ∧
      ∀ path, call volume path = atNode system.memory (system.volume volume).root path (act volume)) :
    (∀ volume node, Leads system (form.label cwd) names volume node →
      onVolume system cwd out form.path operation = act volume node) ∧
    ((¬ ∃ volume node, Leads system (form.label cwd) names volume node) →
      onVolume system cwd out form.path operation = .error .epath) := by
  have accepted : ¬ (vfsParsePath cwd out form.path).1 = false := by
    rw [parses.accepted out]
    exact nofun
  have got := @Mounted.volumeGet_iff system mounted (form.label cwd) parses.label (rooted names false)
  -- The volume is there, so its label has no separators and the rest is the path below its root.
  have found (volume : Nat) (member : volume ∈ system.volumes)
      (labelled : (system.volume volume).label = form.label cwd) :
      PathLookup.onVolume system cwd out form.path operation =
        atNode system.memory (system.volume volume).root (rooted names false) (act volume) := by
    have plain : ∀ ch ∈ form.label cwd, endOfName ch = false := by
      rw [← labelled]
      intro ch inside
      have separators := mounted.plain volume member ch inside
      have terminated := (system.volume volume).terminated ch inside
      simp [endOfName, separators.2, terminated]
    obtain ⟨call, present, calls⟩ := acts volume
    simp only [PathLookup.onVolume, if_neg accepted, parses.text out, (got volume).mpr ⟨member, labelled⟩, present,
      rootPath_eq plain, calls]
  constructor
  · rintro volume node ⟨member, labelled, followed⟩
    have traversed := (nodeTraverse_iff (mounted.named volume member) parses.words node).mpr followed
    rw [found volume member labelled, atNode, traversed]
  · intro nowhere
    by_cases known : ∃ volume ∈ system.volumes, (system.volume volume).label = form.label cwd
    · obtain ⟨volume, member, labelled⟩ := known
      have traversed : nodeTraverse system.memory.nodes (system.volume volume).root (rooted names false)
          nameSeparator = none := by
        rw [Option.eq_none_iff_forall_ne_some]
        intro node reached
        have followed := (nodeTraverse_iff (mounted.named volume member) parses.words node).mp reached
        exact nowhere ⟨volume, node, member, labelled, followed⟩
      rw [found volume member labelled, atNode, traversed]
    · have missing : volumeGet system (form.label cwd ++ labelSeparator :: rooted names false) = none := by
        rw [Option.eq_none_iff_forall_ne_some]
        intro volume got'
        exact known ⟨volume, (got volume).mp got'⟩
      simp only [PathLookup.onVolume, if_neg accepted, parses.text out, missing]

/-- An operation that does not fail with `EPATH` at a node fails so exactly if the path
leads to none. -/
theorem epath_iff {Result : Type} {outcome : Except Errno Result} {leads : Nat → Nat → Prop}
    {act : Nat → Nat → Except Errno Result} (found : ∀ volume node, leads volume node → outcome = act volume node)
    (missing : (¬ ∃ volume node, leads volume node) → outcome = .error .epath)
    (other : ∀ volume node, act volume node ≠ .error .epath) :
    outcome = .error .epath ↔ ¬ ∃ volume node, leads volume node := by
  constructor
  · rintro failed ⟨volume, node, leading⟩
    exact other volume node ((found volume node leading).symm.trans failed)
  · exact missing

/-- Opening a node does not fail with `EPATH`. -/
theorem openNode_ne (system : System) (volume node : Nat) : openNode system volume node ≠ .error .epath := by
  rw [openNode]
  split
  · rw [ramfsOpenNode]
    split <;> intro same <;> cases same
  · simp only [sysfsOpenNode]
    split_ifs <;> intro same <;> cases same

/-- The status of a node is always there. -/
theorem statNode_ne (system : System) (volume node : Nat) : statNode system volume node ≠ .error .epath := by
  rw [statNode]
  split
  · exact nofun
  · exact nofun

/-- Listing a node does not fail with `EPATH`. -/
theorem listdirNode_ne (memory : Memory) (amount node : Nat) : listdirNode memory amount node ≠ .error .epath := by
  rw [listdirNode]
  split <;> exact nofun

/-- The open of a volume acts at nodes. -/
theorem opening_acts (system : System) (volume : Nat) :
    ∃ call, (volumeOps system (system.volume volume).fileSystem).opening = some call ∧
      ∀ path, call volume path =
        atNode system.memory (system.volume volume).root path (openNode system volume) := by
  unfold openNode
  cases (system.volume volume).fileSystem with
  | ramfs => exact ⟨_, rfl, fun _ => rfl⟩
  | sysfs => exact ⟨_, rfl, fun _ => rfl⟩

/-- The stat of a volume acts at nodes. -/
theorem stat_acts (system : System) (volume : Nat) :
    ∃ call, (volumeOps system (system.volume volume).fileSystem).stat = some call ∧
      ∀ path, call volume path =
        atNode system.memory (system.volume volume).root path (statNode system volume) := by
  unfold statNode
  cases (system.volume volume).fileSystem with
  | ramfs => exact ⟨_, rfl, fun _ => rfl⟩
  | sysfs => exact ⟨_, rfl, fun _ => rfl⟩

/-- The listdir of a volume acts at nodes. -/
theorem listdir_acts (system : System) (amount volume : Nat) :
    ∃ call, (volumeOps system (system.volume volume).fileSystem).listdir.map
        (fun call volume path => call volume path amount) = some call ∧
      ∀ path, call volume path =
        atNode system.memory (system.volume volume).root path (listdirNode system.memory amount) := by
  cases (system.volume volume).fileSystem with
  | ramfs => exact ⟨_, rfl, fun _ => rfl⟩
  | sysfs => exact ⟨_, rfl, fun _ => rfl⟩

/-- Path lookup. The three functions act at the node that the label and the lexically
resolved names lead to, and they fail with `EPATH` exactly if there is no such node. -/
theorem path_lookup_exact (system : System) (mounted : Mounted system) (cwd : Cwd) (cwdNames : List Segment)
    (canonical : Canonical cwd cwdNames) (form : Form) (shaped : form.WellFormed)
    (short : cwd.text.length + form.path.length < maxPath - 8) (out : Buffer)
    (accepted : (vfsParsePath cwd out form.path).1 = true) :
    ∃ names, form.components.foldlM lexical (form.start cwdNames) = some names ∧
      (∀ volume node, Leads system (form.label cwd) names.reverse volume node → ∀ buffer,
        vfsOpen system cwd buffer form.path = openNode system volume node ∧
        vfsStat system cwd buffer form.path = statNode system volume node ∧
        ∀ amount, vfsListdir system cwd buffer form.path amount = listdirNode system.memory amount node) ∧
      ∀ buffer,
        (vfsOpen system cwd buffer form.path = .error .epath ↔
          ¬ ∃ volume node, Leads system (form.label cwd) names.reverse volume node) ∧
        (vfsStat system cwd buffer form.path = .error .epath ↔
          ¬ ∃ volume node, Leads system (form.label cwd) names.reverse volume node) ∧
        ∀ amount, vfsListdir system cwd buffer form.path amount = .error .epath ↔
          ¬ ∃ volume node, Leads system (form.label cwd) names.reverse volume node := by
  obtain ⟨names, folded, parses⟩ := parses_of_accepted canonical shaped short accepted
  have opening (buffer : Buffer) := @Parses.onVolume File system mounted cwd form _ parses buffer
    VolumeOps.opening (openNode system) (opening_acts system)
  have stat (buffer : Buffer) := @Parses.onVolume Stat system mounted cwd form _ parses buffer
    VolumeOps.stat (statNode system) (stat_acts system)
  have listdir (buffer : Buffer) (amount : Nat) := @Parses.onVolume _ system mounted cwd form _ parses buffer
    (fun ops => ops.listdir.map fun call volume path => call volume path amount)
    (fun _ => listdirNode system.memory amount) (listdir_acts system amount)
  refine ⟨names, folded, ?_, ?_⟩
  · intro volume node leading buffer
    refine ⟨(opening buffer).1 volume node leading, (stat buffer).1 volume node leading, ?_⟩
    intro amount
    exact (listdir buffer amount).1 volume node leading
  · intro buffer
    refine ⟨?_, ?_, ?_⟩
    · exact epath_iff (opening buffer).1 (opening buffer).2 (openNode_ne system)
    · exact epath_iff (stat buffer).1 (stat buffer).2 (statNode_ne system)
    · intro amount
      exact epath_iff (listdir buffer amount).1 (listdir buffer amount).2
        fun _ => listdirNode_ne system.memory amount

/-- The directory `c` with a file `d` below the root of a ram disk. -/
def sampleNodes (address : Nat) : Node :=
  if address = 1 then ⟨ramfsDir, none, [2], []⟩
  else if address = 2 then ⟨ramfsDir, some 1, [3], [99]⟩
  else ⟨ramfsFile, some 2, [], [100]⟩

/-- A volume `a` with this tree, and an empty system volume `s`. -/
def sampleSystem : System where
  volumes := [1, 2]
  volume address :=
    if address = 1 then ⟨[97], .ramfs, 1, List.forall_mem_singleton.mpr (by decide), by decide⟩
    else ⟨[115], .sysfs, 3, List.forall_mem_singleton.mpr (by decide), by decide⟩
  memory := ⟨sampleNodes, fun _ => ⟨0, 0⟩, fun _ _ => 0, []⟩
  resources _ := ⟨0, 0, none⟩

/-- All names of the trees are proper. -/
theorem sampleSystem_mounted : Mounted sampleSystem := by
  have siblings (node : Nat) : Siblings sampleNodes node := by
    by_cases first : node = 1
    · subst first
      refine ⟨by decide, ?_, by decide⟩
      exact List.forall_mem_singleton.mpr (word_of_all [99] (by decide) (by decide))
    · by_cases second : node = 2
      · subst second
        refine ⟨by decide, ?_, by decide⟩
        exact List.forall_mem_singleton.mpr (word_of_all [100] (by decide) (by decide))
      · have leaf : (sampleNodes node).children = [] := by simp [sampleNodes, first, second]
        constructor
        · rw [leaf]
          exact List.nodup_nil
        · rw [leaf]
          exact nofun
        · rw [leaf]
          exact nofun
  refine ⟨by decide, List.forall_mem_cons.mpr ⟨?_, List.forall_mem_singleton.mpr ?_⟩, ?_⟩
  · exact List.forall_mem_singleton.mpr ⟨by decide, by decide⟩
  · exact List.forall_mem_singleton.mpr ⟨by decide, by decide⟩
  · intro volume _ names node _
    exact siblings node

/-- From `a:/b`, the path `../c/./d/` leads to the file `d`. -/
theorem path_lookup_sample :
    let path := (Form.relative dotdot [[99], dot, [100]] true).path
    let buffer : Buffer := ⟨fun _ => 0, 0⟩
    vfsOpen sampleSystem sampleCwd buffer path = .ok ⟨1, 0, 3, none, .ramfs⟩ ∧
      vfsStat sampleSystem sampleCwd buffer path = .ok ⟨.file, 0⟩ ∧
      vfsListdir sampleSystem sampleCwd buffer path 4 = .error .enotdir := by
  obtain ⟨names, folded, found, _⟩ := path_lookup_exact sampleSystem sampleSystem_mounted sampleCwd [[98]]
    sampleCwd_canonical (Form.relative dotdot [[99], dot, [100]] true) samplePath_shaped (by decide)
    ⟨fun _ => 0, 0⟩ samplePath_accepted
  obtain rfl : [[100], [99]] = names := by
    rw [← Option.some.injEq, ← folded]
    decide
  have leads : Leads sampleSystem [97] [[99], [100]] 1 3 :=
    ⟨by decide, rfl, @Follows.down sampleNodes 1 2 3 [[100]] (by decide)
      (@Follows.down sampleNodes 2 3 3 [] (by decide) (.here 3))⟩
  obtain ⟨opened, status, listed⟩ := found 1 3 leads ⟨fun _ => 0, 0⟩
  exact ⟨opened, status, listed 4⟩

end Asym.PathLookup
