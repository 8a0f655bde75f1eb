import Asym.EventRuns
import Asym.WorkingDirectory

/-!
# Threads that change the working directory

The threads of a process share one context. `vfs_chdir` takes the lock of the context three
times: in its own parse of the path, in the parse that `vfs_stat` makes, and for the copy.
Other threads run in between. The string that is copied is the one of the first parse,
while the directory was found with the second.

Nothing is assumed of the names in the file system. A name may be empty, so that a stored
string may end with a separator, and is then a path to the node above.
-/

namespace Asym.ChdirRaces

open PathParser PathStack PathRuns PathResolution PathBounds PathLookup PathShapes NodeTrees Ramfs
  WorkingDirectory

/-- A file system in which only directories have children. -/
structure FixedSystem where
  system : System
  directories : ∀ node, (system.memory.nodes node).children ≠ [] →
    (system.memory.nodes node).type ≠ ramfsFile

/-- Where a thread is in `vfs_chdir`. Between the first parse and the status it holds the
path and the parsed string; the working directory of the first parse is remembered here
only. -/
inductive Phase where
  | idle
  | parsed (seen : Cwd) (path text : List UInt8)
  | checked (text : List UInt8)

/-- The context, the threads, and the strings that were copied into the context. -/
structure Process where
  cwd : Cwd
  phase : Nat → Phase
  stored : List (List UInt8)

/-- A step of a thread between two uses of the lock. Each parse has a buffer with arbitrary
bytes. -/
inductive Event where
  | parse (thread : Nat) (path : List UInt8) (out : Buffer)
  | stat (thread : Nat) (out : Buffer)
  | store (thread : Nat)

/-- The process with a thread somewhere else. -/
def Process.enter (process : Process) (thread : Nat) (phase : Phase) : Process :=
  { process with phase := Function.update process.phase thread phase }

/-- The process after a step. A call that fails leaves the thread idle. -/
def step (system : System) (process : Process) : Event → Option Process
  | .parse thread path out =>
      match process.phase thread with
      | .idle =>
          if ∀ ch ∈ path, ch ≠ 0 then
            match parsedText process.cwd out path with
            | none => some process
            | some text => some (process.enter thread (.parsed process.cwd path text))
          else none
      | _ => none
  | .stat thread out =>
      match process.phase thread with
      | .parsed _ path text =>
          match vfsStat system process.cwd out path with
          | .error _ => some (process.enter thread .idle)
          | .ok info =>
              if info.type ≠ .dir then some (process.enter thread .idle)
              else some (process.enter thread (.checked text))
      | _ => none
  | .store thread =>
      match process.phase thread with
      | .checked text =>
          (cwdOf text).map fun cwd => { process.enter thread .idle with cwd := cwd, stored := text :: process.stored }
      | _ => none

/-- A process as `vfs_context_init` leaves its context. -/
def start : Process := { cwd := contextInit, phase := fun _ => .idle, stored := [] }

/-- The file system reports an existing directory for a path, from any working directory. -/
def ReportsDirectory (system : System) (path : List UInt8) : Prop :=
  ∀ cwd out, ∃ info, vfsStat system cwd out path = .ok info ∧ info.type = .dir

/-- All strings that were copied are paths of existing directories. -/
def StoredDirectories (system : System) (process : Process) : Prop :=
  ∀ text ∈ process.stored, ReportsDirectory system text

/-- A parse stays inside its buffer, and the parse in `vfs_stat` resolves the path in the
present working directory as the first parse did in the one that it saw. -/
def Undisturbed (process : Process) : Event → Prop
  | .parse _ path _ => PathLeavesRoom process.cwd path
  | .stat thread out => ∀ seen path text, process.phase thread = .parsed seen path text →
      PathLeavesRoom process.cwd path ∧ parsedText process.cwd out path = parsedText seen out path
  | .store _ => True

section Reparse

variable {nodes : Nat → Node}

/-- A traversal along names that end with an empty one also finds the node above, which
has a child. The induction is on the names. -/
theorem traverse_settle {root last : Nat} {names : List Segment} (fuel : Nat)
    (plain : ∀ name ∈ names, ∀ ch ∈ name, endOfName ch = false)
    (found : traverseFrom nodes nameSeparator fuel root (rooted names false) = some last) :
    ∃ settled, traverseFrom nodes nameSeparator fuel root (rooted (settle names) false) = some settled ∧
      (settled = last ∨ (nodes settled).children ≠ []) := by
  induction names generalizing root fuel with
  | nil => exact ⟨last, found, .inl rfl⟩
  | cons name later ih =>
    cases fuel with
    | zero => cases found
    | succ fuel =>
      have shape (others : List Segment) :
          rooted (name :: others) false = nameSeparator :: (name ++ rooted others false) := by simp [rooted]
      have plainName := plain name List.mem_cons_self
      have head (others : List Segment) :
          charAt (nameSeparator :: (name ++ rooted others false)) = nameSeparator := rfl
      rw [shape, traverseFrom, head, if_neg (by decide)] at found
      simp only [if_true, List.tail_cons, strchr_rooted plainName] at found
      cases child : nodeFind nodes root (name ++ rooted later false) nameSeparator with
      | none => simp [child] at found
      | some next =>
        simp only [child] at found
        rw [settle]
        by_cases lastEmpty : name = [] ∧ later = []
        · refine ⟨root, ?_, .inr (List.ne_nil_of_mem (List.mem_of_find?_eq_some child))⟩
          rw [if_pos lastEmpty]
          rfl
        · rw [if_neg lastEmpty, shape, traverseFrom, head, if_neg (by decide)]
          simp only [if_true, List.tail_cons, strchr_rooted plainName,
            nodeFind_rooted nodes root plainName (settle later) later, child]
          cases later with
          | nil => exact ⟨last, found, .inl rfl⟩
          | cons second others =>
            obtain ⟨settled, reached, same⟩ := ih fuel
              (fun other member => plain other (List.mem_cons_of_mem name member)) found
            refine ⟨settled, ?_, same⟩
            cases rest : settle (second :: others) with
            | nil =>
              rw [rest] at reached
              cases fuel with
              | zero => cases reached
              | succ fuel => exact reached
            | cons third more =>
              rw [rest] at reached
              exact reached

end Reparse

section Runs

/-- A string that the parser can leave, and for which a directory is found. -/
def Checked (system : System) (text : List UInt8) : Prop :=
  ∃ label names info, Shaped label names ∧ text = spell label names ∧
    statText system text = .ok info ∧ info.type = .dir

/-- `volume_get` reads nothing behind the label. -/
theorem volumeGet_rest (system : System) {label : List UInt8} (labelled : Labelled label) (first second : List UInt8) :
    volumeGet system (label ++ labelSeparator :: first) = volumeGet system (label ++ labelSeparator :: second) := by
  have same : Words.word VolumeLifetimes.endOfLabel (label ++ labelSeparator :: first) =
      Words.word VolumeLifetimes.endOfLabel (label ++ labelSeparator :: second) := by
    rw [Words.word_before labelled.goesOn (by decide), Words.word_before labelled.goesOn (by decide)]
  rw [volumeGet, volumeGet]
  congr 1
  funext volume
  rw [VolumeLifetimes.labelCompare, VolumeLifetimes.labelCompare, labelCompareFrom_eq, labelCompareFrom_eq]
  exact Words.compareUpTo_congr (by decide) _ rfl same

/-- What `vfs_stat` finds for a shaped string. -/
theorem statText_eq (system : System) {label : List UInt8} {names : List Segment} (labelled : Labelled label)
    {volume : Nat} (got : volumeGet system (spell label names) = some volume) :
    statText system (spell label names) =
      atNode system.memory (system.volume volume).root (rooted names false) (statNode system volume) := by
  obtain ⟨call, present, calls⟩ := stat_acts system volume
  have below : rootPath (spell label names) = rooted names false := rootPath_eq labelled.plain names
  simp only [statText, got, present, calls, below]

/-- A node with children is reported as a directory. -/
theorem statNode_directory (fixed : FixedSystem) (volume node : Nat)
    (parent : (fixed.system.memory.nodes node).children ≠ []) :
    ∃ info, statNode fixed.system volume node = .ok info ∧ info.type = .dir := by
  have type := fixed.directories node parent
  have notResource : (fixed.system.memory.nodes node).type ≠ sysfsResource := type
  rw [statNode]
  split
  · exact ⟨⟨.dir, 0⟩, by rw [ramfsStatNode, if_neg type], rfl⟩
  · exact ⟨⟨.dir, 0⟩, by rw [sysfsStatNode, if_neg notResource], rfl⟩

/-- If a directory is found for a shaped string, one is found for the string without a
separator at its end. -/
theorem statText_settle (fixed : FixedSystem) {label : List UInt8} {names : List Segment}
    (shaped : Shaped label names) {info : Stat} (reported : statText fixed.system (spell label names) = .ok info)
    (directory : info.type = .dir) :
    ∃ info, statText fixed.system (spell label (settle names)) = .ok info ∧ info.type = .dir := by
  cases got : volumeGet fixed.system (spell label names) with
  | none => simp [statText, got] at reported
  | some volume =>
    have gotSettled : volumeGet fixed.system (spell label (settle names)) = some volume :=
      (volumeGet_rest fixed.system shaped.labelled _ _).trans got
    rw [statText_eq fixed.system shaped.labelled got, atNode] at reported
    rw [statText_eq fixed.system shaped.labelled gotSettled, atNode]
    cases traversed : nodeTraverse fixed.system.memory.nodes (fixed.system.volume volume).root (rooted names false)
        nameSeparator with
    | none => simp [traversed] at reported
    | some last =>
      rw [traversed] at reported
      have plain (name : Segment) (member : name ∈ names) := (shaped.pushed name member).plain
      obtain ⟨settled, reached, same⟩ := traverse_settle _ plain traversed
      have shorter : (rooted (settle names) false).length ≤ (rooted names false).length := by
        have length (others : List Segment) : (rooted others false).length = room others := by
          rw [rooted, room, List.length_append, List.length_flatMap]
          rfl
        rw [length, length]
        exact settle_room names
      have found : nodeTraverse fixed.system.memory.nodes (fixed.system.volume volume).root
          (rooted (settle names) false) nameSeparator = some settled := by
        rw [nodeTraverse, traverseFrom_fuel _ ((rooted names false).length + 1) _ _ (Nat.lt_succ_self _)
          (Nat.lt_succ_of_le shorter)]
        exact reached
      rw [found]
      rcases same with rfl | parent
      · exact ⟨info, reported, directory⟩
      · exact statNode_directory fixed volume settled parent

/-- A checked string is a path for which a directory is reported. -/
theorem Checked.reports {fixed : FixedSystem} {text : List UInt8} (checked : Checked fixed.system text) :
    ReportsDirectory fixed.system text := by
  obtain ⟨label, names, info, shaped, rfl, reported, directory⟩ := checked
  intro cwd out
  rw [vfsStat_eq, parsedText_spell shaped cwd out, Option.elim_some]
  exact statText_settle fixed shaped reported directory

/-- What a thread holds. -/
def Holds (system : System) : Phase → Prop
  | .idle => True
  | .parsed seen path text => (∀ ch ∈ path, ch ≠ 0) ∧ (∃ label names, Shaped label names ∧ text = spell label names) ∧
      ∀ out, parsedText seen out path = some text
  | .checked text => Checked system text

/-- What holds between the steps of an undisturbed run. -/
structure Sound (system : System) (process : Process) : Prop where
  cwd : ∃ names, Spelled process.cwd names
  phase : ∀ thread, Holds system (process.phase thread)
  stored : ∀ text ∈ process.stored, Checked system text

/-- The first process is sound. -/
theorem start_sound (system : System) : Sound system start :=
  ⟨⟨[], contextInit_standing.spelled⟩, fun _ => trivial, nofun⟩

/-- A thread that goes somewhere else leaves the rest as it is. -/
theorem Sound.enter {system : System} {process : Process} (sound : Sound system process) (thread : Nat)
    {phase : Phase} (holds : Holds system phase) : Sound system (process.enter thread phase) := by
  refine ⟨sound.cwd, fun other => ?_, sound.stored⟩
  by_cases same : other = thread
  · subst same
    simpa [Process.enter] using holds
  · simpa [Process.enter, Function.update_of_ne same] using sound.phase other

/-- The first parse. -/
theorem parse_sound {system : System} {process next : Process} (sound : Sound system process) (thread : Nat)
    (path : List UInt8) (out : Buffer) (room : PathLeavesRoom process.cwd path)
    (taken : step system process (.parse thread path out) = some next) : Sound system next := by
  obtain ⟨cwdNames, spelled⟩ := sound.cwd
  rw [step] at taken
  cases phase : process.phase thread with
  | idle =>
    simp only [phase] at taken
    obtain ⟨terminated, result⟩ := Option.ite_none_right_eq_some.mp taken
    rcases parsedText_shaped spelled path terminated room with refused | ⟨label, names, shaped, left⟩
    · rw [refused out] at result
      obtain rfl := Option.some.inj result
      exact sound
    · rw [left out] at result
      obtain rfl := Option.some.inj result
      exact sound.enter thread ⟨terminated, ⟨label, names, shaped, rfl⟩, left⟩
  | parsed seen path text => simp [phase] at taken
  | checked text => simp [phase] at taken

/-- The parse and the lookup in `vfs_stat`. The lookup is of the string that the thread
holds. -/
theorem stat_sound {system : System} {process next : Process} (sound : Sound system process) (thread : Nat)
    (out : Buffer) (undisturbed : Undisturbed process (.stat thread out))
    (taken : step system process (.stat thread out) = some next) : Sound system next := by
  rw [step] at taken
  cases phase : process.phase thread with
  | idle => simp [phase] at taken
  | checked text => simp [phase] at taken
  | parsed seen path text =>
    have holds := sound.phase thread
    rw [phase] at holds
    obtain ⟨_, ⟨label, names, shaped, spelled⟩, first⟩ := holds
    obtain ⟨_, again⟩ := undisturbed seen path text phase
    have looked := vfsStat_eq system process.cwd out path
    rw [again, first out, Option.elim_some] at looked
    simp only [phase] at taken
    cases reported : vfsStat system process.cwd out path with
    | error error =>
      simp only [reported] at taken
      obtain rfl := Option.some.inj taken
      exact sound.enter thread trivial
    | ok info =>
      simp only [reported] at taken
      by_cases directory : info.type = .dir
      · rw [if_neg (not_not.mpr directory)] at taken
        obtain rfl := Option.some.inj taken
        exact sound.enter thread ⟨label, names, info, shaped, spelled, looked.symm.trans reported, directory⟩
      · rw [if_pos directory] at taken
        obtain rfl := Option.some.inj taken
        exact sound.enter thread trivial

/-- The copy into the context. -/
theorem store_sound {system : System} {process next : Process} (sound : Sound system process) (thread : Nat)
    (taken : step system process (.store thread) = some next) : Sound system next := by
  rw [step] at taken
  cases phase : process.phase thread with
  | idle => simp [phase] at taken
  | parsed seen path text => simp [phase] at taken
  | checked text =>
    have checked := sound.phase thread
    rw [phase] at checked
    obtain ⟨label, names, info, shaped, rfl, reported, directory⟩ := checked
    obtain ⟨cwd, stored, sameLabel, sameRest⟩ := cwdOf_spell shaped
    simp only [phase, stored, Option.map_some] at taken
    obtain rfl := Option.some.inj taken
    have idle := @Sound.enter system process sound thread .idle trivial
    refine ⟨⟨names, sameRest, sameLabel ▸ shaped.labelled, shaped.pushed⟩, idle.phase, ?_⟩
    exact List.forall_mem_cons.mpr ⟨⟨label, names, info, shaped, rfl, reported, directory⟩, sound.stored⟩

/-- In every run in which each parse stays inside its buffer and no parse in `vfs_stat` is
disturbed, all strings that are copied into the context are paths of directories. -/
theorem stored_directories (fixed : FixedSystem) (events : List Event)
    (undisturbed : EventRuns.Each (step fixed.system) start Undisturbed events) :
    EventRuns.Always (step fixed.system) start (StoredDirectories fixed.system) events := by
  have sound : EventRuns.Always (step fixed.system) start (Sound fixed.system) events := by
    refine EventRuns.always_of_each (start_sound fixed.system) ?_ events undisturbed
    intro process event next sound allowed taken
    cases event with
    | parse thread path out => exact parse_sound sound thread path out allowed taken
    | stat thread out => exact stat_sound sound thread out allowed taken
    | store thread => exact store_sound sound thread taken
  intro beginning process inside reached text member
  exact ((sound beginning process inside reached).stored text member).reports

/-- The directory `a` below the root of `sys`, with the directory `b` in it. -/
def nestedNodes (address : Nat) : Node :=
  if address = 1 then ⟨sysfsSystem, none, [2], []⟩
  else if address = 2 then ⟨sysfsSystem, some 1, [3], [97]⟩
  else ⟨sysfsSystem, some 2, [], [98]⟩

/-- The volume `sys` with this tree. -/
def nestedSystem : FixedSystem where
  system := {
    volumes := [1]
    volume := sysSystem.volume
    memory := ⟨nestedNodes, fun _ => ⟨0, 0⟩, fun _ _ => 0, []⟩
    resources _ := ⟨0, 0, none⟩ }
  directories node _ := by
    have type : (nestedNodes node).type = sysfsSystem := by
      rw [nestedNodes]
      split_ifs <;> rfl
    exact type.symm ▸ (by decide)

/-- A buffer without anything in it. -/
def blank : Buffer := ⟨fun _ => 0, 0⟩

/-- One thread changes to `a`. -/
def aloneRun : List Event := [.parse 1 [97] blank, .stat 1 blank, .store 1]

/-- While one thread changes to `b`, which is not below `sys:`, another one changes to
`a`. -/
def racingRun : List Event :=
  [.parse 1 [98] blank, .parse 2 [97] blank, .stat 2 blank, .store 2, .stat 1 blank, .store 1]

/-- Alone, the thread stores `sys:/a`, for which a directory is reported. -/
theorem stored_directories_sample :
    ∃ process, EventRuns.run (step nestedSystem.system) start aloneRun = some process ∧
      process.stored = [[115, 121, 115, 58, 47, 97]] ∧ StoredDirectories nestedSystem.system process := by
  have text : parsedText contextInit blank [97] = some [115, 121, 115, 58, 47, 97] := by decide +kernel
  have status : vfsStat nestedSystem.system contextInit blank [97] = .ok ⟨.dir, 0⟩ := by
    have found : (vfsStat nestedSystem.system contextInit blank [97]).toOption = some ⟨.dir, 0⟩ := by decide +kernel
    cases reported : vfsStat nestedSystem.system contextInit blank [97] with
    | error error =>
      rw [reported] at found
      cases found
    | ok info =>
      rw [reported] at found
      rw [Option.some.inj found]
  have room : PathLeavesRoom contextInit [97] := by
    refine (parse_path_inside_iff contextInit (fun _ => 0) [97] (List.forall_mem_singleton.mpr (by decide))).mp ?_
    decide +kernel
  let parsed := start.enter 1 (.parsed contextInit [97] [115, 121, 115, 58, 47, 97])
  let checked := parsed.enter 1 (.checked [115, 121, 115, 58, 47, 97])
  have first : step nestedSystem.system start (.parse 1 [97] blank) = some parsed := by
    simp [step, start, text, parsed]
  have phase : parsed.phase 1 = .parsed contextInit [97] [115, 121, 115, 58, 47, 97] := by
    simp [parsed, Process.enter]
  have here : parsed.cwd = contextInit := rfl
  have second : step nestedSystem.system parsed (.stat 1 blank) = some checked := by
    simp [step, phase, here, status, checked]
  have undisturbed : EventRuns.Each (step nestedSystem.system) start Undisturbed aloneRun := by
    refine EventRuns.each_cons room first (EventRuns.each_cons ?_ second ?_)
    · intro seen path found same
      rw [phase] at same
      obtain ⟨rfl, rfl, rfl⟩ := Phase.parsed.inj same
      exact ⟨room, rfl⟩
    · intro beginning event state next inside reached taken
      cases beginning with
      | nil =>
        obtain ⟨rfl, _⟩ := List.cons_prefix_cons.mp inside
        trivial
      | cons head tail =>
        have shorter := inside.length_le
        simp at shorter
  have done := stored_directories nestedSystem aloneRun undisturbed
  have observed : (EventRuns.run (step nestedSystem.system) start aloneRun).map Process.stored =
      some [[115, 121, 115, 58, 47, 97]] := by decide +kernel
  cases reached : EventRuns.run (step nestedSystem.system) start aloneRun with
  | none =>
    rw [reached] at observed
    cases observed
  | some process =>
    rw [reached] at observed
    exact ⟨process, rfl, Option.some.inj observed, done aloneRun process (List.prefix_refl _) reached⟩

/-- In the race, `sys:/b` is copied into the context, and no such path exists. -/
theorem missing_directory_stored :
    ∃ process, EventRuns.run (step nestedSystem.system) start racingRun = some process ∧
      process.cwd.text = [115, 121, 115, 58, 47, 98] ∧
      ¬ StoredDirectories nestedSystem.system process := by
  have observed : (EventRuns.run (step nestedSystem.system) start racingRun).map
      (fun process => (process.cwd.text, process.stored)) =
        some ([115, 121, 115, 58, 47, 98], [[115, 121, 115, 58, 47, 98], [115, 121, 115, 58, 47, 97]]) := by
    decide +kernel
  have missing : (vfsStat nestedSystem.system contextInit blank [115, 121, 115, 58, 47, 98]).toBool = false := by
    decide +kernel
  cases reached : EventRuns.run (step nestedSystem.system) start racingRun with
  | none =>
    rw [reached] at observed
    cases observed
  | some process =>
    rw [reached] at observed
    obtain ⟨text, stored⟩ := Prod.mk.inj (Option.some.inj observed)
    refine ⟨process, rfl, text, fun directories => ?_⟩
    obtain ⟨info, reported, _⟩ := directories [115, 121, 115, 58, 47, 98]
      (stored ▸ List.mem_cons_self) contextInit blank
    rw [reported] at missing
    cases missing

end Runs

end Asym.ChdirRaces
