import Asym.SysfsTree

/-!
# Exposed resources are found

Resources are exposed in `sysfs` under a path and a file name, and hidden again. The history of
these calls has a catalogue. As long as it is consistent, the tree mirrors it: each directory is
there once, the full path of a resource leads to this resource, nothing else is a resource, and the
listing of a directory is that of the catalogue.

`sysfs_expose` walks a path by `name_first` and `name_next` and names a directory by `name_copy`,
where lookup walks by `strchr`. For names shorter than `MAX_NAME` both cut a path at the same places.
-/

namespace Asym.SysfsInverse

open PathParser PathStack PathResolution VolumeLifetimes NodeTrees Ramfs Listings Catalogues SysfsTree
open PathLookup hiding Resource

/-- The path of a directory: a single separator, or the names behind separators. -/
def pathText (names : List Segment) : List UInt8 :=
  if names = [] then [nameSeparator] else rooted names false

/-- The rest of a path from a name on, or `NULL` behind the last one. -/
def restOf : List Segment → Option (List UInt8)
  | [] => none
  | name :: later => some (name ++ rooted later false)

/-- A name that fits into a node. -/
def Fits (name : Segment) : Prop := Word name ∧ name.length < maxName

/-- `name_first` gives the rest from the first name on. -/
theorem nameFirst_pathText {names : List Segment} (words : ∀ name ∈ names, Word name) :
    nameFirst (pathText names) = restOf names := by
  cases names with
  | nil => rfl
  | cons name later =>
    obtain ⟨first, others, rfl⟩ := List.exists_cons_of_ne_nil (words name List.mem_cons_self).1
    have plain := (words _ List.mem_cons_self).2 first List.mem_cons_self
    have shape : pathText ((first :: others) :: later) = nameSeparator :: first :: (others ++ rooted later false) := by
      simp [pathText, rooted]
    have nonzero : first ≠ 0 := by
      rintro rfl
      exact absurd plain (by decide)
    rw [shape, nameFirst, restOf]
    simp [charAt, nonzero, nameSeparator]

/-- `name_next` gives the rest from the next name on. -/
theorem nameNext_rest {name : Segment} (plain : ∀ ch ∈ name, endOfName ch = false) (later : List Segment) :
    nameNext (name ++ rooted later false) = restOf later := by
  have skipped : (name ++ rooted later false).dropWhile (· ≠ nameSeparator) =
      (rooted later false).dropWhile (· ≠ nameSeparator) := by
    apply List.dropWhile_append_of_pos
    intro ch member
    rw [decide_eq_true_eq]
    rintro rfl
    exact ends_plain plain member
  rw [nameNext, skipped]
  cases later with
  | nil => rfl
  | cons next others => simp [rooted, restOf]

/-- `name_copy` copies a name with enough turns. -/
theorem copyUpTo_word {name : Segment} (plain : ∀ ch ∈ name, endOfName ch = false) (later : List Segment)
    (turns : Nat) (enough : name.length ≤ turns) : copyUpTo turns (name ++ rooted later false) = name := by
  induction name generalizing turns with
  | nil =>
    cases turns with
    | zero => rfl
    | succ turns =>
      rw [List.nil_append, copyUpTo, charAt_rooted, if_pos]
      split_ifs <;> rfl
  | cons ch others ih =>
    rw [List.forall_mem_cons] at plain
    rw [List.length_cons] at enough
    obtain ⟨fewer, rfl⟩ := Nat.exists_eq_add_one_of_ne_zero (Nat.ne_of_gt (Nat.zero_lt_of_lt enough))
    have head : charAt (ch :: others ++ rooted later false) = ch := rfl
    have tail : (ch :: others ++ rooted later false).tail = others ++ rooted later false := rfl
    rw [copyUpTo, head, tail, plain.1, if_neg Bool.false_ne_true,
      ih plain.2 fewer (Nat.le_of_succ_le_succ enough)]

/-- `name_copy` copies a name that fits into a node. -/
theorem nameCopy_word {name : Segment} (fits : Fits name) (later : List Segment) :
    nameCopy (name ++ rooted later false) = name :=
  copyUpTo_word fits.1.2 later (maxName - 1) (Nat.le_sub_one_of_lt fits.2)

section Expose

variable (allocator : Allocator) {root : Nat} {memory : Memory} {ledger : Ledger}

/-- What a walk of `sysfs_expose` leaves: a tree that mirrors a ledger with the same leaves, and the
node at the end of the walk. -/
structure Walked (memory : Memory) (root : Nat) (before after : Ledger) (items : List (Item Segment))
    (names : List Segment) (last : Nat) : Prop where
  mirrors : Mirrors memory root after
  items : after.map Prod.fst = items
  follows : Follows memory.nodes root names last
  leaves : (after.filter fun entry => entry.1.leaf) = before.filter fun entry => entry.1.leaf

/-- One turn of the walk goes to the directory with the next name. It is made if it is not there. -/
theorem exposeName_walked (mirrors : Mirrors memory root ledger) {above : List Segment} {parent : Nat}
    (followed : Follows memory.nodes root above parent) {name : Segment} (fits : Fits name)
    (later : List Segment)
    (clear : ∀ entry ∈ ledger, entry.1.leaf = true → entry.1.path ≠ above ∧ entry.1.path ≠ above ++ [name]) :
    ∃ after, Walked (exposeName allocator memory parent (name ++ rooted later false)).1 root ledger after
      (makeFolder (ledger.map Prod.fst) above name) (above ++ [name])
      (exposeName allocator memory parent (name ++ rooted later false)).2 := by
  have siblings := mirrors.wellNamed above parent followed
  rw [exposeName]
  cases found : nodeFind memory.nodes parent (name ++ rooted later false) nameSeparator with
  | some child =>
    obtain ⟨member, named⟩ := (siblings.nodeFind_iff fits.1 later child).mp found
    obtain ⟨item, known, above_⟩ := (mirrors.mem_children followed child).mp member
    have own : item.name = name := (mirrors.data _ known).1.symm.trans named
    have path : item.path = above ++ [name] := by rw [Item.path, above_, own]
    have folder : item = ⟨above, name, false⟩ := by
      cases leaf : item.leaf with
      | true => exact absurd path (clear _ known leaf).2
      | false => rw [← above_, ← own, ← leaf]
    have there : ⟨above, name, false⟩ ∈ ledger.map Prod.fst := folder ▸ List.mem_map_of_mem known
    refine ⟨ledger, mirrors, by rw [makeFolder, if_pos there], ?_, rfl⟩
    rw [← path]
    exact mirrors.follows_item known
  | none =>
    have vacant : ∀ entry ∈ ledger, entry.1.path ≠ (⟨above, name, false⟩ : Item Segment).path := by
      intro entry known same
      obtain ⟨above_, own⟩ := List.append_inj' same rfl
      have child := (mirrors.mem_children followed entry.2).mpr ⟨entry.1, known, above_⟩
      have named := (mirrors.data entry known).1.trans (List.singleton_inj.mp own)
      rw [(siblings.nodeFind_iff fits.1 later entry.2).mpr ⟨child, named⟩] at found
      cases found
    have absent : ⟨above, name, false⟩ ∉ ledger.map Prod.fst := by
      intro there
      obtain ⟨entry, known, same⟩ := List.mem_map.mp there
      exact vacant entry known (by rw [same])
    have pushed : Mirrors (pushNew allocator memory parent name (nodeType ⟨above, name, false⟩)) root
        (ledger ++ [(⟨above, name, false⟩, memory.next allocator)]) :=
      mirrors.push followed fits vacant fun entry known leaf => (clear entry known leaf).1
    dsimp only
    rw [nameCopy_word fits]
    refine ⟨_, pushed, ?_, pushed.follows_item (List.mem_append_right _ (List.mem_singleton.mpr rfl)), ?_⟩
    · rw [List.map_append, makeFolder, if_neg absent]
      rfl
    · simp [List.filter_append]

/-- The walk goes down along the names, and makes the directories that are missing. The induction is
on the names; no leaf is on the way. -/
theorem exposeFrom_walked (mirrors : Mirrors memory root ledger) {above : List Segment} {parent : Nat}
    (followed : Follows memory.nodes root above parent) {names : List Segment} (fits : ∀ name ∈ names, Fits name)
    (clear : ∀ entry ∈ ledger, entry.1.leaf = true → ¬ entry.1.path <+: above ++ names)
    (fuel : Nat) (enough : names.length < fuel) :
    ∃ made after, exposeFrom allocator fuel memory parent (restOf names) = some made ∧
      Walked made.1 root ledger after (makeFolders (ledger.map Prod.fst) above names) (above ++ names) made.2 := by
  induction names generalizing memory ledger above parent fuel with
  | nil =>
    obtain ⟨turns, rfl⟩ := Nat.exists_eq_add_one_of_ne_zero (Nat.ne_of_gt enough)
    refine ⟨(memory, parent), ledger, rfl, mirrors, rfl, ?_, rfl⟩
    rw [List.append_nil]
    exact followed
  | cons name later ih =>
    obtain ⟨turns, rfl⟩ := Nat.exists_eq_add_one_of_ne_zero (Nat.ne_of_gt (Nat.zero_lt_of_lt enough))
    rw [List.forall_mem_cons] at fits
    have onWay : ∀ entry ∈ ledger, entry.1.leaf = true →
        entry.1.path ≠ above ∧ entry.1.path ≠ above ++ [name] := by
      intro entry known leaf
      refine ⟨fun same => clear entry known leaf ?_, fun same => clear entry known leaf ?_⟩
      · rw [same]
        exact List.prefix_append _ _
      · rw [same]
        exact ⟨later, by simp⟩
    obtain ⟨between, turn⟩ := exposeName_walked allocator mirrors followed fits.1 later onWay
    have clearLater : ∀ entry ∈ between, entry.1.leaf = true → ¬ entry.1.path <+: (above ++ [name]) ++ later := by
      intro entry known leaf
      have older : entry ∈ ledger.filter fun entry => entry.1.leaf := by
        rw [← turn.leaves]
        exact List.mem_filter.mpr ⟨known, leaf⟩
      rw [List.append_assoc, List.singleton_append]
      exact clear entry (List.mem_filter.mp older).1 leaf
    obtain ⟨made, after, runs, walked⟩ := ih turn.mirrors turn.follows fits.2 clearLater turns
      (Nat.lt_of_succ_lt_succ enough)
    refine ⟨made, after, ?_, walked.mirrors, ?_, ?_, walked.leaves.trans turn.leaves⟩
    · rw [restOf, exposeFrom, nameNext_rest fits.1.1.2]
      exact runs
    · rw [walked.items, turn.items, makeFolders]
    · have joined := walked.follows
      rwa [List.append_assoc, List.singleton_append] at joined

/-- A walk takes no more turns than its path has characters. -/
theorem length_le_pathText (names : List Segment) : names.length ≤ (pathText names).length := by
  rw [pathText]
  split_ifs with none
  · simp [none]
  · exact length_le_rooted names

/-- `sysfs_expose` makes the directories that are missing and the resource. -/
theorem sysfsExpose_mirrors {sysfs : Sysfs} (mirrors : Mirrors sysfs.memory root ledger)
    {names : List Segment} {filename : Segment} (fits : ∀ name ∈ names, Fits name) (fitsOwn : Fits filename)
    (clear : ∀ entry ∈ ledger, entry.1.leaf = true → ¬ entry.1.path <+: names)
    (vacant : ∀ item ∈ makeFolders (ledger.map Prod.fst) [] names, item.path ≠ names ++ [filename])
    (arguments : Arguments) :
    ∃ after resource walked, sysfsExpose allocator root sysfs (pathText names) filename arguments =
        some (after, resource) ∧
      Mirrors after.memory root (walked ++ [(⟨names, filename, true⟩, resource)]) ∧
      walked.map Prod.fst = makeFolders (ledger.map Prod.fst) [] names ∧
      (walked.filter fun entry => entry.1.leaf) = (ledger.filter fun entry => entry.1.leaf) ∧
      after.resources = Function.update sysfs.resources resource arguments.resource := by
  obtain ⟨made, walked, runs, walk⟩ := exposeFrom_walked allocator mirrors (.here root) fits clear
    ((pathText names).length + 1) (Nat.lt_succ_of_le (length_le_pathText names))
  have vacantHere : ∀ entry ∈ walked, entry.1.path ≠ (⟨names, filename, true⟩ : Item Segment).path := by
    intro entry known
    refine vacant entry.1 ?_
    rw [← walk.items]
    exact List.mem_map_of_mem known
  have folder : ∀ entry ∈ walked, entry.1.leaf = true → entry.1.path ≠ names := by
    intro entry known leaf same
    have older : entry ∈ ledger.filter fun entry => entry.1.leaf := by
      rw [← walk.leaves]
      exact List.mem_filter.mpr ⟨known, leaf⟩
    exact clear entry (List.mem_filter.mp older).1 leaf (by rw [same])
  have pushed : Mirrors (pushNew allocator made.1 made.2 filename (nodeType ⟨names, filename, true⟩)) root
      (walked ++ [(⟨names, filename, true⟩, made.1.next allocator)]) :=
    walk.mirrors.push walk.follows fitsOwn vacantHere folder
  refine ⟨⟨pushNew allocator made.1 made.2 filename sysfsResource,
    Function.update sysfs.resources (made.1.next allocator) arguments.resource⟩, _, walked, ?_, pushed, walk.items,
    walk.leaves, rfl⟩
  rw [sysfsExpose, nameFirst_pathText (fun name member => (fits name member).1), runs]
  rfl

end Expose

/-- `sysfs`, and the resources that callers hold by their full paths. -/
structure State where
  sysfs : Sysfs
  handles : List (List Segment × Nat)

section Runs

variable (allocator : Allocator) (callback : Nat → Sysfs → Nat → Sysfs) (memory : Memory) (root : Nat)
  (resources : Nat → Resource) (arguments : List Segment → Arguments)

/-- One call: a resource is exposed, or one that a caller holds is hidden. -/
def step (state : State) : Change Segment → Option State
  | .put parent name =>
      (sysfsExpose allocator root state.sysfs (pathText parent) name (arguments (parent ++ [name]))).map
        fun made => ⟨made.1, state.handles ++ [(parent ++ [name], made.2)]⟩
  | .drop path =>
      (state.handles.find? fun handle => handle.1 = path).map fun handle =>
        ⟨sysfsHide callback state.sysfs handle.2, state.handles.filter fun other => other.1 ≠ path⟩

/-- The calls of a history, from `sysfs_init` on. -/
def run (changes : List (Change Segment)) : Option State :=
  changes.foldlM (step allocator callback root arguments) ⟨⟨sysfsInit memory root, resources⟩, []⟩

end Runs

/-- A consistent history with names that fit. -/
structure Proper (changes : List (Change Segment)) : Prop where
  consistent : Consistent changes
  fits : ∀ parent name, .put parent name ∈ changes → (∀ above ∈ parent, Fits above) ∧ Fits name

/-- The state of a history: the tree mirrors a ledger for the catalogue, whose leaves are the resources
that callers hold, as they were exposed. -/
structure Reflects (root : Nat) (arguments : List Segment → Arguments) (changes : List (Change Segment))
    (state : State) (ledger : Ledger) : Prop where
  mirrors : Mirrors state.sysfs.memory root ledger
  items : ledger.map Prod.fst = replay changes
  handles : state.handles = (ledger.filter fun entry => entry.1.leaf).map fun entry => (entry.1.path, entry.2)
  stored : ∀ entry ∈ ledger, entry.1.leaf = true →
    state.sysfs.resources entry.2 = (arguments entry.1.path).resource

section Histories

variable {allocator : Allocator} {callback : Nat → Sysfs → Nat → Sysfs} {memory : Memory} {root : Nat}
  {resources : Nat → Resource} {arguments : List Segment → Arguments} {changes : List (Change Segment)}
  {state : State} {ledger : Ledger}

/-- The tree of `sysfs_init` mirrors the empty ledger. -/
theorem sysfsInit_mirrors (memory : Memory) (root : Nat) : Mirrors (sysfsInit memory root) root [] := by
  have own : (sysfsInit memory root).nodes root = ⟨sysfsSystem, none, [], rootName⟩ := by
    simp [sysfsInit, nodeInit]
  have leads : ∀ names node, Follows (sysfsInit memory root).nodes root names node ↔ names = [] ∧ node = root := by
    intro names node
    constructor
    · intro followed
      cases followed with
      | here => exact ⟨rfl, rfl⟩
      | down member =>
        rw [own] at member
        cases member
    · rintro ⟨rfl, rfl⟩
      exact .here node
  refine ⟨by simpa using leads, ?_, List.forall_mem_nil _, List.forall_mem_nil _,
    ⟨List.mem_cons_self, by rw [own]⟩, List.nodup_nil, List.nodup_nil, List.forall_mem_nil _, List.forall_mem_nil _⟩
  intro names node followed
  obtain ⟨-, rfl⟩ := (leads names node).mp followed
  rw [own]
  rfl

/-- Exposing a resource keeps the state reflected. -/
theorem Reflects.expose (reflects : Reflects root arguments changes state ledger) {parent : List Segment}
    {name : Segment} (proper : Proper (changes ++ [.put parent name])) :
    ∃ after ledger, step allocator callback root arguments state (.put parent name) = some after ∧
      Reflects root arguments (changes ++ [.put parent name]) after ledger := by
  obtain ⟨fits, fitsOwn⟩ := proper.fits parent name (List.mem_append_right _ (List.mem_singleton.mpr rfl))
  have clear : ∀ entry ∈ ledger, entry.1.leaf = true → ¬ entry.1.path <+: parent := by
    intro entry known
    refine proper.consistent.clear entry.1 ?_
    rw [← reflects.items]
    exact List.mem_map_of_mem known
  have vacant : ∀ item ∈ makeFolders (ledger.map Prod.fst) [] parent, item.path ≠ parent ++ [name] := by
    rw [reflects.items]
    exact proper.consistent.vacant
  obtain ⟨sysfs, resource, walked, exposed, mirrors, items, leaves, changed⟩ := sysfsExpose_mirrors
    allocator reflects.mirrors fits fitsOwn clear vacant (arguments (parent ++ [name]))
  refine ⟨⟨sysfs, state.handles ++ [(parent ++ [name], resource)]⟩, _, by rw [step, exposed]; rfl, mirrors, ?_, ?_, ?_⟩
  · rw [List.map_append, items, reflects.items, replay_snoc]
    rfl
  · rw [List.filter_append, leaves, List.map_append, ← reflects.handles]
    rfl
  · intro entry known leaf
    dsimp only
    rw [changed]
    rcases List.mem_append.mp known with older | new
    · have different : entry.2 ≠ resource := by
        intro same
        have addresses := mirrors.addresses
        rw [List.map_append, List.nodup_append] at addresses
        exact addresses.2.2 entry.2 (List.mem_map_of_mem older) resource (by simp) same
      have before : entry ∈ ledger.filter fun entry => entry.1.leaf := by
        rw [← leaves]
        exact List.mem_filter.mpr ⟨older, leaf⟩
      rw [Function.update_of_ne different]
      exact reflects.stored entry (List.mem_filter.mp before).1 leaf
    · rw [List.mem_singleton.mp new, Function.update_self]
      rfl

/-- The handles of a state are its leaves. -/
theorem Reflects.mem_handles (reflects : Reflects root arguments changes state ledger) (full : List Segment)
    (resource : Nat) : (full, resource) ∈ state.handles ↔
      ∃ item, (item, resource) ∈ ledger ∧ item.leaf = true ∧ item.path = full := by
  rw [reflects.handles, List.mem_map]
  constructor
  · rintro ⟨⟨item, address⟩, member, same⟩
    obtain ⟨known, leaf⟩ := List.mem_filter.mp member
    obtain ⟨rfl, rfl⟩ := Prod.mk.inj same
    exact ⟨item, known, leaf, rfl⟩
  · rintro ⟨item, known, leaf, rfl⟩
    exact ⟨(item, resource), List.mem_filter.mpr ⟨known, leaf⟩, rfl⟩

/-- The callers hold the resources that are there. -/
theorem Reflects.held (reflects : Reflects root arguments changes state ledger) :
    state.handles.map Prod.fst = live changes := by
  rw [reflects.handles, ← leaves_replay, ← reflects.items, List.filter_map, List.map_map, List.map_map]
  rfl

/-- Hiding a resource keeps the state reflected. -/
theorem Reflects.hide (reflects : Reflects root arguments changes state ledger)
    (noDelete : ∀ full, (arguments full).delete = none) {path : List Segment}
    (consistent : Consistent (changes ++ [.drop path])) :
    ∃ after ledger, step allocator callback root arguments state (.drop path) = some after ∧
      Reflects root arguments (changes ++ [.drop path]) after ledger := by
  have there := consistent.held
  rw [← reflects.held] at there
  obtain ⟨wanted, member, own⟩ := List.mem_map.mp there
  obtain ⟨handle, found⟩ : ∃ handle, (state.handles.find? fun handle => handle.1 = path) = some handle := by
    rw [← Option.isSome_iff_exists, List.find?_isSome]
    exact ⟨wanted, member, by simpa using own⟩
  obtain ⟨full, resource⟩ := handle
  obtain rfl : full = path := by simpa using List.find?_some found
  obtain ⟨item, known, leaf, rfl⟩ := (reflects.mem_handles full resource).mp (List.mem_of_find?_eq_some found)
  have kept : (state.sysfs.resources resource).delete = none := by
    rw [reflects.stored (item, resource) known leaf]
    exact noDelete item.path
  have onlyHere : ∀ entry ∈ ledger, entry.2 ≠ resource ↔ entry.1.path ≠ item.path := by
    intro entry member
    refine not_congr ⟨fun same => ?_, fun same => ?_⟩
    · have known' : (item, entry.2) ∈ ledger := same ▸ known
      rw [reflects.mirrors.same_item member known']
    · exact congrArg Prod.snd (reflects.mirrors.same_node member known same)
  have smaller : (ledger.filter fun entry => entry.2 ≠ resource) =
      ledger.filter fun entry => entry.1.path ≠ item.path := by
    apply List.filter_congr
    intro entry member
    rw [Bool.eq_iff_iff, decide_eq_true_eq, decide_eq_true_eq]
    exact onlyHere entry member
  refine ⟨⟨sysfsHide callback state.sysfs resource, state.handles.filter fun other => other.1 ≠ item.path⟩, _,
    by rw [step, found]; rfl, reflects.mirrors.hide callback known leaf kept, ?_, ?_, ?_⟩
  · rw [smaller, replay_snoc, ← reflects.items, Catalogues.apply, List.filter_map]
    rfl
  · dsimp only
    rw [smaller, reflects.handles, List.filter_map, List.filter_filter, List.filter_filter]
    congr 2
    funext entry
    exact Bool.and_comm _ _
  · intro entry member isLeaf
    obtain ⟨older, different⟩ := List.mem_filter.mp member
    have other : entry.2 ≠ resource := by simpa using different
    rw [← reflects.stored entry older isLeaf]
    simp only [sysfsHide]
    split_ifs
    · simp only [resourceFree, Function.update_self, kept, Function.update_of_ne other]
    · exact Function.update_of_ne other _ _

/-- Every proper history runs, and its state is reflected. The induction is on the calls made so far. -/
theorem run_reflects (noDelete : ∀ full, (arguments full).delete = none) (proper : Proper changes) :
    ∃ state ledger, run allocator callback memory root resources arguments changes = some state ∧
      Reflects root arguments changes state ledger := by
  induction changes using List.reverseRecOn with
  | nil => exact ⟨_, [], rfl, sysfsInit_mirrors memory root, rfl, rfl, nofun⟩
  | append_singleton changes change ih =>
    have earlier : Proper changes := ⟨proper.consistent.before, fun parent name member =>
      proper.fits parent name (List.mem_append_left _ member)⟩
    obtain ⟨state, ledger, runs, reflects⟩ := ih earlier
    have next : ∃ after ledger, step allocator callback root arguments state change = some after ∧
        Reflects root arguments (changes ++ [change]) after ledger := by
      cases change with
      | put parent name => exact reflects.expose proper
      | drop path => exact reflects.hide noDelete proper.consistent
    obtain ⟨after, grown, steps, reflected⟩ := next
    refine ⟨after, grown, ?_, reflected⟩
    rw [run, List.foldlM_append, ← run, runs]
    simp [steps]

end Histories

/-- `node_traverse` leads to nodes of the tree only, whatever the path. -/
theorem traverseFrom_follows {nodes : Nat → Node} {deliminator : UInt8} {fuel node last : Nat} {path : List UInt8}
    (traversed : traverseFrom nodes deliminator fuel node path = some last) :
    ∃ names, Follows nodes node names last := by
  induction fuel generalizing node path with
  | zero => cases traversed
  | succ fuel ih =>
    rw [traverseFrom] at traversed
    split_ifs at traversed
    · obtain rfl := Option.some.inj traversed
      exact ⟨[], .here node⟩
    all_goals
      dsimp only at traversed
      split at traversed
      · cases traversed
      · next child found =>
        have member := List.mem_of_find?_eq_some found
        split at traversed
        · obtain rfl := Option.some.inj traversed
          exact ⟨_, .down member (.here child)⟩
        · obtain ⟨names, followed⟩ := ih traversed
          exact ⟨_, .down member followed⟩

/-- The listing of a directory in a catalogue: its items in the order in which they were made. -/
def listing (changes : List (Change Segment)) (names : List Segment) : List DirEntry :=
  ((replay changes).filter fun item => item.parent = names).map fun item =>
    ⟨item.name, if item.leaf then .res else .dir⟩

/-- The directories of a history: the root, and those on the way to a resource that was ever exposed. -/
def Directory (changes : List (Change Segment)) (names : List Segment) : Prop :=
  names = [] ∨ ∃ parent name, .put parent name ∈ changes ∧ names <+: parent

/-- Lookup is the inverse of exposure: the directories are there once, the full paths of the resources
that callers hold lead to them as they were exposed, no path leads to another resource, and every
directory is listed. -/
structure Inverse (root : Nat) (arguments : List Segment → Arguments) (changes : List (Change Segment))
    (state : State) : Prop where
  directories : ∀ names, Directory changes names ↔ ∃ node, Follows state.sysfs.memory.nodes root names node ∧
    (state.sysfs.memory.nodes node).type = sysfsSystem
  once : ∀ names first second, Follows state.sysfs.memory.nodes root names first →
    Follows state.sysfs.memory.nodes root names second → first = second
  apart : ∀ first second node, Follows state.sysfs.memory.nodes root first node →
    Follows state.sysfs.memory.nodes root second node → first = second
  held : state.handles.map Prod.fst = live changes
  found : ∀ full resource, (full, resource) ∈ state.handles →
    nodeTraverse state.sysfs.memory.nodes root (rooted full false) nameSeparator = some resource ∧
      (state.sysfs.memory.nodes resource).type = sysfsResource ∧
      state.sysfs.resources resource = (arguments full).resource
  only : ∀ path node, nodeTraverse state.sysfs.memory.nodes root path nameSeparator = some node →
    (state.sysfs.memory.nodes node).type = sysfsResource → ∃ full, (full, node) ∈ state.handles
  hidden : ∀ parent name, .put parent name ∈ changes → parent ++ [name] ∉ live changes →
    nodeTraverse state.sysfs.memory.nodes root (rooted (parent ++ [name]) false) nameSeparator = none
  listed : ∀ names, Directory changes names → ∀ amount,
    sysfsListdir state.sysfs.memory root (rooted names false) amount =
      .ok ((listing changes names).take amount, (listing changes names).length)

section Lookup

variable {root : Nat} {arguments : List Segment → Arguments} {changes : List (Change Segment)}
  {state : State} {ledger : Ledger}

/-- The names on the way to a directory are words. -/
theorem Proper.words (proper : Proper changes) {names : List Segment} (directory : Directory changes names) :
    ∀ name ∈ names, Word name := by
  intro name inside
  rcases directory with rfl | ⟨parent, own, member, way⟩
  · cases inside
  · exact ((proper.fits parent own member).1 name (way.subset inside)).1

/-- The type of an item's node. -/
theorem Reflects.type_iff (reflects : Reflects root arguments changes state ledger)
    {entry : Item Segment × Nat} (member : entry ∈ ledger) :
    (state.sysfs.memory.nodes entry.2).type = sysfsResource ↔ entry.1.leaf = true := by
  rw [(reflects.mirrors.data entry member).2, nodeType]
  cases entry.1.leaf <;> decide

/-- A path leads to a directory, if and only if it is one of the history. -/
theorem Reflects.directory_iff (reflects : Reflects root arguments changes state ledger)
    (proper : Proper changes) (names : List Segment) : Directory changes names ↔
      ∃ node, Follows state.sysfs.memory.nodes root names node ∧
        (state.sysfs.memory.nodes node).type = sysfsSystem := by
  constructor
  · rintro (rfl | ⟨parent, name, member, way⟩)
    · exact ⟨root, .here root, reflects.mirrors.rooted.2⟩
    · rcases List.eq_nil_or_concat' names with rfl | ⟨above, own, rfl⟩
      · exact ⟨root, .here root, reflects.mirrors.rooted.2⟩
      · have there : (⟨above, own, false⟩ : Item Segment) ∈ replay changes := by
          rw [mem_replay proper.consistent, if_neg Bool.false_ne_true]
          exact ⟨(parent, name), mem_puts.mpr member, way⟩
        rw [← reflects.items] at there
        obtain ⟨⟨item, node⟩, known, rfl⟩ := List.mem_map.mp there
        exact ⟨node, reflects.mirrors.follows_item known, (reflects.mirrors.data _ known).2⟩
  · rintro ⟨node, followed, type⟩
    rcases (reflects.mirrors.follows names node).mp followed with ⟨rfl, -⟩ | ⟨item, known, rfl⟩
    · exact .inl rfl
    · have folder : ¬ item.leaf = true := by
        rw [← reflects.type_iff known, type]
        decide
      have there : item ∈ replay changes := by
        rw [← reflects.items]
        exact List.mem_map_of_mem known
      rw [mem_replay proper.consistent, if_neg folder] at there
      obtain ⟨put, member, way⟩ := there
      exact .inr ⟨put.1, put.2, mem_puts.mp member, way⟩

/-- The listing of a directory is that of the catalogue. -/
theorem Reflects.listdir (reflects : Reflects root arguments changes state ledger) (proper : Proper changes)
    {names : List Segment} (directory : Directory changes names) (amount : Nat) :
    sysfsListdir state.sysfs.memory root (rooted names false) amount =
      .ok ((listing changes names).take amount, (listing changes names).length) := by
  obtain ⟨node, followed, type⟩ := (reflects.directory_iff proper names).mp directory
  have traversed := (nodeTraverse_iff reflects.mirrors.wellNamed (proper.words directory) node).mpr followed
  have shown : (state.sysfs.memory.nodes node).children.map (entryOf state.sysfs.memory) = listing changes names := by
    rw [reflects.mirrors.children names node followed, listing, ← reflects.items, List.filter_map, List.map_map,
      List.map_map, Ledger.below]
    apply List.map_congr_left
    intro entry member
    have known := (List.mem_filter.mp member).1
    have kind := reflects.type_iff known
    rw [Function.comp_apply, entryOf, (reflects.mirrors.data entry known).1]
    simp only [Function.comp_apply, kind]
  rw [sysfsListdir, atNode, traversed]
  dsimp only
  rw [listdirNode_dir (by rw [type]; decide), List.map_take, shown, ← shown, List.length_map]

/-- In a reflected state lookup is the inverse of exposure. -/
theorem Reflects.inverse (reflects : Reflects root arguments changes state ledger) (proper : Proper changes) :
    Inverse root arguments changes state where
  directories := reflects.directory_iff proper
  once _ _ _ first second := reflects.mirrors.unique_node first second
  apart _ _ _ first second := reflects.mirrors.unique_path first second
  held := reflects.held
  found full resource member := by
    obtain ⟨item, known, leaf, rfl⟩ := (reflects.mem_handles full resource).mp member
    have there : item.path ∈ live changes := by
      rw [← reflects.held]
      exact List.mem_map_of_mem member
    obtain ⟨put, putMember, path⟩ := live_put there
    have fits := proper.fits put.1 put.2 (mem_puts.mp putMember)
    have words : ∀ name ∈ item.path, Word name := by
      rw [path, List.forall_mem_append, List.forall_mem_singleton]
      exact ⟨fun name inside => (fits.1 name inside).1, fits.2.1⟩
    refine ⟨(nodeTraverse_iff reflects.mirrors.wellNamed words resource).mpr
      (reflects.mirrors.follows_item known), (reflects.type_iff known).mpr leaf, ?_⟩
    exact reflects.stored (item, resource) known leaf
  only path node traversed type := by
    obtain ⟨names, followed⟩ := traverseFrom_follows traversed
    rcases (reflects.mirrors.follows names node).mp followed with ⟨rfl, rfl⟩ | ⟨item, known, rfl⟩
    · rw [reflects.mirrors.rooted.2] at type
      exact absurd type (by decide)
    · exact ⟨item.path, (reflects.mem_handles _ _).mpr ⟨item, known, (reflects.type_iff known).mp type, rfl⟩⟩
  hidden parent name member gone := by
    have fits := proper.fits parent name member
    have words : ∀ word ∈ parent ++ [name], Word word := by
      rw [List.forall_mem_append, List.forall_mem_singleton]
      exact ⟨fun word inside => (fits.1 word inside).1, fits.2.1⟩
    rw [Option.eq_none_iff_forall_ne_some]
    intro node traversed
    have followed := (nodeTraverse_iff reflects.mirrors.wellNamed words node).mp traversed
    rcases (reflects.mirrors.follows _ node).mp followed with ⟨none, -⟩ | ⟨item, known, path⟩
    · simp at none
    · have there : item ∈ replay changes := by
        rw [← reflects.items]
        exact List.mem_map_of_mem known
      rw [mem_replay proper.consistent, path] at there
      split_ifs at there
      · exact gone there
      · obtain ⟨put, putMember, way⟩ := there
        exact proper.consistent.not_above (mem_puts.mpr member) putMember way
  listed _ directory amount := reflects.listdir proper directory amount

end Lookup

/-- In every proper history of exposed and hidden resources, lookup is the inverse of exposure.

Proof: the tree reflects the history after each change, and what lookups find is read off it. -/
theorem expose_lookup_inverse (allocator : Allocator) (callback : Nat → Sysfs → Nat → Sysfs) (memory : Memory)
    (root : Nat) (resources : Nat → Resource) (arguments : List Segment → Arguments)
    (noDelete : ∀ full, (arguments full).delete = none) (changes : List (Change Segment))
    (proper : Proper changes) :
    ∃ state, run allocator callback memory root resources arguments changes = some state ∧
      Inverse root arguments changes state := by
  obtain ⟨state, ledger, runs, reflects⟩ := run_reflects noDelete proper
  exact ⟨state, runs, reflects.inverse proper⟩

/-- `/a/b`, `/ab/a` and `/c` are exposed, and `/a/b` is hidden. -/
def sampleChanges : List (Change Segment) :=
  [.put [[97]] [98], .put [[97, 98]] [97], .put [] [99], .drop [[97], [98]]]

/-- The sample is proper. -/
theorem sampleChanges_proper : Proper sampleChanges where
  consistent := {
    separate := by simp [sampleChanges, puts, Separate]
    present := by
      intro before path after same
      rcases before with - | ⟨first, - | ⟨second, - | ⟨third, - | ⟨fourth, rest⟩⟩⟩⟩
      all_goals simp [sampleChanges] at same
      obtain ⟨rfl, rfl, rfl, rfl, -⟩ := same
      decide }
  fits := by
    have short : ∀ name : Segment, name ≠ [] → name.all (fun ch => !endOfName ch) = true →
        name.length < maxName → Fits name := fun name present plain fits =>
      ⟨word_of_all name present plain, fits⟩
    intro parent name member
    simp only [sampleChanges, List.mem_cons, Change.put.injEq, reduceCtorEq, List.not_mem_nil, or_false] at member
    rcases member with ⟨rfl, rfl⟩ | ⟨rfl, rfl⟩ | ⟨rfl, rfl⟩
    · exact ⟨List.forall_mem_singleton.mpr (short _ (by decide) (by decide) (by decide)),
        short _ (by decide) (by decide) (by decide)⟩
    · exact ⟨List.forall_mem_singleton.mpr (short _ (by decide) (by decide) (by decide)),
        short _ (by decide) (by decide) (by decide)⟩
    · exact ⟨List.forall_mem_nil _, short _ (by decide) (by decide) (by decide)⟩

/-- After the sample, callers hold two resources, and the listing of the root has room for two of three
entries. -/
theorem sampleChanges_inverse : ∃ state,
    run bumpAllocator (fun _ sysfs _ => sysfs) ⟨fun _ => ⟨0, none, [], []⟩, fun _ => ⟨0, 0⟩, fun _ _ => 0, []⟩ 0
      (fun _ => ⟨0, 0, none, none, 0, false⟩) (fun _ => ⟨0, 0, none, none⟩) sampleChanges = some state ∧
    state.handles.map Prod.fst = [[[97, 98], [97]], [[99]]] ∧
    sysfsListdir state.sysfs.memory 0 (rooted [] false) 2 = .ok ([⟨[97], .dir⟩, ⟨[97, 98], .dir⟩], 3) := by
  obtain ⟨state, runs, inverse⟩ := expose_lookup_inverse bumpAllocator (fun _ sysfs _ => sysfs)
    ⟨fun _ => ⟨0, none, [], []⟩, fun _ => ⟨0, 0⟩, fun _ _ => 0, []⟩ 0 (fun _ => ⟨0, 0, none, none, 0, false⟩)
    (fun _ => ⟨0, 0, none, none⟩) (fun _ => rfl) sampleChanges sampleChanges_proper
  refine ⟨state, runs, inverse.held.trans (by decide), ?_⟩
  exact (inverse.listed [] (.inl rfl) 2).trans (by decide)

end Asym.SysfsInverse
