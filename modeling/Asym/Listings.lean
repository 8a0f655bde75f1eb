import Asym.PathLookup
import Asym.ProgramLoads

/-!
# Directory listings

`ramfs_listdir` and `sysfs_listdir` report the children of a directory, each with its name and a
type, as many as there is room for, and return how many there are. What they report is compared
with what `stat` reports for the path of the child.

The listing of the ram disk tests its nodes for the constant of `sysfs`, so it reports a file as a
resource, where `ramfs_stat` reports a file. In `sysfs` the types are the same, but `stat` looks
for the child by its name: `sysfs_expose` does not ask whether its name is there already, and of
two children with one name `stat` sees the first. The listings agree with `stat` exactly where the
name of each child leads to a node that is reported as the child is listed.
-/

namespace Asym.Listings

open PathParser PathStack PathResolution NodeTrees Ramfs PathLookup ProgramLoads Words

/-- `stat` of a file system, below a root. -/
def statOf (memory : Memory) (root : Nat) (path : List UInt8) : FileSystem → Except Errno Stat
  | .ramfs => ramfsStat memory root path
  | .sysfs => sysfsStat memory root path

/-- `listdir` of a file system, below a root. -/
def listdirOf (memory : Memory) (root : Nat) (path : List UInt8) (amount : Nat) :
    FileSystem → Except Errno (List DirEntry × Nat)
  | .ramfs => ramfsListdir memory root path amount
  | .sysfs => sysfsListdir memory root path amount

/-- What a listing reports for a child. -/
def entryOf (memory : Memory) (child : Nat) : DirEntry :=
  ⟨(memory.nodes child).name, if (memory.nodes child).type = sysfsResource then .res else .dir⟩

/-- The type that `stat` reports for a node. -/
def statType (memory : Memory) (node : Nat) : FileSystem → StatType
  | .ramfs => if (memory.nodes node).type = ramfsFile then .file else .dir
  | .sysfs => if (memory.nodes node).type = sysfsResource then .res else .dir

/-- Entries are pushed while there is room, and all are counted. -/
theorem foldl_dirEntryPush (amount : Nat) (entries : List DirEntry) (pushed : List DirEntry) (total : Nat) :
    entries.foldl (dirEntryPush amount) (pushed, total) =
      (pushed ++ entries.take (amount - pushed.length), total + entries.length) := by
  induction entries generalizing pushed total with
  | nil => simp
  | cons entry rest ih =>
    rw [List.foldl_cons, dirEntryPush]
    by_cases room : pushed.length < amount
    · obtain ⟨left, split⟩ : ∃ left, amount - pushed.length = left + 1 := ⟨amount - pushed.length - 1, by omega⟩
      have shorter : amount - (pushed ++ [entry]).length = left := by
        rw [List.length_append, List.length_singleton]
        omega
      rw [if_pos room, ih, shorter, split, List.take_succ_cons, List.append_assoc,
        List.singleton_append, List.length_cons, Nat.add_assoc, Nat.add_comm 1]
    · have full : amount - pushed.length = 0 := by omega
      rw [if_neg room, ih, full, List.take_zero, List.take_zero, List.length_cons, Nat.add_assoc,
        Nat.add_comm 1]

/-- A listing at a directory: the first children, and the number of all. -/
theorem listdirNode_dir {memory : Memory} {node : Nat} (directory : (memory.nodes node).type ≠ sysfsResource)
    (amount : Nat) : listdirNode memory amount node =
      .ok (((memory.nodes node).children.take amount).map (entryOf memory), (memory.nodes node).children.length) := by
  have folded := foldl_dirEntryPush amount ((memory.nodes node).children.map (entryOf memory)) [] 0
  rw [List.foldl_map, List.nil_append, List.length_nil, Nat.sub_zero, Nat.zero_add, List.length_map,
    ← List.map_take] at folded
  rw [listdirNode, if_neg directory]
  exact congrArg Except.ok folded

/-- A path leads to a node. -/
structure Reached (memory : Memory) (root : Nat) (names : List Segment) (node : Nat) : Prop where
  words : ∀ name ∈ names, Word name
  leads : nodeTraverse memory.nodes root (rooted names false) nameSeparator = some node

/-- The node to which the name of a child leads from its directory. -/
def namesake (memory : Memory) (node child : Nat) : Option Nat :=
  nodeTraverse memory.nodes node (rooted [(memory.nodes child).name] false) nameSeparator

variable {memory : Memory} {root node : Nat} {names : List Segment}

/-- Where the names of a directory are different words, the name of a child leads to the child. -/
theorem namesake_self (siblings : Siblings memory.nodes node) {child : Nat}
    (member : child ∈ (memory.nodes node).children) : namesake memory node child = some child := by
  have isWord := siblings.words child member
  rw [namesake, nodeTraverse_cons isWord.2, (siblings.nodeFind_iff isWord [] child).mpr ⟨member, rfl⟩]
  rfl

/-- `stat` at the path of a node. -/
theorem Reached.statOf (reached : Reached memory root names node) (kind : FileSystem) :
    statOf memory root (rooted names false) kind = .ok ⟨statType memory node kind, 0⟩ := by
  cases kind with
  | ramfs => rw [Listings.statOf, ramfsStat, atNode, reached.leads]; rfl
  | sysfs => rw [Listings.statOf, sysfsStat, atNode, reached.leads]; rfl

/-- `listdir` at the path of a node. -/
theorem Reached.listdirOf (reached : Reached memory root names node) (amount : Nat) (kind : FileSystem) :
    listdirOf memory root (rooted names false) amount kind = listdirNode memory amount node := by
  cases kind with
  | ramfs => rw [Listings.listdirOf, ramfsListdir, atNode, reached.leads]
  | sysfs => rw [Listings.listdirOf, sysfsListdir, atNode, reached.leads]

/-- `stat` at the path of a child reports the node to which its name leads. -/
theorem Reached.statOf_child (reached : Reached memory root names node) (child : Nat) (kind : FileSystem)
    (info : Stat) : Listings.statOf memory root (rooted (names ++ [(memory.nodes child).name]) false) kind = .ok info ↔
      ∃ other, namesake memory node child = some other ∧ info = ⟨statType memory other kind, 0⟩ := by
  have leads := nodeTraverse_snoc reached.words reached.leads (memory.nodes child).name
  rw [← namesake] at leads
  cases kind with
  | ramfs =>
    rw [Listings.statOf, ramfsStat, atNode, leads]
    cases namesake memory node child with
    | none => simp
    | some other => simp [ramfsStatNode, statType, eq_comm]
  | sysfs =>
    rw [Listings.statOf, sysfsStat, atNode, leads]
    cases namesake memory node child with
    | none => simp
    | some other => simp [sysfsStatNode, statType, eq_comm]

/-- Every child of a directory that there is room for is listed at its place, with the type that
`stat` reports for its path. -/
def TypesAgree (memory : Memory) (root : Nat) (names : List Segment) (node : Nat) (kind : FileSystem) : Prop :=
  ∀ amount entries total, listdirOf memory root (rooted names false) amount kind = .ok (entries, total) →
    ∀ index child, (memory.nodes node).children[index]? = some child → index < amount →
      ∃ info, statOf memory root (rooted (names ++ [(memory.nodes child).name]) false) kind = .ok info ∧
        entries[index]? = some ⟨(memory.nodes child).name, info.type⟩

/-- A listing is refused with `ENOTDIR`, if and only if `stat` reports something else than a directory. -/
def RefusalsAgree (memory : Memory) (root : Nat) (names : List Segment) (kind : FileSystem) : Prop :=
  ∀ amount, listdirOf memory root (rooted names false) amount kind = .error .enotdir ↔
    ∃ info, statOf memory root (rooted names false) kind = .ok info ∧ info.type ≠ .dir

/-- `stat` reports a directory for every node but those of the first kind. -/
theorem statType_dir (memory : Memory) (node : Nat) (kind : FileSystem) :
    statType memory node kind = .dir ↔ (memory.nodes node).type ≠ sysfsResource := by
  cases kind <;> simp only [statType, ramfsFile, sysfsResource] <;> split_ifs with first <;> simp [first]

/-- The listing reports one node as `stat` reports another one. In `sysfs` both or none are resources,
in the ram disk none is a file. -/
def Alike (memory : Memory) (child other : Nat) : FileSystem → Prop
  | .ramfs => (memory.nodes child).type ≠ ramfsFile ∧ (memory.nodes other).type ≠ ramfsFile
  | .sysfs => (memory.nodes child).type = sysfsResource ↔ (memory.nodes other).type = sysfsResource

/-- The types that are reported for two nodes. -/
theorem entryOf_type (memory : Memory) (child other : Nat) (kind : FileSystem) :
    (entryOf memory child).type = statType memory other kind ↔ Alike memory child other kind := by
  cases kind with
  | ramfs =>
    simp only [entryOf, statType, Alike, ramfsFile, sysfsResource]
    by_cases listed : (memory.nodes child).type = 0
    · by_cases reported : (memory.nodes other).type = 0 <;> simp [listed, reported]
    · by_cases reported : (memory.nodes other).type = 0 <;> simp [listed, reported]
  | sysfs =>
    simp only [entryOf, statType, Alike]
    by_cases listed : (memory.nodes child).type = sysfsResource
    · by_cases reported : (memory.nodes other).type = sysfsResource <;> simp [listed, reported]
    · by_cases reported : (memory.nodes other).type = sysfsResource <;> simp [listed, reported]

/-- Refusals agree in every tree. -/
theorem Reached.refusalsAgree (reached : Reached memory root names node) (kind : FileSystem) :
    RefusalsAgree memory root names kind := by
  intro amount
  rw [reached.listdirOf, reached.statOf, ← not_iff_not]
  have isDir : (¬ ∃ info : Stat, Except.ok ⟨statType memory node kind, 0⟩ = (Except.ok info : Except Errno Stat) ∧
      info.type ≠ .dir) ↔ (memory.nodes node).type ≠ sysfsResource := by
    rw [← statType_dir memory node kind]
    simp
  rw [isDir, listdirNode]
  split_ifs with resource
  · simp [resource]
  · simp [resource]

/-- A listing agrees with `stat`, if and only if there is none because the node is no directory, or
the name of each child leads from the directory to a node that `stat` reports as the child is
listed. Both are read at the node: `stat` of the path of a child goes to the directory and from
there by the last name, so the two types are those of the child and of this node. -/
theorem listing_agrees_iff (reached : Reached memory root names node) (kind : FileSystem) :
    TypesAgree memory root names node kind ∧ RefusalsAgree memory root names kind ↔
      (memory.nodes node).type = sysfsResource ∨ ∀ child ∈ (memory.nodes node).children,
        ∃ other, namesake memory node child = some other ∧ Alike memory child other kind := by
  rw [and_iff_left (reached.refusalsAgree kind)]
  constructor
  · intro agree
    by_cases directory : (memory.nodes node).type = sysfsResource
    · exact .inl directory
    · have listed := reached.listdirOf (memory.nodes node).children.length kind
      rw [listdirNode_dir directory, List.take_length] at listed
      refine .inr fun child member => ?_
      obtain ⟨index, inside, rfl⟩ := List.getElem_of_mem member
      obtain ⟨info, stat, entry⟩ := agree _ _ _ listed index _ (List.getElem?_eq_getElem inside) inside
      obtain ⟨other, named, rfl⟩ := (reached.statOf_child _ kind info).mp stat
      rw [List.getElem?_map, List.getElem?_eq_getElem inside, Option.map_some] at entry
      have same := congrArg DirEntry.type (Option.some.inj entry)
      exact ⟨other, named, (entryOf_type memory _ other kind).mp same⟩
  · intro condition amount entries total listing index child found room
    have member := List.mem_of_getElem? found
    rw [reached.listdirOf] at listing
    have directory : (memory.nodes node).type ≠ sysfsResource := by
      intro resource
      rw [listdirNode, if_pos resource] at listing
      cases listing
    rw [listdirNode_dir directory] at listing
    obtain ⟨rfl, _⟩ := Prod.mk.inj (Except.ok.inj listing)
    obtain ⟨other, named, alike⟩ := condition.resolve_left directory child member
    refine ⟨_, (reached.statOf_child child kind _).mpr ⟨other, named, rfl⟩, ?_⟩
    rw [List.getElem?_map, List.getElem?_take_of_lt room, found, Option.map_some,
      ← (entryOf_type memory child other kind).mpr alike]
    rfl

/-- A directory `d` and a file `f` below the root. -/
def smallTree : Memory where
  nodes := fun node =>
    if node = 1 then ⟨ramfsDir, none, [2, 3], []⟩
    else if node = 2 then ⟨ramfsDir, some 1, [], [100]⟩
    else ⟨ramfsFile, some 1, [], [102]⟩
  ramFiles := fun _ => ⟨0, 0⟩
  blocks := fun _ _ => 0
  used := []

/-- The names below the root are different words. -/
theorem smallTree_siblings : Siblings smallTree.nodes 1 where
  different := by decide
  words := List.forall_mem_cons.mpr ⟨word_of_all [100] (by decide) (by decide),
    List.forall_mem_singleton.mpr (word_of_all [102] (by decide) (by decide))⟩
  short := by decide

/-- As a directory of `sysfs`, the root is listed as `stat` reports its children. -/
theorem smallTree_sysfs : TypesAgree smallTree 1 [] 1 .sysfs ∧ RefusalsAgree smallTree 1 [] .sysfs := by
  refine (listing_agrees_iff ⟨fun _ inside => absurd inside List.not_mem_nil, rfl⟩ .sysfs).mpr (.inr ?_)
  exact fun child member => ⟨child, namesake_self smallTree_siblings member, .rfl⟩

/-- In the ram disk, the file is listed as a resource and reported by `stat` as a file. -/
theorem file_listed_as_resource : ¬ TypesAgree smallTree 1 [] 1 .ramfs := by
  intro agree
  obtain ⟨info, stat, entry⟩ := agree 2 _ _ rfl 1 3 rfl (by decide)
  obtain rfl : ⟨StatType.file, 0⟩ = info := Except.ok.inj stat
  exact absurd entry (by decide)

end Asym.Listings
