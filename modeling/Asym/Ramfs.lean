import Asym.NodeTrees
import Mathlib.Algebra.GroupWithZero.Nat

/-!
# The file system of the ram disk

A model of `ramfs.c`. The loader leaves a tree of directories and files in its own
memory. `ramfs_load_dir` copies it into memory of the kernel, with the bytes of all
files, and the memory of the loader is freed. Files are then opened by the path from
the root, and read with a position that each file has.

Memory is split by address into nodes, the fields of a file that follow its node, and
blocks of bytes. `malloc` returns some address that is not used.
-/

namespace Asym.Ramfs

open PathParser PathStack PathResolution VolumeLifetimes NodeTrees

/-- `RAMFS_FILE`. -/
def ramfsFile : Nat := 0

/-- `RAMFS_DIR`. -/
def ramfsDir : Nat := 1

/-- `SYSFS_RESOURCE`, which the directory listing tests for too. -/
def sysfsResource : Nat := 0

/-- `ram_file_t` after its node. -/
structure RamFile where
  data : Nat
  size : Nat
  deriving DecidableEq, Repr

/-- Memory: the nodes, the files, the bytes of blocks by their offsets, and the
addresses in use. -/
structure Memory where
  nodes : Nat → Node
  ramFiles : Nat → RamFile
  blocks : Nat → Nat → UInt8
  used : List Nat

/-- `malloc`: an address that is not used, whatever is. -/
structure Allocator where
  malloc : List Nat → Nat
  fresh : ∀ used, malloc used ∉ used

/-- The address that is allocated next. -/
def Memory.next (memory : Memory) (allocator : Allocator) : Nat :=
  allocator.malloc memory.used

/-- Memory after an allocation. -/
def Memory.take (memory : Memory) (allocator : Allocator) : Memory :=
  { memory with used := memory.next allocator :: memory.used }

/-- `node_init`. -/
def nodeInit (memory : Memory) (node : Nat) (name : List UInt8) (type : Nat) : Memory :=
  { memory with nodes := Function.update memory.nodes node ⟨type, none, [], name⟩ }

/-- `node_push`. -/
def nodePush (memory : Memory) (parent child : Nat) : Memory :=
  let linked := Function.update memory.nodes child { memory.nodes child with parent := some parent }
  { memory with
    nodes := Function.update linked parent
      { linked parent with children := (linked parent).children ++ [child] } }

/-- `memcpy` of the first bytes of a block. -/
def memcpy (blocks : Nat → Nat → UInt8) (target source size : Nat) : Nat → Nat → UInt8 :=
  Function.update blocks target fun offset =>
    if offset < size then blocks source offset else blocks target offset

/-- A file in `ramfs_load_dir`. -/
def loadFile (allocator : Allocator) (memory : Memory) (node inFile : Nat) : Memory :=
  let outFile := memory.next allocator
  let named := nodeInit (memory.take allocator) outFile (memory.nodes inFile).name ramfsFile
  let size := (named.ramFiles inFile).size
  let data := named.next allocator
  let filled := { named.take allocator with
    ramFiles := Function.update named.ramFiles outFile ⟨data, size⟩
    blocks := memcpy named.blocks data (named.ramFiles inFile).data size }
  nodePush filled node outFile

/-- A child in `ramfs_load_dir`, with the load of directories. -/
def loadChild (allocator : Allocator) (loadDir : Memory → Nat → Option (Memory × Nat)) (node : Nat)
    (memory : Memory) (inChild : Nat) : Option Memory :=
  if (memory.nodes inChild).type = ramfsDir then
    (loadDir memory inChild).map fun result => nodePush result.1 node result.2
  else if (memory.nodes inChild).type = ramfsFile then some (loadFile allocator memory node inChild)
  else some memory

/-- `ramfs_load_dir`, for trees up to a depth. -/
def ramfsLoadDir (allocator : Allocator) : Nat → Memory → Nat → Option (Memory × Nat)
  | 0, _, _ => none
  | depth + 1, memory, source =>
      let node := memory.next allocator
      let named := nodeInit (memory.take allocator) node (memory.nodes source).name ramfsDir
      ((named.nodes source).children.foldlM (loadChild allocator (ramfsLoadDir allocator depth) node) named).map
        fun after => (after, node)

/-- The errors of path operations. `own` is what the `open` of a resource has left. -/
inductive Errno where
  | epath
  | eisdir
  | enotdir
  | eacces
  | own
  deriving DecidableEq, Repr

/-- `file_ops_t`: the table of the ram disk, or the one of a resource. -/
inductive FileOps where
  | ramfs
  | resource (ops : Nat)
  deriving DecidableEq, Repr

/-- `file_t`. Its field `private` is an address. -/
structure File where
  volume : Nat
  pos : Nat
  privateAddress : Nat
  resource : Option Nat
  ops : FileOps
  deriving DecidableEq, Repr

/-- `stat_type_t`. -/
inductive StatType where
  | file
  | dir
  | res
  deriving DecidableEq, Repr

/-- `stat_t`. -/
structure Stat where
  type : StatType
  size : Nat
  deriving DecidableEq, Repr

/-- `dir_entry_t`. -/
structure DirEntry where
  name : List UInt8
  type : StatType
  deriving DecidableEq, Repr

/-- What a path operation of a file system does at the node that the path leads to. -/
def atNode {Result : Type} (memory : Memory) (root : Nat) (path : List UInt8)
    (operation : Nat → Except Errno Result) : Except Errno Result :=
  match nodeTraverse memory.nodes root path nameSeparator with
  | none => .error .epath
  | some node => operation node

/-- `ramfs_open`, at a node. -/
def ramfsOpenNode (memory : Memory) (volume node : Nat) : Except Errno File :=
  if (memory.nodes node).type = ramfsDir then .error .eisdir
  else .ok ⟨volume, 0, node, none, .ramfs⟩

/-- `ramfs_open`. -/
def ramfsOpen (memory : Memory) (root volume : Nat) (path : List UInt8) : Except Errno File :=
  atNode memory root path (ramfsOpenNode memory volume)

/-- `ramfs_stat`, at a node. -/
def ramfsStatNode (memory : Memory) (node : Nat) : Except Errno Stat :=
  .ok ⟨if (memory.nodes node).type = ramfsFile then .file else .dir, 0⟩

/-- `ramfs_stat`. -/
def ramfsStat (memory : Memory) (root : Nat) (path : List UInt8) : Except Errno Stat :=
  atNode memory root path (ramfsStatNode memory)

/-- `dir_entry_push`: the entries written so far, and the total. -/
def dirEntryPush (amount : Nat) (pushed : List DirEntry × Nat) (entry : DirEntry) : List DirEntry × Nat :=
  (if pushed.1.length < amount then pushed.1 ++ [entry] else pushed.1, pushed.2 + 1)

/-- `ramfs_listdir` and `sysfs_listdir`, at a node. A file of the ram disk has the type
of a resource. -/
def listdirNode (memory : Memory) (amount node : Nat) : Except Errno (List DirEntry × Nat) :=
  if (memory.nodes node).type = sysfsResource then .error .enotdir
  else .ok ((memory.nodes node).children.foldl (fun pushed child =>
    dirEntryPush amount pushed
      ⟨(memory.nodes child).name, if (memory.nodes child).type = sysfsResource then .res else .dir⟩) ([], 0))

/-- `ramfs_listdir`. -/
def ramfsListdir (memory : Memory) (root : Nat) (path : List UInt8) (amount : Nat) :
    Except Errno (List DirEntry × Nat) :=
  atNode memory root path (listdirNode memory amount)

/-- `ramfs_read`: the bytes, and the file after it. -/
def ramfsRead (memory : Memory) (file : File) (count : Nat) : List UInt8 × File :=
  let ramFile := memory.ramFiles file.privateAddress
  let amount := if file.pos ≤ ramFile.size then min count (ramFile.size - file.pos) else 0
  ((List.range amount).map fun offset => memory.blocks ramFile.data (file.pos + offset),
    { file with pos := file.pos + amount })

/-- Reads of a file, one after another. -/
def ramfsReads (memory : Memory) : File → List Nat → List (List UInt8)
  | _, [] => []
  | file, count :: later =>
      (ramfsRead memory file count).1 :: ramfsReads memory (ramfsRead memory file count).2 later

/-- A tree of directories and files. -/
inductive Entry where
  | dir (name : List UInt8) (children : List Entry)
  | file (name bytes : List UInt8)

/-- The name of a directory or file. -/
def Entry.name : Entry → List UInt8
  | .dir name _ => name
  | .file name _ => name

/-- What names lead to in a tree. -/
def Entry.find : Entry → List Segment → Option Entry
  | entry, [] => some entry
  | .file _ _, _ :: _ => none
  | .dir _ children, name :: later =>
      (children.find? fun child => child.name = name).bind fun child => child.find later

/-- Siblings have different names. Each name is a word that is shorter than
`MAX_NAME`. -/
inductive Proper : Entry → Prop where
  | file (name bytes : List UInt8) : Proper (.file name bytes)
  | dir {name : List UInt8} {children : List Entry} (different : (children.map Entry.name).Nodup)
      (words : ∀ child ∈ children, Word child.name)
      (short : ∀ child ∈ children, child.name.length < maxName)
      (below : ∀ child ∈ children, Proper child) : Proper (.dir name children)

/-- A tree is in memory at an address, with all its addresses inside of a set. -/
inductive Represents (inside : Nat → Prop) (memory : Memory) : Nat → Entry → Prop where
  | dir {address : Nat} {name : List UInt8} {children : List Entry} (owned : inside address)
      (type : (memory.nodes address).type = ramfsDir) (named : (memory.nodes address).name = name)
      (below : List.Forall₂ (Represents inside memory) (memory.nodes address).children children) :
      Represents inside memory address (.dir name children)
  | file {address : Nat} {name bytes : List UInt8} (owned : inside address)
      (ownedData : inside (memory.ramFiles address).data)
      (type : (memory.nodes address).type = ramfsFile) (named : (memory.nodes address).name = name)
      (leaf : (memory.nodes address).children = [])
      (stored : (List.range (memory.ramFiles address).size).map (memory.blocks (memory.ramFiles address).data) =
        bytes) : Represents inside memory address (.file name bytes)

mutual

/-- The directories on the longest way down. -/
def Entry.depth : Entry → Nat
  | .file _ _ => 0
  | .dir _ children => depths children + 1

/-- The directories on the longest way down from one of some entries. -/
def depths : List Entry → Nat
  | [] => 0
  | child :: later => max child.depth (depths later)

end

/-- Induction on trees: a directory after all of its children. -/
theorem Entry.induction {motive : Entry → Prop} (file : ∀ name bytes, motive (.file name bytes))
    (dir : ∀ name children, (∀ child ∈ children, motive child) → motive (.dir name children))
    (entry : Entry) : motive entry := by
  refine @Entry.rec motive (fun children => ∀ child ∈ children, motive child) dir file ?_ ?_ entry
  · intro child member
    cases member
  · intro first later firstHolds laterHold child member
    rcases List.mem_cons.mp member with rfl | inLater
    · exact firstHolds
    · exact laterHold child inLater

/-- A child has less depth. -/
theorem depth_le_depths {children : List Entry} {child : Entry} (member : child ∈ children) :
    child.depth ≤ depths children := by
  induction children with
  | nil => cases member
  | cons first later ih =>
    rw [depths]
    rcases List.mem_cons.mp member with rfl | inLater
    · exact Nat.le_max_left _ _
    · exact Nat.le_trans (ih inLater) (Nat.le_max_right _ _)

/-- Related lists stay related if the relation does for their items. -/
theorem forall₂_imp {Address : Type} {related other : Address → Entry → Prop} {addresses : List Address}
    {entries : List Entry} (all : List.Forall₂ related addresses entries)
    (each : ∀ entry ∈ entries, ∀ address, related address entry → other address entry) :
    List.Forall₂ other addresses entries := by
  induction all with
  | nil => exact .nil
  | cons first _ ih =>
    apply List.Forall₂.cons
    · exact each _ List.mem_cons_self _ first
    · apply ih
      intro entry member
      exact each entry (List.mem_cons_of_mem _ member)

/-- Memory that is the same at some addresses. The parents of nodes may differ. -/
structure Agree (inside : Nat → Prop) (before after : Memory) : Prop where
  type : ∀ address, inside address → (after.nodes address).type = (before.nodes address).type
  name : ∀ address, inside address → (after.nodes address).name = (before.nodes address).name
  children : ∀ address, inside address → (after.nodes address).children = (before.nodes address).children
  ramFiles : ∀ address, inside address → after.ramFiles address = before.ramFiles address
  blocks : ∀ address, inside address → after.blocks address = before.blocks address

variable {inside larger : Nat → Prop} {before after later : Memory}

/-- Memory agrees with itself. -/
theorem Agree.refl (memory : Memory) : Agree inside memory memory :=
  ⟨fun _ _ => rfl, fun _ _ => rfl, fun _ _ => rfl, fun _ _ => rfl, fun _ _ => rfl⟩

/-- Agreement at fewer addresses. -/
theorem Agree.mono (agree : Agree larger before after) (fewer : ∀ address, inside address → larger address) :
    Agree inside before after where
  type address owned := agree.type address (fewer address owned)
  name address owned := agree.name address (fewer address owned)
  children address owned := agree.children address (fewer address owned)
  ramFiles address owned := agree.ramFiles address (fewer address owned)
  blocks address owned := agree.blocks address (fewer address owned)

/-- Agreement in two steps. -/
theorem Agree.trans (first : Agree inside before after) (second : Agree inside after later) :
    Agree inside before later where
  type address owned := (second.type address owned).trans (first.type address owned)
  name address owned := (second.name address owned).trans (first.name address owned)
  children address owned := (second.children address owned).trans (first.children address owned)
  ramFiles address owned := (second.ramFiles address owned).trans (first.ramFiles address owned)
  blocks address owned := (second.blocks address owned).trans (first.blocks address owned)

/-- A tree stays in memory if its own addresses do. -/
theorem Represents.of_agree {address : Nat} {entry : Entry} (held : Represents inside before address entry)
    (agree : Agree inside before after) (more : ∀ address, inside address → larger address) :
    Represents larger after address entry := by
  induction entry using Entry.induction generalizing address with
  | file name bytes =>
    cases held with
    | file owned ownedData type named leaf stored =>
      have sameFile := agree.ramFiles address owned
      refine .file (more _ owned) ?_ ((agree.type address owned).trans type)
        ((agree.name address owned).trans named) ((agree.children address owned).trans leaf) ?_
      · rw [sameFile]
        exact more _ ownedData
      · rw [sameFile, agree.blocks _ ownedData]
        exact stored
  | dir name children ih =>
    cases held with
    | dir owned type named below =>
      refine .dir (more _ owned) ((agree.type address owned).trans type)
        ((agree.name address owned).trans named) ?_
      rw [agree.children address owned]
      apply forall₂_imp below
      intro child member childAddress childHeld
      exact ih child member childHeld

/-- What a load of a tree leaves: what was in use stays, and the tree is in memory that
was not in use. -/
structure Loaded (before after : Memory) (out : Nat) (entry : Entry) : Prop where
  grows : ∀ address ∈ before.used, address ∈ after.used
  frame : Agree (· ∈ before.used) before after
  held : Represents (fun address => address ∉ before.used ∧ address ∈ after.used) after out entry

/-- During a load of a directory: its node with the children that are loaded so far. -/
structure Filling (before : Memory) (node : Nat) (name : List UInt8) (done : List Entry) (now : Memory) :
    Prop where
  fresh : node ∉ before.used
  taken : node ∈ now.used
  grows : ∀ address ∈ before.used, address ∈ now.used
  frame : Agree (· ∈ before.used) before now
  type : (now.nodes node).type = ramfsDir
  named : (now.nodes node).name = name
  below : List.Forall₂
    (Represents (fun address => address ∉ before.used ∧ address ≠ node ∧ address ∈ now.used) now)
    (now.nodes node).children done

/-- A directory that is filled is loaded. -/
theorem Filling.loaded {node : Nat} {name : List UInt8} {children : List Entry}
    (filled : Filling before node name children after) : Loaded before after node (.dir name children) := by
  refine ⟨filled.grows, filled.frame, .dir ⟨filled.fresh, filled.taken⟩ filled.type filled.named ?_⟩
  apply forall₂_imp filled.below
  intro child _ address held
  exact held.of_agree (Agree.refl after) fun _ owned => ⟨owned.1, owned.2.2⟩

/-- `node_push` changes the children of one node only. -/
theorem nodePush_agree (memory : Memory) (parent child : Nat) :
    Agree (· ≠ parent) memory (nodePush memory parent child) := by
  have seen (address : Nat) (different : address ≠ parent) :
      (nodePush memory parent child).nodes address =
        Function.update memory.nodes child { memory.nodes child with parent := some parent } address :=
    Function.update_of_ne different ..
  have same (address : Nat) (different : address ≠ parent) :
      ((nodePush memory parent child).nodes address).type = (memory.nodes address).type ∧
      ((nodePush memory parent child).nodes address).name = (memory.nodes address).name ∧
      ((nodePush memory parent child).nodes address).children = (memory.nodes address).children := by
    rw [seen address different]
    by_cases isChild : address = child
    · rw [isChild, Function.update_self]
      exact ⟨rfl, rfl, rfl⟩
    · rw [Function.update_of_ne isChild]
      exact ⟨rfl, rfl, rfl⟩
  exact ⟨fun address different => (same address different).1, fun address different => (same address different).2.1,
    fun address different => (same address different).2.2, fun _ _ => rfl, fun _ _ => rfl⟩

/-- `node_push` at the parent. -/
theorem nodePush_parent (memory : Memory) {parent child : Nat} (different : child ≠ parent) :
    (nodePush memory parent child).nodes parent =
      { memory.nodes parent with children := (memory.nodes parent).children ++ [child] } := by
  simp only [nodePush, Function.update_self, Function.update_of_ne different.symm]

/-- Pushing a loaded child. -/
theorem Filling.push {now next : Memory} {node out : Nat} {name : List UInt8} {done : List Entry}
    {entry : Entry} (filling : Filling before node name done now) (loaded : Loaded now next out entry) :
    Filling before node name (done ++ [entry]) (nodePush next node out) := by
  have outOwned : out ∉ now.used := by
    cases loaded.held with
    | dir owned => exact owned.1
    | file owned => exact owned.1
  have different : out ≠ node := fun same => outOwned (same ▸ filling.taken)
  have pushed := nodePush_agree next node out
  have parent := nodePush_parent next different
  have notNode (address : Nat) (used : address ∈ before.used) : address ≠ node := fun same =>
    filling.fresh (same ▸ used)
  have onward : Agree (fun address => address ≠ node ∧ address ∈ now.used) now (nodePush next node out) :=
    (loaded.frame.mono fun _ owned => owned.2).trans (pushed.mono fun _ owned => owned.1)
  refine ⟨filling.fresh, loaded.grows _ filling.taken, fun address used => loaded.grows _ (filling.grows _ used),
    ?_, ?_, ?_, ?_⟩
  · apply filling.frame.trans
    exact onward.mono fun address used => ⟨notNode address used, filling.grows address used⟩
  · rw [parent]
    exact (loaded.frame.type node filling.taken).trans filling.type
  · rw [parent]
    exact (loaded.frame.name node filling.taken).trans filling.named
  · rw [parent]
    simp only [loaded.frame.children node filling.taken]
    apply List.rel_append
    · apply forall₂_imp filling.below
      intro child _ address held
      apply held.of_agree (onward.mono fun _ owned => owned.2)
      rintro other ⟨free, notThis, used⟩
      exact ⟨free, notThis, loaded.grows other used⟩
    · refine .cons ?_ .nil
      have owned (address : Nat) (free : address ∉ now.used ∧ address ∈ next.used) : address ≠ node :=
        fun same => free.1 (same ▸ filling.taken)
      apply loaded.held.of_agree (pushed.mono owned)
      rintro address free
      exact ⟨fun used => free.1 (filling.grows address used), owned address free, free.2⟩

/-- The address of an allocation is not in use. -/
theorem next_fresh (memory : Memory) (allocator : Allocator) : memory.next allocator ∉ memory.used :=
  allocator.fresh memory.used

/-- `node_init` of an allocated node keeps what was in use. -/
theorem nodeInit_agree (memory : Memory) (allocator : Allocator) (name : List UInt8) (type : Nat) :
    Agree (· ∈ memory.used) memory
      (nodeInit (memory.take allocator) (memory.next allocator) name type) := by
  have seen (address : Nat) (used : address ∈ memory.used) :
      (nodeInit (memory.take allocator) (memory.next allocator) name type).nodes address =
        memory.nodes address := by
    apply Function.update_of_ne
    rintro rfl
    exact next_fresh memory allocator used
  refine ⟨?_, ?_, ?_, fun _ _ => rfl, fun _ _ => rfl⟩
  all_goals
    intro address used
    rw [seen address used]

/-- The copy of a file, before it is pushed. -/
theorem copyFile_loaded (allocator : Allocator) {memory : Memory} {inFile : Nat} {name bytes : List UInt8}
    (held : Represents (· ∈ memory.used) memory inFile (.file name bytes)) (node : Nat) :
    ∃ copied, Loaded memory copied (memory.next allocator) (.file name bytes) ∧
      loadFile allocator memory node inFile = nodePush copied node (memory.next allocator) := by
  refine ⟨_, ?_, rfl⟩
  have nodeFree := next_fresh memory allocator
  set outFile := memory.next allocator
  set named := nodeInit (memory.take allocator) outFile (memory.nodes inFile).name ramfsFile
  have used : named.used = outFile :: memory.used := rfl
  have dataFree := next_fresh named allocator
  set data := named.next allocator
  rw [used, List.mem_cons, not_or] at dataFree
  cases held with
  | file owned ownedData type isNamed leaf stored =>
    have inNotOut : inFile ≠ outFile := fun same => nodeFree (same ▸ owned)
    constructor
    · intro address member
      exact List.mem_cons_of_mem data (List.mem_cons_of_mem outFile member)
    · have notNode (address : Nat) (member : address ∈ memory.used) : address ≠ outFile := fun same =>
        nodeFree (same ▸ member)
      have notData (address : Nat) (member : address ∈ memory.used) : address ≠ data := fun same =>
        dataFree.2 (same ▸ member)
      have init := nodeInit_agree memory allocator (memory.nodes inFile).name ramfsFile
      refine ⟨init.type, init.name, init.children, ?_, ?_⟩
      · intro address member
        exact Function.update_of_ne (notNode address member) ..
      · intro address member
        exact Function.update_of_ne (notData address member) ..
    · have file : Function.update named.ramFiles outFile ⟨data, (named.ramFiles inFile).size⟩ outFile =
          ⟨data, (named.ramFiles inFile).size⟩ := Function.update_self ..
      have node : named.nodes outFile = ⟨ramfsFile, none, [], (memory.nodes inFile).name⟩ :=
        Function.update_self ..
      constructor
      · exact ⟨nodeFree, List.mem_cons_of_mem data List.mem_cons_self⟩
      · simp only [file]
        exact ⟨dataFree.2, List.mem_cons_self⟩
      · exact congrArg Node.type node
      · exact (congrArg Node.name node).trans isNamed
      · exact congrArg Node.children node
      · simp only [file, memcpy, Function.update_self]
        rw [← stored]
        apply List.map_congr_left
        intro offset member
        rw [if_pos (List.mem_range.mp member)]
        rfl

/-- A child in `ramfs_load_dir` is loaded and pushed. -/
theorem Filling.loadChild (allocator : Allocator) {loadDir : Memory → Nat → Option (Memory × Nat)}
    {now : Memory} {node inChild : Nat} {name : List UInt8} {done : List Entry} {child : Entry}
    (filling : Filling before node name done now) (held : Represents (· ∈ before.used) before inChild child)
    (loads : Represents (· ∈ now.used) now inChild child → (now.nodes inChild).type = ramfsDir →
      ∃ after out, loadDir now inChild = some (after, out) ∧ Loaded now after out child) :
    ∃ next, loadChild allocator loadDir node now inChild = some next ∧
      Filling before node name (done ++ [child]) next := by
  have heldNow := held.of_agree filling.frame filling.grows
  rw [Ramfs.loadChild]
  cases child with
  | dir childName children =>
    have isDir : (now.nodes inChild).type = ramfsDir := by
      cases heldNow with
      | dir _ type => exact type
    obtain ⟨after, out, result, loaded⟩ := loads heldNow isDir
    rw [if_pos isDir, result]
    exact ⟨_, rfl, filling.push loaded⟩
  | file childName bytes =>
    have isFile : (now.nodes inChild).type = ramfsFile := by
      cases heldNow with
      | file _ _ type => exact type
    obtain ⟨copied, loaded, result⟩ := copyFile_loaded allocator heldNow node
    rw [isFile, if_neg (by decide), if_pos rfl, result]
    exact ⟨_, rfl, filling.push loaded⟩

/-- The loop of `ramfs_load_dir` loads and pushes all children in turn. The induction is
on the children that are left; those that are loaded stay in memory. -/
theorem Filling.loadChildren (allocator : Allocator) {loadDir : Memory → Nat → Option (Memory × Nat)}
    {now : Memory} {node : Nat} {name : List UInt8} {done children : List Entry} {addresses : List Nat}
    (filling : Filling before node name done now)
    (held : List.Forall₂ (Represents (· ∈ before.used) before) addresses children)
    (loads : ∀ child ∈ children, ∀ memory address, Represents (· ∈ memory.used) memory address child →
      (memory.nodes address).type = ramfsDir →
      ∃ after out, loadDir memory address = some (after, out) ∧ Loaded memory after out child) :
    ∃ after, addresses.foldlM (Ramfs.loadChild allocator loadDir node) now = some after ∧
      Filling before node name (done ++ children) after := by
  induction held generalizing now done with
  | nil =>
    rw [List.append_nil]
    exact ⟨now, rfl, filling⟩
  | @cons address child addresses children first _ ih =>
    obtain ⟨next, result, filled⟩ := filling.loadChild allocator first
      (loads child List.mem_cons_self now address)
    obtain ⟨after, resultLater, filledLater⟩ := ih filled
      fun other member => loads other (List.mem_cons_of_mem child member)
    rw [List.append_assoc, List.singleton_append] at filledLater
    refine ⟨after, ?_, filledLater⟩
    rw [List.foldlM_cons, result]
    exact resultLater

/-- `ramfs_load_dir` loads a directory, by induction on the tree. -/
theorem ramfsLoadDir_loaded (allocator : Allocator) (entry : Entry) (memory : Memory) (source depth : Nat)
    (held : Represents (· ∈ memory.used) memory source entry)
    (isDir : (memory.nodes source).type = ramfsDir) (enough : entry.depth ≤ depth) :
    ∃ after out, ramfsLoadDir allocator depth memory source = some (after, out) ∧
      Loaded memory after out entry := by
  induction entry using Entry.induction generalizing memory source depth with
  | file name bytes =>
    cases held with
    | file _ _ type =>
      rw [type] at isDir
      cases isDir
  | dir name children ih =>
    cases held with
    | dir owned type isNamed below =>
      rw [Entry.depth] at enough
      obtain ⟨turns, rfl⟩ : ∃ turns, depth = turns + 1 := ⟨depth - 1, by omega⟩
      have free := next_fresh memory allocator
      have frame := nodeInit_agree memory allocator (memory.nodes source).name ramfsDir
      rw [ramfsLoadDir]
      set node := memory.next allocator
      set named := nodeInit (memory.take allocator) node (memory.nodes source).name ramfsDir
      have atNode : named.nodes node = ⟨ramfsDir, none, [], (memory.nodes source).name⟩ :=
        Function.update_self ..
      have start : Filling memory node name [] named := by
        refine ⟨free, List.mem_cons_self, fun _ member => List.mem_cons_of_mem node member, frame, ?_, ?_, ?_⟩
        · rw [atNode]
        · rw [atNode]
          exact isNamed
        · rw [atNode]
          exact .nil
      rw [← frame.children source owned] at below
      obtain ⟨after, result, filled⟩ := start.loadChildren allocator below fun child member =>
        fun now address heldChild isDirChild => ih child member now address turns heldChild
          isDirChild (by have := depth_le_depths member; omega)
      refine ⟨after, node, ?_, filled.loaded⟩
      simp only [result, Option.map_some]

/-- A tree has the name of its node. -/
theorem Represents.name {memory : Memory} {address : Nat} {entry : Entry}
    (held : Represents inside memory address entry) : (memory.nodes address).name = entry.name := by
  cases held with
  | dir _ _ named => exact named
  | file _ _ _ named => exact named

/-- The names of nodes are the names of their trees. -/
theorem names_eq {memory : Memory} {addresses : List Nat} {entries : List Entry}
    (all : List.Forall₂ (Represents inside memory) addresses entries) :
    addresses.map (fun address => (memory.nodes address).name) = entries.map Entry.name := by
  induction all with
  | nil => rfl
  | cons first _ ih =>
    rw [List.map_cons, List.map_cons, first.name, ih]

/-- Each node of a list has its tree. -/
theorem entry_of_address {memory : Memory} {addresses : List Nat} {entries : List Entry}
    (all : List.Forall₂ (Represents inside memory) addresses entries) {address : Nat}
    (member : address ∈ addresses) : ∃ entry ∈ entries, Represents inside memory address entry := by
  induction all with
  | nil => cases member
  | cons first _ ih =>
    rcases List.mem_cons.mp member with rfl | inLater
    · exact ⟨_, List.mem_cons_self, first⟩
    · obtain ⟨entry, entryMember, held⟩ := ih inLater
      exact ⟨entry, List.mem_cons_of_mem _ entryMember, held⟩

/-- Each tree of a list has its node. -/
theorem address_of_entry {memory : Memory} {addresses : List Nat} {entries : List Entry}
    (all : List.Forall₂ (Represents inside memory) addresses entries) {entry : Entry}
    (member : entry ∈ entries) : ∃ address ∈ addresses, Represents inside memory address entry := by
  induction all with
  | nil => cases member
  | cons first _ ih =>
    rcases List.mem_cons.mp member with rfl | inLater
    · exact ⟨_, List.mem_cons_self, first⟩
    · obtain ⟨address, addressMember, held⟩ := ih inLater
      exact ⟨address, List.mem_cons_of_mem _ addressMember, held⟩

/-- Following names in memory follows them in the tree. -/
theorem Represents.follows {memory : Memory} {address last : Nat} {entry : Entry} {names : List Segment}
    (held : Represents inside memory address entry) (proper : Proper entry)
    (followed : Follows memory.nodes address names last) :
    ∃ found, entry.find names = some found ∧ Represents inside memory last found ∧ Proper found := by
  induction followed generalizing entry with
  | here node => exact ⟨entry, by rw [Entry.find], held, proper⟩
  | @down node child last names member _ ih =>
    cases held with
    | file _ _ _ _ leaf =>
      rw [leaf] at member
      cases member
    | dir owned type named below =>
      obtain ⟨childEntry, childMember, childHeld⟩ := entry_of_address below member
      cases proper with
      | dir different words short properBelow =>
        obtain ⟨found, same, rest⟩ := ih childHeld (properBelow childEntry childMember)
        refine ⟨found, ?_, rest⟩
        have first := (find?_unique different (fun _ _ => decide_eq_true_iff) childEntry).mpr
          ⟨childMember, childHeld.name.symm⟩
        rw [Entry.find, first]
        exact same

/-- What names lead to in the tree is where they lead to in memory. -/
theorem Represents.found {memory : Memory} {address : Nat} {entry found : Entry} {names : List Segment}
    (held : Represents inside memory address entry) (same : entry.find names = some found) :
    ∃ last, Follows memory.nodes address names last ∧ Represents inside memory last found := by
  induction names generalizing entry address with
  | nil =>
    rw [Entry.find, Option.some.injEq] at same
    subst same
    exact ⟨address, .here address, held⟩
  | cons name later ih =>
    cases held with
    | file =>
      rw [Entry.find] at same
      cases same
    | dir owned type named below =>
      rw [Entry.find, Option.bind_eq_some_iff] at same
      obtain ⟨child, isChild, sameLater⟩ := same
      have childName : child.name = name := by simpa using List.find?_some isChild
      obtain ⟨childAddress, member, childHeld⟩ := address_of_entry below (List.mem_of_find?_eq_some isChild)
      obtain ⟨last, followed, foundHeld⟩ := ih childHeld sameLater
      refine ⟨last, ?_, foundHeld⟩
      rw [← childName, ← childHeld.name]
      exact .down member followed

/-- A proper tree in memory has siblings with proper names. -/
theorem Represents.wellNamed {memory : Memory} {root : Nat} {entry : Entry}
    (held : Represents inside memory root entry) (proper : Proper entry) : WellNamed memory.nodes root := by
  intro names node followed
  obtain ⟨found, _, foundHeld, foundProper⟩ := held.follows proper followed
  cases foundHeld with
  | file _ _ _ _ leaf =>
    constructor
    · rw [leaf]
      exact List.nodup_nil
    · rw [leaf]
      exact nofun
    · rw [leaf]
      exact nofun
  | dir owned type named below =>
    cases foundProper with
    | dir different words short _ =>
      constructor
      · rw [names_eq below]
        exact different
      · intro child member
        obtain ⟨childEntry, childMember, childHeld⟩ := entry_of_address below member
        rw [childHeld.name]
        exact words childEntry childMember
      · intro child member
        obtain ⟨childEntry, childMember, childHeld⟩ := entry_of_address below member
        rw [childHeld.name]
        exact short childEntry childMember

/-- `node_traverse` finds what names lead to in the tree. -/
theorem Represents.nodeTraverse {memory : Memory} {root : Nat} {entry : Entry}
    (held : Represents inside memory root entry) (proper : Proper entry) {names : List Segment}
    (words : ∀ name ∈ names, Word name) :
    match entry.find names with
    | none => nodeTraverse memory.nodes root (rooted names false) nameSeparator = none
    | some found => ∃ node, nodeTraverse memory.nodes root (rooted names false) nameSeparator = some node ∧
        Represents inside memory node found := by
  have traversed := @nodeTraverse_iff memory.nodes root (held.wellNamed proper) names words
  cases leads : entry.find names with
  | none =>
    rw [Option.eq_none_iff_forall_ne_some]
    intro node reached
    obtain ⟨found, same, _⟩ := held.follows proper ((traversed node).mp reached)
    rw [leads] at same
    cases same
  | some found =>
    obtain ⟨node, followed, foundHeld⟩ := held.found leads
    exact ⟨node, (traversed node).mpr followed, foundHeld⟩

/-- Bytes in consecutive slices. -/
def slices : List UInt8 → List Nat → List (List UInt8)
  | _, [] => []
  | bytes, count :: later => bytes.take count :: slices (bytes.drop count) later

/-- Consecutive slices make up a beginning of the bytes. -/
theorem slices_flatten (bytes : List UInt8) (counts : List Nat) :
    (slices bytes counts).flatten = bytes.take counts.sum := by
  induction counts generalizing bytes with
  | nil => simp [slices]
  | cons count later ih =>
    rw [slices, List.flatten_cons, ih, List.sum_cons, List.take_add]

/-- `ramfs_read` returns the next bytes of a file, and goes on behind them. -/
theorem ramfsRead_eq {memory : Memory} {file : File} {bytes : List UInt8}
    (stored : (List.range (memory.ramFiles file.privateAddress).size).map
      (memory.blocks (memory.ramFiles file.privateAddress).data) = bytes)
    (valid : file.pos ≤ bytes.length) (count : Nat) :
    (ramfsRead memory file count).1 = (bytes.drop file.pos).take count ∧
      bytes.drop (ramfsRead memory file count).2.pos = (bytes.drop file.pos).drop count ∧
      (ramfsRead memory file count).2.pos ≤ bytes.length ∧
      (ramfsRead memory file count).2.privateAddress = file.privateAddress := by
  have length : bytes.length = (memory.ramFiles file.privateAddress).size := by
    rw [← stored, List.length_map, List.length_range]
  simp only [ramfsRead, ← length, if_pos valid]
  refine ⟨?_, ?_, by omega, trivial⟩
  · apply List.ext_getElem
    · simp
    · intro index _ _
      simp [← stored]
  · rw [List.drop_drop]
    by_cases short : count ≤ bytes.length - file.pos
    · rw [Nat.min_eq_left short]
    · rw [List.drop_eq_nil_of_le (by omega), List.drop_eq_nil_of_le (by omega)]

/-- Reads return consecutive slices. The induction is on the reads; the position stays
inside of the file. -/
theorem ramfsReads_slices {memory : Memory} {file : File} {bytes : List UInt8}
    (stored : (List.range (memory.ramFiles file.privateAddress).size).map
      (memory.blocks (memory.ramFiles file.privateAddress).data) = bytes)
    (valid : file.pos ≤ bytes.length) (counts : List Nat) :
    ramfsReads memory file counts = slices (bytes.drop file.pos) counts := by
  induction counts generalizing file with
  | nil => rfl
  | cons count later ih =>
    obtain ⟨read, rest, validNext, sameFile⟩ := ramfsRead_eq stored valid count
    rw [ramfsReads, slices, read, ← rest]
    rw [ih (by rw [sameFile]; exact stored) validNext]

/-- Opening a path, and reading what is opened: a file has its bytes, a directory is
refused, and so is what is not there. -/
def OpensAs (memory : Memory) (root volume : Nat) (path : List UInt8) : Option Entry → Prop
  | some (.file _ bytes) => ∃ file, ramfsOpen memory root volume path = .ok file ∧
      ∀ counts, ramfsReads memory file counts = slices bytes counts ∧
        (ramfsReads memory file counts).flatten <+: bytes ∧
        (bytes.length ≤ counts.sum → (ramfsReads memory file counts).flatten = bytes)
  | some (.dir _ _) => ramfsOpen memory root volume path = .error .eisdir
  | none => ramfsOpen memory root volume path = .error .epath

/-- `ramfs_open` opens what is in the tree. -/
theorem Represents.opensAs {memory : Memory} {root : Nat} {entry : Entry}
    (held : Represents inside memory root entry) (proper : Proper entry) (volume : Nat) {names : List Segment}
    (words : ∀ name ∈ names, Word name) :
    OpensAs memory root volume (rooted names false) (entry.find names) := by
  have traversed := held.nodeTraverse proper words
  cases leads : entry.find names with
  | none =>
    rw [leads] at traversed
    simp only [OpensAs, ramfsOpen, atNode, traversed]
  | some found =>
    rw [leads] at traversed
    obtain ⟨node, reached, foundHeld⟩ := traversed
    cases foundHeld with
    | dir _ type => simp only [OpensAs, ramfsOpen, atNode, reached, ramfsOpenNode, type, if_true]
    | file owned ownedData type named leaf stored =>
      have notDir : ¬ (memory.nodes node).type = ramfsDir := by
        rw [type]
        decide
      refine ⟨⟨volume, 0, node, none, .ramfs⟩, ?_, ?_⟩
      · simp only [ramfsOpen, atNode, reached, ramfsOpenNode, if_neg notDir]
      · intro counts
        have reads := @ramfsReads_slices memory ⟨volume, 0, node, none, .ramfs⟩ _ stored (Nat.zero_le _) counts
        rw [List.drop_zero] at reads
        rw [reads, slices_flatten]
        refine ⟨rfl, List.take_prefix _ _, ?_⟩
        intro all
        exact List.take_of_length_le all

/-- The ram disk is preserved. Its copy is in memory that was not in use, and so it stays
when the loader's memory is used for something else.

Proof: the copy represents the same tree, by induction on its depth, and a lookup in memory that
represents a tree finds what the tree has. -/
theorem ram_disk_preserved (allocator : Allocator) (memory : Memory) (boot : Nat) (name : List UInt8)
    (children : List Entry) (held : Represents (· ∈ memory.used) memory boot (.dir name children))
    (proper : Proper (.dir name children)) (depth : Nat) (enough : (Entry.dir name children).depth ≤ depth) :
    ∃ after root, ramfsLoadDir allocator depth memory boot = some (after, root) ∧
      ∀ later, Agree (fun address => address ∉ memory.used ∧ address ∈ after.used) after later →
        Represents (fun address => address ∉ memory.used ∧ address ∈ after.used) later root
          (.dir name children) ∧
        ∀ volume names, (∀ part ∈ names, Word part) →
          OpensAs later root volume (rooted names false) ((Entry.dir name children).find names) := by
  have isDir : (memory.nodes boot).type = ramfsDir := by
    cases held with
    | dir _ type => exact type
  obtain ⟨after, root, result, loaded⟩ := ramfsLoadDir_loaded allocator _ memory boot depth held isDir enough
  refine ⟨after, root, result, ?_⟩
  intro later same
  have kept := loaded.held.of_agree same fun _ owned => owned
  exact ⟨kept, fun volume names words => kept.opensAs proper volume words⟩

/-- Allocation behind all addresses in use. -/
def bumpAllocator : Allocator where
  malloc used := used.sum + 1
  fresh used member := by
    have bounded := List.le_sum_of_mem member
    omega

/-- A directory at 1 with a file `a` of three bytes at 2 and an empty directory `d` at 3. -/
def sampleMemory : Memory where
  nodes address :=
    if address = 1 then ⟨ramfsDir, none, [2, 3], []⟩
    else if address = 2 then ⟨ramfsFile, some 1, [], [97]⟩
    else ⟨ramfsDir, some 1, [], [100]⟩
  ramFiles _ := ⟨4, 3⟩
  blocks _ offset := UInt8.ofNat (offset + 7)
  used := [1, 2, 3, 4]

/-- The copy of the file `a`, read in two parts. -/
theorem sample_disk_preserved : ∃ after root,
    ramfsLoadDir bumpAllocator 2 sampleMemory 1 = some (after, root) ∧
      (∃ file, ramfsOpen after root 0 [47, 97] = .ok file ∧ ramfsReads after file [2, 5] = [[7, 8], [9]]) ∧
      ramfsOpen after root 0 [47, 100] = .error .eisdir ∧ ramfsOpen after root 0 [47, 97, 97] = .error .epath := by
  have held : Represents (· ∈ sampleMemory.used) sampleMemory 1
      (.dir [] [.file [97] [7, 8, 9], .dir [100] []]) := by
    refine .dir (by decide) rfl rfl (.cons ?_ (.cons ?_ .nil))
    · exact .file (by decide) (by decide) rfl rfl rfl (by decide)
    · exact .dir (by decide) rfl rfl .nil
  have proper : Proper (.dir [] [.file [97] [7, 8, 9], .dir [100] []]) := by
    refine .dir (by decide) ?_ (by decide) ?_
    · intro child member
      rcases List.mem_cons.mp member with rfl | later
      · exact word_of_all [97] (by decide) (by decide)
      · obtain rfl := List.mem_singleton.mp later
        exact word_of_all [100] (by decide) (by decide)
    · intro child member
      rcases List.mem_cons.mp member with rfl | later
      · exact .file _ _
      · obtain rfl := List.mem_singleton.mp later
        exact .dir List.nodup_nil nofun nofun nofun
  obtain ⟨after, root, result, preserved⟩ := ram_disk_preserved bumpAllocator sampleMemory 1 [] _ held proper 2
    (by decide)
  have paths := (preserved after (Agree.refl after)).2 0
  have single (part : Segment) (isWord : Word part) : ∀ other ∈ [part], Word other :=
    List.forall_mem_singleton.mpr isWord
  obtain ⟨file, opened, reads⟩ := paths [[97]] (single _ (word_of_all [97] (by decide) (by decide)))
  exact ⟨after, root, result, ⟨file, opened, (reads [2, 5]).1⟩,
    paths [[100]] (single _ (word_of_all [100] (by decide) (by decide))),
    paths [[97, 97]] (single _ (word_of_all [97, 97] (by decide) (by decide)))⟩

end Asym.Ramfs
