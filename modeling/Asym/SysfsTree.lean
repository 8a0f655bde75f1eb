import Asym.Catalogues
import Asym.Listings

/-!
# The tree of sysfs

A model of `sysfs_expose` and `sysfs_hide` with the functions they run on. `sysfs_expose` walks the
names of a path with `name_first` and `name_next`, makes the directories that `node_find` does not
find, under copies of the names, and pushes the resource under the last of them. `sysfs_hide` takes
the resource out of its list and frees it when nothing refers to it.

The tree mirrors a catalogue: every node is at the path that the catalogue has it at, and the
children of a node are those of the catalogue, in its order. A new node that is pushed and a leaf
that is removed change both in the same way.
-/

namespace Asym.SysfsTree

open PathParser PathStack PathResolution VolumeLifetimes NodeTrees Ramfs PathLookup ProgramLoads Catalogues

/-- `resource_t` after its node. The functions are addresses, `NULL` is none. -/
structure Resource where
  ops : Nat
  privateAddress : Nat
  opens : Option Nat
  delete : Option Nat
  ref : Nat
  hidden : Bool
  deriving DecidableEq, Repr

/-- Memory, with the resources by the addresses of their nodes. -/
structure Sysfs where
  memory : Memory
  resources : Nat → Resource

/-- `"root"`. -/
def rootName : List UInt8 := [114, 111, 111, 116]

/-- `sysfs_init`. The root is no address that `malloc` gives. -/
def sysfsInit (memory : Memory) (root : Nat) : Memory :=
  nodeInit { memory with used := root :: memory.used } root rootName sysfsSystem

/-- `name_first`. -/
def nameFirst (path : List UInt8) : Option (List UInt8) :=
  if charAt path = 0 then none
  else if charAt path = nameSeparator then
    if charAt path.tail = 0 then none else some path.tail
  else some path

/-- The loop of `name_copy`, with the turns that are left. -/
def copyUpTo : Nat → List UInt8 → List UInt8
  | 0, _ => []
  | turns + 1, src => if endOfName (charAt src) then [] else charAt src :: copyUpTo turns src.tail

/-- `name_copy`. -/
def nameCopy (src : List UInt8) : List UInt8 := copyUpTo (maxName - 1) src

/-- `malloc`, `node_init` and `node_push` of a new node. -/
def pushNew (allocator : Allocator) (memory : Memory) (parent : Nat) (name : List UInt8) (type : Nat) : Memory :=
  nodePush (nodeInit (memory.take allocator) (memory.next allocator) name type) parent (memory.next allocator)

/-- One turn of the loop in `sysfs_expose`: memory, and the parent of the next turn. -/
def exposeName (allocator : Allocator) (memory : Memory) (parent : Nat) (name : List UInt8) : Memory × Nat :=
  match nodeFind memory.nodes parent name nameSeparator with
  | some child => (memory, child)
  | none => (pushNew allocator memory parent (nameCopy name) sysfsSystem, memory.next allocator)

/-- The loop in `sysfs_expose`. Every turn goes on with a shorter rest of the path. -/
def exposeFrom (allocator : Allocator) : Nat → Memory → Nat → Option (List UInt8) → Option (Memory × Nat)
  | 0, _, _, _ => none
  | _ + 1, memory, parent, none => some (memory, parent)
  | fuel + 1, memory, parent, some name =>
      let made := exposeName allocator memory parent name
      exposeFrom allocator fuel made.1 made.2 (nameNext name)

/-- The arguments of `sysfs_expose` that are stored in the resource. -/
structure Arguments where
  ops : Nat
  privateAddress : Nat
  opens : Option Nat
  delete : Option Nat
  deriving DecidableEq, Repr

/-- The resource that `sysfs_expose` makes of its arguments. -/
def Arguments.resource (arguments : Arguments) : Resource :=
  ⟨arguments.ops, arguments.privateAddress, arguments.opens, arguments.delete, 1, false⟩

/-- `sysfs_expose`, with the address of the resource. -/
def sysfsExpose (allocator : Allocator) (root : Nat) (sysfs : Sysfs) (path filename : List UInt8)
    (arguments : Arguments) : Option (Sysfs × Nat) :=
  (exposeFrom allocator (path.length + 1) sysfs.memory root (nameFirst path)).map fun made =>
    let resource := made.1.next allocator
    (⟨pushNew allocator made.1 made.2 filename sysfsResource,
      Function.update sysfs.resources resource arguments.resource⟩, resource)

/-- `list_remove`. An entry is in one list at most, and then it points at itself. -/
def listRemove (memory : Memory) (entry : Nat) : Memory :=
  { memory with nodes := fun node =>
      { memory.nodes node with children := (memory.nodes node).children.erase entry } }

/-- `node_remove`. -/
def nodeRemove (memory : Memory) (node : Nat) : Memory :=
  if (memory.nodes node).children ≠ [] then memory
  else if (memory.nodes node).parent = none then memory
  else
    let removed := listRemove memory node
    { removed with nodes := Function.update removed.nodes node { removed.nodes node with parent := none } }

/-- `free`. -/
def free (memory : Memory) (address : Nat) : Memory :=
  { memory with used := memory.used.erase address }

/-- `resource_free`, with what the delete callbacks do. -/
def resourceFree (callback : Nat → Sysfs → Nat → Sysfs) (sysfs : Sysfs) (resource : Nat) : Sysfs :=
  let deleted := match (sysfs.resources resource).delete with
    | none => sysfs
    | some function => callback function sysfs resource
  { deleted with memory := free (nodeRemove deleted.memory resource) resource }

/-- `sysfs_hide`. -/
def sysfsHide (callback : Nat → Sysfs → Nat → Sysfs) (sysfs : Sysfs) (resource : Nat) : Sysfs :=
  let data := sysfs.resources resource
  let dropped : Sysfs := ⟨listRemove sysfs.memory resource,
    Function.update sysfs.resources resource { data with hidden := true, ref := data.ref - 1 }⟩
  if data.ref ≤ 1 then resourceFree callback dropped resource else dropped

/-- A catalogue whose items stand for nodes at addresses. -/
abbrev Ledger := List (Item Segment × Nat)

/-- The nodes of a ledger that are below a path, in its order. -/
def Ledger.below (ledger : Ledger) (path : List Segment) : Ledger :=
  ledger.filter fun entry => entry.1.parent = path

/-- The type of the node for an item. -/
def nodeType (item : Item Segment) : Nat := if item.leaf then sysfsResource else sysfsSystem

/-- A tree of nodes mirrors a ledger. -/
structure Mirrors (memory : Memory) (root : Nat) (ledger : Ledger) : Prop where
  follows : ∀ names node, Follows memory.nodes root names node ↔
    (names = [] ∧ node = root) ∨ ∃ item, (item, node) ∈ ledger ∧ item.path = names
  children : ∀ names node, Follows memory.nodes root names node →
    (memory.nodes node).children = (ledger.below names).map Prod.snd
  data : ∀ entry ∈ ledger, (memory.nodes entry.2).name = entry.1.name ∧
    (memory.nodes entry.2).type = nodeType entry.1
  used : ∀ entry ∈ ledger, entry.2 ∈ memory.used ∧ entry.2 ≠ root
  rooted : root ∈ memory.used ∧ (memory.nodes root).type = sysfsSystem
  addresses : (ledger.map Prod.snd).Nodup
  paths : (ledger.map fun entry => entry.1.path).Nodup
  names : ∀ entry ∈ ledger, Word entry.1.name ∧ entry.1.name.length < maxName
  leaves : ∀ entry ∈ ledger, entry.1.leaf = true → ∀ other ∈ ledger, other.1.parent ≠ entry.1.path

section Trees

variable {memory : Memory} {root : Nat} {ledger : Ledger}

/-- Every node of the tree is in use. -/
theorem Mirrors.follows_used (mirrors : Mirrors memory root ledger) {names : List Segment} {node : Nat}
    (followed : Follows memory.nodes root names node) : node ∈ memory.used := by
  rcases (mirrors.follows names node).mp followed with ⟨-, rfl⟩ | ⟨item, member, -⟩
  · exact mirrors.rooted.1
  · exact (mirrors.used _ member).1

/-- Items at one address are the same. -/
theorem Mirrors.same_item (mirrors : Mirrors memory root ledger) {first second : Item Segment} {node : Nat}
    (member : (first, node) ∈ ledger) (other : (second, node) ∈ ledger) : first = second :=
  congrArg Prod.fst (List.inj_on_of_nodup_map mirrors.addresses member other rfl)

/-- Items at one path are at the same address. -/
theorem Mirrors.same_node (mirrors : Mirrors memory root ledger) {first second : Item Segment × Nat}
    (member : first ∈ ledger) (other : second ∈ ledger) (path : first.1.path = second.1.path) :
    first = second :=
  List.inj_on_of_nodup_map mirrors.paths member other path

/-- Every node is at one path. -/
theorem Mirrors.unique_path (mirrors : Mirrors memory root ledger) {first second : List Segment} {node : Nat}
    (followed : Follows memory.nodes root first node) (other : Follows memory.nodes root second node) :
    first = second := by
  rcases (mirrors.follows first node).mp followed with ⟨rfl, rfl⟩ | ⟨item, member, rfl⟩
  · rcases (mirrors.follows second node).mp other with ⟨rfl, -⟩ | ⟨item, member, -⟩
    · rfl
    · exact absurd rfl (mirrors.used _ member).2
  · rcases (mirrors.follows second node).mp other with ⟨-, rfl⟩ | ⟨another, another_, rfl⟩
    · exact absurd rfl (mirrors.used _ member).2
    · rw [mirrors.same_item member another_]

/-- Every path leads to one node. -/
theorem Mirrors.unique_node (mirrors : Mirrors memory root ledger) {names : List Segment} {first second : Nat}
    (followed : Follows memory.nodes root names first) (other : Follows memory.nodes root names second) :
    first = second := by
  rcases (mirrors.follows names first).mp followed with ⟨rfl, rfl⟩ | ⟨item, member, path⟩
  · rcases (mirrors.follows _ second).mp other with ⟨-, rfl⟩ | ⟨item, -, path⟩
    · rfl
    · simp [Item.path] at path
  · rcases (mirrors.follows names second).mp other with ⟨rfl, rfl⟩ | ⟨another, another_, otherPath⟩
    · simp [Item.path] at path
    · exact congrArg Prod.snd (mirrors.same_node member another_ (path.trans otherPath.symm))

/-- The children of a node are named as in the ledger. -/
theorem Mirrors.mem_children (mirrors : Mirrors memory root ledger) {names : List Segment} {node : Nat}
    (followed : Follows memory.nodes root names node) (child : Nat) :
    child ∈ (memory.nodes node).children ↔ ∃ item, (item, child) ∈ ledger ∧ item.parent = names := by
  rw [mirrors.children names node followed]
  simp [Ledger.below]

/-- The names below a path are different. -/
theorem Mirrors.below_names (mirrors : Mirrors memory root ledger) (names : List Segment) :
    ((ledger.below names).map fun entry => entry.1.name).Nodup := by
  have paths : ((ledger.below names).map fun entry => entry.1.path).Nodup :=
    mirrors.paths.sublist (List.filter_sublist.map _)
  have split : ((ledger.below names).map fun entry => entry.1.path) =
      ((ledger.below names).map fun entry => entry.1.name).map fun name => names ++ [name] := by
    rw [List.map_map]
    apply List.map_congr_left
    intro entry member
    have parent : entry.1.parent = names := by simpa using (List.mem_filter.mp member).2
    rw [Function.comp_apply, Item.path, parent]
  rw [split] at paths
  exact paths.of_map

/-- Siblings have different proper names. -/
theorem Mirrors.wellNamed (mirrors : Mirrors memory root ledger) : WellNamed memory.nodes root := by
  intro names node followed
  have shape := mirrors.children names node followed
  have named : (memory.nodes node).children.map (fun child => (memory.nodes child).name) =
      (ledger.below names).map fun entry => entry.1.name := by
    rw [shape, List.map_map]
    apply List.map_congr_left
    intro entry member
    exact (mirrors.data entry (List.mem_filter.mp member).1).1
  refine ⟨?_, ?_, ?_⟩
  · rw [named]
    exact mirrors.below_names names
  · intro child member
    obtain ⟨item, known, -⟩ := (mirrors.mem_children followed child).mp member
    rw [(mirrors.data _ known).1]
    exact (mirrors.names _ known).1
  · intro child member
    obtain ⟨item, known, -⟩ := (mirrors.mem_children followed child).mp member
    rw [(mirrors.data _ known).1]
    exact (mirrors.names _ known).2

/-- The children of a node after a push are the old ones, and the new child of its parent. -/
theorem mem_pushed {children : List Nat} {above parent node child : Nat} :
    node ∈ (if above = parent then children ++ [child] else children) ↔
      node ∈ children ∨ above = parent ∧ node = child := by
  split_ifs with isParent
  · rw [List.mem_append, List.mem_singleton, and_iff_right isParent]
  · rw [or_iff_left fun new => isParent new.1]

/-- The new tree leads where the old one did, and to the new child. The induction is on the names
from their end. -/
theorem follows_push {nodes after : Nat → Node} {parent child : Nat} {name : Segment}
    (fresh : ∀ names node, Follows nodes root names node → node ≠ child)
    (own : (after child).name = name ∧ (after child).children = [])
    (same : ∀ node, node ≠ child → (after node).name = (nodes node).name)
    (grown : ∀ node, node ≠ child → (after node).children =
      if node = parent then (nodes node).children ++ [child] else (nodes node).children)
    (names : List Segment) (node : Nat) :
    Follows after root names node ↔ Follows nodes root names node ∨
      node = child ∧ ∃ above, Follows nodes root above parent ∧ names = above ++ [name] := by
  induction names using List.reverseRecOn generalizing node with
  | nil =>
    rw [follows_nil, follows_nil]
    simp
  | append_singleton names last ih =>
    rw [follows_snoc, follows_snoc]
    constructor
    · rintro ⟨above, followed, member, named⟩
      rcases (ih above).mp followed with before | ⟨rfl, -⟩
      · have different := fresh names above before
        rw [grown above different] at member
        rcases mem_pushed.mp member with older | ⟨rfl, rfl⟩
        · have notChild := fresh (names ++ [(nodes node).name]) node
            (follows_snoc.mpr ⟨above, before, older, rfl⟩)
          rw [same node notChild] at named
          exact .inl ⟨above, before, older, named⟩
        · exact .inr ⟨rfl, names, before, by rw [← named, own.1]⟩
      · rw [own.2] at member
        cases member
    · rintro (⟨above, before, older, named⟩ | ⟨rfl, above, before, shape⟩)
      · have notChild := fresh (names ++ [last]) node (follows_snoc.mpr ⟨above, before, older, named⟩)
        refine ⟨above, (ih above).mpr (.inl before), ?_, by rw [same node notChild, named]⟩
        rw [grown above (fresh names above before)]
        exact mem_pushed.mpr (.inl older)
      · obtain ⟨rfl, last_⟩ := List.append_inj' shape rfl
        obtain rfl : last = name := List.singleton_inj.mp last_
        refine ⟨parent, (ih parent).mpr (.inl before), ?_, own.1⟩
        rw [grown parent (fresh names parent before)]
        exact mem_pushed.mpr (.inr ⟨rfl, rfl⟩)

/-- A new node after it was pushed. -/
theorem pushNew_child (allocator : Allocator) (memory : Memory) {parent : Nat}
    (different : memory.next allocator ≠ parent) (name : List UInt8) (type : Nat) :
    (pushNew allocator memory parent name type).nodes (memory.next allocator) =
      ⟨type, some parent, [], name⟩ := by
  simp only [pushNew, nodePush, nodeInit, Function.update_self, Function.update_of_ne different]

/-- The other nodes after a new node was pushed. -/
theorem pushNew_other (allocator : Allocator) (memory : Memory) (parent : Nat) (name : List UInt8) (type : Nat)
    (node : Nat) (other : node ≠ memory.next allocator) :
    (pushNew allocator memory parent name type).nodes node = { memory.nodes node with
      children := if node = parent then (memory.nodes node).children ++ [memory.next allocator]
        else (memory.nodes node).children } := by
  simp only [pushNew, nodePush, nodeInit, Memory.take]
  by_cases isParent : node = parent
  · subst isParent
    simp only [Function.update_self, Function.update_of_ne other, if_true]
  · simp only [Function.update_of_ne isParent, Function.update_of_ne other, if_neg isParent]

/-- No new node is in the tree. -/
theorem Mirrors.fresh (mirrors : Mirrors memory root ledger) (allocator : Allocator) {names : List Segment}
    {node : Nat} (followed : Follows memory.nodes root names node) : node ≠ memory.next allocator := by
  rintro rfl
  exact allocator.fresh memory.used (mirrors.follows_used followed)

/-- An item is at its path. -/
theorem Mirrors.follows_item (mirrors : Mirrors memory root ledger) {entry : Item Segment × Nat}
    (member : entry ∈ ledger) : Follows memory.nodes root entry.1.path entry.2 :=
  (mirrors.follows entry.1.path entry.2).mpr (.inr ⟨entry.1, member, rfl⟩)

/-- Nothing is below a path where nothing is. -/
theorem Mirrors.nothing_below (mirrors : Mirrors memory root ledger) {item : Item Segment}
    (vacant : ∀ entry ∈ ledger, entry.1.path ≠ item.path) : ∀ entry ∈ ledger, entry.1.parent ≠ item.path := by
  intro entry member same
  obtain ⟨parent, toParent, -, -⟩ := follows_snoc.mp (mirrors.follows_item member)
  rcases (mirrors.follows entry.1.parent parent).mp toParent with ⟨none, -⟩ | ⟨above, known, path⟩
  · rw [none] at same
    simp [Item.path] at same
  · exact vacant _ known (path.trans same)

/-- A node is not below itself. -/
theorem parent_ne_path (item : Item Segment) : item.parent ≠ item.path := by
  intro same
  have lengths := congrArg List.length same
  simp [Item.path] at lengths

section Push

variable {allocator : Allocator} {parent : Nat} {item : Item Segment}

/-- A tree with a new node leads to it, and where it did before. -/
theorem Mirrors.push_follows (mirrors : Mirrors memory root ledger)
    (followed : Follows memory.nodes root item.parent parent) (names : List Segment) (node : Nat) :
    Follows (pushNew allocator memory parent item.name (nodeType item)).nodes root names node ↔
      Follows memory.nodes root names node ∨ node = memory.next allocator ∧ names = item.path := by
  have child := pushNew_child allocator memory (mirrors.fresh allocator followed).symm item.name (nodeType item)
  have other := pushNew_other allocator memory parent item.name (nodeType item)
  rw [follows_push (fun _ _ reached => mirrors.fresh allocator reached) (by rw [child]; exact ⟨rfl, rfl⟩)
    (fun node different => by rw [other node different])
    (fun node different => by rw [other node different])]
  refine or_congr_right (and_congr_right fun _ => ⟨?_, ?_⟩)
  · rintro ⟨above, before, rfl⟩
    rw [mirrors.unique_path before followed]
    rfl
  · rintro rfl
    exact ⟨item.parent, followed, rfl⟩

/-- The children in a tree with a new node. -/
theorem Mirrors.push_children (mirrors : Mirrors memory root ledger)
    (followed : Follows memory.nodes root item.parent parent)
    (vacant : ∀ entry ∈ ledger, entry.1.path ≠ item.path) (names : List Segment) (node : Nat)
    (reached : Follows (pushNew allocator memory parent item.name (nodeType item)).nodes root names node) :
    ((pushNew allocator memory parent item.name (nodeType item)).nodes node).children =
      (Ledger.below (ledger ++ [(item, memory.next allocator)]) names).map Prod.snd := by
  rw [Ledger.below, List.filter_append, List.map_append, ← Ledger.below]
  rcases (mirrors.push_follows followed names node).mp reached with before | ⟨rfl, rfl⟩
  · rw [pushNew_other allocator memory parent _ _ node (mirrors.fresh allocator before)]
    dsimp only
    rw [mirrors.children names node before]
    by_cases isParent : node = parent
    · subst isParent
      simp [mirrors.unique_path before followed]
    · have elsewhere : item.parent ≠ names := by
        rintro rfl
        exact isParent (mirrors.unique_node before followed)
      simp [isParent, elsewhere]
  · have empty : ledger.below item.path = [] := by
      rw [Ledger.below, List.filter_eq_nil_iff]
      intro entry member
      simpa using mirrors.nothing_below vacant entry member
    rw [pushNew_child allocator memory (mirrors.fresh allocator followed).symm]
    simp [empty, parent_ne_path]

/-- One more item keeps values different if its own value is new. -/
theorem nodup_snoc {Entry Value : Type} {value : Entry → Value} {entries : List Entry} {last : Entry}
    (different : (entries.map value).Nodup) (new : ∀ entry ∈ entries, value entry ≠ value last) :
    ((entries ++ [last]).map value).Nodup := by
  rw [List.map_append, List.nodup_append]
  refine ⟨different, List.nodup_singleton _, ?_⟩
  intro first member second lastMember
  obtain ⟨entry, known, rfl⟩ := List.mem_map.mp member
  rw [List.map_singleton, List.mem_singleton] at lastMember
  rw [lastMember]
  exact new entry known

/-- A tree with a new node mirrors the ledger with a new item. -/
theorem Mirrors.push (mirrors : Mirrors memory root ledger)
    (followed : Follows memory.nodes root item.parent parent)
    (proper : Word item.name ∧ item.name.length < maxName)
    (vacant : ∀ entry ∈ ledger, entry.1.path ≠ item.path)
    (folder : ∀ entry ∈ ledger, entry.1.leaf = true → entry.1.path ≠ item.parent) :
    Mirrors (pushNew allocator memory parent item.name (nodeType item)) root
      (ledger ++ [(item, memory.next allocator)]) := by
  have child := pushNew_child allocator memory (mirrors.fresh allocator followed).symm item.name (nodeType item)
  have other := pushNew_other allocator memory parent item.name (nodeType item)
  have kept : ∀ entry ∈ ledger, entry.2 ≠ memory.next allocator := fun entry member =>
    mirrors.fresh allocator (mirrors.follows_item member)
  have rootKept := mirrors.fresh allocator (.here root)
  refine ⟨?_, mirrors.push_children followed vacant, ?_, ?_, ?_, nodup_snoc mirrors.addresses kept,
    nodup_snoc mirrors.paths vacant, ?_, ?_⟩
  · intro names node
    rw [mirrors.push_follows followed, mirrors.follows, or_assoc]
    simp only [List.mem_append, List.mem_singleton, Prod.mk.injEq, or_and_right, exists_or, and_assoc,
      exists_eq_left]
    rw [@eq_comm _ names item.path]
  · refine List.forall_mem_append.mpr ⟨fun entry older => ?_, List.forall_mem_singleton.mpr ?_⟩
    · rw [other entry.2 (kept entry older)]
      exact mirrors.data entry older
    · rw [child]
      exact ⟨rfl, rfl⟩
  · refine List.forall_mem_append.mpr ⟨fun entry older => ?_, List.forall_mem_singleton.mpr ?_⟩
    · exact ⟨List.mem_cons_of_mem _ (mirrors.used entry older).1, (mirrors.used entry older).2⟩
    · exact ⟨List.mem_cons_self, rootKept.symm⟩
  · refine ⟨List.mem_cons_of_mem _ mirrors.rooted.1, ?_⟩
    rw [other root rootKept]
    exact mirrors.rooted.2
  · exact List.forall_mem_append.mpr ⟨mirrors.names, List.forall_mem_singleton.mpr proper⟩
  · refine List.forall_mem_append.mpr ⟨fun entry older leaf => ?_, List.forall_mem_singleton.mpr fun leaf => ?_⟩
    · exact List.forall_mem_append.mpr ⟨mirrors.leaves entry older leaf,
        List.forall_mem_singleton.mpr (folder entry older leaf).symm⟩
    · exact List.forall_mem_append.mpr ⟨mirrors.nothing_below vacant,
        List.forall_mem_singleton.mpr (parent_ne_path item)⟩

end Push

section Removal

variable {item : Item Segment} {resource : Nat}

/-- The children of a node are different. -/
theorem Mirrors.children_nodup (mirrors : Mirrors memory root ledger) {names : List Segment} {node : Nat}
    (followed : Follows memory.nodes root names node) : (memory.nodes node).children.Nodup := by
  rw [mirrors.children names node followed]
  exact mirrors.addresses.sublist (List.filter_sublist.map _)

/-- A leaf has no children. -/
theorem Mirrors.leaf_children (mirrors : Mirrors memory root ledger) (member : (item, resource) ∈ ledger)
    (leaf : item.leaf = true) : (memory.nodes resource).children = [] := by
  rw [mirrors.children item.path resource (mirrors.follows_item member), List.map_eq_nil_iff, Ledger.below,
    List.filter_eq_nil_iff]
  intro entry known
  simpa using mirrors.leaves _ member leaf entry known

/-- A tree without a leaf leads to all other nodes. The induction is on the names from their end. -/
theorem Mirrors.remove_follows (mirrors : Mirrors memory root ledger) (member : (item, resource) ∈ ledger)
    (leaf : item.leaf = true) (names : List Segment) (node : Nat) :
    Follows (listRemove memory resource).nodes root names node ↔
      Follows memory.nodes root names node ∧ node ≠ resource := by
  induction names using List.reverseRecOn generalizing node with
  | nil =>
    rw [follows_nil, follows_nil]
    refine (and_iff_left_of_imp ?_).symm
    rintro rfl
    exact (mirrors.used _ member).2.symm
  | append_singleton names last ih =>
    rw [follows_snoc, follows_snoc]
    constructor
    · rintro ⟨above, followed, child, named⟩
      obtain ⟨before, -⟩ := (ih above).mp followed
      obtain ⟨different, older⟩ := (mirrors.children_nodup before).mem_erase_iff.mp child
      exact ⟨⟨above, before, older, named⟩, different⟩
    · rintro ⟨⟨above, before, older, named⟩, different⟩
      have other : above ≠ resource := by
        rintro rfl
        rw [mirrors.leaf_children member leaf] at older
        cases older
      exact ⟨above, (ih above).mpr ⟨before, other⟩,
        (mirrors.children_nodup before).mem_erase_iff.mpr ⟨different, older⟩, named⟩

/-- A tree without a leaf mirrors the ledger without it. -/
theorem Mirrors.remove (mirrors : Mirrors memory root ledger) (member : (item, resource) ∈ ledger)
    (leaf : item.leaf = true) :
    Mirrors (listRemove memory resource) root (ledger.filter fun entry => entry.2 ≠ resource) := by
  have smaller : (ledger.filter fun entry => entry.2 ≠ resource).Sublist ledger := List.filter_sublist
  refine ⟨?_, ?_, fun entry known => mirrors.data entry (smaller.subset known),
    fun entry known => mirrors.used entry (smaller.subset known), mirrors.rooted,
    mirrors.addresses.sublist (smaller.map _), mirrors.paths.sublist (smaller.map _),
    fun entry known => mirrors.names entry (smaller.subset known), ?_⟩
  · intro names node
    rw [mirrors.remove_follows member leaf, mirrors.follows]
    constructor
    · rintro ⟨rootward | ⟨other, known, path⟩, different⟩
      · exact .inl rootward
      · exact .inr ⟨other, List.mem_filter.mpr ⟨known, by simpa using different⟩, path⟩
    · rintro (⟨rfl, rfl⟩ | ⟨other, known, path⟩)
      · exact ⟨.inl ⟨rfl, rfl⟩, (mirrors.used _ member).2.symm⟩
      · obtain ⟨older, different⟩ := List.mem_filter.mp known
        exact ⟨.inr ⟨other, older, path⟩, by simpa using different⟩
  · intro names node followed
    obtain ⟨before, -⟩ := (mirrors.remove_follows member leaf names node).mp followed
    change (memory.nodes node).children.erase resource = _
    rw [(mirrors.children_nodup before).erase_eq_filter, mirrors.children names node before, List.filter_map,
      Ledger.below, Ledger.below, List.filter_filter, List.filter_filter]
    congr 2
    funext entry
    rw [Bool.eq_iff_iff]
    simp [and_comm]
  · intro entry known isLeaf other otherKnown
    exact mirrors.leaves entry (smaller.subset known) isLeaf other (smaller.subset otherKnown)

/-- A tree that is the same as far as it leads mirrors the same ledger. -/
theorem Mirrors.frame (mirrors : Mirrors memory root ledger) {after : Memory}
    (same : ∀ names node, Follows memory.nodes root names node → (after.nodes node).name = (memory.nodes node).name ∧
      (after.nodes node).type = (memory.nodes node).type ∧
      (after.nodes node).children = (memory.nodes node).children)
    (used : ∀ names node, Follows memory.nodes root names node → node ∈ after.used) :
    Mirrors after root ledger := by
  have leads : ∀ names node, Follows after.nodes root names node ↔ Follows memory.nodes root names node := by
    intro names
    induction names using List.reverseRecOn with
    | nil =>
      intro node
      rw [follows_nil, follows_nil]
    | append_singleton names last ih =>
      intro node
      rw [follows_snoc, follows_snoc]
      refine exists_congr fun above => ?_
      rw [ih]
      refine and_congr_right fun before => ?_
      rw [(same names above before).2.2]
      refine and_congr_right fun child => ?_
      rw [(same _ node (follows_snoc.mpr ⟨above, before, child, rfl⟩)).1]
  refine ⟨fun names node => (leads names node).trans (mirrors.follows names node), ?_, ?_, ?_, ?_,
    mirrors.addresses, mirrors.paths, mirrors.names, mirrors.leaves⟩
  · intro names node followed
    have before := (leads names node).mp followed
    rw [(same names node before).2.2]
    exact mirrors.children names node before
  · intro entry member
    obtain ⟨name, type, -⟩ := same _ _ (mirrors.follows_item member)
    rw [name, type]
    exact mirrors.data entry member
  · intro entry member
    exact ⟨used _ _ (mirrors.follows_item member), (mirrors.used entry member).2⟩
  · refine ⟨used [] root (.here root), ?_⟩
    rw [(same [] root (.here root)).2.1]
    exact mirrors.rooted.2

/-- `node_remove` and `free` of a resource that is in no list leave the tree as it is. -/
theorem Mirrors.freed (mirrors : Mirrors memory root ledger)
    (gone : ∀ names, ¬ Follows memory.nodes root names resource) :
    Mirrors (free (nodeRemove memory resource) resource) root ledger := by
  have apart : ∀ names node, Follows memory.nodes root names node → node ≠ resource := by
    rintro names node followed rfl
    exact gone names followed
  have unlisted : ∀ names node, Follows memory.nodes root names node →
      (memory.nodes node).children.erase resource = (memory.nodes node).children := by
    intro names node followed
    apply List.erase_of_not_mem
    intro child
    exact gone _ (follows_snoc.mpr ⟨node, followed, child, rfl⟩)
  refine mirrors.frame (fun names node followed => ?_) (fun names node followed => ?_)
  · rw [free, nodeRemove]
    split_ifs
    · exact ⟨rfl, rfl, rfl⟩
    · exact ⟨rfl, rfl, rfl⟩
    · simp only [Function.update_of_ne (apart names node followed), listRemove, unlisted names node followed,
        and_self]
  · have there : node ∈ (nodeRemove memory resource).used := by
      rw [nodeRemove]
      split_ifs <;> exact mirrors.follows_used followed
    exact (List.mem_erase_of_ne (apart names node followed)).mpr there

/-- `sysfs_hide` of a resource without a delete callback: the tree mirrors the ledger without it. -/
theorem Mirrors.hide {sysfs : Sysfs} (mirrors : Mirrors sysfs.memory root ledger)
    (callback : Nat → Sysfs → Nat → Sysfs) (member : (item, resource) ∈ ledger) (leaf : item.leaf = true)
    (kept : (sysfs.resources resource).delete = none) :
    Mirrors (sysfsHide callback sysfs resource).memory root
      (ledger.filter fun entry => entry.2 ≠ resource) := by
  have removed := mirrors.remove member leaf
  have gone : ∀ names, ¬ Follows (listRemove sysfs.memory resource).nodes root names resource :=
    fun names followed => ((mirrors.remove_follows member leaf names resource).mp followed).2 rfl
  rw [sysfsHide]
  split_ifs
  · rw [resourceFree]
    simp only [Function.update_self, kept]
    exact removed.freed gone
  · exact removed

end Removal

end Trees

end Asym.SysfsTree
