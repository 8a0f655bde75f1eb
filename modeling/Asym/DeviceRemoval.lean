import Mathlib.Data.List.Nodup
import Mathlib.Logic.Function.Basic
import Mathlib.Tactic.Common

/-!
# The removal of a device

A model of `resource_free` with the functions it runs on: `list_remove`, `node_remove`, and a
delete callback that frees the pointer it is given, as those of keyboards and mice do. Objects
are addresses. The memory records every `free`, and every access to an object that was freed.

`resource_free` hands the resource itself to the callback instead of its private object. So the
resource is freed, used by `node_remove` and freed again, and the private object stays. With the
private object in its place, everything would be freed once.
-/

namespace Asym.DeviceRemoval

/-- The fields of `resource_t` besides its node: whether the delete callback is not `NULL`. -/
structure Resource where
  object : Nat
  deletes : Bool
  ref : Nat
  hidden : Bool

/-- Nodes with their lists of children, resources, and what was freed. `linked` is the node
whose list an entry is in; an entry in no list points at itself. `misused` are the accesses to
objects after they were freed. -/
structure Memory where
  children : Nat → List Nat
  linked : Nat → Option Nat
  parent : Nat → Option Nat
  resources : Nat → Resource
  freed : List Nat
  misused : List Nat

/-- A read or write of an object. -/
def access (memory : Memory) (address : Nat) : Memory :=
  if address ∈ memory.freed then { memory with misused := address :: memory.misused } else memory

/-- `free`. -/
def free (memory : Memory) (address : Nat) : Memory := { memory with freed := address :: memory.freed }

/-- What the entry of a node points at: the entries before and after it, or the head of the
list. -/
def neighbours (entries : List Nat) (head node : Nat) : List Nat :=
  [((entries.takeWhile (· ≠ node)).getLast?).getD head, ((entries.dropWhile (· ≠ node)).tail.head?).getD head]

/-- `list_remove`. -/
def listRemove (memory : Memory) (node : Nat) : Memory :=
  match memory.linked node with
  | none => access memory node
  | some head =>
      let touched := (neighbours (memory.children head) head node).foldl access (access memory node)
      { touched with
        children := Function.update touched.children head ((touched.children head).erase node)
        linked := Function.update touched.linked node none }

/-- `node_remove`. -/
def nodeRemove (memory : Memory) (node : Nat) : Memory :=
  let looked := access memory node
  if looked.children node ≠ [] then looked
  else
    match looked.parent node with
    | none => looked
    | some _ =>
        let removed := listRemove looked node
        { removed with parent := Function.update removed.parent node none }

/-- `kbd_delete` and `mouse_delete`. -/
def deleteObject (memory : Memory) (object : Nat) : Memory := free memory object

/-- `resource_free`, with the pointer that it hands to the delete callback. -/
def release (memory : Memory) (resource given : Nat) : Memory :=
  let looked := access memory resource
  let deleted := if (looked.resources resource).deletes then deleteObject looked given else looked
  free (nodeRemove deleted resource) resource

/-- `resource_free`. -/
def resourceFree (memory : Memory) (resource : Nat) : Memory := release memory resource resource

/-- The `atomic_fetch_sub` on the count of a resource, and what follows from its old value. -/
def dropReference (memory : Memory) (resource : Nat) : Memory :=
  let looked := access memory resource
  let data := looked.resources resource
  let dropped := { looked with
    resources := Function.update looked.resources resource { data with ref := data.ref - 1 } }
  if data.ref ≤ 1 then resourceFree dropped resource else dropped

/-- `sysfs_hide`. -/
def sysfsHide (memory : Memory) (resource : Nat) : Memory :=
  let removed := access (listRemove memory resource) resource
  dropReference { removed with
    resources := Function.update removed.resources resource
      { removed.resources resource with hidden := true } } resource

/-- `sysfs_cleanup` on a file of a resource without a cleanup of its own. -/
def sysfsCleanup (memory : Memory) (resource : Nat) : Memory := dropReference (access memory resource) resource

/-- The lists of children are lists of live nodes, and each entry is in the list of its parent
or in none. -/
structure Tree (memory : Memory) : Prop where
  once : ∀ head, (memory.children head).Nodup
  lists : ∀ head node, node ∈ memory.children head ↔ memory.linked node = some head
  parents : ∀ head node, memory.linked node = some head → memory.parent node = some head
  live : ∀ head node, memory.linked node = some head → node ∉ memory.freed ∧ head ∉ memory.freed

/-- A live resource that was exposed with a live private object and the delete callback. It has
no children, and the object is no node. -/
structure Exposed (memory : Memory) (resource object : Nat) : Prop where
  data : (memory.resources resource).object = object
  deletes : (memory.resources resource).deletes = true
  different : object ≠ resource
  live : resource ∉ memory.freed ∧ object ∉ memory.freed
  unused : resource ∉ memory.misused ∧ object ∉ memory.misused
  leaf : memory.children resource = []
  apart : memory.linked object = none ∧ memory.children object = []

/-- A device was removed: its private object and its resource were freed once, none of them was
used after that, and the resource is in no list. -/
structure FreedOnce (memory : Memory) (resource object : Nat) : Prop where
  objectOnce : memory.freed.count object = 1
  resourceOnce : memory.freed.count resource = 1
  unused : object ∉ memory.misused ∧ resource ∉ memory.misused
  unlinked : ∀ head, resource ∉ memory.children head

section Accesses

variable {memory : Memory} {address node : Nat}

/-- An access changes nothing but the record of misuse. -/
theorem access_same (memory : Memory) (address : Nat) : ∃ misused, access memory address =
    { memory with misused := misused } ∧ memory.misused ⊆ misused := by
  rw [access]
  split
  · exact ⟨_, rfl, List.subset_cons_self _ _⟩
  · exact ⟨memory.misused, rfl, List.Subset.refl _⟩

/-- An access to a live object changes nothing. -/
theorem access_live (live : address ∉ memory.freed) : access memory address = memory := if_neg live

/-- Accesses to live objects change nothing. -/
theorem accesses_live {addresses : List Nat} (live : ∀ address ∈ addresses, address ∉ memory.freed) :
    addresses.foldl access memory = memory := by
  induction addresses with
  | nil => rfl
  | cons first rest ih =>
    rw [List.forall_mem_cons] at live
    rw [List.foldl_cons, access_live live.1]
    exact ih live.2

/-- Accesses change nothing but the record of misuse. -/
theorem accesses_same (memory : Memory) (addresses : List Nat) : ∃ misused, addresses.foldl access memory =
    { memory with misused := misused } ∧ memory.misused ⊆ misused := by
  induction addresses generalizing memory with
  | nil => exact ⟨memory.misused, rfl, List.Subset.refl _⟩
  | cons first rest ih =>
    obtain ⟨early, same, grows⟩ := access_same memory first
    obtain ⟨late, later, growsOn⟩ := ih (access memory first)
    rw [same] at later growsOn
    exact ⟨late, by rw [List.foldl_cons, same, later], List.Subset.trans grows growsOn⟩

/-- The neighbours of an entry are entries of its list or the head. -/
theorem neighbours_near (entries : List Nat) (head node : Nat) :
    ∀ near ∈ neighbours entries head node, near = head ∨ near ∈ entries := by
  intro near member
  rw [neighbours, List.mem_cons, List.mem_singleton] at member
  rcases member with rfl | rfl
  · cases last : (entries.takeWhile (· ≠ node)).getLast? with
    | none => exact .inl rfl
    | some found => exact .inr ((List.takeWhile_sublist _).subset (List.mem_of_getLast? last))
  · cases first : (entries.dropWhile (· ≠ node)).tail.head? with
    | none => exact .inl rfl
    | some found =>
      exact .inr ((List.dropWhile_sublist _).subset (List.mem_of_mem_tail (List.mem_of_head? first)))

end Accesses

section Removal

variable {memory : Memory} {resource object node given : Nat}

/-- `list_remove` frees nothing. -/
theorem listRemove_freed (memory : Memory) (node : Nat) : (listRemove memory node).freed = memory.freed := by
  obtain ⟨first, same, _⟩ := access_same memory node
  rw [listRemove]
  split
  · rw [same]
  · next head _ =>
    obtain ⟨later, rest, _⟩ := accesses_same (access memory node) (neighbours (memory.children head) head node)
    rw [rest]
    simp only [same]

/-- `node_remove` frees nothing. -/
theorem nodeRemove_freed (memory : Memory) (node : Nat) : (nodeRemove memory node).freed = memory.freed := by
  obtain ⟨misused, same, _⟩ := access_same memory node
  have looked : (access memory node).freed = memory.freed := by rw [same]
  rw [nodeRemove]
  dsimp only
  split
  · exact looked
  · split
    · exact looked
    · exact (listRemove_freed _ _).trans looked

/-- `list_remove` of a live node takes it out of its list, and uses no object that was freed. -/
structure Unlinks (before after : Memory) (node : Nat) : Prop where
  tree : Tree after
  unlinked : after.linked node = none
  others : ∀ other, before.linked other = none → after.linked other = none
  children : ∀ head, after.children head ⊆ before.children head
  parent : after.parent = before.parent
  resources : after.resources = before.resources
  freed : after.freed = before.freed
  misused : after.misused = before.misused

/-- The objects that `list_remove` uses are live. -/
theorem listRemove_live {head : Nat} (tree : Tree memory) (here : memory.linked node = some head) :
    listRemove memory node = { memory with
      children := Function.update memory.children head ((memory.children head).erase node)
      linked := Function.update memory.linked node none } := by
  have live := tree.live head node here
  have near : ∀ address ∈ neighbours (memory.children head) head node, address ∉ memory.freed := by
    intro address member
    rcases neighbours_near _ _ _ address member with rfl | entry
    · exact live.2
    · exact (tree.live head address ((tree.lists head address).mp entry)).1
  rw [listRemove, here]
  simp only [access_live live.1, accesses_live near]

/-- `list_remove` of a live node. -/
theorem listRemove_unlinks (tree : Tree memory) (live : node ∉ memory.freed) :
    Unlinks memory (listRemove memory node) node := by
  cases linked : memory.linked node with
  | none =>
    have same : listRemove memory node = memory := by
      rw [listRemove, linked]
      exact access_live live
    rw [same]
    exact ⟨tree, linked, fun _ => id, fun _ => List.Subset.refl _, rfl, rfl, rfl, rfl⟩
  | some head =>
    have others (other : Nat) (different : other ≠ node) :
        (Function.update memory.linked node none) other = memory.linked other :=
      Function.update_of_ne different _ _
    have inside (tested : Nat) : Function.update memory.children head ((memory.children head).erase node) tested ⊆
        memory.children tested := by
      by_cases same : tested = head
      · rw [same, Function.update_self]
        exact List.erase_subset
      · rw [Function.update_of_ne same]
        exact List.Subset.refl _
    have members (tested other : Nat) :
        other ∈ Function.update memory.children head ((memory.children head).erase node) tested ↔
          other ≠ node ∧ other ∈ memory.children tested := by
      by_cases same : tested = head
      · rw [same, Function.update_self]
        exact (tree.once head).mem_erase_iff
      · rw [Function.update_of_ne same]
        refine ⟨fun member => ⟨?_, member⟩, And.right⟩
        rintro rfl
        have elsewhere := (tree.lists tested other).mp member
        rw [linked] at elsewhere
        exact same (Option.some.inj elsewhere).symm
    rw [listRemove_live tree linked]
    refine ⟨⟨?_, ?_, ?_, ?_⟩, Function.update_self _ _ _, ?_, inside, rfl, rfl, rfl, rfl⟩
    · intro tested
      by_cases same : tested = head
      · simp only [same, Function.update_self]
        exact (tree.once head).erase node
      · simp only [Function.update_of_ne same]
        exact tree.once tested
    · intro tested other
      by_cases same : other = node
      · simp [members, same]
      · simp only [members, others other same, tree.lists]
        exact and_iff_right same
    · intro tested other found
      by_cases same : other = node
      · simp [same] at found
      · exact tree.parents tested other ((others other same).symm.trans found)
    · intro tested other found
      by_cases same : other = node
      · simp [same] at found
      · exact tree.live tested other ((others other same).symm.trans found)
    · intro other free
      by_cases same : other = node
      · simp [same]
      · exact (others other same).trans free

/-- `resource_free` frees the resource and what its callback is given. -/
theorem release_freed (deletes : (memory.resources resource).deletes = true) :
    (release memory resource given).freed = resource :: given :: memory.freed := by
  obtain ⟨misused, same, _⟩ := access_same memory resource
  simp only [release, free, nodeRemove_freed, same, deletes, if_true, deleteObject]

/-- `node_remove` of a live node without children, in a memory in which what was freed last is
no node. -/
theorem nodeRemove_clean (tree : Tree memory) (exposed : Exposed memory resource object) :
    ∃ after, nodeRemove (free memory object) resource = after ∧ after.misused = memory.misused ∧
      ∀ head, resource ∉ after.children head := by
  have freedTree : Tree (free memory object) := by
    refine ⟨tree.once, tree.lists, tree.parents, fun head linkedNode found => ?_⟩
    obtain ⟨nodeLive, headLive⟩ := tree.live head linkedNode found
    refine ⟨List.not_mem_cons_of_ne_of_not_mem ?_ nodeLive, List.not_mem_cons_of_ne_of_not_mem ?_ headLive⟩
    · rintro rfl
      have free : memory.linked linkedNode = none := exposed.apart.1
      have linked : memory.linked linkedNode = some head := found
      rw [free] at linked
      cases linked
    · rintro rfl
      have child := (tree.lists head linkedNode).mpr found
      rw [exposed.apart.2] at child
      cases child
  have live : resource ∉ (free memory object).freed :=
    List.not_mem_cons_of_ne_of_not_mem exposed.different.symm exposed.live.1
  refine ⟨_, rfl, ?_⟩
  have leaf : (free memory object).children resource = [] := exposed.leaf
  rw [nodeRemove]
  simp only [access_live live, leaf, ne_eq, not_true_eq_false, if_false]
  split
  · next orphan =>
    refine ⟨rfl, fun head member => ?_⟩
    have found := freedTree.parents head resource ((freedTree.lists head resource).mp member)
    rw [orphan] at found
    cases found
  · have unlinks := listRemove_unlinks freedTree live
    refine ⟨unlinks.misused, fun head member => ?_⟩
    have found := (unlinks.tree.lists head resource).mp member
    rw [unlinks.unlinked] at found
    cases found

/-- `resource_free` frees everything once if and only if the callback is given the private
object. -/
theorem release_once_iff (tree : Tree memory) (exposed : Exposed memory resource object) :
    FreedOnce (release memory resource given) resource object ↔ given = object := by
  have freed : (release memory resource given).freed = resource :: given :: memory.freed :=
    release_freed exposed.deletes
  have objectNever := List.count_eq_zero_of_not_mem exposed.live.2
  have resourceNever := List.count_eq_zero_of_not_mem exposed.live.1
  constructor
  · intro once
    have count := once.objectOnce
    by_contra other
    rw [freed, List.count_cons_of_ne exposed.different.symm, List.count_cons_of_ne other, objectNever] at count
    cases count
  · rintro rfl
    obtain ⟨after, removed, misused, unlinked⟩ := nodeRemove_clean tree exposed
    have released : release memory resource given = free after resource := by
      rw [release]
      simp only [access_live exposed.live.1, exposed.deletes, if_true, deleteObject, removed]
    refine ⟨?_, ?_, ?_, ?_⟩
    · rw [freed, List.count_cons_of_ne exposed.different.symm, List.count_cons_self, objectNever]
    · rw [freed, List.count_cons_self, List.count_cons_of_ne exposed.different, resourceNever]
    · rw [released, free, misused]
      exact exposed.unused.symm
    · rw [released]
      exact unlinked

/-- Other data of the resource may change. -/
theorem Exposed.edit (exposed : Exposed memory resource object) {data : Resource}
    (same : data.object = (memory.resources resource).object) (deletes : data.deletes = true) :
    Exposed { memory with resources := Function.update memory.resources resource data } resource object where
  data := by
    simp only [Function.update_self, same]
    exact exposed.data
  deletes := by
    simp only [Function.update_self]
    exact deletes
  different := exposed.different
  live := exposed.live
  unused := exposed.unused
  leaf := exposed.leaf
  apart := exposed.apart

/-- Other data of resources is no part of the tree. -/
theorem Tree.edit (tree : Tree memory) (resources : Nat → Resource) : Tree { memory with resources := resources } :=
  ⟨tree.once, tree.lists, tree.parents, tree.live⟩

/-- A resource with one reference less. -/
def Resource.dropped (data : Resource) : Resource := { data with ref := data.ref - 1 }

/-- A resource that was hidden. -/
def Resource.shrouded (data : Resource) : Resource := { data with hidden := true }

/-- The last reference of a resource. -/
theorem dropReference_inexact (tree : Tree memory) (exposed : Exposed memory resource object)
    (last : (memory.resources resource).ref ≤ 1) : ¬ FreedOnce (dropReference memory resource) resource object := by
  rw [dropReference]
  simp only [access_live exposed.live.1, last, if_true]
  intro once
  have same : (memory.resources resource).dropped.object = (memory.resources resource).object := rfl
  have given : resource = object := (release_once_iff (tree.edit _) (exposed.edit same exposed.deletes)).mp once
  exact exposed.different given.symm

/-- A resource that was taken out of its list is still exposed. -/
theorem Exposed.removed (exposed : Exposed memory resource object) {after : Memory}
    (unlinks : Unlinks memory after resource) : Exposed after resource object where
  data := by
    rw [unlinks.resources]
    exact exposed.data
  deletes := by
    rw [unlinks.resources]
    exact exposed.deletes
  different := exposed.different
  live := by
    rw [unlinks.freed]
    exact exposed.live
  unused := by
    rw [unlinks.misused]
    exact exposed.unused
  leaf := List.subset_nil.mp (exposed.leaf ▸ unlinks.children resource)
  apart := ⟨unlinks.others object exposed.apart.1, List.subset_nil.mp (exposed.apart.2 ▸ unlinks.children object)⟩

/-- Whatever the tree and the resource, when `sysfs_hide` or the last close runs
`resource_free`, the device is not removed as it should be. -/
theorem device_never_freed_once (memory : Memory) (resource object : Nat) (tree : Tree memory)
    (exposed : Exposed memory resource object) (last : (memory.resources resource).ref ≤ 1) :
    ¬ FreedOnce (sysfsHide memory resource) resource object ∧
      ¬ FreedOnce (sysfsCleanup memory resource) resource object := by
  have unlinks := listRemove_unlinks tree exposed.live.1
  have removed := exposed.removed unlinks
  constructor
  · rw [sysfsHide]
    simp only [access_live removed.live.1]
    have same : ((listRemove memory resource).resources resource).shrouded.object =
        ((listRemove memory resource).resources resource).object := rfl
    refine dropReference_inexact (unlinks.tree.edit _) (removed.edit same removed.deletes) ?_
    simp only [Function.update_self, unlinks.resources]
    exact last
  · rw [sysfsCleanup, access_live exposed.live.1]
    exact dropReference_inexact tree exposed last

/-- The root at 0 with the directory at 1, where the keyboard at 3 was exposed as the resource
at 2. -/
def oneKeyboard : Memory where
  children := fun head => if head = 0 then [1] else if head = 1 then [2] else []
  linked := fun node => if node = 1 then some 0 else if node = 2 then some 1 else none
  parent := fun node => if node = 1 then some 0 else if node = 2 then some 1 else none
  resources := fun _ => ⟨3, true, 1, false⟩
  freed := []
  misused := []

/-- The sample is a tree. -/
theorem oneKeyboard_tree : Tree oneKeyboard where
  once head := by
    simp only [oneKeyboard]
    split_ifs <;> simp
  lists head node := by
    simp only [oneKeyboard]
    split_ifs <;> simp_all <;> omega
  parents _ _ := id
  live _ _ _ := by simp [oneKeyboard]

/-- Hiding the keyboard, or closing its last file, does not remove it as it should be. -/
theorem oneKeyboard_inexact :
    ¬ FreedOnce (sysfsHide oneKeyboard 2) 2 3 ∧ ¬ FreedOnce (sysfsCleanup oneKeyboard 2) 2 3 :=
  device_never_freed_once oneKeyboard 2 3 oneKeyboard_tree
    ⟨rfl, rfl, by decide, by simp [oneKeyboard], by simp [oneKeyboard], rfl, rfl, rfl⟩ (by decide)

/-- Hiding the keyboard frees the resource twice and the keyboard not at all, and the resource
is used in between. -/
theorem oneKeyboard_freed : (sysfsHide oneKeyboard 2).freed = [2, 2] ∧ (sysfsHide oneKeyboard 2).misused ≠ [] ∧
    ¬ FreedOnce (sysfsHide oneKeyboard 2) 2 3 := by
  have freed : (sysfsHide oneKeyboard 2).freed = [2, 2] := by decide
  refine ⟨freed, by decide, fun once => ?_⟩
  have count := once.objectOnce
  rw [freed] at count
  cases count

end Removal

end Asym.DeviceRemoval
