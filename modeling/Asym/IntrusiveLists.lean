import Asym.CircularLists

/-!
# Lists whose entries carry their links

`list_entry_t` and the operations of `sys/list.h`. A collection of entries and heads says for
each of them which others follow it around; a detached entry is followed by none, and so is the
head of an empty list. Every run of operations in which only detached entries are inserted does to
the links what the collection's operations do to the sequences.
-/

namespace Asym.IntrusiveLists

open CircularLists

universe u
variable {Node : Type u}

section Model

variable [DecidableEq Node]

/-- `node->next = value`. -/
def setNext (links : Links Node) (node value : Node) : Links Node :=
  { links with next := Function.update links.next node value }

/-- `node->prev = value`. -/
def setPrev (links : Links Node) (node value : Node) : Links Node :=
  { links with prev := Function.update links.prev node value }

/-- `list_entry_init`, and `list_init` on a head. -/
def listEntryInit (links : Links Node) (entry : Node) : Links Node :=
  setPrev (setNext links entry entry) entry entry

/-- `list_empty`. -/
def listEmpty (links : Links Node) (list : Node) : Bool := links.next list = list

/-- `list_add`. -/
def listAdd (links : Links Node) (prev next elem : Node) : Links Node :=
  let links := setPrev links next elem
  let links := setNext links elem next
  let links := setPrev links elem prev
  setNext links prev elem

/-- `list_append`. -/
def listAppend (links : Links Node) (prev elem : Node) : Links Node := listAdd links prev (links.next prev) elem

/-- `list_prepend`. -/
def listPrepend (links : Links Node) (head elem : Node) : Links Node := listAdd links (links.prev head) head elem

/-- `list_remove`. -/
def listRemove (links : Links Node) (entry : Node) : Links Node :=
  let links := setNext links (links.prev entry) (links.next entry)
  let links := setPrev links (links.next entry) (links.prev entry)
  listEntryInit links entry

/-- `list_push`. -/
def listPush (links : Links Node) (list elem : Node) : Links Node := listAdd links (links.prev list) list elem

/-- `list_pop`. No result stands for `NULL`. -/
def listPop (links : Links Node) (list : Node) : Option Node × Links Node :=
  if listEmpty links list then (none, links)
  else
    let elem := links.next list
    (some elem, listRemove links elem)

/-- `list_first`. -/
def listFirst (links : Links Node) (list : Node) : Option Node :=
  if listEmpty links list then none else some (links.next list)

/-- The elements that `LIST_FOR_EACH` visits. No result means too little fuel. -/
def listForEach (fuel : Nat) (links : Links Node) (list : Node) : Option (List Node) :=
  walk links.next list fuel (links.next list)

/-- The elements that `LIST_FOR_EACH_REVERSE` visits. -/
def listForEachReverse (fuel : Nat) (links : Links Node) (list : Node) : Option (List Node) :=
  walk links.prev list fuel (links.prev list)

/-- A call. -/
inductive Operation (Node : Type u) where
  | init (entry : Node)
  | push (list elem : Node)
  | pop (list : Node)
  | prepend (head elem : Node)
  | append (prev elem : Node)
  | remove (elem : Node)

/-- What a call returns, if anything, and the links that it leaves. -/
def perform (links : Links Node) : Operation Node → Option Node × Links Node
  | .init entry => (none, listEntryInit links entry)
  | .push list elem => (none, listPush links list elem)
  | .pop list => listPop links list
  | .prepend head elem => (none, listPrepend links head elem)
  | .append prev elem => (none, listAppend links prev elem)
  | .remove elem => (none, listRemove links elem)

end Model

section Sequences

/-- Some entries and heads, and the others that follow each of them around. -/
structure Collection (Node : Type u) where
  known : Node → Prop
  around : Node → List Node

/-- Each entry starts the circular list of those that follow it. -/
structure Represents (links : Links Node) (collection : Collection Node) : Prop where
  circular : ∀ node, collection.known node → Circular links node (collection.around node)
  closed : ∀ node, collection.known node → ∀ other ∈ collection.around node, collection.known other

variable [DecidableEq Node]

/-- A detached entry becomes known. -/
def Collection.add (collection : Collection Node) (entry : Node) : Collection Node where
  known node := node = entry ∨ collection.known node
  around := Function.update collection.around entry []

/-- An entry is inserted behind another. Behind itself it stays detached. -/
def Collection.insertAfter (collection : Collection Node) (place elem : Node) : Collection Node :=
  if place = elem then collection
  else { collection with around := fun node =>
    if node = elem then collection.around place ++ [place] else placedAfter place elem node (collection.around node) }

/-- An entry is inserted before another, and at the end if that is the head. -/
def Collection.insertBefore (collection : Collection Node) (place elem : Node) : Collection Node :=
  if place = elem then collection
  else { collection with around := fun node =>
    if node = elem then place :: collection.around place else placedBefore place elem node (collection.around node) }

/-- An entry is deleted where it is, and detached. -/
def Collection.delete (collection : Collection Node) (elem : Node) : Collection Node :=
  { collection with around := fun node => if node = elem then [] else (collection.around node).erase elem }

/-- What a call does to the sequences, and the entry that it returns. -/
def Collection.apply (collection : Collection Node) : Operation Node → Option Node × Collection Node
  | .init entry => (none, collection.add entry)
  | .push list elem => (none, collection.insertBefore list elem)
  | .pop list => match collection.around list with
      | [] => (none, collection)
      | elem :: _ => (some elem, collection.delete elem)
  | .prepend head elem => (none, collection.insertBefore head elem)
  | .append prev elem => (none, collection.insertAfter prev elem)
  | .remove elem => (none, collection.delete elem)

/-- Only detached entries are inserted, and an entry is initialised while it is new or detached. -/
def Allowed (collection : Collection Node) : Operation Node → Prop
  | .init entry => ¬ collection.known entry ∨ collection.around entry = []
  | .push list elem => collection.known list ∧ collection.known elem ∧ collection.around elem = []
  | .pop list => collection.known list
  | .prepend head elem => collection.known head ∧ collection.known elem ∧ collection.around elem = []
  | .append prev elem => collection.known prev ∧ collection.known elem ∧ collection.around elem = []
  | .remove elem => collection.known elem

/-- Runs of allowed operations. -/
inductive Run (start : Links Node) (collection : Collection Node) : Links Node → Collection Node → Prop where
  | start : Run start collection start collection
  | step {links : Links Node} {current : Collection Node} (earlier : Run start collection links current)
      (operation : Operation Node) (allowed : Allowed current operation) :
      Run start collection (perform links operation).2 (current.apply operation).2

end Sequences

section Writes

variable [DecidableEq Node] {links : Links Node} {place elem : Node}

/-- The writes of `list_add` link two pairs. -/
theorem listAdd_eq (links : Links Node) (prev next elem : Node) :
    listAdd links prev next elem = (links.join elem next).join prev elem := rfl

/-- The writes of `list_remove` link the neighbours, and the entry to itself. -/
theorem listRemove_eq (links : Links Node) (entry : Node) :
    listRemove links entry = (links.join (links.prev entry) (links.next entry)).join entry entry := by
  -- The first write does not change what the second reads, even if the entry is its own neighbour.
  have read : (setNext links (links.prev entry) (links.next entry)).next entry = links.next entry := by
    by_cases self : entry = links.prev entry
    · rw [setNext, ← self]
      exact Function.update_self _ _ _
    · exact Function.update_of_ne self _ _
  rw [listRemove, read]
  rfl

/-- An entry that is linked to itself is removed again without any change. -/
theorem listRemove_self (next : links.next elem = elem) (prev : links.prev elem = elem) :
    listRemove links elem = links := by
  rw [listRemove_eq, next, prev, join_self next prev, join_self next prev]

end Writes

section Steps

variable {links : Links Node} {collection : Collection Node} {place elem : Node}

/-- A detached entry is linked to itself. -/
theorem Represents.detached (represents : Represents links collection) (known : collection.known elem)
    (alone : collection.around elem = []) : links.next elem = elem ∧ links.prev elem = elem := by
  have circular := (represents.circular elem known).chain
  rw [alone, List.cons_append, List.nil_append, List.isChain_pair] at circular
  exact circular

/-- A detached entry follows no other. -/
theorem Represents.fresh (represents : Represents links collection) (known : collection.known elem)
    (alone : collection.around elem = []) {node : Node} (other : collection.known node) (differs : node ≠ elem) :
    elem ∉ node :: collection.around node :=
  (represents.circular node other).self_absent (represents.detached known alone).1 differs

/-- The next node of a list's head. -/
theorem Represents.next (represents : Represents links collection) {list : Node} (known : collection.known list) :
    links.next list = (collection.around list).headD list := by
  have chain := (represents.circular list known).chain
  cases split : collection.around list with
  | nil => exact (represents.detached known split).1
  | cons first rest =>
    rw [split, List.cons_append, List.cons_append, List.isChain_cons_cons] at chain
    exact chain.1.1

variable [DecidableEq Node]

/-- Inserting a detached entry next to itself leaves the links. -/
theorem Represents.insert_self (represents : Represents links collection) (known : collection.known elem)
    (alone : collection.around elem = []) : (links.join elem elem).join elem elem = links := by
  obtain ⟨next, prev⟩ := represents.detached known alone
  rw [join_self next prev, join_self next prev]

/-- An insertion behind an entry. -/
theorem Represents.insertAfter (represents : Represents links collection) (there : collection.known place)
    (known : collection.known elem) (alone : collection.around elem = []) :
    Represents (listAppend links place elem) (collection.insertAfter place elem) := by
  rw [listAppend, listAdd_eq, Collection.insertAfter]
  split_ifs with same
  · subst same
    rw [(represents.detached known alone).1, represents.insert_self known alone]
    exact represents
  · have fresh := represents.fresh known alone there same
    refine ⟨fun node inside => ?_, fun node inside other member => ?_⟩
    · dsimp only
      split_ifs with new
      · subst new
        exact (represents.circular place there).inserted_after fresh
      · have freshHere := represents.fresh known alone inside new
        by_cases inRound : place ∈ node :: collection.around node
        · exact (represents.circular node inside).insert_after inRound freshHere
        · rw [placedAfter_absent inRound]
          exact (represents.circular node inside).insert_apart (represents.circular place there).neighbours.2
            (.inl inRound) freshHere
    · dsimp only at member
      split_ifs at member with new
      · rcases List.mem_append.mp member with earlier | last
        · exact represents.closed place there other earlier
        · exact List.mem_singleton.mp last ▸ there
      · rcases mem_placedAfter member with rfl | earlier
        · exact known
        · exact represents.closed node inside other earlier

/-- An insertion before an entry. -/
theorem Represents.insertBefore (represents : Represents links collection) (there : collection.known place)
    (known : collection.known elem) (alone : collection.around elem = []) :
    Represents (listPrepend links place elem) (collection.insertBefore place elem) := by
  rw [listPrepend, listAdd_eq, Collection.insertBefore]
  split_ifs with same
  · subst same
    rw [(represents.detached known alone).2, represents.insert_self known alone]
    exact represents
  · have fresh := represents.fresh known alone there same
    refine ⟨fun node inside => ?_, fun node inside other member => ?_⟩
    · dsimp only
      split_ifs with new
      · subst new
        exact (represents.circular place there).inserted_before fresh
      · have freshHere := represents.fresh known alone inside new
        by_cases inRound : place ∈ node :: collection.around node
        · exact (represents.circular node inside).insert_before inRound freshHere
        · rw [placedBefore_absent inRound]
          exact (represents.circular node inside).insert_apart (represents.circular place there).neighbours.1
            (.inr inRound) freshHere
    · dsimp only at member
      split_ifs at member with new
      · rcases List.mem_cons.mp member with rfl | earlier
        · exact there
        · exact represents.closed place there other earlier
      · rcases mem_placedBefore member with rfl | earlier
        · exact known
        · exact represents.closed node inside other earlier

/-- A deletion. -/
theorem Represents.delete (represents : Represents links collection) (known : collection.known elem) :
    Represents (listRemove links elem) (collection.delete elem) := by
  obtain ⟨ahead, after⟩ := (represents.circular elem known).neighbours
  rw [listRemove_eq, Collection.delete]
  refine ⟨fun node inside => ?_, fun node inside other member => ?_⟩
  · dsimp only
    split_ifs with same
    · exact same ▸ circular_self _ _
    · by_cases inRound : elem ∈ collection.around node
      · exact (represents.circular node inside).remove inRound
      · rw [List.erase_of_not_mem inRound]
        refine (represents.circular node inside).remove_apart ahead after ?_
        rw [List.mem_cons, not_or]
        exact ⟨Ne.symm same, inRound⟩
  · dsimp only at member
    split_ifs at member with same
    · cases member
    · exact represents.closed node inside other (List.mem_of_mem_erase member)

/-- A new or detached entry is initialised. -/
theorem Represents.add (represents : Represents links collection)
    (new : ¬ collection.known elem ∨ collection.around elem = []) :
    Represents (listEntryInit links elem) (collection.add elem) := by
  refine ⟨fun node inside => ?_, fun node inside other member => ?_⟩
  · by_cases same : node = elem
    · subst same
      simp only [Collection.add, Function.update_self]
      exact circular_self links node
    · have earlier := inside.resolve_left same
      simp only [Collection.add, Function.update_of_ne same]
      refine (represents.circular node earlier).self_apart ?_
      by_cases known : collection.known elem
      · exact represents.fresh known (new.resolve_left (not_not_intro known)) earlier same
      · rw [List.mem_cons, not_or]
        exact ⟨Ne.symm same, fun there => known (represents.closed node earlier elem there)⟩
  · by_cases same : node = elem
    · subst same
      simp only [Collection.add, Function.update_self] at member
      cases member
    · simp only [Collection.add, Function.update_of_ne same] at member
      exact .inr (represents.closed node (inside.resolve_left same) other member)

/-- Whether a list is empty. -/
theorem Represents.empty (represents : Represents links collection) {list : Node} (known : collection.known list) :
    listEmpty links list = (collection.around list).isEmpty := by
  have nodup := (represents.circular list known).nodup
  rw [listEmpty, represents.next known]
  cases split : collection.around list with
  | nil => simp
  | cons first rest =>
    rw [split, List.nodup_cons, List.mem_cons, not_or] at nodup
    exact decide_eq_false (Ne.symm nodup.1.1)

/-- The first entry of a list. -/
theorem Represents.first (represents : Represents links collection) {list : Node} (known : collection.known list) :
    listFirst links list = (collection.around list).head? := by
  rw [listFirst, represents.empty known, represents.next known]
  cases collection.around list with
  | nil => rfl
  | cons first rest => rfl

/-- The first entry of a list is taken. -/
theorem Represents.pop (represents : Represents links collection) {list : Node} (known : collection.known list) :
    (listPop links list).1 = (collection.apply (.pop list)).1 ∧
      Represents (listPop links list).2 (collection.apply (.pop list)).2 := by
  have next := represents.next known
  rw [listPop, represents.empty known, Collection.apply]
  cases split : collection.around list with
  | nil => exact ⟨rfl, represents⟩
  | cons first rest =>
    rw [split] at next
    have inside := represents.closed list known first (split ▸ List.mem_cons_self)
    rw [next]
    exact ⟨rfl, represents.delete inside⟩

/-- Every allowed operation does to the links what it does to the sequences. -/
theorem Represents.step (represents : Represents links collection) {operation : Operation Node}
    (allowed : Allowed collection operation) :
    (perform links operation).1 = (collection.apply operation).1 ∧
      Represents (perform links operation).2 (collection.apply operation).2 := by
  cases operation with
  | init entry => exact ⟨rfl, represents.add allowed⟩
  | push list elem => exact ⟨rfl, represents.insertBefore allowed.1 allowed.2.1 allowed.2.2⟩
  | pop list => exact represents.pop allowed
  | prepend head elem => exact ⟨rfl, represents.insertBefore allowed.1 allowed.2.1 allowed.2.2⟩
  | append prev elem => exact ⟨rfl, represents.insertAfter allowed.1 allowed.2.1 allowed.2.2⟩
  | remove elem => exact ⟨rfl, represents.delete allowed⟩

end Steps

section Frames

variable [DecidableEq Node] {links : Links Node} {collection : Collection Node} {place elem node : Node}

/-- The entries that a call names. -/
def Operation.entries : Operation Node → List Node
  | init entry => [entry]
  | push list elem => [list, elem]
  | pop list => [list]
  | prepend head elem => [head, elem]
  | append prev elem => [prev, elem]
  | remove elem => [elem]

/-- A node keeps its links and its sequence. -/
def Kept (links after : Links Node) (collection next : Collection Node) (node : Node) : Prop :=
  after.next node = links.next node ∧ after.prev node = links.prev node ∧
    (collection.known node → next.around node = collection.around node)

/-- What follows an entry around follows what it follows. -/
theorem Represents.trans (represents : Represents links collection) (known : collection.known place)
    (there : elem ∈ place :: collection.around place) (follows : node ∈ elem :: collection.around elem) :
    node ∈ place :: collection.around place := by
  rcases List.mem_cons.mp there with rfl | other
  · exact follows
  · obtain ⟨front, back, split⟩ := List.append_of_mem other
    have turned := (split ▸ represents.circular place known : Circular links place (front ++ elem :: back)).turn
    rw [(represents.circular elem (represents.closed place known elem other)).unique turned] at follows
    rw [split]
    simp only [List.mem_cons, List.mem_append] at follows ⊢
    tauto

/-- Following each other around goes both ways. -/
theorem Represents.symm (represents : Represents links collection) (known : collection.known node)
    (there : place ∈ node :: collection.around node) : node ∈ place :: collection.around place := by
  rcases List.mem_cons.mp there with rfl | other
  · exact List.mem_cons_self
  · obtain ⟨front, back, split⟩ := List.append_of_mem other
    have turned := (split ▸ represents.circular node known : Circular links node (front ++ place :: back)).turn
    rw [(represents.circular place (represents.closed node known place other)).unique turned]
    exact List.mem_cons_of_mem _ (List.mem_append_right _ List.mem_cons_self)

/-- An insertion behind a place keeps other nodes. -/
theorem Represents.insertAfter_kept (represents : Represents links collection) (there : collection.known place)
    (apart : node ∉ place :: collection.around place) (other : node ≠ elem) :
    Kept links (listAppend links place elem) collection (collection.insertAfter place elem) node := by
  have next := ((represents.circular place there).neighbours_mem List.mem_cons_self).1
  have notPlace : node ≠ place := fun same => apart (same ▸ List.mem_cons_self)
  have notNext : node ≠ links.next place := fun same => apart (same ▸ next)
  have first := @join_elsewhere _ _ links _ _ _ other notNext
  have second := @join_elsewhere _ _ (links.join elem (links.next place)) _ _ _ notPlace other
  refine ⟨second.1.trans first.1, second.2.trans first.2, fun known => ?_⟩
  rw [Collection.insertAfter]
  split_ifs
  · rfl
  · dsimp only
    rw [if_neg other, placedAfter_absent fun inside => apart (represents.symm known inside)]

/-- An insertion before a place keeps other nodes. -/
theorem Represents.insertBefore_kept (represents : Represents links collection) (there : collection.known place)
    (apart : node ∉ place :: collection.around place) (other : node ≠ elem) :
    Kept links (listPrepend links place elem) collection (collection.insertBefore place elem) node := by
  have prev := ((represents.circular place there).neighbours_mem List.mem_cons_self).2
  have notPlace : node ≠ place := fun same => apart (same ▸ List.mem_cons_self)
  have notPrev : node ≠ links.prev place := fun same => apart (same ▸ prev)
  have first := @join_elsewhere _ _ links _ _ _ other notPlace
  have second := @join_elsewhere _ _ (links.join elem place) _ _ _ notPrev other
  refine ⟨second.1.trans first.1, second.2.trans first.2, fun known => ?_⟩
  rw [Collection.insertBefore]
  split_ifs
  · rfl
  · dsimp only
    rw [if_neg other, placedBefore_absent fun inside => apart (represents.symm known inside)]

/-- A deletion keeps the nodes that the entry does not follow. -/
theorem Represents.delete_kept (represents : Represents links collection) (there : collection.known place)
    (inside : elem ∈ place :: collection.around place) (apart : node ∉ place :: collection.around place) :
    Kept links (listRemove links elem) collection (collection.delete elem) node := by
  obtain ⟨next, prev⟩ := (represents.circular place there).neighbours_mem inside
  have notElem : node ≠ elem := fun same => apart (same ▸ inside)
  have notPrev : node ≠ links.prev elem := fun same => apart (same ▸ prev)
  have notNext : node ≠ links.next elem := fun same => apart (same ▸ next)
  have first := @join_elsewhere _ _ links _ _ _ notPrev notNext
  have second := @join_elsewhere _ _ (links.join (links.prev elem) (links.next elem)) _ _ _ notElem notElem
  rw [listRemove_eq]
  refine ⟨second.1.trans first.1, second.2.trans first.2, fun known => ?_⟩
  rw [Collection.delete]
  dsimp only
  rw [if_neg notElem, List.erase_of_not_mem]
  intro follows
  exact apart (represents.trans there inside (represents.symm known (List.mem_cons_of_mem _ follows)))

/-- An initialisation keeps other nodes. -/
theorem add_kept (links : Links Node) (collection : Collection Node) (other : node ≠ elem) :
    Kept links (listEntryInit links elem) collection (collection.add elem) node :=
  ⟨Function.update_of_ne other _ _, Function.update_of_ne other _ _, fun _ => Function.update_of_ne other _ _⟩

/-- A call keeps the nodes that do not go around with an entry that it names. -/
theorem Represents.kept (represents : Represents links collection) {operation : Operation Node}
    (allowed : Allowed collection operation)
    (apart : ∀ entry ∈ operation.entries, node ∉ entry :: collection.around entry) :
    Kept links (perform links operation).2 collection (collection.apply operation).2 node := by
  have other : ∀ entry ∈ operation.entries, node ≠ entry := fun entry member same =>
    apart entry member (same ▸ List.mem_cons_self)
  have second : ∀ {first last : Node}, last ∈ [first, last] := List.mem_cons_of_mem _ List.mem_cons_self
  cases operation with
  | init entry => exact add_kept links collection (other entry List.mem_cons_self)
  | push list elem =>
    exact represents.insertBefore_kept allowed.1 (apart list List.mem_cons_self) (other elem second)
  | pop list =>
    have next := represents.next allowed
    simp only [perform, listPop, represents.empty allowed, Collection.apply]
    cases split : collection.around list with
    | nil => exact ⟨rfl, rfl, fun _ => rfl⟩
    | cons first rest =>
      rw [split] at next
      rw [next]
      have inside : first ∈ collection.around list := split ▸ List.mem_cons_self
      exact represents.delete_kept allowed (List.mem_cons_of_mem _ inside) (apart list List.mem_cons_self)
  | prepend head elem =>
    exact represents.insertBefore_kept allowed.1 (apart head List.mem_cons_self) (other elem second)
  | append prev elem =>
    exact represents.insertAfter_kept allowed.1 (apart prev List.mem_cons_self) (other elem second)
  | remove elem => exact represents.delete_kept allowed List.mem_cons_self (apart elem List.mem_cons_self)

end Frames

section Results

variable [DecidableEq Node] {links start : Links Node} {collection current : Collection Node}

/-- The functions that read a list see a sequence. -/
structure Shows (links : Links Node) (node : Node) (sequence : List Node) : Prop where
  forward : ∀ fuel, sequence.length < fuel → listForEach fuel links node = some sequence
  backward : ∀ fuel, sequence.length < fuel → listForEachReverse fuel links node = some sequence.reverse
  empty : listEmpty links node = sequence.isEmpty
  first : listFirst links node = sequence.head?

/-- A call does to the links what it does to the sequences, keeps the nodes that it does not
involve, and an entry that it removes can be removed again without any change. -/
structure Refines (links : Links Node) (collection : Collection Node) (operation : Operation Node) : Prop where
  result : (perform links operation).1 = (collection.apply operation).1
  kept : ∀ node, (∀ entry ∈ operation.entries, node ∉ entry :: collection.around entry) →
    Kept links (perform links operation).2 collection (collection.apply operation).2 node
  again : ∀ elem, operation = .remove elem ∨ (∃ list, operation = .pop list ∧ (perform links operation).1 = some elem) →
    (perform links operation).2.next elem = elem ∧ (perform links operation).2.prev elem = elem ∧
      listRemove (perform links operation).2 elem = (perform links operation).2

/-- Each entry or head of a represented collection shows its sequence. -/
theorem Represents.shows (represents : Represents links collection) {node : Node} (known : collection.known node) :
    Shows links node (collection.around node) where
  forward _ enough := (represents.circular node known).walk_next enough
  backward _ enough := (represents.circular node known).walk_prev enough
  empty := represents.empty known
  first := represents.first known

/-- A removed entry is linked to itself. -/
theorem listRemove_again (links : Links Node) (elem : Node) :
    (listRemove links elem).next elem = elem ∧ (listRemove links elem).prev elem = elem ∧
      listRemove (listRemove links elem) elem = listRemove links elem := by
  have next : (listRemove links elem).next elem = elem := Function.update_self _ _ _
  have prev : (listRemove links elem).prev elem = elem := Function.update_self _ _ _
  exact ⟨next, prev, listRemove_self next prev⟩

/-- Every allowed call refines what it does to the sequences. -/
theorem Represents.refines (represents : Represents links collection) {operation : Operation Node}
    (allowed : Allowed collection operation) : Refines links collection operation where
  result := (represents.step allowed).1
  kept _ apart := represents.kept allowed apart
  again := by
    rintro elem (rfl | ⟨list, rfl, popped⟩)
    · exact listRemove_again links elem
    · simp only [perform, listPop] at popped ⊢
      split_ifs at popped ⊢
      obtain rfl := Option.some.inj popped
      exact listRemove_again links _

/-- In every run the links represent the collection. -/
theorem run_represents (represents : Represents start collection) (run : Run start collection links current) :
    Represents links current := by
  induction run with
  | start => exact represents
  | step earlier operation allowed ih => exact (ih.step allowed).2

/-- In every run each list shows its sequence, and each further call refines what it does to the
sequences. -/
theorem lists_refine_sequences (represents : Represents start collection) (run : Run start collection links current) :
    Represents links current ∧ (∀ node, current.known node → Shows links node (current.around node)) ∧
      ∀ operation, Allowed current operation → Refines links current operation :=
  ⟨run_represents represents run, fun _ known => (run_represents represents run).shows known,
    fun _ allowed => (run_represents represents run).refines allowed⟩

/-- Numbers that are all detached. -/
def detachedNumbers : Links Nat := ⟨id, id⟩

/-- A head and two entries, one pushed and one inserted before it. -/
theorem lists_refine_sequences_sample :
    let after := (perform (perform detachedNumbers (.push 0 1)).2 (.prepend 1 2)).2
    Shows after 0 [2, 1] := by
  have run := ((@Run.start Nat _ detachedNumbers ⟨fun _ => True, fun _ => []⟩).step (.push 0 1)
    ⟨trivial, trivial, rfl⟩).step (.prepend 1 2) ⟨trivial, trivial, rfl⟩
  refine (lists_refine_sequences ⟨fun node _ => ?_, fun _ _ _ member => absurd member List.not_mem_nil⟩ run).2.1 0
    trivial
  exact ⟨List.isChain_pair.mpr ⟨rfl, rfl⟩, List.nodup_singleton node⟩

end Results

end Asym.IntrusiveLists
