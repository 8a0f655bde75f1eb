import Mathlib.Data.List.Chain
import Mathlib.Data.List.Nodup
import Mathlib.Logic.Function.Basic
import Mathlib.Tactic.Common

/-!
# Circular lists

Nodes have a next and a previous node. A node starts a circular list with some others if each node
of the list is linked to the one behind it, both ways, and the last to the first, and no node is
there twice. Walking from the node over the next nodes gives the others, and walking over the
previous ones gives them in reverse.

A fresh node is inserted between two neighbours, and a node is taken out, by linking the neighbours.
-/

namespace Asym.CircularLists

universe u
variable {Node : Type u}

/-- The next and the previous node of every node. -/
@[ext] structure Links (Node : Type u) where
  next : Node → Node
  prev : Node → Node

/-- Two nodes in turn. -/
def Joined (links : Links Node) (first second : Node) : Prop := links.next first = second ∧ links.prev second = first

/-- The circular list of a node and others. -/
structure Circular (links : Links Node) (node : Node) (others : List Node) : Prop where
  chain : (node :: others ++ [node]).IsChain (Joined links)
  nodup : (node :: others).Nodup

section Walks

variable [DecidableEq Node]

/-- The nodes from one on, before a last. No result means too little fuel. -/
def walk (step : Node → Node) (last : Node) : Nat → Node → Option (List Node)
  | 0, _ => none
  | fuel + 1, node => if node = last then some [] else (walk step last fuel (step node)).map (node :: ·)

/-- A walk that may end with a result at a node. It has none at the last, and no answer means too
little fuel. -/
def walkUntil {Result : Type*} (step : Node → Node) (last : Node) (body : Node → Option Result) :
    Nat → Node → Option (Option Result)
  | 0, _ => none
  | fuel + 1, node =>
    if node = last then some none
    else match body node with
      | some result => some (some result)
      | none => walkUntil step last body fuel (step node)

/-- A walk ends at the first of its nodes that gives a result. -/
theorem walkUntil_of_walk {Result : Type*} {step : Node → Node} {last node : Node} {body : Node → Option Result}
    {others : List Node} {fuel : Nat} (walked : walk step last fuel node = some others) :
    walkUntil step last body fuel node = some (others.findSome? body) := by
  induction fuel generalizing node others with
  | zero => cases walked
  | succ fuel ih =>
    rw [walk] at walked
    rw [walkUntil]
    split_ifs at walked ⊢ with ends
    · rw [← Option.some.inj walked, List.findSome?_nil]
    · obtain ⟨rest, further, rfl⟩ := Option.map_eq_some_iff.mp walked
      rw [List.findSome?_cons, ih further]
      cases body node with
      | none => rfl
      | some result => rfl

/-- More fuel does not change where a walk ends. -/
theorem walkUntil_mono {Result : Type*} {step : Node → Node} {last node : Node} {body : Node → Option Result}
    {fuel more : Nat} {result : Option Result} (ended : walkUntil step last body fuel node = some result)
    (enough : fuel ≤ more) : walkUntil step last body more node = some result := by
  induction fuel generalizing node more with
  | zero => cases ended
  | succ fuel ih =>
    obtain ⟨more, rfl⟩ := Nat.exists_eq_add_of_lt enough
    rw [walkUntil] at ended ⊢
    split_ifs at ended ⊢ with ends
    · exact ended
    · cases here : body node with
      | some found => rwa [here] at ended
      | none =>
        rw [here] at ended
        exact ih ended (Nat.le_add_right fuel more)

/-- A walk along a chain. -/
theorem walk_chain {step : Node → Node} {last node : Node} {others : List Node}
    (chain : (node :: others ++ [last]).IsChain fun first second => step first = second) (absent : last ∉ others)
    {fuel : Nat} (enough : others.length < fuel) : walk step last fuel (step node) = some others := by
  induction others generalizing node fuel with
  | nil =>
    obtain ⟨fuel, rfl⟩ := Nat.exists_eq_succ_of_ne_zero (Nat.ne_of_gt enough)
    rw [List.cons_append, List.nil_append, List.isChain_pair] at chain
    exact if_pos chain
  | cons other rest ih =>
    obtain ⟨fuel, rfl⟩ := Nat.exists_eq_succ_of_ne_zero (Nat.ne_of_gt (Nat.zero_lt_of_lt enough))
    rw [List.mem_cons, not_or] at absent
    rw [List.cons_append, List.cons_append, List.isChain_cons_cons] at chain
    rw [chain.1, walk, if_neg (Ne.symm absent.1),
      ih chain.2 absent.2 (Nat.lt_of_succ_lt_succ enough), Option.map_some]

variable {links : Links Node} {node : Node} {others : List Node}

/-- Walking over the next nodes. -/
theorem Circular.walk_next (circular : Circular links node others) {fuel : Nat} (enough : others.length < fuel) :
    walk links.next node fuel (links.next node) = some others :=
  walk_chain (circular.chain.imp fun _ _ joined => joined.1) (List.nodup_cons.mp circular.nodup).1 enough

/-- Walking over the previous nodes. -/
theorem Circular.walk_prev (circular : Circular links node others) {fuel : Nat} (enough : others.length < fuel) :
    walk links.prev node fuel (links.prev node) = some others.reverse := by
  have backward : (node :: others.reverse ++ [node]).IsChain fun first second => links.prev first = second := by
    have reversed := List.isChain_reverse.mpr (circular.chain.imp fun _ _ joined => joined.2)
    rwa [List.reverse_append, List.reverse_cons, List.reverse_cons, List.reverse_nil, List.nil_append,
      List.singleton_append] at reversed
  refine walk_chain backward ?_ (by rwa [List.length_reverse])
  rw [List.mem_reverse]
  exact (List.nodup_cons.mp circular.nodup).1

/-- A node starts one circular list. -/
theorem Circular.unique {first second : List Node} (one : Circular links node first)
    (other : Circular links node second) : first = second := by
  have long := Nat.lt_succ_of_le (Nat.le_max_left first.length second.length)
  have walked := one.walk_next long
  rw [other.walk_next (Nat.lt_succ_of_le (Nat.le_max_right first.length second.length))] at walked
  exact (Option.some.inj walked).symm

end Walks

section Neighbours

variable {links : Links Node} {node : Node} {others front back : List Node}

/-- The node behind one in a chain is its next node. -/
theorem next_of_chain (chain : (front ++ node :: back).IsChain (Joined links)) (some_ : back ≠ []) :
    ∃ rest, back = links.next node :: rest := by
  obtain ⟨next, rest, rfl⟩ := List.exists_cons_of_ne_nil some_
  rw [List.isChain_append_cons_cons] at chain
  exact ⟨rest, by rw [chain.2.1.1]⟩

/-- The node before one in a chain is its previous node. -/
theorem prev_of_chain (chain : (front ++ node :: back).IsChain (Joined links)) (some_ : front ≠ []) :
    ∃ rest, front = rest ++ [links.prev node] := by
  obtain ⟨rest, prev, rfl⟩ := (List.eq_nil_or_concat' front).resolve_left some_
  rw [List.append_assoc, List.singleton_append, List.isChain_append_cons_cons] at chain
  exact ⟨rest, by rw [chain.2.1.2]⟩

/-- The others and then the first node are there once. -/
theorem Circular.tail_nodup (circular : Circular links node others) : (others ++ [node]).Nodup :=
  (List.perm_append_comm.nodup_iff).mp circular.nodup

/-- The first node is the last in a round. -/
theorem mem_of_round {x : Node} (member : x ∈ node :: others ++ [node]) : x ∈ node :: others := by
  rcases List.mem_append.mp member with inside | last
  · exact inside
  · exact List.mem_singleton.mp last ▸ List.mem_cons_self

/-- A circular list while none of its links changes. -/
theorem Circular.congr {after : Links Node} (circular : Circular links node others)
    (same : ∀ x ∈ node :: others, after.next x = links.next x ∧ after.prev x = links.prev x) :
    Circular after node others where
  chain := by
    refine circular.chain.imp_of_mem_imp fun x y inX inY joined => ⟨?_, ?_⟩
    · exact (same x (mem_of_round inX)).1.trans joined.1
    · exact (same y (mem_of_round inY)).2.trans joined.2
  nodup := circular.nodup

/-- The neighbours of a node in a circular list have it as their neighbour. -/
theorem Circular.neighbours (circular : Circular links node others) :
    Joined links (links.prev node) node ∧ Joined links node (links.next node) := by
  have first : ([] ++ node :: (others ++ [node])).IsChain (Joined links) := circular.chain
  obtain ⟨rest, behind⟩ := next_of_chain first (List.append_ne_nil_of_right_ne_nil _ (List.cons_ne_nil _ _))
  have last : (node :: others ++ node :: []).IsChain (Joined links) := circular.chain
  obtain ⟨front, ahead⟩ := prev_of_chain last (List.cons_ne_nil _ _)
  rw [behind, List.isChain_append_cons_cons] at first
  rw [ahead, List.append_assoc, List.singleton_append, List.isChain_append_cons_cons] at last
  exact ⟨last.2.1, first.2.1⟩

/-- A node that is there twice at most as the first and the last. -/
theorem absent_of_tail {front back : List Node} {node : Node} (some_ : front ≠ [])
    (nodup : (front ++ node :: back).tail.Nodup) : node ∉ front.tail ∧ node ∉ back := by
  obtain ⟨first, front, rfl⟩ := List.exists_cons_of_ne_nil some_
  rw [List.cons_append, List.tail_cons, List.nodup_middle, List.nodup_cons, List.mem_append, not_or] at nodup
  exact nodup.1

/-- The neighbours of a node in a circular list are there. -/
theorem Circular.neighbours_mem (circular : Circular links node others) {inside : Node}
    (there : inside ∈ node :: others) : links.next inside ∈ node :: others ∧ links.prev inside ∈ node :: others := by
  constructor
  · obtain ⟨front, back, split⟩ := List.append_of_mem there
    have whole : node :: others ++ [node] = front ++ inside :: (back ++ [node]) := by
      rw [split, List.append_assoc, List.cons_append]
    obtain ⟨rest, behind⟩ := next_of_chain (whole ▸ circular.chain)
      (List.append_ne_nil_of_right_ne_nil _ (List.cons_ne_nil _ _))
    refine mem_of_round ?_
    rw [whole, behind]
    exact List.mem_append_right _ (List.mem_cons_of_mem _ List.mem_cons_self)
  · have again : inside ∈ others ++ [node] := by
      rcases List.mem_cons.mp there with rfl | other
      · exact List.mem_append_right _ List.mem_cons_self
      · exact List.mem_append_left _ other
    obtain ⟨front, back, split⟩ := List.append_of_mem again
    have whole : node :: others ++ [node] = (node :: front) ++ inside :: back := by
      rw [List.cons_append, split, List.cons_append]
    obtain ⟨rest, ahead⟩ := prev_of_chain (whole ▸ circular.chain) (List.cons_ne_nil _ _)
    refine mem_of_round ?_
    rw [whole, ahead]
    exact List.mem_append_left _ (List.mem_append_right _ List.mem_cons_self)

/-- A node that is its own next node is in no circular list of another. -/
theorem Circular.self_absent (circular : Circular links node others) {self : Node} (alone : links.next self = self)
    (other : node ≠ self) : self ∉ node :: others := by
  intro there
  obtain ⟨front, back, split⟩ := List.append_of_mem there
  have whole : node :: others ++ [node] = front ++ self :: (back ++ [node]) := by
    rw [split, List.append_assoc, List.cons_append]
  obtain ⟨rest, behind⟩ := next_of_chain (whole ▸ circular.chain)
    (List.append_ne_nil_of_right_ne_nil _ (List.cons_ne_nil _ _))
  rw [alone] at behind
  have nodup := circular.nodup
  rw [split, List.nodup_middle, List.nodup_cons] at nodup
  cases back with
  | nil => exact other (List.cons.inj behind).1
  | cons next rest =>
    have same := (List.cons.inj behind).1
    exact nodup.1 (List.mem_append_right _ (same ▸ List.mem_cons_self))

/-- The circular list of the second node. -/
theorem Circular.rotate {second : Node} (circular : Circular links node (second :: others)) :
    Circular links second (others ++ [node]) := by
  have chain := circular.chain
  rw [List.cons_append, List.cons_append, List.isChain_cons_cons] at chain
  constructor
  · rw [← List.cons_append, List.append_assoc, List.singleton_append, List.isChain_split, List.isChain_pair]
    exact ⟨chain.2, chain.1⟩
  · exact circular.tail_nodup

/-- The circular list of any of its nodes. -/
theorem Circular.turn {other : Node} (circular : Circular links node (front ++ other :: back)) :
    Circular links other (back ++ node :: front) := by
  induction front generalizing node back with
  | nil => exact circular.rotate
  | cons first rest ih =>
    rw [List.cons_append] at circular
    have rotated := circular.rotate
    rw [List.append_assoc, List.cons_append] at rotated
    have turned := ih rotated
    rwa [List.append_assoc, List.singleton_append] at turned

/-- The circular list of the last node. -/
theorem Circular.rotate_back {last : Node} (circular : Circular links node (others ++ [last])) :
    Circular links last (node :: others) := by
  have chain := circular.chain
  rw [← List.cons_append, List.append_assoc, List.singleton_append, List.isChain_append_cons_cons] at chain
  constructor
  · rw [List.cons_append, List.cons_append, List.isChain_cons_cons]
    exact ⟨chain.2.1, chain.1⟩
  · have nodup := circular.nodup
    rw [← List.cons_append] at nodup
    exact (List.perm_append_singleton _ _).nodup_iff.mp nodup

end Neighbours

section Joins

variable [DecidableEq Node]

/-- One node is made the next of another. -/
def Links.join (links : Links Node) (first second : Node) : Links Node :=
  ⟨Function.update links.next first second, Function.update links.prev second first⟩

variable {links : Links Node} {first second x y : Node}

/-- The two nodes are in turn. -/
theorem joined_join (links : Links Node) (first second : Node) : Joined (links.join first second) first second :=
  ⟨Function.update_self _ _ _, Function.update_self _ _ _⟩

/-- Other nodes in turn still are. -/
theorem Joined.join (joined : Joined links x y) (before : x ≠ first) (behind : y ≠ second) :
    Joined (links.join first second) x y :=
  ⟨(Function.update_of_ne before _ _).trans joined.1, (Function.update_of_ne behind _ _).trans joined.2⟩

/-- Other nodes keep their neighbours. -/
theorem join_elsewhere (notFirst : x ≠ first) (notSecond : x ≠ second) :
    (links.join first second).next x = links.next x ∧ (links.join first second).prev x = links.prev x :=
  ⟨Function.update_of_ne notFirst _ _, Function.update_of_ne notSecond _ _⟩

/-- A node is linked to itself again. -/
theorem join_self (next : links.next first = first) (prev : links.prev first = first) :
    links.join first first = links := by
  rw [Links.join]
  ext node
  · exact congrFun (Function.update_eq_self_iff.mpr next.symm) node
  · exact congrFun (Function.update_eq_self_iff.mpr prev.symm) node

/-- Nodes in turn still are after an insertion elsewhere. -/
theorem Joined.insert {before behind inserted : Node} (joined : Joined links x y) (here : Joined links before behind)
    (elsewhere : y ≠ behind) (freshX : x ≠ inserted) (freshY : y ≠ inserted) :
    Joined ((links.join inserted behind).join before inserted) x y := by
  refine (joined.join freshX elsewhere).join (fun same => elsewhere ?_) freshY
  rw [← joined.1, same, here.1]

/-- Other nodes in turn still are after a node is taken out. -/
theorem Joined.remove {before removed behind : Node} (joined : Joined links x y) (ahead : Joined links before removed)
    (after : Joined links removed behind) (otherX : x ≠ removed) (otherY : y ≠ removed) :
    Joined ((links.join before behind).join removed removed) x y := by
  refine (joined.join (fun same => otherY ?_) (fun same => otherX ?_)).join otherX otherY
  · rw [← joined.1, same, ahead.1]
  · rw [← joined.2, same, after.2]

/-- A node inserted between two in turn. -/
theorem chain_insert {front back : List Node} {before behind inserted : Node}
    (chain : (front ++ before :: behind :: back).IsChain (Joined links))
    (nodup : (front ++ before :: behind :: back).tail.Nodup)
    (fresh : inserted ∉ front ++ before :: behind :: back) :
    (front ++ before :: inserted :: behind :: back).IsChain
      (Joined ((links.join inserted behind).join before inserted)) := by
  rw [List.isChain_append_cons_cons] at chain
  obtain ⟨ahead, here, after⟩ := chain
  have regrouped : front ++ before :: behind :: back = (front ++ [before]) ++ behind :: back := by simp
  rw [regrouped] at nodup fresh
  rw [List.mem_append, not_or] at fresh
  obtain ⟨absentBefore, absentBehind⟩ := absent_of_tail (by simp) nodup
  have differs : inserted ≠ behind := fun same => fresh.2 (same ▸ List.mem_cons_self)
  rw [List.isChain_append_cons_cons, List.isChain_cons_cons]
  refine ⟨?_, joined_join _ _ _, ?_, ?_⟩
  · refine ahead.imp_of_mem_tail_imp fun x y inX inY joined => joined.insert here ?_ ?_ ?_
    · exact fun same => absentBefore (same ▸ inY)
    · exact fun same => fresh.1 (same ▸ inX)
    · exact fun same => fresh.1 (same ▸ List.mem_of_mem_tail inY)
  · refine (joined_join _ _ _).join ?_ (Ne.symm differs)
    exact fun same => fresh.1 (same ▸ by simp)
  · refine after.imp_of_mem_tail_imp fun x y inX inY joined => joined.insert here ?_ ?_ ?_
    · exact fun same => absentBehind (same ▸ inY)
    · exact fun same => fresh.2 (same ▸ inX)
    · exact fun same => fresh.2 (same ▸ List.mem_of_mem_tail inY)

/-- A node taken out from between two. -/
theorem chain_remove {front back : List Node} {before removed behind : Node}
    (chain : (front ++ before :: removed :: behind :: back).IsChain (Joined links))
    (once : removed ∉ front ++ before :: behind :: back) :
    (front ++ before :: behind :: back).IsChain (Joined ((links.join before behind).join removed removed)) := by
  rw [List.isChain_append_cons_cons, List.isChain_cons_cons] at chain
  obtain ⟨ahead, joinedBefore, joinedBehind, after⟩ := chain
  have regrouped : front ++ before :: behind :: back = (front ++ [before]) ++ behind :: back := by simp
  rw [regrouped, List.mem_append, not_or] at once
  rw [List.isChain_append_cons_cons]
  refine ⟨?_, ?_, ?_⟩
  · refine ahead.imp_of_mem_imp fun x y inX inY joined => joined.remove joinedBefore joinedBehind ?_ ?_
    · exact fun same => once.1 (same ▸ inX)
    · exact fun same => once.1 (same ▸ inY)
  · refine (joined_join _ _ _).join ?_ ?_
    · exact fun same => once.1 (same ▸ by simp)
    · exact fun same => once.2 (same ▸ List.mem_cons_self)
  · refine after.imp_of_mem_imp fun x y inX inY joined => joined.remove joinedBefore joinedBehind ?_ ?_
    · exact fun same => once.2 (same ▸ inX)
    · exact fun same => once.2 (same ▸ inY)

end Joins

section Insertions

variable [DecidableEq Node]

/-- A value behind another in a list. -/
def insertAfter (place inserted : Node) : List Node → List Node
  | [] => []
  | node :: rest => if node = place then node :: inserted :: rest else node :: insertAfter place inserted rest

/-- A value before another in a list. -/
def insertBefore (place inserted : Node) : List Node → List Node
  | [] => []
  | node :: rest => if node = place then inserted :: node :: rest else node :: insertBefore place inserted rest

variable {place inserted : Node} {front back : List Node}

/-- A value behind another, where it is. -/
theorem insertAfter_append (absent : place ∉ front) :
    insertAfter place inserted (front ++ place :: back) = front ++ place :: inserted :: back := by
  induction front with
  | nil => exact if_pos rfl
  | cons node rest ih =>
    rw [List.mem_cons, not_or] at absent
    rw [List.cons_append, insertAfter, if_neg (Ne.symm absent.1), ih absent.2, List.cons_append]

/-- A value before another, where it is. -/
theorem insertBefore_append (absent : place ∉ front) :
    insertBefore place inserted (front ++ place :: back) = front ++ inserted :: place :: back := by
  induction front with
  | nil => exact if_pos rfl
  | cons node rest ih =>
    rw [List.mem_cons, not_or] at absent
    rw [List.cons_append, insertBefore, if_neg (Ne.symm absent.1), ih absent.2, List.cons_append]

/-- Nothing is inserted behind a value that is not there. -/
theorem insertAfter_absent (absent : place ∉ front) : insertAfter place inserted front = front := by
  induction front with
  | nil => rfl
  | cons node rest ih =>
    rw [List.mem_cons, not_or] at absent
    rw [insertAfter, if_neg (Ne.symm absent.1), ih absent.2]

/-- Nothing is inserted before a value that is not there. -/
theorem insertBefore_absent (absent : place ∉ front) : insertBefore place inserted front = front := by
  induction front with
  | nil => rfl
  | cons node rest ih =>
    rw [List.mem_cons, not_or] at absent
    rw [insertBefore, if_neg (Ne.symm absent.1), ih absent.2]

/-- The values of a list with an insertion. -/
theorem mem_insertAfter {value : Node} (member : value ∈ insertAfter place inserted front) :
    value = inserted ∨ value ∈ front := by
  by_cases there : place ∈ front
  · obtain ⟨ahead, behind, rfl, absent⟩ := List.eq_append_cons_of_mem there
    rw [insertAfter_append absent] at member
    simp only [List.mem_append, List.mem_cons] at member ⊢
    tauto
  · exact .inr (insertAfter_absent there ▸ member)

/-- The values of a list with an insertion. -/
theorem mem_insertBefore {value : Node} (member : value ∈ insertBefore place inserted front) :
    value = inserted ∨ value ∈ front := by
  by_cases there : place ∈ front
  · obtain ⟨ahead, behind, rfl, absent⟩ := List.eq_append_cons_of_mem there
    rw [insertBefore_append absent] at member
    simp only [List.mem_append, List.mem_cons] at member ⊢
    tauto
  · exact .inr (insertBefore_absent there ▸ member)

end Insertions

section Updates

variable [DecidableEq Node] {links : Links Node} {node place inserted removed : Node} {others : List Node}

/-- What is behind a node after an insertion behind a place. -/
def placedAfter (place inserted node : Node) (others : List Node) : List Node :=
  if node = place then inserted :: others else insertAfter place inserted others

/-- What is behind a node after an insertion before a place. -/
def placedBefore (place inserted node : Node) (others : List Node) : List Node :=
  if node = place then others ++ [inserted] else insertBefore place inserted others

/-- The nodes behind one after an insertion. -/
theorem mem_placedAfter {value : Node} (member : value ∈ placedAfter place inserted node others) :
    value = inserted ∨ value ∈ others := by
  rw [placedAfter] at member
  split_ifs at member
  · exact List.mem_cons.mp member
  · exact mem_insertAfter member

/-- The nodes behind one after an insertion. -/
theorem mem_placedBefore {value : Node} (member : value ∈ placedBefore place inserted node others) :
    value = inserted ∨ value ∈ others := by
  rw [placedBefore] at member
  split_ifs at member
  · simpa [or_comm] using member
  · exact mem_insertBefore member

/-- Nothing is inserted behind a place that is not in the list. -/
theorem placedAfter_absent (absent : place ∉ node :: others) : placedAfter place inserted node others = others := by
  rw [List.mem_cons, not_or] at absent
  rw [placedAfter, if_neg (Ne.symm absent.1), insertAfter_absent absent.2]

/-- Nothing is inserted before a place that is not in the list. -/
theorem placedBefore_absent (absent : place ∉ node :: others) : placedBefore place inserted node others = others := by
  rw [List.mem_cons, not_or] at absent
  rw [placedBefore, if_neg (Ne.symm absent.1), insertBefore_absent absent.2]

/-- A circular list with a node inserted behind a place. -/
theorem Circular.insert_after (circular : Circular links node others) (there : place ∈ node :: others)
    (fresh : inserted ∉ node :: others) :
    Circular ((links.join inserted (links.next place)).join place inserted) node
      (placedAfter place inserted node others) := by
  have last : inserted ∉ [node] := fun member => fresh (List.mem_singleton.mp member ▸ List.mem_cons_self)
  obtain ⟨front, back, split, absent⟩ := List.eq_append_cons_of_mem there
  have placed : node :: placedAfter place inserted node others = front ++ place :: inserted :: back := by
    rw [← insertAfter_append absent, ← split, placedAfter, insertAfter]
    split_ifs <;> rfl
  have whole : node :: others ++ [node] = front ++ place :: (back ++ [node]) := by
    rw [split, List.append_assoc, List.cons_append]
  obtain ⟨rest, behind⟩ := next_of_chain (whole ▸ circular.chain)
    (List.append_ne_nil_of_right_ne_nil _ (List.cons_ne_nil _ _))
  rw [behind] at whole
  constructor
  · rw [placed, List.append_assoc, List.cons_append, List.cons_append, behind]
    refine chain_insert (whole ▸ circular.chain) (whole ▸ circular.tail_nodup) (whole ▸ ?_)
    rw [List.mem_append, not_or]
    exact ⟨fresh, last⟩
  · have nodup := circular.nodup
    rw [split] at nodup fresh
    rw [placed]
    have regrouped : front ++ place :: inserted :: back = (front ++ [place]) ++ inserted :: back := by simp
    rw [regrouped, List.nodup_middle, List.append_assoc]
    exact List.nodup_cons.mpr ⟨fresh, nodup⟩

/-- A circular list with a node inserted before a place. -/
theorem Circular.insert_before (circular : Circular links node others) (there : place ∈ node :: others)
    (fresh : inserted ∉ node :: others) :
    Circular ((links.join inserted place).join (links.prev place) inserted) node
      (placedBefore place inserted node others) := by
  have freshTail : inserted ∉ others ++ [node] := fun member => fresh (by simpa [or_comm] using member)
  obtain ⟨front, back, split, absent⟩ := List.eq_append_cons_of_mem (show place ∈ others ++ [node] by
    simpa [or_comm] using there)
  have placed : placedBefore place inserted node others ++ [node] = front ++ inserted :: place :: back := by
    rw [placedBefore]
    split_ifs with same
    · subst same
      have notOther : node ∉ others := (List.nodup_cons.mp circular.nodup).1
      rw [← insertBefore_append absent, ← split, insertBefore_append notOther, List.append_assoc, List.singleton_append]
    · have other : place ∈ others := (List.mem_cons.mp there).resolve_left (Ne.symm same)
      obtain ⟨front', back', split', absent'⟩ := List.eq_append_cons_of_mem other
      have regrouped : front' ++ place :: back' ++ [node] = front' ++ place :: (back' ++ [node]) := by simp
      rw [← insertBefore_append absent, ← split, split', insertBefore_append absent', regrouped,
        insertBefore_append absent', List.append_assoc, List.cons_append, List.cons_append]
  have whole : node :: others ++ [node] = (node :: front) ++ place :: back := by
    rw [List.cons_append, split, List.cons_append]
  obtain ⟨rest, ahead⟩ := prev_of_chain (whole ▸ circular.chain) (List.cons_ne_nil _ _)
  rw [ahead, List.append_assoc, List.singleton_append] at whole
  constructor
  · rw [List.cons_append, placed, ← List.cons_append, ahead, List.append_assoc, List.singleton_append]
    refine chain_insert (whole ▸ circular.chain) (whole ▸ circular.tail_nodup) (whole ▸ ?_)
    rw [List.cons_append, List.mem_cons, not_or]
    exact ⟨fun same => fresh (same ▸ List.mem_cons_self), freshTail⟩
  · have tail := circular.tail_nodup
    rw [split] at tail freshTail
    rw [← List.perm_append_singleton _ _ |>.nodup_iff, placed, List.nodup_middle]
    exact List.nodup_cons.mpr ⟨freshTail, tail⟩

/-- The circular list of a node inserted behind a place. -/
theorem Circular.inserted_after (circular : Circular links place others) (fresh : inserted ∉ place :: others) :
    Circular ((links.join inserted (links.next place)).join place inserted) inserted (others ++ [place]) := by
  have after := circular.insert_after List.mem_cons_self fresh
  rw [placedAfter, if_pos rfl] at after
  exact after.rotate

/-- The circular list of a node inserted before a place. -/
theorem Circular.inserted_before (circular : Circular links place others) (fresh : inserted ∉ place :: others) :
    Circular ((links.join inserted place).join (links.prev place) inserted) inserted (place :: others) := by
  have before := circular.insert_before List.mem_cons_self fresh
  rw [placedBefore, if_pos rfl] at before
  exact before.rotate_back

/-- A circular list that a node is not inserted into. -/
theorem Circular.insert_apart {before behind : Node} (circular : Circular links node others)
    (here : Joined links before behind) (apart : before ∉ node :: others ∨ behind ∉ node :: others)
    (fresh : inserted ∉ node :: others) :
    Circular ((links.join inserted behind).join before inserted) node others where
  chain := by
    refine circular.chain.imp_of_mem_imp fun x y inX inY joined => joined.insert here ?_ ?_ ?_
    · intro same
      have first : x = before := joined.2.symm.trans (same ▸ here.2)
      exact apart.elim (fun absent => absent (first ▸ mem_of_round inX)) fun absent => absent (same ▸ mem_of_round inY)
    · exact fun same => fresh (same ▸ mem_of_round inX)
    · exact fun same => fresh (same ▸ mem_of_round inY)
  nodup := circular.nodup

/-- A circular list that a node is taken out of. -/
theorem Circular.remove (circular : Circular links node others) (there : removed ∈ others) :
    Circular ((links.join (links.prev removed) (links.next removed)).join removed removed) node
      (others.erase removed) := by
  obtain ⟨front, back, rfl, absent⟩ := List.eq_append_cons_of_mem there
  have nodup := circular.nodup
  have whole : node :: (front ++ removed :: back) ++ [node] = (node :: front) ++ removed :: (back ++ [node]) := by
    simp
  rw [← List.cons_append, List.nodup_middle, List.nodup_cons] at nodup
  obtain ⟨rest, behind⟩ := next_of_chain (whole ▸ circular.chain)
    (List.append_ne_nil_of_right_ne_nil _ (List.cons_ne_nil _ _))
  obtain ⟨ahead', ahead⟩ := prev_of_chain (whole ▸ circular.chain) (List.cons_ne_nil _ _)
  have erased : (front ++ removed :: back).erase removed = front ++ back := by
    rw [List.erase_append_right _ absent, List.erase_cons_head]
  rw [erased]
  refine ⟨?_, nodup.2⟩
  have regrouped : node :: (front ++ back) ++ [node] = ahead' ++ links.prev removed :: links.next removed :: rest := by
    have joined : node :: (front ++ back) ++ [node] = (node :: front) ++ (back ++ [node]) := by simp
    rw [joined, ahead, behind, List.append_assoc, List.singleton_append]
  rw [ahead, behind, List.append_assoc, List.singleton_append] at whole
  rw [regrouped]
  exact chain_remove (whole ▸ circular.chain) (regrouped ▸ fun member => nodup.1 (mem_of_round member))

/-- A circular list that a node is not taken out of. -/
theorem Circular.remove_apart {before behind : Node} (circular : Circular links node others)
    (ahead : Joined links before removed) (after : Joined links removed behind) (apart : removed ∉ node :: others) :
    Circular ((links.join before behind).join removed removed) node others where
  chain := by
    refine circular.chain.imp_of_mem_imp fun x y inX inY joined => joined.remove ahead after ?_ ?_
    · exact fun same => apart (same ▸ mem_of_round inX)
    · exact fun same => apart (same ▸ mem_of_round inY)
  nodup := circular.nodup

/-- A circular list while another node is linked to itself. -/
theorem Circular.self_apart {other : Node} (circular : Circular links node others) (apart : other ∉ node :: others) :
    Circular (links.join other other) node others where
  chain := by
    refine circular.chain.imp_of_mem_imp fun x y inX inY joined => joined.join ?_ ?_
    · exact fun same => apart (same ▸ mem_of_round inX)
    · exact fun same => apart (same ▸ mem_of_round inY)
  nodup := circular.nodup

/-- A node that is linked to itself. -/
theorem circular_self (links : Links Node) (node : Node) : Circular (links.join node node) node [] where
  chain := List.isChain_pair.mpr (joined_join links node node)
  nodup := List.nodup_singleton node

end Updates

end Asym.CircularLists
