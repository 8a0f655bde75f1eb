import Asym.Leases
import Asym.LinkedWalks
import Mathlib.Data.Set.Lattice

/-!
# Descents through labelled nodes

The nodes below a root carry labels, and the store is distinct when no label is
met on two different walks. The labels met below a node are its span.

Two results are proved over arbitrary nodes, indices and labels. Replacing the
childless child of one slot by another childless child, or by none, changes the
span by exactly their labels and keeps the store distinct. Releasing the nodes
below a root in depth-first order, each after the nodes below it, gives back
every label of the span once and uses only labels that are still held.
-/

namespace Asym.Descents

open Leases LinkedWalks

universe u v w
variable {Node : Type u} {Index : Type v} {Label : Type w}

/-- Labels met on the walks from a node. -/
def span (links : Node → Index → Option Node) (label : Node → Label) (node : Node) : Set Label :=
  {met | ∃ path last, walk links node path = some last ∧ label last = met}

/-- No label is met on two different walks. -/
def Distinct (links : Node → Index → Option Node) (label : Node → Label) (node : Node) : Prop :=
  ∀ first second one other, walk links node first = some one → walk links node second = some other →
    label one = label other → first = second

/-- A walk in two parts. -/
theorem walk_append (links : Node → Index → Option Node) (node : Node) (first second : List Index) :
    walk links node (first ++ second) =
      (walk links node first).bind (fun middle => walk links middle second) := by
  induction first generalizing node with
  | nil => rfl
  | cons index rest ih =>
    rw [List.cons_append, walk, walk, Option.bind_assoc]
    exact congrArg _ (funext fun next => ih next)

/-- A node without links ends every walk. -/
theorem walk_childless (links : Node → Index → Option Node) (node last : Node) (path : List Index)
    (childless : ∀ index, links node index = none) :
    walk links node path = some last ↔ path = [] ∧ last = node := by
  cases path with
  | nil => simp [eq_comm]
  | cons index rest => simp [walk, childless]

section Replacement

variable (links next : Node → Index → Option Node) (label : Node → Label) (root parent : Node)
  (slot : Index) (path : List Index) (old new : Option Node)

/-- The two stores agree at the nodes of the first one, except at one slot, and
that slot has childless children in both. -/
structure Replaced : Prop where
  place : walk links root path = some parent
  before : links parent slot = old
  after : next parent slot = new
  oldChildless : ∀ child ∈ old, ∀ index, links child index = none
  newChildless : ∀ child ∈ new, ∀ index, next child index = none
  same : ∀ tested node index, walk links root tested = some node →
    (node ≠ parent ∨ index ≠ slot) → next node index = links node index

variable {links next label root parent slot path old new}

/-- Outside the replaced slot the walks are the same. -/
theorem Replaced.outside (replaced : Replaced links next root parent slot path old new)
    (distinct : Distinct links label root) (tested : List Index)
    (avoids : ¬(path ++ [slot]) <+: tested) : walk next root tested = walk links root tested := by
  induction tested using List.reverseRecOn with
  | nil => rfl
  | append_singleton before last ih =>
    have earlier := ih fun inside =>
      avoids (inside.trans (List.prefix_append before [last]))
    rw [walk_concat, walk_concat, earlier]
    cases reached : walk links root before with
    | none => rfl
    | some node =>
      refine replaced.same before node last reached ?_
      by_contra both
      push Not at both
      obtain ⟨rfl, rfl⟩ := both
      have samePath := distinct before path node node reached replaced.place rfl
      exact avoids (samePath ▸ List.prefix_refl _)

/-- The walks after the replacement: the old ones, except the one to the old
child, and the one to the new child. -/
theorem Replaced.walks (replaced : Replaced links next root parent slot path old new)
    (distinct : Distinct links label root) (tested : List Index) (node : Node) :
    walk next root tested = some node ↔
      (walk links root tested = some node ∧ tested ≠ path ++ [slot]) ∨
        (tested = path ++ [slot] ∧ new = some node) := by
  have shorter : ¬(path ++ [slot]) <+: path := by
    intro inside
    have short := inside.length_le
    rw [List.length_append, List.length_singleton] at short
    omega
  have placed : walk next root path = some parent :=
    (replaced.outside distinct path shorter).trans replaced.place
  by_cases inside : (path ++ [slot]) <+: tested
  · obtain ⟨rest, rfl⟩ := inside
    have ends : (path ++ [slot]) ++ rest = path ++ [slot] ↔ rest = [] := by simp
    rw [walk_append next root (path ++ [slot]), walk_append links root (path ++ [slot]), walk_concat,
      walk_concat, placed, replaced.place, Option.bind_some, Option.bind_some, replaced.before,
      replaced.after, Ne, ends]
    constructor
    · intro reached
      obtain ⟨child, found, reached⟩ := Option.bind_eq_some_iff.mp reached
      obtain ⟨rfl, rfl⟩ := (walk_childless next child node rest
        (replaced.newChildless child found)).mp reached
      exact .inr ⟨rfl, found⟩
    · rintro (⟨reached, longer⟩ | ⟨rfl, found⟩)
      · obtain ⟨child, found, reached⟩ := Option.bind_eq_some_iff.mp reached
        exact absurd ((walk_childless links child node rest
          (replaced.oldChildless child found)).mp reached).1 longer
      · rw [found, Option.bind_some, walk_nil]
  · have different : tested ≠ path ++ [slot] := by
      rintro rfl
      exact inside (List.prefix_refl _)
    rw [replaced.outside distinct tested inside]
    simp [different]

/-- The replacement changes the span by the labels of the two children. -/
theorem Replaced.span_eq (replaced : Replaced links next root parent slot path old new)
    (distinct : Distinct links label root) :
    span next label root =
      (span links label root \ {met | ∃ child ∈ old, label child = met}) ∪
        {met | ∃ child ∈ new, label child = met} := by
  have toOld : walk links root (path ++ [slot]) = old := by
    rw [walk_concat, replaced.place, Option.bind_some, replaced.before]
  ext met
  simp only [span, Set.mem_ofPred_eq, Set.mem_union, Set.mem_sdiff]
  constructor
  · rintro ⟨tested, last, reached, rfl⟩
    rcases (replaced.walks distinct tested last).mp reached with ⟨before, different⟩ | ⟨_, found⟩
    · refine .inl ⟨⟨tested, last, before, rfl⟩, ?_⟩
      rintro ⟨child, found, sameLabel⟩
      exact different (distinct tested _ last child before (toOld.trans found) sameLabel.symm)
    · exact .inr ⟨last, found, rfl⟩
  · rintro (⟨⟨tested, last, before, rfl⟩, other⟩ | ⟨child, found, rfl⟩)
    · refine ⟨tested, last, (replaced.walks distinct tested last).mpr (.inl ⟨before, ?_⟩), rfl⟩
      rintro rfl
      exact other ⟨last, toOld.symm.trans before, rfl⟩
    · exact ⟨path ++ [slot], child, (replaced.walks distinct _ child).mpr (.inr ⟨rfl, found⟩), rfl⟩

/-- The replacement keeps the store distinct if the new child's label was not
met before, unless as the old child's. -/
theorem Replaced.distinct (replaced : Replaced links next root parent slot path old new)
    (distinct : Distinct links label root)
    (fresh : ∀ child ∈ new, label child ∈ span links label root →
      ∃ replacedChild ∈ old, label replacedChild = label child) : Distinct next label root := by
  have toOld : walk links root (path ++ [slot]) = old := by
    rw [walk_concat, replaced.place, Option.bind_some, replaced.before]
  -- A walk that existed before never ends at the label of the new child.
  have apart : ∀ tested last child, walk links root tested = some last → tested ≠ path ++ [slot] →
      new = some child → label last ≠ label child := by
    intro tested last child reached different found sameLabel
    obtain ⟨previous, wasOld, oldLabel⟩ := fresh child found ⟨tested, last, reached, sameLabel⟩
    exact different (distinct tested _ last previous reached (toOld.trans wasOld)
      (sameLabel.trans oldLabel.symm))
  intro first second one other toOne toOther sameLabel
  rcases (replaced.walks distinct first one).mp toOne with ⟨before, different⟩ | ⟨atFirst, found⟩
  · rcases (replaced.walks distinct second other).mp toOther with ⟨after, _⟩ | ⟨_, found⟩
    · exact distinct first second one other before after sameLabel
    · exact absurd sameLabel (apart first one other before different found)
  · rcases (replaced.walks distinct second other).mp toOther with ⟨after, different⟩ | ⟨atSecond, _⟩
    · exact absurd sameLabel.symm (apart second other one after different found)
    · rw [atFirst, atSecond]

end Replacement

/-- Stores that agree at all nodes below a root have the same walks there. -/
theorem walk_congr {links next : Node → Index → Option Node} {root : Node}
    (same : ∀ tested node index, walk links root tested = some node →
      next node index = links node index) (path : List Index) :
    walk next root path = walk links root path :=
  walk_frame (fun tested node _ reached index => same tested node index reached) path (Nat.le_refl _)

section Release

variable (links : Node → Index → Option Node) (label : Node → Label) (indices : List Index)

/-- Release of the children of some slots of a node, with the node read before
each slot. -/
def releaseSlots (releaseChild : Node → List (Event Label)) (node : Node) (slots : List Index) :
    List (Event Label) :=
  slots.flatMap (fun index => .use (label node) :: (links node index).elim [] releaseChild)

/-- Release of the nodes below a node, over the slots of its list of indices: a
node is read slot by slot, the child of a slot is released before the next slot
is read, and the node itself is given back last. -/
def release : Nat → Node → List (Event Label)
  | 0, _ => []
  | depth + 1, node =>
      releaseSlots links label (release depth) node indices ++ [.give (label node)]

variable {links label indices}

/-- Distinctness below a child. -/
theorem Distinct.child {node child : Node} {index : Index} (distinct : Distinct links label node)
    (linked : links node index = some child) : Distinct links label child := by
  intro first second one other toOne toOther sameLabel
  have whole := distinct (index :: first) (index :: second) one other
    (by rw [walk, linked]; exact toOne) (by rw [walk, linked]; exact toOther) sameLabel
  exact (List.cons.inj whole).2

/-- The span of a node is its own label and the spans of its children. -/
theorem mem_span {node : Node} (met : Label) :
    met ∈ span links label node ↔
      met = label node ∨ ∃ index child, links node index = some child ∧ met ∈ span links label child := by
  constructor
  · rintro ⟨path, last, reached, rfl⟩
    cases path with
    | nil =>
      left
      rw [Option.some.inj reached]
    | cons index rest =>
      rw [walk, Option.bind_eq_some_iff] at reached
      obtain ⟨child, linked, reached⟩ := reached
      exact .inr ⟨index, child, linked, rest, last, reached, rfl⟩
  · rintro (rfl | ⟨index, child, linked, path, last, reached, rfl⟩)
    · exact ⟨[], node, rfl, rfl⟩
    · exact ⟨index :: path, last, by rw [walk, linked]; exact reached, rfl⟩

/-- Different slots lead to different labels, and none leads back to the
node's. -/
theorem Distinct.apart {node child : Node} {index : Index} (distinct : Distinct links label node)
    (linked : links node index = some child) {met : Label} (inside : met ∈ span links label child) :
    met ≠ label node ∧ ∀ other otherChild, links node other = some otherChild →
      met ∈ span links label otherChild → other = index := by
  obtain ⟨path, last, reached, rfl⟩ := inside
  have whole : walk links node (index :: path) = some last := by
    rw [walk, linked]
    exact reached
  constructor
  · intro sameLabel
    have impossible := distinct (index :: path) [] last node whole rfl sameLabel
    contradiction
  · rintro other otherChild otherLinked ⟨otherPath, otherLast, otherReached, sameLabel⟩
    have samePath := distinct (other :: otherPath) (index :: path) otherLast last
      (by rw [walk, otherLinked]; exact otherReached) whole sameLabel
    exact (List.cons.inj samePath).1

/-- Labels below the children of some slots of a node. -/
def spanAt (links : Node → Index → Option Node) (label : Node → Label) (node : Node)
    (slots : List Index) : Set Label :=
  {met | ∃ index ∈ slots, ∃ child, links node index = some child ∧ met ∈ span links label child}

/-- Labels below one more slot. -/
theorem mem_spanAt_cons {node : Node} {index : Index} {slots : List Index} (met : Label) :
    met ∈ spanAt links label node (index :: slots) ↔
      (∃ child, links node index = some child ∧ met ∈ span links label child) ∨
        met ∈ spanAt links label node slots := by
  constructor
  · rintro ⟨tested, member, found⟩
    rcases List.mem_cons.mp member with rfl | later
    · exact .inl found
    · exact .inr ⟨tested, later, found⟩
  · rintro (found | ⟨tested, later, found⟩)
    · exact ⟨index, by simp, found⟩
    · exact ⟨tested, by simp [later], found⟩

/-- Releasing slots in turn gives back the labels below them. The slots still to
be read have their labels held, since no two slots share a label, and so has the
node, which is below none of its slots. -/
theorem releaseSlots_orderly (shared : Set Label) (node : Node) (slots : List Index)
    (releaseChild : Node → List (Event Label)) (held : Set Label)
    (distinct : Distinct links label node) (once : slots.Nodup) (nodeHeld : label node ∈ held)
    (childrenHeld : spanAt links label node slots ⊆ held)
    (released : ∀ index child held, links node index = some child →
      span links label child ⊆ held →
        Orderly shared held (releaseChild child) (held \ span links label child)) :
    Orderly shared held (releaseSlots links label releaseChild node slots)
      (held \ spanAt links label node slots) := by
  induction slots generalizing held with
  | nil =>
    have nothing : held \ spanAt links label node ([] : List Index) = held := by
      ext met
      simp [spanAt]
    rw [nothing]
    exact .done held
  | cons index rest ih =>
    rw [List.nodup_cons] at once
    have restHeld : spanAt links label node rest ⊆ held := fun met member =>
      childrenHeld ((mem_spanAt_cons met).mpr (.inr member))
    rw [releaseSlots, List.flatMap_cons, List.cons_append]
    refine .use (label node) (.inl nodeHeld) ?_
    cases linked : links node index with
    | none =>
      have same : spanAt links label node (index :: rest) = spanAt links label node rest := by
        ext met
        rw [mem_spanAt_cons, linked]
        simp
      rw [same]
      exact ih held once.2 nodeHeld restHeld
    | some child =>
      have childHeld : span links label child ⊆ held := fun met member =>
        childrenHeld ((mem_spanAt_cons met).mpr (.inl ⟨child, linked, member⟩))
      have split : held \ spanAt links label node (index :: rest) =
          (held \ span links label child) \ spanAt links label node rest := by
        ext met
        simp only [Set.mem_sdiff, mem_spanAt_cons, linked, Option.some.injEq, exists_eq_left',
          not_or, and_assoc]
      rw [split]
      refine (released index child held linked childHeld).append ?_
      refine ih _ once.2 ⟨nodeHeld, ?_⟩ ?_
      · intro member
        exact (distinct.apart linked member).1 rfl
      · rintro met ⟨other, later, otherChild, otherLinked, below⟩
        refine ⟨restHeld ⟨other, later, otherChild, otherLinked, below⟩, ?_⟩
        intro alsoHere
        have sameSlot := (distinct.apart linked alsoHere).2 other otherChild otherLinked below
        exact once.1 (sameSlot ▸ later)

/-- Releasing a distinct store of bounded depth gives back its span, label by
label, and uses no label that is not held at that moment. -/
theorem release_orderly (shared : Set Label) (complete : ∀ index, index ∈ indices)
    (once : indices.Nodup) (depth : Nat) (node : Node) (held : Set Label)
    (distinct : Distinct links label node)
    (shallow : ∀ path, depth ≤ path.length → walk links node path = none)
    (inside : span links label node ⊆ held) :
    Orderly shared held (release links label indices depth node) (held \ span links label node) := by
  induction depth generalizing node held with
  | zero =>
    have impossible := shallow [] (Nat.le_refl 0)
    contradiction
  | succ depth ih =>
    have nodeHeld : label node ∈ held := inside ((mem_span _).mpr (.inl rfl))
    have below : spanAt links label node indices ⊆ held := by
      rintro met ⟨index, _, child, linked, member⟩
      exact inside ((mem_span met).mpr (.inr ⟨index, child, linked, member⟩))
    have slots := releaseSlots_orderly shared node indices (release links label indices depth) held
      distinct once nodeHeld below (by
        intro index child held linked childHeld
        refine ih child held (distinct.child linked) ?_ childHeld
        intro path long
        have deep := shallow (index :: path) (Nat.succ_le_succ long)
        rwa [walk, linked, Option.bind_some] at deep)
    have left : held \ span links label node =
        (held \ spanAt links label node indices) \ {label node} := by
      ext met
      constructor
      · rintro ⟨wasHeld, outside⟩
        refine ⟨⟨wasHeld, ?_⟩, fun same => outside ((mem_span met).mpr (.inl same))⟩
        rintro ⟨index, _, found⟩
        exact outside ((mem_span met).mpr (.inr ⟨index, found⟩))
      · rintro ⟨⟨wasHeld, notBelow⟩, notNode⟩
        refine ⟨wasHeld, fun member => ?_⟩
        rcases (mem_span met).mp member with same | ⟨index, found⟩
        · exact notNode same
        · exact notBelow ⟨index, complete index, found⟩
    rw [release, left]
    refine slots.append (.give (label node) ⟨nodeHeld, ?_⟩ (.done _))
    rintro ⟨index, _, child, linked, member⟩
    exact (distinct.apart linked member).1 rfl

end Release

end Asym.Descents
