import Mathlib.Tactic.Common
import Mathlib.Data.List.Induction

/-!
# Walks through linked nodes

A store gives every node a partial link per index. A walk follows a list of
indices from a root. The store is separated up to a depth when no node is
reached by two different walks of at most that depth; this is what makes the
linked nodes a tree there.

Two updates are analysed over arbitrary nodes and indices: attaching a fresh
node without links below a reached node, and changing links only of nodes that
no shorter walk reaches. Both determine every later walk exactly.
-/

namespace Asym.LinkedWalks

universe u v
variable {Node : Type u} {Index : Type v}

/-- Follow a list of indices from a node. -/
def walk (links : Node → Index → Option Node) (node : Node) : List Index → Option Node
  | [] => some node
  | index :: rest => (links node index).bind (fun next => walk links next rest)

/-- No node is reached by two different walks of at most the given depth. -/
def Separated (links : Node → Index → Option Node) (root : Node) (depth : Nat) : Prop :=
  ∀ first second node, first.length ≤ depth → second.length ≤ depth →
    walk links root first = some node → walk links root second = some node → first = second

@[simp] theorem walk_nil (links : Node → Index → Option Node) (node : Node) :
    walk links node [] = some node := rfl

/-- A walk ends with one link from where its beginning ends. -/
theorem walk_concat (links : Node → Index → Option Node) (node : Node) (path : List Index)
    (index : Index) :
    walk links node (path ++ [index]) = (walk links node path).bind (fun last => links last index) := by
  induction path generalizing node with
  | nil => simp [walk]
  | cons head rest ih =>
    rw [List.cons_append, walk, walk, Option.bind_assoc]
    exact congrArg _ (funext fun next => ih next)

/-- Both stores give the same walks up to a depth when they differ only at nodes
that no shorter walk of the first one reaches. -/
theorem walk_frame {links next : Node → Index → Option Node} {root : Node} {depth : Nat}
    (same : ∀ path node, path.length < depth → walk links root path = some node →
      ∀ index, next node index = links node index)
    (path : List Index) (short : path.length ≤ depth) :
    walk next root path = walk links root path := by
  induction path using List.reverseRecOn with
  | nil => rfl
  | append_singleton path index ih =>
    rw [List.length_append, List.length_singleton] at short
    rw [walk_concat, walk_concat, ih (by omega)]
    cases reached : walk links root path with
    | none => rfl
    | some node => exact same path node (by omega) reached index

/-- Equal walks up to a depth keep the store separated there. -/
theorem separated_frame {links next : Node → Index → Option Node} {root : Node} {depth : Nat}
    (same : ∀ path, path.length ≤ depth → walk next root path = walk links root path)
    (separated : Separated links root depth) : Separated next root depth := by
  intro first second node firstShort secondShort toFirst toSecond
  rw [same first firstShort] at toFirst
  rw [same second secondShort] at toSecond
  exact separated first second node firstShort secondShort toFirst toSecond

/-- Attaching a fresh node without links adds exactly one walk. The old walks
never use the attached link, since it was absent, nor the fresh node, since it
was not reached; a new walk through the fresh node cannot continue. -/
theorem walk_attach {links next : Node → Index → Option Node} {root parent fresh : Node}
    {index : Index} {path : List Index} {depth : Nat} (separated : Separated links root depth)
    (inside : path.length < depth) (place : walk links root path = some parent)
    (absent : links parent index = none) (added : next parent index = some fresh)
    (childless : ∀ other, next fresh other = none)
    (same : ∀ node other, node ≠ fresh → (node ≠ parent ∨ other ≠ index) →
      next node other = links node other)
    (unreached : ∀ other, other.length ≤ depth → walk links root other ≠ some fresh)
    (tested : List Index) (node : Node) (short : tested.length ≤ depth) :
    walk next root tested = some node ↔
      walk links root tested = some node ∨ (tested = path ++ [index] ∧ node = fresh) := by
  induction tested using List.reverseRecOn generalizing node with
  | nil => simp
  | append_singleton before last ih =>
    rw [List.length_append, List.length_singleton] at short
    have earlier := fun reached => ih reached (by omega)
    rw [walk_concat, walk_concat, Option.bind_eq_some_iff, Option.bind_eq_some_iff]
    have ends : before ++ [last] = path ++ [index] ↔ before = path ∧ last = index := by simp
    constructor
    · rintro ⟨middle, toMiddle, link⟩
      rcases (earlier middle).mp toMiddle with old | ⟨_, rfl⟩
      · have notFresh : middle ≠ fresh := by
          rintro rfl
          exact unreached before (by omega) old
        by_cases attached : middle = parent ∧ last = index
        · obtain ⟨rfl, rfl⟩ := attached
          refine .inr ⟨ends.mpr ⟨?_, rfl⟩, Option.some.inj (link.symm.trans added)⟩
          exact separated before path middle (by omega) (by omega) old place
        · rw [same middle last notFresh (by tauto)] at link
          exact .inl ⟨middle, old, link⟩
      · rw [childless] at link
        exact absurd link (by simp)
    · rintro (⟨middle, toMiddle, link⟩ | ⟨atEnd, rfl⟩)
      · have notFresh : middle ≠ fresh := by
          rintro rfl
          exact unreached before (by omega) toMiddle
        have notAttached : middle ≠ parent ∨ last ≠ index := by
          by_contra both
          push Not at both
          obtain ⟨rfl, rfl⟩ := both
          rw [absent] at link
          exact absurd link (by simp)
        exact ⟨middle, (earlier middle).mpr (.inl toMiddle),
          (same middle last notFresh notAttached).trans link⟩
      · obtain ⟨rfl, rfl⟩ := ends.mp atEnd
        exact ⟨parent, (earlier parent).mpr (.inl place), added⟩

/-- Attaching a fresh node keeps the store separated. -/
theorem separated_attach {links next : Node → Index → Option Node} {root fresh : Node}
    {added : List Index} {depth : Nat} (separated : Separated links root depth)
    (unreached : ∀ other, other.length ≤ depth → walk links root other ≠ some fresh)
    (exact : ∀ tested node, tested.length ≤ depth → (walk next root tested = some node ↔
      walk links root tested = some node ∨ (tested = added ∧ node = fresh))) :
    Separated next root depth := by
  intro first second node firstShort secondShort toFirst toSecond
  rcases (exact first node firstShort).mp toFirst with oldFirst | ⟨rfl, rfl⟩
  · rcases (exact second node secondShort).mp toSecond with oldSecond | ⟨_, rfl⟩
    · exact separated first second node firstShort secondShort oldFirst oldSecond
    · exact absurd oldFirst (unreached first firstShort)
  · rcases (exact second node secondShort).mp toSecond with oldSecond | ⟨rfl, _⟩
    · exact absurd oldSecond (unreached second secondShort)
    · rfl

end Asym.LinkedWalks
