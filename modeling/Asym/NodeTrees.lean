import Asym.PathResolution
import Asym.VolumeLifetimes
import Asym.Words

/-!
# Trees of nodes

A model of `node.h`. A node is an address in memory, with its name, its type and the
list of its children. `node_find` looks for a child by the first name of a path, and
`node_traverse` goes down along a path.

The names of a path are followed exactly: at each node, to the child that has the name.
-/

namespace Asym.NodeTrees

open PathParser PathStack PathResolution VolumeLifetimes Words

/-- `node_t`. The list of the children is a list of addresses. -/
structure Node where
  type : Nat
  parent : Option Nat
  children : List Nat
  name : List UInt8
  deriving DecidableEq, Repr

/-- `strchr`, for a character that is not the terminator. -/
def strchr (text : List UInt8) (ch : UInt8) : Option (List UInt8) :=
  match text.dropWhile (· ≠ ch) with
  | [] => none
  | found :: rest => some (found :: rest)

/-- The characters that end a name in `node_find`. -/
def endsNode (deliminator ch : UInt8) : Bool :=
  ch == 0 || ch == deliminator

/-- `node_find`. The loop over the characters is a comparison of at most `MAX_NAME`
turns. -/
def nodeFind (nodes : Nat → Node) (node : Nat) (name : List UInt8) (deliminator : UInt8) : Option Nat :=
  (nodes node).children.find? fun child =>
    compareUpTo (endsNode deliminator) 0 maxName name (nodes child).name

/-- The loop of `node_traverse`. Every turn goes on with a shorter rest of the path. -/
def traverseFrom (nodes : Nat → Node) (deliminator : UInt8) : Nat → Nat → List UInt8 → Option Nat
  | 0, _, _ => none
  | fuel + 1, node, path =>
      if charAt path = 0 then some node
      else
        let name := if charAt path = deliminator then path.tail else path
        match nodeFind nodes node name deliminator with
        | none => none
        | some child =>
            match strchr name deliminator with
            | none => some child
            | some rest => traverseFrom nodes deliminator fuel child rest

/-- `node_traverse`. -/
def nodeTraverse (nodes : Nat → Node) (node : Nat) (path : List UInt8) (deliminator : UInt8) : Option Nat :=
  traverseFrom nodes deliminator (path.length + 1) node path

/-- Names lead from a node to another one, each from a node to a child with exactly this
name. -/
inductive Follows (nodes : Nat → Node) : Nat → List Segment → Nat → Prop where
  | here (node : Nat) : Follows nodes node [] node
  | down {node child last : Nat} {names : List Segment} (member : child ∈ (nodes node).children)
      (later : Follows nodes child names last) : Follows nodes node ((nodes child).name :: names) last

/-- No names lead to the node itself only. -/
theorem follows_nil {nodes : Nat → Node} {root last : Nat} : Follows nodes root [] last ↔ last = root := by
  constructor
  · intro followed
    cases followed
    rfl
  · rintro rfl
    exact .here last

/-- The children of a node have different names. Each name is a word that is shorter
than `MAX_NAME`. -/
structure Siblings (nodes : Nat → Node) (node : Nat) : Prop where
  different : ((nodes node).children.map fun child => (nodes child).name).Nodup
  words : ∀ child ∈ (nodes node).children, Word (nodes child).name
  short : ∀ child ∈ (nodes node).children, (nodes child).name.length < maxName

/-- A node and all nodes below it have siblings with proper names. -/
def WellNamed (nodes : Nat → Node) (root : Nat) : Prop :=
  ∀ names node, Follows nodes root names node → Siblings nodes node

variable {nodes : Nat → Node}

/-- A name in front of separators is a word in `node_find`. -/
theorem word_rooted {name : Segment} (plain : ∀ ch ∈ name, endOfName ch = false) (names : List Segment) :
    word (endsNode nameSeparator) (name ++ rooted names false) = name := by
  have inside : ∀ ch ∈ name, endsNode nameSeparator ch = false := by
    intro ch member
    rw [endsNode, Bool.or_comm]
    exact plain ch member
  cases names with
  | nil =>
    have shape : name ++ rooted [] false = name := by simp [rooted]
    rw [shape]
    exact word_self inside
  | cons next later =>
    have shape : rooted (next :: later) false = nameSeparator :: (next ++ rooted later false) := by
      simp [rooted]
    rw [shape]
    exact word_before inside (by decide) _

/-- `node_find` compares names exactly. -/
theorem Siblings.compares {node : Nat} (siblings : Siblings nodes node) {name : Segment} (isWord : Word name)
    (names : List Segment) {child : Nat} (member : child ∈ (nodes node).children) :
    compareUpTo (endsNode nameSeparator) 0 maxName (name ++ rooted names false) (nodes child).name = true ↔
      (nodes child).name = name := by
  have own : word (endsNode nameSeparator) (nodes child).name = (nodes child).name := by
    have spelled := word_rooted (siblings.words child member).2 []
    simpa [rooted] using spelled
  rw [compareUpTo_iff (by decide), word_rooted isWord.2, own]
  constructor
  · rintro ⟨_, same⟩
    exact same.symm
  · intro same
    have short := siblings.short child member
    rw [same] at short
    exact ⟨short, same.symm⟩

/-- A test for a key that only one item of a list has finds this item. -/
theorem find?_unique {Item Key : Type} {key : Item → Key} {items : List Item}
    (different : (items.map key).Nodup) {test : Item → Bool} {wanted : Key}
    (tests : ∀ item ∈ items, test item = true ↔ key item = wanted) (item : Item) :
    items.find? test = some item ↔ item ∈ items ∧ key item = wanted := by
  constructor
  · intro found
    have member := List.mem_of_find?_eq_some found
    exact ⟨member, (tests item member).mp (List.find?_some found)⟩
  · rintro ⟨member, same⟩
    obtain ⟨other, found⟩ : ∃ other, items.find? test = some other := by
      rw [← Option.isSome_iff_exists, List.find?_isSome]
      exact ⟨item, member, (tests item member).mpr same⟩
    have otherMember := List.mem_of_find?_eq_some found
    have otherKey := (tests other otherMember).mp (List.find?_some found)
    rw [found, List.inj_on_of_nodup_map different otherMember member (otherKey.trans same.symm)]

/-- `node_find` finds the child with the first name of a path. -/
theorem Siblings.nodeFind_iff {node : Nat} (siblings : Siblings nodes node) {name : Segment}
    (isWord : Word name) (names : List Segment) (child : Nat) :
    nodeFind nodes node (name ++ rooted names false) nameSeparator = some child ↔
      child ∈ (nodes node).children ∧ (nodes child).name = name :=
  find?_unique siblings.different (fun _ member => siblings.compares isWord names member) child

/-- A separator is found behind the first name, if there are more names. -/
theorem strchr_rooted {name : Segment} (plain : ∀ ch ∈ name, endOfName ch = false) (names : List Segment) :
    strchr (name ++ rooted names false) nameSeparator =
      if names = [] then none else some (rooted names false) := by
  have skipped : (name ++ rooted names false).dropWhile (· ≠ nameSeparator) =
      (rooted names false).dropWhile (· ≠ nameSeparator) := by
    apply List.dropWhile_append_of_pos
    intro ch member
    rw [decide_eq_true_eq]
    rintro rfl
    exact ends_plain plain member
  rw [strchr, skipped]
  cases names with
  | nil => rfl
  | cons next later => simp [rooted]

/-- The loop of `node_traverse` follows the names of a path. The induction is on the
names; the first one is found among the children of the node. -/
theorem traverseFrom_iff {root : Nat} (named : WellNamed nodes root) {names : List Segment}
    (words : ∀ name ∈ names, Word name) (fuel : Nat) (enough : names.length < fuel) (last : Nat) :
    traverseFrom nodes nameSeparator fuel root (rooted names false) = some last ↔
      Follows nodes root names last := by
  induction names generalizing root fuel with
  | nil =>
    obtain ⟨turns, rfl⟩ := Nat.exists_eq_add_one_of_ne_zero (Nat.ne_of_gt enough)
    rw [traverseFrom, if_pos (by rfl), Option.some.injEq, follows_nil]
    exact eq_comm
  | cons name later ih =>
    obtain ⟨turns, rfl⟩ := Nat.exists_eq_add_one_of_ne_zero (Nat.ne_of_gt (Nat.zero_lt_of_lt enough))
    have isWord := words name List.mem_cons_self
    have laterWords : ∀ other ∈ later, Word other := fun other member => words other (List.mem_cons_of_mem name member)
    have siblings := named [] root (.here root)
    have shape : rooted (name :: later) false = nameSeparator :: (name ++ rooted later false) := by
      simp [rooted]
    have below (child : Nat) (member : child ∈ (nodes root).children) : WellNamed nodes child := by
      intro others node followed
      exact named _ node (.down member followed)
    have head : charAt (nameSeparator :: (name ++ rooted later false)) = nameSeparator := rfl
    rw [shape, traverseFrom, head, if_neg (by decide)]
    simp only [if_true, List.tail_cons, strchr_rooted isWord.2]
    cases found : nodeFind nodes root (name ++ rooted later false) nameSeparator with
    | none =>
      refine iff_of_false (fun same => by cases same) ?_
      intro followed
      cases followed with
      | down member _ =>
        rw [(siblings.nodeFind_iff isWord later _).mpr ⟨member, rfl⟩] at found
        cases found
    | some child =>
      obtain ⟨member, named⟩ := (siblings.nodeFind_iff isWord later child).mp found
      have next := ih (below child member) laterWords turns (Nat.lt_of_succ_lt_succ enough)
      have onward : Follows nodes root (name :: later) last ↔ Follows nodes child later last := by
        constructor
        · intro followed
          cases followed with
          | down otherMember otherLater =>
            have same := (siblings.nodeFind_iff isWord later _).mpr ⟨otherMember, rfl⟩
            rw [found] at same
            rw [Option.some.inj same]
            exact otherLater
        · intro followed
          rw [← named]
          exact .down member followed
      rw [onward, ← next]
      cases later with
      | nil =>
        obtain ⟨rest, rfl⟩ := Nat.exists_eq_add_one_of_ne_zero (Nat.ne_of_gt (Nat.lt_of_succ_lt_succ enough))
        rw [traverseFrom]
        rfl
      | cons second others => rfl

/-- `node_find` reads the first name of a path only. -/
theorem nodeFind_rooted (nodes : Nat → Node) (node : Nat) {name : Segment}
    (plain : ∀ ch ∈ name, endOfName ch = false) (first second : List Segment) :
    nodeFind nodes node (name ++ rooted first false) nameSeparator =
      nodeFind nodes node (name ++ rooted second false) nameSeparator := by
  have same : word (endsNode nameSeparator) (name ++ rooted first false) =
      word (endsNode nameSeparator) (name ++ rooted second false) := by
    rw [word_rooted plain, word_rooted plain]
  rw [nodeFind, nodeFind]
  congr 1
  funext child
  exact compareUpTo_congr (by decide) _ same rfl

/-- The rest of a path that `strchr` finds is not longer, and shorter if the path does not
begin with the character. -/
theorem strchr_length {text rest : List UInt8} {ch : UInt8} (found : strchr text ch = some rest) :
    rest.length ≤ text.length ∧ (charAt text ≠ ch → rest.length < text.length) := by
  have shorter : (text.dropWhile (· ≠ ch)).length ≤ text.length := (List.dropWhile_sublist _).length_le
  rw [strchr] at found
  cases dropped : text.dropWhile (· ≠ ch) with
  | nil =>
    rw [dropped] at found
    cases found
  | cons first others =>
    rw [dropped] at found shorter
    obtain rfl := Option.some.inj found
    refine ⟨shorter, fun different => ?_⟩
    cases text with
    | nil => simp at dropped
    | cons head tail =>
      have passed : head ≠ ch := different
      rw [List.dropWhile_cons_of_pos (by simpa using passed)] at dropped
      have inTail : (tail.dropWhile (· ≠ ch)).length ≤ tail.length := (List.dropWhile_sublist _).length_le
      rw [dropped] at inTail
      exact Nat.lt_succ_of_le inTail

/-- Fuel beyond the length of the path does not change a traversal. -/
theorem traverseFrom_fuel (fuel other node : Nat) (path : List UInt8) (enough : path.length < fuel)
    (enoughOther : path.length < other) :
    traverseFrom nodes nameSeparator fuel node path = traverseFrom nodes nameSeparator other node path := by
  induction fuel generalizing other node path with
  | zero => exact absurd enough (Nat.not_lt_zero _)
  | succ fuel ih =>
    obtain ⟨turns, rfl⟩ := Nat.exists_eq_add_one_of_ne_zero (Nat.ne_of_gt (Nat.zero_lt_of_lt enoughOther))
    rw [traverseFrom, traverseFrom]
    by_cases ended : charAt path = 0
    · rw [if_pos ended, if_pos ended]
    · rw [if_neg ended, if_neg ended]
      have present : 0 < path.length := by
        cases path with
        | nil => exact absurd rfl ended
        | cons ch rest => exact Nat.succ_pos _
      dsimp only
      cases nodeFind nodes node (if charAt path = nameSeparator then path.tail else path) nameSeparator with
      | none => rfl
      | some child =>
        dsimp only
        cases following : strchr (if charAt path = nameSeparator then path.tail else path) nameSeparator with
        | none => rfl
        | some rest =>
          have shorter : rest.length < path.length := by
            obtain ⟨notLonger, strictly⟩ := strchr_length following
            by_cases separator : charAt path = nameSeparator
            · rw [if_pos separator, List.length_tail] at notLonger
              omega
            · rw [if_neg separator] at strictly
              exact strictly separator
          exact ih turns child rest (by omega) (by omega)

/-- Names take at least as much room as there are. -/
theorem length_le_rooted (names : List Segment) : names.length ≤ (rooted names false).length := by
  induction names with
  | nil => exact Nat.zero_le _
  | cons name later ih =>
    have shape : rooted (name :: later) false = nameSeparator :: (name ++ rooted later false) := by
      simp [rooted]
    rw [shape, List.length_cons, List.length_cons, List.length_append]
    omega

/-- `node_traverse` goes to the child that `node_find` finds by the first name, and on from there. -/
theorem nodeTraverse_cons {name : Segment} (plain : ∀ ch ∈ name, endOfName ch = false) (root : Nat)
    (later : List Segment) : nodeTraverse nodes root (rooted (name :: later) false) nameSeparator =
      (nodeFind nodes root (name ++ rooted later false) nameSeparator).bind fun child =>
        nodeTraverse nodes child (rooted later false) nameSeparator := by
  have shape : rooted (name :: later) false = nameSeparator :: (name ++ rooted later false) := by
    simp [rooted]
  have head : charAt (nameSeparator :: (name ++ rooted later false)) = nameSeparator := rfl
  rw [nodeTraverse, shape, traverseFrom, head, if_neg (by decide)]
  simp only [if_true, List.tail_cons, strchr_rooted plain]
  cases nodeFind nodes root (name ++ rooted later false) nameSeparator with
  | none => rfl
  | some child =>
    rw [Option.bind_some]
    by_cases last : later = []
    · subst last
      rfl
    · rw [if_neg last]
      refine traverseFrom_fuel _ _ child _ ?_ (Nat.lt_succ_self _)
      rw [List.length_cons, List.length_append]
      omega

/-- From the node to which names lead, a further name leads where all of them lead from the root. -/
theorem nodeTraverse_snoc {root node : Nat} {names : List Segment} (words : ∀ name ∈ names, Word name)
    (leads : nodeTraverse nodes root (rooted names false) nameSeparator = some node) (last : Segment) :
    nodeTraverse nodes root (rooted (names ++ [last]) false) nameSeparator =
      nodeTraverse nodes node (rooted [last] false) nameSeparator := by
  induction names generalizing root with
  | nil =>
    obtain rfl : root = node := Option.some.inj leads
    rfl
  | cons name later ih =>
    have plain := (words name List.mem_cons_self).2
    rw [nodeTraverse_cons plain] at leads
    obtain ⟨child, found, onward⟩ := Option.bind_eq_some_iff.mp leads
    rw [nodeFind_rooted nodes root plain later (later ++ [last])] at found
    rw [List.cons_append, nodeTraverse_cons plain, found]
    exact ih (fun other member => words other (List.mem_cons_of_mem name member)) onward

/-- `node_traverse` follows the names of a path exactly. -/
theorem nodeTraverse_iff {root : Nat} (named : WellNamed nodes root) {names : List Segment}
    (words : ∀ name ∈ names, Word name) (last : Nat) :
    nodeTraverse nodes root (rooted names false) nameSeparator = some last ↔ Follows nodes root names last :=
  traverseFrom_iff named words _ (Nat.lt_succ_of_le (length_le_rooted names)) last

end Asym.NodeTrees
