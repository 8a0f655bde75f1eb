import Mathlib.Data.List.Induction
import Mathlib.Data.List.Pairwise
import Mathlib.Tactic.Common

/-!
# Catalogues of a tree

A tree that grows by puts is written down as a list, in the order in which its nodes are made.
Putting a leaf at a path makes the folders on the way that are missing and then the leaf. Taking
a leaf away leaves the folders.

A history is consistent when no leaf is put where another leaf or a folder is put, or below
another leaf, and only leaves that are there are taken away. Its catalogue then has a folder for
every path to a leaf that was ever put, and a leaf for every one that was not taken away.
-/

namespace Asym.Catalogues

universe u
variable {Name : Type u}

/-- A node of a tree: the names of the folders above it, its own name, and whether it is a leaf. -/
structure Item (Name : Type u) where
  parent : List Name
  name : Name
  leaf : Bool
  deriving DecidableEq

/-- The names that lead to a node. -/
def Item.path (item : Item Name) : List Name := item.parent ++ [item.name]

/-- A change of a tree: a leaf is put below some folders, or the leaf at a path is taken away. -/
inductive Change (Name : Type u) where
  | put (parent : List Name) (name : Name)
  | drop (path : List Name)

/-- The leaves that were ever put, each with the folders above it. -/
def puts (changes : List (Change Name)) : List (List Name × Name) :=
  changes.filterMap fun change =>
    match change with
    | .put parent name => some (parent, name)
    | .drop _ => none

/-- Two leaves at different paths, none of them on the way to the other. -/
def Separate (first second : List Name × Name) : Prop :=
  first.1 ++ [first.2] ≠ second.1 ++ [second.2] ∧ ¬ first.1 ++ [first.2] <+: second.1 ∧
    ¬ second.1 ++ [second.2] <+: first.1

/-- Being apart is symmetric. -/
theorem separate_symm {first second : List Name × Name} (separate : Separate first second) :
    Separate second first :=
  ⟨separate.1.symm, separate.2.2, separate.2.1⟩

/-- A leaf was put. -/
theorem mem_puts {changes : List (Change Name)} {parent : List Name} {name : Name} :
    (parent, name) ∈ puts changes ↔ .put parent name ∈ changes := by
  simp only [puts, List.mem_filterMap]
  constructor
  · rintro ⟨change, member, same⟩
    cases change with
    | put => obtain ⟨rfl, rfl⟩ := Prod.mk.inj (Option.some.inj same); exact member
    | drop => cases same
  · exact fun member => ⟨_, member, rfl⟩

variable [DecidableEq Name]

/-- A folder is made unless it is there. -/
def makeFolder (items : List (Item Name)) (parent : List Name) (name : Name) : List (Item Name) :=
  if ⟨parent, name, false⟩ ∈ items then items else items ++ [⟨parent, name, false⟩]

/-- The folders on the way are made, from the top. -/
def makeFolders (items : List (Item Name)) (parent : List Name) : List Name → List (Item Name)
  | [] => items
  | name :: later => makeFolders (makeFolder items parent name) (parent ++ [name]) later

/-- One change of a catalogue. -/
def apply (items : List (Item Name)) : Change Name → List (Item Name)
  | .put parent name => makeFolders items [] parent ++ [⟨parent, name, true⟩]
  | .drop path => items.filter fun item => item.path ≠ path

/-- The catalogue of a history. -/
def replay (changes : List (Change Name)) : List (Item Name) := changes.foldl apply []

/-- The leaves that are there after one more change. -/
def applyLive (paths : List (List Name)) : Change Name → List (List Name)
  | .put parent name => paths ++ [parent ++ [name]]
  | .drop path => paths.filter (· ≠ path)

/-- The leaves that are there after a history, in the order in which they were put. -/
def live (changes : List (Change Name)) : List (List Name) := changes.foldl applyLive []

/-- A history in which leaves are put apart and taken away while they are there. -/
structure Consistent (changes : List (Change Name)) : Prop where
  separate : (puts changes).Pairwise Separate
  present : ∀ before path after, changes = before ++ .drop path :: after → path ∈ live before

/-- The catalogue after one more change. -/
theorem replay_snoc (changes : List (Change Name)) (change : Change Name) :
    replay (changes ++ [change]) = apply (replay changes) change := by
  rw [replay, List.foldl_append]
  rfl

/-- The leaves after one more change. -/
theorem live_snoc (changes : List (Change Name)) (change : Change Name) :
    live (changes ++ [change]) = applyLive (live changes) change := by
  rw [live, List.foldl_append]
  rfl

/-- A history is consistent up to every change. -/
theorem Consistent.before {changes : List (Change Name)} {change : Change Name}
    (consistent : Consistent (changes ++ [change])) : Consistent changes where
  separate := by
    have separate := consistent.separate
    rw [puts, List.filterMap_append] at separate
    exact (List.pairwise_append.mp separate).1
  present before path after same :=
    consistent.present before path (after ++ [change]) (by rw [same, List.append_assoc, List.cons_append])

/-- Different leaves that were put are apart. -/
theorem Consistent.different {changes : List (Change Name)} (consistent : Consistent changes)
    {first second : List Name × Name} (member : first ∈ puts changes) (other : second ∈ puts changes)
    (different : first ≠ second) : Separate first second := by
  have symmetric : Std.Symm (@Separate Name) := ⟨fun _ _ => separate_symm⟩
  exact consistent.separate.forall member other different

/-- No leaf that was put is on the way to one that was put. -/
theorem Consistent.not_above {changes : List (Change Name)} (consistent : Consistent changes)
    {first second : List Name × Name} (member : first ∈ puts changes) (other : second ∈ puts changes) :
    ¬ first.1 ++ [first.2] <+: second.1 := by
  by_cases same : first = second
  · subst same
    intro way
    have shorter := way.length_le
    rw [List.length_append, List.length_singleton] at shorter
    omega
  · exact (consistent.different member other same).2.1

/-- A leaf is put apart from those before it. -/
theorem Consistent.apart {changes : List (Change Name)} {parent : List Name} {name : Name}
    (consistent : Consistent (changes ++ [.put parent name])) :
    ∀ earlier ∈ puts changes, Separate earlier (parent, name) := by
  have separate := consistent.separate
  rw [puts, List.filterMap_append] at separate
  intro earlier member
  exact (List.pairwise_append.mp separate).2.2 earlier member _ (by simp)

/-- Only what is there is taken away. -/
theorem Consistent.held {changes : List (Change Name)} {path : List Name}
    (consistent : Consistent (changes ++ [.drop path])) : path ∈ live changes :=
  consistent.present changes path [] rfl

/-- A folder that is made is there, with those that were there before. -/
theorem mem_makeFolder {items : List (Item Name)} {parent : List Name} {name : Name} {item : Item Name} :
    item ∈ makeFolder items parent name ↔ item ∈ items ∨ item = ⟨parent, name, false⟩ := by
  rw [makeFolder]
  split_ifs with there
  · refine ⟨.inl, fun either => ?_⟩
    rcases either with before | rfl
    · exact before
    · exact there
  · simp

/-- The folders on the way are those whose path begins the way. -/
theorem mem_makeFolders {items : List (Item Name)} {parent names : List Name} {item : Item Name} :
    item ∈ makeFolders items parent names ↔ item ∈ items ∨
      ∃ before name after, names = before ++ name :: after ∧ item = ⟨parent ++ before, name, false⟩ := by
  induction names generalizing items parent with
  | nil => simp [makeFolders]
  | cons first later ih =>
    rw [makeFolders, ih, mem_makeFolder, or_assoc]
    refine or_congr_right ⟨?_, ?_⟩
    · rintro (rfl | ⟨before, name, after, rfl, rfl⟩)
      · exact ⟨[], first, later, rfl, by rw [List.append_nil]⟩
      · exact ⟨first :: before, name, after, rfl, by rw [List.append_assoc, List.singleton_append]⟩
    · rintro ⟨before, name, after, same, rfl⟩
      cases before with
      | nil =>
        obtain ⟨rfl, rfl⟩ := List.cons.inj same
        exact .inl (by rw [List.append_nil])
      | cons second others =>
        obtain ⟨rfl, rfl⟩ := List.cons.inj same
        exact .inr ⟨others, name, after, rfl, by rw [List.append_assoc, List.singleton_append]⟩

/-- The folders on the way from the top. -/
theorem mem_makeFolders_top {items : List (Item Name)} {names : List Name} {item : Item Name} :
    item ∈ makeFolders items [] names ↔
      item ∈ items ∨ item.leaf = false ∧ item.path <+: names := by
  rw [mem_makeFolders]
  refine or_congr_right ⟨?_, ?_⟩
  · rintro ⟨before, name, after, rfl, rfl⟩
    exact ⟨rfl, after, by simp [Item.path]⟩
  · rintro ⟨folder, after, rfl⟩
    obtain ⟨parent, name, leaf⟩ := item
    obtain rfl : leaf = false := folder
    exact ⟨parent, name, after, by simp [Item.path], rfl⟩

/-- A leaf that is there was put. -/
theorem live_put {changes : List (Change Name)} {path : List Name} (there : path ∈ live changes) :
    ∃ put ∈ puts changes, path = put.1 ++ [put.2] := by
  induction changes using List.reverseRecOn with
  | nil => cases there
  | append_singleton changes change ih =>
    rw [live_snoc] at there
    rw [puts, List.filterMap_append]
    cases change with
    | put parent name =>
      rcases List.mem_append.mp there with before | last
      · obtain ⟨put, member, same⟩ := ih before
        exact ⟨put, List.mem_append_left _ member, same⟩
      · exact ⟨(parent, name), List.mem_append_right _ (by simp), List.mem_singleton.mp last⟩
    | drop dropped =>
      obtain ⟨put, member, same⟩ := ih (List.mem_filter.mp there).1
      exact ⟨put, List.mem_append_left _ member, same⟩

/-- The catalogue of a consistent history: its folders begin the ways to the leaves that were put,
and its leaves are there. -/
theorem mem_replay {changes : List (Change Name)} (consistent : Consistent changes) (item : Item Name) :
    item ∈ replay changes ↔
      if item.leaf then item.path ∈ live changes else ∃ put ∈ puts changes, item.path <+: put.1 := by
  induction changes using List.reverseRecOn generalizing item with
  | nil => cases leaf : item.leaf <;> simp [replay, live, puts]
  | append_singleton changes change ih =>
    have earlier := ih consistent.before item
    rw [replay_snoc, live_snoc]
    cases change with
    | put parent name =>
      have more : puts (changes ++ [.put parent name]) = puts changes ++ [(parent, name)] := by
        rw [puts, List.filterMap_append]
        rfl
      rw [apply, List.mem_append, mem_makeFolders_top, earlier, List.mem_singleton, more, applyLive]
      obtain ⟨above, own, leaf⟩ := item
      cases leaf with
      | true => simp [Item.path, eq_comm]
      | false => simp [or_and_right, exists_or]
    | drop path =>
      have same : puts (changes ++ [.drop path]) = puts changes := by
        rw [puts, List.filterMap_append, List.filterMap_cons_none rfl, List.filterMap_nil, List.append_nil]
        rfl
      rw [apply, List.mem_filter, earlier, same, applyLive]
      cases leaf : item.leaf with
      | true => simp [List.mem_filter]
      | false =>
        simp only [Bool.false_eq_true, if_false, decide_eq_true_eq, and_iff_left_iff_imp]
        -- the leaf taken away is no folder
        rintro ⟨put, member, begins⟩ rfl
        obtain ⟨other, otherMember, path⟩ := live_put consistent.held
        rw [path] at begins
        exact consistent.before.not_above otherMember member begins

/-- No leaf of the catalogue is on the way to one that is put. -/
theorem Consistent.clear {changes : List (Change Name)} {parent : List Name} {name : Name}
    (consistent : Consistent (changes ++ [.put parent name])) (item : Item Name)
    (member : item ∈ replay changes) (leaf : item.leaf = true) : ¬ item.path <+: parent := by
  have there := (mem_replay consistent.before item).mp member
  rw [leaf, if_pos rfl] at there
  obtain ⟨put, known, same⟩ := live_put there
  rw [same]
  exact (consistent.apart put known).2.1

/-- Nothing stands where a leaf is put, when the folders above it are made. -/
theorem Consistent.vacant {changes : List (Change Name)} {parent : List Name} {name : Name}
    (consistent : Consistent (changes ++ [.put parent name])) (item : Item Name)
    (member : item ∈ makeFolders (replay changes) [] parent) : item.path ≠ parent ++ [name] := by
  intro same
  rcases mem_makeFolders_top.mp member with before | ⟨-, way⟩
  · have there := (mem_replay consistent.before item).mp before
    split_ifs at there
    · obtain ⟨put, known, path⟩ := live_put there
      exact (consistent.apart put known).1 (path.symm.trans same)
    · obtain ⟨put, known, way⟩ := there
      rw [same] at way
      exact (consistent.apart put known).2.2 way
  · rw [same] at way
    have shorter := way.length_le
    rw [List.length_append, List.length_singleton] at shorter
    omega

/-- Folders are no leaves. -/
theorem leaves_makeFolders (items : List (Item Name)) (parent names : List Name) :
    (makeFolders items parent names).filter Item.leaf = items.filter Item.leaf := by
  induction names generalizing items parent with
  | nil => rfl
  | cons name later ih =>
    rw [makeFolders, ih, makeFolder]
    split_ifs
    · rfl
    · simp [List.filter_append]

/-- The leaves of the catalogue are those that are there, in their order. -/
theorem leaves_replay (changes : List (Change Name)) :
    ((replay changes).filter Item.leaf).map Item.path = live changes := by
  induction changes using List.reverseRecOn with
  | nil => rfl
  | append_singleton changes change ih =>
    rw [replay_snoc, live_snoc, ← ih]
    cases change with
    | put parent name => simp [apply, applyLive, List.filter_append, leaves_makeFolders, Item.path]
    | drop path =>
      rw [apply, applyLive, List.filter_filter, List.filter_map, List.filter_filter]
      congr 2
      funext item
      exact Bool.and_comm _ _

end Asym.Catalogues
