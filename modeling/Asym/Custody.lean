import Asym.Runs
import Mathlib.Data.List.Perm.Basic
import Mathlib.Data.List.Nodup
import Mathlib.Logic.Function.Basic

/-!
# Custody of items in exclusive places

Items are kept in lists, one list for each place, and belong to groups that
count their live items. An item is created into a place, moved between places
and finally discarded; discarding the last item of a group discards the group.
Where an item stands in a list does not matter here, so lists are described up
to permutation.

The invariant says that live items are exactly those in some place, that no item
is in two places or twice in one, that nothing is discarded twice, and that a
group is discarded exactly when all its items are. Every step keeps it, hence
every run does. A program whose every operation is a run of these steps inherits
it.
-/

namespace Asym.Custody

universe u v w
variable {Place : Type u} {Item : Type v} {Group : Type w}

/-- Items in places, with the bookkeeping of their groups. `items` and `groups`
are all ever created. -/
structure Ledger (Place : Type u) (Item : Type v) (Group : Type w) where
  held : Place → List Item
  group : Item → Group
  references : Group → Nat
  items : List Item
  groups : List Group
  discardedItems : List Item
  discardedGroups : List Group

variable [DecidableEq Place] [DecidableEq Item] [DecidableEq Group]

/-- Drop one reference of a group, and discard the group with its last one. -/
def Ledger.dropReference (ledger : Ledger Place Item Group) (item : Item) : Ledger Place Item Group :=
  { ledger with
    references := Function.update ledger.references (ledger.group item)
      (ledger.references (ledger.group item) - 1)
    discardedItems := item :: ledger.discardedItems
    discardedGroups :=
      if ledger.references (ledger.group item) ≤ 1 then
        ledger.group item :: ledger.discardedGroups
      else ledger.discardedGroups }

/-- One change of custody. -/
inductive Step : Ledger Place Item Group → Ledger Place Item Group → Prop where
  /-- An item leaves one place for another. -/
  | move (ledger : Ledger Place Item Group) (source target : Place) (item : Item)
      (left arrived : List Item) (different : source ≠ target)
      (leaves : (ledger.held source).Perm (item :: left))
      (arrives : arrived.Perm (item :: ledger.held target)) :
      Step ledger { ledger with
        held := Function.update (Function.update ledger.held source left) target arrived }
  /-- An item leaves its place and is discarded. -/
  | discard (ledger : Ledger Place Item Group) (source : Place) (item : Item) (left : List Item)
      (leaves : (ledger.held source).Perm (item :: left)) :
      Step ledger { ledger.dropReference item with
        held := Function.update ledger.held source left }
  /-- A new group starts with a new item. -/
  | found (ledger : Ledger Place Item Group) (target : Place) (item : Item) (group : Group)
      (arrived : List Item) (newItem : item ∉ ledger.items) (newGroup : group ∉ ledger.groups)
      (arrives : arrived.Perm (item :: ledger.held target)) :
      Step ledger { ledger with
        held := Function.update ledger.held target arrived
        group := Function.update ledger.group item group
        references := Function.update ledger.references group 1
        items := item :: ledger.items
        groups := group :: ledger.groups }
  /-- A new item joins the group of an item still held. -/
  | join (ledger : Ledger Place Item Group) (source target : Place) (sibling item : Item)
      (arrived : List Item) (newItem : item ∉ ledger.items) (live : sibling ∈ ledger.held source)
      (arrives : arrived.Perm (item :: ledger.held target)) :
      Step ledger { ledger with
        held := Function.update ledger.held target arrived
        group := Function.update ledger.group item (ledger.group sibling)
        references := Function.update ledger.references (ledger.group sibling)
          (ledger.references (ledger.group sibling) + 1)
        items := item :: ledger.items }

/-- Live items of a group. -/
def Ledger.liveOf (ledger : Ledger Place Item Group) (group : Group) : List Item :=
  ledger.items.filter (fun item => ledger.group item = group ∧ item ∉ ledger.discardedItems)

/-- No item is in two places or twice in one. -/
structure Exclusive (held : Place → List Item) : Prop where
  once : ∀ place, (held place).Nodup
  apart : ∀ first second item, item ∈ held first → item ∈ held second → first = second

/-- The books are in order. -/
structure Balanced (ledger : Ledger Place Item Group) : Prop where
  exclusive : Exclusive ledger.held
  live : ∀ item, (∃ place, item ∈ ledger.held place) ↔
    item ∈ ledger.items ∧ item ∉ ledger.discardedItems
  created : ledger.items.Nodup
  known : ∀ item ∈ ledger.items, ledger.group item ∈ ledger.groups
  discardedOnce : ledger.discardedItems.Nodup
  discardedKnown : ∀ item ∈ ledger.discardedItems, item ∈ ledger.items
  counted : ∀ group ∈ ledger.groups, ledger.references group = (ledger.liveOf group).length
  groupsOnce : ledger.discardedGroups.Nodup
  finished : ∀ group, group ∈ ledger.discardedGroups ↔
    group ∈ ledger.groups ∧ ledger.liveOf group = []

omit [DecidableEq Item] in
/-- Taking an item out of its place leaves every other item where it was. -/
theorem take_exclusive {held : Place → List Item} {source : Place} {item : Item} {left : List Item}
    (exclusive : Exclusive held) (leaves : (held source).Perm (item :: left)) :
    Exclusive (Function.update held source left) ∧ ∀ place other,
      other ∈ Function.update held source left place ↔ other ≠ item ∧ other ∈ held place := by
  have distinct := leaves.nodup_iff.mp (exclusive.once source)
  rw [List.nodup_cons] at distinct
  have there : item ∈ held source := leaves.mem_iff.mpr List.mem_cons_self
  have members : ∀ place other,
      other ∈ Function.update held source left place ↔ other ≠ item ∧ other ∈ held place := by
    intro place other
    by_cases here : place = source
    · subst here
      rw [Function.update_self, leaves.mem_iff, List.mem_cons]
      constructor
      · intro stays
        exact ⟨fun same => distinct.1 (same ▸ stays), .inr stays⟩
      · rintro ⟨different, same | stays⟩
        · exact absurd same different
        · exact stays
    · rw [Function.update_of_ne here]
      constructor
      · intro elsewhere
        exact ⟨fun same => here (exclusive.apart place source item (same ▸ elsewhere) there), elsewhere⟩
      · exact And.right
  refine ⟨⟨?_, ?_⟩, members⟩
  · intro place
    by_cases here : place = source
    · rw [here, Function.update_self]
      exact distinct.2
    · rw [Function.update_of_ne here]
      exact exclusive.once place
  · intro first second other inFirst inSecond
    exact exclusive.apart first second other ((members first other).mp inFirst).2
      ((members second other).mp inSecond).2

omit [DecidableEq Item] in
/-- Putting an item that is nowhere into a place leaves every other item where it
was. -/
theorem put_exclusive {held : Place → List Item} {target : Place} {item : Item}
    {arrived : List Item} (exclusive : Exclusive held) (nowhere : ∀ place, item ∉ held place)
    (arrives : arrived.Perm (item :: held target)) :
    Exclusive (Function.update held target arrived) ∧ ∀ place other,
      other ∈ Function.update held target arrived place ↔
        other ∈ held place ∨ (other = item ∧ place = target) := by
  have members : ∀ place other, other ∈ Function.update held target arrived place ↔
      other ∈ held place ∨ (other = item ∧ place = target) := by
    intro place other
    by_cases here : place = target
    · subst here
      rw [Function.update_self, arrives.mem_iff, List.mem_cons]
      tauto
    · rw [Function.update_of_ne here]
      tauto
  refine ⟨⟨?_, ?_⟩, members⟩
  · intro place
    by_cases here : place = target
    · rw [here, Function.update_self, arrives.nodup_iff, List.nodup_cons]
      exact ⟨nowhere target, exclusive.once target⟩
    · rw [Function.update_of_ne here]
      exact exclusive.once place
  · intro first second other inFirst inSecond
    rcases (members first other).mp inFirst with heldFirst | ⟨rfl, rfl⟩
    · rcases (members second other).mp inSecond with heldSecond | ⟨rfl, rfl⟩
      · exact exclusive.apart first second other heldFirst heldSecond
      · exact absurd heldFirst (nowhere first)
    · rcases (members second other).mp inSecond with heldSecond | ⟨_, rfl⟩
      · exact absurd heldSecond (nowhere second)
      · rfl

omit [DecidableEq Item] in
/-- Moving an item leaves every other item where it was. -/
theorem move_exclusive (held : Place → List Item) (source target : Place) (item : Item)
    (left arrived : List Item) (exclusive : Exclusive held) (different : source ≠ target)
    (leaves : (held source).Perm (item :: left)) (arrives : arrived.Perm (item :: held target)) :
    Exclusive (Function.update (Function.update held source left) target arrived) ∧
      ∀ place other, other ∈ Function.update (Function.update held source left) target arrived place ↔
        (other ≠ item ∧ other ∈ held place) ∨ (other = item ∧ place = target) := by
  obtain ⟨taken, afterTake⟩ := take_exclusive exclusive leaves
  have nowhere : ∀ place, item ∉ Function.update held source left place :=
    fun place here => ((afterTake place item).mp here).1 rfl
  rw [← Function.update_of_ne (Ne.symm different) left held] at arrives
  obtain ⟨put, afterPut⟩ := put_exclusive taken nowhere arrives
  refine ⟨put, fun place other => ?_⟩
  rw [afterPut, afterTake]

/-- Moving an item keeps the books in order. -/
theorem move_balanced {ledger : Ledger Place Item Group} {source target : Place} {item : Item}
    {left arrived : List Item} (different : source ≠ target)
    (leaves : (ledger.held source).Perm (item :: left))
    (arrives : arrived.Perm (item :: ledger.held target)) (balanced : Balanced ledger) :
    Balanced { ledger with
      held := Function.update (Function.update ledger.held source left) target arrived } := by
  obtain ⟨put, afterMove⟩ := move_exclusive ledger.held source target item left arrived
    balanced.exclusive different leaves arrives
  have there : item ∈ ledger.held source := leaves.mem_iff.mpr List.mem_cons_self
  refine { balanced with exclusive := put, live := ?_ }
  intro other
  rw [← balanced.live other]
  constructor
  · rintro ⟨place, here⟩
    rcases (afterMove place other).mp here with ⟨-, stays⟩ | ⟨rfl, -⟩
    · exact ⟨place, stays⟩
    · exact ⟨source, there⟩
  · rintro ⟨place, here⟩
    by_cases same : other = item
    · exact ⟨target, (afterMove target other).mpr (.inr ⟨same, rfl⟩)⟩
    · exact ⟨place, (afterMove place other).mpr (.inl ⟨same, here⟩)⟩

omit [DecidableEq Place] in
/-- An item in a place is a live item of its group, and the group is not
discarded. -/
theorem held_live {ledger : Ledger Place Item Group} (balanced : Balanced ledger) (place : Place)
    (item : Item) (there : item ∈ ledger.held place) :
    item ∈ ledger.liveOf (ledger.group item) ∧ ledger.group item ∈ ledger.groups ∧
      ledger.group item ∉ ledger.discardedGroups := by
  obtain ⟨member, undiscarded⟩ := (balanced.live item).mp ⟨place, there⟩
  have alive : item ∈ ledger.liveOf (ledger.group item) := by
    simp [Ledger.liveOf, member, undiscarded]
  refine ⟨alive, balanced.known item member, fun finished => ?_⟩
  rw [((balanced.finished _).mp finished).2] at alive
  contradiction

omit [DecidableEq Place] in
/-- An item is live in its own group only. -/
theorem not_live_elsewhere {ledger : Ledger Place Item Group} {item : Item} {group : Group}
    (different : group ≠ ledger.group item) : item ∉ ledger.liveOf group := by
  intro live
  simp only [Ledger.liveOf, List.mem_filter, decide_eq_true_eq] at live
  exact different live.2.1.symm

omit [DecidableEq Place] in
/-- The live items of a group lose exactly the discarded one. -/
theorem liveOf_discard {ledger : Ledger Place Item Group} (balanced : Balanced ledger) (item : Item)
    (group : Group) :
    (ledger.dropReference item).liveOf group = (ledger.liveOf group).erase item := by
  have distinct : (ledger.liveOf group).Nodup := balanced.created.filter _
  rw [distinct.erase_eq_filter]
  simp only [Ledger.liveOf, Ledger.dropReference, List.filter_filter, List.mem_cons]
  apply List.filter_congr
  intro other _
  by_cases same : other = item
  · simp [same]
  · simp [same]

omit [DecidableEq Place] in
/-- The counts of the groups after an item is discarded. -/
theorem counted_discard (ledger : Ledger Place Item Group) (balanced : Balanced ledger)
    (place : Place) (item : Item) (there : item ∈ ledger.held place) (group : Group)
    (inside : group ∈ ledger.groups) :
    (ledger.dropReference item).references group =
      ((ledger.dropReference item).liveOf group).length := by
  obtain ⟨alive, known, -⟩ := held_live balanced place item there
  rw [liveOf_discard balanced item group]
  simp only [Ledger.dropReference]
  by_cases same : group = ledger.group item
  · subst same
    rw [Function.update_self, List.length_erase_of_mem alive, balanced.counted _ known]
  · rw [Function.update_of_ne same, List.erase_of_not_mem (not_live_elsewhere same)]
    exact balanced.counted group inside

omit [DecidableEq Place] in
/-- A group is discarded with its last item, so the count reaches zero then. -/
theorem finished_discard (ledger : Ledger Place Item Group) (balanced : Balanced ledger)
    (place : Place) (item : Item) (there : item ∈ ledger.held place) (group : Group) :
    group ∈ (ledger.dropReference item).discardedGroups ↔
      group ∈ ledger.groups ∧ (ledger.dropReference item).liveOf group = [] := by
  obtain ⟨alive, known, unfinished⟩ := held_live balanced place item there
  have count := balanced.counted (ledger.group item) known
  have positive : 0 < (ledger.liveOf (ledger.group item)).length := List.length_pos_of_mem alive
  rw [liveOf_discard balanced item group]
  simp only [Ledger.dropReference]
  by_cases same : group = ledger.group item
  · subst same
    have emptied : (ledger.liveOf (ledger.group item)).erase item = [] ↔
        ledger.references (ledger.group item) ≤ 1 := by
      rw [← List.length_eq_zero_iff, List.length_erase_of_mem alive, count]
      omega
    rw [emptied]
    split
    · rename_i last
      simp [known, last]
    · rename_i more
      simp [unfinished, more]
  · rw [List.erase_of_not_mem (not_live_elsewhere same),
      ← balanced.finished group]
    split
    · simp [same]
    · rfl

/-- Discarding an item keeps the books in order. -/
theorem discard_balanced {ledger : Ledger Place Item Group} {source : Place} {item : Item}
    {left : List Item} (leaves : (ledger.held source).Perm (item :: left))
    (balanced : Balanced ledger) :
    Balanced { ledger.dropReference item with held := Function.update ledger.held source left } := by
  obtain ⟨taken, afterTake⟩ := take_exclusive balanced.exclusive leaves
  have there : item ∈ ledger.held source := leaves.mem_iff.mpr List.mem_cons_self
  obtain ⟨member, undiscarded⟩ := (balanced.live item).mp ⟨source, there⟩
  obtain ⟨-, -, unfinished⟩ := held_live balanced source item there
  constructor
  · exact taken
  · intro other
    simp only [afterTake, Ledger.dropReference, List.mem_cons, not_or, exists_and_left,
      balanced.live other]
    tauto
  · exact balanced.created
  · exact balanced.known
  · exact List.nodup_cons.mpr ⟨undiscarded, balanced.discardedOnce⟩
  · intro other inside
    rcases List.mem_cons.mp inside with rfl | before
    · exact member
    · exact balanced.discardedKnown other before
  · exact counted_discard ledger balanced source item there
  · simp only [Ledger.dropReference]
    split
    · exact List.nodup_cons.mpr ⟨unfinished, balanced.groupsOnce⟩
    · exact balanced.groupsOnce
  · exact finished_discard ledger balanced source item there

omit [DecidableEq Place] in
/-- The live items of a group gain exactly the new one. -/
theorem liveOf_create {ledger next : Ledger Place Item Group} {item : Item}
    (undiscarded : item ∉ ledger.discardedItems) (items : next.items = item :: ledger.items)
    (others : ∀ other ∈ ledger.items, next.group other = ledger.group other)
    (discardedItems : next.discardedItems = ledger.discardedItems) (group : Group) :
    next.liveOf group =
      if group = next.group item then item :: ledger.liveOf group else ledger.liveOf group := by
  have same : ledger.items.filter (fun other => next.group other = group ∧
      other ∉ next.discardedItems) = ledger.liveOf group := by
    apply List.filter_congr
    intro other inside
    rw [others other inside, discardedItems]
  rw [Ledger.liveOf, items, List.filter_cons, same, discardedItems]
  by_cases here : group = next.group item
  · simp [here, undiscarded]
  · simp [here, Ne.symm here]

/-- The books after a new item of a group has been put into a place. -/
theorem create_balanced {ledger next : Ledger Place Item Group} {target : Place} {item : Item}
    {arrived : List Item} (newItem : item ∉ ledger.items)
    (arrives : arrived.Perm (item :: ledger.held target)) (balanced : Balanced ledger)
    (held : next.held = Function.update ledger.held target arrived)
    (items : next.items = item :: ledger.items)
    (others : ∀ other ∈ ledger.items, next.group other = ledger.group other)
    (discardedItems : next.discardedItems = ledger.discardedItems)
    (discardedGroups : next.discardedGroups = ledger.discardedGroups)
    (groups : ∀ group, group ∈ next.groups ↔ group ∈ ledger.groups ∨ group = next.group item)
    (unfinished : next.group item ∉ ledger.discardedGroups)
    (references : ∀ group, next.references group =
      if group = next.group item then (ledger.liveOf group).length + 1
      else ledger.references group) : Balanced next := by
  have nowhere : ∀ place, item ∉ ledger.held place :=
    fun place here => newItem ((balanced.live item).mp ⟨place, here⟩).1
  have undiscarded : item ∉ ledger.discardedItems :=
    fun discarded => newItem (balanced.discardedKnown item discarded)
  obtain ⟨put, afterPut⟩ := put_exclusive balanced.exclusive nowhere arrives
  have liveOf := liveOf_create undiscarded items others discardedItems
  constructor
  · rw [held]
    exact put
  · intro other
    rw [held, items, discardedItems, List.mem_cons]
    constructor
    · rintro ⟨place, here⟩
      rcases (afterPut place other).mp here with before | ⟨rfl, _⟩
      · have alive := (balanced.live other).mp ⟨place, before⟩
        exact ⟨.inr alive.1, alive.2⟩
      · exact ⟨.inl rfl, undiscarded⟩
    · rintro ⟨rfl | before, alive⟩
      · exact ⟨target, (afterPut target other).mpr (.inr ⟨rfl, rfl⟩)⟩
      · obtain ⟨place, here⟩ := (balanced.live other).mpr ⟨before, alive⟩
        exact ⟨place, (afterPut place other).mpr (.inl here)⟩
  · rw [items, List.nodup_cons]
    exact ⟨newItem, balanced.created⟩
  · rw [items]
    intro other inside
    rw [groups]
    rcases List.mem_cons.mp inside with rfl | before
    · exact .inr rfl
    · rw [others other before]
      exact .inl (balanced.known other before)
  · rw [discardedItems]
    exact balanced.discardedOnce
  · rw [discardedItems, items]
    exact fun other inside => List.mem_cons_of_mem item (balanced.discardedKnown other inside)
  · intro group inside
    rw [references, liveOf]
    by_cases here : group = next.group item
    · rw [if_pos here, if_pos here, List.length_cons]
    · rw [if_neg here, if_neg here]
      exact balanced.counted group (((groups group).mp inside).resolve_right here)
  · rw [discardedGroups]
    exact balanced.groupsOnce
  · intro group
    rw [discardedGroups, groups, liveOf]
    by_cases here : group = next.group item
    · rw [if_pos here, here]
      simp [unfinished]
    · rw [if_neg here, balanced.finished group]
      simp [here]

/-- Every change of custody keeps the books in order. -/
theorem step_balanced (ledger next : Ledger Place Item Group) (balanced : Balanced ledger)
    (taken : Step ledger next) : Balanced next := by
  cases taken with
  | move source target item left arrived different leaves arrives =>
    exact move_balanced different leaves arrives balanced
  | discard source item left leaves => exact discard_balanced leaves balanced
  | found target item group arrived newItem newGroup arrives =>
    have untouched : ∀ other ∈ ledger.items, other ≠ item := by
      rintro other inside rfl
      exact newItem inside
    have noLive : ledger.liveOf group = [] := by
      rw [Ledger.liveOf, List.filter_eq_nil_iff]
      intro other inside alive
      rw [decide_eq_true_eq] at alive
      exact newGroup (alive.1 ▸ balanced.known other inside)
    refine create_balanced newItem arrives balanced rfl rfl ?_ rfl rfl
      ?_ ?_ ?_
    · intro other inside
      exact Function.update_of_ne (untouched other inside) group ledger.group
    · intro tested
      simp only [Function.update_self, List.mem_cons]
      tauto
    · simp only [Function.update_self]
      exact fun finished => newGroup ((balanced.finished group).mp finished).1
    · intro tested
      simp only [Function.update_self]
      by_cases here : tested = group
      · subst here
        rw [Function.update_self, if_pos rfl, noLive]
        rfl
      · rw [Function.update_of_ne here, if_neg here]
  | join source target sibling item arrived newItem alive arrives =>
    obtain ⟨-, known, unfinished⟩ := held_live balanced source sibling alive
    refine create_balanced newItem arrives balanced rfl rfl ?_ rfl rfl
      ?_ ?_ ?_
    · rintro other inside
      have different : other ≠ item := by
        rintro rfl
        exact newItem inside
      exact Function.update_of_ne different (ledger.group sibling) ledger.group
    · intro tested
      simp only [Function.update_self]
      exact ⟨.inl, fun either => either.elim id (fun same => same ▸ known)⟩
    · simp only [Function.update_self]
      exact unfinished
    · intro tested
      simp only [Function.update_self]
      by_cases here : tested = ledger.group sibling
      · subst here
        rw [Function.update_self, if_pos rfl, balanced.counted _ known]
      · rw [Function.update_of_ne here, if_neg here]

/-- No change of custody forgets an item. -/
theorem run_items {ledger next : Ledger Place Item Group}
    (run : Relation.ReflTransGen Step ledger next) (item : Item) (created : item ∈ ledger.items) :
    item ∈ next.items := by
  have kept : ∀ before after : Ledger Place Item Group, item ∈ before.items → Step before after →
      item ∈ after.items := by
    intro before after known taken
    cases taken with
    | move => exact known
    | discard => exact known
    | found => exact List.mem_cons_of_mem _ known
    | join => exact List.mem_cons_of_mem _ known
  exact Runs.run_preserves kept run created

/-- No change of custody moves an item to another group. -/
theorem run_group {ledger next : Ledger Place Item Group}
    (run : Relation.ReflTransGen Step ledger next) (item : Item) (created : item ∈ ledger.items) :
    next.group item = ledger.group item := by
  have kept : ∀ before after : Ledger Place Item Group,
      (item ∈ before.items ∧ before.group item = ledger.group item) → Step before after →
        item ∈ after.items ∧ after.group item = ledger.group item := by
    rintro before after ⟨known, same⟩ taken
    cases taken with
    | move => exact ⟨known, same⟩
    | discard => exact ⟨known, same⟩
    | found target new group arrived newItem newGroup arrives =>
      have different : item ≠ new := by
        rintro rfl
        exact newItem known
      exact ⟨List.mem_cons_of_mem _ known, (Function.update_of_ne different _ _).trans same⟩
    | join source target sibling new arrived newItem live arrives =>
      have different : item ≠ new := by
        rintro rfl
        exact newItem known
      exact ⟨List.mem_cons_of_mem _ known, (Function.update_of_ne different _ _).trans same⟩
  exact (Runs.run_preserves kept run ⟨created, rfl⟩).2

omit [DecidableEq Place] in
/-- Two items held together make a count of at least two. -/
theorem shared_group {ledger : Ledger Place Item Group} (balanced : Balanced ledger)
    (place other : Place) (item sibling : Item) (there : item ∈ ledger.held place)
    (beside : sibling ∈ ledger.held other) (different : item ≠ sibling)
    (same : ledger.group sibling = ledger.group item) :
    2 ≤ ledger.references (ledger.group item) := by
  obtain ⟨alive, known, -⟩ := held_live balanced place item there
  obtain ⟨siblingAlive, -, -⟩ := held_live balanced other sibling beside
  rw [same] at siblingAlive
  rw [balanced.counted _ known]
  have left : sibling ∈ (ledger.liveOf (ledger.group item)).erase item :=
    (List.mem_erase_of_ne different.symm).mpr siblingAlive
  have positive := List.length_pos_of_mem left
  rw [List.length_erase_of_mem alive] at positive
  omega

/-- Runs of custody changes keep the books in order. -/
theorem run_balanced {ledger next : Ledger Place Item Group}
    (run : Relation.ReflTransGen Step ledger next) (balanced : Balanced ledger) : Balanced next :=
  Runs.run_preserves step_balanced run balanced

end Asym.Custody
