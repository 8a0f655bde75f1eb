import Mathlib.Data.Set.Insert
import Mathlib.Logic.Function.Basic
import Mathlib.Tactic.Common

/-!
# Ownership

Owners hold titles to items, at most one each. Titles are sound if they are to items that
exist and no two owners hold titles to one item. Items are owned if each of them has
exactly one owner.

A new item whose title is granted keeps titles sound in any case. It keeps the items owned
if and only if the owner had no title before: otherwise the item that the owner had a title
to is left without one.
-/

namespace Asym.Ownership

universe u v
variable {Owner : Type u} {Item : Type v}

/-- Titles are to existing items, and to each item there is at most one. -/
structure Titles (title : Owner → Option Item) (items : Set Item) : Prop where
  backed : ∀ owner item, title owner = some item → item ∈ items
  single : ∀ first second item, title first = some item → title second = some item → first = second

/-- Each item has exactly one owner. -/
def Owned (title : Owner → Option Item) (items : Set Item) : Prop :=
  ∀ item ∈ items, ∃! owner, title owner = some item

variable {title : Owner → Option Item} {items : Set Item}

/-- Sound titles own the items if each item has an owner. -/
theorem Titles.owned_iff (titles : Titles title items) :
    Owned title items ↔ ∀ item ∈ items, ∃ owner, title owner = some item := by
  constructor
  · intro owned item exists_
    exact (owned item exists_).exists
  · intro owned item exists_
    obtain ⟨owner, holds⟩ := owned item exists_
    exact ⟨owner, holds, fun other otherHolds => titles.single other owner item otherHolds holds⟩

/-- Without titles there are no items that are owned. -/
theorem Owned.empty (owned : Owned title items) (nobody : ∀ owner, title owner = none) (item : Item) :
    item ∉ items := by
  intro exists_
  obtain ⟨owner, holds⟩ := (owned item exists_).exists
  rw [nobody owner] at holds
  cases holds

variable [DecidableEq Owner] {owner : Owner} {item : Item}

/-- Titles after one of them is changed. -/
theorem update_title_iff {value : Option Item} {other : Owner} {tested : Item} :
    Function.update title owner value other = some tested ↔
      other = owner ∧ value = some tested ∨ other ≠ owner ∧ title other = some tested := by
  by_cases same : other = owner
  · rw [same, Function.update_self]
    simp
  · rw [Function.update_of_ne same]
    simp [same]

/-- The title to a new item is granted. -/
theorem Titles.grant (titles : Titles title items) (new : item ∉ items) :
    Titles (Function.update title owner (some item)) (insert item items) := by
  constructor
  · intro other tested holds
    rcases update_title_iff.mp holds with ⟨-, same⟩ | ⟨-, before⟩
    · exact .inl (Option.some.inj same).symm
    · exact .inr (titles.backed other tested before)
  · intro first second tested holdsFirst holdsSecond
    rcases update_title_iff.mp holdsFirst with ⟨isFirst, same⟩ | ⟨-, beforeFirst⟩
    · rcases update_title_iff.mp holdsSecond with ⟨isSecond, -⟩ | ⟨-, beforeSecond⟩
      · rw [isFirst, isSecond]
      · rw [← Option.some.inj same] at beforeSecond
        exact absurd (titles.backed second item beforeSecond) new
    · rcases update_title_iff.mp holdsSecond with ⟨-, same⟩ | ⟨-, beforeSecond⟩
      · rw [← Option.some.inj same] at beforeFirst
        exact absurd (titles.backed first item beforeFirst) new
      · exact titles.single first second tested beforeFirst beforeSecond

/-- The title to a new item leaves the items owned exactly if it takes the place of no
other title. -/
theorem Titles.owned_grant_iff (titles : Titles title items) (owned : Owned title items) (new : item ∉ items) :
    Owned (Function.update title owner (some item)) (insert item items) ↔ title owner = none := by
  rw [(titles.grant new).owned_iff]
  constructor
  · intro each
    by_contra titled
    obtain ⟨lost, held⟩ := Option.ne_none_iff_exists'.mp titled
    have exists_ := titles.backed owner lost held
    obtain ⟨other, holds⟩ := each lost (.inr exists_)
    rcases update_title_iff.mp holds with ⟨-, same⟩ | ⟨different, before⟩
    · rw [Option.some.inj same] at new
      exact new exists_
    · exact different (titles.single other owner lost before held)
  · rintro untitled tested (rfl | before)
    · exact ⟨owner, Function.update_self ..⟩
    · obtain ⟨other, holds⟩ := (owned tested before).exists
      refine ⟨other, update_title_iff.mpr (.inr ⟨?_, holds⟩)⟩
      rintro rfl
      rw [untitled] at holds
      cases holds

/-- An item goes with its title. -/
theorem Titles.retire (titles : Titles title items) (held : title owner = some item) :
    Titles (Function.update title owner none) (items \ {item}) := by
  constructor
  · intro other tested holds
    rcases update_title_iff.mp holds with ⟨-, absent⟩ | ⟨different, before⟩
    · cases absent
    · refine ⟨titles.backed other tested before, ?_⟩
      rintro rfl
      exact different (titles.single other owner tested before held)
  · intro first second tested holdsFirst holdsSecond
    rcases update_title_iff.mp holdsFirst with ⟨-, absent⟩ | ⟨-, beforeFirst⟩
    · cases absent
    · rcases update_title_iff.mp holdsSecond with ⟨-, absent⟩ | ⟨-, beforeSecond⟩
      · cases absent
      · exact titles.single first second tested beforeFirst beforeSecond

/-- The other items stay owned when an item goes with its title. -/
theorem Titles.owned_retire (titles : Titles title items) (owned : Owned title items)
    (held : title owner = some item) : Owned (Function.update title owner none) (items \ {item}) := by
  rw [(titles.retire held).owned_iff]
  rintro tested ⟨exists_, different⟩
  obtain ⟨other, holds⟩ := (owned tested exists_).exists
  refine ⟨other, update_title_iff.mpr (.inr ⟨?_, holds⟩)⟩
  rintro rfl
  rw [held] at holds
  exact different (Option.some.inj holds).symm

end Asym.Ownership
