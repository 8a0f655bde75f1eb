import Mathlib.Data.List.Pairwise
import Mathlib.Tactic.Common

/-!
# Disjoint intervals

Half-open intervals of natural numbers, and lists of them that are pairwise
disjoint. An allocator changes such a list in two ways: it replaces one interval
by disjoint parts of it, and it adds intervals inside a place that no interval
of the list meets. Both keep the list disjoint.
-/

namespace Asym.Intervals

/-- The numbers from a start, as many as the length says. -/
structure Interval where
  start : Nat
  length : Nat
  deriving DecidableEq, Repr

/-- A number lies in an interval. -/
def Interval.Holds (interval : Interval) (place : Nat) : Prop :=
  interval.start ≤ place ∧ place < interval.start + interval.length

/-- One interval ends before the other starts. -/
def Interval.Apart (first second : Interval) : Prop :=
  first.start + first.length ≤ second.start ∨ second.start + second.length ≤ first.start

/-- One interval lies inside another. -/
def Interval.Within (inner outer : Interval) : Prop :=
  outer.start ≤ inner.start ∧ inner.start + inner.length ≤ outer.start + outer.length

/-- Being apart is symmetric. -/
theorem apart_symm {first second : Interval} (apart : first.Apart second) : second.Apart first :=
  Or.symm apart

/-- Parts of intervals that are apart are apart. -/
theorem apart_of_within {first second outerFirst outerSecond : Interval}
    (apart : outerFirst.Apart outerSecond) (insideFirst : first.Within outerFirst)
    (insideSecond : second.Within outerSecond) : first.Apart second := by
  simp only [Interval.Apart, Interval.Within] at *
  omega

/-- An interval lies inside itself. -/
theorem within_refl (interval : Interval) : interval.Within interval :=
  ⟨Nat.le_refl _, Nat.le_refl _⟩

/-- Lying inside is transitive. -/
theorem within_trans {inner middle outer : Interval} (first : inner.Within middle)
    (second : middle.Within outer) : inner.Within outer := by
  simp only [Interval.Within] at *
  omega

/-- No number lies in two intervals that are apart. -/
theorem not_holds_of_apart {first second : Interval} (apart : first.Apart second) (place : Nat)
    (here : first.Holds place) : ¬ second.Holds place := by
  simp only [Interval.Apart, Interval.Holds] at *
  omega

/-- A number of a part is a number of the whole. -/
theorem holds_of_within {inner outer : Interval} (inside : inner.Within outer) (place : Nat)
    (here : inner.Holds place) : outer.Holds place := by
  simp only [Interval.Within, Interval.Holds] at *
  omega

/-- Replacing one interval of a disjoint list by disjoint parts of it. -/
theorem pairwise_replace (front back parts : List Interval) (whole : Interval)
    (disjoint : (front ++ whole :: back).Pairwise Interval.Apart)
    (inside : ∀ part ∈ parts, part.Within whole) (apart : parts.Pairwise Interval.Apart) :
    (front ++ (parts ++ back)).Pairwise Interval.Apart := by
  rw [List.pairwise_append, List.pairwise_cons] at disjoint
  obtain ⟨frontApart, ⟨wholeApart, backApart⟩, across⟩ := disjoint
  rw [List.pairwise_append, List.pairwise_append]
  refine ⟨frontApart, ⟨apart, backApart, ?_⟩, ?_⟩
  · intro part member other later
    exact apart_of_within (wholeApart other later) (inside part member) (within_refl other)
  · intro other earlier part member
    rcases List.mem_append.mp member with new | later
    · exact apart_of_within (across other earlier whole List.mem_cons_self) (within_refl other)
        (inside part new)
    · exact across other earlier part (List.mem_cons_of_mem whole later)

/-- Adding disjoint intervals at the end of a disjoint list, inside a place that
no interval of the list meets. -/
theorem pairwise_extend (present parts : List Interval) (fresh : Interval)
    (disjoint : present.Pairwise Interval.Apart)
    (unmet : ∀ interval ∈ present, interval.Apart fresh)
    (inside : ∀ part ∈ parts, part.Within fresh) (apart : parts.Pairwise Interval.Apart) :
    (present ++ parts).Pairwise Interval.Apart := by
  rw [List.pairwise_append]
  refine ⟨disjoint, apart, fun interval earlier part member => ?_⟩
  exact apart_of_within (unmet interval earlier) (within_refl interval) (inside part member)

/-- Two different elements of a list whose intervals are disjoint have intervals
that are apart. -/
theorem apart_of_mem {Item : Type*} {place : Item → Interval} {items : List Item}
    (disjoint : (items.map place).Pairwise Interval.Apart) (first second : Item)
    (firstMember : first ∈ items) (secondMember : second ∈ items) (different : first ≠ second) :
    (place first).Apart (place second) := by
  rw [List.pairwise_map] at disjoint
  have symmetric : Std.Symm fun first second => (place first).Apart (place second) :=
    ⟨fun _ _ apart => apart_symm apart⟩
  exact disjoint.forall firstMember secondMember different

end Asym.Intervals
