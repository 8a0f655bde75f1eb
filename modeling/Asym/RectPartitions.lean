import Asym.Graphics
import Mathlib.Data.Set.Lattice
import Mathlib.Order.CompletePartialOrder

/-!
# Parts of a rectangle

`RECT_SUBTRACT` cuts what is left of a rectangle without another one into a part above it, one
below it, and one on either side. The parts above and below end at the edges of the rectangle.
Those at the sides go from the top to the bottom of the other rectangle, also where that is
longer than the rectangle itself.

The parts never share a point, and they cover what is left. They are parts of the rectangle if
and only if the rectangles do not overlap, there is nothing left at the sides, or the other
rectangle is not longer.
-/

namespace Asym.RectPartitions

open Graphics

/-- The points of a rectangle. -/
def points (rect : Rect) : Set Point := {point | rect.Contains point}

/-- Some rectangles are a partition of the points of one that are not in another. -/
structure Partitions (rect other : Rect) (parts : List Rect) : Prop where
  few : parts.length ≤ 4
  apart : parts.Pairwise fun first second => Disjoint (points first) (points second)
  inside : ∀ part ∈ parts, points part ⊆ points rect
  whole : ⋃ part ∈ parts, points part = points rect \ points other

variable {rect other part : Rect}

/-- The parts of a rectangle that overlaps another one. -/
theorem mem_subtract_iff (overlaps : rect.Overlaps other) : part ∈ rect.subtract other ↔
    rect.top < other.top ∧ part = ⟨rect.left, rect.top, rect.right, other.top⟩ ∨
    other.bottom < rect.bottom ∧ part = ⟨rect.left, other.bottom, rect.right, rect.bottom⟩ ∨
    rect.left < other.left ∧ part = ⟨rect.left, other.top, other.left, other.bottom⟩ ∨
    other.right < rect.right ∧ part = ⟨other.right, other.top, rect.right, other.bottom⟩ := by
  rw [Rect.subtract, if_pos overlaps]
  simp only [List.mem_append, List.mem_ite_nil_right, List.mem_singleton, or_assoc]

/-- A rectangle that does not overlap another one is the only part. -/
theorem subtract_apart (apart : ¬ rect.Overlaps other) : rect.subtract other = [rect] := if_neg apart

/-- There are at most four parts. -/
theorem subtract_few (rect other : Rect) : (rect.subtract other).length ≤ 4 := by
  have one {condition : Prop} [Decidable condition] {part : Rect} : (if condition then [part] else []).length ≤ 1 := by
    split_ifs
    · exact Nat.le_refl 1
    · exact Nat.zero_le 1
  by_cases overlaps : rect.Overlaps other
  · simp only [Rect.subtract, if_pos overlaps, List.length_append]
    exact Nat.add_le_add (Nat.add_le_add (Nat.add_le_add one one) one) one
  · rw [subtract_apart overlaps]
    exact Nat.le_add_left 1 3

/-- Rectangles that do not overlap share no point. -/
theorem disjoint_points (apart : ¬ rect.Overlaps other) : Disjoint (points rect) (points other) :=
  Set.disjoint_left.mpr fun _ inRect inOther => apart (Rect.overlaps_of_contains inRect inOther)

/-- Parts are apart from the parts behind them. -/
theorem pairwise_part {apart : Rect → Rect → Prop} {condition : Prop} [Decidable condition] {later : List Rect}
    (tail : later.Pairwise apart) (each : condition → ∀ second ∈ later, apart part second) :
    ((if condition then [part] else []) ++ later).Pairwise apart := by
  split_ifs with holds
  · exact List.pairwise_cons.mpr ⟨each holds, tail⟩
  · exact tail

/-- No two parts share a point. -/
theorem subtract_disjoint (ordered : other.Ordered) (rect : Rect) :
    (rect.subtract other).Pairwise fun first second => Disjoint (points first) (points second) := by
  obtain ⟨wide, high⟩ := ordered
  by_cases overlaps : rect.Overlaps other
  · rw [Rect.subtract, if_pos overlaps, ← List.append_nil (if other.right < rect.right then _ else _)]
    simp only [List.append_assoc]
    refine pairwise_part (pairwise_part (pairwise_part (pairwise_part List.Pairwise.nil ?_) ?_) ?_) ?_
    · exact fun _ _ member => absurd member List.not_mem_nil
    all_goals
      intro _ second later
      refine disjoint_points ?_
      simp only [List.mem_append, List.mem_ite_nil_right, List.mem_singleton, List.not_mem_nil, or_false] at later
      simp only [Rect.Overlaps]
    · obtain ⟨_, rfl⟩ := later
      dsimp only
      omega
    · rcases later with ⟨_, rfl⟩ | ⟨_, rfl⟩
      all_goals
        dsimp only
        omega
    · rcases later with ⟨_, rfl⟩ | ⟨_, rfl⟩ | ⟨_, rfl⟩
      all_goals
        dsimp only
        omega
  · rw [subtract_apart overlaps]
    exact List.pairwise_singleton _ _

/-- The parts cover what is left. -/
theorem exists_part {point : Point} (inside : rect.Contains point) (left : ¬ other.Contains point) :
    ∃ part ∈ rect.subtract other, part.Contains point := by
  by_cases overlaps : rect.Overlaps other
  · simp only [mem_subtract_iff overlaps]
    simp only [Rect.Contains] at inside left
    by_cases above : point.y < other.top
    · exact ⟨_, .inl ⟨by omega, rfl⟩, by simp only [Rect.Contains]; omega⟩
    by_cases below : other.bottom ≤ point.y
    · exact ⟨_, .inr (.inl ⟨by omega, rfl⟩), by simp only [Rect.Contains]; omega⟩
    by_cases before : point.x < other.left
    · exact ⟨_, .inr (.inr (.inl ⟨by omega, rfl⟩)), by simp only [Rect.Contains]; omega⟩
    · exact ⟨_, .inr (.inr (.inr ⟨by omega, rfl⟩)), by simp only [Rect.Contains]; omega⟩
  · exact ⟨rect, by rw [subtract_apart overlaps]; exact List.mem_cons_self, inside⟩

/-- No part has a point of the other rectangle. -/
theorem part_left (member : part ∈ rect.subtract other) : Disjoint (points part) (points other) := by
  by_cases overlaps : rect.Overlaps other
  · refine disjoint_points ?_
    rcases (mem_subtract_iff overlaps).mp member with ⟨_, rfl⟩ | ⟨_, rfl⟩ | ⟨_, rfl⟩ | ⟨_, rfl⟩
    all_goals
      simp only [Rect.Overlaps]
      omega
  · rw [subtract_apart overlaps, List.mem_singleton] at member
    exact member ▸ disjoint_points overlaps

/-- There is nothing left at the sides, or the other rectangle is not longer. -/
def SidesFit (rect other : Rect) : Prop :=
  other.left ≤ rect.left ∧ rect.right ≤ other.right ∨ rect.top ≤ other.top ∧ other.bottom ≤ rect.bottom

instance (rect other : Rect) : Decidable (SidesFit rect other) := inferInstanceAs (Decidable (_ ∨ _))

/-- If the sides fit, all parts are in the rectangle. -/
theorem part_inside (fit : rect.Overlaps other → SidesFit rect other) (member : part ∈ rect.subtract other) :
    points part ⊆ points rect := by
  by_cases overlaps : rect.Overlaps other
  · have fits := fit overlaps
    intro point inPart
    simp only [points, Set.mem_ofPred_eq, Rect.Contains, Rect.Overlaps, SidesFit] at *
    rcases (mem_subtract_iff overlaps).mp member with ⟨_, rfl⟩ | ⟨_, rfl⟩ | ⟨_, rfl⟩ | ⟨_, rfl⟩
    all_goals
      dsimp only at inPart
      omega
  · rw [subtract_apart overlaps, List.mem_singleton] at member
    exact member ▸ Set.Subset.refl _

/-- If the sides do not fit, a part at a side has a point outside of the rectangle: above or below
it, where the other rectangle is longer. -/
theorem part_outside (overlaps : rect.Overlaps other) (longer : ¬ SidesFit rect other) :
    ∃ part ∈ rect.subtract other, ¬ points part ⊆ points rect := by
  have row : ∃ y, other.top ≤ y ∧ y < other.bottom ∧ (y < rect.top ∨ rect.bottom ≤ y) := by
    simp only [SidesFit, Rect.Overlaps] at longer overlaps
    by_cases above : other.top < rect.top
    · exact ⟨other.top, by omega⟩
    · exact ⟨other.bottom - 1, by omega⟩
  obtain ⟨y, top, bottom, outside⟩ := row
  simp only [mem_subtract_iff overlaps]
  simp only [SidesFit, Rect.Overlaps] at longer overlaps
  by_cases before : rect.left < other.left
  · refine ⟨_, .inr (.inr (.inl ⟨before, rfl⟩)), fun inside => ?_⟩
    have inPart : (⟨rect.left, other.top, other.left, other.bottom⟩ : Rect).Contains ⟨rect.left, y⟩ :=
      ⟨Int.le_refl _, before, top, bottom⟩
    have inRect : rect.Contains ⟨rect.left, y⟩ := inside inPart
    simp only [Rect.Contains] at inRect
    omega
  · have behind : other.right < rect.right := by omega
    refine ⟨_, .inr (.inr (.inr ⟨behind, rfl⟩)), fun inside => ?_⟩
    have inPart : (⟨other.right, other.top, rect.right, other.bottom⟩ : Rect).Contains ⟨other.right, y⟩ :=
      ⟨Int.le_refl _, behind, top, bottom⟩
    have inRect : rect.Contains ⟨other.right, y⟩ := inside inPart
    simp only [Rect.Contains] at inRect
    omega

/-- What `RECT_SUBTRACT` yields is a partition of what is left of the rectangle, if and only if the
rectangles do not overlap or the sides fit. -/
theorem rect_subtract_iff (rect : Rect) {other : Rect} (ordered : other.Ordered) :
    Partitions rect other (rect.subtract other) ↔ ¬ rect.Overlaps other ∨ SidesFit rect other := by
  constructor
  · intro partitions
    by_contra fails
    rw [not_or, not_not] at fails
    obtain ⟨part, member, outside⟩ := part_outside fails.1 fails.2
    exact outside (partitions.inside part member)
  · intro fit
    have inside := fun part (member : part ∈ rect.subtract other) =>
      part_inside (fun overlaps => fit.resolve_left (not_not_intro overlaps)) member
    refine ⟨subtract_few rect other, subtract_disjoint ordered rect, inside, ?_⟩
    ext point
    rw [Set.mem_iUnion₂]
    constructor
    · rintro ⟨part, member, inPart⟩
      exact ⟨inside part member inPart, Set.disjoint_left.mp (part_left member) inPart⟩
    · rintro ⟨inRect, left⟩
      obtain ⟨part, member, inPart⟩ := exists_part inRect left
      exact ⟨part, member, inPart⟩

/-- A rectangle with a hole. -/
theorem hole_partitioned :
    Partitions ⟨0, 0, 6, 6⟩ ⟨2, 2, 4, 4⟩ ((⟨0, 0, 6, 6⟩ : Rect).subtract ⟨2, 2, 4, 4⟩) :=
  (rect_subtract_iff ⟨0, 0, 6, 6⟩ ⟨by decide, by decide⟩).mpr (by decide)

/-- A rectangle of one row. -/
def row : Rect := ⟨0, 1, 2, 2⟩

/-- A rectangle that covers the right half of the row, and is longer. -/
def longer : Rect := ⟨1, 0, 3, 3⟩

/-- What is left of the row sticks out of it. -/
theorem row_sticks_out : row.Ordered ∧ longer.Ordered ∧ row.subtract longer = [⟨0, 0, 1, 3⟩] ∧
    ¬ Partitions row longer (row.subtract longer) := by
  have parts : row.subtract longer = [⟨0, 0, 1, 3⟩] := by decide
  refine ⟨⟨by decide, by decide⟩, ⟨by decide, by decide⟩, parts, fun partitions => ?_⟩
  have corner : (⟨0, 0, 1, 3⟩ : Rect).Contains ⟨0, 0⟩ := by decide
  have inRow : row.Contains ⟨0, 0⟩ := partitions.inside _ (parts ▸ List.mem_cons_self) corner
  exact absurd inRow (by decide)

end Asym.RectPartitions
