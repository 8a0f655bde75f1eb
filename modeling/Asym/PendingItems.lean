import Mathlib.Tactic.Common

/-!
# Pending items of a history

Items of a history ask for something, and later ones answer. A history has something
pending if one of its items asks and none of the later ones answers.
-/

namespace Asym.PendingItems

universe u
variable {Item : Type u} {asks answers : Item → Prop}

/-- An item asks, and no later one answers. -/
def Pending (asks answers : Item → Prop) (history : List Item) : Prop :=
  ∃ earlier item later, history = earlier ++ item :: later ∧ asks item ∧ ∀ next ∈ later, ¬ answers next

/-- Nothing is pending at first. -/
theorem not_pending_nil : ¬ Pending asks answers [] := by
  rintro ⟨earlier, item, later, empty, _⟩
  exact absurd empty.symm (List.append_ne_nil_of_right_ne_nil _ (List.cons_ne_nil _ _))

/-- The last item asks, or something was pending before and the last item does not answer. -/
theorem pending_snoc (history : List Item) (item : Item) :
    Pending asks answers (history ++ [item]) ↔ asks item ∨ Pending asks answers history ∧ ¬ answers item := by
  constructor
  · rintro ⟨earlier, first, later, split, asked, kept⟩
    rcases List.eq_nil_or_concat later with rfl | ⟨before, last, rfl⟩
    · obtain ⟨_, same⟩ := List.append_inj' split rfl
      rw [(List.cons.inj same).1]
      exact .inl asked
    · rw [List.concat_eq_append, ← List.cons_append, ← List.append_assoc] at split
      obtain ⟨same, sameLast⟩ := List.append_inj' split rfl
      rw [(List.cons.inj sameLast).1]
      exact .inr ⟨⟨earlier, first, before, same, asked, fun next inside => kept next (by simp [inside])⟩,
        kept last (by simp)⟩
  · rintro (asked | ⟨⟨earlier, first, later, rfl, asked, kept⟩, unanswered⟩)
    · exact ⟨history, item, [], rfl, asked, fun _ inside => absurd inside List.not_mem_nil⟩
    · refine ⟨earlier, first, later ++ [item], by simp, asked, ?_⟩
      intro next inside
      rcases List.mem_append.mp inside with before | last
      · exact kept next before
      · rw [List.mem_singleton.mp last]
        exact unanswered

/-- An item that neither asks nor answers changes nothing. -/
theorem pending_snoc_of_neither (history : List Item) {item : Item} (notAsks : ¬ asks item)
    (notAnswers : ¬ answers item) : Pending asks answers (history ++ [item]) ↔ Pending asks answers history := by
  rw [pending_snoc, or_iff_right notAsks, and_iff_left notAnswers]

end Asym.PendingItems
