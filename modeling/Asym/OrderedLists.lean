import Mathlib.Data.List.Sort

/-!
# Lists in the order of their keys

Items have keys in a linear order, and a new item is placed before the first one with a larger key.
While the keys increase strictly, the search for a key can stop at the first larger one, and they
go on to increase strictly when the key of the placed item is new.
-/

namespace Asym.OrderedLists

universe u v
variable {Item : Type u} {Key : Type v} [LinearOrder Key]

/-- What the search for a key does at an item: it ends with it or without any, or it goes on. -/
def probe (key : Item → Key) (wanted : Key) (item : Item) : Option (Option Item) :=
  if key item = wanted then some (some item)
  else if wanted < key item then some none
  else none

/-- The search for a key. It stops at the first larger one. -/
def search (key : Item → Key) (wanted : Key) (items : List Item) : Option Item :=
  (items.findSome? (probe key wanted)).join

/-- An item placed before the first one with a larger key. -/
def place (key : Item → Key) (item : Item) (items : List Item) : List Item :=
  items.orderedInsert (fun first second => key first < key second) item

/-- The keys increase strictly. -/
def Increasing (key : Item → Key) (items : List Item) : Prop :=
  items.Pairwise fun first second => key first < key second

variable {key : Item → Key} {wanted : Key} {item other : Item} {items : List Item}

section Search

/-- One turn of the search. -/
theorem search_cons (first : Item) (rest : List Item) : search key wanted (first :: rest) =
    if key first = wanted then some first else if wanted < key first then none else search key wanted rest := by
  rw [search, List.findSome?_cons, probe]
  split_ifs <;> rfl

/-- While the keys increase strictly, the search finds the item with the key. -/
theorem search_eq_some (increasing : Increasing key items) :
    search key wanted items = some item ↔ item ∈ items ∧ key item = wanted := by
  induction items with
  | nil => simp [search]
  | cons first rest ih =>
    obtain ⟨smaller, later⟩ := List.pairwise_cons.mp increasing
    rw [search_cons, List.mem_cons]
    split_ifs with here stops
    · rw [Option.some.injEq]
      refine ⟨fun same => same ▸ ⟨.inl rfl, here⟩, fun ⟨there, same⟩ => ?_⟩
      refine there.elim Eq.symm fun inRest => absurd (smaller item inRest) ?_
      rw [here, same]
      exact lt_irrefl _
    · -- What is behind an item with a larger key has larger keys too.
      refine iff_of_false (by simp) fun ⟨there, same⟩ => ?_
      rcases there with rfl | inRest
      · exact here same
      · exact lt_asymm stops (same ▸ smaller item inRest)
    · rw [ih later]
      refine and_congr_left fun same => ⟨.inr, fun there => there.resolve_left ?_⟩
      rintro rfl
      exact here same

end Search

section Places

/-- One turn of the placing. -/
theorem place_cons (first : Item) (rest : List Item) : place key item (first :: rest) =
    if key item < key first then item :: first :: rest else first :: place key item rest :=
  List.orderedInsert_cons _ _ _ _

/-- Items whose keys are not larger stay in front of the placed one. -/
theorem place_append {front back : List Item} (notLarger : ∀ other ∈ front, ¬ key item < key other) :
    place key item (front ++ back) = front ++ place key item back := by
  induction front with
  | nil => rfl
  | cons first rest ih =>
    obtain ⟨here, later⟩ := List.forall_mem_cons.mp notLarger
    rw [List.cons_append, place_cons, if_neg here, ih later, List.cons_append]

/-- The placed item is before the first one with a larger key. -/
theorem place_before (found : items.find? (fun other => key item < key other) = some other) :
    ∃ front back, items = front ++ other :: back ∧ other ∉ front ∧
      place key item items = front ++ item :: other :: back := by
  obtain ⟨larger, front, back, rfl, skipped⟩ := List.find?_eq_some_iff_append.mp found
  have notLarger : ∀ tested ∈ front, ¬ key item < key tested := by simpa using skipped
  refine ⟨front, back, rfl, fun member => notLarger other member (of_decide_eq_true larger), ?_⟩
  rw [place_append notLarger, place_cons, if_pos (of_decide_eq_true larger)]

/-- Without a larger key the placed item is the last one. -/
theorem place_last (missed : items.find? (fun other => key item < key other) = none) :
    place key item items = items ++ [item] := by
  have notLarger : ∀ tested ∈ items, ¬ key item < key tested := by simpa using missed
  rw [← List.append_nil items, place_append notLarger, List.append_nil]
  rfl

/-- The placed item is somewhere in the list, and the others are as before. -/
theorem place_split (key : Item → Key) (item : Item) (items : List Item) :
    ∃ front back, items = front ++ back ∧ place key item items = front ++ item :: back :=
  ⟨_, _, List.takeWhile_append_dropWhile.symm, List.orderedInsert_eq_take_drop _ _ _⟩

/-- The items after one is placed. -/
theorem place_perm (key : Item → Key) (item : Item) (items : List Item) :
    (place key item items).Perm (item :: items) :=
  List.perm_orderedInsert _ _ _

/-- A relation along which the keys do not decrease is kept, if it holds between the placed item
and those with larger keys, and between those without and the placed item. -/
theorem place_pairwise {related : Item → Item → Prop} (sorted : items.Pairwise related)
    (grows : ∀ first second, related first second → key first ≤ key second)
    (ahead : ∀ other, key item < key other → related item other)
    (behind : ∀ other ∈ items, key other ≤ key item → related other item) :
    (place key item items).Pairwise related := by
  induction items with
  | nil => exact List.pairwise_singleton _ _
  | cons first rest ih =>
    obtain ⟨before, later⟩ := List.pairwise_cons.mp sorted
    rw [place_cons]
    split_ifs with larger
    · refine List.pairwise_cons.mpr ⟨fun tested member => ahead tested ?_, sorted⟩
      rcases List.mem_cons.mp member with rfl | inRest
      · exact larger
      · exact lt_of_lt_of_le larger (grows first tested (before tested inRest))
    · have placed := ih later fun tested member => behind tested (List.mem_cons_of_mem _ member)
      refine List.pairwise_cons.mpr ⟨fun tested member => ?_, placed⟩
      rcases List.mem_cons.mp ((place_perm key item rest).mem_iff.mp member) with rfl | inRest
      · exact behind first List.mem_cons_self (not_lt.mp larger)
      · exact before tested inRest

/-- An item with a new key is placed, and the keys go on to increase strictly. -/
theorem Increasing.place (increasing : Increasing key items) (new : ∀ other ∈ items, key other ≠ key item) :
    Increasing key (place key item items) :=
  place_pairwise increasing (fun _ _ smaller => smaller.le) (fun _ larger => larger)
    fun other member notLarger => lt_of_le_of_ne notLarger (new other member)

/-- The keys of some of the items increase strictly too. -/
theorem Increasing.sublist {some_ : List Item} (increasing : Increasing key items) (part : some_.Sublist items) :
    Increasing key some_ :=
  List.Pairwise.sublist part increasing

/-- Only the keys of the items matter. -/
theorem Increasing.congr {others : Item → Key} (increasing : Increasing key items)
    (same : ∀ item ∈ items, others item = key item) : Increasing others items := by
  refine List.Pairwise.imp_of_mem (fun {first second} inFirst inSecond smaller => ?_) increasing
  rwa [same first inFirst, same second inSecond]

end Places

end Asym.OrderedLists
