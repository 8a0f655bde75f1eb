import Mathlib.Data.List.Basic
import Mathlib.Tactic.Common

/-!
# Words in terminated lists

A list is read item by item, and past its end it reads as an item that stops. A word
is what stands before the first item that ends words. Two words are compared item by
item, for a limited number of turns.
-/

namespace Asym.Words

universe u
variable {Item : Type u} {ends : Item → Bool}

/-- What stands before the first item that ends words. -/
def word (ends : Item → Bool) (items : List Item) : List Item :=
  items.takeWhile fun item => !ends item

/-- The comparison of two words for a number of turns. -/
def compareUpTo [DecidableEq Item] (ends : Item → Bool) (stop : Item) : Nat → List Item → List Item → Bool
  | 0, _, _ => false
  | turns + 1, first, second =>
      if ends (first.headD stop) then ends (second.headD stop)
      else if first.headD stop ≠ second.headD stop then false
      else compareUpTo ends stop turns first.tail second.tail

/-- A list without items that end words is a word. -/
theorem word_self {items : List Item} (inside : ∀ item ∈ items, ends item = false) :
    word ends items = items := by
  have whole := @List.takeWhile_append_of_pos Item (fun item => !ends item) items [] (by
    intro item member
    rw [inside item member]
    rfl)
  rwa [List.append_nil, List.takeWhile_nil, List.append_nil] at whole

/-- A word in front of an item that ends it. -/
theorem word_before {items : List Item} (inside : ∀ item ∈ items, ends item = false) {item : Item}
    (closing : ends item = true) (rest : List Item) : word ends (items ++ item :: rest) = items := by
  rw [word, List.takeWhile_append_of_pos]
  · simp [closing]
  · intro other member
    rw [inside other member]
    rfl

/-- An empty word is an item that ends words, or the end of the list. -/
theorem word_eq_nil_iff {stop : Item} (stops : ends stop = true) (items : List Item) :
    word ends items = [] ↔ ends (items.headD stop) = true := by
  cases items with
  | nil => simp [word, stops]
  | cons item rest =>
    rw [word, List.takeWhile_cons, List.headD_cons]
    cases ends item with
    | false => simp
    | true => simp

/-- A word that is not empty begins with the item that is read. -/
theorem word_eq_cons {stop : Item} (stops : ends stop = true) {items : List Item}
    (inside : ends (items.headD stop) = false) :
    word ends items = items.headD stop :: word ends items.tail := by
  cases items with
  | nil =>
    rw [List.headD_nil, stops] at inside
    cases inside
  | cons item rest =>
    rw [List.headD_cons] at inside
    simp [word, inside]

/-- Words are compared as a whole if they are short enough. -/
theorem compareUpTo_iff [DecidableEq Item] {stop : Item} (stops : ends stop = true) (turns : Nat)
    (first second : List Item) : compareUpTo ends stop turns first second = true ↔
      (word ends first).length < turns ∧ word ends first = word ends second := by
  induction turns generalizing first second with
  | zero => simp [compareUpTo]
  | succ turns ih =>
    rw [compareUpTo]
    split_ifs with closing different
    · have empty := (word_eq_nil_iff stops first).mpr closing
      rw [empty, ← word_eq_nil_iff stops second, List.length_nil, eq_comm]
      simp
    · have open_ : ends (first.headD stop) = false := by simpa using closing
      refine iff_of_false not_false ?_
      rintro ⟨_, same⟩
      rw [word_eq_cons stops open_] at same
      have openSecond : ends (second.headD stop) = false := by
        by_contra ending
        rw [(word_eq_nil_iff stops second).mpr (by simpa using ending)] at same
        cases same
      rw [word_eq_cons stops openSecond] at same
      exact different (List.cons.inj same).1
    · have open_ : ends (first.headD stop) = false := by simpa using closing
      have same : first.headD stop = second.headD stop := by simpa using different
      have openSecond : ends (second.headD stop) = false := same ▸ open_
      have firstWord := word_eq_cons stops open_
      have secondWord := word_eq_cons stops openSecond
      rw [ih, firstWord, secondWord, same, List.length_cons, Nat.add_lt_add_iff_right,
        List.cons_inj_right]

/-- The comparison reads nothing behind the words. -/
theorem compareUpTo_congr [DecidableEq Item] {stop : Item} (stops : ends stop = true) (turns : Nat)
    {first other second another : List Item} (sameFirst : word ends first = word ends other)
    (sameSecond : word ends second = word ends another) :
    compareUpTo ends stop turns first second = compareUpTo ends stop turns other another := by
  rw [Bool.eq_iff_iff, compareUpTo_iff stops, compareUpTo_iff stops, sameFirst, sameSecond]

end Asym.Words
