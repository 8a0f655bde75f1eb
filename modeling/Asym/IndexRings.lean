import Asym.CyclicWindows
import Mathlib.Logic.Function.Basic

/-!
# Rings with two indices

A ring of slots with an index to read from and an index to write to. Equal
indices mean that the ring is empty; there is no length, so a ring never holds as
many items as it has slots. A push does not look at the read index. With a free
slot besides the one it writes, it appends an item. Without one it brings the
indices together, and everything in the ring is gone.
-/

namespace Asym.IndexRings

open CyclicWindows

universe u
variable {Item : Type u}

/-- Slots and the two indices. -/
structure IndexRing (Item : Type u) where
  slots : Nat → Item
  readIndex : Nat
  writeIndex : Nat

/-- Write an item and move the write index. -/
def IndexRing.push (bound : Nat) (ring : IndexRing Item) (item : Item) : IndexRing Item where
  slots := Function.update ring.slots ring.writeIndex item
  readIndex := ring.readIndex
  writeIndex := (ring.writeIndex + 1) % bound

/-- Read an item and move the read index, if the indices differ. -/
def IndexRing.pop (bound : Nat) (ring : IndexRing Item) : Option (Item × IndexRing Item) :=
  if ring.writeIndex = ring.readIndex then none
  else some (ring.slots ring.readIndex, { ring with readIndex := (ring.readIndex + 1) % bound })

/-- Both indices are below the bound. -/
def IndexRing.Inside (bound : Nat) (ring : IndexRing Item) : Prop :=
  ring.readIndex < bound ∧ ring.writeIndex < bound

/-- The number of items between the indices. -/
def IndexRing.length (bound : Nat) (ring : IndexRing Item) : Nat :=
  (bound - ring.readIndex + ring.writeIndex) % bound

/-- The items between the indices, oldest first. -/
def IndexRing.contents (bound : Nat) (ring : IndexRing Item) : List Item :=
  window bound ring.slots ring.readIndex (ring.length bound)

@[simp] theorem IndexRing.contents_length (bound : Nat) (ring : IndexRing Item) :
    (ring.contents bound).length = ring.length bound :=
  window_length _ _ _ _

variable {bound : Nat} {ring : IndexRing Item}

/-- The length as a distance that wraps at most once. -/
theorem IndexRing.Inside.length_eq (inside : ring.Inside bound) : ring.length bound =
    if ring.readIndex ≤ ring.writeIndex then ring.writeIndex - ring.readIndex
    else bound - ring.readIndex + ring.writeIndex := by
  obtain ⟨readInside, writeInside⟩ := inside
  rw [IndexRing.length, wrap_eq bound _ (by omega)]
  split_ifs <;> omega

/-- A push keeps the indices below the bound. -/
theorem IndexRing.Inside.push (inside : ring.Inside bound) (item : Item) : (ring.push bound item).Inside bound :=
  ⟨inside.1, Nat.mod_lt _ (by have := inside.1; omega)⟩

/-- The write index is as far from the read index as the ring is long. -/
theorem IndexRing.Inside.write_eq (inside : ring.Inside bound) :
    ring.writeIndex = (ring.readIndex + ring.length bound) % bound := by
  have distance := inside.length_eq
  obtain ⟨readInside, writeInside⟩ := inside
  split_ifs at distance
  · rw [Nat.mod_eq_of_lt (by omega)]
    omega
  · rw [Nat.mod_eq_sub_mod (by omega), Nat.mod_eq_of_lt (by omega)]
    omega

/-- A push makes the ring longer by one, around the bound. -/
theorem IndexRing.push_length (ring : IndexRing Item) (item : Item) :
    (ring.push bound item).length bound = (ring.length bound + 1) % bound := by
  simp only [IndexRing.length, IndexRing.push, Nat.add_mod_mod, Nat.mod_add_mod, Nat.add_assoc]

/-- With a second free slot, a push appends. -/
theorem IndexRing.Inside.push_contents (inside : ring.Inside bound) (item : Item)
    (room : ring.length bound + 1 < bound) :
    (ring.push bound item).contents bound = ring.contents bound ++ [item] := by
  rw [IndexRing.contents, IndexRing.push_length, Nat.mod_eq_of_lt room, window_add]
  have place := inside.write_eq
  have readInside := inside.1
  congr 1
  · apply List.map_congr_left
    intro position member
    have short := List.mem_range.mp member
    have other : (ring.readIndex + position) % bound ≠ ring.writeIndex := by
      rw [place, wrap_eq bound (ring.readIndex + position) (by omega),
        wrap_eq bound (ring.readIndex + ring.length bound) (by omega)]
      split_ifs <;> omega
    exact Function.update_of_ne other item ring.slots
  · have slot : ((ring.readIndex + ring.length bound) % bound + 0) % bound = ring.writeIndex := by
      rw [Nat.add_zero, Nat.mod_mod, ← place]
    simp only [window, List.range_one, List.map_cons, List.map_nil, IndexRing.push, slot,
      Function.update_self]

/-- Without a second free slot, a push empties the ring. -/
theorem IndexRing.push_full (item : Item) (full : ring.length bound + 1 = bound) :
    (ring.push bound item).contents bound = [] := by
  apply List.eq_nil_of_length_eq_zero
  rw [IndexRing.contents_length, IndexRing.push_length, full, Nat.mod_self]

/-- A ring is shorter than it has slots. -/
theorem IndexRing.Inside.length_lt (inside : ring.Inside bound) : ring.length bound < bound :=
  Nat.mod_lt _ (by have := inside.1; omega)

/-- A pop finds nothing exactly in an empty ring. -/
theorem IndexRing.Inside.pop_none (inside : ring.Inside bound) :
    ring.pop bound = none ↔ ring.contents bound = [] := by
  have distance := inside.length_eq
  obtain ⟨readInside, writeInside⟩ := inside
  have empty : ring.writeIndex = ring.readIndex ↔ ring.length bound = 0 := by
    split_ifs at distance <;> omega
  rw [← List.length_eq_zero_iff, IndexRing.contents_length, ← empty, IndexRing.pop]
  simp

/-- A pop takes the oldest item and keeps the indices below the bound. -/
theorem IndexRing.Inside.pop_some (inside : ring.Inside bound) {item : Item} {next : IndexRing Item}
    (popped : ring.pop bound = some (item, next)) :
    next.Inside bound ∧ ring.contents bound = item :: next.contents bound := by
  rw [IndexRing.pop] at popped
  split at popped
  · cases popped
  · rename_i differ
    simp only [Option.some.injEq, Prod.mk.injEq] at popped
    obtain ⟨rfl, rfl⟩ := popped
    have kept : IndexRing.Inside bound { ring with readIndex := (ring.readIndex + 1) % bound } :=
      ⟨Nat.mod_lt _ (by have := inside.1; omega), inside.2⟩
    apply And.intro kept
    have before := inside.length_eq
    have after := kept.length_eq
    have following := wrap_eq bound (ring.readIndex + 1) (by have := inside.1; omega)
    have longer : ring.length bound =
        1 + IndexRing.length bound { ring with readIndex := (ring.readIndex + 1) % bound } := by
      obtain ⟨readInside, writeInside⟩ := inside
      simp only at after
      rw [following] at after
      rw [following]
      split_ifs at before after ⊢ <;> omega
    rw [IndexRing.contents, longer, window_add]
    simp only [window, List.range_one, List.map_cons, List.map_nil, Nat.add_zero,
      Nat.mod_eq_of_lt inside.1, List.singleton_append, IndexRing.contents]

/-- A pop from a ring with items. -/
theorem IndexRing.Inside.pop_cons (inside : ring.Inside bound) {item : Item} {rest : List Item}
    (held : ring.contents bound = item :: rest) :
    ∃ next : IndexRing Item, ring.pop bound = some (item, next) ∧ next.Inside bound ∧
      next.contents bound = rest := by
  cases popped : ring.pop bound with
  | none =>
    have empty := inside.pop_none.mp popped
    rw [empty] at held
    cases held
  | some result =>
    obtain ⟨found, next⟩ := result
    have ⟨kept, contents⟩ := inside.pop_some popped
    obtain ⟨rfl, rfl⟩ := List.cons.inj (contents.symm.trans held)
    exact ⟨next, rfl, kept, rfl⟩

end Asym.IndexRings
