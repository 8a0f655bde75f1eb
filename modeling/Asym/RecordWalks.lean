import Mathlib.Tactic.Common

/-!
# Walks over records

A region of a size holds records, one behind the other, and each says how wide it is. A walk visits
the record at a position, goes on behind it, and ends behind the region. It ends exactly if no
record that it reaches is empty.

A loop over the records may stop early. Where the walk ends, the loop does what a fold over the
records does.
-/

namespace Asym.RecordWalks

universe u v
variable {State : Type u} {Failed : Type v} {width : Nat → Nat} {size : Nat}

/-- The positions of the records from a position on. No result means too little fuel. -/
def records (width : Nat → Nat) (size : Nat) : Nat → Nat → Option (List Nat)
  | 0, _ => none
  | fuel + 1, position =>
      if position < size then (records width size fuel (position + width position)).map (position :: ·) else some []

/-- A loop over the records, which may fail. No result means too little fuel. -/
def forEach (width : Nat → Nat) (size : Nat) (body : State → Nat → Except Failed State) :
    Nat → Nat → State → Option (Except Failed State)
  | 0, _, _ => none
  | fuel + 1, position, state =>
      if position < size then
        match body state position with
        | .error failed => some (.error failed)
        | .ok next => forEach width size body fuel (position + width position) next
      else some (.ok state)

/-- Positions that a walk from a position gets to. -/
inductive Reached (width : Nat → Nat) (size : Nat) : Nat → Nat → Prop where
  | here (position : Nat) : Reached width size position position
  | next {start position : Nat} (inside : start < size) (later : Reached width size (start + width start) position) :
      Reached width size start position

/-- A position before the end of the region leads to the next. -/
theorem reached_iff {start position : Nat} :
    Reached width size start position ↔
      position = start ∨ start < size ∧ Reached width size (start + width start) position := by
  constructor
  · intro reached
    cases reached with
    | here => exact Or.inl rfl
    | next inside later => exact Or.inr ⟨inside, later⟩
  · rintro (rfl | ⟨inside, later⟩)
    · exact .here _
    · exact .next inside later

/-- More fuel does not change the records. -/
theorem records_mono {fuel more start : Nat} {found : List Nat} (enough : records width size fuel start = some found)
    (grown : fuel ≤ more) : records width size more start = some found := by
  induction fuel generalizing more start found with
  | zero => cases enough
  | succ fuel ih =>
    obtain ⟨rest, rfl⟩ := Nat.exists_eq_succ_of_ne_zero (Nat.ne_of_gt (Nat.lt_of_lt_of_le (Nat.succ_pos _) grown))
    rw [records] at enough ⊢
    split at enough
    · rename_i inside
      obtain ⟨later, walked, rfl⟩ := Option.map_eq_some_iff.mp enough
      rw [if_pos inside, ih walked (Nat.le_of_succ_le_succ grown), Option.map_some]
    · rename_i outside
      rw [if_neg outside, enough]

/-- The records are the positions inside of the region that are reached. -/
theorem mem_records {fuel start position : Nat} {found : List Nat}
    (walked : records width size fuel start = some found) :
    position ∈ found ↔ Reached width size start position ∧ position < size := by
  induction fuel generalizing start found with
  | zero => cases walked
  | succ fuel ih =>
    rw [records] at walked
    rw [reached_iff]
    split at walked
    · rename_i inside
      obtain ⟨later, rest, rfl⟩ := Option.map_eq_some_iff.mp walked
      rw [List.mem_cons, ih rest]
      constructor
      · rintro (rfl | ⟨reached, before⟩)
        · exact ⟨Or.inl rfl, inside⟩
        · exact ⟨Or.inr ⟨inside, reached⟩, before⟩
      · rintro ⟨rfl | ⟨_, reached⟩, before⟩
        · exact Or.inl rfl
        · exact Or.inr ⟨reached, before⟩
    · rename_i outside
      obtain rfl := Option.some.inj walked
      refine iff_of_false List.not_mem_nil ?_
      rintro ⟨rfl | ⟨inside, _⟩, before⟩
      · exact outside before
      · exact outside inside

/-- A walk does not get over an empty record. -/
theorem records_of_empty {position : Nat} (inside : position < size) (empty : width position = 0) (fuel : Nat) :
    records width size fuel position = none := by
  induction fuel with
  | zero => rfl
  | succ fuel ih =>
    rw [records, if_pos inside, empty, Nat.add_zero, ih, Option.map_none]

/-- A walk over the records goes on from every position that it reaches. -/
theorem records_from {fuel start position : Nat} {found : List Nat}
    (walked : records width size fuel start = some found) (reached : Reached width size start position) :
    ∃ fuel found, records width size fuel position = some found := by
  induction reached generalizing fuel found with
  | here => exact ⟨fuel, found, walked⟩
  | next inside _ ih =>
    cases fuel with
    | zero => cases walked
    | succ fuel =>
      rw [records, if_pos inside] at walked
      obtain ⟨later, rest, _⟩ := Option.map_eq_some_iff.mp walked
      exact ih rest

/-- Without empty records fuel for every byte of the region is enough. -/
theorem records_of_wide {start : Nat}
    (wide : ∀ position, Reached width size start position → position < size → width position ≠ 0) {fuel : Nat}
    (enough : size - start < fuel) : ∃ found, records width size fuel start = some found := by
  induction fuel generalizing start with
  | zero => exact absurd enough (Nat.not_lt_zero _)
  | succ fuel ih =>
    by_cases inside : start < size
    · have some_ := wide start (.here start) inside
      obtain ⟨later, rest⟩ := @ih (start + width start)
        (fun position reached => wide position (.next inside reached)) (by omega)
      exact ⟨start :: later, by rw [records, if_pos inside, rest, Option.map_some]⟩
    · exact ⟨[], by rw [records, if_neg inside]⟩

/-- A walk ends exactly if no record that it reaches is empty. -/
theorem records_iff {start : Nat} :
    (∃ fuel found, records width size fuel start = some found) ↔
      ∀ position, Reached width size start position → position < size → width position ≠ 0 := by
  constructor
  · rintro ⟨fuel, found, walked⟩ position reached inside empty
    obtain ⟨more, later, rest⟩ := records_from walked reached
    rw [records_of_empty inside empty] at rest
    cases rest
  · intro wide
    exact ⟨size - start + 1, records_of_wide wide (Nat.lt_succ_self _)⟩

/-- Where the walk ends, a loop is a fold over the records. -/
theorem forEach_eq {body : State → Nat → Except Failed State} {fuel start : Nat} {found : List Nat}
    (walked : records width size fuel start = some found) (state : State) :
    forEach width size body fuel start state = some (found.foldlM body state) := by
  induction fuel generalizing start found state with
  | zero => cases walked
  | succ fuel ih =>
    rw [records] at walked
    rw [forEach]
    split at walked
    · rename_i inside
      obtain ⟨later, rest, rfl⟩ := Option.map_eq_some_iff.mp walked
      rw [if_pos inside, List.foldlM_cons]
      cases body state start with
      | error failed => rfl
      | ok next => exact ih rest next
    · rename_i outside
      obtain rfl := Option.some.inj walked
      rw [if_neg outside]
      rfl

/-- A loop that never fails ends exactly where the walk does. -/
theorem records_of_forEach {body : State → Nat → State} {fuel start : Nat} {state : State}
    {result : Except Failed State}
    (done : forEach width size (fun state position => .ok (body state position)) fuel start state = some result) :
    ∃ found, records width size fuel start = some found := by
  induction fuel generalizing start state with
  | zero => cases done
  | succ fuel ih =>
    rw [forEach] at done
    split at done
    · rename_i inside
      obtain ⟨later, rest⟩ := ih done
      exact ⟨start :: later, by rw [records, if_pos inside, rest, Option.map_some]⟩
    · rename_i outside
      exact ⟨[], by rw [records, if_neg outside]⟩

end Asym.RecordWalks
