import Mathlib.Data.List.Nodup
import Mathlib.Tactic.Common

/-!
# Taking turns

Parties arrive at the end of a line. The first of the line enters when nobody is
inside, and it leaves again. The histories of arrivals and entries are kept, and
what is proved about them is their order: the entries are a beginning of the
arrivals. A party can arrive again after it has left.
-/

namespace Asym.Turns

universe u
variable {Party : Type u}

/-- The party inside, the parties waiting in order of arrival, and the histories
of arrivals and entries. -/
structure Line (Party : Type u) where
  inside : Option Party
  waiting : List Party
  arrivals : List Party
  entries : List Party

/-- All parties of a line, the one inside first. -/
def Line.parties (line : Line Party) : List Party := line.inside.toList ++ line.waiting

/-- What can happen to a line. -/
inductive Step : Line Party → Line Party → Prop where
  | arrive (line : Line Party) (party : Party) (absent : party ∉ line.parties) :
      Step line { line with
        waiting := line.waiting ++ [party]
        arrivals := line.arrivals ++ [party] }
  | enter (line : Line Party) (first : Party) (rest : List Party)
      (shape : line.waiting = first :: rest) (free : line.inside = none) :
      Step line { line with
        inside := some first
        waiting := rest
        entries := line.entries ++ [first] }
  | leave (line : Line Party) (party : Party) (taken : line.inside = some party) :
      Step line { line with inside := none }

/-- The histories account for the line: those who left come first, then the one
inside, then those who wait. -/
structure Orderly (line : Line Party) : Prop where
  distinct : line.parties.Nodup
  histories : ∃ left, line.arrivals = left ++ line.parties ∧ line.entries = left ++ line.inside.toList

/-- Every step keeps the account. -/
theorem step_orderly {before after : Line Party} (orderly : Orderly before) (taken : Step before after) :
    Orderly after := by
  obtain ⟨left, arrivals, entries⟩ := orderly.histories
  have distinct := orderly.distinct
  cases taken with
  | arrive party absent =>
    constructor
    · have separate : List.Disjoint before.parties [party] := by
        intro member inside isNew
        exact absent (List.mem_singleton.mp isNew ▸ inside)
      have longer := List.Nodup.append distinct (List.nodup_singleton party) separate
      rwa [Line.parties, List.append_assoc] at longer
    · exact ⟨left, by simp [arrivals, Line.parties], entries⟩
  | enter first rest shape free =>
    have same : before.parties = first :: rest := by simp [Line.parties, shape, free]
    rw [same] at distinct arrivals
    exact ⟨distinct, left, arrivals, by simp [entries, free]⟩
  | leave party taken =>
    have same : before.parties = party :: before.waiting := by simp [Line.parties, taken]
    rw [same] at distinct arrivals
    constructor
    · exact (List.nodup_cons.mp distinct).2
    · exact ⟨left ++ [party], by simp [arrivals, Line.parties], by simp [entries, taken]⟩

/-- Who enters, enters in the order of arrival. -/
theorem Orderly.in_order {line : Line Party} (orderly : Orderly line) : line.entries <+: line.arrivals := by
  obtain ⟨left, arrivals, entries⟩ := orderly.histories
  rw [arrivals, entries, Line.parties, ← List.append_assoc]
  exact List.prefix_append _ _

end Asym.Turns
