import Asym.Custody

/-!
# Handing over what is still in use

Items are held in places, and some places belong to a party. A party that passes
an item on may go on using it for a while: it clings to the item. The item may
then go on through places of nobody and come back to the party, but if it gets
into the place of another party, two of them use it.

The invariant says that an item that a party clings to is in no place of another
party and that nobody else clings to it. All steps keep it except a move into the
place of a party while another one clings to the item, which is not a step.
-/

namespace Asym.Handovers

open Custody

universe u v w
variable {Place : Type u} {Party : Type v} {Item : Type w}

/-- Items in places, what the parties cling to, and all items ever created. -/
structure View (Place : Type u) (Party : Type v) (Item : Type w) where
  held : Place → List Item
  clings : Party → Option Item
  known : List Item

variable [DecidableEq Place] [DecidableEq Party]

/-- One change, for places with the given owners. -/
inductive Step (owner : Place → Option Party) :
    View Place Party Item → View Place Party Item → Prop where
  /-- An item goes to a place of nobody, of the same owner, or of the one who
  clings to it. -/
  | move (view : View Place Party Item) (source target : Place) (item : Item)
      (left arrived : List Item) (different : source ≠ target)
      (leaves : (view.held source).Perm (item :: left))
      (arrives : arrived.Perm (item :: view.held target))
      (allowed : owner target = none ∨ owner target = owner source ∨
        ∀ party, view.clings party = some item → owner target = some party) :
      Step owner view { view with
        held := Function.update (Function.update view.held source left) target arrived }
  /-- An item is discarded. -/
  | discard (view : View Place Party Item) (source : Place) (item : Item) (left : List Item)
      (leaves : (view.held source).Perm (item :: left)) :
      Step owner view { view with held := Function.update view.held source left }
  /-- A new item. -/
  | create (view : View Place Party Item) (target : Place) (item : Item) (arrived : List Item)
      (new : item ∉ view.known) (arrives : arrived.Perm (item :: view.held target)) :
      Step owner view { view with
        held := Function.update view.held target arrived
        known := item :: view.known }
  /-- A party passes an item on and clings to it. -/
  | pass (view : View Place Party Item) (party : Party) (source target : Place) (item : Item)
      (left arrived : List Item) (different : source ≠ target)
      (leaves : (view.held source).Perm (item :: left))
      (arrives : arrived.Perm (item :: view.held target)) (mine : owner source = some party)
      (allowed : owner target = none ∨ owner target = some party) :
      Step owner view { view with
        held := Function.update (Function.update view.held source left) target arrived
        clings := Function.update view.clings party (some item) }
  /-- A party lets go. -/
  | letGo (view : View Place Party Item) (party : Party) :
      Step owner view { view with clings := Function.update view.clings party none }

/-- What a party may still use: an item that no other party can get at. -/
structure Safe (owner : Place → Option Party) (view : View Place Party Item) : Prop where
  exclusive : Exclusive view.held
  inside : ∀ place, ∀ item ∈ view.held place, item ∈ view.known
  remembered : ∀ party item, view.clings party = some item → item ∈ view.known
  apart : ∀ party item, view.clings party = some item →
    ∀ place, item ∈ view.held place → owner place = none ∨ owner place = some party
  single : ∀ party other item, view.clings party = some item → view.clings other = some item →
    party = other

omit [DecidableEq Place] [DecidableEq Party] in
/-- An item in a place of one party is clung to by that party only. -/
theorem clings_owner {owner : Place → Option Party} {view : View Place Party Item}
    (safe : Safe owner view) (place : Place) (item : Item) (here : item ∈ view.held place)
    (party other : Party) (mine : owner place = some party) (clung : view.clings other = some item) :
    other = party := by
  rcases safe.apart other item clung place here with nobody | its
  · rw [mine] at nobody
    contradiction
  · rw [mine] at its
    exact (Option.some.inj its).symm

omit [DecidableEq Party] in
/-- A move keeps the parties apart. -/
theorem move_safe {owner : Place → Option Party} {view : View Place Party Item} {source target : Place}
    {item : Item} {left arrived : List Item} (different : source ≠ target)
    (leaves : (view.held source).Perm (item :: left))
    (arrives : arrived.Perm (item :: view.held target))
    (allowed : owner target = none ∨ owner target = owner source ∨
      ∀ party, view.clings party = some item → owner target = some party)
    (safe : Safe owner view) :
    Safe owner { view with
      held := Function.update (Function.update view.held source left) target arrived } := by
  obtain ⟨exclusive, members⟩ := move_exclusive view.held source target item left arrived
    safe.exclusive different leaves arrives
  have there : item ∈ view.held source := leaves.mem_iff.mpr List.mem_cons_self
  refine ⟨exclusive, ?_, safe.remembered, ?_, safe.single⟩
  · intro place other here
    rcases (members place other).mp here with ⟨-, stays⟩ | ⟨rfl, -⟩
    · exact safe.inside place other stays
    · exact safe.inside source other there
  · intro party other clung place here
    rcases (members place other).mp here with ⟨-, stays⟩ | ⟨rfl, rfl⟩
    · exact safe.apart party other clung place stays
    · rcases allowed with nobody | same | its
      · exact .inl nobody
      · rw [same]
        exact safe.apart party other clung source there
      · exact .inr (its party clung)

/-- Passing an item on keeps the parties apart. -/
theorem pass_safe {owner : Place → Option Party} {view : View Place Party Item} {party : Party}
    {source target : Place} {item : Item} {left arrived : List Item} (different : source ≠ target)
    (leaves : (view.held source).Perm (item :: left))
    (arrives : arrived.Perm (item :: view.held target)) (mine : owner source = some party)
    (allowed : owner target = none ∨ owner target = some party) (safe : Safe owner view) :
    Safe owner { view with
      held := Function.update (Function.update view.held source left) target arrived
      clings := Function.update view.clings party (some item) } := by
  have there : item ∈ view.held source := leaves.mem_iff.mpr List.mem_cons_self
  obtain ⟨exclusive, members⟩ := move_exclusive view.held source target item left arrived
    safe.exclusive different leaves arrives
  have moved := move_safe different leaves arrives (by rw [mine]; exact allowed.imp_right .inl) safe
  have alone : ∀ other, view.clings other = some item → other = party :=
    fun other => clings_owner safe source item there party other mine
  have clinging : ∀ tested other, Function.update view.clings party (some item) tested = some other →
      (tested = party ∧ other = item) ∨ view.clings tested = some other := by
    intro tested other clung
    by_cases same : tested = party
    · subst same
      rw [Function.update_self] at clung
      exact .inl ⟨rfl, (Option.some.inj clung).symm⟩
    · rw [Function.update_of_ne same] at clung
      exact .inr clung
  refine ⟨exclusive, moved.inside, ?_, ?_, ?_⟩
  · intro tested other clung
    rcases clinging tested other clung with ⟨-, rfl⟩ | before
    · exact safe.inside source other there
    · exact safe.remembered tested other before
  · intro tested other clung place here
    rcases clinging tested other clung with ⟨rfl, rfl⟩ | before
    · rcases (members place other).mp here with ⟨changed, -⟩ | ⟨-, rfl⟩
      · exact absurd rfl changed
      · exact allowed
    · exact moved.apart tested other before place here
  · intro first second other firstClings secondClings
    rcases clinging first other firstClings with ⟨rfl, rfl⟩ | firstBefore
    · rcases clinging second other secondClings with ⟨rfl, -⟩ | secondBefore
      · rfl
      · exact (alone second secondBefore).symm
    · rcases clinging second other secondClings with ⟨rfl, rfl⟩ | secondBefore
      · exact alone first firstBefore
      · exact safe.single first second other firstBefore secondBefore

/-- Every change keeps the parties apart. -/
theorem step_safe (owner : Place → Option Party) (view next : View Place Party Item)
    (safe : Safe owner view) (taken : Step owner view next) : Safe owner next := by
  cases taken with
  | move source target item left arrived different leaves arrives allowed =>
    exact move_safe different leaves arrives allowed safe
  | discard source item left leaves =>
    obtain ⟨exclusive, members⟩ := take_exclusive safe.exclusive leaves
    exact ⟨exclusive, fun place other here => safe.inside place other ((members place other).mp here).2,
      safe.remembered, fun party other clung place here =>
        safe.apart party other clung place ((members place other).mp here).2, safe.single⟩
  | create target item arrived new arrives =>
    have nowhere : ∀ place, item ∉ view.held place :=
      fun place here => new (safe.inside place item here)
    obtain ⟨exclusive, members⟩ := put_exclusive safe.exclusive nowhere arrives
    refine ⟨exclusive, ?_, fun party other clung =>
      List.mem_cons_of_mem _ (safe.remembered party other clung), ?_, safe.single⟩
    · intro place other here
      rcases (members place other).mp here with before | ⟨rfl, -⟩
      · exact List.mem_cons_of_mem _ (safe.inside place other before)
      · exact List.mem_cons_self
    · intro party other clung place here
      rcases (members place other).mp here with before | ⟨rfl, -⟩
      · exact safe.apart party other clung place before
      · exact absurd (safe.remembered party other clung) new
  | pass party source target item left arrived different leaves arrives mine allowed =>
    exact pass_safe different leaves arrives mine allowed safe
  | letGo party =>
    have before : ∀ tested item, Function.update view.clings party none tested = some item →
        view.clings tested = some item := by
      intro tested item clung
      by_cases same : tested = party
      · subst same
        rw [Function.update_self] at clung
        contradiction
      · rwa [Function.update_of_ne same] at clung
    exact ⟨safe.exclusive, safe.inside,
      fun tested item clung => safe.remembered tested item (before tested item clung),
      fun tested item clung => safe.apart tested item (before tested item clung),
      fun first second item firstClings secondClings =>
        safe.single first second item (before first item firstClings) (before second item secondClings)⟩

/-- Runs of changes keep the parties apart. -/
theorem run_safe (owner : Place → Option Party) {view next : View Place Party Item}
    (run : Relation.ReflTransGen (Step owner) view next) (safe : Safe owner view) : Safe owner next :=
  Runs.run_preserves (step_safe owner) run safe

end Asym.Handovers
