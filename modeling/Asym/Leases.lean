import Mathlib.Data.Set.Insert
import Mathlib.Order.BooleanAlgebra.Set
import Mathlib.Data.List.Basic
import Mathlib.Tactic.Common

/-!
# Leases

Pages are taken from a provider, used and given back. A log of such events is
orderly when a page is taken only while it is not held, given back only while it
is held, and used only while it is held or belongs to a fixed set of shared
pages, which are never taken.

Orderly logs compose. In a log that starts and ends with nothing held, every
page is given back exactly as often as it was taken, takes and gives of one page
alternate, no shared page is given back, and no page is used between its give
and its next take.
-/

namespace Asym.Leases

universe u
variable {Page : Type u}

/-- One event of a log. -/
inductive Event (Page : Type u) where
  | take (page : Page)
  | give (page : Page)
  | use (page : Page)
  deriving DecidableEq

/-- A log leads from one set of held pages to another. -/
inductive Orderly (shared : Set Page) : Set Page → List (Event Page) → Set Page → Prop where
  | done (held : Set Page) : Orderly shared held [] held
  | take {held last : Set Page} {rest : List (Event Page)} (page : Page) (free : page ∉ held)
      (own : page ∉ shared) (later : Orderly shared (insert page held) rest last) :
      Orderly shared held (.take page :: rest) last
  | give {held last : Set Page} {rest : List (Event Page)} (page : Page) (taken : page ∈ held)
      (later : Orderly shared (held \ {page}) rest last) :
      Orderly shared held (.give page :: rest) last
  | use {held last : Set Page} {rest : List (Event Page)} (page : Page)
      (allowed : page ∈ held ∨ page ∈ shared) (later : Orderly shared held rest last) :
      Orderly shared held (.use page :: rest) last

/-- Pages taken by a log, in order. -/
def takes (events : List (Event Page)) : List Page :=
  events.filterMap (fun event => match event with
    | .take page => some page
    | _ => none)

/-- Pages given back by a log, in order. -/
def gives (events : List (Event Page)) : List Page :=
  events.filterMap (fun event => match event with
    | .give page => some page
    | _ => none)

@[simp] theorem takes_take (page : Page) (rest : List (Event Page)) :
    takes (.take page :: rest) = page :: takes rest := rfl

@[simp] theorem takes_give (page : Page) (rest : List (Event Page)) :
    takes (.give page :: rest) = takes rest := rfl

@[simp] theorem gives_take (page : Page) (rest : List (Event Page)) :
    gives (.take page :: rest) = gives rest := rfl

@[simp] theorem gives_give (page : Page) (rest : List (Event Page)) :
    gives (.give page :: rest) = page :: gives rest := rfl

@[simp] theorem gives_use (page : Page) (rest : List (Event Page)) :
    gives (.use page :: rest) = gives rest := rfl

@[simp] theorem takes_append (first second : List (Event Page)) :
    takes (first ++ second) = takes first ++ takes second :=
  List.filterMap_append

@[simp] theorem gives_append (first second : List (Event Page)) :
    gives (first ++ second) = gives first ++ gives second :=
  List.filterMap_append

@[simp] theorem takes_uses (pages : List Page) : takes (pages.map .use) = [] := by
  induction pages with
  | nil => rfl
  | cons page rest ih => exact ih

@[simp] theorem gives_uses (pages : List Page) : gives (pages.map .use) = [] := by
  induction pages with
  | nil => rfl
  | cons page rest ih => exact ih

/-- Orderly logs compose. -/
theorem Orderly.append {shared start middle last : Set Page} {first second : List (Event Page)}
    (before : Orderly shared start first middle) (after : Orderly shared middle second last) :
    Orderly shared start (first ++ second) last := by
  induction before with
  | done => exact after
  | take page free own _ ih => exact .take page free own (ih after)
  | give page taken _ ih => exact .give page taken (ih after)
  | use page allowed _ ih => exact .use page allowed (ih after)

/-- Every part of an orderly log is orderly. -/
theorem Orderly.split {shared start last : Set Page} (first second : List (Event Page))
    (whole : Orderly shared start (first ++ second) last) :
    ∃ middle, Orderly shared start first middle ∧ Orderly shared middle second last := by
  induction first generalizing start with
  | nil => exact ⟨start, .done start, whole⟩
  | cons event rest ih =>
    cases whole with
    | take page free own later =>
      obtain ⟨middle, before, after⟩ := ih later
      exact ⟨middle, .take page free own before, after⟩
    | give page taken later =>
      obtain ⟨middle, before, after⟩ := ih later
      exact ⟨middle, .give page taken before, after⟩
    | use page allowed later =>
      obtain ⟨middle, before, after⟩ := ih later
      exact ⟨middle, .use page allowed before, after⟩

/-- Using held or shared pages changes nothing. -/
theorem orderly_uses {shared held : Set Page} {pages : List Page}
    (allowed : ∀ page ∈ pages, page ∈ held ∨ page ∈ shared) :
    Orderly shared held (pages.map .use) held := by
  induction pages with
  | nil => exact .done held
  | cons page rest ih =>
    exact .use page (allowed page (by simp))
      (ih fun other member => allowed other (by simp [member]))

/-- What is held at the end was held at the start or taken. -/
theorem Orderly.held_from {shared start last : Set Page} {events : List (Event Page)}
    (orderly : Orderly shared start events last) (page : Page) (held : page ∈ last) :
    page ∈ start ∨ page ∈ takes events := by
  induction orderly with
  | done => exact .inl held
  | @take start _ _ other _ _ _ ih =>
    rw [takes_take, List.mem_cons]
    rcases ih held with (rfl | before) | later
    · exact .inr (.inl rfl)
    · exact .inl before
    · exact .inr (.inr later)
  | give other _ _ ih =>
    rcases ih held with before | later
    · exact .inl before.1
    · exact .inr later
  | use other _ _ ih => exact ih held

/-- Pages that are held besides, and that the log does not take, do not disturb
it and stay held. -/
theorem Orderly.frame {shared start last : Set Page} {events : List (Event Page)}
    (orderly : Orderly shared start events last) (besides : Set Page)
    (apart : ∀ page ∈ besides, page ∉ start ∧ page ∉ takes events) :
    Orderly shared (start ∪ besides) events (last ∪ besides) := by
  induction orderly with
  | done held => exact .done _
  | @take start _ rest page free own _ ih =>
    have notBesides : page ∉ besides := fun member => (apart page member).2 (by simp)
    refine .take page ?_ own ?_
    · rintro (before | member)
      · exact free before
      · exact notBesides member
    · rw [← Set.insert_union]
      refine ih fun other member => ⟨?_, fun later => (apart other member).2 (by simp [later])⟩
      rintro (rfl | before)
      · exact notBesides member
      · exact (apart other member).1 before
  | @give start _ rest page taken _ ih =>
    have notBesides : page ∉ besides := fun member => (apart page member).1 taken
    have left : (start ∪ besides) \ {page} = (start \ {page}) ∪ besides := by
      rw [Set.union_sdiff_distrib, Set.sdiff_singleton_eq_self notBesides]
    refine .give page (.inl taken) ?_
    rw [left]
    exact ih fun other member => ⟨fun before => (apart other member).1 before.1,
      (apart other member).2⟩
  | use page allowed _ ih =>
    exact .use page (allowed.imp_left .inl) (ih apart)

/-- Held pages stay apart from the shared ones, and no shared page is given
back. -/
theorem Orderly.apart {shared start last : Set Page} {events : List (Event Page)}
    (orderly : Orderly shared start events last) (apart : ∀ page ∈ start, page ∉ shared) :
    ∀ page ∈ gives events, page ∉ shared := by
  induction orderly with
  | done => simp [gives]
  | @take held _ _ page _ own _ ih =>
    apply ih
    rintro other (rfl | member)
    · exact own
    · exact apart other member
  | give page taken _ ih =>
    rw [gives_give, List.forall_mem_cons]
    exact ⟨apart page taken, ih fun other member => apart other member.1⟩
  | use page _ _ ih => exact ih apart

section Counting

variable [DecidableEq Page]

open scoped Classical in
/-- One for a held page, zero for another. -/
noncomputable def holding (held : Set Page) (page : Page) : Nat := if page ∈ held then 1 else 0

omit [DecidableEq Page] in
/-- Sets that agree on a page hold it alike. -/
theorem holding_congr {first second : Set Page} (page : Page)
    (agree : page ∈ first ↔ page ∈ second) : holding first page = holding second page := by
  rw [holding, holding]
  by_cases member : page ∈ second
  · rw [if_pos (agree.mpr member), if_pos member]
  · rw [if_neg (mt agree.mp member), if_neg member]

/-- Takes and gives of a page differ by whether it is held. -/
theorem Orderly.balance {shared start last : Set Page} {events : List (Event Page)}
    (orderly : Orderly shared start events last) (page : Page) :
    holding start page + (takes events).count page =
      holding last page + (gives events).count page := by
  induction orderly with
  | done => rfl
  | @take held _ _ other free _ _ ih =>
    rw [takes_take, gives_take]
    by_cases same : other = page
    · subst same
      have before : holding held other = 0 := if_neg free
      have after : holding (insert other held) other = 1 := if_pos (Set.mem_insert other held)
      rw [List.count_cons_self]
      omega
    · have kept : holding (insert other held) page = holding held page :=
        holding_congr page (Set.mem_insert_iff.trans (or_iff_right (Ne.symm same)))
      rw [List.count_cons_of_ne same]
      omega
  | @give held _ _ other taken _ ih =>
    rw [takes_give, gives_give]
    by_cases same : other = page
    · subst same
      have before : holding held other = 1 := if_pos taken
      have after : holding (held \ {other}) other = 0 := if_neg (by simp)
      rw [List.count_cons_self]
      omega
    · have kept : holding (held \ {other}) page = holding held page :=
        holding_congr page (and_iff_left (Ne.symm same))
      rw [List.count_cons_of_ne same]
      omega
  | use other _ _ ih => exact ih

/-- What an orderly log that starts and ends with nothing held says about every
page. -/
structure Balanced (shared : Set Page) (events : List (Event Page)) : Prop where
  returned : ∀ page, (gives events).count page = (takes events).count page
  alternating : ∀ before after, events = before ++ after → ∀ page,
    (gives before).count page ≤ (takes before).count page ∧
      (takes before).count page ≤ (gives before).count page + 1
  kept : ∀ page ∈ shared, page ∉ gives events
  unused : ∀ before after page, events = before ++ .use page :: after →
    page ∈ shared ∨ (takes before).count page = (gives before).count page + 1

/-- A log from nothing held to nothing held is balanced. -/
theorem Orderly.balanced {shared : Set Page} {events : List (Event Page)}
    (orderly : Orderly shared ∅ events ∅) : Balanced shared events where
  returned page := by
    have counted := orderly.balance page
    omega
  alternating before after split page := by
    subst split
    obtain ⟨middle, early, _⟩ := orderly.split before after
    have counted := early.balance page
    have start : holding (∅ : Set Page) page = 0 := if_neg (Set.notMem_empty page)
    have bounded : holding middle page ≤ 1 := by
      rw [holding]
      split <;> omega
    omega
  kept page member given := orderly.apart (by simp) page given member
  unused before after page split := by
    subst split
    obtain ⟨middle, early, late⟩ := orderly.split before (.use page :: after)
    cases late with
    | use _ allowed _ =>
      rcases allowed with held | member
      · right
        have counted := early.balance page
        have start : holding (∅ : Set Page) page = 0 := if_neg (Set.notMem_empty page)
        have now : holding middle page = 1 := if_pos held
        omega
      · exact .inl member

end Counting

end Asym.Leases
