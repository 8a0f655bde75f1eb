import Asym.Runs
import Mathlib.Algebra.Order.BigOperators.Group.Finset
import Mathlib.Data.Fintype.Basic
import Mathlib.Data.List.Perm.Basic
import Mathlib.Logic.Function.Basic

/-!
# Counted references

Objects are referred to by holders. A holder keeps a list of references, in
which an object may occur several times, and every object has a count. A
reference is created with its object, shared, handed on to another holder and
finally released; the release that finds the count at one finishes the object.

The invariant says that each count is the number of references all holders keep
together and that the finished objects are those without any. Every step keeps
it, hence every run does. A program whose operations are runs of these steps
inherits it.
-/

namespace Asym.References

universe u v
variable {Holder : Type u} {Object : Type v}

/-- References with their counts. `created` are all objects ever created,
`finished` those whose last reference was released. -/
structure Store (Holder : Type u) (Object : Type v) where
  held : Holder → List Object
  count : Object → Nat
  created : List Object
  finished : List Object

variable [DecidableEq Holder] [DecidableEq Object]

/-- Lower the count of an object, and finish it at its last reference. -/
def Store.drop (store : Store Holder Object) (object : Object) : Store Holder Object :=
  { store with
    count := Function.update store.count object (store.count object - 1)
    finished := if store.count object ≤ 1 then object :: store.finished else store.finished }

variable [Fintype Holder]

/-- Number of references to an object. -/
def total (held : Holder → List Object) (object : Object) : Nat :=
  ∑ holder, (held holder).count object

/-- One operation on references. Lists of references matter up to permutation. -/
inductive Step : Store Holder Object → Store Holder Object → Prop where
  /-- A new object with one reference. -/
  | create (store : Store Holder Object) (holder : Holder) (object : Object) (kept : List Object)
      (fresh : object ∉ store.created) (keeps : kept.Perm (object :: store.held holder)) :
      Step store { store with
        held := Function.update store.held holder kept
        count := Function.update store.count object 1
        created := object :: store.created }
  /-- One more reference to an object that somebody refers to. -/
  | share (store : Store Holder Object) (owner holder : Holder) (object : Object)
      (kept : List Object) (refers : object ∈ store.held owner)
      (keeps : kept.Perm (object :: store.held holder)) :
      Step store { store with
        held := Function.update store.held holder kept
        count := Function.update store.count object (store.count object + 1) }
  /-- References are handed on among the holders. -/
  | regroup (store : Store Holder Object) (held : Holder → List Object)
      (same : ∀ object, total held object = total store.held object) :
      Step store { store with held := held }
  /-- A reference is given up. -/
  | release (store : Store Holder Object) (holder : Holder) (object : Object) (left : List Object)
      (leaves : (store.held holder).Perm (object :: left)) :
      Step store { store.drop object with held := Function.update store.held holder left }

/-- The counts are exact and the objects without references are finished. -/
structure Exact (store : Store Holder Object) : Prop where
  known : ∀ holder, ∀ object ∈ store.held holder, object ∈ store.created
  counted : ∀ object ∈ store.created, store.count object = total store.held object
  ends : ∀ object, object ∈ store.finished ↔ object ∈ store.created ∧ total store.held object = 0
  once : store.finished.Nodup

/-- The references after one holder's list is replaced. -/
theorem total_update (held : Holder → List Object) (holder : Holder) (kept : List Object)
    (object : Object) :
    total (Function.update held holder kept) object + (held holder).count object =
      total held object + kept.count object := by
  have after : total (Function.update held holder kept) object =
      kept.count object + ∑ other ∈ Finset.univ.erase holder, (held other).count object := by
    rw [total, ← Finset.add_sum_erase _ _ (Finset.mem_univ holder), Function.update_self]
    congr 1
    refine Finset.sum_congr rfl fun other member => ?_
    rw [Function.update_of_ne (Finset.ne_of_mem_erase member)]
  have before : total held object =
      (held holder).count object + ∑ other ∈ Finset.univ.erase holder, (held other).count object :=
    (Finset.add_sum_erase _ _ (Finset.mem_univ holder)).symm
  omega

/-- A holder that gains a reference raises the number of references by one. -/
theorem total_gain (held : Holder → List Object) (holder : Holder) (object : Object)
    (kept : List Object) (keeps : kept.Perm (object :: held holder)) (tested : Object) :
    total (Function.update held holder kept) tested =
      total held tested + if tested = object then 1 else 0 := by
  have changed := total_update held holder kept tested
  rw [keeps.count_eq, List.count_cons] at changed
  by_cases same : tested = object
  · simp only [same, beq_self_eq_true, if_true] at changed ⊢
    omega
  · simp only [beq_iff_eq, Ne.symm same, same, if_false] at changed ⊢
    omega

/-- A holder that loses a reference lowers the number of references by one. -/
theorem total_loss {held : Holder → List Object} {holder : Holder} {object : Object}
    {left : List Object} (leaves : (held holder).Perm (object :: left)) (tested : Object) :
    total held tested =
      total (Function.update held holder left) tested + if tested = object then 1 else 0 := by
  have changed := total_update held holder left tested
  rw [leaves.count_eq, List.count_cons] at changed
  by_cases same : tested = object
  · simp only [same, beq_self_eq_true, if_true] at changed ⊢
    omega
  · simp only [beq_iff_eq, Ne.symm same, same, if_false] at changed ⊢
    omega

/-- A reference that goes from one holder to another stays counted. -/
theorem total_move (held : Holder → List Object) (source target : Holder) (object : Object)
    (left kept : List Object) (different : source ≠ target)
    (leaves : (held source).Perm (object :: left)) (keeps : kept.Perm (object :: held target))
    (tested : Object) :
    total (Function.update (Function.update held source left) target kept) tested =
      total held tested := by
  rw [← Function.update_of_ne (Ne.symm different) left held] at keeps
  rw [total_gain (Function.update held source left) target object kept keeps,
    total_loss leaves]

omit [DecidableEq Holder] in
/-- An object that a holder refers to has a reference. -/
theorem total_pos {held : Holder → List Object} {holder : Holder} {object : Object}
    (refers : object ∈ held holder) : 0 < total held object := by
  have part : (held holder).count object ≤ total held object :=
    Finset.single_le_sum (f := fun other => (held other).count object) (fun _ _ => Nat.zero_le _)
      (Finset.mem_univ holder)
  exact Nat.lt_of_lt_of_le (List.count_pos_iff.mpr refers) part

omit [DecidableEq Holder] in
/-- An object without references is referred to by no holder. -/
theorem total_eq_zero_iff (held : Holder → List Object) (object : Object) :
    total held object = 0 ↔ ∀ holder, object ∉ held holder := by
  constructor
  · intro none holder refers
    have some := total_pos refers
    omega
  · intro none
    exact Finset.sum_eq_zero fun holder _ => List.count_eq_zero.mpr (none holder)

/-- What a replaced list of references may refer to. -/
theorem known_update {store : Store Holder Object} (holder : Holder) (kept : List Object)
    (created : List Object) (exact : Exact store)
    (more : ∀ object ∈ store.created, object ∈ created)
    (keeps : ∀ object ∈ kept, object ∈ created) :
    ∀ other, ∀ object ∈ Function.update store.held holder kept other, object ∈ created := by
  intro other object refers
  by_cases same : other = holder
  · subst same
    rw [Function.update_self] at refers
    exact keeps object refers
  · rw [Function.update_of_ne same] at refers
    exact more object (exact.known other object refers)

/-- Creating an object keeps the counts exact. -/
theorem create_exact {store : Store Holder Object} {holder : Holder} {object : Object}
    {kept : List Object} (fresh : object ∉ store.created)
    (keeps : kept.Perm (object :: store.held holder)) (exact : Exact store) :
    Exact { store with
      held := Function.update store.held holder kept
      count := Function.update store.count object 1
      created := object :: store.created } := by
  have none : total store.held object = 0 :=
    (total_eq_zero_iff store.held object).mpr fun other refers =>
      fresh (exact.known other object refers)
  have gain := total_gain store.held holder object kept keeps
  have unfinished : object ∉ store.finished := fun finished => fresh ((exact.ends object).mp finished).1
  refine ⟨?_, ?_, ?_, exact.once⟩
  · refine known_update holder kept _ exact (fun _ => List.mem_cons_of_mem _) ?_
    intro other refers
    rcases List.mem_cons.mp (keeps.mem_iff.mp refers) with rfl | before
    · exact List.mem_cons_self
    · exact List.mem_cons_of_mem _ (exact.known holder other before)
  · intro other member
    rw [gain]
    by_cases same : other = object
    · subst same
      simp [none]
    · simp only [Function.update_of_ne same, same, if_false, Nat.add_zero]
      exact exact.counted other ((List.mem_cons.mp member).resolve_left same)
  · intro other
    rw [gain, List.mem_cons]
    by_cases same : other = object
    · subst same
      simp [unfinished]
    · simp only [same, if_false, false_or, Nat.add_zero]
      exact exact.ends other

/-- Sharing a reference keeps the counts exact. -/
theorem share_exact {store : Store Holder Object} {owner holder : Holder} {object : Object}
    {kept : List Object} (refers : object ∈ store.held owner)
    (keeps : kept.Perm (object :: store.held holder)) (exact : Exact store) :
    Exact { store with
      held := Function.update store.held holder kept
      count := Function.update store.count object (store.count object + 1) } := by
  have gain := total_gain store.held holder object kept keeps
  have created := exact.known owner object refers
  have some := total_pos refers
  have unfinished : object ∉ store.finished := by
    intro finished
    have none := ((exact.ends object).mp finished).2
    omega
  refine ⟨?_, ?_, ?_, exact.once⟩
  · refine known_update holder kept _ exact (fun _ => id) ?_
    intro other keepsOther
    rcases List.mem_cons.mp (keeps.mem_iff.mp keepsOther) with rfl | before
    · exact created
    · exact exact.known holder other before
  · intro other member
    rw [gain]
    by_cases same : other = object
    · subst same
      simp [exact.counted other created]
    · simp only [Function.update_of_ne same, same, if_false, Nat.add_zero]
      exact exact.counted other member
  · intro other
    rw [gain]
    by_cases same : other = object
    · subst same
      simp [unfinished]
    · simp only [same, if_false, Nat.add_zero]
      exact exact.ends other

omit [DecidableEq Holder] in
/-- Handing references on keeps the counts exact. -/
theorem regroup_exact (store : Store Holder Object) (held : Holder → List Object)
    (same : ∀ object, total held object = total store.held object) (exact : Exact store) :
    Exact { store with held := held } := by
  refine ⟨?_, ?_, ?_, exact.once⟩
  · intro holder tested refers
    by_contra unknown
    have none : total store.held tested = 0 :=
      (total_eq_zero_iff store.held tested).mpr fun other refersOther =>
        unknown (exact.known other tested refersOther)
    rw [← same] at none
    exact (total_eq_zero_iff held tested).mp none holder refers
  · intro tested member
    rw [same]
    exact exact.counted tested member
  · intro tested
    rw [same]
    exact exact.ends tested

/-- Releasing a reference keeps the counts exact. -/
theorem release_exact {store : Store Holder Object} {holder : Holder} {object : Object}
    {left : List Object} (leaves : (store.held holder).Perm (object :: left)) (exact : Exact store) :
    Exact { store.drop object with held := Function.update store.held holder left } := by
  have loss := total_loss leaves
  have here : object ∈ store.held holder := leaves.mem_iff.mpr List.mem_cons_self
  have created := exact.known holder object here
  have some := total_pos here
  have unfinished : object ∉ store.finished := by
    intro finished
    have none := ((exact.ends object).mp finished).2
    omega
  have count := exact.counted object created
  have lossHere := loss object
  rw [if_pos rfl] at lossHere
  simp only [Store.drop]
  refine ⟨?_, ?_, ?_, ?_⟩
  · refine known_update holder left _ exact (fun _ => id) ?_
    intro other keepsOther
    exact exact.known holder other (leaves.mem_iff.mpr (List.mem_cons_of_mem _ keepsOther))
  · intro other member
    by_cases same : other = object
    · subst same
      simp only [Function.update_self]
      omega
    · have lossOther := loss other
      rw [if_neg same] at lossOther
      have countOther := exact.counted other member
      simp only [Function.update_of_ne same]
      omega
  · intro other
    by_cases same : other = object
    · subst same
      split
      · simp only [List.mem_cons_self, created, true_and, true_iff]
        omega
      · simp only [unfinished, created, true_and, false_iff]
        omega
    · have lossOther := loss other
      rw [if_neg same, Nat.add_zero] at lossOther
      rw [← lossOther, ← exact.ends other]
      split
      · simp [same]
      · rfl
  · split
    · exact List.nodup_cons.mpr ⟨unfinished, exact.once⟩
    · exact exact.once

/-- Every operation on references keeps the counts exact. -/
theorem step_exact (store next : Store Holder Object) (exact : Exact store) (taken : Step store next) :
    Exact next := by
  cases taken with
  | create holder object kept fresh keeps =>
    exact create_exact fresh keeps exact
  | share owner holder object kept refers keeps =>
    exact share_exact refers keeps exact
  | regroup held same => exact regroup_exact store held same exact
  | release holder object left leaves => exact release_exact leaves exact

/-- Runs of operations on references keep the counts exact. -/
theorem run_exact {store next : Store Holder Object}
    (run : Relation.ReflTransGen Step store next) (exact : Exact store) : Exact next :=
  Runs.run_preserves step_exact run exact

end Asym.References
