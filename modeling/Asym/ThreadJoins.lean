import Asym.ThreadCalls

/-!
# Joins of threads

In a careful run every join that returns gives the value that its thread passed to
`thrd_exit`, every join of a thread that exits does return, and every block is reserved
for one thread at a time.

Without care this fails. `thrd_exit` drops the base reference that would keep the block
for the join, so a join that begins later finds the block unused. And a `split` that fails
clears the count of the block behind the one of its caller.
-/

namespace Asym.ThreadBlocks

open EventRuns

/-- The thread that is joined. -/
def Phase.joins : Phase → Option Nat
  | .look target _ | .hold target _ | .wait target _ | .read target _ | .release target _ _ => some target
  | .free _ (.joined target _) | .freed _ (.joined target _) => some target
  | _ => none

/-- The thread is in `thrd_exit` or past it. -/
def Phase.exits : Phase → Bool
  | .find _ _ | .take _ _ | .store _ _ | .stop _ => true
  | phase => phase.stopped

/-- The block that a thread has reserved for a new one. -/
def Phase.claims : Phase → Option Nat
  | .clear index | .split index | .free index .failed | .freed index .failed => some index
  | .errnoFind index _ | .errnoTake index _ | .errnoStore index _ | .refused index => some index
  | _ => none

/-- A block is reserved by a thread that creates another one, or for a thread that is live
or whose join has not returned. -/
def Reserved (state : State) (index : Nat) : User → Prop
  | .none => False
  | .claimed creator => (state.phase creator).claims = some index
  | .thread thread =>
      state.blockOf thread = some index ∧ ¬(state.phase thread = .exited ∧ state.join thread = .returned)

/-- The steps of two threads lead to the return of the join of one by the other, with the
value that was passed to `thrd_exit`. -/
def Returns (state : State) (joiner target : Nat) : Prop :=
  ∃ res events last, state.passed target = some res ∧
    (∀ event ∈ events, event = .tick target ∨ event = .tick joiner) ∧
    run step state events = some last ∧ last.outcome target = some (some res)

/-- What is expected of joins and blocks. -/
structure JoinsRight (state : State) : Prop where
  results : ∀ target outcome, state.outcome target = some outcome →
    ∃ res, state.passed target = some res ∧ outcome = some res
  returns : ∀ joiner target, (state.phase joiner).joins = some target → (state.phase target).exits = true →
    Returns state joiner target
  exclusive : ∀ index first second, Reserved state index first → Reserved state index second → first = second

variable {state : State} {user : Nat → User} {thread : Nat}

/-- A reserved block is the one of its user. -/
theorem Kept.user_of_reserved {index : Nat} {reserver : User} (kept : Kept state user)
    (reserved : Reserved state index reserver) : user index = reserver := by
  cases reserver with
  | none => exact reserved.elim
  | thread holder => exact (kept.home_of_blockOf reserved.1 reserved.2).2
  | claimed creator =>
    have claims : (state.phase creator).claims = some index := reserved
    cases is : state.phase creator with
    | clear place | split place =>
      rw [is] at claims
      obtain rfl := Option.some.inj claims
      exact (kept.fits_at is).2.1
    | errnoFind | errnoTake | errnoStore | refused => exact (kept.fits_at is).elim
    | free _ after | freed _ after =>
      rw [is] at claims
      cases after with
      | failed => exact (kept.fits_at is).elim
      | _ => exact nomatch claims
    | _ =>
      rw [is] at claims
      exact nomatch claims

/-- The steps that are left before a thread has stopped. -/
def Phase.exitRank : Phase → Nat
  | .find index _ => 4 + (maxThrd - index)
  | .take _ _ => 3
  | .store _ _ => 2
  | .stop _ => 1
  | _ => 0

/-- The steps that are left before a join returns. -/
def Phase.joinRank : Phase → Nat
  | .look _ _ => 7
  | .hold _ _ => 6
  | .wait _ _ => 5
  | .read _ _ => 4
  | .release _ _ _ => 3
  | .free _ _ => 2
  | .freed _ _ => 1
  | _ => 0

/-- The join of a thread that exits is under way. -/
structure Underway (joiner target : Nat) (res : Int) (state : State) : Prop where
  kept : ∃ user, Kept state user
  joins : (state.phase joiner).joins = some target
  exits : (state.phase target).exits = true
  passed : state.passed target = some res

/-- The steps that are left before the join returns. -/
def rank (joiner target : Nat) (state : State) : Nat :=
  (state.phase target).exitRank + (state.phase joiner).joinRank

/-- A thread that joins is not in its exit. -/
theorem Underway.different {joiner target : Nat} {res : Int} (underway : Underway joiner target res state) :
    joiner ≠ target := by
  rintro rfl
  have joins := underway.joins
  have exits := underway.exits
  unfold Phase.joins at joins
  split at joins <;> simp_all [Phase.exits, Phase.stopped]

/-- Most steps need no care. -/
theorem careful_tick {place : Phase} (is : state.phase thread = place) (dropping : ∀ index, place ≠ .dropBase index)
    (reserving : ∀ index, place ≠ .reserve index) : Careful state (.tick thread) := by
  rw [Careful, is]
  cases place with
  | dropBase index => exact absurd rfl (dropping index)
  | reserve index => exact absurd rfl (reserving index)
  | _ => trivial

section Progress

variable {joiner target : Nat} {res : Int} {place next : Phase} {after : State}

/-- The thread goes on in its exit. -/
theorem Underway.advance_target (underway : Underway joiner target res state)
    (is : state.phase target = place) (careful : Careful state (.tick target))
    (taken : tick state target = some after) (phase : after.phase = Function.update state.phase target next)
    (passed : after.passed = state.passed) (exits : next.exits = true) (lower : next.exitRank < place.exitRank) :
    Underway joiner target res after ∧ rank joiner target after < rank joiner target state := by
  obtain ⟨user, kept⟩ := underway.kept
  have here : after.phase target = next := by
    rw [phase, Function.update_self]
  have there : after.phase joiner = state.phase joiner := by
    rw [phase, Function.update_of_ne underway.different]
  constructor
  · refine ⟨kept.tick careful taken, ?_, ?_, ?_⟩
    · rw [there]
      exact underway.joins
    · rw [here]
      exact exits
    · rw [passed]
      exact underway.passed
  · rw [rank, rank, here, there, is]
    exact Nat.add_lt_add_right lower _

/-- The join goes on. -/
theorem Underway.advance_joiner (underway : Underway joiner target res state)
    (is : state.phase joiner = place) (careful : Careful state (.tick joiner))
    (taken : tick state joiner = some after) (phase : after.phase = Function.update state.phase joiner next)
    (passed : after.passed = state.passed) (joins : next.joins = some target)
    (lower : next.joinRank < place.joinRank) :
    Underway joiner target res after ∧ rank joiner target after < rank joiner target state := by
  obtain ⟨user, kept⟩ := underway.kept
  have here : after.phase joiner = next := by
    rw [phase, Function.update_self]
  have there : after.phase target = state.phase target := by
    rw [phase, Function.update_of_ne underway.different.symm]
  constructor
  · refine ⟨kept.tick careful taken, ?_, ?_, ?_⟩
    · rw [here]
      exact joins
    · rw [there]
      exact underway.exits
    · rw [passed]
      exact underway.passed
  · rw [rank, rank, here, there, is]
    exact Nat.add_lt_add_left lower _

/-- A thread that has not stopped goes on in its exit. -/
theorem Underway.exit_step (underway : Underway joiner target res state)
    (unstopped : (state.phase target).stopped = false) :
    ∃ after, tick state target = some after ∧
      Underway joiner target res after ∧ rank joiner target after < rank joiner target state := by
  obtain ⟨user, kept⟩ := underway.kept
  have exits := underway.exits
  unfold Phase.exits at exits
  split at exits
  · rename_i index value is
    obtain ⟨⟨home, isHome, before⟩, _⟩ := kept.fits_at is
    have small : index < maxThrd := Nat.lt_of_le_of_lt before (kept.bounded target home isHome.1)
    by_cases found : (state.blocks index).id = target ∧ (state.blocks index).ref ≠ 0
    · have taken : tick state target = some (state.enter target (.take index value)) := by
        rw [tick, is]
        dsimp only
        rw [if_pos small, if_pos found]
      refine ⟨_, taken, underway.advance_target is (careful_tick is nofun nofun) taken rfl rfl rfl ?_⟩
      exact Nat.lt_add_right _ (Nat.lt_succ_self 3)
    · have taken : tick state target = some (state.enter target (.find (index + 1) value)) := by
        rw [tick, is]
        dsimp only
        rw [if_pos small, if_neg found]
      refine ⟨_, taken, underway.advance_target is (careful_tick is nofun nofun) taken rfl rfl rfl ?_⟩
      show 4 + (maxThrd - (index + 1)) < 4 + (maxThrd - index)
      omega
  · rename_i index value is
    have taken : tick state target =
        some ((state.edit index Block.addRef).enter target (.store index value)) := by
      rw [tick, is]
    exact ⟨_, taken, underway.advance_target is (careful_tick is nofun nofun) taken rfl rfl rfl (Nat.le_refl _)⟩
  · rename_i index value is
    have taken : tick state target = some ((state.edit index fun block =>
        { block with result := (value % 256).toNat }).enter target (.stop index)) := by
      rw [tick, is]
    exact ⟨_, taken, underway.advance_target is (careful_tick is nofun nofun) taken rfl rfl rfl (Nat.le_refl _)⟩
  · rename_i index is
    have taken : tick state target = some ((state.edit index fun block =>
        { block with running := false }).enter target (.drop index)) := by
      rw [tick, is]
    exact ⟨_, taken, underway.advance_target is (careful_tick is nofun nofun) taken rfl rfl rfl (Nat.le_refl _)⟩
  · exact nomatch unstopped.symm.trans exits

/-- The join of a thread that has stopped goes on, or it returns. -/
theorem Underway.join_step (underway : Underway joiner target res state)
    (stopped : (state.phase target).stopped = true) :
    ∃ after, tick state joiner = some after ∧ (after.outcome target = some (some res) ∨
      Underway joiner target res after ∧ rank joiner target after < rank joiner target state) := by
  obtain ⟨user, kept⟩ := underway.kept
  have joins := underway.joins
  have report (value : Int) (passed : state.passed target = some value) : value = res :=
    Option.some.inj (passed.symm.trans underway.passed)
  unfold Phase.joins at joins
  split at joins
  · rename_i goal index is
    obtain rfl := Option.some.inj joins
    have taken : tick state joiner = some (state.enter joiner (.hold goal index)) := by
      rw [tick, is]
      exact if_neg (kept.look_found is)
    exact ⟨_, taken, .inr (underway.advance_joiner is (careful_tick is nofun nofun) taken rfl rfl rfl (Nat.le_refl _))⟩
  · rename_i goal index is
    obtain rfl := Option.some.inj joins
    have taken : tick state joiner = some (((state.edit index Block.addRef).setJoin goal (.holding joiner)).enter
        joiner (.wait goal index)) := by
      rw [tick, is]
    exact ⟨_, taken, .inr (underway.advance_joiner is (careful_tick is nofun nofun) taken rfl rfl rfl (Nat.le_refl _))⟩
  · rename_i goal index is
    obtain rfl := Option.some.inj joins
    obtain ⟨_, holding, home⟩ := kept.fits_at is
    obtain ⟨_, runs, _, _⟩ := kept.home_block home
    have clear : (state.blocks index).running = false := by
      rw [(runs (kept.births goal (holding ▸ nofun))).1, stopped]
      rfl
    have taken : tick state joiner = some (state.enter joiner (.read goal index)) := by
      rw [tick, is]
      exact if_neg (clear ▸ nofun)
    exact ⟨_, taken, .inr (underway.advance_joiner is (careful_tick is nofun nofun) taken rfl rfl rfl (Nat.le_refl _))⟩
  · rename_i goal index is
    obtain rfl := Option.some.inj joins
    have taken : tick state joiner =
        some (state.enter joiner (.release goal index (state.blocks index).result)) := by
      rw [tick, is]
    exact ⟨_, taken, .inr (underway.advance_joiner is (careful_tick is nofun nofun) taken rfl rfl rfl (Nat.le_refl _))⟩
  · rename_i goal index value is
    obtain rfl := Option.some.inj joins
    by_cases last : (state.blocks index).ref ≤ 1
    · have taken : tick state joiner = some (((state.edit index Block.subRef).setJoin goal (.leaving joiner)).enter
          joiner (.free index (.joined goal value))) := by
        rw [tick, is]
        exact if_pos last
      refine ⟨_, taken, .inr ?_⟩
      exact underway.advance_joiner is (careful_tick is nofun nofun) taken rfl rfl rfl (Nat.le_refl _)
    · have taken : tick state joiner =
          some (((state.edit index Block.subRef).report goal (some value)).enter joiner .body) := by
        rw [tick, is]
        exact if_neg last
      obtain ⟨_, _, _, _, passed⟩ := kept.fits_at is
      obtain rfl := report value passed
      exact ⟨_, taken, .inl (Function.update_self ..)⟩
  · rename_i index goal value is
    obtain rfl := Option.some.inj joins
    have taken : tick state joiner = some ((state.edit index fun block =>
        { block with running := false }).enter joiner (.freed index (.joined goal value))) := by
      rw [tick, is]
    exact ⟨_, taken, .inr (underway.advance_joiner is (careful_tick is nofun nofun) taken rfl rfl rfl (Nat.le_refl _))⟩
  · rename_i index goal value is
    obtain rfl := Option.some.inj joins
    have taken : tick state joiner = some (((state.edit index fun block =>
        { block with ref := 0 }).report goal (some value)).enter joiner .body) := by
      rw [tick, is]
    obtain ⟨_, _, _, _, passed⟩ := kept.fits_at is
    obtain rfl := report value passed
    exact ⟨_, taken, .inl (Function.update_self ..)⟩
  · exact nomatch joins

end Progress

/-- A thread that exits has passed a value. -/
theorem Kept.passed_of_exits {index : Nat} (kept : Kept state user) (home : Home state user thread index)
    (exits : (state.phase thread).exits = true) : ∃ res, state.passed thread = some res := by
  have stored (stored : (state.phase thread).stored = true) : ∃ res, state.passed thread = some res := by
    obtain ⟨_, _, _, stores⟩ := kept.home_block home
    obtain ⟨res, passed, _⟩ := stores stored
    exact ⟨res, passed⟩
  unfold Phase.exits at exits
  split at exits
  · rename_i is
    exact ⟨_, (kept.fits_at is).2.1.1⟩
  · rename_i is
    exact ⟨_, (kept.fits_at is).2.1⟩
  · rename_i is
    exact ⟨_, (kept.fits_at is).2.1⟩
  · rename_i is
    exact stored (is ▸ rfl)
  · exact stored (Phase.stored_of_stopped exits)

/-- A thread that is joined has its block. -/
theorem Kept.joined_home {joiner target : Nat} (kept : Kept state user)
    (joins : (state.phase joiner).joins = some target) : ∃ index, Home state user target index := by
  unfold Phase.joins at joins
  split at joins
  · rename_i is
    obtain rfl := Option.some.inj joins
    exact ⟨_, (kept.fits_at is).2.2⟩
  · rename_i is
    obtain rfl := Option.some.inj joins
    exact ⟨_, (kept.fits_at is).2.2⟩
  · rename_i is
    obtain rfl := Option.some.inj joins
    exact ⟨_, (kept.fits_at is).2.2⟩
  · rename_i is
    obtain rfl := Option.some.inj joins
    exact ⟨_, (kept.fits_at is).2.2.1⟩
  · rename_i is
    obtain rfl := Option.some.inj joins
    exact ⟨_, (kept.fits_at is).2.2.1⟩
  · rename_i is
    obtain rfl := Option.some.inj joins
    exact ⟨_, (kept.fits_at is).2.2.1⟩
  · rename_i is
    obtain rfl := Option.some.inj joins
    exact ⟨_, (kept.fits_at is).2.2.1⟩
  · exact nomatch joins

/-- The join of a thread that exits returns. -/
theorem Kept.returns {joiner target : Nat} (kept : Kept state user)
    (joins : (state.phase joiner).joins = some target) (exits : (state.phase target).exits = true) :
    Returns state joiner target := by
  obtain ⟨index, home⟩ := kept.joined_home joins
  obtain ⟨res, passed⟩ := kept.passed_of_exits home exits
  -- The thread goes first, until its flag is cleared.
  have lowers (state : State) (underway : Underway joiner target res state) :
      ∃ event next, (event = Event.tick target ∨ event = .tick joiner) ∧
        ThreadBlocks.step state event = some next ∧
        (next.outcome target = some (some res) ∨
          Underway joiner target res next ∧ rank joiner target next < rank joiner target state) := by
    cases stopped : (state.phase target).stopped with
    | false =>
      obtain ⟨next, taken, lower⟩ := underway.exit_step stopped
      exact ⟨.tick target, next, .inl rfl, taken, .inr lower⟩
    | true =>
      obtain ⟨next, taken, goes⟩ := underway.join_step stopped
      exact ⟨.tick joiner, next, .inr rfl, taken, goes⟩
  obtain ⟨events, last, among, reached, outcome⟩ :=
    reaches_of_rank lowers state ⟨⟨user, kept⟩, joins, exits, passed⟩
  exact ⟨res, events, last, passed, among, reached, outcome⟩

/-- The invariant gives what is expected. -/
theorem Kept.joinsRight (kept : Kept state user) : JoinsRight state := by
  constructor
  · intro target outcome reported
    obtain ⟨_, _, result⟩ := kept.outcomes target outcome reported
    exact result
  · intro joiner target joins exits
    exact kept.returns joins exits
  · intro index first second firstReserved secondReserved
    exact (kept.user_of_reserved firstReserved).symm.trans (kept.user_of_reserved secondReserved)

/-- At the start the first block is reserved for the first thread. -/
def initialUser (index : Nat) : User := if index = 0 then .thread 0 else .none

/-- The places at the start. -/
theorem initial_phase {thread : Nat} (other : thread ≠ 0) : initial.phase thread = .absent := if_neg other

/-- The invariant holds at the start. -/
theorem initial_kept : Kept initial initialUser := by
  have main : initial.phase 0 = .body := rfl
  constructor
  · intro thread
    by_cases isMain : thread = 0
    · subst isMain
      exact ⟨0, rfl, rfl⟩
    · rw [initial_phase isMain]
      exact ⟨if_neg isMain, rfl, rfl⟩
  · intro index
    by_cases isFirst : index = 0
    · subst isFirst
      exact ⟨rfl, nofun, nofun, nofun⟩
    · have unused : initial.blocks index = ⟨0, false, 0, 0⟩ := if_neg isFirst
      rw [unused, initialUser, if_neg isFirst]
      rfl
  · intro index thread reserved
    by_cases isFirst : index = 0
    · subst isFirst
      obtain rfl : 0 = thread := User.thread.inj reserved
      rfl
    · rw [initialUser, if_neg isFirst] at reserved
      exact nomatch reserved
  · rintro index thread _ ⟨_, returned⟩
    exact nomatch returned
  · exact nofun
  · intro thread notMain _
    exact initial_phase notMain
  · intro index thread same notMain _
    by_cases isFirst : index = 0
    · subst isFirst
      exact absurd same.symm notMain
    · have unused : initial.blocks index = ⟨0, false, 0, 0⟩ := if_neg isFirst
      rw [unused] at same
      exact absurd same.symm notMain
  · intro thread joined
    exact absurd rfl joined
  · intro thread index blockOf
    by_cases isMain : thread = 0
    · subst isMain
      obtain rfl : 0 = index := Option.some.inj blockOf
      decide
    · have none : initial.blockOf thread = none := if_neg isMain
      exact nomatch none.symm.trans blockOf
  · exact nofun
  · exact nofun
  · exact initial_phase (by decide)

/-- In every careful run, every join that returns gives the value that its thread passed
to `thrd_exit`, every join of a thread that exits returns, and every block is reserved for
at most one thread that is live or unjoined. -/
theorem joins_give_results (events : List Event) (careful : Each step initial Careful events) :
    Always step initial JoinsRight events := by
  have kept : Always step initial (fun state => ∃ user, Kept state user) events := by
    refine always_of_each ⟨initialUser, initial_kept⟩ ?_ events careful
    rintro state event next ⟨user, kept⟩ isCareful taken
    exact kept.step isCareful taken
  intro beginning state inside reached
  obtain ⟨user, keptNow⟩ := kept beginning state inside reached
  exact keptNow.joinsRight

/-- The first thread creates a thread. -/
def creation : List Event := [.create 0, .tick 0, .tick 0, .tick 0, .split 0 (some 1), .tick 0, .tick 1]

/-- The new thread exits with 5, up to its second `_ThrdBlockUnref`. -/
def ending : List Event := [.exit 1 5, .tick 1, .tick 1, .tick 1, .tick 1, .tick 1, .tick 1, .tick 1]

/-- The first thread joins before the new one exits. -/
def earlyJoin : List Event :=
  creation ++ [.join 0 1, .tick 0, .tick 0] ++ ending ++ [.tick 0, .tick 0, .tick 0, .tick 0, .tick 0]

/-- The first thread joins after the new one has exited and freed its block. -/
def lateJoin : List Event := creation ++ ending ++ [.tick 1, .tick 1, .join 0 1, .tick 0]

/-- The early join is careful. -/
theorem early_join_careful : Each step initial Careful earlyJoin := by
  refine each_cons trivial rfl ?_
  refine each_cons (fun _ used => nomatch used) rfl ?_
  refine each_cons ?_ rfl ?_
  · intro _ _ other after
    by_cases isMain : other = 0
    · rw [isMain]
      exact ⟨nofun, nofun⟩
    · have absent : ((initial.enter 0 (.reserve 0)).enter 0 (.reserve 1)).phase other = .absent := by
        rw [State.enter_of_ne _ _ isMain, State.enter_of_ne _ _ isMain]
        exact initial_phase isMain
      constructor
      · exact fun freeing => nomatch absent.symm.trans freeing
      · exact fun freeing => nomatch absent.symm.trans freeing
  -- The thread is created and the join takes its reference.
  refine each_cons trivial rfl <| each_cons trivial rfl <| each_cons trivial rfl <| each_cons trivial rfl ?_
  refine each_cons trivial rfl <| each_cons trivial rfl <| each_cons trivial rfl ?_
  -- The thread exits. Its last step drops the base reference.
  refine each_cons ⟨by decide, by decide⟩ rfl <| each_cons trivial rfl <| each_cons trivial rfl ?_
  refine each_cons trivial rfl <| each_cons trivial rfl <| each_cons trivial rfl ?_
  refine each_cons trivial rfl <| each_cons rfl rfl ?_
  -- The join goes on and frees the block.
  refine each_cons trivial rfl <| each_cons trivial rfl <| each_cons trivial rfl ?_
  exact each_cons trivial rfl <| each_cons trivial rfl each_nil

/-- The early join gives 5. -/
theorem early_join_right : (run step initial earlyJoin).map (fun state => state.outcome 1) = some (some (some 5)) ∧
    Always step initial JoinsRight earlyJoin :=
  ⟨rfl, joins_give_results earlyJoin early_join_careful⟩

/-- The first thread fails to split off a third thread: the count of the block of the second one,
which runs, is cleared. -/
example : (run step initial (creation ++ [.create 0, .tick 0, .tick 0, .tick 0, .tick 0, .split 0 none, .tick 0,
    .tick 0, .tick 0])).map (fun state => ((state.blocks 1).ref, state.phase 1)) = some (0, .body) := rfl

/-- The late join returns `thrd_error` although the thread has passed 5. -/
theorem late_join_fails : ¬Always step initial JoinsRight lateJoin := by
  intro always
  have ends : (run step initial lateJoin).map (fun state => state.outcome 1) = some (some none) := rfl
  obtain ⟨last, reached, outcome⟩ := Option.map_eq_some_iff.mp ends
  obtain ⟨res, _, gives⟩ := (always lateJoin last (List.prefix_refl _) reached).results 1 none outcome
  exact nomatch gives

end Asym.ThreadBlocks
