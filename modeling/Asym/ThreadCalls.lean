import Asym.ThreadSteps

/-!
# Creation, exit and joins

The steps that create a thread, begin its exit, or take its join further keep the
reservations, so every careful step does.
-/

namespace Asym.ThreadBlocks

open EventRuns

variable {state : State} {user : Nat → User} {thread : Nat}

/-- A thread that has exited has a join with a reference. -/
theorem Kept.exited_taken {target : Nat} (kept : Kept state user) (exited : state.phase target = .exited) :
    (state.join target).taken = true := by
  rcases kept.fits_at exited with returned | ⟨⟨joiner, holding | leaving⟩, _⟩
  · exact returned ▸ rfl
  · exact holding ▸ rfl
  · exact leaving ▸ rfl

/-- A call of `thrd_join`. -/
theorem Kept.join {target index : Nat} (kept : Kept state user) (is : state.phase thread = .body)
    (blockOf : state.blockOf target = some index) (created : state.birth target = .created)
    (unjoined : state.join target = .none) :
    Kept ((state.setJoin target (.seeking thread)).enter thread (.look target index)) user := by
  have home : Home state user target index := by
    apply kept.home_of_blockOf blockOf
    rintro ⟨_, returned⟩
    exact nomatch unjoined.symm.trans returned
  have turns : Turns thread target index (.look target index) (.seeking thread) (state.blocks index) state
      ((state.setJoin target (.seeking thread)).enter thread (.look target index)) :=
    ⟨(Function.update_eq_self ..).symm, rfl, rfl, rfl, rfl, rfl, fun _ _ same => .inl same⟩
  apply kept.turn _ turns (Yields.same ..)
  · intro _ exited
    exact nomatch unjoined ▸ kept.exited_taken exited
  · exact ⟨kept.fits_at is, Function.update_self .., home⟩
  · rw [home.2]
    apply (kept.home_block home).turn turns
    · exact is ▸ ⟨rfl, rfl, rfl⟩
    · rw [unjoined]
      rfl
    · rfl
    · rfl
    · rfl
  · rfl
  · exact fun _ => nofun
  · exact kept.pursues is nofun nofun rfl ⟨rfl, rfl, rfl⟩ nofun home created (.inl unjoined) nofun nofun

/-- `_ThrdBlockByIndex` finds the block of a thread that was not joined before in use. -/
theorem Kept.look_found {target index : Nat} (kept : Kept state user)
    (is : state.phase thread = .look target index) : ¬(maxThrd ≤ index ∨ (state.blocks index).ref = 0) := by
  obtain ⟨_, seeking, home⟩ := kept.fits_at is
  have count := (kept.home_block home).1
  rw [seeking] at count
  rintro (large | unused)
  · exact Nat.not_lt.mpr large (kept.bounded target index home.1)
  · rw [unused] at count
    have none : 0 = (state.phase target).own + 0 := count
    rcases (state.phase target).own_cases with own | absent | exited | ⟨place, freeing | freeing⟩
    · omega
    · exact nomatch (kept.fits_at absent).1.symm.trans home.1
    · exact nomatch seeking ▸ kept.exited_taken exited
    · exact nomatch seeking.symm.trans (kept.fits_at freeing).2
    · exact nomatch seeking.symm.trans (kept.fits_at freeing).2

/-- `_ThrdBlockRef` in `_ThrdBlockByIndex`. -/
theorem Kept.hold {target index : Nat} (kept : Kept state user) (is : state.phase thread = .hold target index) :
    Kept (((state.edit index Block.addRef).setJoin target (.holding thread)).enter thread (.wait target index))
      user := by
  obtain ⟨housed, seeking, home⟩ := kept.fits_at is
  have created := kept.births target (seeking ▸ nofun)
  have turns : Turns thread target index (.wait target index) (.holding thread) (state.blocks index).addRef state
      (((state.edit index Block.addRef).setJoin target (.holding thread)).enter thread (.wait target index)) :=
    ⟨rfl, rfl, rfl, rfl, rfl, rfl, fun _ _ same => .inl same⟩
  apply kept.turn _ turns (Yields.same ..)
  · intro _ exited
    exact nomatch seeking ▸ kept.exited_taken exited
  · exact ⟨housed, Function.update_self .., home⟩
  · rw [home.2]
    apply (kept.home_block home).turn turns
    · exact is ▸ ⟨rfl, rfl, rfl⟩
    · rw [seeking]
      exact Int.add_zero _
    · rfl
    · rfl
    · rfl
  · rfl
  · exact fun _ => nofun
  · exact kept.pursues is nofun nofun rfl ⟨rfl, rfl, rfl⟩ nofun home created (.inr (seeking ▸ rfl)) nofun nofun

/-- The reports of joins, with one more. -/
theorem report_outcome {target other : Nat} {value : Int} {result : Option Int}
    (stopped : (state.phase target).stopped = true) (passed : state.passed target = some value)
    (is : Function.update state.outcome target (some (some value)) other = some result) :
    state.outcome other = some result ∨ other = target ∧ Join.returned = Join.returned ∧
      (state.phase target).stopped = true ∧ ∃ res, state.passed target = some res ∧ result = some res := by
  by_cases isTarget : other = target
  · subst isTarget
    rw [Function.update_self] at is
    exact .inr ⟨rfl, rfl, stopped, value, passed, (Option.some.inj is).symm⟩
  · rw [Function.update_of_ne isTarget] at is
    exact .inl is

/-- The join drops its reference while the thread still has one. -/
theorem Kept.release_more {target index : Nat} {value : Int} (kept : Kept state user)
    (is : state.phase thread = .release target index value) (more : ¬(state.blocks index).ref ≤ 1) :
    Kept (((state.edit index Block.subRef).report target (some value)).enter thread .body) user := by
  obtain ⟨housed, holding, home, stopped, passed⟩ := kept.fits_at is
  have created := kept.births target (holding ▸ nofun)
  have count := (kept.home_block home).1
  rw [holding] at count
  have unexited : state.phase target ≠ .exited := by
    intro exited
    rw [exited] at count
    exact more (Int.le_of_eq count)
  have turns : Turns thread target index .body .returned (state.blocks index).subRef state
      (((state.edit index Block.subRef).report target (some value)).enter thread .body) :=
    ⟨rfl, rfl, rfl, rfl, rfl, rfl, fun _ _ same => report_outcome stopped passed same⟩
  apply kept.turn _ turns (Yields.same ..)
  · intro _ exited
    exact absurd exited unexited
  · exact housed
  · rw [home.2]
    apply (kept.home_block home).turn turns
    · exact is ▸ ⟨rfl, rfl, rfl⟩
    · rw [holding]
      show (state.blocks index).ref - 1 + 1 = (state.blocks index).ref + 0
      omega
    · rfl
    · rfl
    · rfl
  · rfl
  · intro _ ended
    exact unexited ended.1
  · exact kept.pursues is nofun nofun rfl ⟨rfl, rfl, rfl⟩ nofun home created (.inr (holding ▸ rfl)) nofun nofun

/-- The join drops the last reference. -/
theorem Kept.release_last {target index : Nat} {value : Int} (kept : Kept state user)
    (is : state.phase thread = .release target index value) (last : (state.blocks index).ref ≤ 1) :
    Kept (((state.edit index Block.subRef).setJoin target (.leaving thread)).enter thread
      (.free index (.joined target value))) user := by
  obtain ⟨housed, holding, home, stopped, passed⟩ := kept.fits_at is
  have created := kept.births target (holding ▸ nofun)
  have count := (kept.home_block home).1
  rw [holding] at count
  have own : (state.phase target).own ≤ 0 := Int.le_of_add_le_add_right (count ▸ last : _ + (1 : Int) ≤ 0 + 1)
  have exited : state.phase target = .exited := by
    rcases (state.phase target).own_cases with some | absent | exited | ⟨place, freeing | freeing⟩
    · omega
    · rw [absent] at stopped
      exact nomatch stopped
    · exact exited
    · exact nomatch holding.symm.trans (kept.fits_at freeing).2
    · exact nomatch holding.symm.trans (kept.fits_at freeing).2
  have different : target ≠ thread := by
    rintro rfl
    exact nomatch is.symm.trans exited
  have turns : Turns thread target index (.free index (.joined target value)) (.leaving thread)
      (state.blocks index).subRef state
      (((state.edit index Block.subRef).setJoin target (.leaving thread)).enter thread
        (.free index (.joined target value))) :=
    ⟨rfl, rfl, rfl, rfl, rfl, rfl, fun _ _ same => .inl same⟩
  apply kept.turn _ turns (Yields.same ..)
  · intro _ _
    exact .inr ⟨⟨thread, .inr (Function.update_self ..)⟩, index, home⟩
  · refine ⟨housed, Function.update_self .., home, ?_, passed⟩
    exact (State.enter_of_ne _ _ different).trans exited
  · rw [home.2]
    apply (kept.home_block home).turn turns
    · exact is ▸ ⟨rfl, rfl, rfl⟩
    · rw [holding]
      show (state.blocks index).ref - 1 + 1 = (state.blocks index).ref + 0
      omega
    · rfl
    · rfl
    · rfl
  · rfl
  · exact fun _ => nofun
  · refine kept.pursues is nofun nofun rfl ⟨rfl, rfl, rfl⟩ nofun home created (.inr (holding ▸ rfl)) nofun ?_
    rintro _ ⟨⟩
    exact ⟨rfl, rfl⟩

/-- The second store of `_ThrdBlockFree` in `thrd_join`. -/
theorem Kept.freed_joined {target index : Nat} {value : Int} (kept : Kept state user)
    (is : state.phase thread = .freed index (.joined target value)) :
    Kept (((state.edit index fun block => { block with ref := 0 }).report target (some value)).enter thread .body)
      (Function.update user index .none) := by
  obtain ⟨⟨own, ownHome⟩, leaving, home, exited, passed⟩ := kept.fits_at is
  have created := kept.births target (leaving ▸ nofun)
  have different : thread ≠ target := by
    rintro rfl
    exact nomatch is.symm.trans exited
  have notOwn : user index ≠ .thread thread := by
    rw [home.2]
    rintro ⟨⟩
    exact different rfl
  have turns : Turns thread target index .body .returned { state.blocks index with ref := 0 } state
      (((state.edit index fun block => { block with ref := 0 }).report target (some value)).enter thread .body) :=
    ⟨rfl, rfl, rfl, rfl, rfl, rfl, fun _ _ same => report_outcome (exited ▸ rfl) passed same⟩
  apply kept.turn _ turns
  · exact Yields.update (.inl rfl) (.inr (.inr ⟨target, home.2, rfl, exited, rfl⟩))
  · intro _ _
    exact .inl (Function.update_self ..)
  · exact ⟨own, ownHome.update notOwn⟩
  · rw [Function.update_self]
    rfl
  · rfl
  · intro reserved
    rw [Function.update_self] at reserved
    exact nomatch reserved
  · refine kept.pursues is nofun nofun rfl ⟨rfl, rfl, rfl⟩ nofun home created (.inr (leaving ▸ rfl)) ?_ nofun
    rintro _ ⟨⟩
    rfl

/-- A call of `thrd_exit`. -/
def State.exiting (state : State) (thread : Nat) (res : Int) : State :=
  { state with passed := Function.update state.passed thread (some res) }.enter thread (.find 0 res)

/-- A call of `thrd_exit` keeps the invariant. -/
theorem Kept.exit {res : Int} (kept : Kept state user) (is : state.phase thread = .body) (notMain : thread ≠ 0)
    (nonnegative : 0 ≤ res) (small : res < 256) : Kept (state.exiting thread res) user := by
  have walks : Walks state thread (.find 0 res) := kept.walks is nofun nofun nofun nofun rfl
  have passed_of_ne (other : Nat) (different : other ≠ thread) :
      (state.exiting thread res).passed other = state.passed other := Function.update_of_ne different ..
  have leaves : Leaves thread state (state.exiting thread res) user user :=
    leaves_of_same rfl rfl rfl rfl passed_of_ne walks.live walks.launched (is ▸ nofun)
      (Yields.same thread 0 (Ends state thread) user)
  have phase_of_ne (other : Nat) (different : other ≠ thread) :
      (state.exiting thread res).phase other = state.phase other := State.enter_of_ne _ _ different
  have here : (state.exiting thread res).phase thread = .find 0 res := State.enter_self ..
  have profile (holder : Nat) : SameProfile (state.phase holder) ((state.exiting thread res).phase holder) :=
    SameProfile.enter (is ▸ ⟨rfl, rfl, rfl⟩) holder
  constructor
  · apply kept.fits_after leaves
    · rw [here]
      obtain ⟨home, isHome⟩ := kept.fits_at is
      exact ⟨⟨home, isHome, Nat.zero_le _⟩, ⟨Function.update_self .., nonnegative, small⟩, notMain⟩
    · intro other different isAbsent
      have fitBefore := kept.fits_at isAbsent
      rw [phase_of_ne other different, isAbsent]
      exact fitBefore
  · intro index
    apply (kept.blocks index).of_same
    · intro creator _ splits
      by_cases isThread : creator = thread
      · rw [isThread, here] at splits
        exact nomatch splits
      · exact phase_of_ne creator isThread ▸ splits
    · intro holder _
      exact profile holder
    · intro _ _
      exact ⟨rfl, rfl⟩
    · intro holder _ stored
      apply passed_of_ne
      rintro rfl
      rw [is] at stored
      exact nomatch stored
  · exact kept.owned
  · rintro index holder reserved ⟨exited, returned⟩
    have different : holder ≠ thread := by
      rintro rfl
      exact nomatch here.symm.trans exited
    rw [phase_of_ne holder different] at exited
    exact kept.unfinished index holder reserved ⟨exited, returned⟩
  · exact kept.unlaunched_after phase_of_ne walks.launched fun _ _ launching => launching
  · exact kept.unborn_after phase_of_ne walks.present fun _ unborn => unborn
  · exact kept.ids
  · exact kept.births
  · exact kept.bounded
  · exact kept.leaving_after phase_of_ne (is ▸ rfl)
  · intro other outcome reported
    obtain ⟨returned, stopped, rest⟩ := kept.outcomes other outcome reported
    obtain ⟨stoppedAfter, same⟩ := leaves.stopped other stopped
    rw [same]
    exact ⟨returned, stoppedAfter, rest⟩
  · exact kept.valid_after phase_of_ne walks.present

/-- The end of `thrd_create`. -/
def State.launched (state : State) (thread index child : Nat) : State :=
  { state.edit index fun block => { block with id := child, running := true } with
    birth := Function.update state.birth child .created }.enter thread .body

/-- The end of `thrd_create` leaves everything else. -/
theorem Kept.launch_leaves {index child : Nat} (kept : Kept state user)
    (is : state.phase thread = .launch index child) :
    Leaves thread state (state.launched thread index child) user user := by
  obtain ⟨_, launching, _⟩ := kept.fits_at is
  have elsewhere (other : Nat) (different : other ≠ thread) :
      (state.launched thread index child).phase other = state.phase other := State.enter_of_ne _ _ different
  have unstopped {other : Nat} (stopped : (state.phase other).stopped = true) : other ≠ thread := by
    rintro rfl
    rw [is] at stopped
    exact nomatch stopped
  constructor
  · intro other different _
    exact elsewhere other different
  · exact fun _ _ _ _ home => home
  · exact fun _ _ _ claimed => claimed
  · intro other born place different isLaunching home
    refine ⟨?_, home⟩
    have notChild : born ≠ child := by
      rintro rfl
      exact different (Birth.launching.inj (isLaunching.symm.trans launching))
    exact (Function.update_of_ne notChild ..).trans isLaunching
  · exact fun _ _ _ _ _ home => ⟨rfl, home⟩
  · intro other stopped
    rw [elsewhere other (unstopped stopped)]
    exact ⟨stopped, rfl⟩
  · intro other exited
    rw [elsewhere other (unstopped (by rw [exited]; rfl))]
    exact exited
  · exact fun _ _ => rfl
  · exact fun _ returned => returned
  · exact fun _ _ _ fit => fit

/-- All blocks fit at the end of `thrd_create`. -/
theorem Kept.launch_blocks {index child : Nat} (kept : Kept state user)
    (is : state.phase thread = .launch index child) (other : Nat) :
    BlockFits (state.launched thread index child) other ((state.launched thread index child).blocks other)
      (user other) := by
  obtain ⟨_, launching, home⟩ := kept.fits_at is
  obtain ⟨place, entering⟩ := kept.unlaunched child thread launching
  have notChild : child ≠ thread := by
    rintro rfl
    cases is.symm.trans entering
  have entered : (state.launched thread index child).phase child = .entry place :=
    (State.enter_of_ne _ _ notChild).trans entering
  have born : (state.launched thread index child).birth child = .created := Function.update_self ..
  have block : (state.launched thread index child).blocks index =
      { state.blocks index with id := child, running := true } := Function.update_self ..
  revert other
  refine @Kept.blocks_after state user index (state.launched thread index child) user kept (fun _ _ => rfl)
    (fun _ different => Function.update_of_ne different ..) ?_ ?_ ?_ ?_ ?_
  · obtain ⟨count, _, _, _⟩ := kept.home_block home
    rw [entering] at count
    rw [home.2, block, BlockFits, entered, born]
    refine ⟨count, fun _ => ⟨rfl, rfl⟩, fun _ launching => ?_, fun stored => absurd stored Bool.false_ne_true⟩
    cases launching
  · intro other creator _ splits
    by_cases isThread : creator = thread
    · have body : (state.launched thread index child).phase thread = .body := State.enter_self ..
      rw [isThread, body] at splits
      cases splits
    · exact (State.enter_of_ne _ _ isThread).symm.trans splits
  · intro _ holder _ _
    exact SameProfile.enter (is ▸ ⟨rfl, rfl, rfl⟩) holder
  · intro other holder different reserved
    have otherChild : holder ≠ child := by
      rintro rfl
      exact different (Home.unique ⟨kept.owned other holder reserved, reserved⟩ home)
    exact ⟨rfl, Function.update_of_ne otherChild ..⟩
  · exact fun _ _ _ _ _ => rfl

/-- The end of `thrd_create` keeps the invariant. -/
theorem Kept.launch {index child : Nat} (kept : Kept state user)
    (is : state.phase thread = .launch index child) : Kept (state.launched thread index child) user := by
  obtain ⟨housed, launching, home⟩ := kept.fits_at is
  obtain ⟨place, entering⟩ := kept.unlaunched child thread launching
  have leaves := kept.launch_leaves is
  have walks : Walks state thread .body := kept.walks is nofun nofun nofun nofun rfl
  have phase_of_ne (other : Nat) (different : other ≠ thread) :
      (state.launched thread index child).phase other = state.phase other := State.enter_of_ne _ _ different
  have here : (state.launched thread index child).phase thread = .body := State.enter_self ..
  have birth_of_ne (other : Nat) (different : other ≠ child) :
      (state.launched thread index child).birth other = state.birth other := Function.update_of_ne different ..
  have born : (state.launched thread index child).birth child = .created := Function.update_self ..
  have block : (state.launched thread index child).blocks index =
      { state.blocks index with id := child, running := true } := Function.update_self ..
  have block_of_ne (other : Nat) (different : other ≠ index) :
      (state.launched thread index child).blocks other = state.blocks other := Function.update_of_ne different ..
  constructor
  · apply kept.fits_after leaves
    · rw [here]
      exact housed
    · intro other different isAbsent
      have fitBefore := kept.fits_at isAbsent
      have otherChild : other ≠ child := by
        rintro rfl
        cases isAbsent.symm.trans entering
      rw [phase_of_ne other different, isAbsent, Fits, birth_of_ne other otherChild]
      exact fitBefore
  · exact kept.launch_blocks is
  · exact kept.owned
  · rintro other holder reserved ⟨exited, returned⟩
    have different : holder ≠ thread := by
      rintro rfl
      cases here.symm.trans exited
    rw [phase_of_ne holder different] at exited
    exact kept.unfinished other holder reserved ⟨exited, returned⟩
  · apply kept.unlaunched_after phase_of_ne walks.launched
    intro other creator isLaunching
    have otherChild : other ≠ child := by
      rintro rfl
      cases born.symm.trans isLaunching
    exact birth_of_ne other otherChild ▸ isLaunching
  · apply kept.unborn_after phase_of_ne walks.present
    intro other unborn
    have otherChild : other ≠ child := by
      rintro rfl
      cases born.symm.trans unborn
    exact birth_of_ne other otherChild ▸ unborn
  · intro other owner same notMain notErr
    by_cases isIndex : other = index
    · subst isIndex
      rw [block] at same
      exact same ▸ home.1
    · rw [block_of_ne other isIndex] at same
      exact kept.ids other owner same notMain notErr
  · intro other joined
    by_cases isChild : other = child
    · rw [isChild]
      exact born
    · rw [birth_of_ne other isChild]
      exact kept.births other joined
  · exact kept.bounded
  · exact kept.leaving_after phase_of_ne (is ▸ rfl)
  · intro other outcome reported
    obtain ⟨returned, stopped, rest⟩ := kept.outcomes other outcome reported
    exact ⟨returned, (leaves.stopped other stopped).1, rest⟩
  · exact kept.valid_after phase_of_ne walks.present

/-- A thread is split off. -/
def State.divided (state : State) (thread index child : Nat) : State :=
  ({ state with
    blockOf := Function.update state.blockOf child (some index)
    birth := Function.update state.birth child (.launching thread) }.enter child (.entry index)).enter
      thread (.launch index child)

/-- The state after a thread is split off, seen from the old and the new thread and from
the others. -/
structure Divides (thread index child : Nat) (before after : State) : Prop where
  creator : after.phase thread = .launch index child
  entry : after.phase child = .entry index
  phase : ∀ other, other ≠ thread → other ≠ child → after.phase other = before.phase other
  birth : after.birth child = .launching thread
  births : ∀ other, other ≠ child → after.birth other = before.birth other
  blockOf : after.blockOf child = some index
  blocksOf : ∀ other, other ≠ child → after.blockOf other = before.blockOf other
  blocks : after.blocks = before.blocks
  join : after.join = before.join
  passed : after.passed = before.passed
  outcome : after.outcome = before.outcome

/-- The new thread is not the old one. -/
theorem State.divides {child : Nat} (different : child ≠ thread) (index : Nat) :
    Divides thread index child state (state.divided thread index child) := by
  constructor
  · exact State.enter_self ..
  · exact (State.enter_of_ne _ _ different).trans (State.enter_self ..)
  · intro other notThread notChild
    exact (State.enter_of_ne _ _ notThread).trans (State.enter_of_ne _ _ notChild)
  · exact Function.update_self ..
  · exact fun _ notChild => Function.update_of_ne notChild ..
  · exact Function.update_self ..
  · exact fun _ notChild => Function.update_of_ne notChild ..
  · rfl
  · rfl
  · rfl
  · rfl

section Splitting

variable {index child : Nat} {after : State}

/-- A thread that has a block is not the new one, and its block is not the one that was
reserved for the new one. -/
theorem Divides.home (divides : Divides thread index child state after) (claimed : user index = .claimed thread)
    (fresh : state.blockOf child = none) {other place : Nat} (home : Home state user other place) :
    Home after (Function.update user index (.thread child)) other place := by
  have notChild : other ≠ child := by
    rintro rfl
    exact nomatch fresh.symm.trans home.1
  refine ⟨(divides.blocksOf other notChild).trans home.1, ?_⟩
  have elsewhere : place ≠ index := by
    rintro rfl
    exact nomatch claimed.symm.trans home.2
  rw [Function.update_of_ne elsewhere]
  exact home.2

/-- A thread that is split off leaves everything else. -/
theorem Kept.divide_leaves (kept : Kept state user) (divides : Divides thread index child state after)
    (is : state.phase thread = .split index) (absent : state.phase child = .absent) :
    Leaves thread state after user (Function.update user index (.thread child)) := by
  obtain ⟨_, claimed, _⟩ := kept.fits_at is
  obtain ⟨fresh, _, unborn⟩ := kept.fits_at absent
  have notChild {other : Nat} (present : state.phase other ≠ .absent) : other ≠ child := by
    rintro rfl
    exact present absent
  have unstopped {other : Nat} (stopped : (state.phase other).stopped = true) :
      after.phase other = state.phase other := by
    apply divides.phase
    · rintro rfl
      rw [is] at stopped
      exact nomatch stopped
    · rintro rfl
      rw [absent] at stopped
      exact nomatch stopped
  constructor
  · intro other different present
    exact divides.phase other different (notChild present)
  · intro other place _ _ home
    exact divides.home claimed fresh home
  · intro other place different otherClaimed
    have elsewhere : place ≠ index := by
      rintro rfl
      exact different (User.claimed.inj (otherClaimed.symm.trans claimed))
    rw [Function.update_of_ne elsewhere]
    exact otherClaimed
  · intro other born place _ launching home
    have different : born ≠ child := by
      rintro rfl
      exact nomatch unborn.symm.trans launching
    exact ⟨(divides.births born different).trans launching, divides.home claimed fresh home⟩
  · intro other target place _ _ home
    rw [divides.join]
    exact ⟨rfl, divides.home claimed fresh home⟩
  · intro other stopped
    rw [unstopped stopped, divides.passed]
    exact ⟨stopped, rfl⟩
  · intro other exited
    rw [unstopped (by rw [exited]; rfl)]
    exact exited
  · intro other _
    rw [divides.passed]
  · intro other returned
    rw [divides.join]
    exact returned
  · intro other _ _ fit
    rw [Fits, divides.join]
    rcases fit with returned | ⟨joiner, place, home⟩
    · exact .inl returned
    · exact .inr ⟨joiner, place, divides.home claimed fresh home⟩

/-- What was reserved for another thread was so before the new thread was split off. -/
theorem reserved_before {place holder : Nat} (notChild : holder ≠ child)
    (reserved : Function.update user index (.thread child) place = .thread holder) :
    user place = .thread holder := by
  by_cases isIndex : place = index
  · subst isIndex
    rw [Function.update_self] at reserved
    exact absurd (User.thread.inj reserved).symm notChild
  · rw [Function.update_of_ne isIndex] at reserved
    exact reserved

/-- All threads are at places that fit after one is split off. -/
theorem Kept.divide_fits (kept : Kept state user) (divides : Divides thread index child state after)
    (is : state.phase thread = .split index) (absent : state.phase child = .absent) (other : Nat) :
    Fits after (Function.update user index (.thread child)) other (after.phase other) := by
  obtain ⟨⟨own, ownHome⟩, claimed, _⟩ := kept.fits_at is
  obtain ⟨fresh, _, _⟩ := kept.fits_at absent
  have childHome : Home after (Function.update user index (.thread child)) child index :=
    ⟨divides.blockOf, Function.update_self ..⟩
  apply kept.fits_after (kept.divide_leaves divides is absent)
  · rw [divides.creator]
    exact ⟨⟨own, divides.home claimed fresh ownHome⟩, divides.birth, childHome⟩
  · intro other different isAbsent
    by_cases isChild : other = child
    · rw [isChild, divides.entry]
      exact childHome
    · rw [divides.phase other different isChild, isAbsent, Fits, divides.blocksOf other isChild, divides.join,
        divides.births other isChild]
      exact kept.fits_at isAbsent

/-- All blocks fit after a thread is split off. -/
theorem Kept.divide_blocks (kept : Kept state user) (divides : Divides thread index child state after)
    (is : state.phase thread = .split index) (absent : state.phase child = .absent) (other : Nat) :
    BlockFits after other (after.blocks other) (Function.update user index (.thread child) other) := by
  obtain ⟨_, claimed, _⟩ := kept.fits_at is
  obtain ⟨fresh, unjoined, _⟩ := kept.fits_at absent
  have notChild {other holder : Nat} (reserved : user other = .thread holder) : holder ≠ child := by
    rintro rfl
    cases fresh.symm.trans (kept.owned other holder reserved)
  revert other
  refine @Kept.blocks_after state user index after (Function.update user index (.thread child)) kept ?_ ?_ ?_ ?_
    ?_ ?_ ?_
  · exact fun _ different => Function.update_of_ne different ..
  · intro _ _
    rw [divides.blocks]
  · have fit := kept.blocks index
    rw [claimed] at fit
    rw [Function.update_self, divides.blocks, BlockFits, divides.entry, divides.join, divides.birth, unjoined]
    refine ⟨fit.1, fun created => ?_, fun _ _ => fit.2 is, fun stored => absurd stored Bool.false_ne_true⟩
    cases created
  · intro other creator _ splits
    rw [← divides.phase creator]
    · exact splits
    · rintro rfl
      cases divides.creator.symm.trans splits
    · rintro rfl
      cases divides.entry.symm.trans splits
  · intro other holder _ reserved
    by_cases isThread : holder = thread
    · rw [isThread, divides.creator, is]
      exact ⟨rfl, rfl, rfl⟩
    · rw [divides.phase holder isThread (notChild reserved)]
      exact ⟨rfl, rfl, rfl⟩
  · intro other holder _ reserved
    rw [divides.join, divides.births holder (notChild reserved)]
    exact ⟨rfl, rfl⟩
  · intro _ _ _ _ _
    rw [divides.passed]

/-- The block of each thread is the one that was reserved for it after a thread is split
off. -/
theorem Kept.divide_owned (kept : Kept state user) (divides : Divides thread index child state after)
    (fresh : state.blockOf child = none) (place holder : Nat)
    (reserved : Function.update user index (.thread child) place = .thread holder) :
    after.blockOf holder = some place := by
  by_cases isChild : holder = child
  · subst isChild
    by_cases isIndex : place = index
    · rw [isIndex]
      exact divides.blockOf
    · rw [Function.update_of_ne isIndex] at reserved
      exact nomatch fresh.symm.trans (kept.owned place holder reserved)
  · rw [divides.blocksOf holder isChild]
    exact kept.owned place holder (reserved_before isChild reserved)

/-- A thread that is split off keeps the invariant. -/
theorem Kept.divide (kept : Kept state user) (divides : Divides thread index child state after)
    (is : state.phase thread = .split index) (absent : state.phase child = .absent) (notErr : child ≠ errId) :
    Kept after (Function.update user index (.thread child)) := by
  obtain ⟨_, _, small⟩ := kept.fits_at is
  obtain ⟨fresh, unjoined, unborn⟩ := kept.fits_at absent
  have leaves := kept.divide_leaves divides is absent
  constructor
  · exact kept.divide_fits divides is absent
  · exact kept.divide_blocks divides is absent
  · exact kept.divide_owned divides fresh
  · rintro place holder reserved ⟨exited, returned⟩
    have isChild : holder ≠ child := by
      rintro rfl
      exact nomatch divides.entry.symm.trans exited
    have isThread : holder ≠ thread := by
      rintro rfl
      exact nomatch divides.creator.symm.trans exited
    rw [divides.phase holder isThread isChild] at exited
    rw [divides.join] at returned
    exact kept.unfinished place holder (reserved_before isChild reserved) ⟨exited, returned⟩
  · intro other creator launching
    by_cases isChild : other = child
    · rw [isChild]
      exact ⟨index, divides.entry⟩
    · rw [divides.births other isChild] at launching
      obtain ⟨place, entering⟩ := kept.unlaunched other creator launching
      have isThread : other ≠ thread := by
        rintro rfl
        exact nomatch is.symm.trans entering
      rw [divides.phase other isThread isChild]
      exact ⟨place, entering⟩
  · intro other notMain otherUnborn
    have isChild : other ≠ child := by
      rintro rfl
      exact nomatch divides.birth.symm.trans otherUnborn
    rw [divides.births other isChild] at otherUnborn
    have wasAbsent := kept.unborn other notMain otherUnborn
    have isThread : other ≠ thread := by
      rintro rfl
      exact nomatch is.symm.trans wasAbsent
    rw [divides.phase other isThread isChild]
    exact wasAbsent
  · intro place other same notMain otherErr
    rw [divides.blocks] at same
    have known := kept.ids place other same notMain otherErr
    have isChild : other ≠ child := by
      rintro rfl
      exact nomatch fresh.symm.trans known
    rw [divides.blocksOf other isChild]
    exact known
  · intro other joined
    rw [divides.join] at joined
    have isChild : other ≠ child := by
      rintro rfl
      exact joined unjoined
    rw [divides.births other isChild]
    exact kept.births other joined
  · intro other place blockOf
    by_cases isChild : other = child
    · rw [isChild, divides.blockOf] at blockOf
      obtain rfl : index = place := Option.some.inj blockOf
      exact small
    · rw [divides.blocksOf other isChild] at blockOf
      exact kept.bounded other place blockOf
  · intro target joiner leaving
    rw [divides.join] at leaving
    have wasFreeing := kept.leaving target joiner leaving
    rw [divides.phase joiner]
    · exact wasFreeing
    · rintro rfl
      rw [is] at wasFreeing
      exact nomatch wasFreeing
    · rintro rfl
      rw [absent] at wasFreeing
      exact nomatch wasFreeing
  · intro other outcome reported
    rw [divides.outcome] at reported
    obtain ⟨returned, stopped, rest⟩ := kept.outcomes other outcome reported
    rw [divides.join, divides.passed]
    exact ⟨returned, (leaves.stopped other stopped).1, rest⟩
  · rw [divides.phase errId]
    · exact kept.valid
    · rintro rfl
      exact nomatch is.symm.trans kept.valid
    · exact notErr.symm

end Splitting

/-- Every careful step inside of a call keeps the invariant. -/
theorem Kept.tick {after : State} (kept : Kept state user) (careful : Careful state (.tick thread))
    (taken : ThreadBlocks.tick state thread = some after) : ∃ userAfter, Kept after userAfter := by
  unfold ThreadBlocks.tick at taken
  cases is : state.phase thread with
  | absent | body | split index | exited =>
    rw [is] at taken
    exact nomatch taken
  | entry index =>
    rw [is] at taken
    obtain ⟨runs, same⟩ := Option.ite_none_right_eq_some.mp taken
    obtain rfl := Option.some.inj same
    exact ⟨user, kept.entry is runs⟩
  | reserve index =>
    rw [is] at taken
    dsimp only at taken
    split at taken
    · rename_i small
      split at taken
      · rename_i free
        obtain rfl := Option.some.inj taken
        exact ⟨_, kept.reserve_found is small free (careful.reserve is small free)⟩
      · obtain rfl := Option.some.inj taken
        exact ⟨user, kept.reserve_next is⟩
    · obtain rfl := Option.some.inj taken
      exact ⟨user, kept.reserve_none is⟩
  | clear index =>
    rw [is] at taken
    obtain rfl := Option.some.inj taken
    exact ⟨user, kept.clear is⟩
  | launch index child =>
    rw [is] at taken
    obtain rfl := Option.some.inj taken
    exact ⟨user, kept.launch is⟩
  | find index res =>
    rw [is] at taken
    dsimp only at taken
    split at taken
    · split at taken
      · rename_i found
        obtain rfl := Option.some.inj taken
        exact ⟨user, kept.find_found is found.1⟩
      · rename_i missed
        obtain rfl := Option.some.inj taken
        exact ⟨user, kept.find_next is missed⟩
    · exact nomatch taken
  | take index res =>
    rw [is] at taken
    obtain rfl := Option.some.inj taken
    exact ⟨user, kept.take is⟩
  | store index res =>
    rw [is] at taken
    obtain rfl := Option.some.inj taken
    exact ⟨user, kept.store is⟩
  | stop index =>
    rw [is] at taken
    obtain rfl := Option.some.inj taken
    exact ⟨user, kept.stop is⟩
  | drop index =>
    rw [is] at taken
    obtain ⟨more, keeps⟩ := kept.drop is
    dsimp only at taken
    rw [if_neg more] at taken
    obtain rfl := Option.some.inj taken
    exact ⟨user, keeps⟩
  | dropBase index =>
    rw [is] at taken
    dsimp only at taken
    obtain rfl := Option.some.inj taken
    split
    · rename_i last
      exact ⟨user, kept.dropBase_free is (careful.dropBase is) last⟩
    · rename_i more
      exact ⟨user, kept.dropBase_exited is more⟩
  | look target index =>
    rw [is] at taken
    dsimp only at taken
    rw [if_neg (kept.look_found is)] at taken
    obtain rfl := Option.some.inj taken
    exact ⟨user, kept.look is⟩
  | hold target index =>
    rw [is] at taken
    obtain rfl := Option.some.inj taken
    exact ⟨user, kept.hold is⟩
  | wait target index =>
    rw [is] at taken
    obtain ⟨clear, same⟩ := Option.ite_none_left_eq_some.mp taken
    obtain rfl := Option.some.inj same
    exact ⟨user, kept.wait is (eq_false_of_ne_true clear)⟩
  | read target index =>
    rw [is] at taken
    obtain rfl := Option.some.inj taken
    exact ⟨user, kept.read is⟩
  | errnoFind | errnoTake | errnoStore | refused => exact (kept.fits_at is).elim
  | release target index value =>
    rw [is] at taken
    dsimp only at taken
    split at taken
    · rename_i last
      obtain rfl := Option.some.inj taken
      exact ⟨user, kept.release_last is last⟩
    · rename_i more
      obtain rfl := Option.some.inj taken
      exact ⟨user, kept.release_more is more⟩
  | free index next =>
    rw [is] at taken
    obtain rfl := Option.some.inj taken
    cases next with
    | base | failed => exact (kept.fits_at is).elim
    | exit => exact ⟨user, kept.free_exit is⟩
    | joined target value => exact ⟨user, kept.free_joined is⟩
  | freed index next =>
    rw [is] at taken
    cases next with
    | base | failed => exact (kept.fits_at is).elim
    | exit =>
      obtain rfl := Option.some.inj taken
      exact ⟨_, kept.freed_exit is⟩
    | joined target value =>
      obtain rfl := Option.some.inj taken
      exact ⟨_, kept.freed_joined is⟩

/-- Every careful step keeps the invariant. -/
theorem Kept.step {event : Event} {after : State} (kept : Kept state user) (careful : Careful state event)
    (taken : ThreadBlocks.step state event = some after) : ∃ userAfter, Kept after userAfter := by
  cases event with
  | create thread =>
    obtain ⟨is, same⟩ := Option.ite_none_right_eq_some.mp taken
    obtain rfl := Option.some.inj same
    exact ⟨user, kept.create is⟩
  | split thread child =>
    unfold ThreadBlocks.step at taken
    dsimp only at taken
    split at taken
    · exact careful.elim
    · rename_i index child is
      obtain ⟨⟨absent, notErr⟩, same⟩ := Option.ite_none_right_eq_some.mp taken
      obtain rfl := Option.some.inj same
      have different : child ≠ thread := by
        rintro rfl
        exact nomatch is.symm.trans absent
      exact ⟨_, kept.divide (State.divides different index) is absent notErr⟩
    · exact nomatch taken
  | exit thread res =>
    obtain ⟨⟨is, notMain⟩, same⟩ := Option.ite_none_right_eq_some.mp taken
    obtain rfl := Option.some.inj same
    exact ⟨user, kept.exit is notMain careful.1 careful.2⟩
  | join thread target =>
    unfold ThreadBlocks.step at taken
    dsimp only at taken
    split at taken
    · exact nomatch taken
    · rename_i index blockOf
      obtain ⟨⟨is, created, unjoined⟩, same⟩ := Option.ite_none_right_eq_some.mp taken
      obtain rfl := Option.some.inj same
      exact ⟨user, kept.join is blockOf created unjoined⟩
  | tick thread => exact kept.tick careful taken

end Asym.ThreadBlocks
