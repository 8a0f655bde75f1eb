import Asym.ThreadReservations

/-!
# Steps of threads at their blocks

Every step of a careful run keeps the reservations. Most steps change the place of one
thread and at most one block. The others create a thread, begin its exit, or take a join
further.
-/

namespace Asym.ThreadBlocks

open EventRuns

/-- The join has had its reference. -/
def Join.taken : Join → Bool
  | .holding _ | .leaving _ | .returned => true
  | _ => false

/-- A thread passes a value that fits into the result, drops its base reference after its
join has taken one, and reserves no block that is still being freed, and no `split` fails. -/
def Careful (state : State) : Event → Prop
  | .exit _ res => 0 ≤ res ∧ res < 256
  | .split _ none => False
  | .tick thread =>
      match state.phase thread with
      | .dropBase _ => (state.join thread).taken = true
      | .reserve index => index < maxThrd → (state.blocks index).ref = 0 →
          ∀ other after, state.phase other ≠ .free index after ∧ state.phase other ≠ .freed index after
      | _ => True
  | _ => True

variable {state : State} {user : Nat → User} {thread : Nat}

/-- No block is reserved while it is being freed. -/
theorem Careful.reserve {index : Nat} (careful : Careful state (.tick thread))
    (is : state.phase thread = .reserve index) (small : index < maxThrd) (free : (state.blocks index).ref = 0)
    (other : Nat) (after : After) :
    state.phase other ≠ .free index after ∧ state.phase other ≠ .freed index after := by
  rw [Careful, is] at careful
  exact careful small free other after

/-- The base reference is dropped after the join has taken one. -/
theorem Careful.dropBase {index : Nat} (careful : Careful state (.tick thread))
    (is : state.phase thread = .dropBase index) : (state.join thread).taken = true := by
  rw [Careful, is] at careful
  exact careful

/-- A thread that is past its entry goes on. -/
theorem Kept.walks {place next : Phase} (kept : Kept state user) (is : state.phase thread = place)
    (present : place ≠ .absent) (live : place ≠ .exited) (started : ∀ index, place ≠ .entry index)
    (stopped : place.stopped = true → next.stopped = true) (freeing : next.freeing = place.freeing) :
    Walks state thread next := by
  subst is
  refine ⟨present, live, ?_, stopped, freeing⟩
  intro creator launching
  obtain ⟨index, entering⟩ := kept.unlaunched thread creator launching
  exact started index entering

/-- What holds of a thread at its place. -/
theorem Kept.fits_at {place : Phase} (kept : Kept state user) (is : state.phase thread = place) :
    Fits state user thread place :=
  is ▸ kept.fits thread

/-- What holds of the block of a thread. -/
theorem Kept.home_block {index : Nat} (kept : Kept state user) (home : Home state user thread index) :
    BlockFits state index (state.blocks index) (.thread thread) :=
  home.2 ▸ kept.blocks index

/-- A thread has one block. -/
theorem Home.unique {index other : Nat} (home : Home state user thread index)
    (otherHome : Home state user thread other) : index = other :=
  Option.some.inj (home.1.symm.trans otherHome.1)

/-- The thread is launched before it leaves the loop of its entry. -/
theorem Kept.entry {index : Nat} (kept : Kept state user) (is : state.phase thread = .entry index)
    (runs : (state.blocks index).running = true) : Kept (state.enter thread .body) user := by
  have home : Home state user thread index := kept.fits_at is
  apply kept.go
  · refine ⟨is ▸ nofun, is ▸ nofun, ?_, is ▸ nofun, is ▸ rfl⟩
    intro creator launching
    obtain ⟨_, _, waits, _⟩ := kept.home_block home
    exact nomatch runs.symm.trans (waits creator launching)
  · exact ⟨index, home⟩
  · exact is ▸ ⟨rfl, rfl, rfl⟩
  · exact nofun
  · exact nofun

/-- Two places between which a thread changes no block and keeps its references. -/
structure Quiet (place next : Phase) : Prop extends SameProfile place next where
  present : place ≠ .absent
  live : place ≠ .exited
  started : ∀ index, place ≠ .entry index
  exits : next ≠ .exited
  splitting : ∀ index, next ≠ .split index
  freeing : next.freeing = place.freeing

/-- A step of a thread that changes no block. -/
theorem Kept.pass {place next : Phase} (kept : Kept state user) (is : state.phase thread = place)
    (quiet : Quiet place next) (fit : Fits (state.enter thread next) user thread next) :
    Kept (state.enter thread next) user := by
  apply kept.go
  · apply kept.walks is quiet.present quiet.live quiet.started _ quiet.freeing
    intro stopped
    exact quiet.stopped.trans stopped
  · exact fit
  · exact is ▸ quiet.toSameProfile
  · exact quiet.splitting
  · exact quiet.exits

/-- A call of `thrd_create`. -/
theorem Kept.create (kept : Kept state user) (is : state.phase thread = .body) :
    Kept (state.enter thread (.reserve 0)) user := by
  refine kept.pass is ⟨⟨rfl, rfl, rfl⟩, nofun, nofun, nofun, nofun, nofun, rfl⟩ ?_
  exact kept.fits_at is

/-- The loop of `_ThrdBlockReserve` goes on. -/
theorem Kept.reserve_next {index : Nat} (kept : Kept state user) (is : state.phase thread = .reserve index) :
    Kept (state.enter thread (.reserve (index + 1))) user := by
  refine kept.pass is ⟨⟨rfl, rfl, rfl⟩, nofun, nofun, nofun, nofun, nofun, rfl⟩ ?_
  exact kept.fits_at is

/-- `_ThrdBlockReserve` finds no block. -/
theorem Kept.reserve_none {index : Nat} (kept : Kept state user) (is : state.phase thread = .reserve index) :
    Kept (state.enter thread .body) user := by
  refine kept.pass is ⟨⟨rfl, rfl, rfl⟩, nofun, nofun, nofun, nofun, nofun, rfl⟩ ?_
  exact kept.fits_at is

/-- The block with the id of the thread is its own. -/
theorem Kept.find_found {index : Nat} {res : Int} (kept : Kept state user)
    (is : state.phase thread = .find index res) (found : (state.blocks index).id = thread) :
    Kept (state.enter thread (.take index res)) user := by
  obtain ⟨⟨place, home, _⟩, passes, notMain⟩ := kept.fits_at is
  have notErr : thread ≠ errId := by
    rintro rfl
    exact nomatch is.symm.trans kept.valid
  obtain rfl : index = place :=
    Option.some.inj ((kept.ids index thread found notMain notErr).symm.trans home.1)
  refine kept.pass is ⟨⟨rfl, rfl, rfl⟩, nofun, nofun, nofun, nofun, nofun, rfl⟩ ?_
  exact ⟨home, passes⟩

/-- A thread that is not at its entry and is not the first one is created. -/
theorem Kept.created (kept : Kept state user) (notMain : thread ≠ 0) (present : state.phase thread ≠ .absent)
    (started : ∀ index, state.phase thread ≠ .entry index) : state.birth thread = .created := by
  cases born : state.birth thread with
  | created => rfl
  | unborn => exact absurd (kept.unborn thread notMain born) present
  | launching creator =>
    obtain ⟨index, entering⟩ := kept.unlaunched thread creator born
    exact absurd entering (started index)

/-- The references of a join are none or one. -/
theorem Join.held_nonneg (join : Join) : 0 ≤ join.held := by
  cases join <;> simp [Join.held]

/-- A join that has a reference holds it. -/
theorem Join.holding_of_held {join : Join} (held : 0 < join.held) : ∃ joiner, join = .holding joiner := by
  cases join with
  | holding joiner => exact ⟨joiner, rfl⟩
  | none | seeking _ | leaving _ | returned => exact absurd held (Int.lt_irrefl 0)

/-- The own block of a thread that looks for it has its id and is in use. -/
theorem Kept.find_home {index home : Nat} {res : Int} (kept : Kept state user)
    (is : state.phase thread = .find index res) (isHome : Home state user thread home) :
    (state.blocks home).id = thread ∧ (state.blocks home).ref ≠ 0 := by
  obtain ⟨_, _, notMain⟩ := kept.fits_at is
  obtain ⟨count, runs, _, _⟩ := kept.home_block isHome
  have created := kept.created notMain (is ▸ nofun) (is ▸ nofun)
  have held := (state.join thread).held_nonneg
  rw [is] at count
  refine ⟨(runs created).2, ?_⟩
  rw [count]
  show (1 : Int) + _ ≠ 0
  omega

/-- The loop of `_ThrdBlockById` goes on. -/
theorem Kept.find_next {index : Nat} {res : Int} (kept : Kept state user)
    (is : state.phase thread = .find index res)
    (missed : ¬((state.blocks index).id = thread ∧ (state.blocks index).ref ≠ 0)) :
    Kept (state.enter thread (.find (index + 1) res)) user := by
  obtain ⟨⟨place, home, before⟩, passes, notMain⟩ := kept.fits_at is
  have notHome : index ≠ place := by
    rintro rfl
    exact missed (kept.find_home is home)
  refine kept.pass is ⟨⟨rfl, rfl, rfl⟩, nofun, nofun, nofun, nofun, nofun, rfl⟩ ?_
  exact ⟨⟨place, home, by omega⟩, passes, notMain⟩

/-- `_ThrdBlockByIndex` finds the block in use. -/
theorem Kept.look {target index : Nat} (kept : Kept state user)
    (is : state.phase thread = .look target index) : Kept (state.enter thread (.hold target index)) user := by
  refine kept.pass is ⟨⟨rfl, rfl, rfl⟩, nofun, nofun, nofun, nofun, nofun, rfl⟩ ?_
  exact kept.fits_at is

/-- A thread stays stopped or running while another one goes on. -/
theorem stopped_enter {next : Phase} {target : Nat} (stopped : (state.phase target).stopped = true)
    (unstopped : (state.phase thread).stopped = false) :
    ((state.enter thread next).phase target).stopped = true := by
  have different : target ≠ thread := by
    rintro rfl
    exact nomatch unstopped.symm.trans stopped
  rw [State.enter_of_ne _ _ different]
  exact stopped

/-- The loop of `thrd_join` ends when the thread has stopped. -/
theorem Kept.wait {target index : Nat} (kept : Kept state user)
    (is : state.phase thread = .wait target index) (clear : (state.blocks index).running = false) :
    Kept (state.enter thread (.read target index)) user := by
  obtain ⟨home, join, targetHome⟩ := kept.fits_at is
  have created := kept.births target (join ▸ nofun)
  obtain ⟨_, runs, _, _⟩ := kept.home_block targetHome
  have stopped : (state.phase target).stopped = true := by
    simpa [clear] using (runs created).1
  refine kept.pass is ⟨⟨rfl, rfl, rfl⟩, nofun, nofun, nofun, nofun, nofun, rfl⟩ ?_
  exact ⟨home, join, targetHome, stopped_enter stopped (is ▸ rfl)⟩

/-- A thread that is stopped has stored its result. -/
theorem Phase.stored_of_stopped {phase : Phase} (stopped : phase.stopped = true) : phase.stored = true := by
  unfold Phase.stopped at stopped
  unfold Phase.stored
  split at stopped <;> simp_all

/-- The join reads the value that the thread passed. -/
theorem Kept.read {target index : Nat} (kept : Kept state user)
    (is : state.phase thread = .read target index) :
    Kept (state.enter thread (.release target index (state.blocks index).result)) user := by
  obtain ⟨home, join, targetHome, stopped⟩ := kept.fits_at is
  obtain ⟨_, _, _, stores⟩ := kept.home_block targetHome
  obtain ⟨res, passed, result⟩ := stores (Phase.stored_of_stopped stopped)
  refine kept.pass is ⟨⟨rfl, rfl, rfl⟩, nofun, nofun, nofun, nofun, nofun, rfl⟩ ?_
  refine ⟨home, join, targetHome, stopped_enter stopped (is ▸ rfl), ?_⟩
  rw [result]
  exact passed

/-- A step of a thread at its own block. -/
theorem Kept.work_home {index : Nat} {next : Phase} {change : Block → Block} (kept : Kept state user)
    (walks : Walks state thread next) (home : Home state user thread index)
    (fit : Fits ((state.edit index change).enter thread next) user thread next)
    (count : (change (state.blocks index)).ref = next.own + (state.join thread).held)
    (runs : state.birth thread = .created → (change (state.blocks index)).running = !next.stopped)
    (id : (change (state.blocks index)).id = (state.blocks index).id)
    (stores : next.stored = true →
      ∃ res, state.passed thread = some res ∧ ((change (state.blocks index)).result : Int) = res)
    (unfinished : ¬(next = .exited ∧ state.join thread = .returned)) (splitting : ∀ other, next ≠ .split other) :
    Kept ((state.edit index change).enter thread next) user := by
  obtain ⟨_, ran, _, _⟩ := kept.home_block home
  apply kept.work walks (Yields.same ..) fit
  · rw [home.2, BlockFits, State.enter_self]
    refine ⟨count, ?_, ?_, stores⟩
    · intro created
      exact ⟨runs created, id.trans (ran created).2⟩
    · intro creator launching
      exact absurd launching (walks.launched creator)
  · exact .inl id
  · intro other different reserved
    exact absurd (home.unique ⟨kept.owned other thread reserved, reserved⟩).symm different
  · intro _ _
    exact unfinished
  · intro other is
    exact absurd is (splitting other)

/-- `_ThrdBlockRef` in `_ThrdBlockById`. -/
theorem Kept.take {index : Nat} {res : Int} (kept : Kept state user)
    (is : state.phase thread = .take index res) :
    Kept ((state.edit index Block.addRef).enter thread (.store index res)) user := by
  obtain ⟨home, passes⟩ := kept.fits_at is
  obtain ⟨count, runs, _, _⟩ := kept.home_block home
  rw [is] at count runs
  apply kept.work_home _ home
  · exact ⟨home, passes⟩
  · show (state.blocks index).ref + 1 = 2 + _
    rw [count]
    show (1 : Int) + _ + 1 = 2 + _
    omega
  · intro created
    exact (runs created).1
  · rfl
  · exact nofun
  · exact nofun
  · exact nofun
  · exact kept.walks is nofun nofun nofun nofun rfl

/-- The result is stored. -/
theorem Kept.store {index : Nat} {res : Int} (kept : Kept state user)
    (is : state.phase thread = .store index res) :
    Kept ((state.edit index fun block => { block with result := (res % 256).toNat }).enter thread (.stop index))
      user := by
  obtain ⟨home, passed, nonnegative, small⟩ := kept.fits_at is
  obtain ⟨count, runs, _, _⟩ := kept.home_block home
  rw [is] at count runs
  apply kept.work_home _ home
  · exact home
  · exact count
  · intro created
    exact (runs created).1
  · rfl
  · intro _
    refine ⟨res, passed, ?_⟩
    show ((res % 256).toNat : Int) = res
    omega
  · exact nofun
  · exact nofun
  · exact kept.walks is nofun nofun nofun nofun rfl

/-- The flag is cleared. -/
theorem Kept.stop {index : Nat} (kept : Kept state user) (is : state.phase thread = .stop index) :
    Kept ((state.edit index fun block => { block with running := false }).enter thread (.drop index)) user := by
  have home : Home state user thread index := kept.fits_at is
  obtain ⟨count, _, _, stores⟩ := kept.home_block home
  rw [is] at count stores
  apply kept.work_home _ home
  · exact home
  · exact count
  · exact fun _ => rfl
  · rfl
  · exact fun _ => stores rfl
  · exact nofun
  · exact nofun
  · exact kept.walks is nofun nofun nofun nofun rfl

/-- The first `_ThrdBlockUnref` of `thrd_exit` does not free the block. -/
theorem Kept.drop {index : Nat} (kept : Kept state user) (is : state.phase thread = .drop index) :
    ¬(state.blocks index).ref ≤ 1 ∧
      Kept ((state.edit index Block.subRef).enter thread (.dropBase index)) user := by
  have home : Home state user thread index := kept.fits_at is
  obtain ⟨count, runs, _, stores⟩ := kept.home_block home
  rw [is] at count runs stores
  have two : (state.blocks index).ref = 2 + (state.join thread).held := count
  have held := (state.join thread).held_nonneg
  refine ⟨by omega, ?_⟩
  apply kept.work_home _ home
  · exact home
  · show (state.blocks index).ref - 1 = 1 + _
    omega
  · intro created
    exact (runs created).1
  · rfl
  · exact fun _ => stores rfl
  · exact nofun
  · exact nofun
  · exact kept.walks is nofun nofun nofun (fun _ => rfl) rfl

/-- A join that leaves frees the block of a thread that has exited. -/
theorem Kept.leaving_place {target joiner : Nat} (kept : Kept state user)
    (is : state.join target = .leaving joiner) : state.phase target = .exited ∧
      ∃ index after, Home state user target index ∧
        (state.phase joiner = .free index after ∨ state.phase joiner = .freed index after) := by
  have frees := kept.leaving target joiner is
  unfold Phase.freeing at frees
  split at frees
  · rename_i index goal value place
    obtain rfl : goal = target := Option.some.inj frees
    obtain ⟨_, _, home, exited, _⟩ := kept.fits_at place
    exact ⟨exited, index, _, home, .inl place⟩
  · rename_i index goal value place
    obtain rfl : goal = target := Option.some.inj frees
    obtain ⟨_, _, home, exited, _⟩ := kept.fits_at place
    exact ⟨exited, index, _, home, .inr place⟩
  · exact nomatch frees

/-- The second `_ThrdBlockUnref` of `thrd_exit` frees the block if the join has returned. -/
theorem Kept.dropBase_free {index : Nat} (kept : Kept state user) (is : state.phase thread = .dropBase index)
    (taken : (state.join thread).taken = true) (last : (state.blocks index).ref ≤ 1) :
    Kept ((state.edit index Block.subRef).enter thread (.free index .exit)) user := by
  have home : Home state user thread index := kept.fits_at is
  obtain ⟨count, runs, _, stores⟩ := kept.home_block home
  rw [is] at count runs stores
  have one : (state.blocks index).ref = 1 + (state.join thread).held := count
  have returned : state.join thread = .returned := by
    cases join : state.join thread with
    | returned => rfl
    | none => exact nomatch join ▸ taken
    | seeking joiner => exact nomatch join ▸ taken
    | holding joiner =>
      rw [join, Join.held] at one
      omega
    | leaving joiner => exact nomatch is.symm.trans (kept.leaving_place join).1
  apply kept.work_home _ home
  · exact ⟨home, returned⟩
  · show (state.blocks index).ref - 1 = 0 + _
    omega
  · intro created
    exact (runs created).1
  · rfl
  · exact fun _ => stores rfl
  · exact nofun
  · exact nofun
  · exact kept.walks is nofun nofun nofun (fun _ => rfl) rfl

/-- The second `_ThrdBlockUnref` of `thrd_exit` leaves the block to the join. -/
theorem Kept.dropBase_exited {index : Nat} (kept : Kept state user) (is : state.phase thread = .dropBase index)
    (more : ¬(state.blocks index).ref ≤ 1) :
    Kept ((state.edit index Block.subRef).enter thread .exited) user := by
  have home : Home state user thread index := kept.fits_at is
  obtain ⟨count, runs, _, stores⟩ := kept.home_block home
  rw [is] at count runs stores
  have one : (state.blocks index).ref = 1 + (state.join thread).held := count
  obtain ⟨joiner, holding⟩ := Join.holding_of_held (show 0 < (state.join thread).held by omega)
  apply kept.work_home _ home
  · exact .inr ⟨⟨joiner, .inl holding⟩, index, home⟩
  · show (state.blocks index).ref - 1 = 0 + _
    omega
  · intro created
    exact (runs created).1
  · rfl
  · exact fun _ => stores rfl
  · rintro ⟨_, returned⟩
    exact nomatch holding.symm.trans returned
  · exact nofun
  · exact kept.walks is nofun nofun nofun (fun _ => rfl) rfl

/-- The first store of `_ThrdBlockFree` in `thrd_exit`. -/
theorem Kept.free_exit {index : Nat} (kept : Kept state user) (is : state.phase thread = .free index .exit) :
    Kept ((state.edit index fun block => { block with running := false }).enter thread (.freed index .exit))
      user := by
  obtain ⟨home, returned⟩ := kept.fits_at is
  obtain ⟨count, _, _, stores⟩ := kept.home_block home
  rw [is] at count stores
  apply kept.work_home _ home
  · exact ⟨home, returned⟩
  · exact count
  · exact fun _ => rfl
  · rfl
  · exact fun _ => stores rfl
  · exact nofun
  · exact nofun
  · exact kept.walks is nofun nofun nofun (fun _ => rfl) rfl

/-- A step of a thread at a block that it has reserved for a new thread. -/
theorem Kept.work_claimed {index : Nat} {place next : Phase} {change : Block → Block} (kept : Kept state user)
    (walks : Walks state thread next) (is : state.phase thread = place) (claimed : user index = .claimed thread)
    (profile : SameProfile place next)
    (fit : Fits ((state.edit index change).enter thread next) user thread next)
    (count : (change (state.blocks index)).ref = (state.blocks index).ref)
    (clear : next = .split index → (change (state.blocks index)).running = false)
    (id : (change (state.blocks index)).id = (state.blocks index).id ∨ (change (state.blocks index)).id = 0)
    (live : next ≠ .exited) (splitting : ∀ other, next = .split other → other = index) :
    Kept ((state.edit index change).enter thread next) user := by
  have fits := kept.blocks index
  rw [claimed] at fits
  apply kept.work walks (Yields.same ..) fit
  · rw [claimed, BlockFits, State.enter_self]
    exact ⟨count.trans fits.1, clear⟩
  · exact id
  · intro _ _ _
    exact is ▸ profile
  · intro _ _ ended
    exact live ended.1
  · exact splitting

/-- The stores of `_ThrdBlockReserve`. -/
theorem Kept.clear {index : Nat} (kept : Kept state user) (is : state.phase thread = .clear index) :
    Kept ((state.edit index Block.clear).enter thread (.split index)) user := by
  obtain ⟨home, claimed, small⟩ := kept.fits_at is
  apply kept.work_claimed _ is claimed
  · exact ⟨rfl, rfl, rfl⟩
  · exact ⟨home, claimed, small⟩
  · rfl
  · exact fun _ => rfl
  · exact .inr rfl
  · exact nofun
  · rintro _ ⟨⟩
    rfl
  · exact kept.walks is nofun nofun nofun nofun rfl

/-- A home at another block stays. -/
theorem Home.update {index home : Nat} {given : User} (isHome : Home state user thread home)
    (different : user index ≠ .thread thread) : Home state (Function.update user index given) thread home := by
  refine ⟨isHome.1, ?_⟩
  rw [Function.update_of_ne]
  · exact isHome.2
  · rintro rfl
    exact different isHome.2

/-- The second store of `_ThrdBlockFree` in `thrd_exit`. -/
theorem Kept.freed_exit {index : Nat} (kept : Kept state user) (is : state.phase thread = .freed index .exit) :
    Kept ((state.edit index fun block => { block with ref := 0 }).enter thread .exited)
      (Function.update user index .none) := by
  obtain ⟨home, returned⟩ := kept.fits_at is
  have elsewhere (other : Nat) (reserved : user other = .thread thread) : other = index :=
    Home.unique ⟨kept.owned other thread reserved, reserved⟩ home
  apply kept.work
  · exact kept.walks is nofun nofun nofun (fun _ => rfl) rfl
  · exact Yields.update (.inl rfl) (.inr (.inr ⟨thread, home.2, rfl, returned⟩))
  · exact .inl returned
  · rw [Function.update_self]
    rfl
  · exact .inl rfl
  · intro other different reserved
    exact absurd (elsewhere other reserved) different
  · intro other reserved
    have different : other ≠ index := by
      rintro rfl
      rw [Function.update_self] at reserved
      exact nomatch reserved
    rw [Function.update_of_ne different] at reserved
    exact absurd (elsewhere other reserved) different
  · exact nofun

/-- The places of a thread that has no reference to its block. -/
theorem Phase.own_cases (phase : Phase) : 1 ≤ phase.own ∨ phase = .absent ∨ phase = .exited ∨
    ∃ index, phase = .free index .exit ∨ phase = .freed index .exit := by
  unfold Phase.own
  split
  · exact .inr (.inl rfl)
  · exact .inr (.inr (.inl rfl))
  · exact .inr (.inr (.inr ⟨_, .inl rfl⟩))
  · exact .inr (.inr (.inr ⟨_, .inr rfl⟩))
  all_goals exact .inl (by decide)

/-- A block with no reference is not reserved unless it is being freed. -/
theorem Kept.unreferenced {index : Nat} (kept : Kept state user) (free : (state.blocks index).ref = 0)
    (unfreed : ∀ other after, state.phase other ≠ .free index after ∧ state.phase other ≠ .freed index after) :
    user index = .none := by
  have fit := kept.blocks index
  cases reserved : user index with
  | none => rfl
  | claimed creator =>
    rw [reserved] at fit
    exact nomatch free.symm.trans fit.1
  | thread holder =>
    rw [reserved] at fit
    have count := fit.1
    rw [free] at count
    have held := (state.join holder).held_nonneg
    have home : Home state user holder index := ⟨kept.owned index holder reserved, reserved⟩
    rcases (state.phase holder).own_cases with own | absent | exited | ⟨place, freeing | freeing⟩
    · omega
    · exact nomatch (kept.fits_at absent).1.symm.trans home.1
    · rcases kept.fits_at exited with returned | ⟨⟨joiner, holding | leaving⟩, _⟩
      · exact absurd ⟨exited, returned⟩ (kept.unfinished index holder reserved)
      · rw [exited, holding] at count
        exact nomatch count
      · obtain ⟨_, other, after, otherHome, isFreeing⟩ := kept.leaving_place leaving
        obtain rfl : other = index := otherHome.unique home
        rcases isFreeing with freeing | freeing
        · exact absurd freeing (unfreed joiner after).1
        · exact absurd freeing (unfreed joiner after).2
    · obtain rfl : place = index := (kept.fits_at freeing).1.unique home
      exact absurd freeing (unfreed holder _).1
    · obtain rfl : place = index := (kept.fits_at freeing).1.unique home
      exact absurd freeing (unfreed holder _).2

/-- The compare and swap of `_ThrdBlockReserve`. -/
theorem Kept.reserve_found {index : Nat} (kept : Kept state user) (is : state.phase thread = .reserve index)
    (small : index < maxThrd) (free : (state.blocks index).ref = 0)
    (unfreed : ∀ other after, state.phase other ≠ .free index after ∧ state.phase other ≠ .freed index after) :
    Kept ((state.edit index fun block => { block with ref := 1 }).enter thread (.clear index))
      (Function.update user index (.claimed thread)) := by
  have unused := kept.unreferenced free unfreed
  obtain ⟨home, isHome⟩ := kept.fits_at is
  apply kept.work
  · exact kept.walks is (by simp) (by simp) (by simp) (fun stopped => absurd stopped Bool.false_ne_true) rfl
  · exact Yields.update (.inr rfl) (.inl unused)
  · refine ⟨⟨home, isHome.update (by rw [unused]; exact fun claimed => by cases claimed)⟩, ?_, small⟩
    exact Function.update_self ..
  · rw [Function.update_self, BlockFits, State.enter_self]
    exact ⟨rfl, fun splits => by cases splits⟩
  · exact .inl rfl
  · intro _ _ _
    exact is ▸ ⟨rfl, rfl, rfl⟩
  · intro _ _ ended
    cases ended.1
  · intro _ splits
    cases splits

/-- The first store of `_ThrdBlockFree` in `thrd_join`. -/
theorem Kept.free_joined {index target : Nat} {value : Int} (kept : Kept state user)
    (is : state.phase thread = .free index (.joined target value)) :
    Kept ((state.edit index fun block => { block with running := false }).enter thread
      (.freed index (.joined target value))) user := by
  obtain ⟨home, leaving, targetHome, exited, passed⟩ := kept.fits_at is
  have different : target ≠ thread := by
    rintro rfl
    cases is.symm.trans exited
  obtain ⟨count, runs, waits, stores⟩ := kept.home_block targetHome
  have exitedAfter (next : Phase) (change : Block → Block) :
      ((state.edit index change).enter thread next).phase target = .exited :=
    (State.enter_of_ne _ _ different).trans exited
  apply kept.work
  · exact kept.walks is (by simp) (by simp) (by simp) (fun stopped => absurd stopped Bool.false_ne_true) rfl
  · exact Yields.same ..
  · exact ⟨home, leaving, targetHome, exitedAfter .., passed⟩
  · rw [targetHome.2, BlockFits, exitedAfter]
    rw [exited] at count runs stores
    refine ⟨count, ?_, ?_, stores⟩
    · intro created
      exact ⟨rfl, (runs created).2⟩
    · exact fun _ _ => rfl
  · exact .inl rfl
  · intro _ _ _
    exact is ▸ ⟨rfl, rfl, rfl⟩
  · intro _ _ ended
    cases ended.1
  · intro _ splits
    cases splits

/-- A thread that has begun and is not finished has its block. -/
theorem Kept.housed (kept : Kept state user) (present : state.phase thread ≠ .absent)
    (unfinished : ¬(state.phase thread = .exited ∧ state.join thread = .returned)) :
    ∃ home, Home state user thread home := by
  have fit := kept.fits thread
  cases is : state.phase thread with
  | absent => exact absurd is present
  | entry index | stop index | drop index | dropBase index =>
    rw [is] at fit
    exact ⟨index, fit⟩
  | take index res | store index res =>
    rw [is] at fit
    exact ⟨index, fit.1⟩
  | find index res =>
    rw [is] at fit
    obtain ⟨⟨home, isHome, _⟩, _⟩ := fit
    exact ⟨home, isHome⟩
  | body | reserve index =>
    rw [is] at fit
    exact fit
  | clear index | split index | launch index child | look target index | hold target index
  | wait target index | read target index | release target index value =>
    rw [is] at fit
    exact fit.1
  | errnoFind | errnoTake | errnoStore | refused =>
    rw [is] at fit
    exact fit.elim
  | exited =>
    rw [is] at fit
    rcases fit with returned | ⟨_, home⟩
    · exact absurd ⟨is, returned⟩ unfinished
    · exact home
  | free index after | freed index after =>
    rw [is] at fit
    cases after with
    | base | failed => exact fit.elim
    | exit => exact ⟨index, fit.1⟩
    | joined target value => exact fit.1

/-- The block that was reserved for a thread is the one it has. -/
theorem Kept.home_of_blockOf {index : Nat} (kept : Kept state user) (blockOf : state.blockOf thread = some index)
    (unfinished : ¬(state.phase thread = .exited ∧ state.join thread = .returned)) :
    Home state user thread index := by
  have present : state.phase thread ≠ .absent := by
    intro absent
    exact nomatch (kept.fits_at absent).1.symm.trans blockOf
  obtain ⟨home, isHome⟩ := kept.housed present unfinished
  obtain rfl : home = index := Option.some.inj (isHome.1.symm.trans blockOf)
  exact isHome

/-- The step of a thread that joins another one. -/
theorem Kept.pursues {target index : Nat} {place next : Phase} {further : Join} (kept : Kept state user)
    (is : state.phase thread = place) (present : place ≠ .absent) (started : ∀ index, place ≠ .entry index)
    (unstopped : place.stopped = false) (profile : SameProfile place next)
    (splitting : ∀ other, next ≠ .split other) (home : Home state user target index)
    (created : state.birth target = .created)
    (own : state.join target = .none ∨ (state.join target).joiner = some thread)
    (lets : ∀ other, place.freeing = some other → other = target)
    (frees : ∀ joiner, further = .leaving joiner → joiner = thread ∧ next.freeing = some target) :
    Pursues state user thread target index next further := by
  subst is
  refine ⟨present, ?_, unstopped, profile, splitting, home, created, own, lets, frees⟩
  intro creator launching
  obtain ⟨place, entering⟩ := kept.unlaunched thread creator launching
  exact started place entering

/-- The block of the thread that is joined. -/
theorem BlockFits.turn {target index : Nat} {next : Phase} {further : Join} {block : Block} {after : State}
    (fit : BlockFits state index (state.blocks index) (.thread target))
    (turns : Turns thread target index next further block state after)
    (profile : SameProfile (state.phase thread) next)
    (count : block.ref + (state.join target).held = (state.blocks index).ref + further.held)
    (running : block.running = (state.blocks index).running) (id : block.id = (state.blocks index).id)
    (result : block.result = (state.blocks index).result) : BlockFits after index block (.thread target) := by
  have same : SameProfile (state.phase target) (after.phase target) := by
    rw [turns.phase]
    exact profile.enter target
  obtain ⟨counted, runs, waits, stores⟩ := fit
  rw [BlockFits, same.own, same.stopped, same.stored, turns.join, Function.update_self, turns.birth,
    turns.passed, running, id, result]
  refine ⟨?_, runs, waits, stores⟩
  omega

end Asym.ThreadBlocks
