import Asym.ThreadCustody

/-!
# The order of the waiting threads

The threads of a blocker are in the order of their deadlines, and those with equal deadlines in
the order in which `sched_schedule` put them there. The deadline of a thread is not changed while
it waits, and the thread that joins a list was running, so it was in no list.

A run carries the number of its steps, and for every thread the step in which it last joined a
list.
-/

namespace Asym.DeadlineOrder

open Scheduler Custody ThreadPlaces ThreadCustody

variable {cpus : Nat} {Blocker : Type}

section Runs

/-- `thread->block.deadline`. -/
def deadlineOf (sched : Sched cpus Blocker) (thread : Nat) : Nat := (sched.registry.threads thread).deadline

/-- A thread joins a list in a step. -/
def Joins (before after : Sched cpus Blocker) (thread : Nat) : Prop :=
  ∃ blocker, thread ∈ after.blocked blocker ∧ thread ∉ before.blocked blocker

open Classical in
/-- The steps in which the threads last joined a list, after one more step. -/
noncomputable def joinedAfter (before after : Sched cpus Blocker) (joined : Nat → Nat) (step thread : Nat) : Nat :=
  if Joins before after thread then step else joined thread

variable [DecidableEq Blocker]

/-- Runs from the start, with the step in which each thread last joined a list, and the number of
steps. -/
inductive Run : Sched cpus Blocker → (Nat → Nat) → Nat → Prop where
  | start (sched : Sched cpus Blocker) (initial : Initial sched) : Run sched (fun _ => 0) 0
  | step {before after : Sched cpus Blocker} {joined : Nat → Nat} {steps : Nat} (earlier : Run before joined steps)
      (taken : Scheduler.Step before after) : Run after (joinedAfter before after joined steps) (steps + 1)

end Runs

section Steps

/-- One thread is before another: its deadline is earlier, or the same and it joined earlier. -/
def Precedes (sched : Sched cpus Blocker) (joined : Nat → Nat) (first second : Nat) : Prop :=
  deadlineOf sched first < deadlineOf sched second ∨
    deadlineOf sched first = deadlineOf sched second ∧ joined first < joined second

/-- What a step does to the lists: threads leave, and one that was in none may be inserted. Who
stays keeps its deadline. -/
structure Changes (before after : Sched cpus Blocker) : Prop where
  lists : ∀ blocker, ∃ rest, rest.Sublist (before.blocked blocker) ∧ (after.blocked blocker = rest ∨
    ∃ thread, (∀ other, thread ∉ before.blocked other) ∧
      after.blocked blocker = blockerInsert (deadlineOf after) thread rest)
  stays : ∀ blocker thread, thread ∈ before.blocked blocker → thread ∈ after.blocked blocker →
    deadlineOf after thread = deadlineOf before thread
  bounded : (∀ thread, deadlineOf before thread ≤ never) → ∀ thread, deadlineOf after thread ≤ never

/-- A change of deadlines of threads that are in no list. -/
theorem Changes.same_lists {before after : Sched cpus Blocker} (same : after.blocked = before.blocked)
    (stays : ∀ blocker thread, thread ∈ before.blocked blocker → deadlineOf after thread = deadlineOf before thread)
    (bounded : (∀ thread, deadlineOf before thread ≤ never) → ∀ thread, deadlineOf after thread ≤ never) :
    Changes before after where
  lists blocker := ⟨before.blocked blocker, List.Sublist.refl _, .inl (congrFun same blocker)⟩
  stays blocker thread inside _ := stays blocker thread inside
  bounded := bounded

/-- An edit of a thread that keeps its deadline. -/
theorem editThread_deadline {registry : Registry Blocker} {edited : Nat} {edit : Thread Blocker → Thread Blocker}
    (keeps : ∀ data, (edit data).deadline = data.deadline) (thread : Nat) :
    ((registry.editThread edited edit).threads thread).deadline = (registry.threads thread).deadline := by
  by_cases here : thread = edited
  · subst here
    simp only [Registry.editThread, Function.update_self, keeps]
  · simp only [Registry.editThread, Function.update_of_ne here]

/-- Freeing threads keeps the deadlines. -/
theorem free_deadline (freed : List Nat) (registry : Registry Blocker) (thread : Nat) :
    ((freed.foldl threadFree registry).threads thread).deadline = (registry.threads thread).deadline := by
  induction freed generalizing registry with
  | nil => rfl
  | cons first rest ih => exact ih (threadFree registry first)

/-- A search keeps the deadlines. -/
theorem find_deadline (levels : List Priority) (fuel : Nat) (queues : Queues) (registry : Registry Blocker)
    (thread : Nat) :
    ((findThread levels fuel queues registry).2.2.threads thread).deadline = (registry.threads thread).deadline := by
  induction fuel generalizing queues registry with
  | zero => rfl
  | succ fuel ih =>
    rw [findThread]
    split
    · rfl
    · next found popped _ =>
      split
      · exact ih popped (threadFree registry found)
      · rfl

/-- Loading a thread keeps the deadlines. -/
theorem load_deadline (registry : Registry Blocker) (next : Option Nat) (uptime thread : Nat) :
    ((threadLoad registry next uptime).threads thread).deadline = (registry.threads thread).deadline := by
  cases next with
  | none => rfl
  | some loaded =>
    rw [threadLoad]
    refine editThread_deadline ?_ thread
    exact fun _ => rfl

/-- Saving a thread keeps the deadlines. -/
theorem save_deadline (registry : Registry Blocker) (saved : Nat) (kernelCode : Bool) (thread : Nat) :
    ((threadSave registry saved kernelCode).threads thread).deadline = (registry.threads thread).deadline := by
  refine editThread_deadline ?_ thread
  exact fun _ => rfl

end Steps

section Schedules

/-- Threads leave lists, and nothing else changes that matters here. -/
structure Shrinks (before after : Sched cpus Blocker) : Prop where
  running : ∀ cpu, (after.contexts cpu).runThread = (before.contexts cpu).runThread
  lists : ∀ blocker, (after.blocked blocker).Sublist (before.blocked blocker)
  deadlines : ∀ thread, deadlineOf after thread = deadlineOf before thread

/-- `sched_push` leaves the running threads. -/
theorem schedPush_running (sched : Sched cpus Blocker) (thread : Nat) (cpu : Fin (cpus + 1)) :
    ((schedPush sched thread).contexts cpu).runThread = (sched.contexts cpu).runThread := by
  simp only [schedPush]
  generalize pickCpu (fun cpu => contextThreadAmount (sched.contexts cpu)) 0 (2 ^ 63 - 1)
    (List.finRange (cpus + 1)) = picked
  by_cases here : cpu = picked
  · subst here
    rw [Function.update_self]
  · rw [Function.update_of_ne here]

/-- The graveyard is no list of a blocker; the processor may lose its running thread. -/
theorem buried_same (sched : Sched cpus Blocker) (cpu : Fin (cpus + 1)) (kernelCode : Bool) :
    (buryRunning (freeGraveyard sched cpu) cpu kernelCode).blocked = sched.blocked ∧
    (∀ thread, deadlineOf (buryRunning (freeGraveyard sched cpu) cpu kernelCode) thread = deadlineOf sched thread) ∧
    ∀ running, ((buryRunning (freeGraveyard sched cpu) cpu kernelCode).contexts cpu).runThread = some running →
      (sched.contexts cpu).runThread = some running := by
  have freed : ∀ thread, deadlineOf (freeGraveyard sched cpu) thread = deadlineOf sched thread :=
    fun thread => free_deadline _ _ thread
  have same : ((freeGraveyard sched cpu).contexts cpu).runThread = (sched.contexts cpu).runThread := by
    simp only [freeGraveyard, Function.update_self]
  rw [buryRunning]
  split
  · exact ⟨rfl, freed, fun running runs => same ▸ runs⟩
  · simp only
    split
    · refine ⟨rfl, freed, fun running runs => ?_⟩
      simp only [Function.update_self] at runs
      cases runs
    · exact ⟨rfl, freed, fun running runs => same ▸ runs⟩

variable [DecidableEq Blocker]

/-- A look at a blocker takes at most its first thread. -/
theorem updateBlocker_shrinks (uptime : Nat) (sched : Sched cpus Blocker) (blocker : Blocker) :
    Shrinks sched (updateBlocker uptime sched blocker) := by
  have same : Shrinks sched sched := ⟨fun _ => rfl, fun _ => List.Sublist.refl _, fun _ => rfl⟩
  rw [updateBlocker]
  split
  · exact same
  · next first rest listed =>
    split
    · refine ⟨schedPush_running _ first, fun tested => ?_, fun thread => ?_⟩
      · by_cases here : tested = blocker
        · subst here
          simp only [schedPush, Function.update_self, listed]
          exact List.sublist_cons_self _ _
        · simp only [schedPush, Function.update_of_ne here]
          exact List.Sublist.refl _
      · simp only [deadlineOf, schedPush]
        refine editThread_deadline ?_ thread
        exact fun _ => rfl
    · exact same

/-- `sched_update_blockers` only takes threads from lists. -/
theorem updateBlockers_shrinks (uptime : Nat) (sched : Sched cpus Blocker) :
    Shrinks sched (updateBlockers sched uptime) := by
  rw [updateBlockers]
  generalize sched.blockers = blockers
  induction blockers generalizing sched with
  | nil => exact ⟨fun _ => rfl, fun _ => List.Sublist.refl _, fun _ => rfl⟩
  | cons blocker rest ih =>
    have first := updateBlocker_shrinks uptime sched blocker
    have later := ih (updateBlocker uptime sched blocker)
    exact ⟨fun cpu => (later.running cpu).trans (first.running cpu),
      fun tested => (later.lists tested).trans (first.lists tested),
      fun thread => (later.deadlines thread).trans (first.deadlines thread)⟩

/-- The choice of the next thread inserts at most the running thread into a list. -/
theorem chooseNext_inserts (sched : Sched cpus Blocker) (cpu : Fin (cpus + 1)) (trap : Trap) :
    (∀ thread, deadlineOf (chooseNext sched cpu trap) thread = deadlineOf sched thread) ∧
    ((chooseNext sched cpu trap).blocked = sched.blocked ∨
      ∃ running blocker, (sched.contexts cpu).runThread = some running ∧
        (chooseNext sched cpu trap).blocked = Function.update sched.blocked blocker
          (blockerInsert (deadlineOf sched) running (sched.blocked blocker))) := by
  have searched := fun levels fuel queues registry => @find_deadline Blocker levels fuel queues registry
  have loaded := fun registry next => @load_deadline Blocker registry next trap.loadUptime
  have saved := fun registry running => @save_deadline Blocker registry running trap.kernelCode
  simp only [deadlineOf]
  rw [chooseNext]
  split
  · exact ⟨fun thread => (loaded _ _ thread).trans (searched _ _ _ _ thread), .inl rfl⟩
  · next running runs =>
    split
    · next blocker waits =>
      refine ⟨fun thread => ?_, .inr ⟨running, blocker, runs, ?_⟩⟩
      · exact (loaded _ _ thread).trans ((searched _ _ _ _ thread).trans (saved _ running thread))
      · simp only [saved]
        rfl
    · simp only
      split
      · refine ⟨fun thread => ?_, .inl rfl⟩
        split
        · exact searched _ _ _ _ thread
        · exact searched _ _ _ _ thread
      · refine ⟨fun thread => ?_, .inl rfl⟩
        simp only [loaded, saved]
        split
        · exact searched _ _ _ _ thread
        · exact searched _ _ _ _ thread

/-- `sched_schedule` takes threads from lists and inserts at most the one that ran. -/
theorem schedule_changes {sched : Sched cpus Blocker} (exclusive : Exclusive (contents sched))
    (cpu : Fin (cpus + 1)) (trap : Trap) : Changes sched (schedSchedule sched cpu trap) := by
  by_cases deep : trap.trapDepth > 1
  · rw [schedSchedule, if_pos deep]
    exact .same_lists rfl (fun _ _ _ => rfl) fun bounded => bounded
  · rw [schedSchedule, if_neg deep]
    have updated : Shrinks sched (if cpu = 0 then updateBlockers sched trap.blockerUptime else sched) := by
      split_ifs
      · exact updateBlockers_shrinks _ sched
      · exact ⟨fun _ => rfl, fun _ => List.Sublist.refl _, fun _ => rfl⟩
    generalize (if cpu = 0 then updateBlockers sched trap.blockerUptime else sched) = woken at updated
    obtain ⟨lists, kept, runs⟩ := buried_same woken cpu trap.kernelCode
    dsimp only
    generalize buryRunning (freeGraveyard woken cpu) cpu trap.kernelCode = buried at lists kept runs
    obtain ⟨deadlines, inserts⟩ := chooseNext_inserts buried cpu trap
    have all : ∀ thread, deadlineOf (chooseNext buried cpu trap) thread = deadlineOf sched thread :=
      fun thread => (deadlines thread).trans ((kept thread).trans (updated.deadlines thread))
    refine ⟨fun tested => ?_, fun _ thread _ _ => all thread, fun bounded thread => (all thread).symm ▸ bounded thread⟩
    have sub : (buried.blocked tested).Sublist (sched.blocked tested) := lists ▸ updated.lists tested
    rcases inserts with same | ⟨running, blocker, runs', inserted⟩
    · exact ⟨_, sub, .inl (congrFun same tested)⟩
    · by_cases here : tested = blocker
      · subst here
        refine ⟨_, sub, .inr ⟨running, fun other waits => ?_, ?_⟩⟩
        · have ran := (updated.running cpu).symm.trans (runs running runs')
          have place := exclusive.apart (.run cpu) (.blocker other) running (by simp [contents, ran]) waits
          cases place
        · rw [inserted, Function.update_self, funext deadlines]
      · exact ⟨_, sub, .inl ((congrFun inserted tested).trans (Function.update_of_ne here _ _))⟩

/-- Waking the threads of a blocker empties its list, and changes only their deadlines. -/
theorem wakeAll_lists (sched : Sched cpus Blocker) (blocker : Blocker) (threads : List Nat)
    (listed : sched.blocked blocker = threads) :
    (wakeAll sched blocker threads).blocked blocker = [] ∧
    (∀ other, other ≠ blocker → (wakeAll sched blocker threads).blocked other = sched.blocked other) ∧
    (∀ thread, thread ∉ threads → deadlineOf (wakeAll sched blocker threads) thread = deadlineOf sched thread) ∧
    ((∀ thread, deadlineOf sched thread ≤ never) →
      ∀ thread, deadlineOf (wakeAll sched blocker threads) thread ≤ never) := by
  induction threads generalizing sched with
  | nil => exact ⟨listed, fun _ _ => rfl, fun _ _ => rfl, fun bounded => bounded⟩
  | cons first rest ih =>
    have remaining : (wakeFirst sched blocker first rest).blocked blocker = rest := by
      simp [wakeFirst, schedPush]
    obtain ⟨empty, others, kept, below⟩ := ih (wakeFirst sched blocker first rest) remaining
    have deadline : ∀ thread, deadlineOf (wakeFirst sched blocker first rest) thread =
        if thread = first then 0 else deadlineOf sched thread := by
      intro thread
      simp only [deadlineOf, wakeFirst, schedPush, Registry.editThread, Function.update_apply]
      split_ifs
      · rfl
      · rfl
    refine ⟨empty, fun other differs => ?_, fun thread absent => ?_, fun bounded => below fun thread => ?_⟩
    · refine (others other differs).trans ?_
      simp only [wakeFirst, schedPush, Function.update_of_ne differs]
    · rw [List.mem_cons, not_or] at absent
      exact (kept thread absent.2).trans ((deadline thread).trans (if_neg absent.1))
    · rw [deadline]
      split_ifs
      · exact Nat.zero_le _
      · exact bounded thread

omit [DecidableEq Blocker] in
/-- Editing the running thread changes the deadline of no thread that waits. -/
theorem editRunning_changes {sched : Sched cpus Blocker} (exclusive : Exclusive (contents sched))
    (cpu : Fin (cpus + 1)) {edit : Thread Blocker → Thread Blocker}
    (below : ∀ data, data.deadline ≤ never → (edit data).deadline ≤ never) :
    Changes sched (editRunning sched cpu edit) := by
  rw [editRunning]
  split
  · exact .same_lists rfl (fun _ _ _ => rfl) fun bounded => bounded
  · next running runs =>
    refine .same_lists rfl (fun blocker thread waits => ?_) fun bounded thread => ?_
    · have other : thread ≠ running := by
        rintro rfl
        have place := exclusive.apart (.run cpu) (.blocker blocker) thread (by simp [contents, runs]) waits
        cases place
      simp only [deadlineOf, Registry.editThread, Function.update_of_ne other]
    · simp only [deadlineOf, Registry.editThread, Function.update_apply]
      split_ifs
      · exact below _ (bounded running)
      · exact bounded thread

/-- Every step changes the lists like this. -/
theorem step_changes {before after : Sched cpus Blocker} (conserved : Conserved before)
    (taken : Scheduler.Step before after) : Changes before after := by
  have exclusive : Exclusive (contents before) := conserved.balanced.exclusive
  have known : ∀ blocker, ∀ thread ∈ before.blocked blocker, thread ∈ before.registry.createdThreads :=
    fun blocker thread waits => ((conserved.balanced.live thread).mp ⟨.blocker blocker, waits⟩).1
  cases taken with
  | schedule cpu trap => exact schedule_changes exclusive cpu trap
  | spawn process created priority newThread newProcess =>
    refine .same_lists rfl (fun blocker thread waits => ?_) fun bounded thread => ?_
    · have other : thread ≠ created := fun same => newThread (same ▸ known blocker thread waits)
      simp only [deadlineOf, threadNew, Function.update_of_ne other]
    · simp only [deadlineOf, threadNew, Function.update_apply]
      split_ifs
      · exact Nat.zero_le _
      · exact bounded thread
  | split cpu running created priority kernelCode newThread runs =>
    refine .same_lists rfl (fun blocker thread waits => ?_) fun bounded thread => ?_
    · have other : thread ≠ created := fun same => newThread (same ▸ known blocker thread waits)
      simp only [deadlineOf, threadSplit, Function.update_of_ne other]
    · simp only [deadlineOf, threadSplit, Function.update_apply]
      split_ifs
      · exact Nat.zero_le _
      · exact bounded thread
  | push thread created => exact .same_lists rfl (fun _ _ _ => rfl) fun bounded => bounded
  | abandon thread created => exact .same_lists rfl (fun _ _ _ => rfl) fun bounded => bounded
  | block cpu blocker timeout uptime =>
    refine editRunning_changes exclusive cpu fun data _ => ?_
    dsimp only
    split_ifs
    · exact Nat.le_refl _
    · exact Nat.le_pred_of_lt (MachineWords.add_lt timeout uptime)
  | yield cpu => exact editRunning_changes exclusive cpu fun _ below => below
  | threadExit cpu => exact editRunning_changes exclusive cpu fun _ below => below
  | processExit cpu =>
    rw [schedProcessExit]
    split
    · exact .same_lists rfl (fun _ _ _ => rfl) fun bounded => bounded
    · have exited : Changes before (schedThreadExit before cpu) :=
        editRunning_changes exclusive cpu fun _ below => below
      exact ⟨exited.lists, exited.stays, exited.bounded⟩
  | unblock blocker =>
    obtain ⟨empty, others, kept, below⟩ := wakeAll_lists before blocker _ rfl
    refine ⟨fun tested => ?_, fun tested thread waits stays => kept thread ?_, below⟩
    · by_cases here : tested = blocker
      · exact ⟨[], List.nil_sublist _, .inl (here ▸ empty)⟩
      · exact ⟨_, List.Sublist.refl _, .inl (others tested here)⟩
    · intro woken
      have place := exclusive.apart (.blocker tested) (.blocker blocker) thread waits woken
      obtain rfl : tested = blocker := by
        cases place
        rfl
      rw [schedUnblock, empty] at stays
      cases stays
  | blockerInit blocker => exact .same_lists rfl (fun _ _ _ => rfl) fun bounded => bounded
  | blockerCleanup blocker empty => exact .same_lists rfl (fun _ _ _ => rfl) fun bounded => bounded

end Schedules

section Results

variable [DecidableEq Blocker]

/-- The lists are in order, and their threads joined in earlier steps. -/
structure Ordered (sched : Sched cpus Blocker) (joined : Nat → Nat) (steps : Nat) : Prop where
  sorted : ∀ blocker, (sched.blocked blocker).Pairwise (Precedes sched joined)
  earlier : ∀ blocker, ∀ thread ∈ sched.blocked blocker, joined thread < steps
  bounded : ∀ thread, deadlineOf sched thread ≤ never

omit [DecidableEq Blocker] in
/-- A thread that waited joins no list. -/
theorem Changes.not_joins {before after : Sched cpus Blocker} (changes : Changes before after) {blocker : Blocker}
    {thread : Nat} (waits : thread ∈ before.blocked blocker) : ¬ Joins before after thread := by
  rintro ⟨other, inside, absent⟩
  obtain ⟨rest, sub, same | ⟨inserted, free, same⟩⟩ := changes.lists other
  · exact absent (sub.subset (same ▸ inside))
  · rw [same, (blockerInsert_perm _ inserted rest).mem_iff] at inside
    rcases List.mem_cons.mp inside with rfl | stayed
    · exact free blocker waits
    · exact absent (sub.subset stayed)

omit [DecidableEq Blocker] in
/-- A step keeps the order. -/
theorem Ordered.step {before after : Sched cpus Blocker} {joined : Nat → Nat} {steps : Nat}
    (ordered : Ordered before joined steps) (changes : Changes before after) :
    Ordered after (joinedAfter before after joined steps) (steps + 1) := by
  have old : ∀ blocker, ∀ thread ∈ before.blocked blocker,
      joinedAfter before after joined steps thread = joined thread :=
    fun blocker thread waits => if_neg (changes.not_joins waits)
  refine ⟨fun blocker => ?_, fun blocker thread inside => ?_, changes.bounded ordered.bounded⟩
  · obtain ⟨rest, sub, result⟩ := changes.lists blocker
    have inside : ∀ thread ∈ rest, thread ∈ after.blocked blocker := by
      intro thread member
      rcases result with same | ⟨inserted, -, same⟩
      · exact same ▸ member
      · rw [same, (blockerInsert_perm _ inserted rest).mem_iff]
        exact List.mem_cons_of_mem _ member
    -- Who stays keeps its deadline and the step in which it joined.
    have remaining : rest.Pairwise (Precedes after (joinedAfter before after joined steps)) := by
      refine ((ordered.sorted blocker).sublist sub).imp_of_mem fun {first second} inFirst inSecond precedes => ?_
      rw [Precedes, changes.stays blocker first (sub.subset inFirst) (inside first inFirst),
        changes.stays blocker second (sub.subset inSecond) (inside second inSecond),
        old blocker first (sub.subset inFirst), old blocker second (sub.subset inSecond)]
      exact precedes
    rcases result with same | ⟨inserted, free, same⟩
    · rw [same]
      exact remaining
    · have joins : Joins before after inserted := by
        refine ⟨blocker, ?_, free blocker⟩
        rw [same, (blockerInsert_perm _ inserted rest).mem_iff]
        exact List.mem_cons_self
      rw [same, blockerInsert_eq]
      refine OrderedLists.place_pairwise remaining ?_ (fun other later => .inl later) fun other member notLater => ?_
      · rintro first second (less | ⟨equal, -⟩)
        · exact Nat.le_of_lt less
        · exact Nat.le_of_eq equal
      · rcases Nat.lt_or_eq_of_le notLater with less | equal
        · exact .inl less
        · refine .inr ⟨equal, ?_⟩
          rw [old blocker other (sub.subset member), joinedAfter, if_pos joins]
          exact ordered.earlier blocker other (sub.subset member)
  · rw [joinedAfter]
    split_ifs with joins
    · exact Nat.lt_succ_self steps
    · have waited : thread ∈ before.blocked blocker := by
        by_contra absent
        exact joins ⟨blocker, inside, absent⟩
      exact Nat.lt_succ_of_lt (ordered.earlier blocker thread waited)

/-- The state of a run is reachable. -/
theorem Run.reachable {sched : Sched cpus Blocker} {joined : Nat → Nat} {steps : Nat} (run : Run sched joined steps) :
    Runs.Reachable Initial Scheduler.Step sched := by
  induction run with
  | start sched initial => exact ⟨sched, initial, .refl⟩
  | step earlier taken ih => exact ih.step taken

/-- In every run the lists are in order. -/
theorem Run.ordered {sched : Sched cpus Blocker} {joined : Nat → Nat} {steps : Nat} (run : Run sched joined steps) :
    Ordered sched joined steps := by
  induction run with
  | start sched initial =>
    obtain ⟨process, thread, rfl⟩ := initial
    refine ⟨fun _ => List.Pairwise.nil, fun _ _ member => absurd member List.not_mem_nil, fun other => ?_⟩
    simp only [deadlineOf, schedInit, threadNew, Registry.editThread, Function.update_apply]
    split_ifs
    · exact Nat.zero_le _
    · exact Nat.zero_le _
  | step earlier taken ih =>
    exact ih.step (step_changes (reachable_conserved earlier.reachable) taken)

/-- In every run the threads of a blocker are in the order of their deadlines, and of joining where
these are equal. The first one has the smallest deadline, and behind one that waits for ever there
are only such. -/
theorem blocker_lists_sorted {sched : Sched cpus Blocker} {joined : Nat → Nat} {steps : Nat}
    (run : Run sched joined steps) (blocker : Blocker) :
    (sched.blocked blocker).Pairwise (Precedes sched joined) ∧
    (∀ first ∈ (sched.blocked blocker).head?, ∀ thread ∈ sched.blocked blocker,
      deadlineOf sched first ≤ deadlineOf sched thread) ∧
    ∀ ahead sleeper behind, sched.blocked blocker = ahead ++ sleeper :: behind → deadlineOf sched sleeper = never →
      ∀ thread ∈ behind, deadlineOf sched thread = never := by
  have ordered := run.ordered
  have sorted := ordered.sorted blocker
  have grows : ∀ first second, Precedes sched joined first second →
      deadlineOf sched first ≤ deadlineOf sched second := by
    rintro first second (less | ⟨equal, -⟩)
    · exact Nat.le_of_lt less
    · exact Nat.le_of_eq equal
  refine ⟨sorted, fun first head thread member => ?_, fun ahead sleeper behind split waits thread member => ?_⟩
  · obtain ⟨rest, listed⟩ := List.head?_eq_some_iff.mp head
    rw [listed] at sorted member
    rcases List.mem_cons.mp member with rfl | inRest
    · exact Nat.le_refl _
    · exact grows first thread (List.rel_of_pairwise_cons sorted inRest)
  · rw [split, List.pairwise_append] at sorted
    have later := grows sleeper thread (List.rel_of_pairwise_cons sorted.2.1 member)
    exact Nat.le_antisymm (ordered.bounded thread) (waits ▸ later)

/-- An interrupt of a processor. -/
def firstTrap : Trap := ⟨true, 1, 7, 7, 7⟩

/-- A second thread is created and queued. -/
def twoThreads : Sched 0 Unit :=
  schedPush { (schedInit 0 0 : Sched 0 Unit) with
    registry := threadNew (schedInit 0 0 : Sched 0 Unit).registry 1 1 2
    pushed := [1, 0] } 1

/-- The running thread blocks for a time. -/
def blocks (sched : Sched 0 Unit) (timeout : Nat) : Sched 0 Unit :=
  schedSchedule (schedBlock sched 0 () timeout 7) 0 firstTrap

/-- The first thread blocks for nine nanoseconds, and the second one, which blocks for five, waits
before it. -/
theorem blocker_lists_sorted_sample : (blocks (blocks twoThreads 9) 5).blocked () = [1, 0] ∧
    deadlineOf (blocks (blocks twoThreads 9) 5) 1 < deadlineOf (blocks (blocks twoThreads 9) 5) 0 ∧
    ∃ joined, ((blocks (blocks twoThreads 9) 5).blocked ()).Pairwise
      (Precedes (blocks (blocks twoThreads 9) 5) joined) := by
  have created : ∃ joined steps, Run twoThreads joined steps :=
    ⟨_, _, ((Run.start (schedInit 0 0) ⟨0, 0, rfl⟩).step (.spawn _ 1 1 2 (by decide) (by decide))).step
      (.push _ 1 List.mem_cons_self)⟩
  obtain ⟨_, _, run⟩ := created
  have first : Run (blocks twoThreads 9) _ _ := (run.step (.block _ 0 () 9 7)).step (.schedule _ 0 firstTrap)
  have second : Run (blocks (blocks twoThreads 9) 5) _ _ :=
    (first.step (.block _ 0 () 5 7)).step (.schedule _ 0 firstTrap)
  exact ⟨rfl, by decide, _, (blocker_lists_sorted second ()).1⟩

end Results

end Asym.DeadlineOrder
