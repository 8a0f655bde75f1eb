import Asym.ThreadPlaces

/-!
# The choice of a queued thread

`sched_context_find_any` and `sched_context_find_higher` pop threads from the priority
queues, the highest priority first. A dead thread is freed, and the search starts again.

With the last thread of a process its files are closed, and their cleanups may wake
threads: that of a window makes the window manager redraw, that of a pipe wakes the other
end. `sched_push` may put them into the very queues that are searched. Which threads the
cleanups of a process put there is a parameter. Such a thread was saved inside the kernel,
where `sched_block` waits, so that it is not dead, whatever became of its process.

A woken thread may therefore stop a search before a dead thread of a lower priority is
reached, and it may be found where all queued threads were dead. But for that the search
takes a prefix of the queued threads, in the order of decreasing priority and first in,
first out within a priority. The search of the source, with the length fields of the
queues, does what a scan of their lists does, and it ends after at most as many turns as
there were dead threads.
-/

namespace Asym.ThreadSelection

open Scheduler ThreadPlaces

/-- The queued threads in the order in which a scan meets them. -/
def order (levels : List Priority) (queues : Queues) : List Nat := levels.flatMap queues

/-- The same threads, with the levels at which they are queued. -/
def ranked (levels : List Priority) (queues : Queues) : List (Priority × Nat) :=
  levels.flatMap fun level => (queues level).map (Prod.mk level)

/-- Threads are taken from the fronts of queues, and all others stay. -/
def Taken (levels : List Priority) (queues : Queues) (threads : List Nat) (left : Queues) : Prop :=
  ∃ removed : Priority → List Nat, (∀ level, queues level = removed level ++ left level) ∧
    (order levels removed).Perm threads ∧ ∀ level ∉ levels, removed level = []

section Scan

variable {levels : List Priority} {queues popped left : Queues} {thread : Nat} {threads : List Nat}

/-- Nothing is taken. -/
theorem Taken.none (levels : List Priority) (queues : Queues) : Taken levels queues [] queues :=
  ⟨fun _ => [], fun _ => rfl, by simp [order], fun _ _ => rfl⟩

/-- The first thread of a scan is popped from a level below which it does not look. -/
theorem popFirst_split (found : popFirst queues levels = some (thread, popped)) :
    ∃ above level below rest, levels = above ++ level :: below ∧ (∀ higher ∈ above, queues higher = []) ∧
      queues level = thread :: rest ∧ popped = Function.update queues level rest := by
  induction levels with
  | nil => contradiction
  | cons first lower ih =>
    rw [popFirst] at found
    split at found
    · next empty =>
      obtain ⟨above, level, below, rest, rfl, silent, here, update⟩ := ih found
      exact ⟨first :: above, level, below, rest, rfl, List.forall_mem_cons.mpr ⟨empty, silent⟩, here, update⟩
    · next front rest here =>
      simp only [Option.some.injEq, Prod.mk.injEq] at found
      obtain ⟨rfl, rfl⟩ := found
      exact ⟨[], first, lower, rest, rfl, List.forall_mem_nil _, here, rfl⟩

/-- A scan over the levels around one, where a queue has been replaced. -/
theorem flatMap_update {Item : Type} (queues : Queues) (read : Priority → List Nat → List Item)
    {above below : List Priority} {level : Priority} (once : (above ++ level :: below).Nodup) (queue : List Nat) :
    ((above ++ level :: below).flatMap fun tested => read tested (Function.update queues level queue tested)) =
      (above.flatMap fun tested => read tested (queues tested)) ++
        (read level queue ++ below.flatMap fun tested => read tested (queues tested)) := by
  obtain ⟨-, notBelow, apart⟩ := List.nodup_append.mp once
  have notAbove : level ∉ above := fun member => apart level member level List.mem_cons_self rfl
  have unchanged (others : List Priority) (absent : level ∉ others) :
      (others.flatMap fun tested => read tested (Function.update queues level queue tested)) =
        others.flatMap fun tested => read tested (queues tested) := by
    refine List.flatMap_congr fun other member => ?_
    rw [Function.update_of_ne]
    rintro rfl
    exact absent member
  rw [List.flatMap_append, List.flatMap_cons, Function.update_self, unchanged above notAbove,
    unchanged below (List.nodup_cons.mp notBelow).1]

/-- Popping takes the first thread of the order. -/
theorem ranked_pop (once : levels.Nodup) (found : popFirst queues levels = some (thread, popped)) :
    ∃ level ∈ levels, ∃ rest, queues level = thread :: rest ∧ popped = Function.update queues level rest ∧
      ranked levels queues = (level, thread) :: ranked levels popped := by
  obtain ⟨above, level, below, rest, rfl, silent, here, rfl⟩ := popFirst_split found
  have first : (above.flatMap fun tested => (queues tested).map (Prod.mk tested)) = [] := by
    rw [List.flatMap_eq_nil_iff]
    intro higher member
    rw [silent higher member, List.map_nil]
  refine ⟨level, by simp, rest, here, rfl, ?_⟩
  have before := flatMap_update queues (fun tested => List.map (Prod.mk tested)) once (thread :: rest)
  rw [← here, Function.update_eq_self, here, first] at before
  have after := flatMap_update queues (fun tested => List.map (Prod.mk tested)) once rest
  rw [first] at after
  rw [ranked, ranked, before, after]
  rfl

end Scan

section Wakes

variable {Blocker : Type} (woken : Nat → List Nat)

/-- The threads that are woken when a thread is freed: those of its process, if it was the
last thread of the process. -/
def wokenBy (registry : Registry Blocker) (thread : Nat) : List Nat :=
  let process := (registry.threads thread).process
  if (registry.processes process).ref ≤ 1 then woken process else []

/-- What `sched_unblock` writes to a thread. -/
def wakeThread (registry : Registry Blocker) (thread : Nat) : Registry Blocker :=
  registry.editThread thread fun data => { data with deadline := 0, result := .norm, blocker := none }

/-- `thread_free`, with the cleanups of the process. -/
def freeThread (registry : Registry Blocker) (thread : Nat) : Registry Blocker :=
  (wokenBy woken registry thread).foldl wakeThread (threadFree registry thread)

/-- All threads that are woken when threads are freed one after the other. -/
def wokenAll : Registry Blocker → List Nat → List Nat
  | _, [] => []
  | registry, thread :: rest =>
      wokenBy woken registry thread ++ wokenAll (freeThread woken registry thread) rest

/-- Threads are given to `sched_context_push`. -/
def pushAll (registry : Registry Blocker) (queues : Queues) (threads : List Nat) : Queues :=
  threads.foldl (fun queues thread => contextPush queues thread (registry.threads thread).priority) queues

/-- The threads that a search frees: the dead ones before the first live thread, up to the
first below the priority of a thread that was woken. -/
def passed : Registry Blocker → List Nat → List (Priority × Nat) → List Nat
  | _, _, [] => []
  | registry, seen, (level, thread) :: rest =>
      if dead registry thread = true ∧ ∀ other ∈ seen, (registry.threads other).priority ≤ level then
        thread :: passed (freeThread woken registry thread) (wokenBy woken registry thread ++ seen) rest
      else []

/-- The threads that a search over levels frees. -/
def freed (levels : List Priority) (queues : Queues) (registry : Registry Blocker) : List Nat :=
  passed woken registry [] (ranked levels queues)

/-- The queues with the threads that are woken during a search. -/
def entered (levels : List Priority) (queues : Queues) (registry : Registry Blocker) : Queues :=
  pushAll registry queues (wokenAll woken registry (freed woken levels queues registry))

/-- The scan of `sched_context_find_any` and `sched_context_find_higher` over their levels. -/
def findThread (levels : List Priority) :
    Nat → Queues → Registry Blocker → Option Nat × Queues × Registry Blocker
  | 0, queues, registry => (none, queues, registry)
  | fuel + 1, queues, registry =>
      match popFirst queues levels with
      | none => (none, queues, registry)
      | some (thread, popped) =>
          if dead registry thread then
            findThread levels fuel (pushAll registry popped (wokenBy woken registry thread))
              (freeThread woken registry thread)
          else (some thread, popped, registry)

variable {woken} {levels : List Priority} {queues popped : Queues} {registry after : Registry Blocker}

/-- What freeing and waking keep: the priorities, which threads are dead, and which
processes are killed. -/
structure Alike (registry after : Registry Blocker) : Prop where
  priority : ∀ thread, (after.threads thread).priority = (registry.threads thread).priority
  dead : dead after = dead registry
  killed : ∀ process, (after.processes process).killed = (registry.processes process).killed
  process : ∀ thread, (after.threads thread).process = (registry.threads thread).process

/-- The same registry. -/
theorem Alike.refl (registry : Registry Blocker) : Alike registry registry :=
  ⟨fun _ => rfl, rfl, fun _ => rfl, fun _ => rfl⟩

/-- Changes one after the other. -/
theorem Alike.trans {later : Registry Blocker} (first : Alike registry after) (second : Alike after later) :
    Alike registry later where
  priority thread := (second.priority thread).trans (first.priority thread)
  dead := second.dead.trans first.dead
  killed process := (second.killed process).trans (first.killed process)
  process thread := (second.process thread).trans (first.process thread)

/-- A list of changes. -/
theorem Alike.foldl {change : Registry Blocker → Nat → Registry Blocker}
    (each : ∀ registry thread, Alike registry (change registry thread)) (threads : List Nat)
    (registry : Registry Blocker) : Alike registry (threads.foldl change registry) := by
  induction threads generalizing registry with
  | nil => exact .refl registry
  | cons thread rest ih => exact (each registry thread).trans (ih _)

/-- Freeing a thread. -/
theorem Alike.threadFree (registry : Registry Blocker) (thread : Nat) :
    Alike registry (Scheduler.threadFree registry thread) := by
  have killed (process : Nat) : ((Scheduler.threadFree registry thread).processes process).killed =
      (registry.processes process).killed := by
    by_cases same : process = (registry.threads thread).process
    · simp [Scheduler.threadFree, same]
    · simp [Scheduler.threadFree, same]
  refine ⟨fun _ => rfl, ?_, killed, fun _ => rfl⟩
  funext tested
  rw [Scheduler.dead, killed]
  rfl

/-- Waking a thread. -/
theorem Alike.wakeThread (registry : Registry Blocker) (thread : Nat) :
    Alike registry (ThreadSelection.wakeThread registry thread) := by
  have kept (tested : Nat) : ((ThreadSelection.wakeThread registry thread).threads tested).priority =
        (registry.threads tested).priority ∧
      ((ThreadSelection.wakeThread registry thread).threads tested).process = (registry.threads tested).process ∧
      ((ThreadSelection.wakeThread registry thread).threads tested).kernelCode =
        (registry.threads tested).kernelCode := by
    by_cases same : tested = thread
    · subst same
      simp [ThreadSelection.wakeThread, Registry.editThread]
    · simp [ThreadSelection.wakeThread, Registry.editThread, same]
  refine ⟨fun tested => (kept tested).1, ?_, fun _ => rfl, fun tested => (kept tested).2.1⟩
  funext tested
  rw [Scheduler.dead, (kept tested).2.1, (kept tested).2.2]
  rfl

/-- Freeing a thread, and waking others. -/
theorem Alike.freeThread (woken : Nat → List Nat) (registry : Registry Blocker) (thread : Nat) :
    Alike registry (ThreadSelection.freeThread woken registry thread) :=
  (Alike.threadFree registry thread).trans (Alike.foldl Alike.wakeThread _ _)

/-- A queue holds the threads pushed that have its level. -/
theorem pushAll_apply (registry : Registry Blocker) (queues : Queues) (threads : List Nat) (level : Priority) :
    pushAll registry queues threads level =
      queues level ++ threads.filter fun thread => (registry.threads thread).priority = level := by
  induction threads generalizing queues with
  | nil => simp [pushAll]
  | cons thread rest ih =>
    rw [pushAll, List.foldl_cons, ← pushAll, ih, contextPush]
    by_cases here : (registry.threads thread).priority = level
    · subst here
      simp
    · rw [Function.update_of_ne (Ne.symm here), List.filter_cons_of_neg (by simpa using here)]

/-- Threads pushed one after the other. -/
theorem pushAll_append (registry : Registry Blocker) (queues : Queues) (first second : List Nat) :
    pushAll registry queues (first ++ second) = pushAll registry (pushAll registry queues first) second :=
  List.foldl_append

/-- Only the priorities decide where threads are pushed. -/
theorem Alike.pushAll (same : Alike registry after) (queues : Queues) (threads : List Nat) :
    ThreadSelection.pushAll after queues threads = ThreadSelection.pushAll registry queues threads := by
  funext level
  rw [pushAll_apply, pushAll_apply]
  simp only [same.priority]

/-- Threads may be pushed before or after another is popped. -/
theorem pushAll_update (registry : Registry Blocker) (queues : Queues) (threads : List Nat) (level : Priority)
    (thread : Nat) (rest : List Nat) (here : queues level = thread :: rest) :
    ∃ others, pushAll registry queues threads level = thread :: others ∧
      pushAll registry (Function.update queues level rest) threads =
        Function.update (pushAll registry queues threads) level others := by
  refine ⟨rest ++ threads.filter fun thread => (registry.threads thread).priority = level, ?_, ?_⟩
  · rw [pushAll_apply, here]
    rfl
  · funext tested
    rw [pushAll_apply]
    by_cases same : tested = level
    · subst same
      rw [Function.update_self, Function.update_self]
    · rw [Function.update_of_ne same, Function.update_of_ne same, pushAll_apply]

variable (woken) in
/-- The threads that may be woken are not dead. -/
def Awake (registry : Registry Blocker) : Prop :=
  ∀ process, ∀ thread ∈ woken process, dead registry thread = false

/-- Threads stay awake. -/
theorem Alike.awake (same : Alike registry after) (awake : Awake woken registry) : Awake woken after := by
  intro process thread member
  rw [same.dead]
  exact awake process thread member

/-- Freeing a thread wakes no dead one. -/
theorem Awake.by (awake : Awake woken registry) (thread : Nat) :
    ∀ other ∈ wokenBy woken registry thread, dead registry other = false := by
  intro other member
  rw [wokenBy] at member
  split_ifs at member
  · exact awake _ other member
  · cases member

/-- What was woken before matters only as a set. -/
theorem passed_congr (pairs : List (Priority × Nat)) (registry : Registry Blocker) {seen more : List Nat}
    (same : ∀ other, other ∈ seen ↔ other ∈ more) :
    passed woken registry seen pairs = passed woken registry more pairs := by
  induction pairs generalizing registry seen more with
  | nil => rfl
  | cons pair rest ih =>
    obtain ⟨level, thread⟩ := pair
    rw [passed, passed]
    simp only [same]
    split_ifs
    · rw [ih]
      intro other
      rw [List.mem_append, List.mem_append, same]
    · rfl

/-- A woken thread does not stop a search at levels that are not below its priority. -/
theorem passed_skip {thread : Nat} (pairs before after : List (Priority × Nat))
    (above : ∀ pair ∈ pairs, (registry.threads thread).priority ≤ pair.1) (seen : List Nat)
    (tail : ∀ later, Alike registry later → ∀ seen,
      passed woken later seen after = passed woken later (thread :: seen) before) :
    passed woken registry seen (pairs ++ after) = passed woken registry (thread :: seen) (pairs ++ before) := by
  induction pairs generalizing registry seen with
  | nil => exact tail registry (.refl registry) seen
  | cons pair rest ih =>
    obtain ⟨level, front⟩ := pair
    rw [List.forall_mem_cons] at above
    have same := Alike.freeThread woken registry front
    rw [List.cons_append, List.cons_append, passed, passed]
    simp only [List.forall_mem_cons, above.1, true_and]
    split_ifs
    · rw [ih]
      · rw [passed_congr]
        intro other
        simp only [List.mem_cons, List.mem_append]
        tauto
      · intro pair member
        rw [same.priority]
        exact above.2 pair member
      · exact fun later alike => tail later (same.trans alike)
    · rfl

/-- The levels of a scan. -/
theorem ranked_level {pair : Priority × Nat} (member : pair ∈ ranked levels queues) : pair.1 ∈ levels := by
  obtain ⟨level, looked, member⟩ := List.mem_flatMap.mp member
  obtain ⟨thread, -, rfl⟩ := List.mem_map.mp member
  exact looked

/-- At levels below its priority, a woken thread stops a search. -/
theorem passed_below {thread : Nat} {pairs : List (Priority × Nat)}
    (below : ∀ pair ∈ pairs, pair.1 < (registry.threads thread).priority) (seen : List Nat) :
    passed woken registry (thread :: seen) pairs = [] := by
  cases pairs with
  | nil => rfl
  | cons pair rest =>
    obtain ⟨level, other⟩ := pair
    rw [passed, if_neg]
    rintro ⟨-, reached⟩
    exact absurd (below _ List.mem_cons_self) (not_lt.mpr (reached thread List.mem_cons_self))

/-- A thread that is pushed stops a search as one that was woken. -/
theorem passed_push (sorted : levels.Pairwise (· > ·))
    (upward : ∀ level ∈ levels, ∀ higher, level < higher → higher ∈ levels) {thread : Nat}
    (alive : dead registry thread = false) (seen : List Nat) :
    passed woken registry seen (ranked levels
        (contextPush queues thread (registry.threads thread).priority)) =
      passed woken registry (thread :: seen) (ranked levels queues) := by
  generalize priorityOf : (registry.threads thread).priority = priority
  by_cases looked : priority ∈ levels
  · obtain ⟨above, below, rfl⟩ := List.append_of_mem looked
    have once : (above ++ priority :: below).Nodup := sorted.imp ne_of_gt
    rw [List.pairwise_append, List.pairwise_cons] at sorted
    let here := (queues priority).map (Prod.mk priority)
    have before : ranked (above ++ priority :: below) queues =
        (ranked above queues ++ here) ++ ranked below queues := by
      simp [ranked, here]
    have after : ranked (above ++ priority :: below) (contextPush queues thread priority) =
        (ranked above queues ++ here) ++ (priority, thread) :: ranked below queues := by
      rw [contextPush, ranked, flatMap_update queues (fun tested => List.map (Prod.mk tested)) once]
      simp [ranked, here]
    rw [before, after]
    refine passed_skip _ _ _ (fun pair member => ?_) seen fun later same seen => ?_
    · rw [priorityOf]
      rcases List.mem_append.mp member with higher | level
      · exact le_of_lt (sorted.2.2 _ (ranked_level higher) priority List.mem_cons_self)
      · obtain ⟨other, -, rfl⟩ := List.mem_map.mp level
        exact le_rfl
    · rw [passed, same.dead, alive, if_neg fun facts => Bool.false_ne_true facts.1, passed_below]
      intro pair member
      rw [same.priority, priorityOf]
      exact sorted.2.1.1 _ (ranked_level member)
  · have unchanged : ranked levels (contextPush queues thread priority) = ranked levels queues := by
      refine List.flatMap_congr fun level member => ?_
      rw [contextPush, Function.update_of_ne]
      rintro rfl
      exact looked member
    rw [unchanged]
    have skipped : passed woken registry seen (ranked levels queues ++ []) =
        passed woken registry (thread :: seen) (ranked levels queues ++ []) := by
      refine passed_skip _ _ _ (fun pair member => ?_) seen fun _ _ _ => rfl
      rw [priorityOf]
      exact not_lt.mp fun less => looked (upward _ (ranked_level member) priority less)
    rwa [List.append_nil] at skipped

/-- Threads that are pushed stop a search as threads that were woken. -/
theorem passed_pushAll (sorted : levels.Pairwise (· > ·))
    (upward : ∀ level ∈ levels, ∀ higher, level < higher → higher ∈ levels) (threads seen : List Nat)
    (queues : Queues) (alive : ∀ thread ∈ threads, dead registry thread = false) :
    passed woken registry seen (ranked levels (pushAll registry queues threads)) =
      passed woken registry (threads ++ seen) (ranked levels queues) := by
  induction threads generalizing queues with
  | nil => rfl
  | cons thread rest ih =>
    rw [List.forall_mem_cons] at alive
    rw [pushAll, List.foldl_cons, ← pushAll, ih _ alive.2, passed_push sorted upward alive.1]
    rfl

end Wakes

section Selection

variable {Blocker : Type} {woken : Nat → List Nat} {levels : List Priority} {queues popped left : Queues}
variable {registry after : Registry Blocker} {thread : Nat} {threads : List Nat}

/-- The first thread of a queue in the order of a scan. -/
theorem order_split (once : levels.Nodup) {level : Priority} (looked : level ∈ levels) {others : List Nat}
    (here : queues level = thread :: others) : ∃ before after, order levels queues = before ++ thread :: after ∧
      order levels (Function.update queues level others) = before ++ after := by
  obtain ⟨above, below, rfl⟩ := List.append_of_mem looked
  refine ⟨order above queues, others ++ order below queues, ?_, ?_⟩
  · simp [order, here]
  · exact flatMap_update queues (fun _ => id) once others

/-- A scan meets the threads that are queued. -/
theorem ranked_order (levels : List Priority) (queues : Queues) :
    (ranked levels queues).map Prod.snd = order levels queues := by
  rw [ranked, order, List.map_flatMap]
  refine List.flatMap_congr fun level _ => ?_
  rw [List.map_map]
  exact List.map_id _

/-- One more thread is taken from the front of a queue. -/
theorem Taken.pop (once : levels.Nodup) {level : Priority} (looked : level ∈ levels) {others : List Nat}
    (here : queues level = thread :: others)
    (later : Taken levels (Function.update queues level others) threads left) :
    Taken levels queues (thread :: threads) left := by
  obtain ⟨removed, parts, taken, outside⟩ := later
  refine ⟨Function.update removed level (thread :: removed level), ?_, ?_, ?_⟩
  · intro tested
    have part := parts tested
    by_cases same : tested = level
    · subst same
      rw [Function.update_self] at part
      rw [here, Function.update_self, List.cons_append, ← part]
    · rw [Function.update_of_ne same] at part
      rw [Function.update_of_ne same, part]
  · obtain ⟨before, after, whole, rest⟩ := order_split once looked
      (Function.update_self level (thread :: removed level) removed)
    rw [Function.update_idem, Function.update_eq_self] at rest
    rw [whole]
    rw [rest] at taken
    exact List.perm_middle.trans (taken.cons thread)
  · intro tested absent
    rw [Function.update_of_ne, outside tested absent]
    rintro rfl
    exact absent looked

/-- The number of dead threads that a scan meets. -/
def deadAmount (levels : List Priority) (queues : Queues) (registry : Registry Blocker) : Nat :=
  (order levels queues).countP (dead registry)

/-- Threads that are woken are not dead. -/
theorem deadAmount_pushAll (alive : ∀ thread ∈ threads, dead registry thread = false) :
    deadAmount levels (pushAll registry queues threads) registry = deadAmount levels queues registry := by
  rw [deadAmount, deadAmount, order, order, List.countP_flatMap, List.countP_flatMap]
  congr 1
  refine List.map_congr_left fun level _ => ?_
  rw [Function.comp_apply, Function.comp_apply, pushAll_apply, List.countP_append, Nat.add_eq_left,
    List.countP_eq_zero]
  intro other member
  rw [alive other (List.mem_of_mem_filter member)]
  exact Bool.false_ne_true

/-- A search frees a dead thread at the front, and goes on with the threads that it wakes. -/
theorem freed_cons (sorted : levels.Pairwise (· > ·))
    (upward : ∀ level ∈ levels, ∀ higher, level < higher → higher ∈ levels) (awake : Awake woken registry)
    {level : Priority} (front : ranked levels queues = (level, thread) :: ranked levels popped)
    (isDead : dead registry thread = true) : freed woken levels queues registry = thread ::
      freed woken levels (pushAll registry popped (wokenBy woken registry thread))
        (freeThread woken registry thread) := by
  have same := Alike.freeThread woken registry thread
  have alive : ∀ other ∈ wokenBy woken registry thread, dead (freeThread woken registry thread) other = false := by
    rw [same.dead]
    exact awake.by thread
  rw [freed, front, passed, if_pos ⟨isDead, List.forall_mem_nil _⟩, freed, ← same.pushAll,
    passed_pushAll sorted upward _ _ _ alive]

/-- A search frees no thread when the first one is alive. -/
theorem freed_nil (awake : dead registry thread = false) {level : Priority}
    (front : ranked levels queues = (level, thread) :: ranked levels popped) :
    freed woken levels queues registry = [] := by
  rw [freed, front, passed, if_neg]
  rintro ⟨isDead, -⟩
  rw [awake] at isDead
  cases isDead

/-- What a search does. It frees the dead threads at the front, up to the first below the
priority of a thread that was woken, and finds the first live thread among those queued
before and those woken by it. The freed threads and the found one are taken from the
queues. -/
structure Selects (woken : Nat → List Nat) (levels : List Priority) (queues : Queues)
    (registry : Registry Blocker) (found : Option Nat) (left : Queues) (after : Registry Blocker) : Prop where
  first : found = (order levels (entered woken levels queues registry)).find? fun thread => !dead registry thread
  freed : after = (freed woken levels queues registry).foldl (freeThread woken) registry
  taken : Taken levels (entered woken levels queues registry)
    (ThreadSelection.freed woken levels queues registry ++ found.toList) left

/-- The scan selects the first thread that is not dead. -/
theorem findThread_selects (sorted : levels.Pairwise (· > ·))
    (upward : ∀ level ∈ levels, ∀ higher, level < higher → higher ∈ levels) (fuel : Nat) (queues : Queues)
    (registry : Registry Blocker) (awake : Awake woken registry)
    (enough : deadAmount levels queues registry < fuel) :
    Selects woken levels queues registry (findThread woken levels fuel queues registry).1
      (findThread woken levels fuel queues registry).2.1 (findThread woken levels fuel queues registry).2.2 := by
  have once : levels.Nodup := sorted.imp ne_of_gt
  induction fuel generalizing queues registry with
  | zero => omega
  | succ fuel ih =>
    rw [findThread]
    cases found : popFirst queues levels with
    | none =>
      have silent := popFirst_none found
      have empty : order levels queues = [] := List.flatMap_eq_nil_iff.mpr silent
      have none : ranked levels queues = [] := by
        rw [← List.map_eq_nil_iff, ranked_order, empty]
      have nothing : freed woken levels queues registry = [] := by
        rw [freed, none]
        rfl
      have same : entered woken levels queues registry = queues := by
        rw [entered, nothing]
        rfl
      refine ⟨?_, ?_, ?_⟩
      · rw [same, empty]
        rfl
      · rw [nothing]
        rfl
      · rw [same, nothing]
        exact Taken.none levels queues
    | some pair =>
      obtain ⟨thread, popped⟩ := pair
      obtain ⟨level, looked, rest, here, rfl, front⟩ := ranked_pop once found
      have order_front : order levels queues = thread :: order levels (Function.update queues level rest) := by
        rw [← ranked_order, ← ranked_order, front]
        rfl
      simp only
      split
      · next isDead =>
        have same := Alike.freeThread woken registry thread
        have fewer : deadAmount levels (pushAll registry (Function.update queues level rest)
            (wokenBy woken registry thread)) (freeThread woken registry thread) < fuel := by
          rw [deadAmount, same.dead, ← deadAmount, deadAmount_pushAll (awake.by thread), deadAmount]
          rw [deadAmount, order_front, List.countP_cons_of_pos isDead] at enough
          omega
        obtain ⟨first, freed, taken⟩ := ih _ _ (same.awake awake) fewer
        have frees := freed_cons sorted upward awake front isDead
        obtain ⟨others, ahead, enters⟩ := pushAll_update registry queues
          (wokenAll woken registry (ThreadSelection.freed woken levels queues registry)) level thread rest here
        rw [← entered] at ahead enters
        have joined : entered woken levels (pushAll registry (Function.update queues level rest)
            (wokenBy woken registry thread)) (freeThread woken registry thread) =
            Function.update (entered woken levels queues registry) level others := by
          rw [← enters, entered, same.pushAll, ← pushAll_append, frees]
          rfl
        obtain ⟨before, after, whole, shorter⟩ := order_split once looked ahead
        rw [joined] at first taken
        refine ⟨?_, ?_, ?_⟩
        · rw [first, same.dead, shorter, whole, List.find?_append, List.find?_append,
            List.find?_cons_of_neg]
          simp [isDead]
        · rw [freed, frees, List.foldl_cons]
        · rw [frees]
          exact taken.pop once looked ahead
      · next alive =>
        have lives : dead registry thread = false := by simpa using alive
        have nothing : freed woken levels queues registry = [] := freed_nil lives front
        have same : entered woken levels queues registry = queues := by
          rw [entered, nothing]
          rfl
        refine ⟨?_, ?_, ?_⟩
        · rw [same, order_front, List.find?_cons_of_pos]
          simp [lives]
        · rw [nothing]
          rfl
        · rw [same, nothing]
          exact (Taken.none levels _).pop once looked here

end Selection

section Search

variable {Blocker : Type}

/-- `queue_t`, with the length that it keeps of its list. -/
structure Queue where
  length : Nat
  list : List Nat
  counted : length = list.length

/-- `queue_pop`. -/
def queuePop (queue : Queue) : Option Nat × Queue :=
  if queue.length = 0 then (none, queue)
  else (queue.list.head?, {
    length := queue.length - 1
    list := queue.list.tail
    counted := by rw [queue.counted, List.length_tail] })

/-- `queue_push`. -/
def queuePush (queue : Queue) (thread : Nat) : Queue where
  length := queue.length + 1
  list := queue.list ++ [thread]
  counted := by rw [queue.counted, List.length_append, List.length_singleton]

/-- The queues of `sched_context_t`. -/
abbrev PriorityQueues := Priority → Queue

/-- Threads are given to `sched_context_push`. -/
def pushThreads (registry : Registry Blocker) (queues : PriorityQueues) (threads : List Nat) : PriorityQueues :=
  threads.foldl (fun queues thread =>
    let priority := (registry.threads thread).priority
    Function.update queues priority (queuePush (queues priority) thread)) queues

/-- The lists of the queues. -/
def lists (queues : PriorityQueues) : Queues := fun level => (queues level).list

/-- One loop over levels, up to the first thread that is popped. -/
def popNext (queues : PriorityQueues) : List Priority → Option (Nat × PriorityQueues)
  | [] => none
  | level :: lower =>
      match queuePop (queues level) with
      | (none, _) => popNext queues lower
      | (some thread, popped) => some (thread, Function.update queues level popped)

/-- What a search returns, and what it leaves. -/
structure Selection (Blocker : Type) where
  thread : Option Nat
  queues : PriorityQueues
  registry : Registry Blocker

/-- The search over levels, if it ends within a number of turns. A dead thread is freed,
and the loop starts again. -/
def search (woken : Nat → List Nat) (levels : List Priority) :
    Nat → PriorityQueues → Registry Blocker → Option (Selection Blocker)
  | 0, _, _ => none
  | turns + 1, queues, registry =>
      match popNext queues levels with
      | none => some ⟨none, queues, registry⟩
      | some (thread, popped) =>
          if dead registry thread then
            search woken levels turns (pushThreads registry popped (wokenBy woken registry thread))
              (freeThread woken registry thread)
          else some ⟨some thread, popped, registry⟩

/-- The levels from `PRIORITY_MAX` down to `PRIORITY_MIN`. -/
def allLevels : List Priority := [2, 1, 0]

/-- The levels from `PRIORITY_MAX` down to those above a priority. -/
def levelsAbove (priority : Nat) : List Priority := allLevels.filter fun level => priority < level.val

/-- `sched_context_find_any`. -/
def schedContextFindAny (woken : Nat → List Nat) (turns : Nat) (queues : PriorityQueues)
    (registry : Registry Blocker) : Option (Selection Blocker) :=
  search woken allLevels turns queues registry

/-- `sched_context_find_higher`. -/
def schedContextFindHigher (woken : Nat → List Nat) (turns : Nat) (queues : PriorityQueues)
    (registry : Registry Blocker) (priority : Nat) : Option (Selection Blocker) :=
  search woken (levelsAbove priority) turns queues registry

variable {woken : Nat → List Nat} {levels : List Priority}

/-- The loop over levels pops what the scan over lists pops. -/
theorem popNext_lists (queues : PriorityQueues) (levels : List Priority) :
    (popNext queues levels).map (fun found => (found.1, lists found.2)) = popFirst (lists queues) levels := by
  induction levels with
  | nil => rfl
  | cons level lower ih =>
    have counted := (queues level).counted
    rw [popNext, popFirst]
    cases list : (queues level).list with
    | nil =>
      have empty : (queues level).length = 0 := by rw [counted, list, List.length_nil]
      have here : lists queues level = [] := list
      rw [queuePop, if_pos empty, here]
      exact ih
    | cons thread rest =>
      have present : (queues level).length ≠ 0 := by
        rw [counted, list]
        exact Nat.succ_ne_zero _
      have here : lists queues level = thread :: rest := list
      rw [queuePop, if_neg present, here]
      simp only [list, List.head?_cons, Option.map_some, Option.some.injEq, Prod.mk.injEq, true_and]
      funext tested
      by_cases same : tested = level
      · subst same
        simp [lists]
      · simp [lists, same]

/-- Threads are pushed to the lists of the queues. -/
theorem lists_pushThreads (registry : Registry Blocker) (queues : PriorityQueues) (threads : List Nat) :
    lists (pushThreads registry queues threads) = pushAll registry (lists queues) threads := by
  induction threads generalizing queues with
  | nil => rfl
  | cons thread rest ih =>
    rw [pushThreads, List.foldl_cons, ← pushThreads, ih, pushAll, pushAll, List.foldl_cons]
    congr 1
    funext level
    by_cases same : level = (registry.threads thread).priority
    · subst same
      simp [lists, contextPush, queuePush]
    · simp [lists, contextPush, same]

/-- The search does what the scan over lists does, within enough turns. -/
theorem search_lists (sorted : levels.Pairwise (· > ·)) (turns : Nat) (queues : PriorityQueues)
    (registry : Registry Blocker) (awake : Awake woken registry)
    (enough : deadAmount levels (lists queues) registry < turns) :
    ∃ selection, search woken levels turns queues registry = some selection ∧
      findThread woken levels turns (lists queues) registry =
        (selection.thread, lists selection.queues, selection.registry) := by
  induction turns generalizing queues registry with
  | zero => omega
  | succ turns ih =>
    rw [search, findThread, ← popNext_lists]
    cases found : popNext queues levels with
    | none => exact ⟨_, rfl, rfl⟩
    | some pair =>
      obtain ⟨thread, popped⟩ := pair
      have popFound : popFirst (lists queues) levels = some (thread, lists popped) := by
        rw [← popNext_lists, found]
        rfl
      obtain ⟨_, _, _, _, _, front⟩ := ranked_pop (sorted.imp ne_of_gt) popFound
      simp only [Option.map_some]
      split
      · next isDead =>
        have same := Alike.freeThread woken registry thread
        rw [← lists_pushThreads]
        refine ih _ _ (same.awake awake) ?_
        rw [lists_pushThreads, deadAmount, same.dead, ← deadAmount, deadAmount_pushAll (awake.by thread), deadAmount]
        rw [deadAmount, ← ranked_order, front, List.map_cons, List.countP_cons_of_pos isDead, ranked_order] at enough
        omega
      · exact ⟨_, rfl, rfl⟩

/-- More turns make no difference to a search that has ended. -/
theorem search_more {turns more : Nat} (longer : turns ≤ more)
    {queues : PriorityQueues} {registry : Registry Blocker} {selection : Selection Blocker}
    (ended : search woken levels turns queues registry = some selection) :
    search woken levels more queues registry = some selection := by
  induction turns generalizing more queues registry with
  | zero => cases ended
  | succ turns ih =>
    obtain ⟨more, rfl⟩ := Nat.exists_eq_add_of_le' longer
    rw [← Nat.add_assoc, search]
    rw [search] at ended
    cases found : popNext queues levels with
    | none =>
      rw [found] at ended
      exact ended
    | some pair =>
      rw [found] at ended
      simp only at ended ⊢
      split
      · next isDead =>
        rw [if_pos isDead] at ended
        exact ih (Nat.le_add_left _ _) ended
      · next alive =>
        rw [if_neg alive] at ended
        exact ended

/-- A search ends with a selection. It returns the first thread that is not dead in the
order of decreasing priority, first in, first out within a priority, or `NULL`, among the
threads that were queued and those that it woke; `thread_free` was called once on each of
the freed threads; these and the returned one were removed from the fronts of their queues,
and nothing else was; and the lengths are those of the lists. Where the dead threads at the
front wake no other, it returns the first live thread that was queued, and frees the dead
threads before it. -/
structure Exact (woken : Nat → List Nat) (levels : List Priority) (queues : PriorityQueues)
    (registry : Registry Blocker) (selection : Selection Blocker) : Prop where
  selects : Selects woken levels (lists queues) registry selection.thread (lists selection.queues)
    selection.registry
  freedOnce : selection.registry.freedThreads =
    (freed woken levels (lists queues) registry).reverse ++ registry.freedThreads
  counted : ∀ level, (selection.queues level).length = (selection.queues level).list.length
  quiet : wokenAll woken registry ((order levels (lists queues)).takeWhile (dead registry)) = [] →
    selection.thread = ((order levels (lists queues)).find? fun thread => !dead registry thread) ∧
      freed woken levels (lists queues) registry = (order levels (lists queues)).takeWhile (dead registry) ∧
      Taken levels (lists queues) ((order levels (lists queues)).takeWhile (dead registry) ++
        selection.thread.toList) (lists selection.queues)

/-- Where the dead threads at the front wake no other, all of them are freed. -/
theorem passed_quiet (pairs : List (Priority × Nat)) (registry : Registry Blocker)
    (quiet : wokenAll woken registry ((pairs.map Prod.snd).takeWhile (dead registry)) = []) :
    passed woken registry [] pairs = (pairs.map Prod.snd).takeWhile (dead registry) := by
  induction pairs generalizing registry with
  | nil => rfl
  | cons pair rest ih =>
    obtain ⟨level, thread⟩ := pair
    rw [passed, List.map_cons]
    rw [List.map_cons] at quiet
    cases isDead : dead registry thread with
    | false =>
      rw [List.takeWhile_cons_of_neg (by simp [isDead]), if_neg fun facts => Bool.false_ne_true facts.1]
    | true =>
      have same := (Alike.freeThread woken registry thread).dead
      rw [List.takeWhile_cons_of_pos isDead, wokenAll, List.append_eq_nil_iff, ← same] at quiet
      rw [List.takeWhile_cons_of_pos isDead, if_pos ⟨rfl, List.forall_mem_nil _⟩, quiet.1, List.append_nil,
        ih _ quiet.2, same]

/-- Each call of `thread_free` is recorded. -/
theorem freedThreads_freeThread (threads : List Nat) (registry : Registry Blocker) :
    (threads.foldl (freeThread woken) registry).freedThreads = threads.reverse ++ registry.freedThreads := by
  have wakes (others : List Nat) (registry : Registry Blocker) :
      (others.foldl wakeThread registry).freedThreads = registry.freedThreads := by
    induction others generalizing registry with
    | nil => rfl
    | cons other rest ih => exact ih _
  induction threads generalizing registry with
  | nil => rfl
  | cons thread rest ih =>
    rw [List.foldl_cons, ih, freeThread, wakes, List.reverse_cons, List.append_assoc]
    rfl

/-- A search over the highest levels ends, and is exact. -/
theorem search_exact (sorted : levels.Pairwise (· > ·))
    (upward : ∀ level ∈ levels, ∀ higher, level < higher → higher ∈ levels) (queues : PriorityQueues)
    (registry : Registry Blocker) (awake : Awake woken registry) :
    ∃ selection, (∃ enough, ∀ turns ≥ enough, search woken levels turns queues registry = some selection) ∧
      Exact woken levels queues registry selection := by
  have enough := Nat.lt_succ_self (deadAmount levels (lists queues) registry)
  obtain ⟨selection, ended, found⟩ := search_lists sorted _ queues registry awake enough
  have selects := findThread_selects sorted upward _ (lists queues) registry awake enough
  rw [found] at selects
  have recorded : selection.registry = (freed woken levels (lists queues) registry).foldl (freeThread woken)
      registry := selects.freed
  refine ⟨selection, ⟨_, fun turns longer => search_more longer ended⟩, selects, ?_, ?_, ?_⟩
  · rw [recorded, freedThreads_freeThread]
  · exact fun level => (selection.queues level).counted
  · intro quiet
    have all : freed woken levels (lists queues) registry =
        (order levels (lists queues)).takeWhile (dead registry) := by
      rw [freed, passed_quiet, ranked_order]
      rwa [ranked_order]
    have same : entered woken levels (lists queues) registry = lists queues := by
      rw [entered, all, quiet]
      rfl
    have first := selects.first
    have taken := selects.taken
    rw [same] at first taken
    rw [all] at taken
    exact ⟨first, all, taken⟩

/-- For all contents of the queues, both searches end, and are exact: the one over all
priorities and the one over those above a given one. The invariant is that pushing a woken
thread before the search goes on stops it where noting the thread's priority would. -/
theorem thread_selection_exact (woken : Nat → List Nat) (queues : PriorityQueues) (registry : Registry Blocker)
    (awake : Awake woken registry) :
    (∃ selection, (∃ enough, ∀ turns ≥ enough,
        schedContextFindAny woken turns queues registry = some selection) ∧
      Exact woken allLevels queues registry selection) ∧
    ∀ priority, ∃ selection,
      (∃ enough, ∀ turns ≥ enough,
        schedContextFindHigher woken turns queues registry priority = some selection) ∧
        Exact woken (levelsAbove priority) queues registry selection := by
  have sorted : allLevels.Pairwise (· > ·) := by decide
  have every : ∀ level, level ∈ allLevels := by decide
  refine ⟨search_exact sorted (fun _ _ higher _ => every higher) queues registry awake, fun priority => ?_⟩
  refine search_exact (sorted.filter _) (fun level looked higher above => ?_) queues registry awake
  rw [List.mem_filter, decide_eq_true_iff] at looked ⊢
  exact ⟨every higher, lt_trans looked.2 above⟩

/-- Thread 1 is dead, and the last one of its process. Thread 7 waits in the kernel. -/
def lastOne : Registry Unit where
  threads := fun thread => {
    newThread (if thread = 1 then 0 else 1) (if thread = 1 then 0 else 1) with kernelCode := thread ≠ 1 }
  processes := fun process => { killed := process = 0, ref := 1 }
  createdThreads := [7, 1]
  createdProcesses := [1, 0]
  freedThreads := []
  freedProcesses := []

/-- The queues with the dead thread only. -/
def oneDead : PriorityQueues := fun level => if level = 0 then ⟨1, [1], rfl⟩ else ⟨0, [], rfl⟩

/-- The process has a window, whose cleanup wakes thread 7. -/
def redraws : Nat → List Nat := fun process => if process = 0 then [7] else []

/-- The waiting thread is not dead. -/
theorem redraws_awake : Awake redraws lastOne := by
  intro process thread member
  by_cases last : process = 0
  · obtain rfl : thread = 7 := by simpa [redraws, last] using member
    rfl
  · simp [redraws, last] at member

/-- No live thread is queued, but the search returns the one that it woke. -/
theorem oneDead_finds : (order allLevels (lists oneDead)).find? (fun thread => !dead lastOne thread) = none ∧
    (schedContextFindAny redraws 2 oneDead lastOne).map Selection.thread = some (some 7) := by
  decide

/-- The dead one is freed, and the other one is found. -/
theorem oneDead_exact : ∃ selection, (∃ enough, ∀ turns ≥ enough,
      schedContextFindAny redraws turns oneDead lastOne = some selection) ∧
    selection.thread = some 7 ∧ selection.registry.freedThreads = [1] := by
  obtain ⟨selection, ends, exact⟩ := (thread_selection_exact redraws oneDead lastOne redraws_awake).1
  refine ⟨selection, ends, ?_, ?_⟩
  · rw [exact.selects.first]
    decide
  · rw [exact.freedOnce]
    decide

end Search

end Asym.ThreadSelection
