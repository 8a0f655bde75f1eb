import Asym.MessageQueue
import Asym.Timeouts

/-!
# The timer of a window

`win_receive` waits in the kernel for a message until the caller's deadline or the deadline of the
window's timer, whichever is first. It passes the time that remains, an unsigned difference that
wraps when the deadline has passed; the kernel adds it to a later reading of the clock, and the
sum wraps back to before that reading.

One difference is taken for another thing: a deadline that passed by one leaves `NEVER`. After the
first turn of the loop no deadline has passed, and the caller's deadline never has passed by one.
So the request is right in all turns, if and only if the timer is not the first deadline and late
by one at the call.
-/

namespace Asym.WindowTimers

open MachineWords Scheduler Polling Timeouts MessageQueue

/-! ## The source -/

/-- `MSG_NONE`. -/
def msgNone : Nat := 0

/-- One turn of the loop of `win_receive`: whether `ioctl` fails, the uptime that
`SCHED_BLOCK_LOCK_TIMEOUT` reads first and its turns, the message at the front of the queue when it
ends, and the uptime that is read after `ioctl`. -/
structure Turn where
  failed : Bool
  entry : Nat
  waits : List Wait
  front : Msg
  upTime : Nat

/-- `msg_queue_pop`: the type of the message and the message. There is none while it waits. -/
def msgQueuePop (timeout : Nat) (turn : Turn) : Option (Nat × Msg) :=
  (schedBlockLockTimeout timeout turn.entry turn.waits).map fun blocked =>
    match blocked.1 with
    | .norm => (turn.front.type, turn.front)
    | .timeout => (msgNone, turn.front)

/-- What `win_receive` returns, with the message that it leaves. -/
inductive Received where
  | failed
  | message (msg : Msg)
  | timer (deadline time : Nat)
  | timedOut
  deriving DecidableEq, Repr

/-- `nextDeadline` in `win_receive`. -/
def nextDeadline (deadline timerDeadline : Nat) : Nat :=
  if deadline < timerDeadline then deadline else timerDeadline

/-- `remaining` in `win_receive`. -/
def remainingTime (deadline timerDeadline upTime : Nat) : Nat :=
  if nextDeadline deadline timerDeadline ≠ never then sub (nextDeadline deadline timerDeadline) upTime else never

/-- One turn of the loop of `win_receive`: what it returns and `window->timerDeadline` then, if the
loop ends. It has no result while the pop waits. -/
def receiveTurn (deadline timerDeadline upTime : Nat) (turn : Turn) : Option (Option (Received × Nat)) :=
  if turn.failed then some (some (.failed, timerDeadline))
  else
    (msgQueuePop (remainingTime deadline timerDeadline upTime) turn).map fun popped =>
      if popped.1 ≠ msgNone then some (.message popped.2, timerDeadline)
      else if timerDeadline ≤ turn.upTime then some (.timer timerDeadline turn.upTime, never)
      else if deadline < turn.upTime then some (.timedOut, timerDeadline)
      else none

/-- The loop of `win_receive`. -/
def receiveLoop (deadline timerDeadline : Nat) : Nat → List Turn → Option (Received × Nat)
  | _, [] => none
  | upTime, turn :: rest =>
      match receiveTurn deadline timerDeadline upTime turn with
      | none => none
      | some (some result) => some result
      | some none => receiveLoop deadline timerDeadline turn.upTime rest

/-- `win_receive` at an uptime. -/
def winReceive (timerDeadline timeout upTime : Nat) (turns : List Turn) : Option (Received × Nat) :=
  receiveLoop (deadlineOf timeout upTime) timerDeadline upTime turns

/-! ## Requests -/

/-- The kernel is asked to wait forever only if there is no deadline. -/
def AsksRightly (deadline timerDeadline upTime : Nat) : Prop :=
  remainingTime deadline timerDeadline upTime = never → deadline = never ∧ timerDeadline = never

/-- A pop times out at its first reading of the clock, whatever would come later. -/
def Immediate (timeout entry : Nat) : Prop :=
  ∀ waits, schedBlockLockTimeout timeout entry waits = some (.timeout, entry)

/-- When the first deadline has passed, a turn does not sleep, and `win_receive` returns the timer or
the timeout, or that `ioctl` failed. -/
def Delivers (deadline timerDeadline upTime : Nat) (turn : Turn) : Prop :=
  nextDeadline deadline timerDeadline < upTime →
    Immediate (remainingTime deadline timerDeadline upTime) turn.entry ∧
      ∀ rest, receiveLoop deadline timerDeadline upTime (turn :: rest) =
        if turn.failed then some (.failed, timerDeadline)
        else if timerDeadline ≤ turn.upTime then some (.timer timerDeadline turn.upTime, never)
        else some (.timedOut, timerDeadline)

/-- All turns of the loop that are reached are right. -/
def Prompt (deadline timerDeadline : Nat) : Nat → List Turn → Prop
  | upTime, [] => AsksRightly deadline timerDeadline upTime
  | upTime, turn :: rest =>
      AsksRightly deadline timerDeadline upTime ∧ Delivers deadline timerDeadline upTime turn ∧
        (receiveTurn deadline timerDeadline upTime turn = some none →
          Prompt deadline timerDeadline turn.upTime rest)

/-- The readings of the clock do not go back, and stay below `2 ^ 62`. -/
def Rising : Nat → List Turn → Prop
  | upTime, [] => upTime < 2 ^ 62
  | upTime, turn :: rest => upTime ≤ turn.entry ∧ turn.entry ≤ turn.upTime ∧ Rising turn.upTime rest

/-- The readings of a run are below `2 ^ 62`. -/
theorem Rising.below {upTime : Nat} {turns : List Turn} (rising : Rising upTime turns) : upTime < 2 ^ 62 := by
  induction turns generalizing upTime with
  | nil => exact rising
  | cons turn rest ih =>
    have later := ih rising.2.2
    have first := rising.1
    have second := rising.2.1
    omega

/-- The smaller deadline is one of the two, and not larger than both. -/
theorem nextDeadline_cases (deadline timerDeadline : Nat) :
    nextDeadline deadline timerDeadline = deadline ∧ deadline < timerDeadline ∨
      nextDeadline deadline timerDeadline = timerDeadline ∧ timerDeadline ≤ deadline := by
  rw [nextDeadline]
  split_ifs with first
  · exact .inl ⟨rfl, first⟩
  · exact .inr ⟨rfl, Nat.le_of_not_lt first⟩

/-- A deadline that has not passed is asked for as it is. -/
theorem asksRightly_of_ahead {deadline timerDeadline upTime : Nat} (limited : deadline ≤ never)
    (timerLimited : timerDeadline ≤ never) (ahead : upTime ≤ nextDeadline deadline timerDeadline) :
    AsksRightly deadline timerDeadline upTime := by
  intro forever
  rcases nextDeadline_cases deadline timerDeadline with ⟨same, order⟩ | ⟨same, order⟩
  all_goals
    rw [remainingTime] at forever
    rw [same] at forever ahead
    split_ifs at forever with some_
  · -- the difference does not wrap, and is smaller than `NEVER`
    rw [sub_of_le _ _ ahead (by rw [never, wordSize] at *; omega)] at forever
    omega
  · omega
  · rw [sub_of_le _ _ ahead (by rw [never, wordSize] at *; omega)] at forever
    omega
  · omega

/-- The time that remains to a deadline that has passed by more than one, added to a later uptime, wraps
to before this uptime. -/
theorem remaining_passed {next upTime entry : Nat} (passed : next + 1 < upTime) (later : upTime ≤ entry)
    (below : entry < 2 ^ 62) :
    sub next upTime ≠ never ∧ deadlineOf (sub next upTime) entry < entry := by
  have difference : sub next upTime = next + wordSize - upTime := by
    rw [sub, Nat.mod_eq_of_lt (by rw [wordSize]; omega)]
  have limited : sub next upTime ≠ never := by
    rw [difference, never, wordSize]
    omega
  refine ⟨limited, ?_⟩
  rw [deadlineOf, if_neg limited, difference, add]
  rw [wordSize] at *
  omega

/-- A pop whose deadline is before its first reading of the clock does not sleep. -/
theorem immediate_of_passed {timeout entry : Nat} (passed : deadlineOf timeout entry < entry) :
    Immediate timeout entry := by
  intro waits
  cases waits <;> rw [schedBlockLockTimeout, lockLoop, if_pos passed]

/-- A deadline that has passed by more than one is delivered. -/
theorem delivers_of_passed {deadline timerDeadline upTime : Nat} {turn : Turn}
    (notByOne : nextDeadline deadline timerDeadline + 1 ≠ upTime) (later : upTime ≤ turn.entry)
    (after : turn.entry ≤ turn.upTime) (below : turn.upTime < 2 ^ 62) :
    Delivers deadline timerDeadline upTime turn := by
  intro passed
  have remains : remainingTime deadline timerDeadline upTime = sub (nextDeadline deadline timerDeadline) upTime := by
    rw [remainingTime, if_pos]
    rw [never]
    omega
  obtain ⟨_, wrapped⟩ := remaining_passed (Nat.lt_of_le_of_ne passed notByOne) later (by omega)
  have immediate := immediate_of_passed wrapped
  refine ⟨by rwa [remains], ?_⟩
  intro rest
  have popped : msgQueuePop (remainingTime deadline timerDeadline upTime) turn = some (msgNone, turn.front) := by
    rw [msgQueuePop, remains, immediate turn.waits]
    rfl
  rw [receiveLoop, receiveTurn, popped]
  by_cases failed : turn.failed = true
  · rw [if_pos failed, if_pos failed]
  · rw [if_neg failed, if_neg failed, Option.map_some, if_neg (not_not_intro rfl)]
    by_cases expired : timerDeadline ≤ turn.upTime
    · rw [if_pos expired, if_pos expired]
    · -- the timer has not expired, so it is the caller's deadline that has passed
      have late : deadline < turn.upTime := by
        rcases nextDeadline_cases deadline timerDeadline with ⟨same, order⟩ | ⟨same, order⟩ <;> omega
      rw [if_neg expired, if_neg expired, if_pos late]

/-- A turn after which the loop goes on leaves both deadlines ahead. -/
theorem receiveTurn_again {deadline timerDeadline upTime : Nat} {turn : Turn}
    (again : receiveTurn deadline timerDeadline upTime turn = some none) :
    turn.upTime ≤ nextDeadline deadline timerDeadline := by
  rw [receiveTurn] at again
  have worked : ¬ turn.failed = true := by
    intro failed
    rw [if_pos failed] at again
    cases Option.some.inj again
  rw [if_neg worked] at again
  obtain ⟨popped, _, goesOn⟩ := Option.map_eq_some_iff.mp again
  split_ifs at goesOn with message expired late
  rcases nextDeadline_cases deadline timerDeadline with ⟨same, order⟩ | ⟨same, order⟩ <;> omega

/-- While both deadlines are ahead, all turns are right. -/
theorem prompt_of_ahead {deadline timerDeadline upTime : Nat} {turns : List Turn} (limited : deadline ≤ never)
    (timerLimited : timerDeadline ≤ never) (ahead : upTime ≤ nextDeadline deadline timerDeadline) :
    Prompt deadline timerDeadline upTime turns := by
  induction turns generalizing upTime with
  | nil => exact asksRightly_of_ahead limited timerLimited ahead
  | cons turn rest ih =>
    refine ⟨asksRightly_of_ahead limited timerLimited ahead, ?_, ?_⟩
    · exact fun passed => absurd passed (Nat.not_lt_of_le ahead)
    · exact fun again => ih (receiveTurn_again again)

/-- A request is right, if the first deadline has not passed by one. -/
theorem asksRightly_iff {deadline timerDeadline upTime : Nat} (limited : deadline ≤ never)
    (timerLimited : timerDeadline ≤ never) (below : upTime < 2 ^ 62) :
    AsksRightly deadline timerDeadline upTime ↔ nextDeadline deadline timerDeadline + 1 ≠ upTime := by
  constructor
  · intro asks byOne
    have remains : remainingTime deadline timerDeadline upTime = never := by
      rw [remainingTime, if_pos (by rw [never]; omega), ← byOne, sub, wordSize, never]
      omega
    obtain ⟨noDeadline, noTimer⟩ := asks remains
    rw [nextDeadline, noDeadline, noTimer, if_neg (Nat.lt_irrefl never), never] at byOne
    omega
  · intro notByOne
    rcases Nat.lt_or_ge (nextDeadline deadline timerDeadline) upTime with passed | ahead
    · intro forever
      rw [remainingTime, if_pos (by rw [never]; omega)] at forever
      exact absurd forever (remaining_passed (Nat.lt_of_le_of_ne passed notByOne) (Nat.le_refl _) below).1
    · exact asksRightly_of_ahead limited timerLimited ahead

/-- The caller's deadline has never passed by one at the call. -/
theorem deadlineOf_notByOne {timeout upTime : Nat} (word : timeout < wordSize) (below : upTime < 2 ^ 62) :
    deadlineOf timeout upTime + 1 ≠ upTime ∧ deadlineOf timeout upTime ≤ never := by
  rw [deadlineOf]
  split_ifs with unlimited
  · rw [never]
    omega
  · rw [never, wordSize] at *
    rw [add, wordSize]
    omega

/-- All turns of `win_receive` are right, if and only if the timer is not the first deadline and late by
one at the call. -/
theorem timer_delivered_iff {timerDeadline timeout upTime : Nat} (turns : List Turn)
    (timerWord : timerDeadline < wordSize) (word : timeout < wordSize) (rising : Rising upTime turns) :
    Prompt (deadlineOf timeout upTime) timerDeadline upTime turns ↔
      ¬ (timerDeadline + 1 = upTime ∧ timerDeadline ≤ deadlineOf timeout upTime) := by
  have below : upTime < 2 ^ 62 := rising.below
  obtain ⟨notByOne, limited⟩ := deadlineOf_notByOne word below
  have timerLimited : timerDeadline ≤ never := Nat.le_sub_one_of_lt timerWord
  have byOne : nextDeadline (deadlineOf timeout upTime) timerDeadline + 1 = upTime ↔
      timerDeadline + 1 = upTime ∧ timerDeadline ≤ deadlineOf timeout upTime := by
    rcases nextDeadline_cases (deadlineOf timeout upTime) timerDeadline with ⟨same, order⟩ | ⟨same, order⟩ <;> omega
  rw [← byOne, ← ne_eq, ← asksRightly_iff limited timerLimited below]
  constructor
  · intro prompt
    cases turns with
    | nil => exact prompt
    | cons turn rest => exact prompt.1
  · intro asks
    rcases Nat.lt_or_ge (nextDeadline (deadlineOf timeout upTime) timerDeadline) upTime with passed | ahead
    · cases turns with
      | nil => exact asks
      | cons turn rest =>
        have late := (asksRightly_iff limited timerLimited below).mp asks
        obtain ⟨later, after, risingRest⟩ := rising
        refine ⟨asks, delivers_of_passed late later after risingRest.below, ?_⟩
        exact fun again => prompt_of_ahead limited timerLimited (receiveTurn_again again)
    · exact prompt_of_ahead limited timerLimited ahead

/-- A timer that is late by two, and no other deadline. -/
theorem timer_late_by_two : Prompt (deadlineOf never 5) 3 5 [⟨false, 6, [], ⟨0, 0, []⟩, 7⟩] :=
  (timer_delivered_iff [⟨false, 6, [], ⟨0, 0, []⟩, 7⟩] (by decide) (by decide)
    ⟨by decide, by decide, (by decide : 7 < 2 ^ 62)⟩).mpr (by decide)

/-- A timer that is late by one: the kernel is asked to wait forever. -/
theorem timer_late_by_one : ¬ Prompt (deadlineOf never 5) 4 5 [⟨false, 6, [], ⟨0, 0, []⟩, 7⟩] := by
  rintro ⟨asks, _⟩
  exact absurd (asks (by decide)).2 (by decide)

end Asym.WindowTimers
