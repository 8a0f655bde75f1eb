import Asym.EventRuns
import Asym.PendingItems
import Mathlib.Tactic.Common

/-!
# The modifiers of the keyboard

`kbd_push` keeps one bit for each modifier in `kbd->mods` and stores every event,
with these bits, in a ring of 32 events. Either of two keys sets the bit of a
modifier when it is pressed and clears it when it is released.

The bits are compared with the history: a key is held if it has been pressed and
not released since. They agree after every event, if and only if no key of a
modifier is released while the other one is held.
-/

namespace Asym.Keyboard

open EventRuns PendingItems

/-! ## The source -/

/-- `kbd_event_type_t`. -/
inductive EventType where
  | press
  | release
deriving DecidableEq, Repr

def keyCapsLock : Nat := 0x39
def keyLeftCtrl : Nat := 0xE0
def keyLeftShift : Nat := 0xE1
def keyLeftAlt : Nat := 0xE2
def keyLeftSuper : Nat := 0xE3
def keyRightCtrl : Nat := 0xE4
def keyRightShift : Nat := 0xE5
def keyRightAlt : Nat := 0xE6
def keyRightSuper : Nat := 0xE7

def kbdModNone : BitVec 32 := 0
def kbdModCaps : BitVec 32 := 1 <<< 0
def kbdModShift : BitVec 32 := 1 <<< 1
def kbdModCtrl : BitVec 32 := 1 <<< 2
def kbdModAlt : BitVec 32 := 1 <<< 3
def kbdModSuper : BitVec 32 := 1 <<< 4

/-- `KBD_MAX_EVENT`. -/
def kbdMaxEvent : Nat := 32

/-- `kbd_event_t`. -/
structure KbdEvent where
  time : Nat
  type : EventType
  mods : BitVec 32
  code : Nat
deriving DecidableEq, Repr

/-- `kbd_t`, without its resource, blocker and lock. -/
structure Kbd where
  events : Nat → KbdEvent
  writeIndex : Nat
  mods : BitVec 32

/-- `kbd_new`. The events are what `malloc` left there. -/
def kbdNew (garbage : Nat → KbdEvent) : Kbd :=
  { events := garbage, writeIndex := 0, mods := kbdModNone }

/-- `kbd_update_mod`. -/
def kbdUpdateMod (kbd : Kbd) (type : EventType) (mod : BitVec 32) : Kbd :=
  match type with
  | .press => { kbd with mods := kbd.mods ||| mod }
  | .release => { kbd with mods := kbd.mods &&& ~~~mod }

/-- The `switch` of `kbd_push`. -/
def kbdSwitch (kbd : Kbd) (type : EventType) (code : Nat) : Kbd :=
  if code = keyCapsLock then kbdUpdateMod kbd type kbdModCaps
  else if code = keyLeftShift ∨ code = keyRightShift then kbdUpdateMod kbd type kbdModShift
  else if code = keyLeftCtrl ∨ code = keyRightCtrl then kbdUpdateMod kbd type kbdModCtrl
  else if code = keyLeftAlt ∨ code = keyRightAlt then kbdUpdateMod kbd type kbdModAlt
  else if code = keyLeftSuper ∨ code = keyRightSuper then kbdUpdateMod kbd type kbdModSuper
  else kbd

/-- `kbd_push` under the lock, at an uptime. -/
def kbdPush (kbd : Kbd) (type : EventType) (code now : Nat) : Kbd :=
  let updated := kbdSwitch kbd type code
  { updated with
    events := Function.update updated.events updated.writeIndex
      { time := now, type, mods := updated.mods, code }
    writeIndex := (updated.writeIndex + 1) % kbdMaxEvent }

/-! ## The keys that are held -/

/-- The arguments of a call of `kbd_push`, and the uptime it reads. -/
structure Input where
  type : EventType
  code : Nat
  now : Nat
deriving DecidableEq, Repr

/-- The modifiers with two keys. -/
inductive Modifier where
  | shift
  | ctrl
  | alt
  | super
deriving DecidableEq, Repr

def Modifier.left : Modifier → Nat
  | .shift => keyLeftShift
  | .ctrl => keyLeftCtrl
  | .alt => keyLeftAlt
  | .super => keyLeftSuper

def Modifier.right : Modifier → Nat
  | .shift => keyRightShift
  | .ctrl => keyRightCtrl
  | .alt => keyRightAlt
  | .super => keyRightSuper

def Modifier.bit : Modifier → BitVec 32
  | .shift => kbdModShift
  | .ctrl => kbdModCtrl
  | .alt => kbdModAlt
  | .super => kbdModSuper

/-- A key has been pressed and not yet released. -/
def Held (history : List Input) (code : Nat) : Prop :=
  Pending (fun input => input.code = code ∧ input.type = .press)
    (fun input => input.code = code ∧ input.type = .release) history

/-- The keyboard and all that was pushed since it was new. -/
structure Session where
  kbd : Kbd
  history : List Input

/-- A session that begins with a new keyboard. -/
def opened (garbage : Nat → KbdEvent) : Session :=
  { kbd := kbdNew garbage, history := [] }

/-- One more event is pushed. -/
def push (session : Session) (input : Input) : Option Session :=
  some { kbd := kbdPush session.kbd input.type input.code input.now, history := session.history ++ [input] }

/-- The slot of the ring that was written last. -/
def newest (kbd : Kbd) : KbdEvent :=
  kbd.events ((kbd.writeIndex + (kbdMaxEvent - 1)) % kbdMaxEvent)

/-- The next event goes into the ring. -/
def InRing (session : Session) : Prop :=
  session.kbd.writeIndex < kbdMaxEvent

/-- The bits of a word are those of the modifiers that have a key held. -/
def Shows (mods : BitVec 32) (history : List Input) : Prop :=
  ∀ modifier : Modifier, mods &&& modifier.bit ≠ 0 ↔ Held history modifier.left ∨ Held history modifier.right

/-- The bits of the keyboard and of the event stored last show the keys that are held. -/
structure Reflects (session : Session) : Prop where
  mods : Shows session.kbd.mods session.history
  stored : session.history ≠ [] → Shows (newest session.kbd).mods session.history

/-- No key of a modifier is released while the other one is held. -/
def LetsGo (session : Session) (input : Input) : Prop :=
  input.type = .release → ∀ modifier : Modifier,
    (input.code = modifier.left → ¬ Held session.history modifier.right) ∧
    (input.code = modifier.right → ¬ Held session.history modifier.left)

/-! ## The history -/

/-- No key is held at first. -/
theorem not_held_nil (code : Nat) : ¬ Held [] code := not_pending_nil

/-- An event of a key decides whether this key is held. -/
theorem held_own (history : List Input) (input : Input) :
    Held (history ++ [input]) input.code ↔ input.type = .press := by
  rw [Held, pending_snoc]
  cases input.type <;> simp

/-- An event of a key leaves the other keys as they are. -/
theorem held_other (history : List Input) (input : Input) {code : Nat} (other : input.code ≠ code) :
    Held (history ++ [input]) code ↔ Held history code :=
  pending_snoc_of_neither history (fun asks => other asks.1) (fun answers => other answers.1)

/-! ## The bits -/

/-- The bit that is updated tells the kind of the event. -/
theorem kbdUpdateMod_own (kbd : Kbd) (type : EventType) {mod : BitVec 32} (some_ : mod ≠ 0) :
    (kbdUpdateMod kbd type mod).mods &&& mod ≠ 0 ↔ type = .press := by
  cases type with
  | press =>
    have all : (kbd.mods ||| mod) &&& mod = mod := by
      rw [BitVec.and_or_distrib_right, BitVec.and_self]
      ext index inside
      simp +contextual
    simpa [kbdUpdateMod, all] using some_
  | release =>
    have none : kbd.mods &&& ~~~mod &&& mod = 0 := by
      rw [BitVec.and_assoc, BitVec.and_comm (~~~mod), BitVec.and_not_self]
      simp
    simp [kbdUpdateMod, none]

/-- The other bits stay. -/
theorem kbdUpdateMod_other (kbd : Kbd) (type : EventType) {mod bit : BitVec 32} (apart : mod &&& bit = 0)
    (outside : ~~~mod &&& bit = bit) : (kbdUpdateMod kbd type mod).mods &&& bit = kbd.mods &&& bit := by
  cases type with
  | press => simp [kbdUpdateMod, BitVec.and_or_distrib_right, apart]
  | release => simp [kbdUpdateMod, BitVec.and_assoc, outside]

/-- A key of a modifier decides its bit. -/
theorem kbdSwitch_own (kbd : Kbd) (type : EventType) {code : Nat} {modifier : Modifier}
    (ofModifier : code = modifier.left ∨ code = modifier.right) :
    (kbdSwitch kbd type code).mods &&& modifier.bit ≠ 0 ↔ type = .press := by
  have update : kbdSwitch kbd type code = kbdUpdateMod kbd type modifier.bit := by
    cases modifier <;> rcases ofModifier with rfl | rfl <;> rfl
  rw [update]
  exact kbdUpdateMod_own kbd type (by cases modifier <;> decide)

/-- Any other key leaves the bit of a modifier as it is. -/
theorem kbdSwitch_other (kbd : Kbd) (type : EventType) {code : Nat} {modifier : Modifier}
    (notLeft : code ≠ modifier.left) (notRight : code ≠ modifier.right) :
    (kbdSwitch kbd type code).mods &&& modifier.bit = kbd.mods &&& modifier.bit := by
  unfold kbdSwitch
  split_ifs with isCaps isShift isCtrl isAlt isSuper
  · exact kbdUpdateMod_other kbd type (by cases modifier <;> decide) (by cases modifier <;> decide)
  all_goals
    cases modifier <;> first
      | exact kbdUpdateMod_other kbd type (by decide) (by decide)
      | simp_all [Modifier.left, Modifier.right]

/-! ## The events -/

/-- The switch changes nothing but the bits. -/
theorem kbdSwitch_writeIndex (kbd : Kbd) (type : EventType) (code : Nat) :
    (kbdSwitch kbd type code).writeIndex = kbd.writeIndex := by
  unfold kbdSwitch
  split_ifs <;> cases type <;> rfl

/-- The ring is written in order. -/
theorem kbdPush_writeIndex (kbd : Kbd) (type : EventType) (code now : Nat) :
    (kbdPush kbd type code now).writeIndex = (kbd.writeIndex + 1) % kbdMaxEvent := by
  rw [← kbdSwitch_writeIndex kbd type code]
  rfl

/-- The event that was stored last is the one that was pushed, with the bits of the keyboard. -/
theorem newest_kbdPush (kbd : Kbd) (type : EventType) (code now : Nat) (inside : kbd.writeIndex < kbdMaxEvent) :
    newest (kbdPush kbd type code now) = { time := now, type, mods := (kbdPush kbd type code now).mods, code } := by
  have slot : ((kbd.writeIndex + 1) % kbdMaxEvent + (kbdMaxEvent - 1)) % kbdMaxEvent = kbd.writeIndex := by
    rw [kbdMaxEvent] at inside ⊢
    omega
  rw [newest, kbdPush_writeIndex, slot, ← kbdSwitch_writeIndex kbd type code]
  exact Function.update_self _ _ _

/-- The bits after an event show the keys that are held, if and only if it is no release of a
key of a modifier whose other key is held. -/
theorem shows_push {session next : Session} {input : Input} (reflects : Reflects session)
    (taken : push session input = some next) :
    Shows next.kbd.mods next.history ↔ LetsGo session input := by
  obtain rfl := Option.some.inj taken
  have bits : ∀ modifier : Modifier, (kbdPush session.kbd input.type input.code input.now).mods &&& modifier.bit =
      (kbdSwitch session.kbd input.type input.code).mods &&& modifier.bit := fun _ => rfl
  constructor
  · intro shows released modifier
    have here := shows modifier
    constructor
    · intro isLeft held
      have cleared := (kbdSwitch_own session.kbd input.type (.inl isLeft)).not.mpr (by rw [released]; decide)
      have apart : input.code ≠ modifier.right := by rw [isLeft]; cases modifier <;> decide
      exact cleared (here.mpr (.inr ((held_other _ _ apart).mpr held)))
    · intro isRight held
      have cleared := (kbdSwitch_own session.kbd input.type (.inr isRight)).not.mpr (by rw [released]; decide)
      have apart : input.code ≠ modifier.left := by rw [isRight]; cases modifier <;> decide
      exact cleared (here.mpr (.inl ((held_other _ _ apart).mpr held)))
  · intro letsGo modifier
    rw [bits]
    by_cases isLeft : input.code = modifier.left
    · have apart : input.code ≠ modifier.right := by rw [isLeft]; cases modifier <;> decide
      rw [kbdSwitch_own _ _ (.inl isLeft), held_other _ _ apart, ← isLeft, held_own]
      constructor
      · exact .inl
      · rintro (pressed | held)
        · exact pressed
        · cases shape : input.type with
          | press => rfl
          | release => exact absurd held ((letsGo shape modifier).1 isLeft)
    by_cases isRight : input.code = modifier.right
    · rw [kbdSwitch_own _ _ (.inr isRight), held_other _ _ isLeft, ← isRight, held_own]
      constructor
      · exact .inr
      · rintro (held | pressed)
        · cases shape : input.type with
          | press => rfl
          | release => exact absurd held ((letsGo shape modifier).2 isRight)
        · exact pressed
    · rw [kbdSwitch_other _ _ isLeft isRight, held_other _ _ isLeft, held_other _ _ isRight]
      exact reflects.mods modifier

/-- The event that was stored last has the bits of the keyboard. -/
theorem reflects_push {session next : Session} {input : Input} (inside : InRing session)
    (taken : push session input = some next) : Reflects next ↔ Shows next.kbd.mods next.history := by
  obtain rfl := Option.some.inj taken
  constructor
  · exact Reflects.mods
  · intro shows
    refine ⟨shows, fun _ => ?_⟩
    rw [newest_kbdPush _ _ _ _ inside]
    exact shows

/-- The bits are right after every event, if and only if no key of a modifier is released while
the other one is held. -/
theorem mods_reflect_iff (garbage : Nat → KbdEvent) (inputs : List Input) :
    Always push (opened garbage) Reflects inputs ↔ Each push (opened garbage) LetsGo inputs := by
  have start : InRing (opened garbage) := Nat.zero_lt_succ _
  refine always_iff_each start ?_ ?_ ?_ inputs
  · intro session input next _ taken
    obtain rfl := Option.some.inj taken
    rw [InRing, kbdPush_writeIndex]
    exact Nat.mod_lt _ (by decide)
  · refine ⟨fun modifier => ?_, fun nonempty => absurd rfl nonempty⟩
    have none : (opened garbage).kbd.mods &&& modifier.bit = 0 := BitVec.zero_and
    exact iff_of_false (fun set => set none)
      (fun held => held.elim (not_held_nil _) (not_held_nil _))
  · intro session input next inside reflects taken
    exact (reflects_push inside taken).trans (shows_push reflects taken)

/-- Both shift keys are pressed and one of them is released: the bit is cleared. -/
theorem shift_forgotten : ¬ ∃ garbage, Always push (opened garbage) Reflects
    [⟨.press, keyLeftShift, 1⟩, ⟨.press, keyRightShift, 2⟩, ⟨.release, keyLeftShift, 3⟩] := by
  rintro ⟨garbage, always⟩
  have reflects := always _ _ (List.prefix_refl _) rfl
  have held : Held [⟨.press, keyLeftShift, 1⟩, ⟨.press, keyRightShift, 2⟩, ⟨.release, keyLeftShift, 3⟩]
      keyRightShift := by
    refine ⟨[⟨.press, keyLeftShift, 1⟩], _, [⟨.release, keyLeftShift, 3⟩], rfl, ⟨rfl, rfl⟩, ?_⟩
    rintro next inside ⟨sameCode, _⟩
    rw [List.mem_singleton.mp inside] at sameCode
    exact absurd sameCode (by decide)
  have isLeft : keyLeftShift = Modifier.shift.left ∨ keyLeftShift = Modifier.shift.right := .inl rfl
  have cleared := (kbdSwitch_own (kbdPush (kbdPush (kbdNew garbage) .press keyLeftShift 1) .press keyRightShift 2)
    .release isLeft).not.mpr (by decide)
  exact cleared ((reflects.mods .shift).mpr (.inr held))

end Asym.Keyboard
