import Asym.EventRuns
import Mathlib.Data.Fintype.Basic

/-!
# Interrupt lines

`irq.c` and `pic.c` over the two interrupt controllers of a PC, the second of which is connected to
line 2 of the first one. Devices raise lines at any time, also before there is a handler for them;
the processor takes what the controllers deliver while it has interrupts enabled. A handler runs with
interrupts disabled, as all vectors are interrupt gates, so one interrupt is one step.

The two controllers are seen to behave as one with 15 lines, whose line is open if it has handlers:
a line that was raised stays pending until it has a handler, the next line is the first in the order
of priority, its handlers are called in the order in which they were installed, and nothing is in
service afterwards.

A controller has the registers that are used. A line is raised by an edge, and the operation words
that the code never writes do nothing. `io_wait` writes to a port of no controller.
-/

namespace Asym.InterruptLines

open EventRuns

/-! ## The controllers -/

/-- The initialisation words that follow on the first one. -/
inductive InitWord where
  | base
  | cascade
  | mode
deriving DecidableEq, Repr

/-- What the initialisation words set, and those that are still to come. -/
structure Setup where
  base : BitVec 8
  cascade : BitVec 8
  mode : BitVec 8
  awaited : List InitWord
deriving DecidableEq, Repr

/-- An 8259 interrupt controller: the lines that are requested, in service and masked. -/
structure Pic where
  irr : BitVec 8
  isr : BitVec 8
  imr : BitVec 8
  setup : Setup
deriving DecidableEq, Repr

/-- `ICW1_ICW4`. -/
def icw1Icw4 : BitVec 8 := 0x01

/-- `ICW1_INIT`. -/
def icw1Init : BitVec 8 := 0x10

/-- `ICW4_8086`. -/
def icw4Mode8086 : BitVec 8 := 0x01

/-- `PIC_EOI`. -/
def picEoiCommand : BitVec 8 := 0x20

namespace Pic

/-- A write to the command port: the first initialisation word, or the end of the interrupt of the
highest priority that is in service. -/
def command (pic : Pic) (val : BitVec 8) : Pic :=
  if val.getLsbD 4 then
    { irr := 0
      isr := 0
      imr := 0
      setup := { pic.setup with
        awaited := [.base] ++ (if val.getLsbD 1 then [] else [.cascade]) ++ (if val.getLsbD 0 then [.mode] else []) } }
  else if val = picEoiCommand then { pic with isr := pic.isr &&& (pic.isr - 1) }
  else pic

/-- A write to the data port: the next initialisation word, or the mask. -/
def data (pic : Pic) (val : BitVec 8) : Pic :=
  match pic.setup.awaited with
  | [] => { pic with imr := val }
  | .base :: rest => { pic with setup := { pic.setup with base := val &&& 0xF8, awaited := rest } }
  | .cascade :: rest => { pic with setup := { pic.setup with cascade := val, awaited := rest } }
  | .mode :: rest => { pic with setup := { pic.setup with mode := val, awaited := rest } }

/-- An edge at a line. -/
def raise (pic : Pic) (line : Nat) : Pic := { pic with irr := pic.irr ||| 1#8 <<< line }

/-- The line to be served next among those that are requested: it is not masked, and nothing of its
priority or a higher one is in service. -/
def next (pic : Pic) (requested : Fin 8 → Bool) : Option (Fin 8) :=
  (List.finRange 8).find? fun line => requested line && !pic.imr.getLsbD line &&
    decide (∀ other : Fin 8, other ≤ line → pic.isr.getLsbD other = false)

/-- The processor acknowledges a line. It is in service if it does not end by itself. -/
def take (pic : Pic) (line : Fin 8) : Pic :=
  { pic with
    irr := pic.irr &&& ~~~(1#8 <<< line.val)
    isr := if pic.setup.mode.getLsbD 1 then pic.isr else pic.isr ||| 1#8 <<< line.val }

end Pic

/-- Both controllers. -/
structure Pics where
  master : Pic
  slave : Pic
deriving DecidableEq, Repr

namespace Pics

/-- What the lines of the first controller request. The second one is at line 2. -/
def requests (pics : Pics) (line : Fin 8) : Bool :=
  if line.val = 2 then (pics.slave.next fun line => pics.slave.irr.getLsbD line).isSome
  else pics.master.irr.getLsbD line

/-- The processor acknowledges an interrupt. The first controller gives its vector, unless the line
is one of a second controller: then the one gives it that has the number of the line. -/
def acknowledge (pics : Pics) : Option (Pics × BitVec 8) :=
  (pics.master.next pics.requests).bind fun line =>
    if pics.master.setup.cascade.getLsbD line then
      if pics.slave.setup.cascade = BitVec.ofNat 8 line then
        (pics.slave.next fun line => pics.slave.irr.getLsbD line).map fun lower =>
          ({ master := pics.master.take line, slave := pics.slave.take lower },
            pics.slave.setup.base + BitVec.ofNat 8 lower)
      else none
    else some ({ pics with master := pics.master.take line }, pics.master.setup.base + BitVec.ofNat 8 line)

end Pics

/-! ## The kernel -/

/-- `IRQ_AMOUNT`. -/
abbrev irqAmount : Nat := 0x10

/-- `IRQ_MAX_HANDLER`. -/
def irqMaxHandler : Nat := 16

/-- `VECTOR_IRQ_BASE`. -/
def vectorIrqBase : Nat := 0x20

/-- `IRQ_CASCADE`. -/
def irqCascade : Fin irqAmount := 0x2

/-- `PIC1_COMMAND`. -/
def pic1Command : Nat := 0x20

/-- `PIC1_DATA`. -/
def pic1Data : Nat := pic1Command + 1

/-- `PIC2_COMMAND`. -/
def pic2Command : Nat := 0xA0

/-- `PIC2_DATA`. -/
def pic2Data : Nat := pic2Command + 1

/-- `io_outb`, at the ports of the controllers. -/
def ioOutb (pics : Pics) (port : Nat) (val : BitVec 8) : Pics :=
  if port = pic1Command then { pics with master := pics.master.command val }
  else if port = pic1Data then { pics with master := pics.master.data val }
  else if port = pic2Command then { pics with slave := pics.slave.command val }
  else if port = pic2Data then { pics with slave := pics.slave.data val }
  else pics

/-- `io_inb`, at the data ports of the controllers. -/
def ioInb (pics : Pics) (port : Nat) : BitVec 8 :=
  if port = pic1Data then pics.master.imr else pics.slave.imr

/-- The port of the mask of a line, and its number at that controller. -/
def maskPort (irq : Nat) : Nat × Nat := if irq < 8 then (pic1Data, irq) else (pic2Data, irq - 8)

/-- `pic_clear_mask`. -/
def picClearMask (pics : Pics) (irq : Nat) : Pics :=
  ioOutb pics (maskPort irq).1 (ioInb pics (maskPort irq).1 &&& ~~~(1#8 <<< (maskPort irq).2))

/-- `pic_eoi`. -/
def picEoi (pics : Pics) (irq : Nat) : Pics :=
  let pics := if irq ≥ 8 then ioOutb pics pic2Command picEoiCommand else pics
  ioOutb pics pic1Command picEoiCommand

/-- `pic_init`. -/
def picInit (pics : Pics) : Pics :=
  let a1 := ioInb pics pic1Data
  let a2 := ioInb pics pic2Data
  let pics := ioOutb pics pic1Command (icw1Init ||| icw1Icw4)
  let pics := ioOutb pics pic2Command (icw1Init ||| icw1Icw4)
  let pics := ioOutb pics pic1Data (BitVec.ofNat 8 vectorIrqBase)
  let pics := ioOutb pics pic2Data (BitVec.ofNat 8 (vectorIrqBase + 0x8))
  let pics := ioOutb pics pic1Data 4
  let pics := ioOutb pics pic2Data 2
  let pics := ioOutb pics pic1Data icw4Mode8086
  let pics := ioOutb pics pic2Data icw4Mode8086
  let pics := ioOutb pics pic1Data a1
  let pics := ioOutb pics pic2Data a2
  let pics := ioOutb pics pic1Data 0xFF
  let pics := ioOutb pics pic2Data 0xFF
  picClearMask pics irqCascade

universe u

/-- `irq_handler_t`, by what it does to the rest of the system. -/
abbrev Handler (World : Type u) := Fin irqAmount → World → World

/-- The controllers, `handlers`, and the rest of the system. -/
structure Machine (World : Type u) where
  pics : Pics
  handlers : Fin irqAmount → Nat → Option (Handler World)
  world : World

variable {World : Type u}

/-- The loop of `irq_install`: the first place of a line without a handler. -/
def freePlace (row : Nat → Option (Handler World)) : Option Nat :=
  (List.range irqMaxHandler).find? fun place => (row place).isNone

/-- `irq_install`, which panics if a line has as many handlers as it can have. -/
def irqInstall (machine : Machine World) (handler : Handler World) (irq : Fin irqAmount) : Option (Machine World) :=
  (freePlace (machine.handlers irq)).map fun place =>
    { machine with
      handlers := Function.update machine.handlers irq (Function.update (machine.handlers irq) place (some handler))
      pics := picClearMask machine.pics irq }

/-- The loop of `irq_dispatch` from a place on, with places that are left. -/
def callHandlers (row : Nat → Option (Handler World)) (irq : Fin irqAmount) : Nat → Nat → World → World
  | 0, _, world => world
  | left + 1, place, world =>
    match row place with
    | some handler => callHandlers row irq left (place + 1) (handler irq world)
    | none => world

/-- `irq_dispatch`. -/
def irqDispatch (machine : Machine World) (irq : Fin irqAmount) : Machine World :=
  { machine with
    world := callHandlers (machine.handlers irq) irq irqMaxHandler 0 machine.world
    pics := picEoi machine.pics irq }

/-- `trap_handler` for a vector of the controllers. Exceptions panic, and so does an unknown vector. -/
def trapHandler (machine : Machine World) (vector : Nat) : Option (Machine World) :=
  if vector < vectorIrqBase then none
  else if inside : vector - vectorIrqBase < irqAmount then some (irqDispatch machine ⟨vector - vectorIrqBase, inside⟩)
  else none

/-- What happens: a device raises its line, a driver installs a handler, or the processor takes
an interrupt. -/
inductive Event (World : Type u) where
  | raises (line : Fin irqAmount)
  | installs (handler : Handler World) (irq : Fin irqAmount)
  | interrupts

/-- A device raises its line at its controller. -/
def Pics.raise (pics : Pics) (line : Fin irqAmount) : Pics :=
  if line.val < 8 then { pics with master := pics.master.raise line }
  else { pics with slave := pics.slave.raise (line.val - 8) }

/-- A step of the machine. No device is connected to the line of the second controller. -/
def step (machine : Machine World) : Event World → Option (Machine World)
  | .raises line => if line = irqCascade then none else some { machine with pics := machine.pics.raise line }
  | .installs handler irq => irqInstall machine handler irq
  | .interrupts => machine.pics.acknowledge.bind fun taken => trapHandler { machine with pics := taken.1 } taken.2.toNat

/-! ## One controller with 15 lines -/

/-- The lines, the highest priority first. -/
def priority : List (Fin irqAmount) := [0, 1, 8, 9, 10, 11, 12, 13, 14, 15, 3, 4, 5, 6, 7]

/-- The handlers of each line in the order of their installation, the lines that are raised and not
yet served, and the rest of the system. -/
structure Lines (World : Type u) where
  handlers : Fin irqAmount → List (Handler World)
  pending : Fin irqAmount → Bool
  world : World

namespace Lines

/-- No handlers, and no lines that were raised. -/
def idle (world : World) : Lines World := ⟨fun _ => [], fun _ => false, world⟩

/-- The next line: the first one that is pending and has handlers. -/
def next (lines : Lines World) : Option (Fin irqAmount) :=
  priority.find? fun line => lines.pending line && !(lines.handlers line).isEmpty

/-- The handlers of a line are called in turn. -/
def serve (lines : Lines World) (line : Fin irqAmount) : Lines World where
  handlers := lines.handlers
  pending := Function.update lines.pending line false
  world := (lines.handlers line).foldl (fun world handler => handler line world) lines.world

/-- A step of the lines. -/
def step (lines : Lines World) : Event World → Option (Lines World)
  | .raises line =>
    if line = irqCascade then none else some { lines with pending := Function.update lines.pending line true }
  | .installs handler irq =>
    if (lines.handlers irq).length < irqMaxHandler then
      some { lines with handlers := Function.update lines.handlers irq (lines.handlers irq ++ [handler]) }
    else none
  | .interrupts => lines.next.map lines.serve

end Lines

/-! ## The registers of the controllers -/

/-- The bit of a line. -/
theorem line_bit {line other : Nat} (inside : other < 8) : (1#8 <<< line).getLsbD other = decide (other = line) := by
  rw [BitVec.getLsbD_shiftLeft, BitVec.getLsbD_one]
  rcases Nat.lt_trichotomy other line with before | rfl | after
  · simp [before, before.ne]
  · simp [inside]
  · simp [inside, Nat.not_lt_of_gt after, after.ne', Nat.sub_eq_zero_iff_le, Nat.not_le_of_gt after]

/-- The end of the only interrupt that is in service. -/
theorem service_ends (line : Fin 8) : (0 ||| 1#8 <<< line.val) &&& ((0 ||| 1#8 <<< line.val) - 1) = 0 := by
  revert line
  decide

/-- How the first controller is set up. -/
def masterSetup : Setup := ⟨0x20, 4, 1, []⟩

/-- How the second controller is set up. -/
def slaveSetup : Setup := ⟨0x28, 2, 1, []⟩

/-- The controllers are set up, and nothing is in service. -/
structure Ready (pics : Pics) : Prop where
  master : pics.master.setup = masterSetup
  slave : pics.slave.setup = slaveSetup
  masterIdle : pics.master.isr = 0
  slaveIdle : pics.slave.isr = 0

namespace Pics

/-- A line is requested. -/
def requested (pics : Pics) (line : Fin irqAmount) : Bool :=
  if line.val < 8 then pics.master.irr.getLsbD line else pics.slave.irr.getLsbD (line.val - 8)

/-- A line is masked. -/
def masked (pics : Pics) (line : Fin irqAmount) : Bool :=
  if line.val < 8 then pics.master.imr.getLsbD line else pics.slave.imr.getLsbD (line.val - 8)

end Pics

variable {pics : Pics}

@[simp] theorem ioOutb_pic1Command (val : BitVec 8) :
    ioOutb pics pic1Command val = { pics with master := pics.master.command val } := rfl

@[simp] theorem ioOutb_pic1Data (val : BitVec 8) :
    ioOutb pics pic1Data val = { pics with master := pics.master.data val } := rfl

@[simp] theorem ioOutb_pic2Command (val : BitVec 8) :
    ioOutb pics pic2Command val = { pics with slave := pics.slave.command val } := rfl

@[simp] theorem ioOutb_pic2Data (val : BitVec 8) :
    ioOutb pics pic2Data val = { pics with slave := pics.slave.data val } := rfl

/-- However the controllers were, after `pic_init` they are set up. All lines but the one of the
second controller are masked, and none is requested. -/
theorem picInit_eq : picInit pics = ⟨⟨0, 0, 0xFB, masterSetup⟩, ⟨0, 0, 0xFF, slaveSetup⟩⟩ := by
  have first (pic : Pic) : pic.command (icw1Init ||| icw1Icw4) =
      ⟨0, 0, 0, { pic.setup with awaited := [.base, .cascade, .mode] }⟩ := rfl
  simp only [picInit, ioOutb_pic1Command, ioOutb_pic1Data, ioOutb_pic2Command, ioOutb_pic2Data, first, Pic.data]
  rfl

/-- A write to the data port of a controller that is set up sets the mask. -/
theorem data_mask {pic : Pic} (done : pic.setup.awaited = []) (val : BitVec 8) :
    pic.data val = { pic with imr := val } := by
  rw [Pic.data, done]

/-- A bit that is cleared. -/
theorem cleared_bit (bits : BitVec 8) {line other : Nat} (inside : other < 8) :
    (bits &&& ~~~(1#8 <<< line)).getLsbD other = (bits.getLsbD other && !decide (other = line)) := by
  rw [BitVec.getLsbD_and, BitVec.getLsbD_not, line_bit inside, decide_eq_true inside, Bool.true_and]

/-- A line of the second controller, by its number there. -/
theorem lower_eq {line irq : Fin irqAmount} (high : ¬line.val < 8) (irqHigh : ¬irq.val < 8) :
    line.val - 8 = irq.val - 8 ↔ line = irq := by
  rw [Fin.ext_iff]
  omega

/-- The number of a line at the second controller. -/
theorem lower_lt (line : Fin irqAmount) : line.val - 8 < 8 := by
  have inside : line.val < 16 := line.isLt
  omega

/-- A line is open after `pic_clear_mask`, and the others are as they were. -/
theorem picClearMask_spec (ready : Ready pics) (irq : Fin irqAmount) :
    Ready (picClearMask pics irq) ∧ (picClearMask pics irq).requested = pics.requested ∧
      ∀ line, (picClearMask pics irq).masked line = (pics.masked line && !decide (line = irq)) := by
  by_cases first : irq.val < 8
  · have written : picClearMask pics irq =
        { pics with master := { pics.master with imr := pics.master.imr &&& ~~~(1#8 <<< irq.val) } } := by
      rw [picClearMask, maskPort, if_pos first, ioOutb_pic1Data, data_mask (congrArg Setup.awaited ready.master)]
      rfl
    rw [written]
    refine ⟨⟨ready.master, ready.slave, ready.masterIdle, ready.slaveIdle⟩, rfl, ?_⟩
    intro line
    simp only [Pics.masked]
    split_ifs with low
    · simp only [cleared_bit _ low, Fin.ext_iff]
    · have different : line ≠ irq := fun same => low (same ▸ first)
      simp only [different, decide_false, Bool.not_false, Bool.and_true]
  · have written : picClearMask pics irq =
        { pics with slave := { pics.slave with imr := pics.slave.imr &&& ~~~(1#8 <<< (irq.val - 8)) } } := by
      rw [picClearMask, maskPort, if_neg first, ioOutb_pic2Data, data_mask (congrArg Setup.awaited ready.slave)]
      rfl
    rw [written]
    refine ⟨⟨ready.master, ready.slave, ready.masterIdle, ready.slaveIdle⟩, rfl, ?_⟩
    intro line
    simp only [Pics.masked]
    split_ifs with low
    · have different : line ≠ irq := fun same => first (same ▸ low)
      simp only [different, decide_false, Bool.not_false, Bool.and_true]
    · simp only [cleared_bit _ (lower_lt line), lower_eq low first]

/-- A line is requested after its device raised it. -/
theorem raise_spec (ready : Ready pics) (line : Fin irqAmount) :
    Ready (pics.raise line) ∧ (pics.raise line).masked = pics.masked ∧
      (pics.raise line).requested = Function.update pics.requested line true := by
  have raised (bits : BitVec 8) {line other : Nat} (inside : other < 8) :
      (bits ||| 1#8 <<< line).getLsbD other = (bits.getLsbD other || decide (other = line)) := by
    rw [BitVec.getLsbD_or, line_bit inside]
  have updated (other : Fin irqAmount) :
      Function.update pics.requested line true other = (pics.requested other || decide (other = line)) := by
    by_cases same : other = line
    · simp [same]
    · simp [same]
  rw [Pics.raise]
  by_cases first : line.val < 8
  · rw [if_pos first]
    refine ⟨⟨ready.master, ready.slave, ready.masterIdle, ready.slaveIdle⟩, rfl, ?_⟩
    funext other
    rw [updated]
    simp only [Pics.requested, Pic.raise]
    split_ifs with low
    · simp only [raised _ low, Fin.ext_iff]
    · have different : other ≠ line := fun same => low (same ▸ first)
      simp only [different, decide_false, Bool.or_false]
  · rw [if_neg first]
    refine ⟨⟨ready.master, ready.slave, ready.masterIdle, ready.slaveIdle⟩, rfl, ?_⟩
    funext other
    rw [updated]
    simp only [Pics.requested, Pic.raise]
    split_ifs with low
    · have different : other ≠ line := fun same => first (same ▸ low)
      simp only [different, decide_false, Bool.or_false]
    · simp only [raised _ (lower_lt other), lower_eq low first]

/-! ## An interrupt -/

/-- The line of the second controller is one of the first. -/
theorem cascade_lt : 2 < 8 := by decide

/-- The line of the second controller. -/
def cascadeLine : Fin 8 := ⟨2, cascade_lt⟩

/-- The number of a line of the first controller. -/
def masterLine (line : Fin 8) : Fin irqAmount := ⟨line, Nat.lt_of_lt_of_le line.isLt (by decide)⟩

/-- The number of a line of the second controller. -/
def slaveLine (line : Fin 8) : Fin irqAmount := ⟨line + 8, Nat.add_lt_add_right line.isLt 8⟩

/-- The lines of the second controller come in the place of line 2 of the first one. -/
theorem priority_eq : priority = (List.finRange 8).flatMap fun line =>
    if line.val = 2 then (List.finRange 8).map slaveLine else [masterLine line] := by
  decide

/-- The first result is the one of the first that has a result. -/
theorem findSome?_eq_bind {α β : Type*} (items : List α) (result : α → Option β) :
    items.findSome? result = (items.find? fun item => (result item).isSome).bind result := by
  induction items with
  | nil => rfl
  | cons item later ih =>
    cases first : result item with
    | none => simp [first, ih]
    | some value => simp [first]

/-- The next line of a controller without a line in service. -/
theorem next_idle {pic : Pic} (idle : pic.isr = 0) (requested : Fin 8 → Bool) :
    pic.next requested = (List.finRange 8).find? fun line => requested line && !pic.imr.getLsbD line := by
  rw [Pic.next, idle]
  simp

/-- A line that was taken is over after the command. -/
theorem taken_ends {pic : Pic} (idle : pic.isr = 0) (manual : pic.setup.mode.getLsbD 1 = false) (line : Fin 8) :
    (pic.take line).command picEoiCommand = { pic with irr := pic.irr &&& ~~~(1#8 <<< line.val) } := by
  rw [Pic.take, manual, idle, Pic.command, if_neg (by decide), if_pos rfl]
  simp only [Bool.false_eq_true, if_false, service_ends]

/-- What a line leaves behind when it was served. -/
structure Served (pics : Pics) (line : Fin irqAmount) (after : Pics) : Prop where
  ready : Ready after
  masked : after.masked = pics.masked
  requested : after.requested = Function.update pics.requested line false

/-- What is requested and not masked. -/
def Pics.wants (pics : Pics) (line : Fin irqAmount) : Bool := pics.requested line && !pics.masked line

/-- A line of the first controller is served. -/
theorem master_served (ready : Ready pics) {line : Fin 8} :
    Served pics (masterLine line) (picEoi { pics with master := pics.master.take line } (masterLine line)) := by
  have low : (masterLine line).val < 8 := line.isLt
  have ended : picEoi { pics with master := pics.master.take line } (masterLine line) =
      { pics with master := { pics.master with irr := pics.master.irr &&& ~~~(1#8 <<< line.val) } } := by
    rw [picEoi, if_neg (Nat.not_le_of_gt low), ioOutb_pic1Command]
    rw [taken_ends ready.masterIdle (ready.master ▸ rfl)]
  rw [ended]
  refine ⟨⟨ready.master, ready.slave, ready.masterIdle, ready.slaveIdle⟩, rfl, ?_⟩
  funext other
  by_cases same : other = masterLine line
  · rw [same, Function.update_self, Pics.requested, if_pos low, cleared_bit _ low]
    simp [masterLine]
  · rw [Function.update_of_ne same, Pics.requested, Pics.requested]
    split_ifs with otherLow
    · have different : other.val ≠ line.val := fun equal => same (Fin.ext equal)
      simp only [cleared_bit _ otherLow, different, decide_false, Bool.not_false, Bool.and_true]
    · rfl

/-- A line of the second controller is served. -/
theorem slave_served (ready : Ready pics) (quiet : pics.requested irqCascade = false) {line : Fin 8} :
    Served pics (slaveLine line)
      (picEoi { master := pics.master.take cascadeLine, slave := pics.slave.take line } (slaveLine line)) := by
  have high : ¬(slaveLine line).val < 8 := Nat.not_lt.mpr (Nat.le_add_left 8 line)
  have ended : picEoi { master := pics.master.take cascadeLine, slave := pics.slave.take line } (slaveLine line) =
      { master := { pics.master with irr := pics.master.irr &&& ~~~(1#8 <<< 2) }
        slave := { pics.slave with irr := pics.slave.irr &&& ~~~(1#8 <<< line.val) } } := by
    rw [picEoi, if_pos (Nat.not_lt.mp high), ioOutb_pic2Command, ioOutb_pic1Command]
    rw [taken_ends ready.masterIdle (ready.master ▸ rfl), taken_ends ready.slaveIdle (ready.slave ▸ rfl)]
    rfl
  rw [ended]
  refine ⟨⟨ready.master, ready.slave, ready.masterIdle, ready.slaveIdle⟩, rfl, ?_⟩
  funext other
  by_cases same : other = slaveLine line
  · rw [same, Function.update_self, Pics.requested, if_neg high, cleared_bit _ (lower_lt _)]
    simp [slaveLine]
  · rw [Function.update_of_ne same, Pics.requested, Pics.requested]
    split_ifs with otherLow
    · by_cases isCascade : other = irqCascade
      · have unset : pics.master.irr.getLsbD other = false := by
          rw [← quiet, isCascade]
          rfl
        rw [cleared_bit _ otherLow, unset, Bool.false_and]
      · have different : other.val ≠ 2 := fun equal => isCascade (Fin.ext equal)
        simp only [cleared_bit _ otherLow, different, decide_false, Bool.not_false, Bool.and_true]
    · have different : other.val - 8 ≠ line.val := by
        rintro equal
        exact same (Fin.ext (show other.val = line.val + 8 by omega))
      simp only [cleared_bit _ (lower_lt other), different, decide_false, Bool.not_false, Bool.and_true]

/-- The second controller is at line 2 only. -/
theorem masterSetup_cascade (line : Fin 8) : masterSetup.cascade.getLsbD line = decide (line.val = 2) := by
  revert line
  decide

/-- The vectors of the lines follow each other. -/
theorem setup_vectors (line : Fin 8) :
    (masterSetup.base + BitVec.ofNat 8 line).toNat = vectorIrqBase + (masterLine line).val ∧
      (slaveSetup.base + BitVec.ofNat 8 line).toNat = vectorIrqBase + (slaveLine line).val := by
  revert line
  decide

/-- The processor takes the first line in the order of priority that is requested and not masked,
and `pic_eoi` ends it. -/
theorem acknowledge_spec (ready : Ready pics) (quiet : pics.requested irqCascade = false)
    (cascade : pics.masked irqCascade = false) :
    Option.Rel (fun taken line => taken.2.toNat = vectorIrqBase + line.val ∧ Served pics line (picEoi taken.1 line))
      pics.acknowledge (priority.find? pics.wants) := by
  have lower : (((List.finRange 8).map slaveLine).find? pics.wants) =
      (pics.slave.next fun line => pics.slave.irr.getLsbD line).map slaveLine := by
    rw [next_idle ready.slaveIdle, List.find?_map]
    rfl
  have upper (line : Fin 8) (own : line.val ≠ 2) : [masterLine line].find? pics.wants =
      if pics.requests line && !pics.master.imr.getLsbD line then some (masterLine line) else none := by
    have low : (masterLine line).val < 8 := line.isLt
    rw [List.find?_singleton, Pics.wants, Pics.requested, Pics.masked, if_pos low, if_pos low, Pics.requests,
      if_neg own]
    rfl
  have chosen : (fun line : Fin 8 =>
      ((if line.val = 2 then (List.finRange 8).map slaveLine else [masterLine line]).find? pics.wants).isSome) =
        fun line => pics.requests line && !pics.master.imr.getLsbD line := by
    funext line
    by_cases second : line.val = 2
    · have unmasked : pics.master.imr.getLsbD line = false := by
        rw [← cascade, second]
        rfl
      rw [if_pos second, lower, Option.isSome_map, unmasked, Bool.not_false, Bool.and_true, Pics.requests,
        if_pos second]
    · rw [if_neg second, upper line second]
      split_ifs with wanted
      · exact wanted.symm
      · exact (Bool.not_eq_true _ ▸ wanted : _ = false).symm
  rw [priority_eq, List.find?_flatMap, findSome?_eq_bind, chosen, Pics.acknowledge, next_idle ready.masterIdle]
  cases taken : (List.finRange 8).find? fun line => pics.requests line && !pics.master.imr.getLsbD line with
  | none => exact .none
  | some line =>
    have wanted := List.find?_some taken
    rw [Option.bind_some, Option.bind_some]
    by_cases second : line.val = 2
    · obtain rfl : line = cascadeLine := Fin.ext second
      rw [if_pos second, lower, ready.master, ready.slave, if_pos (by decide), if_pos (by decide)]
      cases pics.slave.next fun line => pics.slave.irr.getLsbD line with
      | none => exact .none
      | some below => exact .some ⟨(setup_vectors below).2, slave_served ready quiet⟩
    · have own : masterSetup.cascade.getLsbD line = false := (masterSetup_cascade line).trans (decide_eq_false second)
      rw [if_neg second, upper line second, if_pos wanted, ready.master, own, if_neg Bool.false_ne_true]
      exact .some ⟨(setup_vectors line).1, master_served ready⟩

/-! ## Runs -/

variable {machine : Machine World} {lines : Lines World}

/-- The kernel and its controllers are as the lines say. A line is open if it has handlers, or if it
is the one of the second controller. -/
structure Tracks (machine : Machine World) (lines : Lines World) : Prop where
  ready : Ready machine.pics
  masked : ∀ line, machine.pics.masked line = false ↔ line = irqCascade ∨ lines.handlers line ≠ []
  requested : machine.pics.requested = lines.pending
  quiet : lines.pending irqCascade = false
  handlers : ∀ line place, machine.handlers line place = (lines.handlers line)[place]?
  bounded : ∀ line, (lines.handlers line).length ≤ irqMaxHandler
  world : machine.world = lines.world

/-- The first place without a handler is behind the handlers. -/
theorem freePlace_eq {row : Nat → Option (Handler World)} {handlers : List (Handler World)}
    (stored : ∀ place, row place = handlers[place]?) :
    freePlace row = if handlers.length < irqMaxHandler then some handlers.length else none := by
  split_ifs with room
  · refine List.find?_range_eq_some.mpr ⟨?_, List.mem_range.mpr room, ?_⟩
    · rw [stored, List.getElem?_eq_none (Nat.le_refl _)]
      rfl
    · intro place before
      rw [stored, List.getElem?_eq_getElem before]
      rfl
  · refine List.find?_range_eq_none.mpr ?_
    intro place inside
    rw [stored, List.getElem?_eq_getElem (by omega)]
    rfl

/-- The handlers are called in turn. -/
theorem callHandlers_eq {row : Nat → Option (Handler World)} {handlers : List (Handler World)}
    (stored : ∀ place, row place = handlers[place]?) (irq : Fin irqAmount) (left place : Nat) (world : World)
    (enough : handlers.length ≤ place + left) :
    callHandlers row irq left place world =
      (handlers.drop place).foldl (fun world handler => handler irq world) world := by
  induction left generalizing place world with
  | zero => rw [callHandlers, List.drop_eq_nil_of_le (Nat.add_zero place ▸ enough), List.foldl_nil]
  | succ left ih =>
    rw [callHandlers, stored]
    by_cases more : place < handlers.length
    · rw [List.getElem?_eq_getElem more, List.drop_eq_getElem_cons more, List.foldl_cons]
      exact ih (place + 1) _ (by omega)
    · rw [List.getElem?_eq_none (by omega), List.drop_eq_nil_of_le (by omega), List.foldl_nil]

/-- After `pic_init` there are no lines. -/
theorem tracks_start (pics : Pics) (world : World) :
    Tracks ⟨picInit pics, fun _ _ => none, world⟩ (Lines.idle world) := by
  rw [picInit_eq]
  refine ⟨⟨rfl, rfl, rfl, rfl⟩, ?_, ?_, rfl, fun _ _ => rfl, fun _ => Nat.zero_le _, rfl⟩
  · simp only [Lines.idle, ne_eq, not_true_eq_false, or_false]
    decide
  · funext line
    revert line
    simp only [Lines.idle]
    decide

/-- What the controllers deliver is what is pending and has handlers. -/
theorem Tracks.wants (tracks : Tracks machine lines) :
    machine.pics.wants = fun line => lines.pending line && !(lines.handlers line).isEmpty := by
  funext line
  rw [Pics.wants, tracks.requested]
  by_cases second : line = irqCascade
  · rw [second, tracks.quiet, Bool.false_and, Bool.false_and]
  · have open_ := tracks.masked line
    simp only [second, false_or] at open_
    cases handlers : lines.handlers line with
    | nil =>
      rw [handlers] at open_
      have closed : machine.pics.masked line = true := by simpa using open_
      rw [closed]
      rfl
    | cons first later => rw [open_.mpr (handlers ▸ List.cons_ne_nil first later), List.isEmpty_cons]

/-- The vector of a line leads to its handlers. -/
theorem trapHandler_line (machine : Machine World) (line : Fin irqAmount) :
    trapHandler machine (vectorIrqBase + line.val) = some (irqDispatch machine line) := by
  rw [trapHandler, if_neg (Nat.not_lt.mpr (Nat.le_add_right _ _))]
  simp only [Nat.add_sub_cancel_left, line.isLt, dite_true]

/-- A step of the machine is one of the lines. -/
theorem Tracks.step (tracks : Tracks machine lines) (event : Event World) :
    Option.Rel Tracks (InterruptLines.step machine event) (lines.step event) := by
  have cascade : machine.pics.masked irqCascade = false := (tracks.masked irqCascade).mpr (.inl rfl)
  cases event with
  | raises line =>
    rw [InterruptLines.step, Lines.step]
    split_ifs with second
    · exact .none
    · obtain ⟨ready, masked, requested⟩ := raise_spec tracks.ready line
      refine .some ⟨ready, masked ▸ tracks.masked, ?_, ?_, tracks.handlers, tracks.bounded, tracks.world⟩
      · rw [requested, tracks.requested]
      · exact (Function.update_of_ne (Ne.symm second) _ _).trans tracks.quiet
  | installs handler irq =>
    rw [InterruptLines.step, Lines.step, irqInstall, freePlace_eq (tracks.handlers irq)]
    split_ifs with room
    · obtain ⟨ready, requested, masked⟩ := picClearMask_spec tracks.ready irq
      refine .some ⟨ready, ?_, requested ▸ tracks.requested, tracks.quiet, ?_, ?_, tracks.world⟩
      · intro line
        rw [masked]
        by_cases same : line = irq
        · simp [same]
        · simp [same, tracks.masked]
      · intro line place
        dsimp only
        by_cases same : line = irq
        · rw [same, Function.update_self, Function.update_self, List.getElem?_append]
          rcases Nat.lt_trichotomy place (lines.handlers irq).length with before | rfl | after
          · rw [Function.update_of_ne before.ne, if_pos before, tracks.handlers]
          · rw [Function.update_self, if_neg (Nat.lt_irrefl _), Nat.sub_self]
            rfl
          · rw [Function.update_of_ne after.ne', if_neg (Nat.not_lt_of_gt after), tracks.handlers]
            rw [List.getElem?_eq_none after.le, List.getElem?_eq_none (Nat.sub_pos_of_lt after)]
        · rw [Function.update_of_ne same, Function.update_of_ne same, tracks.handlers]
      · intro line
        dsimp only
        by_cases same : line = irq
        · rw [same, Function.update_self, List.length_append]
          exact room
        · rw [Function.update_of_ne same]
          exact tracks.bounded line
    · exact .none
  | interrupts =>
    have served := acknowledge_spec tracks.ready (tracks.requested ▸ tracks.quiet) cascade
    rw [InterruptLines.step, Lines.step, Lines.next, ← tracks.wants]
    revert served
    generalize machine.pics.acknowledge = taken
    generalize priority.find? machine.pics.wants = line
    rintro (⟨vector, ready, masked, requested⟩ | _)
    · rename_i taken line
      rw [Option.bind_some, Option.map_some, vector, trapHandler_line]
      refine .some ⟨ready, masked ▸ tracks.masked, ?_, ?_, tracks.handlers, tracks.bounded, ?_⟩
      · exact requested.trans (congrArg (Function.update · line false) tracks.requested)
      · by_cases same : irqCascade = line
        · subst same
          exact Function.update_self irqCascade false lines.pending
        · exact (Function.update_of_ne same _ _).trans tracks.quiet
      · exact (callHandlers_eq (tracks.handlers line) line irqMaxHandler 0 machine.world
          ((Nat.zero_add irqMaxHandler).symm ▸ tracks.bounded line)).trans
          (congrArg (List.foldl _ · (lines.handlers line)) tracks.world)
    · exact .none

/-- However the controllers were before `pic_init`, and in whatever order lines are raised, handlers are
installed and interrupts are taken: the machine does what the 15 lines do, and panics when a line
gets more handlers than it can have. -/
theorem lines_served (pics : Pics) (world : World) (events : List (Event World)) :
    Option.Rel Tracks (run step ⟨picInit pics, fun _ _ => none, world⟩ events)
      (run Lines.step (Lines.idle world) events) :=
  run_rel (fun _ _ event tracks => tracks.step event) (tracks_start pics world) events

end Asym.InterruptLines
