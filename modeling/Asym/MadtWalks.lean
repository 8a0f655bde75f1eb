import Asym.ByteMemory
import Asym.RecordWalks

/-!
# Walks over the table of interrupt controllers

`smp_init_others` walks twice over the records of the ACPI table that lists the local APICs: to
count the processors, and to start all but the one that runs. `MADT_FOR_EACH` goes on by the
length byte of a record, whatever it is, and looks for the end of the table only before each
record. The table is in memory that goes on behind it.

A panic ends the walk: where `malloc` has no memory for a processor, whose fields are then
written through `NULL`, and where a processor does not answer. Addresses are offsets from the
start of the table. What is read of it is recorded, and so are the places of `cpus` that are
stored to, also those that the array does not have.
-/

namespace Asym.MadtWalks

open ByteMemory RecordWalks

section Model

def madtLapic : UInt8 := 0
def madtLapicInitable : Nat := 1

/-- `sizeof(madt_t)`: where the records are. -/
def madtRecords : Nat := 44

/-- `UINT8_MAX`: how many entries `cpus` has. -/
def cpuMax : Nat := 255

/-- `cpu_t`, as far as `cpu_init` sets it from the table. -/
structure Cpu where
  id : Nat
  lapicId : UInt8
  deriving DecidableEq, Repr

/-- Which of the new processors `malloc` has memory for, and which of them answer in time. -/
structure Host where
  grants : Nat → Bool
  answers : Nat → Bool

/-- `cpus`, `cpuAmount`, the next id, the places of `cpus` that were stored to, the processors that
were started, and the bytes of the table that were read. -/
structure Machine where
  cpus : Nat → Option Cpu
  cpuAmount : Nat
  newId : Nat
  stored : List Nat
  started : List Nat
  reads : List Nat

/-- The bytes of a field. -/
def span (offset width : Nat) : List Nat := (List.range width).map (offset + ·)

def Machine.look (machine : Machine) (offsets : List Nat) : Machine :=
  { machine with reads := machine.reads ++ offsets }

/-- `madt->header.length`. -/
def madtLength (memory : Memory) : Nat := load memory 4 4

/-- `record->header.length`. -/
def recordLength (memory : Memory) (record : Nat) : Nat := (memory (record + 1)).toNat

/-- `record->flags & MADT_LAPIC_INITABLE`. -/
def initable (memory : Memory) (record : Nat) : Bool := load memory (record + 4) 4 &&& madtLapicInitable ≠ 0

/-- The end of a turn: the length of the record is read, and that of the table. -/
def Machine.advance (machine : Machine) (record : Nat) : Machine := machine.look ([record + 1] ++ span 4 4)

/-- `MADT_FOR_EACH`. An error is a panic in the body. -/
def madtForEach (memory : Memory) (body : Machine → Nat → Except Machine Machine) (fuel : Nat) (machine : Machine) :
    Option (Except Machine Machine) :=
  forEach (recordLength memory) (madtLength memory)
    (fun machine record => (body machine record).map (·.advance record)) fuel madtRecords (machine.look (span 4 4))

/-- The body of the loop of `smp_detect_cpus`. -/
def detectCpu (memory : Memory) (machine : Machine) (record : Nat) : Machine :=
  let typed := machine.look [record]
  if memory record = madtLapic then
    let flagged := typed.look (span (record + 4) 4)
    if initable memory record then { flagged with cpuAmount := (flagged.cpuAmount + 1) % 256 } else flagged
  else typed

/-- `smp_detect_cpus`. -/
def smpDetectCpus (memory : Memory) (fuel : Nat) (machine : Machine) : Option (Except Machine Machine) :=
  madtForEach memory (fun machine record => .ok (detectCpu memory machine record)) fuel
    { machine with cpuAmount := 0 }

/-- The body of the loop of `smp_start_others`. -/
def startOther (memory : Memory) (host : Host) (lapicId : UInt8) (machine : Machine) (record : Nat) :
    Except Machine Machine :=
  let typed := machine.look [record]
  if memory record ≠ madtLapic then .ok typed
  else
    let flagged := typed.look (span (record + 4) 4)
    if initable memory record = false then .ok flagged
    else
      let compared := flagged.look [record + 3]
      if lapicId = memory (record + 3) then .ok compared
      else
        let id := compared.newId
        let taken := { compared with newId := (id + 1) % 256, stored := compared.stored ++ [id] }
        if host.grants machine.stored.length = false then
          .error { taken with cpus := Function.update taken.cpus id none }
        else
          let held := { taken.look [record + 3] with
            cpus := Function.update taken.cpus id (some ⟨id, memory (record + 3)⟩)
            started := taken.started ++ [id] }
          if host.answers machine.stored.length then .ok held else .error held

/-- `smp_start_others`. -/
def smpStartOthers (memory : Memory) (host : Host) (lapicId : UInt8) (fuel : Nat) (machine : Machine) :
    Option (Except Machine Machine) :=
  madtForEach memory (startOther memory host lapicId) fuel { machine with newId := 1 }

/-- After `smp_init`. -/
def afterInit : Machine := ⟨Function.update (fun _ => none) 0 (some ⟨0, 0⟩), 1, 0, [], [], []⟩

/-- `smp_init_others`, on a processor with a local APIC. -/
def smpInitOthers (memory : Memory) (host : Host) (lapicId : UInt8) (fuel : Nat) : Option (Except Machine Machine) :=
  let self := { afterInit with cpus := Function.update afterInit.cpus 0 (some ⟨0, lapicId⟩) }
  (smpDetectCpus memory fuel self).bind fun detected =>
    match detected with
    | .error machine => some (.error machine)
    | .ok machine => smpStartOthers memory host lapicId fuel machine

/-- `acpi_valid_checksum`. -/
def acpiValidChecksum (memory : Memory) (length : Nat) : Bool :=
  (List.range length).foldl (fun (sum : UInt8) offset => sum + memory offset) 0 = 0

end Model

section Tables

/-- The machine at the end, whether it is after a panic or not. -/
def last : Except Machine Machine → Machine
  | .ok machine => machine
  | .error machine => machine

/-- The records of a table, if none is empty. -/
def tableRecords (memory : Memory) : List Nat :=
  (records (recordLength memory) (madtLength memory) (madtLength memory + 1) madtRecords).getD []

/-- A record of a processor that can be started. -/
def isCpu (memory : Memory) (record : Nat) : Bool := memory record = madtLapic && initable memory record

/-- A record of another processor than the one with a local APIC. -/
def isOther (memory : Memory) (lapicId : UInt8) (record : Nat) : Bool :=
  isCpu memory record && lapicId ≠ memory (record + 3)

/-- The local APICs of the processors of a table. -/
def lapicIds (memory : Memory) : List UInt8 :=
  ((tableRecords memory).filter (isCpu memory)).map fun record => memory (record + 3)

/-- A new processor is started. -/
def Host.works (host : Host) (number : Nat) : Bool := host.grants number && host.answers number

/-- The walks end, read the table only, and store to and start as many processors as `cpus` has
places for. If they end without a panic and each processor is listed once, this one as well, then
`cpus` has all of those that were counted. -/
def Safe (memory : Memory) (host : Host) (lapicId : UInt8) : Prop :=
  ∃ fuel result, smpInitOthers memory host lapicId fuel = some result ∧
    (∀ offset ∈ (last result).reads, offset < madtLength memory) ∧
    (∀ id ∈ (last result).stored, id < cpuMax) ∧ (last result).started.length + 1 ≤ cpuMax ∧
    ∀ machine, result = .ok machine → lapicId ∈ lapicIds memory → (lapicIds memory).Nodup →
      ∀ id < machine.cpuAmount, machine.cpus id ≠ none

/-- The length of a table is in it, and every record that a walk reaches is not empty and has its
header in the table. A record of a local APIC has all of its fields there. -/
structure Walkable (memory : Memory) : Prop where
  length : 8 ≤ madtLength memory
  wide : ∀ record, Reached (recordLength memory) (madtLength memory) madtRecords record →
    record < madtLength memory → recordLength memory record ≠ 0
  header : ∀ record, Reached (recordLength memory) (madtLength memory) madtRecords record →
    record < madtLength memory → record + 2 ≤ madtLength memory
  fields : ∀ record, Reached (recordLength memory) (madtLength memory) madtRecords record →
    record < madtLength memory → memory record = madtLapic → record + 8 ≤ madtLength memory

/-- There are few enough other processors, or one of those that `cpus` has places for is not
started. -/
def Room (memory : Memory) (host : Host) (lapicId : UInt8) : Prop :=
  ((tableRecords memory).filter (isOther memory lapicId)).length < cpuMax ∨
    ∃ number, number + 1 < cpuMax ∧ host.works number = false

end Tables

section Detection

/-- The bytes that a turn of the loop of `smp_detect_cpus` reads. -/
def detectReads (memory : Memory) (record : Nat) : List Nat :=
  [record] ++ (if memory record = madtLapic then span (record + 4) 4 else []) ++ ([record + 1] ++ span 4 4)

/-- A turn of the loop of `smp_detect_cpus`. -/
theorem detect_turn (memory : Memory) (machine : Machine) (record : Nat) :
    (detectCpu memory machine record).advance record =
      { machine with
        cpuAmount := if isCpu memory record then (machine.cpuAmount + 1) % 256 else machine.cpuAmount
        reads := machine.reads ++ detectReads memory record } := by
  by_cases lapic : memory record = madtLapic
  · cases flag : initable memory record <;>
      simp [detectCpu, Machine.advance, Machine.look, detectReads, isCpu, lapic, flag]
  · simp [detectCpu, Machine.advance, Machine.look, detectReads, isCpu, lapic]

/-- `smp_detect_cpus` counts the processors in a byte. -/
theorem detect_fold (memory : Memory) (found : List Nat) (machine : Machine) (byte : machine.cpuAmount < 256) :
    found.foldl (fun machine record => (detectCpu memory machine record).advance record) machine =
      { machine with
        cpuAmount := (machine.cpuAmount + (found.filter (isCpu memory)).length) % 256
        reads := machine.reads ++ found.flatMap (detectReads memory) } := by
  induction found generalizing machine with
  | nil =>
    simp only [List.foldl_nil, List.filter_nil, List.length_nil, Nat.add_zero, Nat.mod_eq_of_lt byte, List.flatMap_nil,
      List.append_nil]
  | cons record found ih =>
    rw [List.foldl_cons, detect_turn]
    cases cpu : isCpu memory record with
    | true =>
      rw [ih _ (Nat.mod_lt _ (by decide))]
      simp only [if_true, Nat.mod_add_mod, List.filter_cons_of_pos cpu, List.length_cons, List.flatMap_cons,
        List.append_assoc, Nat.add_assoc, Nat.add_comm 1]
    | false =>
      simp only [Bool.false_eq_true, if_false]
      refine (ih (machine.look (detectReads memory record)) byte).trans ?_
      simp only [Machine.look, List.filter_cons_of_neg (Bool.eq_false_iff.mp cpu), List.flatMap_cons, List.append_assoc]

/-- `smp_detect_cpus` over the records of a table. -/
theorem smpDetectCpus_eq {memory : Memory} {fuel : Nat} {found : List Nat}
    (walked : records (recordLength memory) (madtLength memory) fuel madtRecords = some found) (machine : Machine) :
    smpDetectCpus memory fuel machine = some (.ok { machine with
      cpuAmount := (found.filter (isCpu memory)).length % 256
      reads := machine.reads ++ span 4 4 ++ found.flatMap (detectReads memory) }) := by
  have folded := detect_fold memory found ({ machine with cpuAmount := 0 }.look (span 4 4)) (by decide : 0 < 256)
  rw [smpDetectCpus, madtForEach, forEach_eq walked]
  refine congrArg some ((List.foldlM_pure).trans (congrArg Except.ok (folded.trans ?_)))
  simp only [Machine.look, Nat.zero_add]

end Detection

section Starting

/-- The bytes that a turn of either loop reads are of the record or of the length of the table. -/
def Touches (memory : Memory) (record offset : Nat) : Prop :=
  offset = record ∨ offset = record + 1 ∨ 4 ≤ offset ∧ offset < 8 ∨
    memory record = madtLapic ∧ record + 3 ≤ offset ∧ offset < record + 8

/-- The next id follows the places that were stored to, and these have processors. -/
structure Counted (machine : Machine) : Prop where
  newId : machine.newId = (machine.stored.length + 1) % 256
  started : machine.started.length ≤ machine.stored.length
  self : machine.cpus 0 ≠ none
  filled : ∀ id ∈ machine.stored, machine.cpus id ≠ none

variable {memory : Memory} {host : Host} {lapicId : UInt8} {record : Nat} {machine : Machine}

/-- The bytes of a field lie in it. -/
theorem mem_span {offset base width : Nat} : offset ∈ span base width ↔ base ≤ offset ∧ offset < base + width := by
  simp only [span, List.mem_map, List.mem_range]
  constructor
  · rintro ⟨index, inside, rfl⟩
    omega
  · rintro ⟨above, below⟩
    exact ⟨offset - base, by omega, by omega⟩

/-- A turn that reads its header, fields of a local APIC and the length of the table. -/
theorem turn_touches {fields : List Nat}
    (inside : ∀ offset ∈ fields, memory record = madtLapic ∧ record + 3 ≤ offset ∧ offset < record + 8) :
    ∀ offset ∈ [record] ++ fields ++ ([record + 1] ++ span 4 4), Touches memory record offset := by
  intro offset member
  rcases List.mem_append.mp member with read | ended
  · rcases List.mem_append.mp read with type | field
    · exact Or.inl (List.mem_singleton.mp type)
    · exact Or.inr (Or.inr (Or.inr (inside offset field)))
  · rcases List.mem_append.mp ended with length | table
    · exact Or.inr (Or.inl (List.mem_singleton.mp length))
    · exact Or.inr (Or.inr (Or.inl (mem_span.mp table)))

/-- The fields of a local APIC that a turn reads. -/
theorem lapic_fields (lapic : memory record = madtLapic) {offset : Nat}
    (member : offset ∈ span (record + 4) 4 ++ [record + 3]) :
    memory record = madtLapic ∧ record + 3 ≤ offset ∧ offset < record + 8 := by
  rcases List.mem_append.mp member with flags | id
  · have bounds := mem_span.mp flags
    exact ⟨lapic, by omega, by omega⟩
  · rw [List.mem_singleton.mp id]
    exact ⟨lapic, Nat.le_refl _, by omega⟩

/-- A turn of the loop of `smp_start_others`, with its end. -/
def startTurn (memory : Memory) (host : Host) (lapicId : UInt8) (machine : Machine) (record : Nat) :
    Except Machine Machine :=
  (startOther memory host lapicId machine record).map (·.advance record)

/-- A record that is not of another processor is only looked at. -/
theorem startTurn_skip (skip : isOther memory lapicId record = false) :
    ∃ offsets, startTurn memory host lapicId machine record = .ok (machine.look offsets) ∧
      ∀ offset ∈ offsets, Touches memory record offset := by
  by_cases lapic : memory record = madtLapic
  · cases flag : initable memory record with
    | false =>
      refine ⟨_, ?_, turn_touches fun offset member => lapic_fields lapic (List.mem_append_left [record + 3] member)⟩
      simp [startTurn, startOther, lapic, flag, Except.map, Machine.advance, Machine.look]
    | true =>
      have same : lapicId = memory (record + 3) := by
        by_contra other
        simp [isOther, isCpu, lapic, flag, other] at skip
      refine ⟨_, ?_, turn_touches fun offset member => lapic_fields lapic member⟩
      simp [startTurn, startOther, lapic, flag, ← same, Except.map, Machine.advance, Machine.look]
  · refine ⟨_, ?_, turn_touches fun offset member => absurd member List.not_mem_nil⟩
    simp [startTurn, startOther, lapic, Except.map, Machine.advance, Machine.look]

/-- A record of another processor is started, and gets the next place. -/
theorem startTurn_works (other : isOther memory lapicId record = true)
    (works : host.works machine.stored.length = true) :
    ∃ offsets, startTurn memory host lapicId machine record = .ok { machine.look offsets with
        newId := (machine.newId + 1) % 256
        stored := machine.stored ++ [machine.newId]
        started := machine.started ++ [machine.newId]
        cpus := Function.update machine.cpus machine.newId (some ⟨machine.newId, memory (record + 3)⟩) } ∧
      ∀ offset ∈ offsets, Touches memory record offset := by
  simp only [isOther, isCpu, Bool.and_eq_true, decide_eq_true_eq] at other
  simp only [Host.works, Bool.and_eq_true] at works
  obtain ⟨⟨lapic, flag⟩, apart⟩ := other
  refine ⟨[record] ++ (span (record + 4) 4 ++ [record + 3] ++ [record + 3]) ++ ([record + 1] ++ span 4 4), ?_,
    turn_touches fun offset member => ?_⟩
  · simp [startTurn, startOther, lapic, flag, apart, works, Except.map, Machine.advance, Machine.look]
  · rcases List.mem_append.mp member with read | again
    · exact lapic_fields lapic read
    · exact lapic_fields lapic (List.mem_append_right _ again)

/-- A record of another processor that is not started has got the next place all the same. -/
theorem startTurn_fails (other : isOther memory lapicId record = true)
    (fails : host.works machine.stored.length = false) :
    ∃ offsets after, startTurn memory host lapicId machine record = .error after ∧
      after.cpuAmount = machine.cpuAmount ∧ after.stored = machine.stored ++ [machine.newId] ∧
      after.started.length ≤ machine.started.length + 1 ∧ after.reads = machine.reads ++ offsets ∧
      ∀ offset ∈ offsets, Touches memory record offset := by
  simp only [isOther, isCpu, Bool.and_eq_true, decide_eq_true_eq] at other
  obtain ⟨⟨lapic, flag⟩, apart⟩ := other
  have read : ∀ offset ∈ [record] ++ (span (record + 4) 4 ++ [record + 3]), Touches memory record offset :=
    fun offset member => turn_touches (fun _ inside => lapic_fields lapic inside) offset (List.mem_append_left _ member)
  cases granted : host.grants machine.stored.length with
  | false =>
    refine ⟨_, { machine.look ([record] ++ (span (record + 4) 4 ++ [record + 3])) with
        newId := (machine.newId + 1) % 256
        stored := machine.stored ++ [machine.newId]
        cpus := Function.update machine.cpus machine.newId none }, ?_, rfl, rfl, Nat.le_succ _, rfl, read⟩
    simp [startTurn, startOther, lapic, flag, apart, granted, Except.map, Machine.look]
  | true =>
    have silent : host.answers machine.stored.length = false := by simpa [Host.works, granted] using fails
    refine ⟨[record] ++ (span (record + 4) 4 ++ [record + 3]) ++ [record + 3], { machine.look ([record] ++
      (span (record + 4) 4 ++ [record + 3]) ++ [record + 3]) with
        newId := (machine.newId + 1) % 256
        stored := machine.stored ++ [machine.newId]
        started := machine.started ++ [machine.newId]
        cpus := Function.update machine.cpus machine.newId (some ⟨machine.newId, memory (record + 3)⟩) }, ?_, rfl, rfl,
      Nat.le_of_eq List.length_append, rfl, ?_⟩
    · simp [startTurn, startOther, lapic, flag, apart, granted, silent, Except.map, Machine.look]
    · intro offset member
      rcases List.mem_append.mp member with once | again
      · exact read offset once
      · exact read offset (List.mem_append_right _ (List.mem_append_right _ again))

/-- How many places are stored to for a number of other processors, if some were stored to
before: one for each, up to the first that is not started. -/
def attempts (host : Host) : Nat → Nat → Nat
  | _, 0 => 0
  | before, count + 1 => if host.works before then attempts host (before + 1) count + 1 else 1

/-- The places after some, with their numbers in a byte. -/
def places (before count : Nat) : List Nat := (List.range' (before + 1) count).map (· % 256)

/-- What the loop of `smp_start_others` does over records. -/
structure Starts (memory : Memory) (host : Host) (lapicId : UInt8) (found : List Nat) (before : Machine)
    (result : Except Machine Machine) : Prop where
  amount : (last result).cpuAmount = before.cpuAmount
  reads : ∃ offsets, (last result).reads = before.reads ++ offsets ∧
    ∀ offset ∈ offsets, ∃ record ∈ found, Touches memory record offset
  stored : (last result).stored = before.stored ++
    places before.stored.length (attempts host before.stored.length (found.filter (isOther memory lapicId)).length)
  started : (last result).started.length ≤ (last result).stored.length
  done : ∀ machine, result = .ok machine → Counted machine ∧
    attempts host before.stored.length (found.filter (isOther memory lapicId)).length =
      (found.filter (isOther memory lapicId)).length

/-- Reads of a turn and of the later ones. -/
theorem reads_cons {found : List Nat} {before next after : List Nat}
    (first : ∃ offsets, next = before ++ offsets ∧ ∀ offset ∈ offsets, Touches memory record offset)
    (later : ∃ offsets, after = next ++ offsets ∧ ∀ offset ∈ offsets, ∃ record ∈ found, Touches memory record offset) :
    ∃ offsets, after = before ++ offsets ∧
      ∀ offset ∈ offsets, ∃ other ∈ record :: found, Touches memory other offset := by
  obtain ⟨here, rfl, touched⟩ := first
  obtain ⟨rest, rfl, others⟩ := later
  refine ⟨here ++ rest, List.append_assoc _ _ _, ?_⟩
  intro offset member
  rcases List.mem_append.mp member with now | afterwards
  · exact ⟨record, List.mem_cons_self, touched offset now⟩
  · obtain ⟨other, listed, touches⟩ := others offset afterwards
    exact ⟨other, List.mem_cons_of_mem _ listed, touches⟩

/-- A processor gets the next place. -/
theorem Counted.start (counted : Counted machine) (offsets : List Nat) (lapic : UInt8) :
    Counted { machine.look offsets with
      newId := (machine.newId + 1) % 256
      stored := machine.stored ++ [machine.newId]
      started := machine.started ++ [machine.newId]
      cpus := Function.update machine.cpus machine.newId (some ⟨machine.newId, lapic⟩) } where
  newId := by simp only [counted.newId, List.length_append, List.length_singleton, Nat.mod_add_mod]
  started := by
    simpa only [List.length_append, List.length_singleton] using Nat.add_le_add_right counted.started 1
  self := by
    by_cases same : 0 = machine.newId
    · simp only [← same, Function.update_self, ne_eq, reduceCtorEq, not_false_eq_true]
    · simpa only [Function.update_of_ne same] using counted.self
  filled := by
    intro id member
    by_cases same : id = machine.newId
    · simp only [same, Function.update_self, ne_eq, reduceCtorEq, not_false_eq_true]
    · have earlier := (List.mem_append.mp member).resolve_right (mt List.mem_singleton.mp same)
      simpa only [Function.update_of_ne same] using counted.filled id earlier

/-- The loop of `smp_start_others`. The induction is on the records. -/
theorem start_fold (found : List Nat) (machine : Machine) (counted : Counted machine) :
    Starts memory host lapicId found machine (found.foldlM (startTurn memory host lapicId) machine) := by
  induction found generalizing machine with
  | nil =>
    refine ⟨rfl, ⟨[], (List.append_nil _).symm, fun _ member => absurd member List.not_mem_nil⟩,
      (List.append_nil _).symm, counted.started, ?_⟩
    intro after same
    obtain rfl : machine = after := Except.ok.inj same
    exact ⟨counted, rfl⟩
  | cons record found ih =>
    rw [List.foldlM_cons]
    cases other : isOther memory lapicId record with
    | false =>
      obtain ⟨offsets, turn, touched⟩ := @startTurn_skip memory host lapicId record machine other
      have rest := ih (machine.look offsets)
        ⟨counted.newId, counted.started, counted.self, counted.filled⟩
      rw [turn]
      refine ⟨rest.amount, reads_cons ⟨offsets, rfl, touched⟩ rest.reads, ?_, rest.started, ?_⟩
      · rw [List.filter_cons_of_neg (Bool.eq_false_iff.mp other)]
        exact rest.stored
      · rw [List.filter_cons_of_neg (Bool.eq_false_iff.mp other)]
        exact rest.done
    | true =>
      have next : machine.newId = (machine.stored.length + 1) % 256 := counted.newId
      cases works : host.works machine.stored.length with
      | true =>
        obtain ⟨offsets, turn, touched⟩ := startTurn_works other works
        have rest := ih _ (counted.start offsets (memory (record + 3)))
        have counts : (machine.stored ++ [machine.newId]).length = machine.stored.length + 1 :=
          List.length_append
        have stored := rest.stored
        have done := rest.done
        simp only [counts] at stored done
        rw [turn]
        refine ⟨rest.amount, reads_cons ⟨offsets, rfl, touched⟩ rest.reads, ?_, rest.started, ?_⟩
        · rw [List.filter_cons_of_pos other, List.length_cons, attempts, if_pos works, places, List.range'_succ,
            List.map_cons, ← next]
          exact stored.trans (List.append_assoc _ _ _)
        · rw [List.filter_cons_of_pos other, List.length_cons, attempts, if_pos works]
          intro after same
          obtain ⟨filled, all⟩ := done after same
          exact ⟨filled, congrArg (· + 1) all⟩
      | false =>
        obtain ⟨offsets, after, turn, amount, stored, started, reads, touched⟩ := startTurn_fails other works
        rw [turn]
        refine ⟨amount, ⟨offsets, reads, fun offset member => ?_⟩, ?_, ?_, fun _ same => by cases same⟩
        · exact ⟨record, List.mem_cons_self, touched offset member⟩
        · rw [List.filter_cons_of_pos other, List.length_cons, attempts, if_neg (Bool.eq_false_iff.mp works), places,
            List.range'_one, List.map_singleton, ← next]
          exact stored
        · have length : after.stored.length = machine.stored.length + 1 := by rw [stored, List.length_append]; rfl
          exact Nat.le_trans started (Nat.le_trans (Nat.succ_le_succ counted.started) (Nat.le_of_eq length.symm))

/-- There is room for the places that are stored to exactly if there is room for all, or if one is
not started before there is no more room. -/
theorem attempts_lt_iff (host : Host) (before count room : Nat) :
    attempts host before count < room ↔
      count < room ∨ ∃ number, number + 1 < room ∧ host.works (before + number) = false := by
  induction count generalizing before room with
  | zero =>
    refine ⟨Or.inl, ?_⟩
    rintro (fits | ⟨number, fits, _⟩)
    · exact fits
    · exact Nat.lt_of_le_of_lt (Nat.zero_le _) fits
  | succ count ih =>
    rw [attempts]
    cases works : host.works before with
    | true =>
      rw [if_pos rfl, ← Nat.lt_sub_iff_add_lt, ← Nat.lt_sub_iff_add_lt, ih]
      refine or_congr Iff.rfl ⟨?_, ?_⟩
      · rintro ⟨number, fits, fails⟩
        exact ⟨number + 1, by omega, by rwa [Nat.add_right_comm, Nat.add_assoc] at fails⟩
      · rintro ⟨number, fits, fails⟩
        cases number with
        | zero => exact absurd (works.symm.trans fails) Bool.noConfusion
        | succ number => exact ⟨number, by omega, by rwa [Nat.add_right_comm, Nat.add_assoc]⟩
    | false =>
      rw [if_neg Bool.false_ne_true]
      constructor
      · exact fun fits => Or.inr ⟨0, by omega, works⟩
      · rintro (fits | ⟨number, fits, _⟩) <;> omega

/-- Places are in `cpus` exactly if they are fewer than it has entries. -/
theorem places_lt_iff (count : Nat) : (∀ id ∈ places 0 count, id < cpuMax) ↔ count < cpuMax := by
  constructor
  · intro inside
    by_contra more
    have member : 255 ∈ places 0 count :=
      List.mem_map.mpr ⟨255, List.mem_range'_1.mpr (by simp only [cpuMax] at more; omega), rfl⟩
    exact absurd (inside 255 member) (by decide)
  · intro few id member
    obtain ⟨number, listed, rfl⟩ := List.mem_map.mp member
    have bounds := List.mem_range'_1.mp listed
    simp only [cpuMax] at few ⊢
    omega

/-- Few places are numbered one after the other. -/
theorem mem_places {count id : Nat} (few : count < cpuMax) (positive : 0 < id) (inside : id ≤ count) :
    id ∈ places 0 count := by
  simp only [cpuMax] at few
  exact List.mem_map.mpr ⟨id, List.mem_range'_1.mpr (by omega), Nat.mod_eq_of_lt (by omega)⟩

end Starting

section Safety

variable {memory : Memory} {host : Host} {lapicId : UInt8} {fuel : Nat} {found : List Nat}

/-- The machine between the two walks. -/
def detected (memory : Memory) (lapicId : UInt8) (found : List Nat) : Machine where
  cpus := Function.update afterInit.cpus 0 (some ⟨0, lapicId⟩)
  cpuAmount := (found.filter (isCpu memory)).length % 256
  newId := 1
  stored := []
  started := []
  reads := span 4 4 ++ found.flatMap (detectReads memory) ++ span 4 4

/-- Between the two walks the next id is one. -/
theorem detected_counted (memory : Memory) (lapicId : UInt8) (found : List Nat) :
    Counted (detected memory lapicId found) where
  newId := rfl
  started := Nat.le_refl _
  self := by simp only [detected, Function.update_self, ne_eq, reduceCtorEq, not_false_eq_true]
  filled _ member := absurd member List.not_mem_nil

/-- `smp_init_others` over the records of a table. -/
theorem smpInitOthers_eq (walked : records (recordLength memory) (madtLength memory) fuel madtRecords = some found) :
    smpInitOthers memory host lapicId fuel =
      some (found.foldlM (startTurn memory host lapicId) (detected memory lapicId found)) := by
  rw [smpInitOthers, smpDetectCpus_eq walked]
  exact forEach_eq walked _

/-- `smp_init_others` ends only where the first walk does. -/
theorem records_of_smpInitOthers {result : Except Machine Machine}
    (done : smpInitOthers memory host lapicId fuel = some result) :
    ∃ found, records (recordLength memory) (madtLength memory) fuel madtRecords = some found := by
  obtain ⟨first, ended, _⟩ := Option.bind_eq_some_iff.mp done
  exact records_of_forEach (show forEach _ _ (fun machine record =>
    Except.ok ((detectCpu memory machine record).advance record)) fuel madtRecords _ = some first from ended)

/-- What was done to the processors when both walks have ended. -/
theorem starts_of_done (walked : records (recordLength memory) (madtLength memory) fuel madtRecords = some found)
    {result : Except Machine Machine} (done : smpInitOthers memory host lapicId fuel = some result) :
    Starts memory host lapicId found (detected memory lapicId found) result := by
  rw [smpInitOthers_eq walked] at done
  exact Option.some.inj done ▸ start_fold found _ (detected_counted memory lapicId found)

/-- The records that a walk finds are those of the table. -/
theorem tableRecords_eq (walked : records (recordLength memory) (madtLength memory) fuel madtRecords = some found) :
    tableRecords memory = found := by
  obtain ⟨same, again⟩ := records_of_wide (records_iff.mp ⟨fuel, found, walked⟩)
    (show madtLength memory - madtRecords < madtLength memory + 1 by omega)
  have first := records_mono walked (Nat.le_add_right fuel (madtLength memory + 1))
  have second := records_mono again (Nat.le_add_left (madtLength memory + 1) fuel)
  rw [tableRecords, again, Option.getD_some]
  exact Option.some.inj (second.symm.trans first)

/-- Both walks read the length of the table, and of each record what the first reads. -/
theorem mem_reads_of_starts {result : Except Machine Machine}
    (starts : Starts memory host lapicId found (detected memory lapicId found) result) {offset : Nat}
    (read : offset ∈ span 4 4 ∨ ∃ record ∈ found, offset ∈ detectReads memory record) :
    offset ∈ (last result).reads := by
  obtain ⟨offsets, reads, _⟩ := starts.reads
  rw [reads]
  apply List.mem_append_left
  rcases read with table | ⟨record, listed, member⟩
  · exact List.mem_append_right _ table
  · exact List.mem_append_left _ (List.mem_append_right _ (List.mem_flatMap.mpr ⟨record, listed, member⟩))

/-- The places that are stored to are in `cpus` exactly if there is room. -/
theorem stored_iff {result : Except Machine Machine}
    (starts : Starts memory host lapicId (tableRecords memory) (detected memory lapicId (tableRecords memory)) result) :
    (∀ id ∈ (last result).stored, id < cpuMax) ↔ Room memory host lapicId := by
  rw [starts.stored]
  refine ((places_lt_iff _).trans (attempts_lt_iff host 0 _ cpuMax)).trans ?_
  simp only [Room, Nat.zero_add]

/-- A table that is walked over safely, and has room for the processors. -/
theorem Safe.walkable (safe : Safe memory host lapicId) : Walkable memory ∧ Room memory host lapicId := by
  obtain ⟨fuel, result, done, inside, stored, _, _⟩ := safe
  obtain ⟨found, walked⟩ := records_of_smpInitOthers done
  have starts := starts_of_done walked done
  have same := tableRecords_eq walked
  have read : ∀ record, Reached (recordLength memory) (madtLength memory) madtRecords record →
      record < madtLength memory → ∀ offset ∈ detectReads memory record, offset < madtLength memory := by
    intro record reached before offset member
    have listed := (mem_records walked).mpr ⟨reached, before⟩
    exact inside offset (mem_reads_of_starts starts (Or.inr ⟨record, listed, member⟩))
  constructor
  · constructor
    · exact inside 7 (mem_reads_of_starts starts (Or.inl (mem_span.mpr (by omega))))
    · exact records_iff.mp ⟨fuel, found, walked⟩
    · intro record reached before
      exact read record reached before (record + 1)
        (List.mem_append_right _ (List.mem_append_left _ (List.mem_singleton.mpr rfl)))
    · intro record reached before lapic
      refine read record reached before (record + 7) (List.mem_append_left _ (List.mem_append_right _ ?_))
      rw [if_pos lapic, mem_span]
      omega
  · rw [← same] at starts
    exact (stored_iff starts).mp stored

/-- A byte that both walks touch is in a table that can be walked over. -/
theorem Walkable.inside (walkable : Walkable memory) {record offset : Nat}
    (reached : Reached (recordLength memory) (madtLength memory) madtRecords record)
    (before : record < madtLength memory) (touches : Touches memory record offset) : offset < madtLength memory := by
  have length := walkable.length
  have header := walkable.header record reached before
  rcases touches with rfl | rfl | ⟨_, table⟩ | ⟨lapic, _, field⟩
  · exact before
  · exact header
  · omega
  · have fields := walkable.fields record reached before lapic
    omega

/-- What the first walk reads of a record. -/
theorem touches_of_detectReads {record offset : Nat} (member : offset ∈ detectReads memory record) :
    Touches memory record offset := by
  refine turn_touches (fun other inside => ?_) offset member
  split at inside
  · rename_i lapic
    exact lapic_fields lapic (List.mem_append_left _ inside)
  · exact absurd inside List.not_mem_nil

/-- The processors of a table are those that are to be started and this one, if each is listed
once. -/
theorem others_length (listed : lapicId ∈ lapicIds memory) (distinct : (lapicIds memory).Nodup) :
    ((tableRecords memory).filter (isOther memory lapicId)).length + 1 =
      ((tableRecords memory).filter (isCpu memory)).length := by
  have others : ((tableRecords memory).filter (isOther memory lapicId)).length =
      ((lapicIds memory).filter (· != lapicId)).length := by
    rw [lapicIds, List.filter_map, List.length_map, List.filter_filter]
    refine congrArg List.length (List.filter_congr fun record _ => ?_)
    simp only [isOther, Function.comp_apply, Bool.and_comm, bne, beq_eq_decide, eq_comm, decide_not]
  rw [others, ← distinct.erase_eq_filter, List.length_erase_of_mem listed,
    Nat.sub_add_cancel (List.length_pos_of_mem listed), lapicIds, List.length_map]

/-- The walks over the table are safe exactly if the table can be walked over and there is room for
the processors that it lists. -/
theorem madt_walks_iff (memory : Memory) (host : Host) (lapicId : UInt8) :
    Safe memory host lapicId ↔ Walkable memory ∧ Room memory host lapicId := by
  refine ⟨Safe.walkable, ?_⟩
  rintro ⟨walkable, room⟩
  obtain ⟨found, walked⟩ := records_of_wide walkable.wide
    (show madtLength memory - madtRecords < madtLength memory + 1 by omega)
  obtain rfl := tableRecords_eq walked
  have done := @smpInitOthers_eq memory host lapicId _ _ walked
  have starts := starts_of_done walked done
  have touched : ∀ offset, (∃ record ∈ tableRecords memory, Touches memory record offset) →
      offset < madtLength memory := by
    rintro offset ⟨record, listed, touches⟩
    obtain ⟨reached, before⟩ := (mem_records walked).mp listed
    exact walkable.inside reached before touches
  have table : ∀ offset ∈ span 4 4, offset < madtLength memory := by
    intro offset member
    exact Nat.lt_of_lt_of_le (mem_span.mp member).2 walkable.length
  have stored := (stored_iff starts).mpr room
  have few := (places_lt_iff _).mp (by rw [← List.nil_append (places 0 _)]; exact starts.stored ▸ stored)
  refine ⟨_, _, done, ?_, stored, ?_, ?_⟩
  · obtain ⟨offsets, reads, each⟩ := starts.reads
    intro offset member
    rw [reads] at member
    rcases List.mem_append.mp member with first | second
    · rcases List.mem_append.mp first with walk | again
      · rcases List.mem_append.mp walk with start | listed
        · exact table offset start
        · obtain ⟨record, inside, read⟩ := List.mem_flatMap.mp listed
          exact touched offset ⟨record, inside, touches_of_detectReads read⟩
      · exact table offset again
    · exact touched offset (each offset second)
  · have length : (last _).stored.length = _ := congrArg List.length starts.stored
    simp only [places, detected, List.nil_append, List.length_map, List.length_range', List.length_nil] at length few
    exact Nat.lt_of_le_of_lt (length ▸ starts.started) few
  · intro machine same listed distinct id inside
    obtain ⟨counted, all⟩ := starts.done machine same
    have amount := starts.amount
    have here := starts.stored
    rw [same] at amount here
    have others := others_length listed distinct
    simp only [detected, List.length_nil, List.nil_append, last] at all few amount here
    rw [all] at few here
    rcases Nat.eq_zero_or_pos id with rfl | positive
    · exact counted.self
    · apply counted.filled
      rw [here]
      refine mem_places few positive ?_
      rw [amount, ← others] at inside
      exact Nat.le_of_lt_succ (Nat.lt_of_lt_of_le inside (Nat.mod_le _ _))

/-- A table of 46 bytes with one record, whose length is zero. -/
def emptyRecord : Memory := fun offset =>
  if offset = 4 then 46 else if offset = 9 then 209 else if offset = 44 then 1 else 0

/-- The table with the empty record has a valid checksum. -/
theorem emptyRecord_unsafe :
    acpiValidChecksum emptyRecord (madtLength emptyRecord) = true ∧
      ¬ Safe emptyRecord ⟨fun _ => true, fun _ => true⟩ 0 := by
  refine ⟨by decide, fun safe => ?_⟩
  exact safe.walkable.1.wide 44 (.here 44) (by decide) rfl

end Safety

end Asym.MadtWalks
