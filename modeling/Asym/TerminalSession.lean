import Asym.CStrings
import Asym.CommandLines
import Asym.FileTables
import Asym.Keyboard
import Mathlib.Data.Finset.Card

/-!
# A session of the terminal

The terminal collects a line in a buffer of 256 bytes while keys are pressed. A finished line is a
command, or goes to the child that a command has started, through one of two pipes. What the child
writes is printed, and when it has closed its end the terminal closes its own ends and waits for
commands again.

What a session is meant to be has no buffer and no descriptors: a line, and the two files of the
child if there is one. Every step of the terminal is a step of such a session. The descriptors of
the terminal are those that it had at the start, and while there is a child its two ends.
-/

namespace Asym.TerminalSession

open ByteMemory CommandLines TerminalScreen
open FileTables (Slots configMaxFd openFrom openFrom_spec)
open Keyboard (KbdEvent EventType kbdModShift)

/-! ## Characters of keys -/

/-- The characters of the keys from `KEY_A` to `KEY_SLASH`. -/
def norms : List UInt8 :=
  text "abcdefghijklmnopqrstuvwxyz1234567890" ++ [10, 27, 8, 9, 32] ++ text "-=[]" ++ [92, 0] ++ text ";'" ++
    [96] ++ text ",./"

/-- The characters of the same keys with shift. -/
def shifts : List UInt8 :=
  text "ABCDEFGHIJKLMNOPQRSTUVWXYZ!\"#$%&/()=" ++ [10, 27, 8, 9, 32] ++ text "_+" ++ [123, 125, 124, 0] ++ text ":\"" ++
    text "~;:?"

/-- `kbd_ascii`. A key that `keymap` does not have has the character 0. -/
def kbdAscii (code : Nat) (mods : BitVec 32) : UInt8 :=
  if code ≥ 255 ∨ code < 4 then 0
  else if mods &&& kbdModShift ≠ 0 then shifts.getD (code - 4) 0 else norms.getD (code - 4) 0

/-! ## The source -/

/-- `terminal_state_t`. -/
inductive TerminalState
  | command
  | spawn
  deriving DecidableEq

/-- `pipefd_t`. -/
structure PipeFd where
  read : Nat
  write : Nat

/-- What the terminal does to the world. A write and a new process get files, those of the
descriptors that are given. -/
inductive Action
  | draw (operation : Operation)
  | chdir (path : List UInt8)
  | spawn (path : List UInt8) (stdin stdout : Option Nat)
  | write (file : Option Nat) (bytes : List UInt8)
  | timer

/-- The variables of the terminal, with the memory from `input` on, its descriptors and what it
has done. -/
structure Session where
  input : Memory
  state : TerminalState
  stdin : PipeFd
  stdout : PipeFd
  slots : Slots
  log : List Action

/-- What the system answers while an event is handled: to commands, the working directory after
them, and the files of new pipes. -/
structure Turn where
  answers : Answers
  cwd : List UInt8
  stdinRead : Nat
  stdinWrite : Nat
  stdoutRead : Nat
  stdoutWrite : Nat

/-- `ERR`. -/
def err : Nat := 2 ^ 64 - 1

/-- Something is done. -/
def Session.act (session : Session) (actions : List Action) : Session :=
  { session with log := session.log ++ actions }

/-- `terminal_put`. -/
def Session.put (session : Session) (chr : UInt8) : Session := session.act [.draw (.put chr)]

/-- `strlen` of the buffer, if there is an end in it. -/
def Session.strlen (session : Session) : Option Nat := CStrings.strlen maxPath session.input 0

/-- The string in the buffer. -/
def Session.string (session : Session) : Option (List UInt8) :=
  session.strlen.map fun length => (List.range length).map session.input

/-- A store into the buffer, if the place is in it. -/
def Session.store (session : Session) (index : Nat) (chr : UInt8) : Option Session :=
  if index < maxPath then some { session with input := Function.update session.input index chr } else none

/-- `input_push`. -/
def inputPush (session : Session) (chr : UInt8) : Option Session :=
  session.strlen.bind fun strLen =>
    if strLen ≥ maxPath - 2 then some session
    else (session.store strLen chr).bind fun stored => stored.store (strLen + 1) 0

/-- `input_pop`. -/
def inputPop (session : Session) : Option (UInt8 × Session) :=
  session.strlen.bind fun strLen =>
    if strLen ≠ 0 then
      (session.store (strLen - 1) 0).map fun stored => (session.input (strLen - 1), stored)
    else some (0, session)

/-- `input_clear`. -/
def inputClear (session : Session) : Session :=
  { session with input := Function.update session.input 0 0 }

/-- `terminal_state_set`. -/
def terminalStateSet (newState : TerminalState) (session : Session) : Session :=
  inputClear { session with state := newState }

/-- What `terminal_print_prompt` prints. -/
def prompt (cwd : List UInt8) : List Action :=
  [.draw (.print (text "\n")), .draw (.print cwd), .draw (.print (text "\n> "))]

/-- `syscall_pipe`, with the files of the pipe. -/
def syscallPipe (slots : Slots) (pipefd : PipeFd) (read write : Nat) : PipeFd × Slots :=
  match (openFrom slots 0 configMaxFd).1 with
  | none => ({ pipefd with read := err }, slots)
  | some readFd =>
      let opened := Function.update slots readFd (some read)
      match (openFrom opened 0 configMaxFd).1 with
      | none => (⟨readFd, err⟩, Function.update opened readFd none)
      | some writeFd => (⟨readFd, writeFd⟩, Function.update opened writeFd (some write))

/-- `close`. -/
def close (slots : Slots) (fd : Nat) : Slots :=
  if fd ≥ configMaxFd then slots else Function.update slots fd none

/-- `terminal_spawn`. -/
def terminalSpawn (turn : Turn) (path : List UInt8) (session : Session) : Session :=
  let (stdin, first) := syscallPipe session.slots session.stdin turn.stdinRead turn.stdinWrite
  let (stdout, second) := syscallPipe first session.stdout turn.stdoutRead turn.stdoutWrite
  let piped := { session with stdin, stdout, slots := second }
  if turn.answers.spawnFails path then
    { piped with slots := close (close (close (close second stdin.read) stdin.write) stdout.read) stdout.write }
  else
    terminalStateSet .spawn
      { piped.act [.spawn path (second stdin.read) (second stdout.write)] with
        slots := close (close second stdin.read) stdout.write }

/-- The effects of a command. -/
def Session.run (turn : Turn) (session : Session) : Effect → Session
  | .draw operation => session.act [.draw operation]
  | .chdir path => session.act [.chdir path]
  | .spawn path => terminalSpawn turn path session

/-- A command of `terminal_handle_input`. -/
def handleCommand (turn : Turn) (session : Session) : Option Session :=
  session.string.map fun input =>
    let parsed := (commandParse turn.answers input).foldl (Session.run turn) session
    if parsed.state = .command then parsed.act (prompt turn.cwd) else parsed

/-- `terminal_handle_input`. -/
def terminalHandleInput (turn : Turn) (chr : UInt8) (session : Session) : Option Session :=
  if chr = 10 then
    let drawn := session.put 10
    (match drawn.state with
      | .command => handleCommand turn drawn
      | .spawn => drawn.string.map fun input => drawn.act [.write (drawn.slots drawn.stdin.write) input]).map inputClear
  else if chr = 8 then
    (inputPop session).map fun popped => if popped.1 ≠ 0 then popped.2.put 8 else popped.2
  else (inputPush session chr).map fun pushed => pushed.put chr

/-- What comes to the terminal: a message to `procedure`, or bytes and the end of what the child
writes. -/
inductive Event
  | redraw (turn : Turn)
  | timer
  | kbd (data : KbdEvent) (turn : Turn)
  | output (bytes : List UInt8) (ended : Bool) (turn : Turn)

/-- What `procedure` does for `LMSG_INIT`. -/
def Session.init (session : Session) : Session :=
  (terminalStateSet .command session).act [.timer, .chdir (text "home:/usr")]

/-- What `procedure` draws for `LMSG_REDRAW`. -/
def welcome : List Action :=
  [.draw .clear, .draw (.print (text "Welcome to the Terminal (Very WIP)\n")),
    .draw (.print (text "Type help for a list of commands\n"))]

/-- The end of `terminal_read_stdout`. -/
def Session.childEnds (turn : Turn) (session : Session) : Session :=
  terminalStateSet .command
    { session.act (prompt turn.cwd) with
      slots := close (close session.slots session.stdout.read) session.stdin.write }

/-- `procedure` and `terminal_read_stdout`. Without a child nothing is read. -/
def Session.step (session : Session) : Event → Option Session
  | .redraw turn => some (session.act (welcome ++ prompt turn.cwd))
  | .timer => some (session.act [.timer, .draw .blink])
  | .kbd data turn =>
      if data.type ≠ .press then some session
      else
        let chr := kbdAscii data.code data.mods
        if chr = 0 then some session
        else (terminalHandleInput turn chr session).map fun handled => handled.act [.draw .showCursor, .timer]
  | .output bytes ended turn =>
      match session.state with
      | .command => some session
      | .spawn =>
          let read := bytes.foldl Session.put session
          some (if ended then read.childEnds turn else read)

/-! ## What a session is meant to be -/

/-- A line that is edited, the files that are written to and read from a child, and what was
done. -/
structure Shell where
  line : List UInt8
  child : Option (Nat × Nat)
  log : List Action

/-- Something is done. -/
def Shell.act (shell : Shell) (actions : List Action) : Shell :=
  { shell with log := shell.log ++ actions }

/-- An effect of a command. A child that is started gets the other ends of the two pipes. -/
def Shell.run (turn : Turn) (shell : Shell) : Effect → Shell
  | .draw operation => shell.act [.draw operation]
  | .chdir path => shell.act [.chdir path]
  | .spawn path =>
      if turn.answers.spawnFails path then shell
      else
        { shell.act [.spawn path (some turn.stdinRead) (some turn.stdoutWrite)] with
          line := [], child := some (turn.stdinWrite, turn.stdoutRead) }

/-- A line is finished: it is a command, or goes to the child. -/
def Shell.finish (turn : Turn) (shell : Shell) : Shell :=
  match shell.child with
  | some child => { shell.act [.write (some child.1) shell.line] with line := [] }
  | none =>
      let done := (perform turn.answers (request shell.line)).foldl (Shell.run turn) shell
      { if done.child = none then done.act (prompt turn.cwd) else done with line := [] }

/-- A character that is typed. A line has room for 254. -/
def Shell.type (turn : Turn) (chr : UInt8) (shell : Shell) : Shell :=
  if chr = 10 then (shell.act [.draw (.put 10)]).finish turn
  else if chr = 8 then
    if shell.line = [] then shell else { shell.act [.draw (.put 8)] with line := shell.line.dropLast }
  else
    { shell.act [.draw (.put chr)] with
      line := if shell.line.length < maxPath - 2 then shell.line ++ [chr] else shell.line }

/-- What an event means. -/
def Shell.step (shell : Shell) : Event → Shell
  | .redraw turn => shell.act (welcome ++ prompt turn.cwd)
  | .timer => shell.act [.timer, .draw .blink]
  | .kbd data turn =>
      let chr := kbdAscii data.code data.mods
      if data.type = .press ∧ chr ≠ 0 then (shell.type turn chr).act [.draw .showCursor, .timer] else shell
  | .output bytes ended turn =>
      match shell.child with
      | none => shell
      | some _ =>
          let read := shell.act (bytes.map fun chr => .draw (.put chr))
          if ended then { read.act (prompt turn.cwd) with line := [], child := none } else read

/-- The session that begins. -/
def Shell.init : Shell := ⟨[], none, [.timer, .chdir (text "home:/usr")]⟩

/-! ## Descriptors -/

section Descriptors

variable {slots : Slots}

/-- The descriptors that are free. -/
def free (slots : Slots) : Finset Nat := (Finset.range configMaxFd).filter fun fd => slots fd = none

/-- A free descriptor. -/
theorem mem_free {fd : Nat} : fd ∈ free slots ↔ fd < configMaxFd ∧ slots fd = none := by
  simp [free]

/-- An open takes a free descriptor, if there is one. -/
theorem openFrom_free (some_ : (free slots).Nonempty) :
    ∃ fd ∈ free slots, (openFrom slots 0 configMaxFd).1 = some fd := by
  obtain ⟨finds, misses, _⟩ := openFrom_spec slots 0 configMaxFd
  cases result : (openFrom slots 0 configMaxFd).1 with
  | some fd =>
      obtain ⟨_, inside, empty, _⟩ := finds fd result
      exact ⟨fd, mem_free.mpr ⟨by omega, empty⟩, rfl⟩
  | none =>
      obtain ⟨fd, isFree⟩ := some_
      obtain ⟨inside, empty⟩ := mem_free.mp isFree
      exact absurd empty (misses result fd (Nat.zero_le fd) (by omega))

/-- What is taken is not free anymore. -/
theorem free_update (fd file : Nat) :
    free (Function.update slots fd (some file)) = (free slots).erase fd := by
  ext other
  rw [Finset.mem_erase, mem_free, mem_free]
  by_cases same : other = fd
  · simp [same]
  · simp [same]

/-- A pipe takes two free descriptors, if there are two. -/
theorem pipe_spec (enough : 2 ≤ (free slots).card) (pipefd : PipeFd) (read write : Nat) :
    ∃ readFd ∈ free slots, ∃ writeFd ∈ free slots, readFd ≠ writeFd ∧
      syscallPipe slots pipefd read write = (⟨readFd, writeFd⟩,
        Function.update (Function.update slots readFd (some read)) writeFd (some write)) := by
  obtain ⟨readFd, readFree, first⟩ := openFrom_free (Finset.card_pos.mp (show 0 < (free slots).card by omega))
  have left : (free (Function.update slots readFd (some read))).card = (free slots).card - 1 := by
    rw [free_update, Finset.card_erase_of_mem readFree]
  obtain ⟨writeFd, writeFree, second⟩ := openFrom_free (Finset.card_pos.mp
    (show 0 < (free (Function.update slots readFd (some read))).card by omega))
  rw [free_update, Finset.mem_erase] at writeFree
  refine ⟨readFd, readFree, writeFd, writeFree.2, fun same => writeFree.1 same.symm, ?_⟩
  rw [syscallPipe, first]
  simp only [second]

/-- Two pipes take four different free descriptors, if there are four. -/
theorem pipes_spec (enough : 4 ≤ (free slots).card) (first second : PipeFd) (a b c d : Nat) :
    ∃ stdin stdout : PipeFd, [stdin.read, stdin.write, stdout.read, stdout.write].Nodup ∧
      (∀ fd ∈ [stdin.read, stdin.write, stdout.read, stdout.write], fd ∈ free slots) ∧
      (syscallPipe slots first a b).1 = stdin ∧
      syscallPipe (syscallPipe slots first a b).2 second c d = (stdout,
        Function.update (Function.update (Function.update (Function.update slots stdin.read (some a))
          stdin.write (some b)) stdout.read (some c)) stdout.write (some d)) := by
  obtain ⟨readFd, readFree, writeFd, writeFree, apart, piped⟩ :=
    pipe_spec (show 2 ≤ (free slots).card by omega) first a b
  have left : (free (syscallPipe slots first a b).2).card = (free slots).card - 2 := by
    have second : writeFd ∈ (free slots).erase readFd :=
      Finset.mem_erase.mpr ⟨fun same => apart same.symm, writeFree⟩
    rw [piped, free_update, free_update, Finset.card_erase_of_mem second, Finset.card_erase_of_mem readFree]
    omega
  obtain ⟨nextRead, nextReadFree, nextWrite, nextWriteFree, nextApart, nextPiped⟩ :=
    pipe_spec (show 2 ≤ (free (syscallPipe slots first a b).2).card by omega) second c d
  rw [piped, free_update, free_update, Finset.mem_erase, Finset.mem_erase] at nextReadFree nextWriteFree
  refine ⟨⟨readFd, writeFd⟩, ⟨nextRead, nextWrite⟩, ?_, ?_, by rw [piped], ?_⟩
  · simp only [List.nodup_cons, List.mem_cons, List.not_mem_nil, or_false, not_or, List.nodup_nil, and_true]
    exact ⟨⟨apart, fun same => nextReadFree.2.1 same.symm, fun same => nextWriteFree.2.1 same.symm⟩,
      ⟨fun same => nextReadFree.1 same.symm, fun same => nextWriteFree.1 same.symm⟩, nextApart, not_false⟩
  · simp only [List.forall_mem_cons]
    exact ⟨readFree, writeFree, nextReadFree.2.2, nextWriteFree.2.2, fun _ none => absurd none List.not_mem_nil⟩
  · rw [nextPiped, piped]

end Descriptors

/-! ## Steps -/

/-- The descriptors of the terminal are those that it had, and its two ends if there is a child. -/
def Attached (base : Slots) (session : Session) : Option (Nat × Nat) → Prop
  | none => session.state = .command ∧ session.slots = base
  | some child => session.state = .spawn ∧ session.stdin.write ∈ free base ∧ session.stdout.read ∈ free base ∧
      session.stdin.write ≠ session.stdout.read ∧ session.slots = Function.update
        (Function.update base session.stdin.write (some child.1)) session.stdout.read (some child.2)

/-- The terminal has the line in its buffer and no byte beside it, its descriptors, and has done
what it should. -/
structure Tracks (base : Slots) (memory : Memory) (shell : Shell) (session : Session) : Prop where
  holds : CStrings.Holds session.input 0 shell.line
  short : shell.line.length ≤ maxPath - 2
  outside : ∀ address, maxPath ≤ address → session.input address = memory address
  attached : Attached base session shell.child
  log : session.log = shell.log

section Steps

variable {base : Slots} {memory : Memory} {shell : Shell} {session : Session}

/-- Something is done. -/
theorem Tracks.act (tracks : Tracks base memory shell session) (actions : List Action) :
    Tracks base memory (shell.act actions) (session.act actions) := by
  refine ⟨tracks.holds, tracks.short, tracks.outside, tracks.attached, ?_⟩
  rw [Session.act, Shell.act, tracks.log]

/-- Characters that are put in turn. -/
theorem foldl_put (bytes : List UInt8) (session : Session) :
    bytes.foldl Session.put session = session.act (bytes.map fun chr => .draw (.put chr)) := by
  induction bytes generalizing session with
  | nil => rw [List.foldl_nil, Session.act, List.map_nil, List.append_nil]
  | cons chr later step =>
      rw [List.foldl_cons, step, Session.put, Session.act, Session.act, Session.act, List.map_cons, List.append_assoc]
      rfl

/-- The length of the line. -/
theorem Tracks.strlen (tracks : Tracks base memory shell session) : session.strlen = some shell.line.length :=
  tracks.holds.strlen (show shell.line.length < maxPath by have := tracks.short; simp only [maxPath] at this ⊢; omega)

/-- The line. -/
theorem Tracks.string (tracks : Tracks base memory shell session) : session.string = some shell.line := by
  rw [Session.string, tracks.strlen, Option.map_some, Option.some.injEq]
  refine List.ext_getElem (by simp) fun index inside _ => ?_
  have byte := (CStrings.holds_iff.mp tracks.holds).2 index
  simp only [List.length_map, List.length_range] at inside
  rw [List.getElem_map, List.getElem_range]
  have found := (byte shell.line[index] (List.getElem?_eq_getElem inside)).2
  rwa [Nat.zero_add] at found

/-- The line is thrown away. -/
theorem Tracks.clear (tracks : Tracks base memory shell session) :
    Tracks base memory { shell with line := [] } (inputClear session) := by
  refine ⟨show Function.update session.input 0 0 0 = 0 from Function.update_self _ _ _, Nat.zero_le _, ?_,
    tracks.attached, tracks.log⟩
  intro address beyond
  refine (Function.update_of_ne ?_ _ _).trans (tracks.outside address beyond)
  simp only [maxPath] at beyond
  omega

/-- A character is added to the line, if there is room. -/
theorem Tracks.push (tracks : Tracks base memory shell session) {chr : UInt8} (nonzero : chr ≠ 0) :
    ∃ pushed, inputPush session chr = some pushed ∧ Tracks base memory
      { shell with line := if shell.line.length < maxPath - 2 then shell.line ++ [chr] else shell.line } pushed := by
  rw [inputPush, tracks.strlen, Option.bind_some]
  by_cases room : shell.line.length < maxPath - 2
  · have inside : shell.line.length < maxPath ∧ shell.line.length + 1 < maxPath := by
      simp only [maxPath] at room ⊢
      omega
    have added := tracks.holds.snoc nonzero
    rw [Nat.zero_add, Nat.zero_add] at added
    rw [if_neg (Nat.not_le.mpr room), if_pos room, Session.store, if_pos inside.1, Option.bind_some, Session.store,
      if_pos inside.2]
    refine ⟨_, rfl, added, ?_, ?_, tracks.attached, tracks.log⟩
    · rw [List.length_append, List.length_singleton]
      exact room
    · intro address beyond
      refine (Function.update_of_ne (by omega) _ _).trans ((Function.update_of_ne (by omega) _ _).trans ?_)
      exact tracks.outside address beyond
  · rw [if_pos (Nat.not_lt.mp room), if_neg room]
    exact ⟨session, rfl, tracks⟩

/-- The last character of the line is removed, if there is one. -/
theorem Tracks.pop (tracks : Tracks base memory shell session) :
    ∃ popped, inputPop session = some popped ∧ (popped.1 ≠ 0 ↔ shell.line ≠ []) ∧
      Tracks base memory { shell with line := shell.line.dropLast } popped.2 := by
  have short := tracks.short
  rw [inputPop, tracks.strlen, Option.bind_some]
  by_cases none : shell.line = []
  · rw [if_neg (not_not_intro (List.length_eq_zero_iff.mpr none))]
    refine ⟨_, rfl, iff_of_false (not_not_intro rfl) (not_not_intro none), ?_⟩
    have same : shell.line.dropLast = shell.line := by rw [none, List.dropLast_nil]
    rw [same]
    exact tracks
  · have some_ : shell.line.length ≠ 0 := mt List.length_eq_zero_iff.mp none
    have inside : shell.line.length - 1 < maxPath := by
      simp only [maxPath] at short ⊢
      omega
    have last := (CStrings.holds_iff.mp tracks.holds).2 (shell.line.length - 1) _
      (List.getElem?_eq_getElem (by omega))
    have removed := tracks.holds.dropLast
    rw [Nat.zero_add] at last removed
    rw [if_pos some_, Session.store, if_pos inside]
    refine ⟨_, rfl, iff_of_true ?_ none, removed, ?_, ?_, tracks.attached, tracks.log⟩
    · rw [last.2]
      exact last.1
    · rw [List.length_dropLast]
      omega
    · intro address beyond
      exact (Function.update_of_ne (by omega) _ _).trans (tracks.outside address beyond)

/-- The descriptors after a child is started, and after that fails. -/
theorem spawned_slots {slots : Slots} {a b c d : Nat} (apart : [a, b, c, d].Nodup)
    (areFree : ∀ fd ∈ [a, b, c, d], fd ∈ free slots) (first second third fourth : Nat) {opened : Slots}
    (piped : opened = Function.update (Function.update (Function.update (Function.update slots a (some first))
      b (some second)) c (some third)) d (some fourth)) :
    opened a = some first ∧ opened d = some fourth ∧
      close (close opened a) d = Function.update (Function.update slots b (some second)) c (some third) ∧
      close (close (close (close opened a) b) c) d = slots := by
  simp only [List.nodup_cons, List.mem_cons, List.not_mem_nil, or_false, not_or, List.nodup_nil, and_true] at apart
  obtain ⟨⟨ab, ac, ad⟩, ⟨bc, bd⟩, cd, _⟩ := apart
  simp only [List.forall_mem_cons, mem_free] at areFree
  obtain ⟨aFree, bFree, cFree, dFree, _⟩ := areFree
  have closed : ∀ (slots : Slots) fd, fd < configMaxFd → close slots fd = Function.update slots fd none :=
    fun slots fd inside => if_neg (Nat.not_le.mpr inside)
  rw [piped, closed _ a aFree.1, closed _ d dFree.1, closed _ b bFree.1, closed _ c cFree.1, closed _ d dFree.1]
  refine ⟨?_, Function.update_self _ _ _, ?_, ?_⟩
  · rw [Function.update_of_ne ad, Function.update_of_ne ac, Function.update_of_ne ab, Function.update_self]
  · funext fd
    simp only [Function.update_apply]
    split_ifs <;> simp_all
  · funext fd
    simp only [Function.update_apply]
    split_ifs <;> simp_all

/-- A child is started, or the terminal is as it was. -/
theorem Tracks.spawn (enough : 4 ≤ (free base).card) (tracks : Tracks base memory shell session)
    (alone : shell.child = none) (turn : Turn) (path : List UInt8) :
    Tracks base memory (shell.run turn (.spawn path)) (terminalSpawn turn path session) := by
  have attached := tracks.attached
  rw [alone] at attached
  obtain ⟨state, slots⟩ := attached
  rw [← slots] at enough
  obtain ⟨stdin, stdout, apart, areFree, first, second⟩ := pipes_spec enough session.stdin session.stdout turn.stdinRead
    turn.stdinWrite turn.stdoutRead turn.stdoutWrite
  obtain ⟨reads, writes, kept, restored⟩ := spawned_slots apart areFree turn.stdinRead turn.stdinWrite turn.stdoutRead
    turn.stdoutWrite rfl
  rw [terminalSpawn, Shell.run]
  simp only [first, second]
  by_cases fails : turn.answers.spawnFails path
  · rw [if_pos fails, if_pos fails, restored]
    refine ⟨tracks.holds, tracks.short, tracks.outside, ?_, tracks.log⟩
    rw [alone]
    exact ⟨state, slots⟩
  · rw [if_neg fails, if_neg fails, reads, writes, kept]
    have begun := (tracks.act [.spawn path (some turn.stdinRead) (some turn.stdoutWrite)]).clear
    rw [slots] at areFree ⊢
    simp only [List.forall_mem_cons] at areFree
    refine ⟨begun.holds, begun.short, begun.outside, ⟨rfl, areFree.2.1, areFree.2.2.1, ?_, rfl⟩, begun.log⟩
    intro same
    simp only [List.nodup_cons, List.mem_cons, not_or] at apart
    exact apart.2.1.1 same

/-- An effect that starts no child. -/
def Plain (effect : Effect) : Prop := ∀ path, effect ≠ .spawn path

/-- Effects that start no child. -/
theorem Tracks.plain (tracks : Tracks base memory shell session) (turn : Turn) {effects : List Effect}
    (plain : ∀ effect ∈ effects, Plain effect) :
    Tracks base memory (effects.foldl (Shell.run turn) shell) (effects.foldl (Session.run turn) session) ∧
      (effects.foldl (Shell.run turn) shell).child = shell.child := by
  induction effects generalizing shell session with
  | nil => exact ⟨tracks, rfl⟩
  | cons effect later step =>
      rw [List.forall_mem_cons] at plain
      cases effect with
      | draw operation => exact step (tracks.act [.draw operation]) plain.2
      | chdir path => exact step (tracks.act [.chdir path]) plain.2
      | spawn path => exact absurd rfl (plain.1 path)

@[simp] theorem plain_print (str : List UInt8) : Plain (print str) := fun _ same => by cases same

@[simp] theorem plain_put (chr : UInt8) : Plain (put chr) := fun _ same => by cases same

@[simp] theorem plain_draw (operation : Operation) : Plain (.draw operation) := fun _ same => by cases same

@[simp] theorem plain_chdir (path : List UInt8) : Plain (.chdir path) := fun _ same => by cases same

/-- Errors are printed. -/
theorem plain_error (answers : Answers) (str : Option (List UInt8)) :
    ∀ effect ∈ terminalError answers str, Plain effect := by
  simp [terminalError]

/-- Entries are printed. -/
theorem plain_entry (entry : DirEntry) : ∀ effect ∈ printEntry entry, Plain effect := by
  rw [printEntry]
  cases entry.isDir <;> simp

/-- A command starts a child at most first of all. -/
theorem perform_plain (answers : Answers) (asked : Request) :
    (∀ effect ∈ perform answers asked, Plain effect) ∨
      ∃ name silent dir later, asked = .binary name silent ∧ found answers name = some dir ∧
        perform answers asked = .spawn (dir ++ text "/" ++ name) :: later ∧ ∀ effect ∈ later, Plain effect := by
  have error := plain_error answers
  cases asked with
  | directory path =>
      left
      rcases path with _ | path
      · simp [perform]
      · rw [perform, List.forall_mem_cons]
        refine ⟨plain_chdir path, ?_⟩
        split_ifs
        · exact error none
        · exact fun _ inside => absurd inside List.not_mem_nil
  | listing path =>
      left
      rw [perform]
      cases answers.loaddir path with
      | none => exact error none
      | some entries =>
          intro effect inside
          rcases List.mem_append.mp inside with printed | last
          · obtain ⟨entry, _, among⟩ := List.mem_flatMap.mp printed
            exact plain_entry entry effect among
          · rw [List.mem_singleton.mp last]
            exact plain_put 10
  | clear => exact .inl (by simp [perform])
  | help topic =>
      left
      rcases topic with _ | topic
      · simp [perform, commandHelp, commands]
      · rw [perform]
        cases commands.find? (·.name = topic) with
        | none => exact error _
        | some command => simp
  | binary name silent =>
      rw [perform]
      cases dirs : found answers name with
      | some dir =>
          right
          refine ⟨name, silent, dir, _, rfl, dirs, rfl, ?_⟩
          split_ifs
          · exact error none
          · exact fun _ inside => absurd inside List.not_mem_nil
      | none =>
          left
          show ∀ effect ∈ if silent then [] else terminalError answers (text "command not found"), Plain effect
          split_ifs
          · exact fun _ inside => absurd inside List.not_mem_nil
          · exact error _

/-- A command. -/
theorem Tracks.command (enough : 4 ≤ (free base).card) (tracks : Tracks base memory shell session)
    (alone : shell.child = none) (turn : Turn) (asked : Request) :
    Tracks base memory ((perform turn.answers asked).foldl (Shell.run turn) shell)
      ((perform turn.answers asked).foldl (Session.run turn) session) := by
  rcases perform_plain turn.answers asked with plain | ⟨_, _, _, later, _, _, first, plain⟩
  · exact (tracks.plain turn plain).1
  · rw [first, List.foldl_cons, List.foldl_cons]
    exact ((tracks.spawn enough alone turn _).plain turn plain).1

/-- A terminal is in the state of a command exactly if it has no child. -/
theorem Tracks.state_iff (tracks : Tracks base memory shell session) :
    session.state = .command ↔ shell.child = none := by
  have attached := tracks.attached
  cases child : shell.child with
  | none =>
      rw [child] at attached
      exact iff_of_true attached.1 rfl
  | some files =>
      rw [child] at attached
      refine iff_of_false ?_ (Option.some_ne_none files)
      rw [attached.1]
      exact fun same => by cases same

/-- A line that is a command. -/
theorem Tracks.handle (enough : 4 ≤ (free base).card) (tracks : Tracks base memory shell session)
    (alone : shell.child = none) (turn : Turn) :
    ∃ handled, handleCommand turn session = some handled ∧
      Tracks base memory (shell.finish turn) (inputClear handled) := by
  have done := tracks.command enough alone turn (request shell.line)
  rw [handleCommand, tracks.string, Option.map_some, Shell.finish, alone]
  refine ⟨_, rfl, ?_⟩
  simp only [commandParse_eq, done.state_iff]
  split_ifs with idle
  · exact (done.act (prompt turn.cwd)).clear
  · exact done.clear

/-- A line that goes to the child. -/
theorem Tracks.send (tracks : Tracks base memory shell session) {child : Nat × Nat} (alive : shell.child = some child)
    (turn : Turn) : Tracks base memory (shell.finish turn)
      (inputClear (session.act [.write (session.slots session.stdin.write) shell.line])) := by
  have attached := tracks.attached
  rw [alive] at attached
  obtain ⟨_, _, _, apart, slots⟩ := attached
  have file : session.slots session.stdin.write = some child.1 := by
    rw [slots, Function.update_of_ne apart, Function.update_self]
  rw [Shell.finish, alive, file]
  exact (tracks.act [.write (some child.1) shell.line]).clear

/-- A line is finished. -/
theorem Tracks.finish (enough : 4 ≤ (free base).card) (tracks : Tracks base memory shell session) (turn : Turn) :
    ∃ finished, terminalHandleInput turn 10 session = some finished ∧
      Tracks base memory ((shell.act [.draw (.put 10)]).finish turn) finished := by
  have drawn : Tracks base memory (shell.act [.draw (.put 10)]) (session.put 10) := tracks.act [.draw (.put 10)]
  have state := drawn.state_iff
  rw [terminalHandleInput, if_pos rfl]
  cases child : (shell.act [.draw (.put 10)]).child with
  | none =>
      obtain ⟨handled, result, tracked⟩ := drawn.handle enough child turn
      refine ⟨inputClear handled, ?_, tracked⟩
      simp only [state.mpr child, result, Option.map_some]
  | some files =>
      refine ⟨_, ?_, drawn.send child turn⟩
      cases waits : (session.put 10).state with
      | command => exact absurd (state.mp waits) (by rw [child]; exact Option.some_ne_none files)
      | spawn => simp only [waits, drawn.string, Option.map_some]

/-- A character that is typed. -/
theorem Tracks.type (enough : 4 ≤ (free base).card) (tracks : Tracks base memory shell session) (turn : Turn)
    {chr : UInt8} (nonzero : chr ≠ 0) :
    ∃ handled, terminalHandleInput turn chr session = some handled ∧
      Tracks base memory (shell.type turn chr) handled := by
  rw [Shell.type]
  by_cases enter : chr = 10
  · rw [if_pos enter, enter]
    exact tracks.finish enough turn
  rw [terminalHandleInput, if_neg enter, if_neg enter]
  by_cases back : chr = 8
  · obtain ⟨popped, result, some_, removed⟩ := tracks.pop
    rw [if_pos back, if_pos back, result, Option.map_some]
    by_cases none : shell.line = []
    · rw [if_neg (mt some_.mp (not_not_intro none)), if_pos none]
      rw [none] at removed
      have same : { shell with line := [].dropLast } = shell := by rw [List.dropLast_nil, ← none]
      rw [same] at removed
      exact ⟨_, rfl, removed⟩
    · rw [if_pos (some_.mpr none), if_neg none]
      exact ⟨_, rfl, removed.act [.draw (.put 8)]⟩
  · obtain ⟨pushed, result, added⟩ := tracks.push nonzero
    rw [if_neg back, if_neg back, result, Option.map_some]
    exact ⟨_, rfl, added.act [.draw (.put chr)]⟩

/-- The child ends. -/
theorem Tracks.ends (tracks : Tracks base memory shell session) {child : Nat × Nat} (alive : shell.child = some child)
    (turn : Turn) : Tracks base memory { shell.act (prompt turn.cwd) with line := [], child := none }
      (session.childEnds turn) := by
  have attached := tracks.attached
  rw [alive] at attached
  obtain ⟨_, writeFree, readFree, _, slots⟩ := attached
  have cleared := (tracks.act (prompt turn.cwd)).clear
  refine ⟨cleared.holds, cleared.short, cleared.outside, ⟨rfl, ?_⟩, cleared.log⟩
  rw [mem_free] at writeFree readFree
  show close (close session.slots session.stdout.read) session.stdin.write = base
  rw [close, close, if_neg (Nat.not_le.mpr readFree.1), if_neg (Nat.not_le.mpr writeFree.1), slots]
  funext fd
  simp only [Function.update_apply]
  split_ifs with write read
  · rw [write, writeFree.2]
  · rw [read, readFree.2]
  · rfl

/-- Every event does to the terminal what it means. -/
theorem Tracks.step (enough : 4 ≤ (free base).card) (tracks : Tracks base memory shell session) (event : Event) :
    ∃ next, session.step event = some next ∧ Tracks base memory (shell.step event) next := by
  cases event with
  | redraw turn => exact ⟨_, rfl, tracks.act _⟩
  | timer => exact ⟨_, rfl, tracks.act _⟩
  | kbd data turn =>
      rw [Session.step, Shell.step]
      by_cases press : data.type = .press
      · by_cases none : kbdAscii data.code data.mods = 0
        · rw [if_neg (not_not_intro press), if_pos none, if_neg fun both => both.2 none]
          exact ⟨session, rfl, tracks⟩
        · obtain ⟨handled, result, typed⟩ := tracks.type enough turn none
          rw [if_neg (not_not_intro press), if_neg none, if_pos ⟨press, none⟩, result]
          exact ⟨_, rfl, typed.act _⟩
      · rw [if_pos press, if_neg fun both => press both.1]
        exact ⟨session, rfl, tracks⟩
  | output bytes ended turn =>
      have state := tracks.state_iff
      rw [Session.step, Shell.step, foldl_put]
      cases child : shell.child with
      | none =>
          rw [state.mpr child]
          exact ⟨session, rfl, tracks⟩
      | some files =>
          have read := tracks.act (bytes.map fun chr => .draw (.put chr))
          cases waits : session.state with
          | command => exact absurd (state.mp waits) (by rw [child]; exact Option.some_ne_none files)
          | spawn =>
              refine ⟨_, rfl, ?_⟩
              cases ended with
              | true => exact read.ends child turn
              | false => exact read

end Steps

/-! ## Runs -/

/-- The variables before the first message. -/
def start (base : Slots) (memory : Memory) (stdin stdout : PipeFd) : Session :=
  ⟨memory, .command, stdin, stdout, base, []⟩

/-- The first message. -/
theorem init_tracks (base : Slots) (memory : Memory) (stdin stdout : PipeFd) :
    Tracks base memory Shell.init (start base memory stdin stdout).init := by
  refine ⟨show Function.update memory 0 0 0 = 0 from Function.update_self _ _ _, Nat.zero_le _, ?_, ⟨rfl, rfl⟩, rfl⟩
  intro address beyond
  refine Function.update_of_ne ?_ _ _
  simp only [maxPath] at beyond
  omega

/-- Events in turn. -/
theorem Tracks.run {base : Slots} {memory : Memory} {shell : Shell} {session : Session}
    (enough : 4 ≤ (free base).card) (tracks : Tracks base memory shell session) (events : List Event) :
    ∃ last, EventRuns.run Session.step session events = some last ∧
      Tracks base memory (events.foldl Shell.step shell) last := by
  induction events generalizing shell session with
  | nil => exact ⟨session, rfl, tracks⟩
  | cons event later step =>
      obtain ⟨next, taken, tracked⟩ := tracks.step enough event
      obtain ⟨last, reached, lastTracked⟩ := step tracked
      refine ⟨last, ?_, lastTracked⟩
      rw [EventRuns.run, List.foldlM_cons, taken]
      exact reached

/-- With four free descriptors at the start, whatever comes, no store and no search leaves the
buffer, the terminal does what a session is meant to do, its line is in the buffer, and its
descriptors are those of the start, with the two ends of the child if there is one. -/
theorem session_tracks {base : Slots} (enough : 4 ≤ (free base).card) (memory : Memory) (stdin stdout : PipeFd)
    (events : List Event) :
    ∃ session, EventRuns.run Session.step (start base memory stdin stdout).init events = some session ∧
      Tracks base memory (events.foldl Shell.step Shell.init) session :=
  (init_tracks base memory stdin stdout).run enough events

/-- A terminal of which only the descriptors 0 to 2 are in use. -/
def threeFiles : Slots := fun fd => if fd < 3 then some fd else none

/-- What the system answers when no lookup directory has a binary. -/
def noBinary : Turn := ⟨⟨fun _ => none, fun _ => false, fun _ => false, []⟩, [], 3, 4, 5, 6⟩

/-- A letter is typed, and the line is finished. -/
def oneLetter (turn : Turn) : List Event := [.kbd ⟨0, .press, 0, 4⟩ turn, .kbd ⟨0, .press, 0, 40⟩ turn]

/-- The letter is shown, then the line is over. -/
theorem session_tracks_typed : ∃ session,
    EventRuns.run Session.step (start threeFiles (fun _ => 0) ⟨0, 0⟩ ⟨0, 0⟩).init (oneLetter noBinary) = some session ∧
      .draw (.put 97) ∈ session.log ∧ session.string = some [] ∧ session.slots = threeFiles := by
  have enough : 4 ≤ (free threeFiles).card := by decide
  obtain ⟨session, reached, tracks⟩ := session_tracks enough (fun _ => 0) ⟨0, 0⟩ ⟨0, 0⟩ (oneLetter noBinary)
  refine ⟨session, reached, ?_, tracks.string, tracks.attached.2⟩
  rw [tracks.log]
  exact List.mem_of_getElem? (show ((oneLetter noBinary).foldl Shell.step Shell.init).log[2]? =
    some (.draw (.put 97)) from rfl)

/-! ## What is started -/

/-- A path of a binary that a lookup directory has, under a name that fits into an entry. -/
def Listed (turn : Turn) (path : List UInt8) : Prop :=
  ∃ dir ∈ lookupDirs, ∃ name entries, path = dir ++ text "/" ++ name ∧ name.length < maxName ∧
    turn.answers.loaddir dir = some entries ∧ name ∈ entries.map DirEntry.name

/-- Such a path fits into a path buffer. -/
theorem Listed.fits {turn : Turn} {path : List UInt8} (listed : Listed turn path) : path.length < maxPath := by
  obtain ⟨dir, among, name, _, rfl, short, _⟩ := listed
  have bounded : ∀ dir ∈ lookupDirs, dir.length ≤ 13 := by decide
  have dirBound := bounded dir among
  have slash : (text "/").length = 1 := by decide
  rw [List.length_append, List.length_append, slash]
  simp only [maxName, maxPath] at short ⊢
  omega

/-- What a line starts is listed. -/
theorem request_listed (turn : Turn) (line path : List UInt8)
    (starts : .spawn path ∈ perform turn.answers (request line)) : Listed turn path := by
  rcases perform_plain turn.answers (request line) with plain | ⟨name, silent, dir, later, asked, looked, first, plain⟩
  · exact absurd rfl (plain _ starts path)
  · rw [first, List.mem_cons] at starts
    rcases starts with same | starts
    · have short : ∀ str, (shortName str).length < maxName := by
        intro str
        rw [shortName, List.length_take]
        simp only [maxName]
        omega
      have named : name.length < maxName := by
        rw [request] at asked
        split_ifs at asked
        · rw [← (Request.binary.inj asked).1]
          exact short _
        · rw [← (Request.binary.inj asked).1]
          exact short _
      have lists := List.find?_some looked
      rw [Option.any_eq_true] at lists
      obtain ⟨entries, answered, inside⟩ := lists
      exact ⟨dir, List.mem_of_find?_eq_some looked, name, entries, Effect.spawn.inj same, named, answered,
        of_decide_eq_true inside⟩
    · exact absurd rfl (plain _ starts path)

/-- A log goes on with actions that are allowed. -/
def Adds (allowed : Action → Prop) (log next : List Action) : Prop :=
  ∃ actions, next = log ++ actions ∧ ∀ action ∈ actions, allowed action

section Adds

variable {allowed : Action → Prop} {log next last : List Action}

/-- Nothing is done. -/
theorem Adds.refl (log : List Action) : Adds allowed log log :=
  ⟨[], (List.append_nil log).symm, List.forall_mem_nil _⟩

/-- More is done. -/
theorem Adds.append (adds : Adds allowed log next) {actions : List Action} (each : ∀ action ∈ actions, allowed action) :
    Adds allowed log (next ++ actions) := by
  obtain ⟨earlier, rfl, before⟩ := adds
  exact ⟨earlier ++ actions, List.append_assoc _ _ _, List.forall_mem_append.mpr ⟨before, each⟩⟩

/-- More may be allowed. -/
theorem Adds.mono {more : Action → Prop} (adds : Adds allowed log next)
    (weaker : ∀ action, allowed action → more action) : Adds more log next := by
  obtain ⟨actions, rfl, each⟩ := adds
  exact ⟨actions, rfl, fun action member => weaker action (each action member)⟩

end Adds

/-- A process that is started is listed. -/
def Starts (turn : Turn) (action : Action) : Prop :=
  ∀ path stdin stdout, action = .spawn path stdin stdout → Listed turn path

/-- A prompt starts nothing. -/
theorem prompt_plain (turn : Turn) (cwd : List UInt8) : ∀ action ∈ prompt cwd, Starts turn action := by
  simp [prompt, Starts]

/-- The effects of a command start what is listed. -/
theorem effects_listed (turn : Turn) (effects : List Effect) (listed : ∀ path, .spawn path ∈ effects → Listed turn path)
    {shell : Shell} {log : List Action} (adds : Adds (Starts turn) log shell.log) :
    Adds (Starts turn) log (effects.foldl (Shell.run turn) shell).log := by
  induction effects generalizing shell with
  | nil => exact adds
  | cons effect later step =>
      refine step (fun path among => listed path (List.mem_cons_of_mem _ among)) ?_
      cases effect with
      | draw operation => exact adds.append (by simp [Starts])
      | chdir other => exact adds.append (by simp [Starts])
      | spawn other =>
          rw [Shell.run]
          split_ifs
          · exact adds
          · refine adds.append fun action among path stdin stdout started => ?_
            rw [List.mem_singleton.mp among, Action.spawn.injEq] at started
            exact started.1 ▸ listed other List.mem_cons_self

/-- A line that is finished starts nothing but what is listed, and nothing while there is a child. -/
theorem finish_listed (turn : Turn) (shell : Shell) {log : List Action}
    (adds : ∀ allowed : Action → Prop, (∀ operation, allowed (.draw operation)) → Adds allowed log shell.log) :
    Adds (fun action => ∀ path stdin stdout, action = .spawn path stdin stdout →
      shell.child = none ∧ Listed turn path) log (shell.finish turn).log := by
  rw [Shell.finish]
  cases child : shell.child with
  | some files => exact (adds _ (by simp)).append (by simp)
  | none =>
      have done := effects_listed turn (perform turn.answers (request shell.line))
        (fun path among => request_listed turn shell.line path among) (adds (Starts turn) (by simp [Starts]))
      have prompted : Adds (Starts turn) log (if
          ((perform turn.answers (request shell.line)).foldl (Shell.run turn) shell).child = none then
          ((perform turn.answers (request shell.line)).foldl (Shell.run turn) shell).act (prompt turn.cwd)
        else (perform turn.answers (request shell.line)).foldl (Shell.run turn) shell).log := by
        split_ifs
        · exact done.append (prompt_plain turn turn.cwd)
        · exact done
      exact prompted.mono fun action starts path stdin stdout same => ⟨rfl, starts path stdin stdout same⟩

/-- The key that finishes a line. -/
def Finishes (data : KbdEvent) : Prop := data.type = .press ∧ kbdAscii data.code data.mods = 10

/-- What is started is started by the key that finishes a line, without a child, and is listed
then. -/
def Started (shell : Shell) (event : Event) (action : Action) : Prop :=
  ∀ path stdin stdout, action = .spawn path stdin stdout →
    ∃ data turn, event = .kbd data turn ∧ Finishes data ∧ shell.child = none ∧ Listed turn path

/-- An event starts nothing but what is listed when a key finishes a line. -/
theorem step_listed (shell : Shell) (event : Event) :
    Adds (Started shell event) shell.log (shell.step event).log := by
  have same : Adds (Started shell event) shell.log shell.log := Adds.refl shell.log
  cases event with
  | redraw turn => exact same.append (by simp [welcome, prompt, Started])
  | timer => exact same.append (by simp [Started])
  | kbd data turn =>
      rw [Shell.step]
      split_ifs with press
      · refine Adds.append ?_ (by simp [Started])
        rw [Shell.type]
        split_ifs with finishes
        · refine (finish_listed turn _ fun allowed draws => ?_).mono fun action starts path stdin stdout spawned => ?_
          · exact (Adds.refl shell.log).append (by simp [draws])
          · exact ⟨data, turn, rfl, ⟨press.1, finishes⟩, starts path stdin stdout spawned⟩
        · exact same
        all_goals exact same.append (by simp [Started])
      · exact same
  | output bytes ended turn =>
      rw [Shell.step]
      cases shell.child with
      | none => exact same
      | some files =>
          have read : Adds (Started shell (.output bytes ended turn)) shell.log
              (shell.act (bytes.map fun chr => .draw (.put chr))).log := same.append (by simp [Started])
          split_ifs
          · exact read.append (by simp [prompt, Started])
          · exact read

/-- What was done was done in one of the events. -/
theorem log_split (events : List Event) {index : Nat} {path : List UInt8} {stdin stdout : Option Nat}
    (started : (events.foldl Shell.step Shell.init).log[index]? = some (.spawn path stdin stdout)) :
    ∃ before data turn later, events = before ++ .kbd data turn :: later ∧ Finishes data ∧
      (before.foldl Shell.step Shell.init).child = none ∧
      (before.foldl Shell.step Shell.init).log.length ≤ index ∧
      index < ((before.foldl Shell.step Shell.init).step (.kbd data turn)).log.length ∧ Listed turn path := by
  induction events using List.reverseRecOn with
  | nil =>
      have among := List.mem_of_getElem? started
      simp [Shell.init] at among
  | append_singleton events event ih =>
      rw [List.foldl_append] at started
      obtain ⟨actions, log, each⟩ := step_listed (events.foldl Shell.step Shell.init) event
      have inside := (List.getElem?_eq_some_iff.mp started).1
      rw [List.foldl_cons, List.foldl_nil] at started inside
      by_cases earlier : index < (events.foldl Shell.step Shell.init).log.length
      · rw [log, List.getElem?_append_left earlier] at started
        obtain ⟨before, data, turn, later, rfl, rest⟩ := ih started
        exact ⟨before, data, turn, later ++ [event], by simp, rest⟩
      · rw [log, List.getElem?_append_right (Nat.le_of_not_lt earlier)] at started
        obtain ⟨data, turn, rfl, finishes, free, listed⟩ := each _ (List.mem_of_getElem? started) _ _ _ rfl
        exact ⟨events, data, turn, [], rfl, finishes, free, Nat.le_of_not_lt earlier, inside, listed⟩

/-- Every process that the terminal starts, whatever is typed, also behind a dot and a slash, is
started by a key that finishes a line while no child runs, and is a binary that a lookup directory
has just then; its path fits into the buffer in which it is put together. The shell that the
terminal tracks does the same, and there the log only goes on, event by event. -/
theorem started_listed {base : Slots} (enough : 4 ≤ (free base).card) (memory : Memory) (stdin stdout : PipeFd)
    (events : List Event) (session : Session)
    (reached : EventRuns.run Session.step (start base memory stdin stdout).init events = some session)
    (index : Nat) (path : List UInt8) (childStdin childStdout : Option Nat)
    (started : session.log[index]? = some (.spawn path childStdin childStdout)) :
    path.length < maxPath ∧ ∃ before data turn later waiting next, events = before ++ .kbd data turn :: later ∧
      EventRuns.run Session.step (start base memory stdin stdout).init before = some waiting ∧
      waiting.state = .command ∧ Finishes data ∧ waiting.step (.kbd data turn) = some next ∧
      waiting.log.length ≤ index ∧ index < next.log.length ∧ Listed turn path := by
  have begun := init_tracks base memory stdin stdout
  obtain ⟨last, same, tracks⟩ := begun.run enough events
  rw [reached] at same
  obtain rfl := Option.some.inj same
  rw [tracks.log] at started
  obtain ⟨before, data, turn, later, split, finishes, free, above, below, listed⟩ := log_split events started
  obtain ⟨waiting, reachedBefore, waits⟩ := begun.run enough before
  obtain ⟨next, taken, after⟩ := waits.step enough (.kbd data turn)
  refine ⟨listed.fits, before, data, turn, later, waiting, next, split, reachedBefore, waits.state_iff.mpr free,
    finishes, taken, ?_, ?_, listed⟩
  · rwa [waits.log]
  · rwa [after.log]

/-- What the system answers when the first lookup directory has a binary of one letter. -/
def oneBinary : Turn :=
  ⟨⟨fun path => if path = text "home:/bin" then some [⟨[97], false⟩] else none, fun _ => false, fun _ => false, []⟩,
    [], 3, 4, 5, 6⟩

/-- The binary is started by the second key. -/
theorem started_listed_letter : 4 ≤ (free threeFiles).card ∧ ∃ session,
    EventRuns.run Session.step (start threeFiles (fun _ => 0) ⟨0, 0⟩ ⟨0, 0⟩).init (oneLetter oneBinary) = some session ∧
      session.log[6]? = some (.spawn (text "home:/bin/a") (some 3) (some 6)) ∧
      (text "home:/bin/a").length < maxPath ∧ ∃ before data turn later,
        oneLetter oneBinary = before ++ .kbd data turn :: later ∧ Finishes data ∧ Listed turn (text "home:/bin/a") := by
  have enough : 4 ≤ (free threeFiles).card := by decide
  obtain ⟨session, reached, tracks⟩ :=
    (init_tracks threeFiles (fun _ => 0) ⟨0, 0⟩ ⟨0, 0⟩).run enough (oneLetter oneBinary)
  have started : session.log[6]? = some (.spawn (text "home:/bin/a") (some 3) (some 6)) := by
    rw [tracks.log]
    rfl
  obtain ⟨short, before, data, turn, later, _, _, split, _, _, finishes, _, _, _, listed⟩ :=
    started_listed enough (fun _ => 0) ⟨0, 0⟩ ⟨0, 0⟩ (oneLetter oneBinary) session reached 6 _ _ _ started
  exact ⟨enough, session, reached, started, short, before, data, turn, later, split, finishes, listed⟩

end Asym.TerminalSession
