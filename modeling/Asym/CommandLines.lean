import Asym.TerminalScreen
import Mathlib.Data.List.Find

/-!
# Command lines

A line that is entered in the terminal is a command: one of four that the terminal has itself, or
the name of a binary in one of the lookup directories. The code compares and copies tokens byte by
byte, and goes through tables.

What a line asks for depends on its first word and on what comes after it. The code does what is
asked for, with two limits on names: a directory that is listed and a binary that is started have
at most 31 bytes.
-/

namespace Asym.CommandLines

open TerminalScreen

/-! ## Strings -/

/-- The bytes of a text. -/
def text (str : String) : List UInt8 := str.toList.map fun chr => UInt8.ofNat chr.toNat

/-- `MAX_PATH`. -/
def maxPath : Nat := 256

/-- `MAX_NAME`. -/
def maxName : Nat := 32

/-- `strchr`: the string from the character on. -/
def strchr (ch : UInt8) : List UInt8 → Option (List UInt8)
  | [] => if ch = 0 then some [] else none
  | byte :: later => if byte = ch then some (byte :: later) else strchr ch later

/-- A token ends at a space, and at the end of the string. -/
def endsToken (byte : UInt8) : Bool := byte = 0 ∨ byte = 32

/-- The loop of `token_next` behind a space. -/
def skipSpaces : List UInt8 → Option (List UInt8)
  | [] => none
  | byte :: later => if byte ≠ 32 then some (byte :: later) else skipSpaces later

/-- `token_next`. -/
def tokenNext (token : List UInt8) : Option (List UInt8) :=
  (strchr 32 token).bind fun next => skipSpaces next.tail

/-- The loop of `token_equal`, with a number of bytes to compare. -/
def equalFrom : Nat → List UInt8 → List UInt8 → Bool
  | 0, _, _ => false
  | count + 1, a, b =>
      if endsToken (a.headD 0) then endsToken (b.headD 0)
      else if a.headD 0 ≠ b.headD 0 then false
      else equalFrom count a.tail b.tail

/-- `token_equal`. -/
def tokenEqual (a b : List UInt8) : Bool := equalFrom maxPath a b

/-- The loop of `token_copy`, with a number of bytes that may be copied. -/
def copyFrom : Nat → List UInt8 → List UInt8
  | 0, _ => []
  | count + 1, src =>
      if endsToken (src.headD 0) then [] else src.headD 0 :: copyFrom count src.tail

/-- `token_copy`: the string that is in `dest` afterwards. -/
def tokenCopy (src : List UInt8) : List UInt8 := copyFrom (maxName - 1) src

/-! ## Commands -/

/-- `dir_entry_t`. -/
structure DirEntry where
  name : List UInt8
  isDir : Bool

/-- What the system calls answer while a command runs: `loaddir`, whether `chdir` and `spawn`
fail, and the text of the error. -/
structure Answers where
  loaddir : List UInt8 → Option (List DirEntry)
  chdirFails : List UInt8 → Bool
  spawnFails : List UInt8 → Bool
  errorText : List UInt8

/-- What a command does. -/
inductive Effect
  | draw (operation : Operation)
  | chdir (path : List UInt8)
  | spawn (path : List UInt8)

/-- `terminal_print`. -/
def print (str : List UInt8) : Effect := .draw (.print str)

/-- `terminal_put`. -/
def put (chr : UInt8) : Effect := .draw (.put chr)

/-- `terminal_error`. -/
def terminalError (answers : Answers) (str : Option (List UInt8)) : List Effect :=
  [print (text "error: "), print (str.getD answers.errorText), put 10]

/-- The functions of the commands. -/
inductive Callback
  | commandCd
  | commandLs
  | commandClear
  | commandHelp

/-- `command_t`. -/
structure Command where
  name : List UInt8
  synopsis : List UInt8
  description : List UInt8
  callback : Callback

/-- `commands`. -/
def commands : List Command :=
  [⟨text "cd", text "cd [DIRECTORY]",
      text "If DIRECTORY is given, the current working directory will be set to DIRECTORY else it will be set to " ++
        text "\"home:/usr\"",
      .commandCd⟩,
    ⟨text "ls", text "ls [DIRECTORY]",
      text "If DIRECTORY is given, the contents of DIRECTORY will be printed, else the contents of the " ++
        text "working directory will be printed. " ++
        text "Any printed entry followed by a \"/\" is a directory, other entries are files.",
      .commandLs⟩,
    ⟨text "clear", text "clear", text "Clears the screen", .commandClear⟩,
    ⟨text "help", text "help [COMMAND]",
      text "If COMMAND is given, information about COMMAND will be printed, else a list of available commands " ++
        text "will be printed.",
      .commandHelp⟩]

/-- `command_cd`. -/
def commandCd (answers : Answers) : Option (List UInt8) → List Effect
  | none => [.chdir (text "home:/usr")]
  | some token => .chdir token :: if answers.chdirFails token then terminalError answers none else []

/-- What `command_ls` prints of an entry. -/
def printEntry (entry : DirEntry) : List Effect :=
  print entry.name :: (if entry.isDir then [put 47] else []) ++ [put 32]

/-- `command_ls`. -/
def commandLs (answers : Answers) (token : Option (List UInt8)) : List Effect :=
  let path := token.elim (text ".") tokenCopy
  match answers.loaddir path with
  | none => terminalError answers none
  | some list => list.flatMap printEntry ++ [put 10]

/-- `command_help`. -/
def commandHelp (answers : Answers) : Option (List UInt8) → List Effect
  | none =>
      print (text "Type help [COMMAND] for more information about COMMAND\n  ") ::
        commands.flatMap (fun command => [print command.name, print (text " ")]) ++
        [print (text "./[BINARY IN CWD] [BINARY IN LOOKUP PATHS]")]
  | some token =>
      match commands.find? fun command => tokenEqual token command.name with
      | none => terminalError answers (text "command not found")
      | some command =>
          [print (text "NAME\n  "), print command.name, print (text "\nSYNOPSIS\n  "), print command.synopsis,
            print (text "\nDESCRIPTION\n  "), print command.description]

/-- The call of a callback. -/
def Callback.call (answers : Answers) (token : Option (List UInt8)) : Callback → List Effect
  | commandCd => CommandLines.commandCd answers token
  | commandLs => CommandLines.commandLs answers token
  | commandClear => [.draw .clear]
  | commandHelp => CommandLines.commandHelp answers token

/-- `command_look_for_binary`. -/
def commandLookForBinary (answers : Answers) (binary path : List UInt8) : Bool :=
  match answers.loaddir path with
  | none => false
  | some list => list.any fun entry => binary = entry.name

/-- `lookupDirs`. -/
def lookupDirs : List (List UInt8) := [text "home:/bin", text "home:/usr/bin"]

/-- `command_spawn`. The directory is not used. -/
def commandSpawn (answers : Answers) (_dir command : List UInt8) : List Effect :=
  let binary := tokenCopy command
  match lookupDirs.find? (commandLookForBinary answers binary) with
  | none => []
  | some dir =>
      let path := dir ++ text "/" ++ binary
      .spawn path :: if answers.spawnFails path then terminalError answers none else []

/-- `command_parse`. -/
def commandParse (answers : Answers) (command : List UInt8) : List Effect :=
  if command.headD 0 = 46 ∧ command.tail.headD 0 = 47 then commandSpawn answers (text ".") (command.drop 2)
  else match commands.find? fun entry => tokenEqual command entry.name with
    | some entry => entry.callback.call answers (tokenNext command)
    | none =>
        let binary := tokenCopy command
        match lookupDirs.find? (commandLookForBinary answers binary) with
        | some dir => commandSpawn answers dir command
        | none => terminalError answers (text "command not found")

/-! ## Words -/

/-- The first word of a string. -/
def word (str : List UInt8) : List UInt8 := str.takeWhile fun byte => !endsToken byte

/-- What comes after the first word and the spaces behind it. -/
def after (str : List UInt8) : List UInt8 := (str.dropWhile (· ≠ 32)).dropWhile (· = 32)

/-- A string that is empty is no argument. -/
def argument (str : List UInt8) : Option (List UInt8) := if str = [] then none else some str

/-- `token_next` returns what comes after the first word, if there is anything. -/
theorem tokenNext_eq (token : List UInt8) : tokenNext token = argument (after token) := by
  have skipped : ∀ str, skipSpaces str = argument (str.dropWhile (· = 32)) := by
    intro str
    induction str with
    | nil => rfl
    | cons byte later step =>
        rw [skipSpaces]
        by_cases space : byte = 32
        · rw [if_neg (not_not_intro space), step, List.dropWhile_cons_of_pos (by simpa using space)]
        · rw [if_pos space, List.dropWhile_cons_of_neg (by simpa using space)]
          rfl
  induction token with
  | nil => rfl
  | cons byte later step =>
      rw [tokenNext, strchr]
      by_cases space : byte = 32
      · rw [if_pos space, Option.bind_some, List.tail_cons, skipped, after,
          List.dropWhile_cons_of_neg (by simpa using space), List.dropWhile_cons_of_pos (by simpa using space)]
      · rw [if_neg space]
        refine step.trans ?_
        rw [after, after, List.dropWhile_cons_of_pos (by simpa using space)]

/-- The first word by its first byte, as the loops see it. -/
theorem word_eq (str : List UInt8) :
    word str = if endsToken (str.headD 0) then [] else str.headD 0 :: word str.tail := by
  cases str with
  | nil => rfl
  | cons byte later =>
      rw [List.headD_cons, List.tail_cons, word, List.takeWhile_cons]
      cases endsToken byte <;> rfl

/-- `token_copy` copies the first word, up to 31 bytes of it. -/
theorem tokenCopy_eq (src : List UInt8) : tokenCopy src = (word src).take (maxName - 1) := by
  have copied : ∀ count str, copyFrom count str = (word str).take count := by
    intro count
    induction count with
    | zero => exact fun _ => rfl
    | succ count step =>
        intro str
        rw [copyFrom, word_eq str]
        split_ifs with ends
        · rfl
        · rw [step, List.take_succ_cons]
  exact copied (maxName - 1) src

/-- `token_equal` compares the first words, if they have less bytes than a path. -/
theorem tokenEqual_iff (a b : List UInt8) : tokenEqual a b ↔ word a = word b ∧ (word a).length < maxPath := by
  have compared : ∀ count a b, equalFrom count a b ↔ word a = word b ∧ (word a).length < count := by
    intro count
    induction count with
    | zero =>
        intro a b
        exact iff_of_false Bool.false_ne_true fun both => Nat.not_lt_zero _ both.2
    | succ count step =>
        intro a b
        rw [equalFrom, word_eq a, word_eq b]
        by_cases aEnds : endsToken (a.headD 0)
        · rw [if_pos aEnds, if_pos aEnds]
          cases endsToken (b.headD 0) <;> simp
        · rw [if_neg aEnds, if_neg aEnds]
          by_cases same : a.headD 0 = b.headD 0
          · rw [if_neg (not_not_intro same), if_neg (same ▸ aEnds), step, same, List.cons.injEq, List.length_cons,
              Nat.add_lt_add_iff_right, and_iff_right rfl]
          · rw [if_pos same]
            refine iff_of_false Bool.false_ne_true ?_
            rintro ⟨words, _⟩
            split_ifs at words
            exact same (List.cons.inj words).1
  exact compared maxPath a b

/-! ## What a line asks for -/

/-- What a line asks for. -/
inductive Request
  | directory (path : Option (List UInt8))
  | listing (path : List UInt8)
  | clear
  | help (topic : Option (List UInt8))
  | binary (name : List UInt8) (silent : Bool)

/-- A name as it is copied. -/
def shortName (str : List UInt8) : List UInt8 := (word str).take (maxName - 1)

/-- What a line asks for, by its first word and what comes after it. -/
def request (line : List UInt8) : Request :=
  if text "./" <+: line then .binary (shortName (line.drop 2)) true
  else if word line = text "cd" then .directory (argument (after line))
  else if word line = text "ls" then .listing ((argument (after line)).elim (text ".") shortName)
  else if word line = text "clear" then .clear
  else if word line = text "help" then .help ((argument (after line)).map word)
  else .binary (shortName line) false

/-- The first lookup directory with a binary. -/
def found (answers : Answers) (name : List UInt8) : Option (List UInt8) :=
  lookupDirs.find? fun dir => (answers.loaddir dir).any fun entries => name ∈ entries.map DirEntry.name

/-- How a request is answered. -/
def perform (answers : Answers) : Request → List Effect
  | .directory none => [.chdir (text "home:/usr")]
  | .directory (some path) =>
      .chdir path :: if answers.chdirFails path then terminalError answers none else []
  | .listing path =>
      (answers.loaddir path).elim (terminalError answers none) fun entries => entries.flatMap printEntry ++ [put 10]
  | .clear => [.draw .clear]
  | .help none => commandHelp answers none
  | .help (some topic) =>
      match commands.find? (·.name = topic) with
      | none => terminalError answers (text "command not found")
      | some command =>
          [print (text "NAME\n  "), print command.name, print (text "\nSYNOPSIS\n  "), print command.synopsis,
            print (text "\nDESCRIPTION\n  "), print command.description]
  | .binary name silent =>
      match found answers name with
      | some dir =>
          let path := dir ++ text "/" ++ name
          .spawn path :: if answers.spawnFails path then terminalError answers none else []
      | none => if silent then [] else terminalError answers (text "command not found")

/-- A command is found by its name. -/
theorem tokenEqual_name (token : List UInt8) {command : Command} (among : command ∈ commands) :
    tokenEqual token command.name ↔ word token = command.name := by
  have plain : word command.name = command.name ∧ command.name.length < maxPath := by
    revert command
    decide
  rw [tokenEqual_iff, plain.1]
  constructor
  · exact And.left
  · intro same
    exact ⟨same, same ▸ plain.2⟩

/-- A lookup of a binary in a directory. -/
theorem found_eq (answers : Answers) (binary : List UInt8) :
    lookupDirs.find? (commandLookForBinary answers binary) = found answers binary := by
  have same : commandLookForBinary answers binary =
      fun dir => (answers.loaddir dir).any fun entries => binary ∈ entries.map DirEntry.name := by
    funext dir
    rw [commandLookForBinary]
    cases answers.loaddir dir with
    | none => rfl
    | some entries => simp [List.any_eq, eq_comm]
  rw [found, same]

/-- The table is searched by the first word. -/
theorem find_command (token : List UInt8) :
    commands.find? (fun command => tokenEqual token command.name) = commands.find? (word token = ·.name) := by
  refine List.find?_congr fun command among => ?_
  have same := tokenEqual_name token among
  cases equal : tokenEqual token command.name with
  | true => rw [same.mp equal, decide_eq_true rfl]
  | false => exact (decide_eq_false fun named => by rw [same.mpr named] at equal; cases equal).symm

/-- A binary that is looked for in vain. -/
theorem commandSpawn_eq (answers : Answers) (dir command : List UInt8) :
    commandSpawn answers dir command = perform answers (.binary (shortName command) true) := by
  rw [commandSpawn, tokenCopy_eq, found_eq, perform, shortName]
  cases found answers ((word command).take (maxName - 1)) <;> rfl

/-- Help is given about the first word of the argument. -/
theorem commandHelp_eq (answers : Answers) (token : Option (List UInt8)) :
    commandHelp answers token = perform answers (.help (token.map word)) := by
  cases token with
  | none => rfl
  | some topic =>
      rw [commandHelp, Option.map_some, perform, find_command]
      simp only [eq_comm]

/-- A line that begins with a dot and a slash. -/
theorem dotSlash_iff (line : List UInt8) :
    text "./" <+: line ↔ line.headD 0 = 46 ∧ line.tail.headD 0 = 47 := by
  have bytes : text "./" = [46, 47] := by decide
  rw [bytes]
  rcases line with _ | ⟨first, _ | ⟨second, later⟩⟩
  · simp
  · simp
  · simp [eq_comm]

/-- The function of the command with a name. -/
theorem find_callback (name : List UInt8) :
    (commands.find? (name = ·.name)).map Command.callback =
      if name = text "cd" then some .commandCd
      else if name = text "ls" then some .commandLs
      else if name = text "clear" then some .commandClear
      else if name = text "help" then some .commandHelp else none := by
  simp only [commands, List.find?_cons, List.find?_nil]
  by_cases cd : name = text "cd"
  · rw [decide_eq_true cd, if_pos cd]
    rfl
  rw [decide_eq_false cd, if_neg cd]
  by_cases ls : name = text "ls"
  · rw [decide_eq_true ls, if_pos ls]
    rfl
  rw [decide_eq_false ls, if_neg ls]
  by_cases clear : name = text "clear"
  · rw [decide_eq_true clear, if_pos clear]
    rfl
  rw [decide_eq_false clear, if_neg clear]
  by_cases help : name = text "help"
  · rw [decide_eq_true help, if_pos help]
    rfl
  · rw [decide_eq_false help, if_neg help]
    rfl

/-- `command_ls` lists the directory that is named, or the working directory. -/
theorem commandLs_eq (answers : Answers) (token : Option (List UInt8)) :
    commandLs answers token = perform answers (.listing (token.elim (text ".") shortName)) := by
  have path : token.elim (text ".") tokenCopy = token.elim (text ".") shortName := by
    rw [funext tokenCopy_eq]
    rfl
  rw [commandLs, path, perform]
  cases answers.loaddir (token.elim (text ".") shortName) <;> rfl

/-- `command_parse` does what the line asks for. -/
theorem commandParse_eq (answers : Answers) (line : List UInt8) :
    commandParse answers line = perform answers (request line) := by
  rw [commandParse, request, find_command]
  by_cases dots : text "./" <+: line
  · rw [if_pos ((dotSlash_iff line).mp dots), if_pos dots, commandSpawn_eq]
  rw [if_neg (mt (dotSlash_iff line).mpr dots), if_neg dots]
  have callback := find_callback (word line)
  cases entry : commands.find? (word line = ·.name) with
  | some command =>
      rw [entry, Option.map_some] at callback
      show command.callback.call answers (tokenNext line) = _
      rw [tokenNext_eq]
      split_ifs at callback ⊢ with cd ls clear help
      all_goals rw [Option.some.inj callback]
      · show commandCd answers (argument (after line)) = _
        cases argument (after line) <;> rfl
      · exact commandLs_eq answers _
      · rfl
      · exact commandHelp_eq answers _
  | none =>
      rw [entry, Option.map_none] at callback
      split_ifs at callback ⊢ with cd ls clear help
      show (match lookupDirs.find? (commandLookForBinary answers (tokenCopy line)) with
        | some dir => commandSpawn answers dir line
        | none => terminalError answers (text "command not found")) = _
      rw [tokenCopy_eq, found_eq]
      cases binary : found answers (shortName line) with
      | none =>
          rw [shortName] at binary
          rw [binary, perform, shortName, binary]
          rfl
      | some dir =>
          have started := commandSpawn_eq answers dir line
          rw [perform, binary] at started
          rw [shortName] at binary
          rw [binary, perform, shortName, binary]
          exact started

end Asym.CommandLines
