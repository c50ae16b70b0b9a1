import TreeScript.Command
import TreeScript.Number.Decimal
import TreeScript.Text.Hex

/-!
# Small commands

A runner of commands that needs no machine: a few small tools for text and files, and a command
interpreter that runs them from a script. They read files and change none.
-/

namespace TreeScript.Command

/-- A success with an output. -/
def Outcome.success (out : List UInt8) : Outcome := ⟨0, out, []⟩

/-- A failure with a message. -/
def Outcome.failure (status : Int) (message : String) : Outcome :=
  ⟨status, [], Text.encodeUtf8 message⟩

/-- Where a command runs. -/
structure Setting where
  /-- The files, with the directory of the command as their working directory. -/
  files : FileSystem
  /-- The text that names the directory of the command. -/
  directory : String

/-! ## Escapes -/

/-- The character that a letter after a backslash stands for. -/
def escapeLetter? : Char → Option Char
  | 'a' => some '\x07'
  | 'b' => some '\x08'
  | 'e' => some '\x1b'
  | 'f' => some '\x0c'
  | 'n' => some '\n'
  | 'r' => some '\r'
  | 't' => some '\t'
  | 'v' => some '\x0b'
  | '\\' => some '\\'
  | _ => none

/-- Up to a number of digits at the start of a text, by their value. -/
def digitsAtStart (base most : Nat) (s : List Char) : List Nat :=
  let digits := (s.take most).takeWhile fun c => (digitInBase? base c).isSome
  digits.filterMap fun c => digitInBase? base c

/-- The byte that digits spell. -/
def byteOfDigits (base : Nat) (ds : List Nat) : UInt8 :=
  (ds.foldl (fun acc d => acc * base + d) 0).toUInt8

/-- The bytes of a text. -/
def bytesOf (s : List Char) : List UInt8 := Text.encodeUtf8 (String.ofList s)

/-- An escape after its backslash: what it stands for, and how many characters it takes. With
`leadingZero` the octal digits follow a zero that does not count. -/
def escape (leadingZero : Bool) (s : List Char) : List UInt8 × Nat :=
  match s with
  | [] => (bytesOf ['\\'], 0)
  | 'x' :: rest =>
    let ds := digitsAtStart 16 2 rest
    if ds.isEmpty then (bytesOf ['\\', 'x'], 1) else ([byteOfDigits 16 ds], 1 + ds.length)
  | c :: rest =>
    match escapeLetter? c with
    | some d => (bytesOf [d], 1)
    | none =>
      if leadingZero && c == '0' then
        let ds := digitsAtStart 8 3 rest
        ([byteOfDigits 8 ds], 1 + ds.length)
      else
        let ds := digitsAtStart 8 3 s
        if !leadingZero && !ds.isEmpty then ([byteOfDigits 8 ds], ds.length)
        else if c == '"' && !leadingZero then (bytesOf ['"'], 1)
        else (bytesOf ['\\', c], 1)

/-- A text with its escapes replaced, and whether one of them asks for the end of all output; with
fuel for the characters. -/
def unescape (leadingZero : Bool) : Nat → List Char → List UInt8 × Bool
  | 0, _ => ([], false)
  | _, [] => ([], false)
  | fuel + 1, '\\' :: rest =>
    if rest.head? == some 'c' then ([], true)
    else
      let (bytes, width) := escape leadingZero rest
      let (others, ended) := unescape leadingZero fuel (rest.drop width)
      (bytes ++ others, ended)
  | fuel + 1, c :: rest =>
    let (others, ended) := unescape leadingZero fuel rest
    (bytesOf [c] ++ others, ended)

/-! ## Tools -/

/-- Whether a text is an option of `echo`. -/
def isEchoOption (letters : List Char) (s : String) : Bool :=
  match s.toList with
  | '-' :: c :: rest => (c :: rest).all fun d => letters.contains d
  | _ => false

/-- Writes the arguments with blanks between them. Inside the interpreter, escapes are always
replaced. -/
def echo (inside : Bool) (args : List String) : Outcome :=
  let letters := if inside then ['n'] else ['n', 'e', 'E']
  let options := String.join (args.takeWhile (isEchoOption letters))
  let shown := " ".intercalate (args.dropWhile (isEchoOption letters))
  let lineEnd := if options.toList.contains 'n' then [] else bytesOf ['\n']
  let choices := options.toList.filter fun c => c == 'e' || c == 'E'
  let escaped := inside || choices.getLast? == some 'e'
  if escaped then
    let (bytes, ended) := unescape true (shown.length + 1) shown.toList
    .success (if ended then bytes else bytes ++ lineEnd)
  else .success (Text.encodeUtf8 shown ++ lineEnd)

/-- A conversion in a format. -/
structure Conversion where
  /-- The characters between the percent sign and the width. -/
  flags : List Char
  /-- The least width. -/
  width : Nat
  /-- The number after a point. -/
  precision : Option Nat
  /-- The letter. -/
  letter : Char

/-- The conversion after a percent sign, and what follows it. -/
def conversion? (s : List Char) : Option (Conversion × List Char) :=
  let isFlag (c : Char) : Bool := c == '-' || c == '0' || c == '+' || c == ' ' || c == '#'
  let flags := s.takeWhile isFlag
  let afterFlags := s.dropWhile isFlag
  let width := afterFlags.takeWhile Char.isDigit
  let afterWidth := afterFlags.dropWhile Char.isDigit
  let (precision, rest) := match afterWidth with
    | '.' :: more => (some (more.takeWhile Char.isDigit), more.dropWhile Char.isDigit)
    | _ => (none, afterWidth)
  let number (ds : List Char) : Nat := ds.foldl (fun acc c => acc * 10 + (c.toNat - 48)) 0
  match rest with
  | letter :: after => some (⟨flags, number width, precision.map number, letter⟩, after)
  | [] => none

/-- A text made as wide as a conversion asks. -/
def Conversion.pad (c : Conversion) (numeric : Bool) (s : List Char) : List Char :=
  let missing := c.width - s.length
  if c.flags.contains '-' then s ++ List.replicate missing ' '
  else if numeric && c.flags.contains '0' then
    match s with
    | '-' :: digits => '-' :: (List.replicate missing '0' ++ digits)
    | _ => List.replicate missing '0' ++ s
  else List.replicate missing ' ' ++ s

/-- What a conversion makes of an argument, and the complaint about it. -/
def Conversion.convert (c : Conversion) (arg : String) : List UInt8 × Option String :=
  match c.letter with
  | 's' =>
    let shown := match c.precision with
      | some n => arg.toList.take n
      | none => arg.toList
    (bytesOf (c.pad false shown), none)
  | 'b' => ((unescape true (arg.length + 1) arg.toList).1, none)
  | 'c' => (bytesOf (c.pad false (arg.toList.take 1)), none)
  | 'x' =>
    let n := (readInt? arg.toList).getD 0
    (bytesOf (c.pad true (Nat.toDigits 16 n.toNat)), none)
  | _ =>
    if arg == "" then (bytesOf (c.pad true ['0']), none)
    else
      match readInt? arg.toList with
      | some n => (bytesOf (c.pad true (intText n).toList), none)
      | none => (bytesOf (c.pad true ['0']), some s!"printf: ‘{arg}’: expected a numeric value\n")

/-- The state of formatted output. -/
structure Formatted where
  /-- The output. -/
  out : List UInt8
  /-- The complaints. -/
  complaints : String
  /-- The arguments that are left. -/
  args : List String
  /-- Whether an argument was asked for. -/
  asked : Bool
  /-- Whether the end of all output was asked for. -/
  ended : Bool

/-- Goes through a format once; with fuel for its characters. -/
def formatOnce : Nat → List Char → Formatted → Formatted
  | 0, _, state => state
  | _, [], state => state
  | fuel + 1, '%' :: '%' :: rest, state =>
    formatOnce fuel rest { state with out := state.out ++ bytesOf ['%'] }
  | fuel + 1, '%' :: rest, state =>
    match conversion? rest with
    | none => { state with out := state.out ++ bytesOf ['%'] }
    | some (c, after) =>
      let (bytes, complaint) := c.convert (state.args.headD "")
      formatOnce fuel after { state with
        out := state.out ++ bytes
        complaints := state.complaints ++ complaint.getD ""
        args := state.args.drop 1
        asked := true }
  | fuel + 1, '\\' :: rest, state =>
    if rest.head? == some 'c' then { state with ended := true }
    else
      let (bytes, width) := escape false rest
      formatOnce fuel (rest.drop width) { state with out := state.out ++ bytes }
  | fuel + 1, c :: rest, state =>
    formatOnce fuel rest { state with out := state.out ++ bytesOf [c] }

/-- Goes through a format as long as there are arguments for it; with fuel for the rounds. -/
def formatAll (format : List Char) : Nat → Formatted → Formatted
  | 0, state => state
  | fuel + 1, state =>
    let after := formatOnce (format.length + 1) format { state with asked := false }
    if after.ended || after.args.isEmpty || !after.asked then after else formatAll format fuel after

/-- Writes the arguments by a format, which is used again as long as arguments are left. -/
def printf (args : List String) : Outcome :=
  match args with
  | [] => .failure 1 "printf: missing operand\nTry 'printf --help' for more information.\n"
  | format :: rest =>
    let done := formatAll format.toList (rest.length + 1) ⟨[], "", rest, false, false⟩
    ⟨if done.complaints == "" then 0 else 1, done.out, Text.encodeUtf8 done.complaints⟩

/-- The wording of a refusal for a person. -/
def faultText : FileFault → String
  | .notFound => "No such file or directory"
  | .denied => "Permission denied"
  | .present => "File exists"
  | .notDirectory => "Not a directory"
  | .isDirectory => "Is a directory"
  | .nameTooLong => "File name too long"

/-- Writes files one after the other. -/
def cat (setting : Setting) (args : List String) : Outcome :=
  args.foldl (fun acc path =>
    match setting.files.readBytes path with
    | .ok bytes => { acc with out := acc.out ++ bytes }
    | .error failure =>
      let reason := match failure with
        | .file fault _ => faultText fault
        | other => other.message
      let message := Text.encodeUtf8 s!"cat: {path}: {reason}\n"
      { acc with status := 1, messages := acc.messages ++ message })
    (.success [])

/-- A tool. -/
inductive Tool where
  /-- Writes its arguments. -/
  | echo
  /-- Writes its arguments by a format. -/
  | printf
  /-- Writes files. -/
  | cat
  /-- Writes the name of the directory. -/
  | pwd
  /-- Succeeds. -/
  | succeed
  /-- Fails. -/
  | fail
  /-- Runs a script. -/
  | interpret
  deriving DecidableEq, Repr

/-- The tool with a name. -/
def Tool.ofName? : String → Option Tool
  | "echo" => some .echo
  | "printf" => some .printf
  | "cat" => some .cat
  | "pwd" => some .pwd
  | "true" => some .succeed
  | "false" => some .fail
  | "sh" => some .interpret
  | "dash" => some .interpret
  | "bash" => some .interpret
  | _ => none

/-- The tool that a name or a path leads to. -/
def Tool.find? (name : String) : Option Tool :=
  match Path.split name with
  | ("/bin", bare) => ofName? bare
  | ("/usr/bin", bare) => ofName? bare
  | _ => ofName? name

/-- Runs a tool other than the interpreter. -/
def Tool.run (setting : Setting) (inside : Bool) (tool : Tool) (args : List String) : Outcome :=
  match tool with
  | .echo => Command.echo inside args
  | .printf => Command.printf args
  | .cat => Command.cat setting args
  | .pwd => .success (Text.encodeUtf8 (setting.directory ++ "\n"))
  | .succeed => .success []
  | .fail => ⟨1, [], []⟩
  | .interpret => .success []

/-! ## Scripts -/

/-- A word of a script. -/
inductive Lexeme where
  /-- A word. -/
  | word (s : String)
  /-- The end of a command, whatever its status. -/
  | done
  /-- The end of a command; the next one is run if it succeeded. -/
  | onSuccess
  /-- The end of a command; the next one is run if it failed. -/
  | onFailure
  /-- The output goes to the messages. -/
  | outToMessages
  /-- The messages go to the output. -/
  | messagesToOut
  deriving DecidableEq, Repr

/-- The word that stands for the process of the interpreter itself. -/
def selfMark : String := "$$"

/-- A name after a dollar sign. -/
def parameterName (s : List Char) : List Char := s.takeWhile fun c => c.isAlphanum || c == '_'

/-- The value of a parameter of a script. -/
def parameter (setting : Setting) (args : List String) (name : String) : String :=
  if name == "HOME" then setting.files.home
  else if name == "PWD" then setting.directory
  else
    match name.toNat? with
    | some n => args.getD n ""
    | none => ""

/-- The lexemes of a script. `current` is the word that has been started; with fuel for the
characters. -/
def lexemes (setting : Setting) (args : List String) :
    Nat → Option Char → Option (List Char) → List Char → List Lexeme
  | 0, _, current, _ => flush current []
  | _, _, current, [] => flush current []
  | fuel + 1, some '\'', current, c :: rest =>
    if c == '\'' then lexemes setting args fuel none current rest
    else lexemes setting args fuel (some '\'') (some (current.getD [] ++ [c])) rest
  | fuel + 1, quote, current, '$' :: '$' :: rest =>
    lexemes setting args fuel quote (some (current.getD [] ++ selfMark.toList)) rest
  | fuel + 1, quote, current, '$' :: c :: rest =>
    let name := parameterName (c :: rest)
    if name.isEmpty then
      lexemes setting args fuel quote (some (current.getD [] ++ ['$'])) (c :: rest)
    else
      let value := parameter setting args (String.ofList name)
      let next := if value == "" then current else some (current.getD [] ++ value.toList)
      lexemes setting args fuel quote next ((c :: rest).drop name.length)
  | fuel + 1, some quote, current, '\\' :: c :: rest =>
    if c == '"' || c == '\\' || c == '$' then
      lexemes setting args fuel (some quote) (some (current.getD [] ++ [c])) rest
    else lexemes setting args fuel (some quote) (some (current.getD [] ++ ['\\', c])) rest
  | fuel + 1, some quote, current, c :: rest =>
    if c == quote then lexemes setting args fuel none current rest
    else lexemes setting args fuel (some quote) (some (current.getD [] ++ [c])) rest
  | fuel + 1, none, current, '\\' :: c :: rest =>
    lexemes setting args fuel none (some (current.getD [] ++ [c])) rest
  | fuel + 1, none, current, c :: rest =>
    if c == '\'' || c == '"' then lexemes setting args fuel (some c) (some (current.getD [])) rest
    else if c == ' ' || c == '\t' then flush current (lexemes setting args fuel none none rest)
    else if c == ';' || c == '\n' then
      flush current (.done :: lexemes setting args fuel none none rest)
    else if c == '&' && rest.head? == some '&' then
      flush current (.onSuccess :: lexemes setting args fuel none none (rest.drop 1))
    else if c == '|' && rest.head? == some '|' then
      flush current (.onFailure :: lexemes setting args fuel none none (rest.drop 1))
    else if c == '>' && rest.take 2 == ['&', '2'] then
      let before := if current == some ['1'] then none else current
      flush before (.outToMessages :: lexemes setting args fuel none none (rest.drop 2))
    else if c == '>' && rest.take 2 == ['&', '1'] then
      let before := if current == some ['2'] then none else current
      flush before (.messagesToOut :: lexemes setting args fuel none none (rest.drop 2))
    else lexemes setting args fuel none (some (current.getD [] ++ [c])) rest
where
  /-- The word that has been started, before the rest. -/
  flush : Option (List Char) → List Lexeme → List Lexeme
    | some word, rest => .word (String.ofList word) :: rest
    | none, rest => rest

/-- The state of a script. -/
structure Progress where
  /-- What it has left so far. -/
  outcome : Outcome
  /-- Whether it has ended. -/
  ended : Bool
  /-- Whether the next command is run. -/
  active : Bool

/-- The words of a command. -/
def wordsOf (ls : List Lexeme) : List String :=
  ls.filterMap fun l => match l with
    | .word s => some s
    | _ => none

/-- Runs a command of a script. -/
def step (setting : Setting) (name : String) (p : Progress) (ls : List Lexeme) : Progress :=
  match wordsOf ls with
  | [] => p
  | "exit" :: args =>
    let status := match args with
      | code :: _ => (readInt? code.toList).getD 2 % 256
      | [] => p.outcome.status
    { p with ended := true, outcome := { p.outcome with status := status } }
  | "kill" :: option :: target :: _ =>
    if target == selfMark then
      let signal := (readInt? (option.toList.drop 1)).getD 15
      { p with ended := true, outcome := { p.outcome with status := -signal } }
    else p
  | ":" :: _ => { p with outcome := { p.outcome with status := 0 } }
  | word :: args =>
    let made := match Tool.find? word with
      | some tool => tool.run setting true args
      | none => .failure 127 s!"{name}: 1: {word}: not found\n"
    let (out, messages) :=
      if ls.contains .outToMessages then ([], made.out ++ made.messages)
      else if ls.contains .messagesToOut then (made.out ++ made.messages, [])
      else (made.out, made.messages)
    let before := p.outcome
    { p with outcome := ⟨made.status, before.out ++ out, before.messages ++ messages⟩ }

/-- Runs the commands of a script. `current` holds the lexemes of the command that is being read. -/
def interpret (setting : Setting) (name : String) : List Lexeme → List Lexeme → Progress → Outcome
  | current, [], p => (if p.ended || !p.active then p else step setting name p current).outcome
  | current, l :: rest, p =>
    if l == .done || l == .onSuccess || l == .onFailure then
      let after := if p.active then step setting name p current else p
      if after.ended then after.outcome
      else
        let succeeded := after.outcome.status == 0
        let active := if l == .onSuccess then succeeded
          else if l == .onFailure then !succeeded else true
        interpret setting name [] rest { after with active := active }
    else interpret setting name (current ++ [l]) rest p

/-- Runs a script. -/
def script (setting : Setting) (name : String) (args : List String) : Outcome :=
  match args with
  | "-c" :: text :: others =>
    let params := if others.isEmpty then [name] else others
    interpret setting name [] (lexemes setting params (text.length + 1) none none text.toList)
      ⟨.success [], false, true⟩
  | [] => .success []
  | path :: others =>
    match setting.files.readText path with
    | .ok text =>
      let read := lexemes setting (path :: others) (text.length + 1) none none text.toList
      interpret setting name [] read ⟨.success [], false, true⟩
    | .error _ => .failure 2 s!"{name}: 0: cannot open {path}: No such file\n"

/-- Runs a command in a setting. A command that is not offered is refused. -/
def runIn (setting : Setting) (name : String) (args : List String) : Result Outcome :=
  match Tool.find? name with
  | some .interpret => pure (script setting name args)
  | some tool => pure (tool.run setting false args)
  | none =>
    if name.toList.contains '/' then
      match setting.files.resolve name with
      | .ok _ => FileSystem.refuse .denied name
      | .error failure => throw failure
    else FileSystem.refuse .notFound name

/-- The small commands as those of a host. -/
def tools : Runner := fun directory name args => do
  let files ← get
  FileSystem.Change.ofResult (runIn ⟨{ files with cwd := directory }, directory⟩ name args)

end TreeScript.Command
