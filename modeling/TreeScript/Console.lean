import TreeScript.Config
import TreeScript.Session

/-!
# The console

The console runs the program in a file, or programs that are entered line by line. It puts out what
a run printed and its value, and reports what went wrong on the channel of messages.

All of it is a function of the arguments, the entered lines, the variables of the environment and
the world. `Console.enter` does one line.
-/

namespace TreeScript.Console

/-- How the console ends. -/
inductive Exit where
  /-- With a status. -/
  | status (code : Nat)
  /-- With a failure that nothing reports. -/
  | failure (failure : Failure)
  /-- With the bound on the recursion reached. -/
  | outOfFuel
  deriving DecidableEq, Repr

/-- The exit for the reason why a run ended without a report. -/
def Exit.ofStop : Stop → Exit
  | .failure cause => .failure cause
  | .outOfFuel => .outOfFuel

/-- What the console has put out, and how it ended if it did. -/
structure Transcript where
  /-- The output. -/
  out : String
  /-- The messages. -/
  messages : String
  /-- How it ended. -/
  ended : Option Exit

/-- The transcript of a console that has put out nothing. -/
def Transcript.empty : Transcript := ⟨"", "", none⟩

/-- Adds a text to the output. -/
def Transcript.write (text : String) (t : Transcript) : Transcript :=
  { t with out := t.out ++ text }

/-- Adds a text to the messages. -/
def Transcript.tell (text : String) (t : Transcript) : Transcript :=
  { t with messages := t.messages ++ text }

/-- Ends. -/
def Transcript.finish (exit : Exit) (t : Transcript) : Transcript := { t with ended := some exit }

/-- A console between two lines. -/
structure State where
  /-- What has been put out. -/
  transcript : Transcript
  /-- The session. -/
  session : Session (Dispatcher Unit)

/-- The first line of a console. -/
def banner : String := "SAJ REPL v0.1"

/-- The second line of a console. -/
def instructions : String := "Enter one JSON program per line. Type 'exit' or press Ctrl+D to quit."

/-- What stands before a line that is entered. -/
def prompt : String := ">> "

/-- What is put out when the lines end. -/
def farewell : String := "\nExiting.\n"

/-- Puts out what a run has printed. -/
def showRecords : List Record → Transcript → Transcript
  | [], t => t
  | .output message :: rest, t =>
    match message.shown with
    | .ok text => showRecords rest (t.write (text ++ "\n"))
    | .error failure => t.finish (.failure failure)
  | _ :: rest, t => showRecords rest t

/-- Puts out what a run has printed and reported (`_print_outcome`). -/
def showOutcome (log : List Record) (report : Report) (t : Transcript) : Transcript :=
  let t := showRecords log t
  if t.ended.isSome then t
  else
    match report with
    | .error _ => t.tell (report.errorText ++ "\n")
    | .success _ =>
      if report.value.isNull then t
      else
        match report.value.shown with
        | .ok text => t.write (text ++ "\n")
        | .error failure => t.finish (.failure failure)

/-- The variable of the environment that asks for the steps of evaluation. -/
def traceVariable : String := "SAJ_DEBUG"

/-- A session with a context (`build_handler`). -/
def sessionOf (env : Bindings) (context : Context) (world : World) : Session (Dispatcher Unit) :=
  Session.withDispatcher world.platform.yaml 0 .empty #[] (env.getD traceVariable .null).truth
    ⟨Effect.Table.builtin, ⟨context, world, ()⟩, none⟩

/-- Runs a program in a session, and puts out what comes of it. -/
def runIn (fuel : Nat) (program : String) (state : State) : State × Option Report :=
  let (outcome, session) := state.session.handle fuel (.str program)
  let t := state.transcript.tell session.machine.trace
  let session := { session with machine := { session.machine with trace := "" } }
  match outcome with
  | .ok report => (⟨showOutcome session.machine.log report t, session⟩, some report)
  | .error stop => (⟨t.finish (.ofStop stop), session⟩, none)

/-- Enters a line; `none` is the end of the lines. -/
def enter (fuel : Nat) (line : Option String) (state : State) : State :=
  match line with
  | none => { state with transcript := (state.transcript.write farewell).finish (.status 0) }
  | some text =>
    let program := Text.trimmed text
    if program == "" then { state with transcript := state.transcript.write prompt }
    else if program == "exit" then { state with transcript := state.transcript.finish (.status 0) }
    else
      let (after, _) := runIn fuel program state
      if after.transcript.ended.isSome then after
      else { after with transcript := after.transcript.write prompt }

/-- Enters lines until the console ends. -/
def enterAll (fuel : Nat) : List String → State → State
  | [], state => enter fuel none state
  | line :: rest, state =>
    let after := enter fuel (some line) state
    if after.transcript.ended.isSome then after else enterAll fuel rest after

/-- The lines that are entered with a text; a last line that is empty is not entered. -/
def inputLines (text : String) : List String :=
  let lines := Text.lines text
  if lines.getLast? == some "" then lines.dropLast else lines

/-- What the console leaves. -/
structure Outcome where
  /-- What has been put out. -/
  transcript : Transcript
  /-- The world. -/
  world : World

/-- The opening of an interactive console: its first output, and its state unless the configuration
fails. -/
def opening (env : Bindings) (world : World) : Transcript × Option State :=
  let t := Transcript.empty.write (banner ++ "\n" ++ instructions ++ "\n")
  match (do
    let config ← Config.load world.platform.yaml world.files .null (.map env)
    Context.ofConfig config : Result Context) with
  | .error failure => (t.finish (.failure failure), none)
  | .ok context =>
    let t := t.write prompt
    (t, some ⟨t, sessionOf env context world⟩)

/-- Runs programs that are entered line by line (`main`). -/
def interact (fuel : Nat) (lines : List String) (env : Bindings) (world : World) : Outcome :=
  match opening env world with
  | (t, none) => ⟨t, world⟩
  | (_, some state) =>
    let last := enterAll fuel lines state
    ⟨last.transcript, last.session.machine.host.host.world⟩

/-- The context in which the program of a file runs: relative paths start at its folder, unless the
configuration says otherwise. -/
def fileContext (yaml : Yaml.Library) (path : String) (env : Bindings) (files : FileSystem) :
    Result Context := do
  let config ← Config.load yaml files .null (.map env)
  let folder := Path.normalize (Path.join files.cwd (Path.parent path))
  if config.baseDir.isNull then Context.ofConfig { config with baseDir := .str folder }
  else Context.ofConfig config

/-- Runs the program in a file (`run_program_file`). -/
def runFile (fuel : Nat) (path : String) (env : Bindings) (world : World) : Outcome :=
  let t := Transcript.empty
  match world.files.readText (Path.tidy path) with
  | .error (.file .notFound _) =>
    ⟨(t.tell s!"Error: file not found: {path}\n").finish (.status 1), world⟩
  | .error failure => ⟨t.finish (.failure failure), world⟩
  | .ok source =>
    match fileContext world.platform.yaml path env world.files with
    | .error failure => ⟨t.finish (.failure failure), world⟩
    | .ok context =>
      let (last, report) := runIn fuel source ⟨t, sessionOf env context world⟩
      let t := last.transcript
      let code := match report with
        | some (.error _) => 1
        | _ => 0
      ⟨if t.ended.isSome then t else t.finish (.status code), last.session.machine.host.host.world⟩

/-- The file of the program that arguments give. An option in front means that none is given. -/
def programPath? : List String → Option String
  | [] => none
  | path :: _ => if path.startsWith "-" then none else some path

/-- Runs the console: the program in a file, if one is given, or else what is entered. -/
def run (fuel : Nat) (arguments : List String) (input : String) (env : Bindings)
    (world : World) : Outcome :=
  match programPath? arguments with
  | some path => runFile fuel path env world
  | none => interact fuel (inputLines input) env world

end TreeScript.Console
