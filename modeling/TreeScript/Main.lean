import TreeScript.Console
import TreeScript.Platform.Bundled

/-!
# The program

Runs the console on real files. The files under the working directory, the settings of the user and
the program that is to be run are read beforehand; after each step, files that the console has
changed are written back. There is no network.
-/

namespace TreeScript.Outer

/-- The bound on the recursion of a run. -/
def fuel : Nat := 4000

/-- How many folders deep files are read. -/
def depth : Nat := 12

/-- Whether a path leads to a folder. -/
def isFolder (path : String) : IO Bool := do
  let here ← IO.currentDir
  (here / path).isDir

/-- The names in a folder. -/
def namesIn (path : String) : IO (List String) := do
  let here ← IO.currentDir
  let entries ← (here / path).readDir
  pure (entries.toList.map fun e => e.fileName)

/-- The file at a path, if it can be read. -/
def readFile? (path : String) : IO (Option FileTree) := do
  let here ← IO.currentDir
  try
    let content ← IO.FS.readBinFile (here / path)
    let facts ← (here / path).metadata
    let millis := facts.modified.sec.toNat * 1000 + facts.modified.nsec.toNat / 1000000
    pure (some (.file content.toList millis))
  catch _ => pure none

/-- What is at a path, as deep as the fuel allows. Folders with a dot at the start are left out. -/
def readTree : Nat → String → IO (Option FileTree)
  | 0, _ => pure none
  | fuel + 1, path => do
    if ← isFolder path then
      let names ← try namesIn path catch _ => pure []
      let entries ← names.filterMapM fun name => do
        if name.startsWith "." && (← isFolder (Path.join path name)) then pure none
        else
          let inner ← readTree fuel (Path.join path name)
          pure (inner.map fun t => (name, t))
      pure (some (.folder entries))
    else readFile? path

/-- Adds to files what is at a path. -/
def load (depth : Nat) (path : String) (files : FileSystem) : IO FileSystem := do
  let place := Path.normalize (Path.join files.cwd path)
  match ← readTree depth place with
  | none => pure files
  | some t =>
    let change : FileSystem.Change Unit := do
      FileSystem.ensureFolders (place.length + 1) (Path.folder place)
      match (← get).locate false place with
      | .ok location => FileSystem.place location t
      | .error _ => pure ()
    pure (change.run.run files).2

/-- The files of a tree with their contents. -/
def contents (path : String) : List (String × FileTree) → List (String × List UInt8)
  | [] => []
  | (name, .file content _) :: rest => (path ++ "/" ++ name, content) :: contents path rest
  | (name, .folder inner) :: rest => contents (path ++ "/" ++ name) inner ++ contents path rest

/-- The files of a file system with their contents. -/
def contentsOf (files : FileSystem) : List (String × List UInt8) :=
  match files.tree with
  | .folder entries => contents "" entries
  | .file .. => []

/-- Writes files that differ from what they were. -/
def store (before after : FileSystem) : IO Unit := do
  let here ← IO.currentDir
  let old := contentsOf before
  (contentsOf after).forM fun file =>
    if old.contains file then pure ()
    else do
      IO.FS.createDirAll (here / Path.folder file.1)
      IO.FS.writeBinFile (here / file.1) (ByteArray.mk file.2.toArray)

/-- Puts out a transcript, and gives the status if the console has ended. -/
def put (t : Console.Transcript) : IO (Option UInt32) := do
  let out ← IO.getStdout
  let err ← IO.getStderr
  out.putStr t.out
  out.flush
  err.putStr t.messages
  match t.ended with
  | none => pure none
  | some (.status code) => pure (some code.toUInt32)
  | some (.failure failure) => do
    err.putStr s!"{failure.kind}: {failure.message}\n"
    pure (some 1)
  | some .outOfFuel => do
    err.putStr "the program goes too deep\n"
    pure (some 1)

/-- The files of a console. -/
def filesOf (state : Console.State) : FileSystem := state.session.machine.host.host.world.files

/-- Enters lines until the console ends. -/
partial def loop (state : Console.State) : IO UInt32 := do
  let input ← IO.getStdin
  let line ← input.getLine
  let entered := if line.isEmpty then none else some line
  let after := Console.enter fuel entered { state with transcript := .empty }
  store (filesOf state) (filesOf after)
  match ← put after.transcript with
  | some status => pure status
  | none => loop after

/-- The variables of the environment that the console knows, as far as they are set. -/
def environment : IO Bindings := do
  let names := Console.traceVariable :: Config.overridingNames.map Prod.fst
  let found ← names.filterMapM fun name => do
    let value ← IO.getEnv name
    pure (value.map fun v => (Value.str name, Value.str v))
  pure found

/-- The world in which a console starts. -/
def world (arguments : List String) : IO World := do
  let here ← IO.currentDir
  let home ← IO.getEnv "HOME"
  let bare : FileSystem := ⟨.folder [], here.toString, home.getD "/"⟩
  let files ← load depth "." bare
  let files ← load 2 (Path.expandHome bare.home Config.defaultFolder) files
  let files ← match Console.programPath? arguments with
    | some path => load 1 path files
    | none => pure files
  pure (.ofFiles .bundled files)

/-- Runs the console. -/
def run (arguments : List String) : IO UInt32 := do
  let start ← world arguments
  let env ← environment
  match Console.programPath? arguments with
  | some path =>
    let outcome := Console.runFile fuel path env start
    store start.files outcome.world.files
    pure ((← put outcome.transcript).getD 0)
  | none => converse env start
where
  /-- Runs what is entered line by line. -/
  converse (env : Bindings) (start : World) : IO UInt32 := do
    let (t, state) := Console.opening env start
    match ← put t, state with
    | none, some state => loop state
    | status, _ => pure (status.getD 0)

end TreeScript.Outer

/-- Runs the console. -/
def main (arguments : List String) : IO UInt32 := TreeScript.Outer.run arguments
