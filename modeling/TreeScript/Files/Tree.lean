import TreeScript.Failure
import TreeScript.Files.Path
import TreeScript.Text.Lines
import TreeScript.Text.Quoted
import TreeScript.Text.Utf8

/-!
# File trees

A file tree is a file or a folder of named file trees. A path is followed name by name from a folder
on; on its way everything has to be a folder, and a step back leads to the folder around.

Reading a file decodes it and makes its line ends line feeds.
-/

namespace TreeScript

/-- A file or a folder. -/
inductive FileTree where
  /-- A file, with the time of its last change in milliseconds. -/
  | file (content : List UInt8) (modified : Nat)
  /-- A folder. -/
  | folder (entries : List (String × FileTree))
  deriving Inhabited

/-- The names that lead to a place from the root, without steps back. -/
abbrev Location := List String

namespace FileTree

/-- The entry of a folder with a name. -/
def child? (entries : List (String × FileTree)) (name : String) : Option FileTree :=
  (entries.find? fun e => e.1 == name).map Prod.snd

/-- What is at a location. -/
def at? : FileTree → Location → Option FileTree
  | t, [] => some t
  | .file .., _ :: _ => none
  | .folder entries, name :: rest =>
    match child? entries name with
    | some t => at? t rest
    | none => none

/-- Entries with one more or one replaced. -/
def putEntry (entries : List (String × FileTree)) (name : String) (t : FileTree) :
    List (String × FileTree) :=
  if entries.any fun e => e.1 == name then entries.map fun e => if e.1 == name then (name, t) else e
  else entries ++ [(name, t)]

/-- The tree with something at a location of which the folder exists. -/
def put : FileTree → Location → FileTree → FileTree
  | _, [], t => t
  | .file content modified, _ :: _, _ => .file content modified
  | .folder entries, name :: rest, t =>
    match child? entries name with
    | some inner => .folder (putEntry entries name (put inner rest t))
    | none => if rest.isEmpty then .folder (putEntry entries name t) else .folder entries

/-- Whether a location is a folder. -/
def isFolderAt (t : FileTree) (location : Location) : Bool :=
  match t.at? location with
  | some (.folder _) => true
  | _ => false

/-- The most bytes that a name can have. -/
def maxName : Nat := 255

/-- The location to which names lead from another one. All but the last of them have to lead to
folders, and with `complete` the last one has to exist too. -/
def follow (t : FileTree) (complete : Bool) : Location → List String → Except FileFault Location
  | location, [] => pure location
  | location, name :: rest =>
    if !t.isFolderAt location then
      throw (if (t.at? location).isSome then .notDirectory else .notFound)
    else if name == "" || name == "." then follow t complete location rest
    else if name == ".." then follow t complete location.dropLast rest
    else if name.utf8ByteSize > maxName then throw .nameTooLong
    else
      let next := location ++ [name]
      if (t.at? next).isSome then follow t complete next rest
      else if complete || !rest.isEmpty then throw .notFound
      else pure next

end FileTree

/-- A file system: a tree, and the place from which relative paths start. -/
structure FileSystem where
  /-- The tree under the root. -/
  tree : FileTree
  /-- The working directory. -/
  cwd : String
  /-- The home directory. -/
  home : String
  deriving Inhabited

namespace FileSystem

/-- The failure of an operation on a path. -/
def refuse {α : Type} (fault : FileFault) (path : String) : Result α :=
  throw (.file fault (Text.quoted path))

/-- The most bytes that a path can have. -/
def maxPath : Nat := 4095

/-- The location that a path leads to. -/
def locate (fs : FileSystem) (complete : Bool) (path : String) : Except FileFault Location :=
  if path == "" then throw .notFound
  else if path.utf8ByteSize > maxPath then throw .nameTooLong
  else if Path.isAbsolute path then fs.tree.follow complete [] (Path.names path)
  else do
    let start ← fs.tree.follow true [] (Path.names fs.cwd)
    fs.tree.follow complete start (Path.names path)

/-- Accepts a path that a file system can be asked for. -/
def checkPath (path : String) : Result Unit :=
  if path.toList.contains '\x00' then throw (.value "embedded null byte") else pure ()

/-- What a path leads to. -/
def find? (fs : FileSystem) (path : String) : Option FileTree :=
  if path.toList.contains '\x00' then none
  else
    match fs.locate true path with
    | .ok location => fs.tree.at? location
    | .error _ => none

/-- Whether a path leads to anything. -/
def isPresent (fs : FileSystem) (path : String) : Bool := (fs.find? path).isSome

/-- Whether a path leads to a file. -/
def isFile (fs : FileSystem) (path : String) : Bool :=
  match fs.find? path with
  | some (.file ..) => true
  | _ => false

/-- Whether a path leads to a folder. -/
def isFolder (fs : FileSystem) (path : String) : Bool :=
  match fs.find? path with
  | some (.folder _) => true
  | _ => false

/-- What a path has to lead to. -/
def resolve (fs : FileSystem) (path : String) : Result FileTree := do
  checkPath path
  match fs.locate true path with
  | .ok location =>
    match fs.tree.at? location with
    | some t => pure t
    | none => refuse .notFound path
  | .error fault => refuse fault path

/-- The bytes of a file. -/
def readBytes (fs : FileSystem) (path : String) : Result (List UInt8) := do
  match ← fs.resolve path with
  | .file content _ => pure content
  | .folder _ => refuse .isDirectory path

/-- The wording for bytes that are no text. -/
def undecodableMessage (fault : Text.Utf8Fault) : String :=
  if fault.width == 1 then
    let byte := Text.hexPadded 2 fault.byte.toNat
    s!"'utf-8' codec can't decode byte 0x{byte} in position {fault.position}: {fault.reason}"
  else
    let last := fault.position + fault.width - 1
    s!"'utf-8' codec can't decode bytes in position {fault.position}-{last}: {fault.reason}"

/-- The text of the bytes of a file. -/
def decodeText (bytes : List UInt8) : Result String :=
  match Text.decodeUtf8 bytes with
  | .ok s => pure (String.ofList (Text.plainBreaks s.toList))
  | .error fault => throw (.undecodable (undecodableMessage fault))

/-- The text of a file. -/
def readText (fs : FileSystem) (path : String) : Result String := do
  let bytes ← fs.readBytes path
  decodeText bytes

/-- The names in a folder. -/
def list (fs : FileSystem) (path : String) : Result (List String) := do
  match ← fs.resolve path with
  | .folder entries => pure (entries.map Prod.fst)
  | .file .. => refuse .notDirectory path

/-- The time of a change that nobody records. -/
def unrecorded : Nat := 0

/-! ## Changes

A change that fails halfway keeps what was done before. -/

/-- A change of a file system, which can fail. -/
abbrev Change (α : Type) := ExceptT Failure (StateM FileSystem) α

/-- A result as a change that changes nothing. -/
def Change.ofResult {α : Type} : Result α → Change α
  | .ok a => pure a
  | .error failure => throw failure

/-- Puts something at the location of a path. -/
def place (location : Location) (t : FileTree) : Change Unit :=
  modify fun fs => { fs with tree := fs.tree.put location t }

/-- Writes a file whose folder exists. -/
def writeBytes (path : String) (content : List UInt8) : Change Unit := do
  Change.ofResult (checkPath path)
  let fs ← get
  match fs.locate false path with
  | .ok location =>
    if fs.tree.isFolderAt location then Change.ofResult (refuse .isDirectory path)
    else place location (.file content unrecorded)
  | .error fault => Change.ofResult (refuse fault path)

/-- Writes a text to a file whose folder exists. -/
def writeText (path text : String) : Change Unit := writeBytes path (Text.encodeUtf8 text)

/-- Makes a folder in a folder that exists. -/
def makeFolder (path : String) : Change Unit := do
  Change.ofResult (checkPath path)
  let fs ← get
  match fs.locate false path with
  | .ok location =>
    if (fs.tree.at? location).isSome then Change.ofResult (refuse .present path)
    else place location (.folder [])
  | .error fault => Change.ofResult (refuse fault path)

/-- Makes a folder unless there is one already. -/
def ensureFolder (path : String) : Change Unit := do
  try makeFolder path
  catch failure =>
    match failure with
    | .file .. => if (← get).isFolder path then pure () else throw failure
    | _ => throw failure

/-- Makes a folder and the folders around it, as far as they are missing; with fuel for their
number. -/
def ensureFolders : Nat → String → Change Unit
  | 0, _ => pure ()
  | fuel + 1, path => do
    let (head, tail) := match Path.split path with
      | (head, "") => Path.split head
      | parts => parts
    if head != "" && tail != "" && !(← get).isPresent head then
      try ensureFolders fuel head
      catch failure =>
        match failure with
        | .file .present _ => pure ()
        | _ => throw failure
      if tail == "." then pure () else ensureFolder path
    else ensureFolder path

/-- Writes a text to a file, making the folders around it that are missing. -/
def writeWithFolders (path text : String) : Change Unit := do
  let folder := Path.folder path
  ensureFolders (path.length + 1) (if folder == "" then "." else folder)
  writeText path text

end FileSystem

end TreeScript
