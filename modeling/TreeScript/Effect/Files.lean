import TreeScript.Command
import TreeScript.Effect.Context
import TreeScript.Files.Wildcard
import TreeScript.Pattern.Search
import TreeScript.Value.Convert

/-!
# Effects on files

Reading and writing files, searching them line by line, taking some of their lines, listing a
directory, and what a command is asked and leaves. Paths that are not absolute start at the
directory of the session.
-/

namespace TreeScript.Effect

/-- Reports a value that is no path by its kind. -/
def notAPath {α : Type} (v : Value) : Result α :=
  let kind := v.qualifiedKindName
  throw (.type (.misfit s!"expected str, bytes or os.PathLike object, not {kind}"))

/-- The directory at which relative paths start (`_base_dir`). -/
def baseOf (baseDir : Value) (files : FileSystem) : Result String :=
  if baseDir.truth then
    match baseDir with
    | .str s => pure s
    | .bytes _ => throw (.type (.misfit "Can't mix strings and bytes in path components"))
    | other => notAPath other
  else pure files.cwd

/-- The path that an argument means (`_resolve_path`). -/
def resolvePath (baseDir : Value) (files : FileSystem) (path : Value) : Result String :=
  match path with
  | .str s =>
    if s == "" then throw (.value "expected a file path, got ''")
    else if s.startsWith "~" then pure (Path.expandHome files.home s)
    else if Path.isAbsolute s then pure (Path.normalize s)
    else do
      let base ← baseOf baseDir files
      pure (Path.normalize (Path.join base s))
  | other => do
    let shown ← other.literalText
    throw (.value s!"expected a file path, got {shown}")

/-- A value, or another one if it counts as false. -/
def orElse (v other : Value) : Value := if v.truth then v else other

/-- The text of a file (`read_file`). -/
def readFile (baseDir : Value) (files : FileSystem) (args : Bindings) : Result Value := do
  let path ← resolvePath baseDir files (args.getD "path" .null)
  .str <$> files.readText path

/-- Where to write, and what (`write_file`). -/
def writing (baseDir : Value) (files : FileSystem) (args : Bindings) :
    Result (String × String) := do
  let path ← resolvePath baseDir files (args.getD "path" .null)
  let content ← match args.getD "content" .null with
    | .null => pure ""
    | v => v.text
  pure (path, content)

/-! ## Search -/

/-- The most lines that a search gives, unless another number is given. -/
def defaultMaxMatches : Int := 100

/-- The test that a pattern makes on lines. -/
def lineTest (named? : String → Option Char) (pattern : Value) :
    Result (String → Result Bool) := do
  pattern.checkKey
  match pattern with
  | .str s =>
    let pattern ← Pattern.read named? ['i'] s
    pure pattern.search
  | .bytes octets =>
    let _ ← Pattern.readAs named? false ['i'] (String.ofList (charsOfBytes octets))
    pure fun _ => throw (.type (.misfit "cannot use a bytes pattern on a string-like object"))
  | _ => throw (.type (.misfit "first argument must be string or compiled pattern"))

/-- The lines, with their numbers, for which a test does not give `invert`, as many as the limit
allows. `found` is what has been found before. -/
def selectLines (test : String → Result Bool) (invert : Bool) (limit : Int) :
    Nat → List String → List (Nat × String) → Result (List (Nat × String))
  | _, [], found => pure found
  | number, line :: rest, found =>
    if limit ≤ found.length then pure found
    else do
      let hit ← test line
      selectLines test invert limit (number + 1) rest
        (if hit != invert then found ++ [(number, line)] else found)

/-- A line that was found, as a value. -/
def matchValue (entry : Nat × String) : Value :=
  .ofFields [("line", .int entry.1), ("text", .str entry.2)]

/-- Searches a file line by line (`file_grep`). -/
def grep (named? : String → Option Char) (baseDir : Value) (files : FileSystem) (args : Bindings) :
    Result Value := do
  let path ← resolvePath baseDir files (args.getD "path" .null)
  let pattern := orElse (args.getD "pattern" .null) (.str "")
  let invert := (args.getD "invert" .null).truth
  let limit ← (orElse (args.getD "max_matches" .null) (.int defaultMaxMatches)).toInt
  let content ← files.readText path
  let test ← lineTest named? pattern
  let found ← selectLines test invert limit 1 (Text.lines content) []
  pure (.ofFields [
    ("path", args.getD "path" .null),
    ("pattern", pattern),
    ("match_count", .int found.length),
    ("truncated", .bool (limit ≤ found.length)),
    ("matches", .list (found.map matchValue))])

/-! ## Facts and lines -/

/-- Facts about what is at a path (`file_stat`). -/
def stat (baseDir : Value) (files : FileSystem) (args : Bindings) : Result Value := do
  let path ← resolvePath baseDir files (args.getD "path" .null)
  let facts (size lines : Nat) (isFile : Bool) (modified : Nat) : Value :=
    .ofFields [
      ("path", args.getD "path" .null),
      ("size", .int size),
      ("lines", .int lines),
      ("isFile", .bool isFile),
      ("isDirectory", .bool !isFile),
      ("modified", .str ((DateTime.ofMillis modified).text "T"))]
  match ← files.resolve path with
  | .folder _ => pure (facts 0 0 false FileSystem.unrecorded)
  | .file content modified => do
    let text ← FileSystem.decodeText content
    pure (facts content.length (Text.lines text).length true modified)

/-- The place in a list that a bound means; a negative one counts from the end. -/
def boundIn (length : Nat) (bound : Int) : Nat :=
  if bound < 0 then (length + bound).toNat else min bound.toNat length

/-- The elements of a list from one bound up to another one. -/
def sliceOf {α : Type} (items : List α) (start : Int) (stop : Option Int) : List α :=
  let first := boundIn items.length start
  let last := match stop with
    | some bound => boundIn items.length bound
    | none => items.length
  (items.take last).drop first

/-- The lines of a file from one number up to another one (`file_slice`). -/
def slice (baseDir : Value) (files : FileSystem) (args : Bindings) : Result Value := do
  let path ← resolvePath baseDir files (args.getD "path" .null)
  let start ← (orElse (args.getD "start" .null) (.int 1)).toInt
  let last := args.getD "end" .null
  let stop ← if last.truth then some <$> last.toInt else pure none
  let content ← files.readText path
  let lines := Text.lines content
  let shownStop : Int := match stop with
    | some bound => if bound == 0 then lines.length else bound
    | none => lines.length
  pure (.ofFields [
    ("path", args.getD "path" .null),
    ("start", .int start),
    ("end", .int shownStop),
    ("total_lines", .int lines.length),
    ("content", .str (Text.unlines (sliceOf lines (start - 1) stop)))])

/-! ## Listings -/

/-- The most files that a listing gives. -/
def listingLimit : Nat := 100

/-- The files under a directory whose names a wildcard pattern selects (`glob_files`). -/
def glob (baseDir : Value) (files : FileSystem) (args : Bindings) : Result Value := do
  let pattern := orElse (args.getD "pattern" .null) (.str "*")
  let base := orElse (args.getD "path" .null) (.str ".")
  let root ← resolvePath baseDir files base
  let pieces ← Wildcard.ofValue pattern
  let shown := match base with
    | .str s =>
      let bare := Text.dropTrailing '/' s
      if bare == "" then "/" else bare
    | _ => "/"
  match ← files.resolve root with
  | .file .. => FileSystem.refuse .notDirectory root
  | t => pure (.list ((t.listing (Wildcard.selects pieces) listingLimit shown).map Value.str))

/-! ## Commands -/

/-- The directory in which a command runs. -/
def commandDirectory (baseDir : Value) (files : FileSystem) : Result String :=
  match baseDir with
  | .null => pure files.cwd
  | .str s => pure s
  | .bytes octets => pure (Text.decodeLossy octets)
  | other => notAPath other

/-- The command that arguments ask for (`shell`): the directory in which it runs, its name and its
arguments.
-/
def commandOf (baseDir : Value) (files : FileSystem) (args : Bindings) :
    Result (String × String × List String) := do
  match args.getD "cmd" .null with
  | .str cmd =>
    if cmd == "" then throw (.value "shell requires a 'cmd'")
    let arguments ← (orElse (args.getD "args" .null) (.list [])).elements
    let argv ← arguments.mapM Value.text
    if (cmd :: argv).any fun s => s.toList.contains '\x00' then throw (.value "embedded null byte")
    let directory ← commandDirectory baseDir files
    match ← files.resolve directory with
    | .file .. => FileSystem.refuse .notDirectory directory
    | .folder _ => pure (Path.normalize (Path.join files.cwd directory), cmd, argv)
  | _ => throw (.value "shell requires a 'cmd'")

/-- What a command leaves, as a value. -/
def outcomeValue (outcome : Command.Outcome) : Value :=
  .ofFields [
    ("code", .int outcome.status),
    ("stdout", .str (Text.decodeLossy outcome.out)),
    ("stderr", .str (Text.decodeLossy outcome.messages))]

end TreeScript.Effect
