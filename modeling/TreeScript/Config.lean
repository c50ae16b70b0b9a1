import TreeScript.Document
import TreeScript.Effect.Dispatch
import TreeScript.Text.Blank

/-!
# Configuration

The settings of a host: the model, its limits and credentials, the options of requests and the
directory of files. They are read from a file, over which variables of the environment take
precedence, and written to a file.
-/

namespace TreeScript

/-- The settings of a host (`SajConfig`). -/
structure Config where
  /-- The name of the model. -/
  model : Value
  /-- The most calls of the model. -/
  maxDepth : Int
  /-- The most tokens of an answer. -/
  maxTokens : Int
  /-- The key for the model service. -/
  key : Value
  /-- The address of the model service. -/
  address : Value
  /-- The token for the model service. -/
  token : Value
  /-- The options of requests. -/
  http : Bindings
  /-- The directory from which relative paths start. -/
  baseDir : Value

namespace Config

/-- The settings that a value gives (`from_dict`). Those that it does not give have defaults, and
what is no setting is passed over. -/
def ofValue (v : Value) : Result Config := do
  let fields ← v.toBindings
  let maxDepth ← (fields.getD "max_depth" (.int Model.defaultMaxDepth)).toInt
  let maxTokens ← (fields.getD "max_tokens" (.int Model.defaultMaxTokens)).toInt
  let http ← (fields.getD "http" (.map [])).toBindings
  pure {
    model := fields.getD "model" (.str Model.defaultName)
    maxDepth := maxDepth
    maxTokens := maxTokens
    key := fields.getD "api_key" .null
    address := fields.getD "api_url" (.str Model.defaultAddress)
    token := fields.getD "token" .null
    http := http
    baseDir := fields.getD "base_dir" .null }

/-- The settings as a map (`to_dict`). -/
def toValue (c : Config) : Value :=
  .ofFields [
    ("model", c.model),
    ("max_depth", .int c.maxDepth),
    ("max_tokens", .int c.maxTokens),
    ("api_key", c.key),
    ("api_url", c.address),
    ("token", c.token),
    ("http", .map c.http),
    ("base_dir", c.baseDir)]

/-- Whether there is anything by which the model service knows its client (`has_credentials`). -/
def hasCredentials (c : Config) : Bool := c.key.truth || c.token.truth

/-! ## Files -/

/-- The directory of the settings of a user. -/
def defaultFolder : String := "~/.saj"

/-- The names that a file of settings can have, by precedence. -/
def fileNames : List String := ["config.yaml", "config.yml", "config.json"]

/-- The file of the settings of a user, if there is one (`_default_path`). -/
def defaultPath? (files : FileSystem) : Option String :=
  let paths := fileNames.map fun name =>
    Path.tidy (Path.expandHome files.home (Path.join defaultFolder name))
  paths.find? files.isFile

/-- The path that a value gives. -/
def pathOf (files : FileSystem) (v : Value) : Result String :=
  match v with
  | .str s => pure (Path.tidy (Path.expandHome files.home s))
  | .bytes _ =>
    throw (.type (.misfit ("argument should be a str object or an os.PathLike object " ++
      "returning str, not <class 'bytes'>")))
  | other => Effect.notAPath other

/-- The variables that take precedence over the file, with the settings that they give. -/
def overridingNames : List (String × String) := [
  ("ANTHROPIC_API_KEY", "api_key"),
  ("SAJ_TOKEN", "token"),
  ("SAJ_API_URL", "api_url"),
  ("SAJ_MODEL", "model"),
  ("SAJ_MAX_DEPTH", "max_depth")]

/-- The settings in a file. A blank file has none. -/
def readFile (yaml : Yaml.Library) (files : FileSystem) (path : String) : Result Bindings := do
  let text ← files.readText path
  let format := if Path.suffix path == ".json" then Document.Format.json else Document.Format.yaml
  let loaded ← if (Text.trim text.toList).isEmpty then pure (Value.map [])
    else Document.readNamed yaml (.str format.name) text
  match loaded with
  | .map fields => pure fields
  | other => throw (.value s!"config file {path} must hold a mapping, got {other.kindName}")

/-- Settings over which variables take precedence, as far as they are given. -/
def override (env : Bindings) (fields : Bindings) : Bindings :=
  overridingNames.foldl (fun (acc : Bindings) variable_ =>
    let given := env.getD variable_.1 .null
    if given.truth then acc.put (.str variable_.2) given else acc) fields

/-- The variables of the environment that a value gives. -/
def environmentOf : Value → Result Bindings
  | .map entries => pure entries
  | .env bindings => pure bindings
  | other => throw (.noAttribute other.qualifiedKindName "get")

/-- The settings in a file, or in the file of the user if no path is given, with the variables of
the environment (`load_config`). -/
def load (yaml : Yaml.Library) (files : FileSystem) (path env : Value) : Result Config := do
  let file ← if path.truth then some <$> pathOf files path else pure (defaultPath? files)
  let fields ← match file with
    | some p => readFile yaml files p
    | none => pure []
  let env ← environmentOf env
  ofValue (.map (override env fields))

/-- Makes a folder and, as far as they are missing, the folders around it; with fuel for their
number. -/
def makeFolders : Nat → String → FileSystem.Change Unit
  | 0, path => FileSystem.ensureFolder path
  | fuel + 1, path => do
    try FileSystem.makeFolder path
    catch failure =>
      match failure with
      | .file .notFound _ =>
        if Path.parent path == path then throw failure
        else
          makeFolders fuel (Path.parent path)
          FileSystem.ensureFolder path
      | .file .. => if (← get).isFolder path then pure () else throw failure
      | _ => throw failure

/-- Writes settings to a file, or to the file of the user if no path is given, and gives its path
(`save_config`). -/
def save (yaml : Yaml.Library) (c : Config) (path : Value) : FileSystem.Change String := do
  let given := if path.truth then path else .str (Path.join defaultFolder "config.yaml")
  let file ← FileSystem.Change.ofResult (pathOf (← get) given)
  makeFolders (file.length + 1) (Path.parent file)
  let text ← FileSystem.Change.ofResult (yaml.dump c.toValue)
  FileSystem.writeText file text
  pure file

end Config

/-! ## The context of a configuration -/

/-- What is said about a context beside its configuration. -/
structure ContextOptions where
  /-- Who answers for the model. -/
  client : Option Model.Client
  /-- The name of the model. -/
  model : Value
  /-- The texts that are kept. -/
  store : Value
  /-- The most calls of the model. -/
  maxDepth : Value

/-- A context about which nothing is said beside its configuration. -/
def ContextOptions.none : ContextOptions := ⟨.none, .null, .null, .null⟩

/-- The context of a configuration, over which options take precedence (`create_effect_handler`). -/
def Context.create (config : Option Config) (options : ContextOptions) : Context :=
  let named := Effect.orElse options.model ((config.map Config.model).getD .null)
  { client := options.client
    model := Effect.orElse named (.str Model.defaultName)
    store := match options.store with
      | .map entries => entries
      | _ => []
    depth := 0
    maxDepth :=
      if options.maxDepth.isNull then .int ((config.map Config.maxDepth).getD Model.defaultMaxDepth)
      else options.maxDepth
    maxTokens := .int ((config.map Config.maxTokens).getD Model.defaultMaxTokens)
    http := .map ((config.map Config.http).getD [])
    baseDir := (config.map Config.baseDir).getD .null }

/-- The context of a configuration, in which the model service answers if there are credentials. -/
def Context.ofConfig (config : Config) : Result Context := do
  let client ← if config.hasCredentials then
      (fun s => some (Model.Client.service s)) <$>
        Model.Service.make config.key config.token config.address Model.defaultTimeout
    else pure none
  pure (Context.create (some config) { ContextOptions.none with client := client })

end TreeScript
