import TreeScript.Effect.Call
import TreeScript.Effect.Files
import TreeScript.Effect.Store
import TreeScript.Http.Request
import TreeScript.Session

/-!
# Dispatch of effects

A table gives names to what is done for an effect. Calling an effect looks its name up, records the
call and starts it; most effects are then finished, but a call of the model may wait until it is
resumed. Whatever is printed is recorded too, after the effect.

`Dispatcher.call` starts an effect and resumes it at once. `Dispatcher.callAll` starts several of
them, in order, before it resumes any.

A dispatcher records into one log, which it does not hold itself. It is the log of the session that
was made over it last, and no other session gets its records.
-/

namespace TreeScript

/-- The effects that every host offers. -/
inductive Effect.Builtin where
  /-- The answer to a request over the network. -/
  | fetch
  /-- The text of a file. -/
  | readFile
  /-- A file with a text. -/
  | writeFile
  /-- A command with its status and outputs. -/
  | shell
  /-- A value that is put out. -/
  | print
  /-- The lines of a file that a pattern selects. -/
  | grep
  /-- Facts about a file. -/
  | stat
  /-- Some lines of a file. -/
  | slice
  /-- The files under a directory that a wildcard pattern selects. -/
  | glob
  /-- A text kept by name. -/
  | storeSet
  /-- The text kept under a name. -/
  | storeGet
  /-- The names of the texts that are kept. -/
  | storeList
  /-- A name under which no text is kept any more. -/
  | storeClear
  /-- A call of the model. -/
  | callModel
  deriving DecidableEq, Repr

/-- What is done for an effect (`EffectHandler`). -/
inductive Effect.Action (τ : Type) where
  /-- What every host does. -/
  | builtin (effect : Effect.Builtin)
  /-- What a host does of its own: it gets the arguments and the context, and can change the
  context, the world and what it keeps for itself. -/
  | custom (answer : Bindings → Act τ Value)

/-- The names of the effects that every host offers. -/
def Effect.builtins : List (String × Effect.Builtin) := [
  ("fetch", .fetch),
  ("read_file", .readFile),
  ("write_file", .writeFile),
  ("shell", .shell),
  ("print", .print),
  ("file_grep", .grep),
  ("file_stat", .stat),
  ("file_slice", .slice),
  ("glob", .glob),
  ("context_set", .storeSet),
  ("context_get", .storeGet),
  ("context_list", .storeList),
  ("context_clear", .storeClear),
  ("llm_call", .callModel)]

/-- A table of effects by name. -/
abbrev Effect.Table (τ : Type) := List (String × Effect.Action τ)

namespace Effect.Table

variable {τ : Type}

/-- The table of the effects that every host offers. -/
def builtin : Table τ := builtins.map fun e => (e.1, .builtin e.2)

/-- What is done for a name. -/
def find? (table : Table τ) (name : String) : Option (Action τ) :=
  (List.find? (fun e => e.1 == name) table).map Prod.snd

/-- A table in which something is done for a name (`register`). -/
def register (table : Table τ) (name : String) (action : Action τ) : Table τ :=
  if table.any fun e => e.1 == name then
    table.map fun e => if e.1 == name then (name, action) else e
  else table ++ [(name, action)]

/-- A table to which another one is added. -/
def extend (table : Table τ) (more : Table τ) : Table τ :=
  more.foldl (fun t e => t.register e.1 e.2) table

/-- The names of a table, in order (`names`). -/
def names (table : Table τ) : List String := (table.map Prod.fst).mergeSort

end Effect.Table

/-- Where an effect stands that has been started. -/
inductive Effect.Standing where
  /-- It is finished. -/
  | finished (outcome : Result Value)
  /-- It waits for the model. -/
  | waiting (pending : Model.Pending)

namespace Effect

variable {τ : Type}

/-- A reading of the files as an effect. -/
def reading (read : Value → FileSystem → Bindings → Result Value) (args : Bindings) :
    Act τ Value := do
  let host ← get
  Act.ofResult (read host.context.baseDir host.world.files args)

/-- Replaces the store. -/
def keepStore (outcome : Value × Bindings) : Act τ Value := do
  modify fun host => { host with context := { host.context with store := outcome.2 } }
  pure outcome.1

/-- The answer to a request over the network (`fetch_handler`). -/
def fetch (args : Bindings) : Act τ Value := do
  match args.getD "url" .null with
  | .str "" => throw (.value "fetch requires a 'url'")
  | .str url =>
    let host ← get
    let method := orElse (args.getD "method" .null) (.str "GET")
    let headers := orElse (args.getD "headers" .null) (.map [])
    Act.talk (Http.fetchText method (.str url) host.context.http headers (args.getD "body" .null))
  | _ => throw (.value "fetch requires a 'url'")

/-- Writes a file (`write_file`). -/
def writeFile (args : Bindings) : Act τ Value := do
  let host ← get
  let (path, content) ← Act.ofResult (writing host.context.baseDir host.world.files args)
  Act.change (FileSystem.writeWithFolders path content)
  pure (.str "ok")

/-- Runs a command and gives its status and outputs (`shell`). -/
def shell (args : Bindings) : Act τ Value := do
  let host ← get
  let (directory, name, argv) ←
    Act.ofResult (commandOf host.context.baseDir host.world.files args)
  let outcome ← Act.change (host.world.platform.run directory name argv)
  pure (outcomeValue outcome)

/-- Searches a file line by line, in which characters can be given by name (`file_grep`). -/
def search (args : Bindings) : Act τ Value := do
  let host ← get
  reading (grep host.world.platform.named?) args

/-- What is done for an effect other than a call of the model. -/
def Builtin.run (effect : Builtin) (args : Bindings) : Act τ Value := do
  match effect with
  | .fetch => Effect.fetch args
  | .readFile => reading Effect.readFile args
  | .writeFile => Effect.writeFile args
  | .shell => Effect.shell args
  | .print => pure (args.getD "value" .null)
  | .grep => Effect.search args
  | .stat => reading Effect.stat args
  | .slice => reading Effect.slice args
  | .glob => reading Effect.glob args
  | .storeSet =>
    let host ← get
    let outcome ← Act.ofResult (Store.set args host.context.store)
    keepStore outcome
  | .storeGet =>
    let host ← get
    Act.ofResult (Store.get args host.context.store)
  | .storeList =>
    let host ← get
    Act.ofResult (Store.list host.context.store)
  | .storeClear =>
    let host ← get
    let outcome ← Act.ofResult (Store.clear args host.context.store)
    keepStore outcome
  | .callModel => pure .null

/-- Finishes a call of the model. -/
def finishCall (pending : Model.Pending) (host : Host τ) : Result Value × Host τ :=
  let (outcome, context) := Model.finish pending.expect pending.delivered host.context
  (outcome, { host with context := context })

/-- Starts a call of the model. -/
def startCall (args : Bindings) (host : Host τ) : Standing × Host τ :=
  let (begun, context) := Model.begin args host.context
  match begun with
  | .refused => (.finished (.ok Model.depthExceeded), { host with context := context })
  | .failed failure => (.finished (.error failure), { host with context := context })
  | .asking client request =>
    let (delivered, atOnce, world) := Model.consult client request host.world
    let pending : Model.Pending := ⟨delivered, args.getD "expect" .null⟩
    if atOnce then
      let (outcome, after) := finishCall pending ⟨context, world, host.own⟩
      (.finished outcome, after)
    else (.waiting pending, ⟨context, world, host.own⟩)

/-- Starts what is done for an effect. -/
def Action.start (action : Action τ) (args : Bindings) (host : Host τ) : Standing × Host τ :=
  match action with
  | .custom answer =>
    let (outcome, after) := (answer args).run.run host
    (.finished outcome, after)
  | .builtin .callModel => startCall args host
  | .builtin effect =>
    let (outcome, after) := (effect.run args).run.run host
    (.finished outcome, after)

end Effect

/-- A log, by a number that no other log has. -/
abbrev LogRef := Nat

/-- A table of effects with the host that it acts on (`EffectDispatcher`). -/
structure Dispatcher (τ : Type) where
  /-- The table. -/
  table : Effect.Table τ
  /-- The host. -/
  host : Host τ
  /-- The log into which it records, if there is one. -/
  sink : Option LogRef

namespace Dispatcher

variable {τ : Type}

/-- The name of the effect whose answers are put out. -/
def printName : String := "print"

/-- What is done for a name, which can be any value. -/
def resolve (d : Dispatcher τ) (name : Value) : Result (String × Effect.Action τ) := do
  name.checkKey
  match name with
  | .str s =>
    match d.table.find? s with
    | some action => pure (s, action)
    | none => throw (.unknownEffect s)
  | other => other.text >>= fun s => throw (.unknownEffect s)

/-- An effect that has been started: its name and where it stands. -/
structure Started where
  /-- The name. -/
  name : String
  /-- Where it stands. -/
  standing : Effect.Standing

/-- Starts an effect. -/
def start (name : Value) (args : Bindings) (d : Dispatcher τ) :
    Started × List Record × Dispatcher τ :=
  match d.resolve name with
  | .error failure => (⟨"", .finished (.error failure)⟩, [], d)
  | .ok (name, action) =>
    let (standing, host) := action.start args d.host
    (⟨name, standing⟩, [.effect (.str name) args], { d with host := host })

/-- The record of what an effect has put out. -/
def outputRecords (name : String) (outcome : Result Value) : List Record :=
  match outcome with
  | .ok v => if name == printName then [.output v] else []
  | .error _ => []

/-- Goes on with an effect to its end. -/
def resume (started : Started) (d : Dispatcher τ) : Reply (Dispatcher τ) :=
  match started.standing with
  | .finished outcome => ⟨outcome, outputRecords started.name outcome, d⟩
  | .waiting pending =>
    let (outcome, host) := Effect.finishCall pending d.host
    ⟨outcome, outputRecords started.name outcome, { d with host := host }⟩

/-- Calls an effect (`__call__`), with what is recorded of it. -/
def call (name : Value) (args : Bindings) (d : Dispatcher τ) : Reply (Dispatcher τ) :=
  let (started, records, after) := d.start name args
  let reply := after.resume started
  { reply with records := records ++ reply.records }

/-- Those of some records that get into a log. -/
def recordedIn (log : LogRef) (records : List Record) (d : Dispatcher τ) : List Record :=
  if d.sink = some log then records else []

/-- The answers to effects of an evaluation that has a log. -/
def handler (log : LogRef) : Handler (Dispatcher τ) := fun name args d =>
  let reply := d.call (.str name) args
  { reply with records := d.recordedIn log reply.records }

/-- Starts effects in order. -/
def startAll :
    List (Value × Bindings) → Dispatcher τ → List Started × List Record × Dispatcher τ
  | [], d => ([], [], d)
  | (name, args) :: rest, d =>
    let (started, records, after) := d.start name args
    let (others, more, last) := startAll rest after
    (started :: others, records ++ more, last)

/-- Goes on with effects, in order, to their ends. -/
def resumeAll : List Started → Dispatcher τ → List (Result Value) × List Record × Dispatcher τ
  | [], d => ([], [], d)
  | started :: rest, d =>
    let reply := d.resume started
    let (outcomes, records, last) := resumeAll rest reply.host
    (reply.outcome :: outcomes, reply.records ++ records, last)

/-- Calls effects side by side: all of them are started before any of them goes on. -/
def callAll (calls : List (Value × Bindings)) (d : Dispatcher τ) :
    List (Result Value) × List Record × Dispatcher τ :=
  let (started, records, after) := startAll calls d
  let (outcomes, more, last) := resumeAll started after
  (outcomes, records ++ more, last)

end Dispatcher

/-- A session whose effects a dispatcher answers. The dispatcher records into the log of this
session from now on, wherever it recorded before. -/
def Session.withDispatcher {τ : Type} (yaml : Yaml.Library) (log : LogRef) (env : Environment)
    (scopes : Array Environment) (tracing : Bool) (d : Dispatcher τ) : Session (Dispatcher τ) :=
  start yaml (some (Dispatcher.handler log)) env scopes tracing { d with sink := some log }

end TreeScript
