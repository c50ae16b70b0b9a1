import TreeScript.Evaluation
import TreeScript.Files.Tree
import TreeScript.Model.Service
import TreeScript.Platform

/-!
# The host

What effects act on: the `Context` of a session, which programs change by what they ask for, the
`World` around it, with its files and its network, and what effects that a host has of its own keep
for themselves. An `Act` is a computation over all of these that can fail; a failure keeps what was
changed before it.
-/

namespace TreeScript

/-- Who answers for the model. -/
inductive Model.Client where
  /-- A service. -/
  | service (service : Model.Service)
  /-- Answers that are known beforehand. They are given at once, or only when the call is resumed.
  -/
  | rehearsed (atOnce : Bool)

/-- The name of the model, unless another one is given. -/
def Model.defaultName : String := "claude-sonnet-4-20250514"

/-- The most tokens of an answer, unless another number is given. -/
def Model.defaultMaxTokens : Int := 4096

/-- The most calls of the model, unless another number is given. -/
def Model.defaultMaxDepth : Int := 10

/-- What a session keeps for its effects (`EffectContext`). -/
structure Context where
  /-- Who answers for the model. -/
  client : Option Model.Client
  /-- The name of the model. -/
  model : Value
  /-- The texts that programs keep, by name. -/
  store : Bindings
  /-- The number of calls of the model that have been answered or are under way. -/
  depth : Int
  /-- The most calls of the model. -/
  maxDepth : Value
  /-- The most tokens of an answer. -/
  maxTokens : Value
  /-- The options of requests. -/
  http : Value
  /-- The directory from which relative paths start. -/
  baseDir : Value

/-- The context in which everything is as it is by default. -/
def Context.default : Context where
  client := none
  model := .str Model.defaultName
  store := []
  depth := 0
  maxDepth := .int Model.defaultMaxDepth
  maxTokens := .int Model.defaultMaxTokens
  http := .map []
  baseDir := .null

/-- What is around a session. -/
structure World where
  /-- The files. -/
  files : FileSystem
  /-- The network. -/
  network : Http.Network
  /-- The answers of the model that are known beforehand. -/
  replies : List (Result Value)
  /-- The requests that have been answered from them. -/
  requests : List Model.Request
  /-- What the host is built on. -/
  platform : Platform

/-- A world with files and without a network. -/
def World.ofFiles (platform : Platform) (files : FileSystem) : World :=
  { files := files, network := default, replies := [], requests := [], platform := platform }

/-- A session's context, the world around it, and what effects of the host's own keep. -/
structure Host (τ : Type) where
  /-- The context. -/
  context : Context
  /-- The world. -/
  world : World
  /-- What effects of the host's own keep. -/
  own : τ

/-- A computation over a host that can fail. -/
abbrev Act (τ : Type) := ExceptT Failure (StateM (Host τ))

namespace Act

variable {τ : Type}

/-- A result as a computation that leaves the host alone. -/
def ofResult {α : Type} : Result α → Act τ α
  | .ok a => pure a
  | .error failure => throw failure

/-- A computation over the network as one over the host. -/
def talk {α : Type} (t : Http.Talk α) : Act τ α := do
  let host ← get
  let (outcome, network) := t.run.run host.world.network
  set { host with world := { host.world with network := network } }
  ofResult outcome

/-- A change of the files as one of the host. -/
def change {α : Type} (c : FileSystem.Change α) : Act τ α := do
  let host ← get
  let (outcome, files) := c.run.run host.world.files
  set { host with world := { host.world with files := files } }
  ofResult outcome

end Act

end TreeScript
