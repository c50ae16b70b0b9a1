import TreeScript.Effect.Context
import TreeScript.Model.Answer
import TreeScript.Model.Message

/-!
# Calls of the model

A call has two parts. `begin` checks how many calls there have been and reserves one; what it then
asks is given to the client. `finish` takes what the client delivers, which may come later, when
other calls have begun or finished: a failure gives the reserved call back, and an answer is made
what the caller expects.

Only `begin` and `finish` change the depth of a context, and `begin` does so only below the limit.
-/

namespace TreeScript.Model

/-- The instructions of a call that gives none. -/
def defaultSystem : String := "You are a helpful assistant. Respond concisely."

/-- The answer to a call beyond the limit. -/
def depthExceeded : Value := .ofFields [("error", .str "max depth exceeded")]

/-- The most calls that a call allows (`_effective_max_depth`): its own limit, or that of the
context. -/
def limitOf (args : Bindings) (context : Context) : Result Int :=
  match args.getD "max_depth" .null with
  | .null => if context.maxDepth.isNull then pure defaultMaxDepth else context.maxDepth.toInt
  | own => own.toInt

/-- What a call asks the model. -/
def requestOf (args : Bindings) (context : Context) : Result Request := do
  let asked := args.getD "prompt" .null
  let prompt ← if asked.truth then asked.text else pure ""
  let framed ← framePrompt (.str prompt) (args.getD "context_name" .null) context.store
  let system := args.getD "system" .null
  pure {
    model := context.model
    maxTokens := context.maxTokens
    system := if system.truth then system else .str defaultSystem
    messages := .list [.ofFields [("role", .str "user"), ("content", framed)]] }

/-- How a call begins. -/
inductive Begun where
  /-- It is beyond the limit. -/
  | refused
  /-- It fails. -/
  | failed (failure : Failure)
  /-- It asks the client. -/
  | asking (client : Client) (request : Request)

/-- Begins a call (`llm_call`): reserves one and says what is asked. -/
def begin (args : Bindings) (context : Context) : Begun × Context :=
  match limitOf args context with
  | .error failure => (.failed failure, context)
  | .ok limit =>
    if limit ≤ context.depth then (.refused, context)
    else
      match context.client with
      | none => (.failed .missingModelClient, context)
      | some client =>
        let reserved := { context with depth := context.depth + 1 }
        match requestOf args reserved with
        | .error failure => (.failed failure, reserved)
        | .ok request => (.asking client request, reserved)

/-- Finishes a call with what the client delivers. -/
def finish (expect : Value) (delivered : Result Value) (context : Context) :
    Result Value × Context :=
  match delivered with
  | .error failure => (.error failure, { context with depth := context.depth - 1 })
  | .ok reply =>
    (do
      let text ← firstText reply
      coerce (.ofValue expect) text, context)

/-- The failure of a client that has no more answers. -/
def noMoreReplies : Failure := .raised "RuntimeError" "no more replies"

/-- A call that waits for its answer. -/
structure Pending where
  /-- What the client will deliver. -/
  delivered : Result Value
  /-- What the caller expects. -/
  expect : Value

/-- Asks the client: what it delivers, and whether at once. -/
def consult (client : Client) (request : Request) (world : World) : Result Value × Bool × World :=
  match client with
  | .service service =>
    let (delivered, network) := (service.ask request).run.run world.network
    (delivered, true, { world with network := network })
  | .rehearsed atOnce =>
    let (delivered, replies) := match world.replies with
      | [] => (.error noMoreReplies, [])
      | reply :: rest => (reply, rest)
    (delivered, atOnce, { world with replies := replies, requests := world.requests ++ [request] })

end TreeScript.Model
