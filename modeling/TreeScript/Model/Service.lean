import TreeScript.Http.Request
import TreeScript.Text.Lines

/-!
# The model service

A client of a service that answers messages. It identifies itself by a token or, if it has none, by
a key.
-/

namespace TreeScript.Model

/-- What a model is asked. -/
structure Request where
  /-- The name of the model. -/
  model : Value
  /-- The most tokens of the answer. -/
  maxTokens : Value
  /-- The instructions. -/
  system : Value
  /-- The messages. -/
  messages : Value

/-- A request as a map. -/
def Request.toValue (r : Request) : Value :=
  .ofFields [
    ("model", r.model),
    ("max_tokens", r.maxTokens),
    ("system", r.system),
    ("messages", r.messages)]

/-- A client of the service (`MessagesClient`). -/
structure Service where
  /-- The key. -/
  key : Value
  /-- The token. -/
  token : Value
  /-- The address, without slashes at its end. -/
  address : String
  /-- The limit of time. -/
  timeout : Value

/-- The address of the service, unless another one is given. -/
def defaultAddress : String := "https://api.anthropic.com"

/-- The limit of time of a client, unless another one is given. -/
def defaultTimeout : Value := .float (Binary64.nearestInt 120)

/-- The version of the service that requests are made for. -/
def serviceVersion : String := "2023-06-01"

/-- The address that a value gives. -/
def addressOf (v : Value) : Result String :=
  if v.truth then
    match v with
    | .str s => pure (Text.dropTrailing '/' s)
    | .bytes _ => throw (.type (.misfit "a bytes-like object is required, not 'str'"))
    | other => throw (.noAttribute other.qualifiedKindName "rstrip")
  else pure defaultAddress

/-- A client with a key or a token. -/
def Service.make (key token address timeout : Value) : Result Service := do
  if !key.truth && !token.truth then throw (.value "MessagesClient needs an api_key or a token")
  let address ← addressOf address
  pure ⟨key, token, address, timeout⟩

/-- The headers of a request to the service (`_headers`). -/
def Service.headers (s : Service) : Result Bindings := do
  let kind : Value × Value := (.str Http.contentType, .str "application/json")
  if s.token.truth then
    let token ← s.token.text
    pure [kind, (.str "Authorization", .str ("Bearer " ++ token))]
  else
    let key ← s.key.text
    pure [kind, (.str "x-api-key", .str key), (.str "anthropic-version", .str serviceVersion)]

/-- The document of a request. Instructions that count as false are left out. -/
def Request.document (r : Request) : Value :=
  .ofFields ([("model", r.model), ("max_tokens", r.maxTokens), ("messages", r.messages)] ++
    if r.system.truth then [("system", r.system)] else [])

/-- What a response that is no success says about itself. -/
def complaint (response : Http.Response) : Result String :=
  let detail := match response.document with
    | some (.map fields) =>
      match Bindings.getD fields "error" .null with
      | .map error => Bindings.getD error "message" .null
      | other => other
    | _ => .null
  if detail.truth then detail.text else pure response.preview

/-- Asks the service (`create_message`). -/
def Service.ask (s : Service) (r : Request) : Http.Talk Value := do
  Http.Talk.note (.opened s.timeout none)
  let headers ← Http.Talk.ofResult s.headers
  let response ← Http.Talk.post (s.address ++ "/v1/messages") headers r.document
  if response.isSuccess then Http.Talk.ofResult response.json
  else
    let message ← Http.Talk.ofResult (complaint response)
    throw (.modelRequest response.status message)

end TreeScript.Model
