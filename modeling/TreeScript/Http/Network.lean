import TreeScript.Value.Bindings

/-!
# The network

A network answers requests. It is given by the answers that it will give, in order, and keeps a log
of what went over the wire. Plain requests and posts of a document are answered from two lists of
their own, but share the log.
-/

namespace TreeScript.Http

/-- A response to a request. -/
structure Response where
  /-- The status. -/
  status : Int
  /-- The body as a text. -/
  text : String
  /-- The body as a document, if it is one. -/
  document : Option Value

/-- The body of a response as a document. -/
def Response.json (r : Response) : Result Value :=
  match r.document with
  | some v => pure v
  | none => throw (.value "not json")

/-- Whether a status is one of success. -/
def Response.isSuccess (r : Response) : Bool := 200 ≤ r.status && r.status < 300

/-- An entry of the log of the wire. -/
inductive Exchange where
  /-- A connection was opened with a limit of time; `redirects` says whether redirections are
  followed, if that was asked. -/
  | opened (timeout : Value) (redirects : Option Bool)
  /-- A request was sent. -/
  | request (method url : Value) (headers : Bindings) (content : Option (List UInt8))
  /-- A document was posted. -/
  | post (url : String) (headers : Bindings) (document : Value)
  /-- There was a pause of some seconds. -/
  | pause (seconds : Value)

/-- A network, by its answers. -/
structure Network where
  /-- The answers to requests. -/
  answers : List (Result Response)
  /-- The answers to posts. -/
  postAnswers : List (Result Response)
  /-- What went over the wire. -/
  log : List Exchange

instance : Inhabited Network := ⟨⟨[], [], []⟩⟩

/-- A computation over the network that can fail; what went over the wire stays in the log. -/
abbrev Talk := ExceptT Failure (StateM Network)

namespace Talk

/-- A result as a computation that leaves the network alone. -/
def ofResult {α : Type} : Result α → Talk α
  | .ok a => pure a
  | .error failure => throw failure

/-- Adds to the log. -/
def note (entry : Exchange) : Talk Unit :=
  modify fun net => { net with log := net.log ++ [entry] }

/-- The failure of a network that has no more answers. -/
def exhausted : Failure := .raised "ConnectionError" "no more responses"

/-- Sends a request. -/
def request (method url : Value) (headers : Bindings) (content : Option (List UInt8)) :
    Talk Response := do
  note (.request method url headers content)
  let net ← get
  match net.answers with
  | [] => throw exhausted
  | answer :: rest =>
    set { net with answers := rest }
    ofResult answer

/-- Posts a document. -/
def post (url : String) (headers : Bindings) (document : Value) : Talk Response := do
  note (.post url headers document)
  let net ← get
  match net.postAnswers with
  | [] => throw exhausted
  | answer :: rest =>
    set { net with postAnswers := rest }
    ofResult answer

end Talk

end TreeScript.Http
