import TreeScript.Http.Network
import TreeScript.Json.Writer
import TreeScript.Text.Casing
import TreeScript.Text.Utf8
import TreeScript.Value.Convert
import TreeScript.Value.Elements

/-!
# Requests

A request is sent as often as its options allow, until it is answered: each attempt after the first
one waits twice as long as the one before. A text goes out as it is, and any other value as a
document in which all characters are ASCII.
-/

namespace TreeScript.Http

/-- How a request is sent. -/
structure Options where
  /-- The limit of time, in seconds. -/
  timeout : Binary64
  /-- The number of attempts after the first one. -/
  retries : Int
  /-- The wait before the second attempt, in seconds. -/
  backoff : Binary64

/-- The options that a value gives; those that it does not give have defaults. -/
def Options.ofValue (v : Value) : Result Options := do
  let fields ← v.toBindings
  let timeout ← (fields.getD "timeout" (.float (Binary64.nearestInt 5))).toFloat
  let retries ← (fields.getD "retries" (.int 0)).toInt
  let backoff ← match fields.get? "backoff" with
    | some wait => wait.toFloat
    | none => floatOfText "0.2"
  pure ⟨timeout, retries, backoff⟩

/-- The texts of headers; of two that have the same text for a name, the later one counts. -/
def headersOf (v : Value) : Result Bindings := do
  let fields ← v.toBindings
  fields.foldlM (fun (acc : Bindings) field => do
    let name ← field.1.text
    let value ← field.2.text
    pure (acc.put (.str name) (.str value))) []

/-- The name of the header that tells the kind of a body. -/
def contentType : String := "Content-Type"

/-- Headers with the kind of the body, unless they have one. -/
def withContentType (kind : String) (headers : Bindings) : Bindings :=
  if headers.has (.str contentType) then headers else headers.put (.str contentType) (.str kind)

/-- The bytes of a body, and the headers that go with it (`_encode_body`). -/
def encodeBody (body : Value) (headers : Bindings) : Result (Option (List UInt8) × Bindings) :=
  match body with
  | .null => pure (none, headers)
  | .bytes octets => pure (some octets, headers)
  | .str s => pure (some (Text.encodeUtf8 s), withContentType "text/plain; charset=utf-8" headers)
  | other => do
    let text ← Json.write .wire other
    pure (some (Text.encodeUtf8 text), withContentType "application/json" headers)

/-- A request, ready to be sent. -/
structure Request where
  /-- The method. -/
  method : Value
  /-- The address. -/
  url : Value
  /-- The headers. -/
  headers : Bindings
  /-- The bytes of the body. -/
  content : Option (List UInt8)
  /-- Whether a status that is not one of success counts as a failure. -/
  strict : Bool

/-- The method of a request in capital letters. -/
def capitalMethod (v : Value) : Result Value :=
  match v with
  | .str s => pure (.str (Text.uppered s))
  | .bytes octets =>
    pure (.bytes (octets.map fun b => if 97 ≤ b.toNat && b.toNat ≤ 122 then b - 32 else b))
  | other => throw (.noAttribute other.qualifiedKindName "upper")

/-- The most characters of a body that a failure shows. -/
def previewLength : Nat := 200

/-- The start of the body of a response. -/
def Response.preview (r : Response) : String := String.ofList (r.text.toList.take previewLength)

/-- Sends a request once. -/
def Request.attempt (r : Request) : Talk Response := do
  let method ← Talk.ofResult (capitalMethod r.method)
  let response ← Talk.request method r.url r.headers r.content
  if r.strict && !response.isSuccess then
    let url ← Talk.ofResult r.url.text
    throw (.raised "RuntimeError" s!"HTTP {response.status} for {url}: {response.preview}")
  else pure response

/-- The wait after an attempt, counted from zero. -/
def delay (backoff : Binary64) (attempt : Nat) : Result Value :=
  ArithmeticOp.mul.apply (.float backoff) (.int (Nat.pow 2 attempt))

/-- Sends a request until it is answered, with a number of attempts after this one. -/
def Request.retry (r : Request) (backoff : Binary64) : Nat → Nat → Talk Response
  | 0, _ => r.attempt
  | left + 1, attempt => do
    try r.attempt
    catch _ =>
      let wait ← Talk.ofResult (delay backoff attempt)
      Talk.note (.pause wait)
      r.retry backoff left (attempt + 1)

/-- Sends a request as its options say (`http_request`). A negative number of retries means that it
is never sent. -/
def send (method url options headers body : Value) (strict : Bool) : Talk (Option Response) := do
  let options ← Talk.ofResult (Options.ofValue options)
  let headers ← Talk.ofResult (headersOf headers)
  let (content, headers) ← Talk.ofResult (encodeBody body headers)
  Talk.note (.opened (.float options.timeout) (some true))
  if options.retries < 0 then pure none
  else
    let request : Request := ⟨method, url, headers, content, strict⟩
    some <$> request.retry options.backoff options.retries.toNat 0

/-- The body of the answer to a request, whatever its status (`fetch_text`). -/
def fetchText (method url options headers body : Value) : Talk Value := do
  match ← send method url options headers body false with
  | some response => pure (.str response.text)
  | none => throw (.noAttribute "NoneType" "text")

end TreeScript.Http
