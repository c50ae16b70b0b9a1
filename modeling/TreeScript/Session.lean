import TreeScript.Document
import TreeScript.Evaluation
import TreeScript.Program.Shown
import TreeScript.Text.Utf8

/-!
# Sessions

A session runs programs one after the other in an environment that it keeps. A program is a tree, a
list of trees, or a text of either. When a run fails, the session keeps the environment from before
it and reports the failure in words, with the calls that were under way. What happened during a run
is in the log of the session, which starts anew with each run.
-/

namespace TreeScript

/-- A session with a host (`ProgramRunner`). -/
structure Session (σ : Type) where
  /-- How texts of programs are read. -/
  yaml : Yaml.Library
  /-- How effects are answered, if they are. -/
  handler : Option (Handler σ)
  /-- The environment of the next run. -/
  env : Environment
  /-- What is kept beside the environment. -/
  machine : Machine σ

/-- What a run reports (`ExecutionResult`). -/
inductive Report where
  /-- The values of the programs. -/
  | success (results : List Value)
  /-- The failure in words. -/
  | error (message : String)

/-- The value of a run: that of its last program. -/
def Report.value : Report → Value
  | .success results => results.getLast?.getD .null
  | .error _ => .null

/-- The values of all programs of a run. -/
def Report.results : Report → List Value
  | .success results => results
  | .error _ => []

/-- The failure of a run in words. -/
def Report.errorMessage? : Report → Option String
  | .success _ => none
  | .error message => some message

/-- The failure of a run as it is put out (`format_error`). -/
def Report.errorText : Report → String
  | .success _ => ""
  | .error message => if message == "" then "Unknown error" else message

/-- An argument of a call, in short. -/
def Value.brief : Value → Result String
  | .closure .. => pure "fn"
  | .list items => pure s!"#[{items.length}]"
  | .map _ => pure "#\x7b...\x7d"
  | v => v.shown

/-- A call that is under way. -/
def Frame.text (frame : Frame) : Result String := do
  let args ← frame.args.mapM Value.brief
  let shown := " ".intercalate args
  let name := if frame.name == "" then "<call>" else frame.name
  pure ("(" ++ name ++ (if shown == "" then "" else " " ++ shown) ++ ")")

/-- The calls that are under way, outermost first (`_format_stacktrace`). -/
def stackText (calls : List Frame) : Result String := do
  if calls.isEmpty then pure ""
  else
    let frames ← calls.mapM Frame.text
    pure ("SAJ stacktrace: " ++ " ".intercalate frames)

/-- A failure in words (`_format_runtime_error`). A failure that is neither the program's nor a
misuse of a value is an internal one. -/
def Failure.report (failure : Failure) : String :=
  if failure.isOfLanguage || failure.isOfType || failure.isOfValue || failure.isDivision then
    s!"{failure.kind}: {failure.message}"
  else s!"InternalError: {failure.message}"

namespace Session

variable {σ : Type}

/-- A new session. -/
def start (yaml : Yaml.Library) (handler : Option (Handler σ)) (env : Environment)
    (scopes : Array Environment) (tracing : Bool) (host : σ) : Session σ :=
  { yaml := yaml
    handler := handler
    env := env
    machine :=
      { scopes := scopes
        calls := []
        log := []
        tracing := tracing
        trace := ""
        host := host } }

/-- The session with an empty log and no calls under way. -/
def fresh (s : Session σ) : Session σ :=
  { s with machine := { s.machine with log := [], calls := [] } }

/-- The session with an empty environment (`reset`). -/
def reset (s : Session σ) : Session σ := { s.fresh with env := .empty }

/-- Reports a failure, which is added to the log. -/
def fail (message : String) (s : Session σ) : Except Stop Report × Session σ :=
  let log := s.machine.log ++ [.error message]
  (.ok (.error message), { s with machine := { s.machine with log := log } })

/-- The tree of a program that may be a text. -/
def parse (yaml : Yaml.Library) : Value → Result Value
  | .str text => Document.read yaml text
  | .bytes octets => Document.read yaml (Text.decodeLossy octets)
  | tree => pure tree

/-- The programs of a tree. -/
def programs : Value → List Value
  | .list trees => trees
  | tree => [tree]

/-- Reports that a run stopped. -/
def stopped (stop : Stop) (s : Session σ) : Except Stop Report × Session σ :=
  match stop with
  | .outOfFuel => (.error .outOfFuel, s)
  | .failure failure =>
    match stackText s.machine.calls with
    | .error inner => (.error (.failure inner), s)
    | .ok "" => s.fail failure.report
    | .ok stack => s.fail (failure.report ++ "\n" ++ stack)

/-- Runs decoded programs. -/
def run (fuel : Nat) (es : List Expr) (s : Session σ) : Except Stop Report × Session σ :=
  match (evalAll s.handler fuel es s.env).run.run s.machine with
  | (.ok (results, env), machine) =>
    (.ok (.success results), { s with env := env, machine := machine })
  | (.error stop, machine) => { s with machine := machine }.stopped stop

/-- Runs a program, a list of programs, or a text of either (`handle_program`). What is neither a
failure to read nor one to run is not reported but passed on. -/
def handle (fuel : Nat) (program : Value) (s : Session σ) : Except Stop Report × Session σ :=
  let fresh := s.fresh
  match parse s.yaml program with
  | .error failure =>
    if failure.isOfValue then fresh.fail s!"ParseError: {failure.message}"
    else (.error (.failure failure), fresh)
  | .ok tree =>
    match (programs tree).mapM Expr.ofValue with
    | .ok es => fresh.run fuel es
    | .error (.malformed flaw) => fresh.fail s!"MalformedProgram: {flaw.message}"
    | .error failure => (.error (.failure failure), fresh)

end Session

end TreeScript
