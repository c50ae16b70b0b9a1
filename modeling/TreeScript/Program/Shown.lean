import TreeScript.Json.Writer
import TreeScript.Program.Plain

/-!
# What a user is shown

`Value.shown` is the text in which a console prints a value: `nil`, `#true`, `#false`, numbers
without a fraction as integers, texts between double quotes, procedures by a mark, and everything
that a document can hold as JSON.
-/

namespace TreeScript

def Number.shown : Number → String
  | .int i => intText i
  | .float x =>
    match x with
    | .nan _ => "NaN"
    | .infinite negative => if negative then "-Infinity" else "Infinity"
    | .finite negative mantissa exponent =>
      let whole := Binary64.truncate negative mantissa exponent
      if Number.equal (.int whole) (.float x) then intText whole else x.text

/-- The JSON text of the plain form of a value (`_pformat_json`). -/
def Value.shownAsJson (v : Value) : Result String := do
  let plained ← v.plain
  Json.write .compact plained

mutual

/-- A value as a user is shown it (`pformat`). -/
def Value.shown : Value → Result String
  | .undefined => pure "undefined"
  | .null => pure "nil"
  | .bool b => pure (if b then "#true" else "#false")
  | .int i => pure (intText i)
  | .float x => pure (Number.shown (.float x))
  | .str s => pure ("\"" ++ s ++ "\"")
  | .closure .. => pure "#<procedure>"
  | .env bindings => do
    let parts ← shownBindings bindings
    pure ("\x7b" ++ commaJoined parts ++ "\x7d")
  | .node e => do
    let tree ← e.toValue
    Json.write .compact tree
  | .list items => Value.shownAsJson (.list items)
  | .tuple items => Value.shownAsJson (.tuple items)
  | .map entries => Value.shownAsJson (.map entries)
  | v => v.text
termination_by structural v => v

def shownBindings : List (Value × Value) → Result (List String)
  | [] => pure []
  | (k, v) :: rest => do
    let key ← k.text
    let shown ← Value.shown v
    let others ← shownBindings rest
    pure ((key ++ ": " ++ shown) :: others)
termination_by structural es => es

end

end TreeScript
