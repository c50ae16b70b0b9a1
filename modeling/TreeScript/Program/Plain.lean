import TreeScript.Program.Encode

/-!
# Plain values

`Value.plain` turns a value into one that a document can hold: a closure becomes the tree of its
procedure, an environment a map, a tuple a list, the undefined mark nothing, and keys of maps become
texts. What it does not know it leaves as it is.
-/

namespace TreeScript

mutual

/-- A value as documents have it (`to_builtin`). -/
def Value.plain : Value → Result Value
  | .closure _ inputs body => do
    let tree ← (Expr.procedure inputs body).toValue
    pure (Value.ofFields [("type", .str "procedureClosure"), ("procedure", tree)])
  | .env bindings => do
    let entries ← plainBindings bindings
    pure (.map entries)
  | .map entries => do
    let plained ← plainEntries entries
    pure (.map (Bindings.ofPairs plained))
  | .list items => do
    let plained ← plainItems items
    pure (.list plained)
  | .tuple items => do
    let plained ← plainItems items
    pure (.list plained)
  | .undefined => pure .null
  | v => pure v
termination_by structural v => v

def plainItems : List Value → Result (List Value)
  | [] => pure []
  | v :: rest => do
    let w ← Value.plain v
    let ws ← plainItems rest
    pure (w :: ws)
termination_by structural vs => vs

/-- The plain forms of the entries of a map, with keys made texts. -/
def plainEntries : List (Value × Value) → Result (List (Value × Value))
  | [] => pure []
  | (k, v) :: rest => do
    let key ← k.text
    let w ← Value.plain v
    let others ← plainEntries rest
    pure ((.str key, w) :: others)
termination_by structural es => es

/-- The plain forms of the bindings of an environment, whose names are kept. -/
def plainBindings : List (Value × Value) → Result (List (Value × Value))
  | [] => pure []
  | (k, v) :: rest => do
    let w ← Value.plain v
    let others ← plainBindings rest
    pure ((k, w) :: others)
termination_by structural es => es

end

end TreeScript
