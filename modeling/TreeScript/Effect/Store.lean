import TreeScript.Value.Display
import TreeScript.Value.Elements

/-!
# The store of texts

Programs keep texts by name in a store. Setting a name again keeps its place; a name that is cleared
and set again goes to the end.
-/

namespace TreeScript.Store

/-- Keeps a text under a name (`context_set`). -/
def set (args : Bindings) (store : Bindings) : Result (Value × Bindings) := do
  let name := args.getD "name" .null
  let text ← match args.getD "text" .null with
    | .null => pure ""
    | v => v.text
  name.checkKey
  pure (.ofFields [("stored", name), ("length", .int text.length)], store.put name (.str text))

/-- The text under a name, or a value that says that there is none (`context_get`). -/
def get (args : Bindings) (store : Bindings) : Result Value := do
  let name := args.getD "name" .null
  name.checkKey
  match (store.lookup? name).getD .null with
  | .null =>
    let shown ← name.text
    pure (.ofFields [("error", .str s!"Context \"{shown}\" not found")])
  | v => pure v

/-- The names with the lengths of their texts, in order (`context_list`). -/
def list (store : Bindings) : Result Value := do
  let entries ← store.mapM fun e => do
    let length ← e.2.length
    pure (Value.ofFields [("name", e.1), ("length", .int length)])
  pure (.list entries)

/-- The number of names that were cleared, as a value. -/
def cleared (count : Nat) : Value := .ofFields [("cleared", .int count)]

/-- Clears a name, or everything if no name is given (`context_clear`). A name is not looked at if
there is nothing to clear. -/
def clear (args : Bindings) (store : Bindings) : Result (Value × Bindings) := do
  let name := args.getD "name" .null
  if name.truth then
    if !store.isEmpty then name.checkKey
    let held := match store.lookup? name with
      | none => false
      | some v => !v.isNull
    pure (cleared (if held then 1 else 0), store.remove name)
  else pure (cleared store.length, [])

end TreeScript.Store
