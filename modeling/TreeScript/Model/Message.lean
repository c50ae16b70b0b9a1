import TreeScript.Value.Display
import TreeScript.Value.Elements

/-!
# Messages

What is sent to a model, and how the text is found in what it replies: in the first block of the
reply's content that is of type `text`. A reply can be a map or a host object with attributes.
-/

namespace TreeScript.Model

/-- The part of a map or of an object with a name, or nothing. -/
def part (v : Value) (name : String) : Value :=
  match v with
  | .map entries => Bindings.getD entries name .null
  | .object attributes => Bindings.getD attributes name .null
  | _ => .null

/-- The text of the first block of type `text`; empty if there is none. -/
def textOfBlocks : List Value → Value
  | [] => .str ""
  | block :: rest =>
    match part block "type" with
    | .str "text" =>
      let text := part block "text"
      if text.truth then text else .str ""
    | _ => textOfBlocks rest

/-- The text of a reply (`first_text`). -/
def firstText (reply : Value) : Result Value := do
  let content := part reply "content"
  if content.truth then textOfBlocks <$> content.elements else pure (.str "")

/-- A prompt with the stored text of a context before it (`frame_prompt`). A context without a name
or without text is left out. -/
def framePrompt (prompt contextName : Value) (store : Bindings) : Result Value := do
  if contextName.truth then do
    contextName.checkKey
    match store.lookup? contextName with
    | some stored =>
      if stored.truth then do
        let name ← contextName.text
        let body ← stored.text
        let question ← prompt.text
        pure (.str s!"Context \"{name}\":\n{body}\n\n---\n\n{question}")
      else pure prompt
    | none => pure prompt
  else pure prompt

end TreeScript.Model
