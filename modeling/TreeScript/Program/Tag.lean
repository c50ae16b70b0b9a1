import TreeScript.Value.Bindings

/-!
# Tags

In a document a program is a tree of maps, and the entry `type` of a map tells what kind of program
it is. Its values are the tags.
-/

namespace TreeScript

/-- The kinds of program that a document can hold. -/
inductive Tag where
  | number
  | string
  | boolean
  | variable
  | arithmetic
  | comparison
  | conditional
  | procedure
  | call
  | definition
  | effect
  deriving DecidableEq, Repr

namespace Tag

/-- The spelling of a tag. -/
def name : Tag → String
  | number => "number"
  | string => "string"
  | boolean => "boolean"
  | .variable => "variable"
  | arithmetic => "arithmeticOperation"
  | comparison => "comparativeOperation"
  | conditional => "conditional"
  | procedure => "procedure"
  | call => "procedureCall"
  | definition => "definition"
  | effect => "effect"

/-- The tag with a spelling. -/
def ofName? : String → Option Tag
  | "number" => some number
  | "string" => some string
  | "boolean" => some boolean
  | "variable" => some .variable
  | "arithmeticOperation" => some arithmetic
  | "comparativeOperation" => some comparison
  | "conditional" => some conditional
  | "procedure" => some procedure
  | "procedureCall" => some call
  | "definition" => some definition
  | "effect" => some effect
  | _ => none

end Tag

/-- The tag of a map, if it has one of a program. -/
def tagOf? (entries : Bindings) : Option Tag :=
  match Bindings.get? entries "type" with
  | some (.str s) => Tag.ofName? s
  | _ => none

/-- Whether a value is a map with the tag of a program (`is_node_shape`). -/
def Value.isNodeShape : Value → Bool
  | .map entries => (tagOf? entries).isSome
  | _ => false

end TreeScript
