import TreeScript.Program.Tag
import TreeScript.Value.Display

/-!
# Encoding programs

`Expr.toValue` is the tree of maps that a document holds for a program; `Expr.ofValue` reads it
back. It fails only where a list of programs stands in the place of one program, which no document
can hold.
-/

namespace TreeScript

/-- The fields of a node with a tag. -/
def taggedFields (tag : Tag) (fields : List (String × Value)) : Value :=
  Value.ofFields (("type", .str tag.name) :: fields)

def variableTree (key : String) : Value := taggedFields .variable [("key", .str key)]

/-- The optional name that an effect gives its answer, as fields. -/
def bindFields : Option String → List (String × Value)
  | none => []
  | some key => [("bind", .str key)]

mutual

def Expr.toValue : Expr → Result Value
  | .number n => pure (taggedFields .number [("value", n.toValue)])
  | .string s => pure (taggedFields .string [("value", .str s)])
  | .boolean b => pure (taggedFields .boolean [("value", .bool b)])
  | .variable key => pure (variableTree key)
  | .arithmetic op operands => do
    let trees ← treesOf operands
    pure (taggedFields .arithmetic [("operation", .str op.symbol), ("operands", .list trees)])
  | .comparison op operands => do
    let trees ← treesOf operands
    pure (taggedFields .comparison [("operation", .str op.symbol), ("operands", .list trees)])
  | .conditional condition onTrue onFalse => do
    let c ← Expr.toValue condition
    let t ← Expr.toValue onTrue
    let f ← Expr.toValue onFalse
    pure (taggedFields .conditional [("condition", c), ("trueReturn", t), ("falseReturn", f)])
  | .procedure inputs body => do
    let b ← Expr.toValue body
    pure (taggedFields .procedure [("inputs", .list (inputs.map .str)), ("body", b)])
  | .call callee arguments => do
    let p ← Expr.toValue callee
    let trees ← treesOf arguments
    pure (taggedFields .call [("procedure", p), ("arguments", .list trees)])
  | .definition key value => do
    let v ← Expr.toValue value
    -- a definition names its key by a variable
    pure (taggedFields .definition [("key", variableTree key), ("value", v)])
  | .effect name args bind next => do
    let fields ← argTrees args
    let continued ← nextFields next
    pure (taggedFields .effect
      ([("name", .str name), ("args", .map fields)] ++ bindFields bind ++ continued))
  | .block items => do
    let shown ← exprTexts items
    throw (.type (.notANode ("[" ++ commaJoined shown ++ "]")))
termination_by structural e => e

def treesOf : List Expr → Result (List Value)
  | [] => pure []
  | e :: rest => do
    let v ← Expr.toValue e
    let vs ← treesOf rest
    pure (v :: vs)
termination_by structural es => es

def argTrees : List (Value × Arg) → Result (List (Value × Value))
  | [] => pure []
  | (k, a) :: rest => do
    let v ← Arg.toValue a
    let others ← argTrees rest
    pure ((k, v) :: others)
termination_by structural as => as

/-- The tree of an argument: a literal is its own. -/
def Arg.toValue : Arg → Result Value
  | .literal v => pure v
  | .expr e => Expr.toValue e
termination_by structural a => a

/-- What an effect goes on with, as fields. -/
def nextFields : Option Expr → Result (List (String × Value))
  | none => pure []
  | some e => do
    let v ← Expr.toValue e
    pure [("then", v)]
termination_by structural e => e

end

/-- The tree of a program that is handled as data (`to_program`). -/
def Value.toProgram : Value → Result Value
  | .node e => e.toValue
  | v => do
    let shown ← v.literalText
    throw (.type (.notANode shown))

end TreeScript
