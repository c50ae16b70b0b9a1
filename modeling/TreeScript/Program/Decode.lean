import TreeScript.Program.Tag
import TreeScript.Value.Display

/-!
# Decoding programs

`Expr.ofValue` reads a program off a tree of maps. It checks a node from the outside in and its
parts in a fixed order, and the first flaw that it meets is the one that it reports.

Where a program is expected a list of programs is let through as an `Expr.block`; evaluating it is
an error.

An argument of an effect is an expression when it is a map with the tag of a program, and a literal
otherwise. This is decided once, when the program is decoded.
-/

namespace TreeScript

/-- The value of a field that the tag needs (`_require`). -/
def requireField (tag : Tag) (field : String) (entries : Bindings) : Result Value :=
  match Bindings.get? entries field with
  | some v => pure v
  | none => throw (.malformed (.missingField tag.name field))

/-- A name (`_name`): a text that is not empty, or a variable with such a key. -/
def nameOf (place : String) (v : Value) : Result String := do
  let named := match v with
    | .map entries =>
      match Bindings.get? entries "type" with
      -- a variable stands for its key, which is checked in its place
      | some (.str "variable") => Bindings.getD entries "key" .null
      | _ => v
    | _ => v
  match named with
  | .str s =>
    if s == "" then throw (.malformed (.name place (Text.quoted s))) else pure s
  | other => do
    let shown ← other.literalText
    throw (.malformed (.name place shown))

/-- The number that a literal carries. -/
def numberOf (v : Value) : Result Expr :=
  match v with
  | .int i => pure (.number (.int i))
  | .float x => pure (.number (.float x))
  | other => do
    let shown ← other.literalText
    throw (.malformed (.payload Tag.number.name "non-numeric" shown))

def stringOf (v : Value) : Result Expr :=
  match v with
  | .str s => pure (.string s)
  | other => do
    let shown ← other.literalText
    throw (.malformed (.payload Tag.string.name "non-string" shown))

def booleanOf (v : Value) : Result Expr :=
  match v with
  | .bool b => pure (.boolean b)
  | other => do
    let shown ← other.literalText
    throw (.malformed (.payload Tag.boolean.name "non-boolean" shown))

/-- The operator that a value spells. -/
def operatorOf {Op : Type} (tag : Tag) (ofSymbol? : String → Option Op) (v : Value) : Result Op :=
  let spelled := match v with
    | .str s => ofSymbol? s
    | _ => none
  match spelled with
  | some op => pure op
  | none => do
    let shown ← v.literalText
    throw (.malformed (.operator tag.name shown))

/-- The operands of an operation, of which there are at least two. -/
def atLeastTwo (tag : Tag) (operands : List Expr) : Result (List Expr) :=
  if operands.length < 2 then throw (.malformed (.operandCount tag.name)) else pure operands

def inputsOf (v : Value) : Result (List String) :=
  match v with
  | .list items => items.mapM (nameOf "procedure input")
  | _ => throw (.malformed .inputs)

/-- Accepts what can be called. -/
def checkCallee (e : Expr) : Result Unit :=
  match e with
  | .variable _ => pure ()
  | .procedure .. => pure ()
  | _ => throw (.malformed .callee)

/-- The name that an effect gives its answer. -/
def bindOf (entries : Bindings) : Result (Option String) :=
  match Bindings.getD entries "bind" .null with
  | .null => pure none
  | v => some <$> nameOf "effect.bind" v

/-- The tag of a map that is to be a program. -/
def requireTag (entries : Bindings) : Result Tag := do
  let v := Bindings.getD entries "type" .null
  -- a tag that cannot be a key fails before it can be told that there is no such tag
  v.checkKey
  match tagOf? entries with
  | some tag => pure tag
  | none => do
    let shown ← v.literalText
    throw (.malformed (.unknownTag shown))

/-- What a missing field is reported as. -/
def orMissing {α : Type} (tag : Tag) (field : String) : Option (Result α) → Result α
  | some result => result
  | none => throw (.malformed (.missingField tag.name field))

mutual

/-- The program that a tree is (`transform`). -/
def Expr.ofValue : Value → Result Expr
  | .list items => do
    let exprs ← exprsOf items
    pure (.block exprs)
  | .node e => pure e
  | .map entries => do
    let tag ← requireTag entries
    match tag with
    | .number => requireField .number "value" entries >>= numberOf
    | .string => requireField .string "value" entries >>= stringOf
    | .boolean => requireField .boolean "value" entries >>= booleanOf
    | .variable => do
      let v ← requireField .variable "key" entries
      let key ← nameOf "variable.key" v
      pure (.variable key)
    | .arithmetic => do
      let v ← requireField .arithmetic "operation" entries
      let op ← operatorOf .arithmetic ArithmeticOp.ofSymbol? v
      let operands ← orMissing .arithmetic "operands" (exprsField? .arithmetic "operands" entries)
      let operands ← atLeastTwo .arithmetic operands
      pure (.arithmetic op operands)
    | .comparison => do
      let v ← requireField .comparison "operation" entries
      let op ← operatorOf .comparison ComparisonOp.ofSymbol? v
      let operands ← orMissing .comparison "operands" (exprsField? .comparison "operands" entries)
      let operands ← atLeastTwo .comparison operands
      pure (.comparison op operands)
    | .conditional => do
      let condition ← orMissing .conditional "condition" (exprField? "condition" entries)
      let onTrue ← orMissing .conditional "trueReturn" (exprField? "trueReturn" entries)
      let onFalse ← orMissing .conditional "falseReturn" (exprField? "falseReturn" entries)
      pure (.conditional condition onTrue onFalse)
    | .procedure => do
      let v ← requireField .procedure "inputs" entries
      let inputs ← inputsOf v
      let body ← orMissing .procedure "body" (exprField? "body" entries)
      pure (.procedure inputs body)
    | .call => do
      let callee ← orMissing .call "procedure" (exprField? "procedure" entries)
      -- the callee is checked before the arguments are read
      checkCallee callee
      let arguments ← orMissing .call "arguments" (exprsField? .call "arguments" entries)
      pure (.call callee arguments)
    | .definition => do
      let v ← requireField .definition "key" entries
      let key ← nameOf "definition.key" v
      let value ← orMissing .definition "value" (exprField? "value" entries)
      pure (.definition key value)
    | .effect => do
      let v ← requireField .effect "name" entries
      let name ← nameOf "effect.name" v
      let args ← argsField entries
      let bind ← bindOf entries
      let next ← nextField entries
      pure (.effect name args bind next)
  | v => throw (.malformed (.notANode v.kindName))
termination_by structural v => v

def exprsOf : List Value → Result (List Expr)
  | [] => pure []
  | v :: rest => do
    let e ← Expr.ofValue v
    let es ← exprsOf rest
    pure (e :: es)
termination_by structural vs => vs

/-- The program in a field, if the map has the field. -/
def exprField? : String → List (Value × Value) → Option (Result Expr)
  | _, [] => none
  | field, (k, v) :: rest =>
    if Value.equal (.str field) k then some (Expr.ofValue v) else exprField? field rest
termination_by structural _ es => es

/-- The list of programs in a field, if the map has the field. -/
def exprsField? : Tag → String → List (Value × Value) → Option (Result (List Expr))
  | _, _, [] => none
  | tag, field, (k, v) :: rest =>
    if Value.equal (.str field) k then some (exprsOfValue tag field v)
    else exprsField? tag field rest
termination_by structural _ _ es => es

/-- The programs of a value that has to be a list (`_expr_list`). -/
def exprsOfValue : Tag → String → Value → Result (List Expr)
  | _, _, .list items => exprsOf items
  | tag, field, _ => throw (.malformed (.notAList tag.name field))
termination_by structural _ _ v => v

/-- The arguments of an effect; none if the field is missing or empty. -/
def argsField : List (Value × Value) → Result (List (Value × Arg))
  | [] => pure []
  | (k, v) :: rest => if Value.equal (.str "args") k then argsOfValue v else argsField rest
termination_by structural es => es

/-- The arguments in a value that has to be a map. -/
def argsOfValue : Value → Result (List (Value × Arg))
  | .map entries => argsOf entries
  | other => if other.truth then throw (.malformed .arguments) else pure []
termination_by structural v => v

/-- The arguments that the entries of a map are: an expression if it looks like one, else a literal.
-/
def argsOf : List (Value × Value) → Result (List (Value × Arg))
  | [] => pure []
  | (k, v) :: rest => do
    -- decided here and not when the effect is called
    let a ← if v.isNodeShape then Arg.expr <$> Expr.ofValue v else pure (Arg.literal v)
    let others ← argsOf rest
    pure ((k, a) :: others)
termination_by structural es => es

/-- What an effect goes on with; nothing if the field is missing or null. -/
def nextField : List (Value × Value) → Result (Option Expr)
  | [] => pure none
  | (k, v) :: rest =>
    if Value.equal (.str "then") k then
      if v.isNull then pure none else some <$> Expr.ofValue v
    else nextField rest
termination_by structural es => es

end

/-- Whether a tree is a program, and if not why. -/
inductive Verdict where
  | wellFormed
  | flawed (message : String)
  deriving DecidableEq, Repr

/-- Checks that a tree is a program or a list of programs (`validate_program`). Only flaws of the
tree make a verdict; another failure (an unusable value as the tag) is a failure here too. -/
def Expr.validate (v : Value) : Result Verdict :=
  match Expr.ofValue v with
  | .ok _ => pure .wellFormed
  | .error (.malformed flaw) => pure (.flawed flaw.message)
  | .error failure => throw failure

end TreeScript
