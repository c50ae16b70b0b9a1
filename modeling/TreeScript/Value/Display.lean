import TreeScript.Number.Decimal
import TreeScript.Text.Quoted
import TreeScript.Value.Bindings

/-!
# Showing values

Two texts of a value: `Value.literalText`, which shows what kind of value it is (a text between
quotes, a program by its constructor), and `Value.text`, which is the same except that a text is
shown as it is and a day or a time in its usual form. Both fail only on an environment with a name
that is no text.
-/

namespace TreeScript

def commaJoined (texts : List String) : String := ", ".intercalate texts

/-- The text of an offset from universal time. -/
def zoneText (minutes : Int) : String :=
  if minutes == 0 then "datetime.timezone.utc"
  else
    -- a negative offset is shown as one day less and the seconds of the rest
    let seconds := intText (Int.emod (minutes * 60) 86400)
    if minutes < 0 then s!"datetime.timezone(datetime.timedelta(days=-1, seconds={seconds}))"
    else s!"datetime.timezone(datetime.timedelta(seconds={seconds}))"

def Date.literalText (d : Date) : String :=
  s!"datetime.date({intText d.year}, {intText d.month}, {intText d.day})"

/-- The constructor text of a time. Seconds are left out when they are zero, and so is what is
finer. -/
def DateTime.literalText (t : DateTime) : String :=
  let fields := [t.date.year, t.date.month, t.date.day, t.hour, t.minute]
  let fine := if t.micro != 0 then [t.second, t.micro] else if t.second != 0 then [t.second] else []
  let zone := match t.offset with
    | none => []
    | some minutes => ["tzinfo=" ++ zoneText minutes]
  let numbers := (fields ++ fine).map fun n : Nat => intText n
  "datetime.datetime(" ++ commaJoined (numbers ++ zone) ++ ")"

def boolText (b : Bool) : String := if b then "True" else "False"

def Number.text : Number → String
  | .int i => intText i
  | .float x => x.text

/-- The text of a list of names. -/
def quotedNames (names : List String) : String :=
  "[" ++ commaJoined (names.map Text.quoted) ++ "]"

/-- The names of an environment, which have to be texts. -/
def namesOf (bs : Bindings) : Result (List String) :=
  go 0 bs
where
  go : Nat → Bindings → Result (List String)
    | _, [] => pure []
    | i, (k, _) :: rest =>
      match k with
      | .str s => (s :: ·) <$> go (i + 1) rest
      | other => throw (.type (.notAName i other.qualifiedKindName))

mutual

/-- The text of a value that shows its kind. -/
def Value.literalText : Value → Result String
  | .null => pure "None"
  | .bool b => pure (boolText b)
  | .int i => pure (intText i)
  | .float x => pure x.text
  | .str s => pure (Text.quoted s)
  | .list items => do
    let shown ← literalTexts items
    pure ("[" ++ commaJoined shown ++ "]")
  | .tuple items => do
    let shown ← literalTexts items
    -- one element alone is told from a bracketed value by a comma
    pure (if shown.length == 1 then "(" ++ commaJoined shown ++ ",)"
      else "(" ++ commaJoined shown ++ ")")
  | .map entries => do
    let shown ← entryTexts entries
    pure ("\x7b" ++ commaJoined shown ++ "\x7d")
  | .set items => do
    let shown ← literalTexts items
    pure (if shown.isEmpty then "set()" else "\x7b" ++ commaJoined shown ++ "\x7d")
  | .bytes bs => pure (Text.quotedBytes bs)
  | .date d => pure d.literalText
  | .datetime t => pure t.literalText
  | .undefined => pure "Undefined"
  | .closure _ inputs _ => pure s!"<ProcedureClosure inputs={quotedNames inputs}>"
  | .node e => Expr.literalText e
  | .literal v => do
    let shown ← Value.literalText v
    pure s!"Literal({shown})"
  | .env bs => do
    let names ← namesOf bs
    pure s!"<Environment bindings=[{commaJoined names}]>"
  | .object attributes => do
    let shown ← attributeTexts attributes
    pure ("namespace(" ++ commaJoined shown ++ ")")
termination_by structural v => v

def literalTexts : List Value → Result (List String)
  | [] => pure []
  | v :: rest => do
    let shown ← Value.literalText v
    let others ← literalTexts rest
    pure (shown :: others)
termination_by structural vs => vs

def entryTexts : List (Value × Value) → Result (List String)
  | [] => pure []
  | (k, v) :: rest => do
    let key ← Value.literalText k
    let value ← Value.literalText v
    let others ← entryTexts rest
    pure ((key ++ ": " ++ value) :: others)
termination_by structural es => es

def attributeTexts : List (Value × Value) → Result (List String)
  | [] => pure []
  | (k, v) :: rest => do
    let name ← match k with
      | .str s => pure s
      | other => Value.literalText other
    let value ← Value.literalText v
    let others ← attributeTexts rest
    pure ((name ++ "=" ++ value) :: others)
termination_by structural es => es

/-- The text of a program by its constructors. -/
def Expr.literalText : Expr → Result String
  | .number n => pure s!"Number({n.text})"
  | .string s => pure s!"String({Text.quoted s})"
  | .boolean b => pure s!"Boolean({boolText b})"
  | .variable key => pure s!"Variable({Text.quoted key})"
  | .arithmetic op operands => do
    let shown ← exprTexts operands
    pure s!"ArithmeticOperation({Text.quoted op.symbol}, [{commaJoined shown}])"
  | .comparison op operands => do
    let shown ← exprTexts operands
    pure s!"ComparativeOperation({Text.quoted op.symbol}, [{commaJoined shown}])"
  | .conditional condition onTrue onFalse => do
    let a ← Expr.literalText condition
    let b ← Expr.literalText onTrue
    let c ← Expr.literalText onFalse
    pure s!"Conditional({a}, {b}, {c})"
  | .procedure inputs body => do
    let shown ← Expr.literalText body
    pure s!"Procedure({quotedNames inputs}, {shown})"
  | .call callee arguments => do
    let shown ← Expr.literalText callee
    let args ← exprTexts arguments
    pure s!"ProcedureCall({shown}, [{commaJoined args}])"
  | .definition key value => do
    let shown ← Expr.literalText value
    pure s!"Definition({Text.quoted key}, {shown})"
  | .effect name args bind next => do
    let shown ← argTexts args
    let bound := match bind with
      | none => ""
      | some key => ", bind=" ++ Text.quoted key
    let continued ← nextText next
    pure ("Effect(" ++ Text.quoted name ++ ", \x7b" ++ commaJoined shown ++ "\x7d" ++ bound ++
      continued ++ ")")
  | .block items => do
    let shown ← exprTexts items
    pure ("[" ++ commaJoined shown ++ "]")
termination_by structural e => e

def exprTexts : List Expr → Result (List String)
  | [] => pure []
  | e :: rest => do
    let shown ← Expr.literalText e
    let others ← exprTexts rest
    pure (shown :: others)
termination_by structural es => es

/-- The text of a continuation, empty if there is none. -/
def nextText : Option Expr → Result String
  | none => pure ""
  | some e => do
    let shown ← Expr.literalText e
    pure (", then=" ++ shown)
termination_by structural e => e

/-- The texts of the arguments of an effect. -/
def argTexts : List (Value × Arg) → Result (List String)
  | [] => pure []
  | (k, a) :: rest => do
    let key ← Value.literalText k
    let value ← Arg.literalText a
    let others ← argTexts rest
    pure ((key ++ ": " ++ value) :: others)
termination_by structural as => as

def Arg.literalText : Arg → Result String
  | .literal v => do
    let shown ← Value.literalText v
    pure s!"Literal({shown})"
  | .expr e => Expr.literalText e
termination_by structural a => a

end

/-- The text of a value as a message has it. -/
def Value.text : Value → Result String
  | .str s => pure s
  | .date d => pure d.text
  | .datetime t => pure (t.text " ")
  | v => v.literalText

end TreeScript
