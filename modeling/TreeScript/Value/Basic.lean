import TreeScript.Calendar
import TreeScript.Number.Binary64

/-!
# Values and expressions

A program is a tree of expressions; running it produces values. The two types are defined together,
because a value can hold an expression (a closure has a body, and a tree can be handled as data) and
an expression can hold a value (an effect can have literal arguments).

Values are what documents, hosts and programs exchange: nothing, truth values, numbers, text, lists
and maps, and a few kinds that only some hosts know (tuples, sets, bytes, dates). A map keeps its
entries in the order of insertion and is given by them; which keys count as equal is in
`TreeScript.Value.Equal`.

A closure does not hold the environment in which it looks up free names. It holds a reference to it,
because a definition gives the closure that it binds a new scope, and every holder of the closure
sees the change. The scopes themselves are kept by the evaluator.
-/

namespace TreeScript

/-- A number: an integer of any size, or a binary64 number. -/
inductive Number where
  | int (i : Int)
  | float (x : Binary64)
  deriving DecidableEq, Repr, Inhabited

/-- The arithmetic operators. -/
inductive ArithmeticOp where
  /-- Addition and concatenation. -/
  | add
  | sub
  /-- Multiplication and repetition. -/
  | mul
  | div
  deriving DecidableEq, Repr, Inhabited

/-- The comparison operators. -/
inductive ComparisonOp where
  | eq
  | lt
  | gt
  | ne
  | le
  | ge
  deriving DecidableEq, Repr, Inhabited

/-- The sign an arithmetic operator is written with. -/
def ArithmeticOp.symbol : ArithmeticOp → String
  | .add => "+"
  | .sub => "-"
  | .mul => "*"
  | .div => "/"

/-- The operator written with a sign. -/
def ArithmeticOp.ofSymbol? : String → Option ArithmeticOp
  | "+" => some .add
  | "-" => some .sub
  | "*" => some .mul
  | "/" => some .div
  | _ => none

def ComparisonOp.symbol : ComparisonOp → String
  | .eq => "="
  | .lt => "<"
  | .gt => ">"
  | .ne => "!="
  | .le => "<="
  | .ge => ">="

def ComparisonOp.ofSymbol? : String → Option ComparisonOp
  | "=" => some .eq
  | "<" => some .lt
  | ">" => some .gt
  | "!=" => some .ne
  | "<=" => some .le
  | ">=" => some .ge
  | _ => none

/-- A reference to the scope of a closure. -/
abbrev ScopeRef := Nat

mutual

/-- What an expression evaluates to, and what hosts and documents hold. -/
inductive Value where
  | null
  | bool (b : Bool)
  | int (i : Int)
  | float (x : Binary64)
  | str (s : String)
  | list (items : List Value)
  /-- A tuple, which unlike a list can be a key. -/
  | tuple (items : List Value)
  /-- A map, by its entries in insertion order. -/
  | map (entries : List (Value × Value))
  /-- A set, by its elements in insertion order. -/
  | set (items : List Value)
  | bytes (octets : List UInt8)
  | date (day : Date)
  | datetime (time : DateTime)
  /-- The mark of a parameter that received no argument. -/
  | undefined
  /-- A procedure with a reference to the scope of its free names. -/
  | closure (scope : ScopeRef) (inputs : List String) (body : Expr)
  /-- An expression handled as data. -/
  | node (expr : Expr)
  /-- An effect argument that is not to be evaluated, handled as data. -/
  | literal (value : Value)
  /-- An environment handled as data, by its bindings in insertion order. -/
  | env (bindings : List (Value × Value))
  /-- A host object with named attributes. -/
  | object (attributes : List (Value × Value))

/-- A program. -/
inductive Expr where
  | number (n : Number)
  | string (s : String)
  | boolean (b : Bool)
  /-- The value of a name. -/
  | variable (key : String)
  /-- Operands combined from the left by an arithmetic operator. -/
  | arithmetic (op : ArithmeticOp) (operands : List Expr)
  /-- Whether an operator holds between every two neighbouring operands. -/
  | comparison (op : ComparisonOp) (operands : List Expr)
  /-- One of two branches, by a condition. -/
  | conditional (condition onTrue onFalse : Expr)
  /-- A procedure; evaluating it makes a closure. -/
  | procedure (inputs : List String) (body : Expr)
  /-- A call of a procedure given by name or in place. -/
  | call (callee : Expr) (arguments : List Expr)
  /-- A name given to a value. -/
  | definition (key : String) (value : Expr)
  /-- A request to the host, optionally naming the answer and going on with another program. -/
  | effect (name : String) (args : List (Value × Arg)) (bind : Option String) (next : Option Expr)
  /-- A list of programs where a program is expected. No tree that a program means has one, but the
  decoder lets one through, and evaluating it is an error. -/
  | block (items : List Expr)

/-- An argument of an effect. -/
inductive Arg where
  /-- A value passed on as it is. -/
  | literal (value : Value)
  /-- An expression whose value is passed on. -/
  | expr (expr : Expr)

end

instance : Inhabited Value := ⟨.null⟩
instance : Inhabited Expr := ⟨.block []⟩
instance : Inhabited Arg := ⟨.literal .null⟩

/-- Keys and values in insertion order. -/
abbrev Bindings := List (Value × Value)

def Number.toValue : Number → Value
  | .int i => .int i
  | .float x => .float x

/-- The number a value counts as in arithmetic and order: truth values count as one and zero. -/
def Value.number? : Value → Option Number
  | .bool b => some (.int (if b then 1 else 0))
  | .int i => some (.int i)
  | .float x => some (.float x)
  | _ => none

def Value.isNull : Value → Bool
  | .null => true
  | _ => false

/-- The name of the kind of an expression. -/
def Expr.kindName : Expr → String
  | .number _ => "Number"
  | .string _ => "String"
  | .boolean _ => "Boolean"
  | .variable _ => "Variable"
  | .arithmetic .. => "ArithmeticOperation"
  | .comparison .. => "ComparativeOperation"
  | .conditional .. => "Conditional"
  | .procedure .. => "Procedure"
  | .call .. => "ProcedureCall"
  | .definition .. => "Definition"
  | .effect .. => "Effect"
  -- the one expression that is not a single program
  | .block _ => "list"

def Value.kindName : Value → String
  | .null => "NoneType"
  | .bool _ => "bool"
  | .int _ => "int"
  | .float _ => "float"
  | .str _ => "str"
  | .list _ => "list"
  | .tuple _ => "tuple"
  | .map _ => "dict"
  | .set _ => "set"
  | .bytes _ => "bytes"
  | .date _ => "date"
  | .datetime _ => "datetime"
  | .undefined => "_UndefinedType"
  | .closure .. => "ProcedureClosure"
  | .node e => e.kindName
  | .literal _ => "Literal"
  | .env _ => "Environment"
  | .object _ => "SimpleNamespace"

/-- The name of the kind of a value with the name of the module it belongs to, if it has one. -/
def Value.qualifiedKindName : Value → String
  | .date _ => "datetime.date"
  | .datetime _ => "datetime.datetime"
  | .object _ => "types.SimpleNamespace"
  | v => v.kindName

/-- The value of an expression handled as data; a list of programs is a list of them. -/
def Value.ofExpr : Expr → Value
  | .block items => .list (ofItems items)
  | e => .node e
where
  ofItems : List Expr → List Value
    | [] => []
    | .block items :: rest => .list (ofItems items) :: ofItems rest
    | e :: rest => .node e :: ofItems rest

/-- Whether a value counts as true where a host asks for a truth value: nothing, the undefined mark,
zero, and what is empty do not. -/
def Value.truth : Value → Bool
  | .null => false
  | .bool b => b
  | .int i => i != 0
  -- what is not a number counts as true
  | .float x => !x.isZero
  | .str s => s != ""
  | .list items => !items.isEmpty
  | .tuple items => !items.isEmpty
  | .map entries => !entries.isEmpty
  | .set items => !items.isEmpty
  | .bytes bs => !bs.isEmpty
  | .undefined => false
  | .env bindings => !bindings.isEmpty
  | _ => true

end TreeScript
