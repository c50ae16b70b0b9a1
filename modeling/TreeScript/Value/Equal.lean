import TreeScript.Value.Basic

/-!
# Equality of values

Two numbers are equal when they denote the same real number, whatever their kinds, and truth values
count as one and zero. Maps, environments and sets are equal when they hold equal things, in
whatever order. A value that is not a number is only equal to values of its own kind.

Parts of values are compared by `Value.alike`, which also holds between numbers that are none and
have the same origin, although these are not equal. So a list is equal to itself whatever it holds.
Keys of maps are compared in this way too, so `1`, `1.0` and `true` are one key.
-/

namespace TreeScript

/-- How two numbers compare; nothing compares with what is not a number. -/
def Number.compare? : Number → Number → Option Ordering
  | .int a, .int b => some (compare a b)
  | .int a, .float y => Binary64.compareInt? a y
  | .float x, .int b => (Binary64.compareInt? b x).map Ordering.swap
  | .float x, .float y => Binary64.compare? x y

def Number.equal (a b : Number) : Bool := Number.compare? a b == some .eq

/-- Whether two numbers are none, of the same origin. -/
def Number.sameNaN : Number → Number → Bool
  | .float x, .float y => Binary64.sameNaN x y
  | _, _ => false

/-- Whether two values are numbers that are none, of the same origin. -/
def Value.sameNaN : Value → Value → Bool
  | .float x, .float y => Binary64.sameNaN x y
  | _, _ => false

/-- Whether a value is a number equal to a given one. -/
def Number.equalValue (a : Number) (v : Value) : Bool :=
  match v.number? with
  | some b => a.equal b
  | none => false

mutual

def Value.equal : Value → Value → Bool
  | .null, .null => true
  | .bool a, b => Number.equalValue (.int (if a then 1 else 0)) b
  | .int a, b => Number.equalValue (.int a) b
  | .float a, b => Number.equalValue (.float a) b
  | .str a, .str b => a == b
  | .list as, .list bs => equalItems as bs
  | .tuple as, .tuple bs => equalItems as bs
  | .map as, .map bs => as.length == bs.length && entriesWithin as bs
  -- a map and an environment with the same entries are equal
  | .map as, .env bs => as.length == bs.length && entriesWithin as bs
  | .env as, .map bs => as.length == bs.length && entriesWithin as bs
  | .env as, .env bs => as.length == bs.length && entriesWithin as bs
  | .object as, .object bs => as.length == bs.length && entriesWithin as bs
  | .set as, .set bs => as.length == bs.length && itemsWithin as bs
  | .bytes as, .bytes bs => as == bs
  | .date a, .date b => a == b
  | .datetime a, .datetime b => DateTime.same a b
  | .undefined, .undefined => true
  -- closures are compared by their procedures, never by their scopes
  | .closure _ is e, .closure _ js f => is == js && Expr.equal e f
  | .node e, .node f => Expr.equal e f
  | .literal a, .literal b => Value.equal a b
  | _, _ => false
termination_by structural v => v

/-- Whether two lists are equal element by element. -/
def equalItems : List Value → List Value → Bool
  | [], [] => true
  | a :: as, b :: bs => (Value.sameNaN a b || Value.equal a b) && equalItems as bs
  | _, _ => false
termination_by structural vs => vs

/-- Whether every element of the first list is equal to one of the second. -/
def itemsWithin : List Value → List Value → Bool
  | [], _ => true
  | a :: as, bs => bs.any (fun b => Value.sameNaN a b || Value.equal a b) && itemsWithin as bs
termination_by structural vs => vs

/-- Whether every entry of the first map is equal to one of the second. -/
def entriesWithin : List (Value × Value) → List (Value × Value) → Bool
  | [], _ => true
  | (k, v) :: rest, bs =>
    bs.any (fun b => (Value.sameNaN k b.1 || Value.equal k b.1) &&
      (Value.sameNaN v b.2 || Value.equal v b.2)) && entriesWithin rest bs
termination_by structural es => es

/-- Whether two programs are equal: of the same kind with equal parts. -/
def Expr.equal : Expr → Expr → Bool
  | .number a, .number b => a.sameNaN b || a.equal b
  | .string a, .string b => a == b
  | .boolean a, .boolean b => a == b
  | .variable a, .variable b => a == b
  | .arithmetic o as, .arithmetic p bs => o == p && equalExprs as bs
  | .comparison o as, .comparison p bs => o == p && equalExprs as bs
  | .conditional a b c, .conditional d e f => Expr.equal a d && Expr.equal b e && Expr.equal c f
  | .procedure is e, .procedure js f => is == js && Expr.equal e f
  | .call e as, .call f bs => Expr.equal e f && equalExprs as bs
  | .definition k e, .definition l f => k == l && Expr.equal e f
  | .effect n as x e, .effect m bs y f =>
    n == m && as.length == bs.length && argsWithin as bs && x == y && equalNext e f
  | .block as, .block bs => equalExprs as bs
  | _, _ => false
termination_by structural e => e

def equalExprs : List Expr → List Expr → Bool
  | [], [] => true
  | a :: as, b :: bs => Expr.equal a b && equalExprs as bs
  | _, _ => false
termination_by structural es => es

def equalNext : Option Expr → Option Expr → Bool
  | none, none => true
  | some e, some f => Expr.equal e f
  | _, _ => false
termination_by structural e => e

/-- Whether every argument of the first list is equal to one of the second. -/
def argsWithin : List (Value × Arg) → List (Value × Arg) → Bool
  | [], _ => true
  | (k, a) :: rest, bs =>
    bs.any (fun b => Value.equal k b.1 && Arg.equal a b.2) && argsWithin rest bs
termination_by structural as => as

def Arg.equal : Arg → Arg → Bool
  | .literal a, .literal b => Value.sameNaN a b || Value.equal a b
  | .expr e, .expr f => Expr.equal e f
  | _, _ => false
termination_by structural a => a

end

/-- Whether two values count as equal where they are parts of others. -/
def Value.alike (a b : Value) : Bool := Value.sameNaN a b || Value.equal a b

end TreeScript
