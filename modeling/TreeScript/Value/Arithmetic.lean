import TreeScript.Value.Bindings

/-!
# Arithmetic

The arithmetic operators on values. Integers are exact; as soon as one operand is a binary64 number
the other is converted, which fails for an integer beyond its range. Truth values count as one and
zero. Texts, lists, tuples and bytes can be joined with their own kind and repeated by an integer.

Division is the exception to failure: a zero divisor gives an infinity, or not-a-number where the
dividend is zero or not a number itself.
-/

namespace TreeScript

def tooLargeMessage : String := "int too large to convert to float"

/-- The binary64 number nearest to a number, which has to be in range. -/
def Number.toFloat : Number → Result Binary64
  | .int i =>
    match Binary64.ofInt? i with
    | some x => pure x
    | none => throw (.overflow tooLargeMessage)
  | .float x => pure x

/-- Combines two numbers exactly if both are integers, else as binary64 numbers. -/
def Number.combine (onInts : Int → Int → Int) (onFloats : Binary64 → Binary64 → Binary64) :
    Number → Number → Result Value
  | .int a, .int b => pure (.int (onInts a b))
  | a, b => do
    let x ← a.toFloat
    let y ← b.toFloat
    pure (.float (onFloats x y))

/-- The failure of an operator on two kinds that it does not apply to. -/
def unsupported (op : ArithmeticOp) (a b : Value) : Failure :=
  .type (.operands op.symbol a.qualifiedKindName b.qualifiedKindName)

/-- The sum of two values, or one after the other. -/
def Value.add (a b : Value) : Result Value :=
  match a, b with
  | .str s, .str t => pure (.str (s ++ t))
  | .str _, _ => throw (.type (.concatenation "str" b.qualifiedKindName))
  | .list as, .list bs => pure (.list (as ++ bs))
  | .list _, _ => throw (.type (.concatenation "list" b.qualifiedKindName))
  | .tuple as, .tuple bs => pure (.tuple (as ++ bs))
  | .tuple _, _ => throw (.type (.concatenation "tuple" b.qualifiedKindName))
  | .bytes as, .bytes bs => pure (.bytes (as ++ bs))
  | .bytes _, _ => throw (.type (.byteConcatenation b.qualifiedKindName))
  -- a sequence on the left words its own refusal; all else is a matter of numbers
  | _, _ =>
    match a.number?, b.number? with
    | some x, some y => Number.combine (· + ·) Binary64.add x y
    | _, _ => throw (unsupported .add a b)

/-- A difference. That of two dates would be a length of time, which is no value here, and is
refused as other misfits are. -/
def Value.sub (a b : Value) : Result Value :=
  match a, b with
  | .set as, .set bs => pure (.set (as.filter fun x => !bs.any (Value.alike x)))
  | _, _ =>
    match a.number?, b.number? with
    | some x, some y => Number.combine (· - ·) Binary64.sub x y
    | _, _ => throw (unsupported .sub a b)

/-- The largest number of elements that can be counted. -/
def maxCount : Int := 9223372036854775807

/-- The largest number of elements that fit into memory. -/
def memoryCount : Int := 1000000000000

/-- How often to repeat a sequence of some length; not at all if the count is negative. -/
def repeatCount (overlong : Failure) (length : Nat) (count : Int) : Result Nat :=
  -- the count is refused before the length is looked at, even for an empty sequence
  if count > maxCount || count < -maxCount - 1 then
    throw (.overflow "cannot fit 'int' into an index-sized integer")
  else if count ≤ 0 || length == 0 then pure 0
  else if length * count > maxCount then throw overlong
  else if length * count > memoryCount then throw (.raised "MemoryError" "")
  else pure count.toNat

def repeated {α : Type} (count : Nat) (items : List α) : List α :=
  (List.replicate count items).flatten

/-- A sequence repeated by a count, or nothing if the value is no sequence. -/
def Value.repeat? (v : Value) (count : Int) : Option (Result Value) :=
  match v with
  | .str s => some do
    let n ← repeatCount (.overflow "repeated string is too long") s.length count
    pure (.str (String.ofList (repeated n s.toList)))
  | .list items => some do
    let n ← repeatCount (.raised "MemoryError" "") items.length count
    pure (.list (repeated n items))
  | .tuple items => some do
    let n ← repeatCount (.raised "MemoryError" "") items.length count
    pure (.tuple (repeated n items))
  | .bytes bs => some do
    let n ← repeatCount (.overflow "repeated bytes are too long") bs.length count
    pure (.bytes (repeated n bs))
  | _ => none

/-- The integer that a value counts as, if it is one. -/
def Value.integer? : Value → Option Int
  | .int i => some i
  | .bool b => some (if b then 1 else 0)
  | _ => none

def Value.isSequence : Value → Bool
  | .str _ | .list _ | .tuple _ | .bytes _ => true
  | _ => false

/-- The product of a sequence and a count. -/
def Value.times (sequence count : Value) : Result Value :=
  match count.integer? with
  | some n => (sequence.repeat? n).getD (throw (unsupported .mul sequence count))
  | none => throw (.type (.repetition count.qualifiedKindName))

/-- The product of two values, or a sequence repeated. -/
def Value.mul (a b : Value) : Result Value :=
  match a.number?, b.number? with
  | some x, some y => Number.combine (· * ·) Binary64.mul x y
  | _, _ =>
    if a.isSequence then a.times b
    else if b.isSequence then b.times a
    else throw (unsupported .mul a b)

/-- The quotient of two integers of which the divisor is not zero. -/
def quotient (a b : Int) : Result Value :=
  match Binary64.ofQuotient? a b with
  | some x => pure (.float x)
  | none => throw (.overflow "integer division result too large for a float")

/-- The number that a value is, as binary64. -/
def Value.real (v : Value) : Result Binary64 :=
  match v.number? with
  | some n => n.toFloat
  | none => throw (.type (.notReal v.qualifiedKindName))

/-- The quotient of a value and zero. -/
def Value.divZero (a b : Value) : Result Value :=
  let isNone := match a with
    | .float x => x.isNaN
    | _ => false
  -- zero of every kind is equal to the integer zero
  if isNone || Value.equal a (.int 0) then pure (.float .undefinedQuotient)
  else do
    let x ← a.real
    let y ← b.real
    pure (.float (.infinite (x.isNegative != y.isNegative)))

/-- A quotient (`_divide`): by zero it is infinite or undefined, and that of integers is rounded
once.
-/
def Value.div (a b : Value) : Result Value :=
  if Value.equal b (.int 0) then a.divZero b
  else
    match a.number?, b.number? with
    | some (.int x), some (.int y) => quotient x y
    | some x, some y => do
      let p ← x.toFloat
      let q ← y.toFloat
      pure (.float (p.div q))
    | _, _ => throw (unsupported .div a b)

/-- What an arithmetic operator makes of two values. -/
def ArithmeticOp.apply : ArithmeticOp → Value → Value → Result Value
  | .add => Value.add
  | .sub => Value.sub
  | .mul => Value.mul
  | .div => Value.div

end TreeScript
