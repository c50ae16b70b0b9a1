/-!
# Binary floating-point numbers

A `Binary64` is a number of the 64-bit binary interchange format: not a number, a signed infinity,
or `±mantissa · 2 ^ exponent`. Every operation is done exactly on natural numbers and integers and
rounded once by `Binary64.ofRatio`, to the nearest number of the format, a tie going to the even
mantissa. Nothing here depends on the machine's own floating point, so statements about numbers are
statements about integers.

What is not a number is equal to nothing, but two of them can be told apart by their labels, so that
it can be seen whether they have the same origin.

A finite number is kept in canonical form: the mantissa is below `2 ^ 53`, the exponent is at least
`-1074`, and a mantissa below `2 ^ 52` occurs only with the exponent `-1074`. So two finite numbers
are equal as data exactly when sign and value agree.
-/

namespace TreeScript

/-- A number of the binary64 format. -/
inductive Binary64 where
  /-- What is not a number, with a label that says where it comes from. -/
  | nan (label : Nat)
  /-- An infinity and whether it is the negative one. -/
  | infinite (negative : Bool)
  /-- The number `mantissa · 2 ^ exponent`, negated when `negative`. -/
  | finite (negative : Bool) (mantissa : Nat) (exponent : Int)
  deriving DecidableEq, Repr, Inhabited

/-- The quotient `num / den` rounded to the nearest natural number, a tie going to the even one. -/
def roundQuotient (num den : Nat) : Nat :=
  let quotient := num / den
  let rest := 2 * (num % den)
  if den < rest then quotient + 1
  else if rest = den then quotient + quotient % 2
  else quotient

namespace Binary64

/-- What an undefined operation gives. The results of undefined operations are not told apart. -/
def undefined : Binary64 := .nan 0

/-- The quotient of two zeros, and of what is not a number and zero. -/
def undefinedQuotient : Binary64 := .nan 1

/-- What is spelled as not a number in JSON. -/
def jsonNaN : Binary64 := .nan 2

/-- What is spelled as not a number in YAML. -/
def yamlNaN : Binary64 := .nan 3

/-- Whether two numbers are none, of the same origin. -/
def sameNaN : Binary64 → Binary64 → Bool
  | .nan a, .nan b => a == b
  | _, _ => false

/-- The least exponent of a finite number. -/
def minExponent : Int := -1074

/-- The greatest exponent of a finite number. -/
def maxExponent : Int := 971

/-- The number of binary digits of a normal mantissa. -/
def precision : Nat := 53

/-- The zero of the given sign. -/
def zero (negative : Bool) : Binary64 := .finite negative 0 minExponent

/-- The two parts of `num / den · 2 ^ (-shift)` as a quotient of natural numbers. -/
def scaleRatio (num den : Nat) (shift : Int) : Nat × Nat :=
  if 0 ≤ shift then (num, den * Nat.pow 2 shift.toNat)
  else (num * Nat.pow 2 (-shift).toNat, den)

/-- The integer `e` with `2 ^ e ≤ num / den < 2 ^ (e + 1)`, for positive `num` and `den`. -/
def ratioLog (num den : Nat) : Int :=
  let guess : Int := (Nat.log2 num : Int) - (Nat.log2 den : Int)
  let parts := scaleRatio num den guess
  -- the guess is one too large if the scaled quotient is below one
  if parts.1 < parts.2 then guess - 1 else guess

/-- Canonical form of a rounded mantissa: a carry out of the top digit moves the exponent, and an
exponent above the greatest one overflows to an infinity. -/
def settle (negative : Bool) (mantissa : Nat) (exponent : Int) : Binary64 :=
  let carried := decide (Nat.pow 2 precision ≤ mantissa)
  let m := if carried then mantissa / 2 else mantissa
  let e := if carried then exponent + 1 else exponent
  if maxExponent < e then .infinite negative else .finite negative m e

/-- The number nearest to `num / den`, negated when `negative`; `den` is positive. -/
def ofRatio (negative : Bool) (num den : Nat) : Binary64 :=
  if num = 0 then zero negative
  else
    -- a number near zero has the least exponent and fewer digits
    let exponent := max (ratioLog num den - 52) minExponent
    let parts := scaleRatio num den exponent
    settle negative (roundQuotient parts.1 parts.2) exponent

/-- The number nearest to `mantissa · 2 ^ exponent`. -/
def ofScaled (negative : Bool) (mantissa : Nat) (exponent : Int) : Binary64 :=
  if 0 ≤ exponent then ofRatio negative (mantissa * Nat.pow 2 exponent.toNat) 1
  else ofRatio negative mantissa (Nat.pow 2 (-exponent).toNat)

/-- The number nearest to an integer; an integer that is too large gives an infinity. -/
def nearestInt (i : Int) : Binary64 := ofRatio (i < 0) i.natAbs 1

/-- The number nearest to an integer, or nothing when the integer is too large. -/
def ofInt? (i : Int) : Option Binary64 :=
  match nearestInt i with
  | .finite n m e => some (.finite n m e)
  | _ => none

/-- The quotient of two integers, correctly rounded, or nothing when it is too large. The divisor
is not zero. A zero quotient is negative when the divisor is. -/
def ofQuotient? (a b : Int) : Option Binary64 :=
  match ofRatio (decide (a < 0) != decide (b < 0)) a.natAbs b.natAbs with
  | .finite n m e => some (.finite n m e)
  | _ => none

/-- Whether a number carries the minus sign; the sign of what is not a number does not count. -/
def isNegative : Binary64 → Bool
  | .nan _ => false
  | .infinite n => n
  | .finite n _ _ => n

/-- Whether a number is a zero of either sign. -/
def isZero : Binary64 → Bool
  | .finite _ m _ => m == 0
  | _ => false

/-- Whether this is the result of an undefined operation. -/
def isNaN : Binary64 → Bool
  | .nan _ => true
  | _ => false

/-- The number with the opposite sign. -/
def neg : Binary64 → Binary64
  | .nan label => .nan label
  | .infinite n => .infinite (!n)
  | .finite n m e => .finite (!n) m e

/-- The integer `±mantissa · 2 ^ (exponent - base)`, for a base not above the exponent. -/
def aligned (negative : Bool) (mantissa : Nat) (exponent base : Int) : Int :=
  let magnitude : Int := (mantissa * Nat.pow 2 (exponent - base).toNat : Nat)
  if negative then -magnitude else magnitude

/-- Sum, rounded once. A sum of finite numbers that is exactly zero is negative only when both
terms are. -/
def add : Binary64 → Binary64 → Binary64
  | .nan _, _ => undefined
  | _, .nan _ => undefined
  | .infinite a, .infinite b => if a = b then .infinite a else undefined
  | .infinite a, .finite .. => .infinite a
  | .finite .., .infinite b => .infinite b
  | .finite n m e, .finite n' m' e' =>
    -- both terms are integers in units of the smaller power of two
    let base := min e e'
    let total := aligned n m e base + aligned n' m' e' base
    if total = 0 then zero (n && n') else ofScaled (total < 0) total.natAbs base

def sub (a b : Binary64) : Binary64 := add a (neg b)

/-- Product, rounded once. -/
def mul : Binary64 → Binary64 → Binary64
  | .nan _, _ => undefined
  | _, .nan _ => undefined
  | .infinite a, .infinite b => .infinite (a != b)
  | .infinite a, .finite n m _ => if m = 0 then undefined else .infinite (a != n)
  | .finite n m _, .infinite b => if m = 0 then undefined else .infinite (n != b)
  | .finite n m e, .finite n' m' e' => ofScaled (n != n') (m * m') (e + e')

/-- Quotient by a divisor that is not zero, rounded once. -/
def div : Binary64 → Binary64 → Binary64
  | .nan _, _ => undefined
  | _, .nan _ => undefined
  | .infinite _, .infinite _ => undefined
  | .infinite a, .finite n _ _ => .infinite (a != n)
  | .finite n _ _, .infinite b => zero (n != b)
  | .finite n m e, .finite n' m' e' =>
    let shift := e - e'
    if 0 ≤ shift then ofRatio (n != n') (m * Nat.pow 2 shift.toNat) m'
    else ofRatio (n != n') m (m' * Nat.pow 2 (-shift).toNat)

/-- The order of two numbers, or nothing when one of them is not a number. -/
def compare? : Binary64 → Binary64 → Option Ordering
  | .nan _, _ => none
  | _, .nan _ => none
  | .infinite a, .infinite b => some (if a = b then .eq else if a then .lt else .gt)
  | .infinite a, .finite .. => some (if a then .lt else .gt)
  | .finite .., .infinite b => some (if b then .gt else .lt)
  | .finite n m e, .finite n' m' e' =>
    let base := min e e'
    some (compare (aligned n m e base) (aligned n' m' e' base))

/-- The order of an integer and a number, without rounding the integer. -/
def compareInt? (i : Int) : Binary64 → Option Ordering
  | .nan _ => none
  | .infinite b => some (if b then .gt else .lt)
  | .finite n m e =>
    let base := min e 0
    some (compare (i * Nat.pow 2 (-base).toNat) (aligned n m e base))

/-- The integer part of a finite number, rounded toward zero. -/
def truncate (negative : Bool) (mantissa : Nat) (exponent : Int) : Int :=
  let magnitude : Nat :=
    if 0 ≤ exponent then mantissa * Nat.pow 2 exponent.toNat
    else mantissa / Nat.pow 2 (-exponent).toNat
  if negative then -(magnitude : Int) else magnitude

/-- The integer a finite number is equal to, if it is one. -/
def toInt? : Binary64 → Option Int
  | .finite n m e =>
    if 0 ≤ e ∨ m % Nat.pow 2 (-e).toNat = 0 then some (truncate n m e) else none
  | _ => none

end Binary64

end TreeScript
