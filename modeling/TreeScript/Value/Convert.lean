import TreeScript.Value.Arithmetic
import TreeScript.Value.Display

/-!
# Conversion to numbers

Which values convert to an integer or to a binary64 number: numbers and truth values, and texts and
bytes that spell one.
-/

namespace TreeScript

/-- How much of a text that spells no integer is shown. -/
def shownLength : Nat := 200

/-- The refusal of a text that spells no integer, given as it is shown. -/
def notSpelledInt (base : Nat) (shown : String) : Failure :=
  let start := String.ofList (shown.toList.take shownLength)
  .value s!"invalid literal for int() with base {base}: {start}"

/-- The integer that a text spells in a base. -/
def intOfText (base : Nat) (s : String) : Result Int :=
  match readIntBase? base s.toList with
  | some i => pure i
  | none => throw (notSpelledInt base (Text.quoted s))

/-- The binary64 number that a text spells. -/
def floatOfText (s : String) : Result Binary64 :=
  match readBinary64? s.toList with
  | some x => pure x
  | none => throw (.value s!"could not convert string to float: {Text.quoted s}")

def charsOfBytes (bs : List UInt8) : List Char := bs.map fun b => Char.ofNat b.toNat

/-- Reads a number from bytes, which spell one in ASCII only. -/
def readAscii? {α : Type} (read? : List Char → Option α) (bs : List UInt8) : Option α :=
  if bs.all (· < 128) then read? (charsOfBytes bs) else none

/-- The integer that a value converts to. A fraction is cut off. -/
def Value.toInt : Value → Result Int
  | .bool b => pure (if b then 1 else 0)
  | .int i => pure i
  | .float x =>
    match x with
    | .nan _ => throw (.value "cannot convert float NaN to integer")
    | .infinite _ => throw (.overflow "cannot convert float infinity to integer")
    | .finite negative mantissa exponent => pure (Binary64.truncate negative mantissa exponent)
  | .str s => intOfText 10 s
  | .bytes bs =>
    match readAscii? readInt? bs with
    | some i => pure i
    | none => throw (notSpelledInt 10 (Text.quotedBytes (bs.take shownLength)))
  | v => throw (.type (.notInteger v.qualifiedKindName))

def Value.toFloat : Value → Result Binary64
  | .bool b => pure (Binary64.nearestInt (if b then 1 else 0))
  | .int i => Number.toFloat (.int i)
  | .float x => pure x
  | .str s => floatOfText s
  | .bytes bs =>
    match readAscii? readBinary64? bs with
    | some x => pure x
    | none => throw (.value s!"could not convert string to float: {Text.quotedBytes bs}")
  | v => throw (.type (.notFloat v.qualifiedKindName))

end TreeScript
