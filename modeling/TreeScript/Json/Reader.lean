import TreeScript.Number.Decimal
import TreeScript.Text.Hex
import TreeScript.Value.Bindings

/-!
# Reading JSON

`Json.read?` is the value of a JSON text. Beside JSON proper it accepts the numbers `NaN`,
`Infinity` and `-Infinity`. Numbers without fraction and exponent are integers of any size. A
repeated key keeps its first place and its last value.

The readers work on the list of characters and return what is left. The nesting is bounded by a fuel
argument for which the length of the text is enough, since every level of nesting takes a character.
-/

namespace TreeScript.Json

/-- Whether a character may stand between the parts of a JSON text. -/
def isSpace (c : Char) : Bool := c == ' ' || c == '\t' || c == '\n' || c == '\r'

/-- The text after leading space. -/
def skipSpace (cs : List Char) : List Char := cs.dropWhile isSpace

/-- The number that four hexadecimal digits denote, with the text after them. -/
def readUnit? (cs : List Char) : Option (Nat × List Char) :=
  let digits := cs.take 4
  if digits.length < 4 then none else (Text.ofHex? digits).map fun unit => (unit, cs.drop 4)

/-- The second unit of a surrogate pair, with the text after it, if there is one. -/
def readLowUnit? : List Char → Option (Nat × List Char)
  | '\\' :: 'u' :: rest => do
    let (unit, rest) ← readUnit? rest
    if 0xdc00 ≤ unit && unit ≤ 0xdfff then some (unit, rest) else none
  | _ => none

/-- The character of an escape by UTF-16 units, after its first `\u`. Two escapes of a surrogate
pair are one character. -/
def readUnits? (cs : List Char) : Option (Char × List Char) := do
  let (unit, rest) ← readUnit? cs
  if 0xd800 ≤ unit && unit ≤ 0xdbff then
    match readLowUnit? rest with
    | some (low, rest) =>
      some (Char.ofNat (0x10000 + (unit - 0xd800) * 0x400 + (low - 0xdc00)), rest)
    -- a unit without its partner is no character: `Char.ofNat` makes it the null character
    | none => some (Char.ofNat unit, rest)
  else some (Char.ofNat unit, rest)

/-- The character that a letter after a backslash stands for. -/
def simpleEscape? : Char → Option Char
  | '"' => some '"'
  | '\\' => some '\\'
  | '/' => some '/'
  | 'b' => some '\x08'
  | 'f' => some '\x0c'
  | 'n' => some '\n'
  | 'r' => some '\r'
  | 't' => some '\t'
  | _ => none

/-- The characters of a JSON string after its opening quote, with the text after the closing one.
Control characters have to be escaped. -/
def readChars? : Nat → List Char → Option (List Char × List Char)
  | 0, _ => none
  | _ + 1, [] => none
  | _ + 1, '"' :: rest => some ([], rest)
  | fuel + 1, '\\' :: 'u' :: rest => do
    let (c, rest) ← readUnits? rest
    let (cs, rest) ← readChars? fuel rest
    pure (c :: cs, rest)
  | fuel + 1, '\\' :: e :: rest => do
    let c ← simpleEscape? e
    let (cs, rest) ← readChars? fuel rest
    pure (c :: cs, rest)
  | fuel + 1, c :: rest =>
    -- a backslash at the end, or a control character
    if c == '\\' || c.toNat < 0x20 then none
    else do
      let (cs, rest) ← readChars? fuel rest
      pure (c :: cs, rest)

/-- A JSON string after its opening quote. -/
def readString? (cs : List Char) : Option (String × List Char) := do
  let (chars, rest) ← readChars? (cs.length + 1) cs
  pure (String.ofList chars, rest)

/-- The leading ASCII digits of a text, with the text after them. -/
def takeDigits (cs : List Char) : List Nat × List Char :=
  ((cs.takeWhile Char.isDigit).map (fun c => c.toNat - 48), cs.dropWhile Char.isDigit)

/-- The digits after a point, with the text after them, if there are any. -/
def readFraction? : List Char → Option (List Nat × List Char)
  | '.' :: rest =>
    match takeDigits rest with
    | ([], _) => none
    | found => some found
  | _ => none

/-- The sign before the digits of an exponent, with the text after it. -/
def exponentSign : List Char → Bool × List Char
  | '-' :: rest => (true, rest)
  | '+' :: rest => (false, rest)
  | rest => (false, rest)

/-- An exponent, with the text after it, if there is one. -/
def readExponent? : List Char → Option (Int × List Char)
  | c :: rest =>
    if c == 'e' || c == 'E' then
      let (negative, digits) := exponentSign rest
      match takeDigits digits with
      | ([], _) => none
      | (ds, rest) => some (if negative then -(ofDigits ds : Int) else ofDigits ds, rest)
    else none
  | [] => none

/-- The digits before the point, with the text after them: a zero ends them. -/
def readWhole? : List Char → Option (List Nat × List Char)
  | '0' :: rest => some ([0], rest)
  | cs =>
    match takeDigits cs with
    | ([], _) => none
    | found => some found

/-- A number after its sign. -/
def readUnsigned? (negative : Bool) (cs : List Char) : Option (Value × List Char) := do
  let (whole, rest) ← readWhole? cs
  let fraction := readFraction? rest
  let rest := (fraction.map Prod.snd).getD rest
  let exponent := readExponent? rest
  let rest := (exponent.map Prod.snd).getD rest
  -- only digits make an integer
  if fraction.isNone && exponent.isNone then
    some (.int (if negative then -(ofDigits whole : Int) else ofDigits whole), rest)
  else
    let digits := (fraction.map Prod.fst).getD []
    let power := (exponent.map Prod.fst).getD 0
    some (.float (Binary64.ofParts negative whole digits power), rest)

/-- A word that stands for a value, with the text after it. -/
def readWord? (cs : List Char) : Option (Value × List Char) :=
  match cs with
  | 'n' :: 'u' :: 'l' :: 'l' :: rest => some (.null, rest)
  | 't' :: 'r' :: 'u' :: 'e' :: rest => some (.bool true, rest)
  | 'f' :: 'a' :: 'l' :: 's' :: 'e' :: rest => some (.bool false, rest)
  | 'N' :: 'a' :: 'N' :: rest => some (.float .jsonNaN, rest)
  | 'I' :: 'n' :: 'f' :: 'i' :: 'n' :: 'i' :: 't' :: 'y' :: rest =>
    some (.float (.infinite false), rest)
  | '-' :: 'I' :: 'n' :: 'f' :: 'i' :: 'n' :: 'i' :: 't' :: 'y' :: rest =>
    some (.float (.infinite true), rest)
  | '-' :: rest => readUnsigned? true rest
  | _ => readUnsigned? false cs

mutual

/-- The value at the start of a text, with the text after it. -/
def readValue? : Nat → List Char → Option (Value × List Char)
  | 0, _ => none
  | fuel + 1, cs =>
    match cs with
    | '"' :: rest => do
      let (s, rest) ← readString? rest
      pure (.str s, rest)
    | '[' :: rest =>
      match skipSpace rest with
      | ']' :: rest => some (.list [], rest)
      | rest => do
        let (items, rest) ← readItems? fuel rest
        pure (.list items, rest)
    | '\x7b' :: rest =>
      match skipSpace rest with
      | '\x7d' :: rest => some (.map [], rest)
      | rest => do
        let (entries, rest) ← readEntries? fuel rest
        pure (.map (Bindings.ofPairs entries), rest)
    | _ => readWord? cs

/-- The elements of a list up to its closing bracket, with the text after it. -/
def readItems? : Nat → List Char → Option (List Value × List Char)
  | 0, _ => none
  | fuel + 1, cs => do
    let (v, rest) ← readValue? fuel cs
    match skipSpace rest with
    | ']' :: rest => some ([v], rest)
    | ',' :: rest => do
      let (vs, rest) ← readItems? fuel (skipSpace rest)
      pure (v :: vs, rest)
    | _ => none

/-- The entries of a map up to its closing brace, with the text after it. -/
def readEntries? : Nat → List Char → Option (List (Value × Value) × List Char)
  | 0, _ => none
  | fuel + 1, cs =>
    match cs with
    | '"' :: rest => do
      let (key, rest) ← readString? rest
      match skipSpace rest with
      | ':' :: rest => do
        let (v, rest) ← readValue? fuel (skipSpace rest)
        match skipSpace rest with
        | '\x7d' :: rest => some ([(.str key, v)], rest)
        | ',' :: rest => do
          let (entries, rest) ← readEntries? fuel (skipSpace rest)
          pure ((.str key, v) :: entries, rest)
        | _ => none
      | _ => none
    | _ => none

end

/-- The value of a JSON text. -/
def read? (text : String) : Option Value := do
  let cs := skipSpace text.toList
  let (v, rest) ← readValue? (2 * cs.length + 2) cs
  if (skipSpace rest).isEmpty then some v else none

end TreeScript.Json
