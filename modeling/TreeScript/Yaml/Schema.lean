import TreeScript.Calendar
import TreeScript.Number.Decimal
import TreeScript.Text.Hex
import TreeScript.Text.Lines

/-!
# Tags and plain scalars

Every YAML node has a tag. That of a scalar without quotes is found from its text: `null`, truth
values in several spellings, integers in four bases and in base sixty, numbers with a point, days
and times. All other texts are texts.

The tests come in a fixed order, but no text passes two of them that differ.
-/

namespace TreeScript.Yaml

/-- The tag of a node. -/
inductive Tag where
  | null
  | bool
  | int
  | float
  | timestamp
  /-- The key under which the entries of other mappings are taken in. -/
  | merge
  /-- The key of the default value of a mapping. -/
  | value
  | str
  | seq
  | map
  | binary
  /-- A list of pairs with keys that differ. -/
  | omap
  | pairs
  | set
  /-- The tag of a collection that stands inside of itself. -/
  | within
  /-- Any other tag. -/
  | other
  deriving DecidableEq, Repr, Inhabited

def Tag.ofName : String → Tag
  | "tag:yaml.org,2002:null" => .null
  | "tag:yaml.org,2002:bool" => .bool
  | "tag:yaml.org,2002:int" => .int
  | "tag:yaml.org,2002:float" => .float
  | "tag:yaml.org,2002:timestamp" => .timestamp
  | "tag:yaml.org,2002:merge" => .merge
  | "tag:yaml.org,2002:value" => .value
  | "tag:yaml.org,2002:str" => .str
  | "tag:yaml.org,2002:seq" => .seq
  | "tag:yaml.org,2002:map" => .map
  | "tag:yaml.org,2002:binary" => .binary
  | "tag:yaml.org,2002:omap" => .omap
  | "tag:yaml.org,2002:pairs" => .pairs
  | "tag:yaml.org,2002:set" => .set
  | _ => .other

namespace Plain

/-- The text after a sign, if there is one. -/
def afterSign : List Char → List Char
  | '-' :: rest => rest
  | '+' :: rest => rest
  | rest => rest

/-- Whether a character is a digit or an underscore. -/
def isDigitOrLine (c : Char) : Bool := c.isDigit || c == '_'

/-- Whether a text is not empty and all of its characters satisfy a test. -/
def allOf (test : Char → Bool) (cs : List Char) : Bool := !cs.isEmpty && cs.all test

/-- Whether a text is a digit, maybe after one below six: a part of a number in base sixty. -/
def isSixtieth : List Char → Bool
  | [a] => a.isDigit
  | [a, b] => a.isDigit && a < '6' && b.isDigit
  | _ => false

/-- Whether a text is a number of digits, then parts in base sixty after colons. -/
def isSexagesimal (leading : List Char → Bool) (cs : List Char) : Bool :=
  match Text.parts ':' cs with
  | first :: second :: rest => leading first && (second :: rest).all isSixtieth
  | _ => false

/-- Whether a text is a digit other than zero, then digits and underscores. -/
def isDecimal : List Char → Bool
  | c :: rest => c.isDigit && c != '0' && rest.all isDigitOrLine
  | [] => false

/-- Whether a text is a digit, then digits and underscores. -/
def isDigits : List Char → Bool
  | c :: rest => c.isDigit && rest.all isDigitOrLine
  | [] => false

def isInt (cs : List Char) : Bool :=
  let body := afterSign cs
  match body with
  | ['0'] => true
  -- the bases by their marks; after a bare zero the digits are octal
  | '0' :: 'b' :: rest => allOf (fun c => c == '0' || c == '1' || c == '_') rest
  | '0' :: 'x' :: rest => allOf (fun c => (Text.hexValue? c).isSome || c == '_') rest
  | '0' :: rest => allOf (fun c => ('0' ≤ c && c ≤ '7') || c == '_') rest
  | _ => isDecimal body || isSexagesimal isDecimal body

/-- Whether a text is an exponent with a sign, or nothing. -/
def isExponent : List Char → Bool
  | [] => true
  | e :: sign :: digits =>
    (e == 'e' || e == 'E') && (sign == '+' || sign == '-') && allOf Char.isDigit digits
  | _ => false

/-- Whether a text is what may follow the point of a number. -/
def isFraction (cs : List Char) : Bool := isExponent (cs.dropWhile isDigitOrLine)

def isFloat (cs : List Char) : Bool :=
  let body := afterSign cs
  let whole := body.takeWhile (· != '.')
  match body.dropWhile (· != '.') with
  | '.' :: rest =>
    (isDigits whole && isFraction rest) ||
      -- a number that starts with its point has no sign
      (cs.head? == some '.' && isDigits (rest.take 1) && isFraction rest) ||
      (isSexagesimal isDigits whole && rest.all isDigitOrLine) ||
      (whole.isEmpty && ["inf", "Inf", "INF"].contains (String.ofList rest)) ||
      (cs.head? == some '.' && ["nan", "NaN", "NAN"].contains (String.ofList rest))
  | _ => false

def boolTexts : List String :=
  ["yes", "Yes", "YES", "no", "No", "NO", "true", "True", "TRUE", "false", "False", "FALSE",
    "on", "On", "ON", "off", "Off", "OFF"]

def nullTexts : List String := ["~", "null", "Null", "NULL", ""]

end Plain

/-- The fields of a time as they are written. -/
structure Stamp where
  year : List Char
  month : List Char
  day : List Char
  /-- The digits of hour, minute and second, and of the fraction of a second. -/
  time : Option (List Char × List Char × List Char × List Char)
  /-- The sign and the digits of hours and minutes of the offset; no digits for universal time. -/
  zone : Option (Char × List Char × List Char)

namespace Stamp

/-- The leading digits, at most so many, with what is left. -/
def digitsUpTo (n : Nat) (cs : List Char) : List Char × List Char :=
  let digits := (cs.take n).takeWhile Char.isDigit
  (digits, cs.drop digits.length)

/-- A number of digits that has to be between two bounds, with what is left. -/
def digits? (least most : Nat) (cs : List Char) : Option (List Char × List Char) :=
  let (digits, rest) := digitsUpTo most cs
  if digits.length < least then none else some (digits, rest)

/-- What is left after a character that has to be there. -/
def after? (c : Char) : List Char → Option (List Char)
  | d :: rest => if c == d then some rest else none
  | [] => none

/-- Whether a character is a space or a tab. -/
def isSpace (c : Char) : Bool := c == ' ' || c == '\t'

/-- An offset at the end of a time. -/
def zone? (cs : List Char) : Option (Option (Char × List Char × List Char)) :=
  if cs.isEmpty then some none
  else
    match cs.dropWhile isSpace with
    | ['Z'] => some (some ('Z', [], []))
    | sign :: rest =>
      if sign == '+' || sign == '-' then do
        let (hours, rest) ← digits? 1 2 rest
        match rest with
        | [] => some (some (sign, hours, []))
        | ':' :: rest => do
          let (minutes, rest) ← digits? 2 2 rest
          if rest.isEmpty then some (some (sign, hours, minutes)) else none
        | _ => none
      else none
    | [] => none

/-- What is left after that which separates the day from the time. -/
def afterDay? : List Char → Option (List Char)
  | c :: rest =>
    if c == 'T' || c == 't' then some rest
    else if isSpace c then some (rest.dropWhile isSpace)
    else none
  | [] => none

/-- The digits of a fraction, with what is left; none if there is no point. -/
def fraction : List Char → List Char × List Char
  | '.' :: rest => (rest.takeWhile Char.isDigit, rest.dropWhile Char.isDigit)
  | rest => ([], rest)

/-- The fields of a day or a time. -/
def read? (cs : List Char) : Option Stamp := do
  let (year, rest) ← digits? 4 4 cs
  let rest ← after? '-' rest
  let (month, rest) ← digits? 1 2 rest
  let rest ← after? '-' rest
  let (day, rest) ← digits? 1 2 rest
  if rest.isEmpty then some ⟨year, month, day, none, none⟩
  else do
    let rest ← afterDay? rest
    let (hour, rest) ← digits? 1 2 rest
    let rest ← after? ':' rest
    let (minute, rest) ← digits? 2 2 rest
    let rest ← after? ':' rest
    let (second, rest) ← digits? 2 2 rest
    let (fraction, rest) := fraction rest
    let zone ← zone? rest
    some ⟨year, month, day, some (hour, minute, second, fraction), zone⟩

/-- Whether the fields are recognised without a tag: a day alone needs two digits for month and day.
-/
def isPlain (s : Stamp) : Bool := s.time.isSome || (s.month.length == 2 && s.day.length == 2)

end Stamp

/-- The text without a line end at its end. -/
def withoutLastBreak (cs : List Char) : List Char :=
  if cs.getLast? == some '\n' then cs.dropLast else cs

/-- The tag of a scalar without quotes and without a written tag. -/
def Tag.ofPlain (text : String) : Tag :=
  let cs := withoutLastBreak text.toList
  let s := String.ofList cs
  if Plain.boolTexts.contains s then .bool
  else if Plain.isFloat cs then .float
  else if Plain.isInt cs then .int
  else if s == "<<" then .merge
  else if Plain.nullTexts.contains s && (text == "" || s != "") then .null
  else if ((Stamp.read? cs).map Stamp.isPlain).getD false then .timestamp
  else if s == "=" then .value
  else if ["!", "&", "*"].contains s then .other
  else .str

end TreeScript.Yaml
