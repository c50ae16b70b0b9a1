import TreeScript.Json.Reader
import TreeScript.Text.Blank
import TreeScript.Text.Casing
import TreeScript.Value.Elements

/-!
# Answers of a model

A model answers in text. A program can say what it expects, and the text is converted as far as it
goes: to the number that it starts with or that is found in it, to a truth value, or to the first
JSON collection in it. Where nothing fits the text itself is the answer.
-/

namespace TreeScript.Model

/-! ## The first collection in a text -/

/-- Whether a character opens a collection. -/
def isOpening (c : Char) : Bool := c == '\x7b' || c == '['

/-- Whether a character closes a collection. -/
def isClosing (c : Char) : Bool := c == '\x7d' || c == ']'

/-- The character that closes what another one opens. -/
def closingOf (c : Char) : Char := if c == '\x7b' then '\x7d' else ']'

/-- Where a bracket scan is. -/
inductive Quoting where
  /-- Outside of quotes. -/
  | outside
  /-- Between quotes. -/
  | inside
  /-- Between quotes, after a backslash. -/
  | escaped
  deriving DecidableEq, Repr

/-- The text up to where its brackets are balanced, if they ever are; `expected` are the characters
that close the open brackets, innermost first. Brackets between double quotes do not count. -/
def balancedFrom : List Char → Quoting → List Char → Option (List Char)
  | _, _, [] => none
  | expected, .escaped, c :: rest => (balancedFrom expected .inside rest).map (c :: ·)
  | expected, .inside, c :: rest =>
    let next : Quoting := if c == '\\' then .escaped else if c == '"' then .outside else .inside
    (balancedFrom expected next rest).map (c :: ·)
  | expected, .outside, c :: rest =>
    if c == '"' then (balancedFrom expected .inside rest).map (c :: ·)
    else if isOpening c then (balancedFrom (closingOf c :: expected) .outside rest).map (c :: ·)
    else if isClosing c then
      match expected with
      | [] => none
      | d :: others =>
        if c != d then none
        else if others.isEmpty then some [c]
        else (balancedFrom others .outside rest).map (c :: ·)
    else (balancedFrom expected .outside rest).map (c :: ·)

/-- The text from its first opening bracket to where its brackets are balanced
(`_first_balanced`). -/
def firstBalanced? (text : String) : Option String :=
  let rest := text.toList.dropWhile fun c => !isOpening c
  (balancedFrom [] .outside rest).map String.ofList

/-! ## Numbers -/

/-- The leading digits of a text, of any script, and the text after them. -/
def spanDigits (cs : List Char) : List Char × List Char := cs.span Text.isDigit

/-- The leading sign of a text, and the text after it. -/
def spanSign : List Char → List Char × List Char
  | '+' :: rest => (['+'], rest)
  | '-' :: rest => (['-'], rest)
  | rest => ([], rest)

/-- A leading exponent, empty if there is none. -/
def exponentPrefix (cs : List Char) : List Char :=
  match cs with
  | c :: rest =>
    if c == 'e' || c == 'E' then
      let (sign, rest) := spanSign rest
      let (digits, _) := spanDigits rest
      if digits.isEmpty then [] else c :: sign ++ digits
    else []
  | [] => []

/-- Leading digits with an optional point among or after them, and the text after them. -/
def decimalPrefix? (cs : List Char) : Option (List Char × List Char) :=
  match spanDigits cs with
  | ([], '.' :: rest) =>
    match spanDigits rest with
    | ([], _) => none
    | (digits, rest) => some ('.' :: digits, rest)
  | ([], _) => none
  | (digits, '.' :: rest) =>
    let (more, rest) := spanDigits rest
    some (digits ++ '.' :: more, rest)
  | found => some found

/-- The word for infinity. -/
def infinityWord : List Char := "Infinity".toList

/-- The number that a text starts with (`_FLOAT_PREFIX_RE`). -/
def numberPrefix? (cs : List Char) : Option Binary64 :=
  let (sign, body) := spanSign cs
  if infinityWord.isPrefixOf body then some (.infinite (sign == ['-']))
  else
    match decimalPrefix? body with
    | some (digits, rest) => readBinary64? (sign ++ digits ++ exponentPrefix rest)
    | none => none

/-- The number without plus sign and exponent that a text starts with. -/
def simpleNumber? (cs : List Char) : Option Binary64 :=
  let (sign, body) : List Char × List Char := match cs with
    | '-' :: rest => (['-'], rest)
    | rest => ([], rest)
  match spanDigits body with
  | ([], _) => none
  | (digits, '.' :: rest) => readBinary64? (sign ++ digits ++ '.' :: (spanDigits rest).1)
  | (digits, _) => readBinary64? (sign ++ digits)

/-- The first number without plus sign and exponent in a text (`_NUMBER_RE`). -/
def findNumber? : List Char → Option Binary64
  | [] => none
  | c :: rest =>
    match simpleNumber? (c :: rest) with
    | some x => some x
    | none => findNumber? rest

/-- The number in a text (`_coerce_number`): the one that it starts with, else the first one in it,
else the text itself. -/
def coerceNumber (text : String) : Value :=
  match numberPrefix? (Text.trim text.toList) with
  | some x => .float x
  | none =>
    match findNumber? text.toList with
    | some x => .float x
    | none => .str text

/-! ## Truth values and collections -/

/-- The truth value that a text spells, else the text itself (`_coerce_boolean`). -/
def coerceBoolean (text : String) : Value :=
  match Text.lowered (Text.trimmed text) with
  | "true" | "yes" => .bool true
  | "false" | "no" => .bool false
  | _ => .str text

/-- The value of the first collection in a text or of the whole text as JSON, else the text itself
(`_coerce_json`).
-/
def coerceJson (text : String) : Value :=
  match (firstBalanced? text).bind Json.read? with
  | some v => v
  | none => (Json.read? text).getD (.str text)

/-- What can be expected of an answer. -/
inductive Expectation where
  /-- A number. -/
  | number
  /-- A truth value. -/
  | boolean
  /-- A JSON value. -/
  | json
  /-- Text. -/
  | text
  deriving DecidableEq, Repr

/-- What a program expects. -/
def Expectation.ofValue : Value → Expectation
  | .str "number" => .number
  | .str "boolean" => .boolean
  | .str "json" => .json
  | _ => .text

/-- The conversion of a text. -/
def coerceText (expect : Expectation) (text : String) : Value :=
  match expect with
  | .number => coerceNumber text
  | .boolean => coerceBoolean text
  | .json => coerceJson text
  | .text => .str text

/-- Goes through elements up to one that could open a collection; all before it have to be texts. -/
def seekOpening : List Value → Result Unit
  | [] => pure ()
  | .str s :: rest => if ["", "\x7b", "[", "\x7b["].contains s then pure () else seekOpening rest
  | v :: _ =>
    let kind := v.qualifiedKindName
    throw (.type (.misfit s!"'in <string>' requires string as left operand, not {kind}"))

/-- The conversion of an answer, which is a text unless the model's reply is out of shape
(`coerce_response`). -/
def coerce (expect : Expectation) (answer : Value) : Result Value :=
  match answer, expect with
  | .str s, _ => pure (coerceText expect s)
  | v, .text => pure v
  | .bytes _, .number =>
    throw (.type (.misfit "cannot use a string pattern on a bytes-like object"))
  | .bytes bs, .boolean => pure (.bytes bs)
  | .bytes [], .json => pure (.bytes [])
  | v, .number => throw (.noAttribute v.qualifiedKindName "strip")
  | v, .boolean => throw (.noAttribute v.qualifiedKindName "strip")
  | v, .json => do
    let items ← v.elements
    seekOpening items
    throw (.type (.notDocument v.kindName))

end TreeScript.Model
