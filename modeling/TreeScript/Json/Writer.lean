import TreeScript.Value.Display

/-!
# Writing JSON

The JSON text of a value, on one line or with an indentation of two. Numbers that JSON does not know
are written `NaN`, `Infinity` and `-Infinity`. Outside of ASCII a character is written as it is or,
in the style for the wire, as escapes of its UTF-16 units.
-/

namespace TreeScript.Json

/-- How JSON text is laid out. -/
structure Style where
  ascii : Bool
  indented : Bool
  deriving DecidableEq, Repr

/-- One line, characters as they are. -/
def Style.compact : Style := ⟨false, false⟩

/-- A line for every element, characters as they are. -/
def Style.pretty : Style := ⟨false, true⟩

/-- One line of ASCII. -/
def Style.wire : Style := ⟨true, false⟩

/-- The escape of one UTF-16 unit. -/
def unitEscape (unit : Nat) : String := "\\u" ++ Text.hexPadded 4 unit

/-- The escapes of the UTF-16 units of a character: two above the basic plane. -/
def utf16Escape (code : Nat) : String :=
  if code < 0x10000 then unitEscape code
  else
    let offset := code - 0x10000
    unitEscape (0xd800 + offset / 0x400) ++ unitEscape (0xdc00 + offset % 0x400)

def charText (ascii : Bool) (c : Char) : String :=
  if c == '"' then "\\\""
  else if c == '\\' then "\\\\"
  else if c == '\n' then "\\n"
  else if c == '\r' then "\\r"
  else if c == '\t' then "\\t"
  else if c == '\x08' then "\\b"
  else if c == '\x0c' then "\\f"
  else if c.toNat < 0x20 || (ascii && 0x7f ≤ c.toNat) then utf16Escape c.toNat
  else c.toString

def stringText (ascii : Bool) (s : String) : String :=
  "\"" ++ String.join (s.toList.map (charText ascii)) ++ "\""

def floatText : Binary64 → String
  | .nan _ => "NaN"
  | .infinite negative => if negative then "-Infinity" else "Infinity"
  | x => x.text

def boolText (b : Bool) : String := if b then "true" else "false"

/-- The text of a key. Numbers, truth values and nothing can be keys and are written as texts; other
kinds cannot be. -/
def keyText (style : Style) : Value → Result String
  | .str s => pure s
  | .float x => pure (floatText x)
  | .bool b => pure (boolText b)
  | .null => pure "null"
  | .int i => pure (intText i)
  | v =>
    -- the two styles name the kind of a key in different ways
    let kind := if style.indented then v.kindName else v.qualifiedKindName
    throw (.type (.notWritableKey kind))

/-- A line break with an indentation, if elements stand on lines of their own. -/
def breakText (style : Style) (depth : Nat) : String :=
  if style.indented then "\n" ++ String.ofList (List.replicate (2 * depth) ' ') else ""

def separatorText (style : Style) (depth : Nat) : String :=
  if style.indented then "," ++ breakText style depth else ", "

/-- Elements between brackets. -/
def bracketText (style : Style) (depth : Nat) (left right : String) (elements : List String) :
    String :=
  if elements.isEmpty then left ++ right
  else left ++ breakText style (depth + 1) ++
    (separatorText style (depth + 1)).intercalate elements ++ breakText style depth ++ right

mutual

/-- The JSON text of a value inside `depth` brackets. -/
def writeAt (style : Style) : Nat → Value → Result String
  | _, .null => pure "null"
  | _, .bool b => pure (boolText b)
  | _, .int i => pure (intText i)
  | _, .float x => pure (floatText x)
  | _, .str s => pure (stringText style.ascii s)
  | depth, .list items => do
    let texts ← writeItems style (depth + 1) items
    pure (bracketText style depth "[" "]" texts)
  | depth, .tuple items => do
    let texts ← writeItems style (depth + 1) items
    pure (bracketText style depth "[" "]" texts)
  | depth, .map entries => do
    let texts ← writeEntries style (depth + 1) entries
    pure (bracketText style depth "\x7b" "\x7d" texts)
  | _, v => throw (.type (.notWritable v.kindName))
termination_by structural _ v => v

def writeItems (style : Style) : Nat → List Value → Result (List String)
  | _, [] => pure []
  | depth, v :: rest => do
    let text ← writeAt style depth v
    let others ← writeItems style depth rest
    pure (text :: others)
termination_by structural _ vs => vs

def writeEntries (style : Style) : Nat → List (Value × Value) → Result (List String)
  | _, [] => pure []
  | depth, (k, v) :: rest => do
    let key ← keyText style k
    let text ← writeAt style depth v
    let others ← writeEntries style depth rest
    pure ((stringText style.ascii key ++ ": " ++ text) :: others)
termination_by structural _ es => es

end

/-- The JSON text of a value. -/
def write (style : Style) (v : Value) : Result String := writeAt style 0 v

end TreeScript.Json
