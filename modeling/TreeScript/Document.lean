import TreeScript.Json.Reader
import TreeScript.Program.Shown
import TreeScript.Text.Blank
import TreeScript.Text.Utf8
import TreeScript.Yaml.Library

/-!
# Documents

Values are exchanged as texts in two formats. A text that is to be read as JSON and is no JSON is
read as YAML, since JSON texts with small liberties are YAML texts. YAML texts are read and written
by a library.
-/

namespace TreeScript.Document

/-- The formats of a text. -/
inductive Format where
  /-- JSON. -/
  | json
  /-- YAML. -/
  | yaml
  deriving DecidableEq, Repr

/-- The name of a format. -/
def Format.name : Format → String
  | .json => "json"
  | .yaml => "yaml"

/-- The format of a text by how it starts (`detect_format`): JSON with an opening bracket or brace,
YAML with anything else. A blank text has none. -/
def detect (text : String) : Option Format :=
  match Text.trimStart text.toList with
  | [] => none
  | '\x7b' :: _ => some .json
  | '[' :: _ => some .json
  | _ => some .yaml

/-- The value of a text, which may be read as JSON first. -/
def readAs (yaml : Yaml.Library) (asJson : Bool) (text : String) : Result Value :=
  match if asJson then Json.read? text else none with
  | some v => pure v
  | none =>
    match yaml.load text with
    | .ok v => pure v
    | .error .unreadable => throw (.value ("could not parse program text: " ++ unreadableMessage))
    | .error fault => throw fault.failure

/-- The value of a text in a format that is detected. -/
def read (yaml : Yaml.Library) (text : String) : Result Value :=
  readAs yaml (detect text == some .json) text

/-- The value of a text in a format that is given by name (`deserialize`); without one it is
detected. -/
def readNamed (yaml : Yaml.Library) (format : Value) (text : String) : Result Value :=
  if format.truth then readAs yaml (format.equal (.str Format.json.name)) text else read yaml text

/-- The tree of a program, or the plain form of any other value. -/
def built (v : Value) : Result Value :=
  match v with
  | .node e => e.toValue
  | other => other.plain

/-- The text of a value in a format. -/
def write (yaml : Yaml.Library) (format : Format) (pretty : Bool) (v : Value) : Result String := do
  let plain ← built v
  match format with
  | .json => Json.write (if pretty then .pretty else .compact) plain
  | .yaml => yaml.dump plain

/-- The format with a name, in any letter case. -/
def Format.ofName? (name : String) : Option Format :=
  match Text.lowered name with
  | "json" => some .json
  | "yaml" => some .yaml
  | _ => none

/-- The name of a format in a value, which is empty where the value counts as false. -/
def formatName (format : Value) : Result String :=
  match format with
  | .str s => pure s
  | other =>
    if other.truth then throw (.noAttribute other.qualifiedKindName "lower") else pure ""

/-- The text of a value in a format that is given by name (`serialize`). -/
def writeNamed (yaml : Yaml.Library) (format : Value) (pretty : Bool) (v : Value) :
    Result String := do
  let name ← formatName format
  match Format.ofName? name with
  | some known => write yaml known pretty v
  | none => do
    let _ ← built v
    let shown ← format.literalText
    throw (.value s!"Unsupported serialization format: {shown}")

end TreeScript.Document
