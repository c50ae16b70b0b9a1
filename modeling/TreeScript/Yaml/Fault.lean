import TreeScript.Failure
import TreeScript.Text.Quoted

/-!
# Faults of a YAML text

A text may be no YAML text, or one without a value. Both are the fault `unreadable`, which YAML
libraries have a kind of error for. What else goes wrong while a text is read is `raised` as it is:
mostly that a scalar does not spell a value of the kind that its tag asks for. A document may also
hold itself, by an alias inside of the node that has its anchor; no value is such a document.
-/

namespace TreeScript.Yaml

/-- Why a text has no value. -/
inductive Fault where
  /-- The text is not YAML, or a node in it has no value. -/
  | unreadable
  /-- Reading the text fails in a way that is not one of YAML. -/
  | raised (failure : Failure)
  /-- The document holds itself. -/
  | endless
  deriving DecidableEq, Repr

namespace Fault

/-- The failure that a fault is reported as. -/
def failure : Fault → Failure
  | unreadable => .unreadable
  | raised failure => failure
  | endless => .raised "RecursionError" "maximum recursion depth exceeded"

/-- A scalar does not spell a value of its kind. -/
def value (message : String) : Fault := .raised (.value message)

/-- The code of an escaped character is beyond all codes. -/
def codeTooLarge : Fault := .raised (.overflow "Python int too large to convert to C int")

/-- A number has no digits. -/
def emptyNumber : Fault := .raised (.index "string index out of range")

/-- A word is no truth value. -/
def truthWord (word : String) : Fault := .raised (.key (Text.quoted word))

/-- A text is no day or time. -/
def notATime : Fault := .raised (.noAttribute "NoneType" "groupdict")

end Fault

/-- What a step of reading gives. -/
abbrev Outcome := Except Fault

/-- Takes over a result whose failure says that a scalar does not spell a value. -/
def Outcome.ofSpelling {α : Type} (result : Result α) : Outcome α :=
  result.mapError fun failure => .value failure.message

end TreeScript.Yaml
