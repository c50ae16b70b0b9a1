/-!
# Failures

Everything that can go wrong while a program is decoded, run or served by a host, as causes. The
wording of a cause is in one place, `Failure.message`, and the name under which it is reported in
`Failure.kind`.
-/

namespace TreeScript

/-- Why a tree is not a program. -/
inductive Flaw where
  /-- The tree is not a node; `found` is its kind. -/
  | notANode (found : String)
  /-- The tag is not one of a program; `shown` is the tag. -/
  | unknownTag (shown : String)
  /-- A field that the tag needs is missing. -/
  | missingField (tag field : String)
  /-- A literal carries a payload of another kind. -/
  | payload (tag expected shown : String)
  /-- A name is empty or no text. -/
  | name (place shown : String)
  /-- The operator is not one of the tag. -/
  | operator (tag shown : String)
  /-- A field that holds a list of programs holds something else. -/
  | notAList (tag field : String)
  /-- An operation has fewer than two operands. -/
  | operandCount (tag : String)
  /-- What is called is neither a name nor a procedure. -/
  | callee
  /-- The inputs of a procedure are no list. -/
  | inputs
  /-- The arguments of an effect are no map. -/
  | arguments
  /-- Something other than a program was to be evaluated; `found` is its kind. -/
  | notEvaluable (found : String)
  deriving DecidableEq, Repr

def Flaw.message : Flaw → String
  | notANode found => s!"Expected a program node, got {found}"
  | unknownTag shown => s!"Unknown expression type: {shown}"
  | missingField tag field => s!"{tag} node is missing '{field}'"
  | payload tag expected shown => s!"{tag} node carries {expected} value {shown}"
  | name place shown => s!"{place} must be a non-empty name, got {shown}"
  | operator tag shown => s!"Unknown {tag} operator: {shown}"
  | notAList tag field => s!"{tag}.{field} must be a list"
  | operandCount tag => s!"{tag} needs at least two operands"
  | callee => "procedureCall.procedure must be a variable or a procedure"
  | inputs => "procedure.inputs must be a list of names"
  | arguments => "effect.args must be a mapping"
  | notEvaluable found => s!"Unknown expression type: {found}"

/-- Why a value is of the wrong kind for what is done with it. The kinds are given by name. -/
inductive TypeFault where
  /-- An operator does not apply to two kinds. -/
  | operands (operator left right : String)
  /-- A sequence is joined with another kind. -/
  | concatenation (kind other : String)
  /-- Bytes are joined with another kind. -/
  | byteConcatenation (other : String)
  /-- A sequence is repeated by something that is no integer. -/
  | repetition (other : String)
  /-- Two kinds have no order. -/
  | unordered (operator left right : String)
  /-- A number is needed. -/
  | notReal (found : String)
  /-- A kind that cannot be a key. -/
  | unhashable (found : String)
  /-- A kind that has no elements to go through. -/
  | notIterable (found : String)
  /-- A kind that does not convert to an integer. -/
  | notInteger (found : String)
  /-- A kind that does not convert to a binary64 number. -/
  | notFloat (found : String)
  /-- An element of a list that is to be a map is no pair. -/
  | notAPair (index : Nat)
  /-- A kind that a document cannot hold. -/
  | notWritable (found : String)
  /-- A kind that a document cannot hold as a key. -/
  | notWritableKey (found : String)
  /-- A kind that is no document text. -/
  | notDocument (found : String)
  /-- A value that is no program where one is encoded. -/
  | notANode (shown : String)
  /-- The names of an environment are listed and one is no text. -/
  | notAName (index : Nat) (found : String)
  /-- Any other misfit, in its own words. -/
  | misfit (message : String)
  deriving DecidableEq, Repr

def TypeFault.message : TypeFault → String
  | operands operator left right =>
    s!"unsupported operand type(s) for {operator}: '{left}' and '{right}'"
  | concatenation kind other => s!"can only concatenate {kind} (not \"{other}\") to {kind}"
  | byteConcatenation other => s!"can't concat {other} to bytes"
  | repetition other => s!"can't multiply sequence by non-int of type '{other}'"
  | unordered operator left right =>
    s!"'{operator}' not supported between instances of '{left}' and '{right}'"
  | notReal found => s!"must be real number, not {found}"
  | unhashable found => s!"unhashable type: '{found}'"
  | notIterable found => s!"'{found}' object is not iterable"
  | notInteger found =>
    s!"int() argument must be a string, a bytes-like object or a real number, not '{found}'"
  | notFloat found => s!"float() argument must be a string or a real number, not '{found}'"
  | notAPair index => s!"cannot convert dictionary update sequence element #{index} to a sequence"
  | notWritable found => s!"Object of type {found} is not JSON serializable"
  | notWritableKey found => s!"keys must be str, int, float, bool or None, not {found}"
  | notDocument found => s!"the JSON object must be str, bytes or bytearray, not {found}"
  | notANode shown => s!"not a SAJ node: {shown}"
  | notAName index found => s!"sequence item {index}: expected str instance, {found} found"
  | misfit message => message

/-- What a file system refuses. -/
inductive FileFault where
  | notFound
  /-- The path may not be used in this way. -/
  | denied
  /-- There is already something at the path. -/
  | present
  /-- A directory was needed. -/
  | notDirectory
  /-- A file was needed. -/
  | isDirectory
  /-- A name in the path is too long. -/
  | nameTooLong
  deriving DecidableEq, Repr

/-- The number and the wording of a refusal. -/
def FileFault.reason : FileFault → String
  | notFound => "[Errno 2] No such file or directory"
  | denied => "[Errno 13] Permission denied"
  | present => "[Errno 17] File exists"
  | notDirectory => "[Errno 20] Not a directory"
  | isDirectory => "[Errno 21] Is a directory"
  | nameTooLong => "[Errno 36] File name too long"

/-- The name under which a refusal is reported. -/
def FileFault.kind : FileFault → String
  | notFound => "FileNotFoundError"
  | denied => "PermissionError"
  | present => "FileExistsError"
  | notDirectory => "NotADirectoryError"
  | isDirectory => "IsADirectoryError"
  | nameTooLong => "OSError"

inductive Failure where
  | undefinedVariable (name : String)
  /-- What is called is no procedure. -/
  | notAProcedure (name : String)
  /-- An effect was called and there is no host. -/
  | noEffectHandler (effect : String)
  /-- The host does not know the effect. -/
  | unknownEffect (effect : String)
  /-- The tree is no program. -/
  | malformed (flaw : Flaw)
  /-- A model is called and there is no client. -/
  | missingModelClient
  /-- A value has the wrong kind. -/
  | type (fault : TypeFault)
  /-- A value of the right kind is not acceptable. -/
  | value (message : String)
  /-- A number is too large. -/
  | overflow (message : String)
  /-- A value of kind `owner` has no attribute `name`. -/
  | noAttribute (owner name : String)
  /-- A key is missing; `shown` is the key. -/
  | key (shown : String)
  /-- An index is out of range. -/
  | index (message : String)
  /-- Bytes are no text. -/
  | undecodable (message : String)
  /-- A search pattern does not parse. -/
  | pattern (message : String)
  /-- The file system refuses; `shown` is the path. -/
  | file (fault : FileFault) (shown : String)
  /-- A document text does not parse. -/
  | unreadable
  /-- A value that the document format cannot represent. -/
  | unrepresentable
  /-- The model service refuses a request. -/
  | modelRequest (status : Int) (message : String)
  /-- A failure of a host, in its own words. -/
  | raised (kind message : String)
  deriving DecidableEq, Repr

/-- The wording of a document that does not parse or cannot be written. -/
def unreadableMessage : String := "<yaml error>"

def Failure.message : Failure → String
  | undefinedVariable name => s!"Undefined variable: {name}"
  | notAProcedure name => s!"Not a procedure: {name}"
  | noEffectHandler effect => s!"Effect \"{effect}\" called but no effect handler provided"
  | unknownEffect effect => s!"Unknown effect: {effect}"
  | malformed flaw => flaw.message
  | missingModelClient => "llm_call requires an LLM client in context"
  | type fault => fault.message
  | value message => message
  | overflow message => message
  | noAttribute owner name => s!"'{owner}' object has no attribute '{name}'"
  | key shown => shown
  | index message => message
  | undecodable message => message
  | pattern message => message
  | file fault shown => s!"{fault.reason}: {shown}"
  | unreadable => unreadableMessage
  | unrepresentable => unreadableMessage
  | modelRequest status message => s!"LLM request failed ({status}): {message}"
  | raised _ message => message

/-- The name under which a failure is reported. -/
def Failure.kind : Failure → String
  | undefinedVariable _ => "UndefinedVariable"
  | notAProcedure _ => "NotAProcedure"
  | noEffectHandler _ => "NoEffectHandler"
  | unknownEffect _ => "UnknownEffect"
  | malformed _ => "MalformedProgram"
  | missingModelClient => "MissingModelClient"
  | type _ => "TypeError"
  | value _ => "ValueError"
  | overflow _ => "OverflowError"
  | noAttribute .. => "AttributeError"
  | key _ => "KeyError"
  | index _ => "IndexError"
  | undecodable _ => "UnicodeDecodeError"
  | pattern _ => "error"
  | file fault _ => fault.kind
  | unreadable => "YAMLError"
  | unrepresentable => "RepresenterError"
  | modelRequest .. => "LLMRequestError"
  | raised kind _ => kind

/-- Whether a failure is one of the language itself. -/
def Failure.isOfLanguage : Failure → Bool
  -- everything else is the failure of a value or of the host
  | undefinedVariable _ | notAProcedure _ | noEffectHandler _ | unknownEffect _ | malformed _ |
    missingModelClient => true
  | _ => false

/-- Whether a failure says that a value was not acceptable. -/
def Failure.isOfValue : Failure → Bool
  | value _ | undecodable _ => true
  | raised kind _ => kind ∈ ["ValueError", "UnicodeError", "JSONDecodeError"]
  | _ => false

/-- Whether a failure says that a value has the wrong kind. -/
def Failure.isOfType : Failure → Bool
  | type _ => true
  | raised kind _ => kind == "TypeError"
  | _ => false

/-- Whether a failure is a division by zero; only hosts have those. -/
def Failure.isDivision : Failure → Bool
  | raised kind _ => kind == "ZeroDivisionError"
  | _ => false

/-- What a computation that can fail gives. -/
abbrev Result := Except Failure

end TreeScript
