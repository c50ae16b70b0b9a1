import TreeScript.Value.Display
import TreeScript.Value.Elements

/-!
# Environments

An environment gives names values. It is never changed: extending it makes a new one, in which the
new binding stands in the place of an older one of the same name, or at the end. A name that is
bound to the undefined mark counts as having no value.
-/

namespace TreeScript

/-- Names with their values, in the order in which the names were first bound. -/
structure Environment where
  /-- The bindings. -/
  bindings : Bindings
  deriving Inhabited

namespace Environment

/-- The environment without names. -/
def empty : Environment := ⟨[]⟩

/-- The environment that a value is taken for (`from_dict`). -/
def ofValue (v : Value) : Result Environment := do
  let bindings ← v.toBindings
  pure ⟨bindings⟩

/-- What a name is bound to. -/
def find? (env : Environment) (name : Value) : Option Value := env.bindings.lookup? name

/-- The value of a name; a name without one, or bound to the undefined mark, is a failure. -/
def lookup (env : Environment) (name : String) : Result Value :=
  match env.find? (.str name) with
  | none => throw (.undefinedVariable name)
  | some .undefined => throw (.undefinedVariable name)
  | some v => pure v

/-- The value of a name that can be any value. -/
def lookupAny (env : Environment) (name : Value) : Result Value := do
  name.checkKey
  match env.find? name with
  | none => name.text >>= fun s => throw (.undefinedVariable s)
  | some .undefined => name.text >>= fun s => throw (.undefinedVariable s)
  | some v => pure v

/-- What a name that can be any value is bound to, or a default. -/
def getAny (env : Environment) (name default : Value) : Result Value := do
  name.checkKey
  pure ((env.find? name).getD default)

/-- What a name that can be any value is bound to, if it is bound. -/
def itemAny (env : Environment) (name : Value) : Result Value := do
  name.checkKey
  match env.find? name with
  | some v => pure v
  | none => name.literalText >>= fun shown => throw (.key shown)

/-- Whether a name that can be any value is bound. -/
def containsAny (env : Environment) (name : Value) : Result Bool := do
  name.checkKey
  pure (env.find? name).isSome

/-- The environment with a name bound. -/
def extend (env : Environment) (name : String) (value : Value) : Environment :=
  ⟨env.bindings.put (.str name) value⟩

/-- The environment with names bound in order (`extend_many`). -/
def extendMany (env : Environment) (pairs : List (String × Value)) : Environment :=
  pairs.foldl (fun e p => e.extend p.1 p.2) env

/-- The environment with a name bound that can be any value. -/
def extendAny (env : Environment) (name value : Value) : Result Environment := do
  name.checkKey
  pure ⟨env.bindings.put name value⟩

/-- The environment with names bound in order that can be any values. -/
def extendManyAny (env : Environment) : List (Value × Value) → Result Environment
  | [] => pure env
  | (name, value) :: rest => do
    let extended ← env.extendAny name value
    extended.extendManyAny rest

/-- The bound names, in order. -/
def names (env : Environment) : List Value := env.bindings.keys

/-- The environment as a value (`to_dict`). -/
def toValue (env : Environment) : Value := .env env.bindings

end Environment

end TreeScript
