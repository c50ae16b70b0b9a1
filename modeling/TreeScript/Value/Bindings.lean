import TreeScript.Failure
import TreeScript.Value.Equal

/-!
# Bindings

A map is the list of its entries in the order in which their keys were first put. Putting a key
again keeps its place and its spelling and changes the value.

Not every value can be a key: lists, maps, sets, programs and the like cannot, and a tuple can only
if all of its elements can.
-/

namespace TreeScript

mutual

/-- The kind that keeps a value from being a key, if there is one. -/
def Value.unhashable? : Value → Option String
  | .list _ => some "list"
  | .map _ => some "dict"
  | .set _ => some "set"
  | .closure .. => some "ProcedureClosure"
  | .node e => some e.kindName
  | .literal _ => some "Literal"
  | .env _ => some "Environment"
  | .object _ => some "types.SimpleNamespace"
  | .tuple items => unhashableItem? items
  | _ => none
termination_by structural v => v

/-- The kind that keeps the first such element of a list from being a key, if there is one. -/
def unhashableItem? : List Value → Option String
  | [] => none
  | v :: rest => (Value.unhashable? v).or (unhashableItem? rest)
termination_by structural vs => vs

end

/-- Accepts what can be a key. -/
def Value.checkKey (v : Value) : Result Unit :=
  match v.unhashable? with
  | some kind => throw (.type (.unhashable kind))
  | none => pure ()

namespace Bindings

/-- The value of a key. -/
def lookup? (bs : Bindings) (key : Value) : Option Value :=
  (bs.find? (fun b => Value.alike key b.1)).map Prod.snd

/-- The value of a key that is a text. -/
def get? (bs : Bindings) (name : String) : Option Value := lookup? bs (.str name)

/-- The value of a key that is a text, or nothing. -/
def getD (bs : Bindings) (name : String) (default : Value) : Value := (get? bs name).getD default

def has (bs : Bindings) (key : Value) : Bool := (lookup? bs key).isSome

/-- Gives a key a value: in its place if it has one already, else at the end. -/
def put : Bindings → Value → Value → Bindings
  | [], key, value => [(key, value)]
  | (k, v) :: rest, key, value =>
    -- the key that is there keeps its spelling
    if Value.alike key k then (k, value) :: rest else (k, v) :: put rest key value

/-- Gives keys values, in order. -/
def putAll (bs : Bindings) (more : Bindings) : Bindings :=
  more.foldl (fun acc e => put acc e.1 e.2) bs

/-- The bindings of a list of pairs, in which a later pair overrides an earlier one. -/
def ofPairs (pairs : List (Value × Value)) : Bindings := putAll [] pairs

/-- Forgets a key. -/
def remove (bs : Bindings) (key : Value) : Bindings := bs.filter (fun b => !Value.alike key b.1)

def keys (bs : Bindings) : List Value := bs.map Prod.fst

end Bindings

/-- A map with text keys. -/
def Value.ofFields (fields : List (String × Value)) : Value :=
  .map (fields.map fun f => (.str f.1, f.2))

end TreeScript
