import TreeScript.Value.Bindings

/-!
# Elements and maps of values

Which values have elements to go through, and which values can be taken for a map: maps and
environments, and what has pairs for its elements.
-/

namespace TreeScript

/-- The elements of a value: the characters of a text, the numbers of bytes, the keys of a map. -/
def Value.elements? : Value → Option (List Value)
  | .str s => some (s.toList.map fun c => .str c.toString)
  | .list items => some items
  | .tuple items => some items
  | .set items => some items
  | .map entries => some (Bindings.keys entries)
  | .env bindings => some (Bindings.keys bindings)
  | .bytes bs => some (bs.map fun b => .int b.toNat)
  | _ => none

def Value.elements (v : Value) : Result (List Value) :=
  match v.elements? with
  | some items => pure items
  | none => throw (.type (.notIterable v.qualifiedKindName))

def Value.length (v : Value) : Result Nat :=
  match v.elements? with
  | some items => pure items.length
  | none => throw (.type (.misfit s!"object of type '{v.qualifiedKindName}' has no len()"))

/-- An element of a list that is taken for a map: a key and a value. -/
def pairOf (index : Nat) (v : Value) : Result (Value × Value) :=
  match v.elements? with
  | none => throw (.type (.notAPair index))
  -- a text of two characters is a pair as well
  | some [key, value] => do
    key.checkKey
    pure (key, value)
  | some items =>
    throw (.value
      s!"dictionary update sequence element #{index} has length {items.length}; 2 is required")

/-- The map of a list of pairs, of which a later one overrides an earlier one. -/
def pairsOf (bs : Bindings) : Nat → List Value → Result Bindings
  | _, [] => pure bs
  | index, v :: rest => do
    let (key, value) ← pairOf index v
    pairsOf (bs.put key value) (index + 1) rest

/-- The map that a value is taken for. What counts as false is the empty map. -/
def Value.toBindings (v : Value) : Result Bindings :=
  match v with
  | .map entries => pure entries
  | .env bindings => pure bindings
  | other =>
    if other.truth then other.elements >>= pairsOf [] 0
    else pure []

end TreeScript
