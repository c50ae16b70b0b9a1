import TreeScript.Text.Base64
import TreeScript.Text.Casing
import TreeScript.Value.Convert
import TreeScript.Yaml.Node

/-!
# Reading YAML

`Yaml.read` is the value of a YAML text: nodes become values by their tags. A repeated key keeps its
first place and its last value. The key `<<` takes in the entries of other mappings, before those of
the mapping itself.

A text can be well-formed and still have no value, for more than one reason at once. The reason
reported is the first one level by level: scalars are looked at together with the collection that
they stand in, collections after all that is less deep. That a collection stands inside of itself
comes after all other reasons.
-/

namespace TreeScript.Yaml

/-- The failure of a node that has no value. -/
def noValue {α : Type} : Outcome α := throw .unreadable

/-! ## Scalars -/

/-- The text of a scalar; of a mapping it is that of its default value. With fuel for the nesting.
-/
def scalarText : Nat → Node → Outcome String
  | 0, _ => noValue
  | _, .scalar _ text => pure text
  | fuel + 1, .mapping _ entries =>
    match entries.find? fun e => match e.1 with
      | .scalar .value _ => true
      | _ => false with
    | some (_, value) => scalarText fuel value
    | none => noValue
  | _, .sequence .. => noValue

def withoutLines (s : String) : String := String.ofList (s.toList.filter (· != '_'))

/-- The sign before a number and the text after it, which the number must not be without. -/
def takeSign (s : String) : Outcome (Bool × String) :=
  match s.toList with
  | [] => throw .emptyNumber
  | '-' :: rest => pure (true, String.ofList rest)
  | '+' :: rest => pure (false, String.ofList rest)
  | _ => pure (false, s)

/-- The parts of a text between colons. -/
def colonParts (s : String) : List String := Text.split ':' s

def digitsInt (base : Nat) (s : String) : Outcome Int := .ofSpelling (intOfText base s)

def spelledFloat (s : String) : Outcome Binary64 := .ofSpelling (floatOfText s)

def unsignedInt (s : String) : Outcome Int :=
  match s.toList with
  | [] => throw .emptyNumber
  | ['0'] => pure 0
  | '0' :: 'b' :: rest => digitsInt 2 (String.ofList rest)
  | '0' :: 'x' :: rest => digitsInt 16 (String.ofList rest)
  -- a zero in front makes a number octal
  | '0' :: _ => digitsInt 8 s
  | cs =>
    if cs.contains ':' then do
      let digits ← (colonParts s).mapM (digitsInt 10)
      pure (digits.foldl (fun n d => 60 * n + d) 0)
    else digitsInt 10 s

def readInt (text : String) : Outcome Value := do
  let (negative, body) ← takeSign (withoutLines text)
  let n ← unsignedInt body
  pure (.int (if negative then -n else n))

/-- The sum of digits in base sixty, from the last one. -/
def sexagesimalSum (digits : List Binary64) : Binary64 :=
  let (total, _) := digits.reverse.foldl
    -- the weight starts at one and grows sixtyfold with each digit
    (fun (acc : Binary64 × Int) d => (acc.1.add (d.mul (Binary64.nearestInt acc.2)), acc.2 * 60))
    (Binary64.zero false, 1)
  total

def readFloat (text : String) : Outcome Value := do
  let (negative, body) ← takeSign (Text.lowered (withoutLines text))
  let signed (x : Binary64) : Value := .float (if negative then x.neg else x)
  if body == ".inf" then pure (signed (.infinite false))
  else if body == ".nan" then pure (.float .yamlNaN)
  else if body.toList.contains ':' then do
    let digits ← (colonParts body).mapM spelledFloat
    pure (signed (sexagesimalSum digits))
  else do
    let x ← spelledFloat body
    pure (signed x)

def readBool (text : String) : Outcome Value :=
  let word := Text.lowered text
  if ["yes", "true", "on"].contains word then pure (.bool true)
  else if ["no", "false", "off"].contains word then pure (.bool false)
  else throw (.truthWord word)

def numberOfDigits (cs : List Char) : Nat := cs.foldl (fun n c => 10 * n + (c.toNat - 48)) 0

/-- The microseconds of the digits of a fraction of a second; what is finer is cut off. -/
def microseconds (cs : List Char) : Nat :=
  let digits := cs.take 6
  numberOfDigits (digits ++ List.replicate (6 - digits.length) '0')

/-- The text of a span of time in minutes. -/
def spanText (minutes : Int) : String :=
  let days := minutes.fdiv 1440
  let seconds := minutes.fmod 1440 * 60
  if seconds == 0 then s!"datetime.timedelta(days={intText days})"
  else s!"datetime.timedelta(days={intText days}, seconds={intText seconds})"

/-- The offset of a time in minutes, which has to be less than a day. -/
def zoneOffset (sign : Char) (hours minutes : List Char) : Outcome Int :=
  let total : Int := numberOfDigits hours * 60 + numberOfDigits minutes
  let offset := if sign == '-' then -total else total
  if total < 1440 then pure offset
  else throw (.value (
    "offset must be a timedelta strictly between -timedelta(hours=24) " ++
    "and timedelta(hours=24), not " ++
      spanText offset ++ "."))

def readTimestamp (text : String) : Outcome Value :=
  match Stamp.read? (withoutLastBreak text.toList) with
  | none => throw .notATime
  | some stamp => do
    let year := numberOfDigits stamp.year
    let month := numberOfDigits stamp.month
    let day := numberOfDigits stamp.day
    match stamp.time with
    | none =>
      match Date.make? year month day with
      | .ok date => pure (.date date)
      | .error fault => throw (.value fault.message)
    | some (hour, minute, second, fraction) => do
      let offset ← match stamp.zone with
        | none => pure none
        | some (sign, hours, minutes) => some <$> zoneOffset sign hours minutes
      match DateTime.make? year month day (numberOfDigits hour) (numberOfDigits minute)
          (numberOfDigits second) (microseconds fraction) offset with
      | .ok time => pure (.datetime time)
      | .error fault => throw (.value fault.message)

def readBinary (text : String) : Outcome Value :=
  if text.toList.all fun c => c.toNat < 128 then
    match Text.Base64.decode? text.toList with
    | some bytes => pure (.bytes bytes)
    | none => noValue
  else noValue

def readScalar (tag : Tag) (text : String) : Outcome Value :=
  match tag with
  | .null => pure .null
  | .bool => readBool text
  | .int => readInt text
  | .float => readFloat text
  | .timestamp => readTimestamp text
  | .str => pure (.str text)
  | .binary => readBinary text
  | .within => throw .endless
  | _ => noValue

/-! ## Collections -/

def Node.tag : Node → Tag
  | .scalar tag _ => tag
  | .sequence tag _ => tag
  | .mapping tag _ => tag

/-- Whether a tag is one of collections. -/
def Tag.isCollection : Tag → Bool
  | .seq | .map | .omap | .pairs | .set | .within => true
  | _ => false

/-- The entries of mappings that one takes in, and those of its own. -/
structure Merged where
  taken : List (Node × Node)
  own : List (Node × Node)

/-- The entries of a mapping, with those that it takes in before its own. A key `=` is a text here.
With fuel for the nesting. -/
def flatten : Nat → List (Node × Node) → Outcome (List (Node × Node))
  | 0, _ => noValue
  | fuel + 1, entries => do
    let merged ← entries.foldlM (fun (acc : Merged) entry => do
      match entry.1.tag with
      | .merge => do
        match entry.2 with
        | .mapping _ inner => do
          let more ← flatten fuel inner
          pure { acc with taken := acc.taken ++ more }
        | .sequence _ items => do
          let lists ← items.mapM fun item =>
            match item with
            | .mapping _ inner => flatten fuel inner
            | _ => noValue
          -- of mappings in a list the first one wins, so it is taken in last
          pure { acc with taken := acc.taken ++ lists.reverse.flatten }
        | .scalar .. => noValue
      | .value => do
        let key := match entry.1 with
          | .scalar _ text => Node.scalar .str text
          | other => other
        pure { acc with own := acc.own ++ [(key, entry.2)] }
      | _ => pure { acc with own := acc.own ++ [entry] }) (Merged.mk [] [])
    pure (merged.taken ++ merged.own)

def onlyEntry (node : Node) : Outcome (Node × Node) :=
  match node with
  | .mapping _ [entry] => pure entry
  | _ => noValue

/-- Accepts a node that can be a key. -/
def checkKey (node : Node) : Outcome Unit := if node.tag.isCollection then noValue else pure ()

/-- Looks at a node: a scalar has to have a value, and a collection is left for later. -/
def look (fuel : Nat) (node : Node) : Outcome (List Node) := do
  if node.tag.isCollection then pure [node]
  else do
    let text ← scalarText fuel node
    let _ ← readScalar node.tag text
    pure []

/-- Looks at the entries of a mapping. -/
def lookEntries (fuel : Nat) (entries : List (Node × Node)) : Outcome (List Node) := do
  let found ← entries.mapM fun entry => do
    let keys ← look fuel entry.1
    checkKey entry.1
    let values ← look fuel entry.2
    pure (keys ++ values)
  pure found.flatten

/-- Looks at the pairs of a list of mappings with one entry each. -/
def lookPairs (fuel : Nat) (items : List Node) : Outcome (List Node) := do
  let found ← items.mapM fun item => do
    let (key, value) ← onlyEntry item
    let keys ← look fuel key
    let values ← look fuel value
    pure (keys ++ values)
  pure found.flatten

def lookInside (fuel : Nat) (node : Node) : Outcome (List Node) :=
  match node.tag, node with
  | .seq, .sequence _ items => List.flatten <$> items.mapM (look fuel)
  | .omap, .sequence _ items => lookPairs fuel items
  | .pairs, .sequence _ items => lookPairs fuel items
  | .map, .mapping _ entries => flatten fuel entries >>= lookEntries fuel
  | .set, .mapping _ entries => flatten fuel entries >>= lookEntries fuel
  | .within, _ => pure []
  | _, _ => noValue

/-- Looks at collections, and at what they hold level by level. -/
def lookLevels : Nat → List Node → Outcome Unit
  | 0, _ => noValue
  | _, [] => pure ()
  | fuel + 1, level => do
    -- all collections of one level before those inside them
    let next ← level.mapM (lookInside (fuel + 1))
    lookLevels fuel next.flatten

/-- The value of a node, with fuel for the nesting. -/
def valueOf : Nat → Node → Outcome Value
  | 0, _ => noValue
  | fuel + 1, node =>
    match node.tag, node with
    | .seq, .sequence _ items => .list <$> items.mapM (valueOf fuel)
    | .omap, .sequence _ items => .list <$> items.mapM (pairOf fuel)
    | .pairs, .sequence _ items => .list <$> items.mapM (pairOf fuel)
    | .map, .mapping _ entries => do
      let entries ← flatten (fuel + 1) entries
      let values ← entries.mapM (entryOf fuel)
      pure (.map (Bindings.ofPairs values))
    | .set, .mapping _ entries => do
      let entries ← flatten (fuel + 1) entries
      let values ← entries.mapM (entryOf fuel)
      pure (.set (Bindings.ofPairs values).keys)
    | .within, _ => throw .endless
    | tag, _ => do
      let text ← scalarText (fuel + 1) node
      readScalar tag text
where
  entryOf (fuel : Nat) (entry : Node × Node) : Outcome (Value × Value) := do
    let key ← valueOf fuel entry.1
    let value ← valueOf fuel entry.2
    pure (key, value)
  pairOf (fuel : Nat) (node : Node) : Outcome Value := do
    let (key, value) ← onlyEntry node
    let key ← valueOf fuel key
    let value ← valueOf fuel value
    pure (.tuple [key, value])

mutual

/-- How deep nodes are nested in a node. -/
def Node.depth : Node → Nat
  | .scalar .. => 1
  | .sequence _ items => depthItems items + 1
  | .mapping _ entries => depthEntries entries + 1
termination_by structural n => n

/-- How deep nodes are nested in the nodes of a list. -/
def depthItems : List Node → Nat
  | [] => 0
  | n :: rest => max (Node.depth n) (depthItems rest)
termination_by structural ns => ns

/-- How deep nodes are nested in the entries of a mapping. -/
def depthEntries : List (Node × Node) → Nat
  | [] => 0
  | (k, v) :: rest => max (max (Node.depth k) (Node.depth v)) (depthEntries rest)
termination_by structural es => es

end

/-- The value of a YAML text. A text without a document is nothing. -/
def read (text : String) : Outcome Value := do
  match ← Node.read text with
  | none => pure .null
  | some root => do
    let fuel := root.depth + 2
    let collections ← look fuel root
    lookLevels fuel collections
    valueOf fuel root

end TreeScript.Yaml
