import TreeScript.Yaml.Schema
import TreeScript.Yaml.Token

/-!
# YAML nodes

The tokens of a text are put together to a tree of scalars, sequences and mappings, each with a tag.
A tag that is not written is found by the schema. An alias stands for the node that has its anchor,
which has to come before it or around it. In the second case the node would hold itself, and a
collection with the tag `within` stands in its place.

The functions that put nodes together call each other; the recursion is bounded by a fuel argument
for which a multiple of the number of tokens is enough, since every two calls take a token.
-/

namespace TreeScript.Yaml

inductive Node where
  | scalar (tag : Tag) (text : String)
  | sequence (tag : Tag) (items : List Node)
  | mapping (tag : Tag) (entries : List (Node × Node))
  deriving Inhabited

/-- What nodes are put together from. -/
structure Parser where
  /-- The tokens that are left. -/
  tokens : List Token
  /-- The nodes with anchors, the latest first. -/
  anchors : List (String × Node) := []
  /-- What handles stand for. -/
  handles : List (String × String) := []

abbrev Parse := StateT Parser Outcome

namespace Parse

/-- The text is not YAML. -/
def fail {α : Type} : Parse α := throw .unreadable

def peek : Parse Token := do
  match (← get).tokens with
  | [] => pure .streamEnd
  -- the failure counts only now that all tokens before it have been taken
  | .fault reason :: _ => throw reason
  | token :: _ => pure token

/-- Goes on past a token. -/
def drop : Parse Unit := modify fun p => { p with tokens := p.tokens.tail }

def at? (tokens : List Token) : Parse Bool := do
  let token ← peek
  pure (tokens.contains token)

/-- A scalar that is not written. -/
def emptyScalar : Node := .scalar (Tag.ofPlain "") ""

/-- What stands before the content of a node. -/
structure Properties where
  anchor : Option String := none
  /-- The tag, by its handle and the text after it. -/
  tag : Option (Option String × String) := none

def takeAnchor : Parse (Option String) := do
  match ← peek with
  | .anchor name => do
    drop
    pure (some name)
  | _ => pure none

def takeTag : Parse (Option (Option String × String)) := do
  match ← peek with
  | .tag handle suffix => do
    drop
    pure (some (handle, suffix))
  | _ => pure none

/-- An anchor and a tag, in either order. -/
def properties : Parse Properties := do
  match ← takeAnchor with
  | some name => do
    let tag ← takeTag
    pure ⟨some name, tag⟩
  | none => do
    match ← takeTag with
    | some tag => do
      let anchor ← takeAnchor
      pure ⟨anchor, some tag⟩
    | none => pure {}

/-- The full text of a tag. -/
def fullTag (tag : Option String × String) : Parse String := do
  match tag with
  | (none, suffix) => pure suffix
  | (some handle, suffix) => do
    match (← get).handles.find? fun h => h.1 == handle with
    | some (_, replacement) => pure (replacement ++ suffix)
    | none => fail

/-- The full text of the tag that is written, if one is. The tag `!` is the same as none. -/
structure WrittenTag where
  /-- Whether a tag is written. -/
  present : Bool
  /-- The text of a tag other than `!`. -/
  name : Option String

def writtenTag (props : Properties) : Parse WrittenTag := do
  match props.tag with
  | none => pure ⟨false, none⟩
  | some tag => do
    let name ← fullTag tag
    pure ⟨true, if name == "!" then none else some name⟩

def scalarTag (written : WrittenTag) (text : String) (plain : Bool) : Tag :=
  match written.name with
  | some name => Tag.ofName name
  -- with the tag `!` a text in quotes is resolved like a plain one
  | none => if plain || written.present then Tag.ofPlain text else .str

def collectionTag (written : WrittenTag) (default : Tag) : Tag :=
  match written.name with
  | some name => Tag.ofName name
  | none => default

/-- Notes that a node with an anchor has begun, and what stands for it until it is finished. No two
nodes have the same anchor. -/
def begin (anchor : Option String) (unfinished : Node) : Parse Unit := do
  match anchor with
  | none => pure ()
  | some name => do
    let p ← get
    if p.anchors.any fun a => a.1 == name then fail
    else set { p with anchors := (name, unfinished) :: p.anchors }

/-- What stands for the node that starts with a token, inside of the node itself. -/
def unfinished : Token → Node
  | .flowMappingStart | .blockMappingStart => .mapping .within []
  | _ => .sequence .within []

/-- Notes that a node with an anchor is finished. -/
def finish (anchor : Option String) (node : Node) : Parse Node := do
  match anchor with
  | none => pure node
  | some name => do
    modify fun p => { p with anchors := (name, node) :: p.anchors }
    pure node

/-- The node with an anchor. -/
def resolveAlias (name : String) : Parse Node := do
  match (← get).anchors.find? fun a => a.1 == name with
  | some (_, node) => pure node
  | none => fail

/-- A node without content, which needs an anchor or a tag. -/
def unwritten (props : Properties) (written : WrittenTag) : Parse Node := do
  if props.anchor.isSome || written.present then
    finish props.anchor (.scalar (scalarTag written "" true) "")
  else fail

mutual

/-- A node. Whether it may be a block collection, or a sequence whose dashes stand at the
indentation of the mapping around it, depends on where it stands. -/
def node : Nat → (block indentless : Bool) → Parse Node
  | 0, _, _ => fail
  | fuel + 1, block, indentless => do
    match ← peek with
    | .alias name => do
      drop
      resolveAlias name
    | _ => do
      let props ← properties
      let written ← writtenTag props
      let token ← peek
      begin props.anchor (unfinished token)
      match token with
      | .blockEntry =>
        if indentless then do
          let items ← indentlessItems fuel
          finish props.anchor (.sequence (collectionTag written .seq) items)
        else unwritten props written
      | .scalar text plain => do
        drop
        finish props.anchor (.scalar (scalarTag written text plain) text)
      | .flowSequenceStart => do
        drop
        let items ← flowItems fuel true
        finish props.anchor (.sequence (collectionTag written .seq) items)
      | .flowMappingStart => do
        drop
        let entries ← flowEntries fuel true
        finish props.anchor (.mapping (collectionTag written .map) entries)
      | .blockSequenceStart =>
        if block then do
          drop
          let items ← blockItems fuel
          finish props.anchor (.sequence (collectionTag written .seq) items)
        else unwritten props written
      | .blockMappingStart =>
        if block then do
          drop
          let entries ← blockEntries fuel
          finish props.anchor (.mapping (collectionTag written .map) entries)
        else unwritten props written
      | _ => unwritten props written

/-- A node, or one that is not written if one of some tokens comes instead. -/
def nodeUnless : Nat → List Token → (block indentless : Bool) → Parse Node
  | 0, _, _, _ => fail
  | fuel + 1, tokens, block, indentless => do
    if ← at? tokens then pure emptyScalar else node fuel block indentless

/-- The items of a block sequence, after its start. -/
def blockItems : Nat → Parse (List Node)
  | 0 => fail
  | fuel + 1 => do
    match ← peek with
    | .blockEntry => do
      drop
      let item ← nodeUnless fuel [.blockEntry, .blockEnd] true false
      let rest ← blockItems fuel
      pure (item :: rest)
    | .blockEnd => do
      drop
      pure []
    | _ => fail

/-- The items of a sequence at the indentation of the mapping around it. -/
def indentlessItems : Nat → Parse (List Node)
  | 0 => fail
  | fuel + 1 => do
    match ← peek with
    | .blockEntry => do
      drop
      let item ← nodeUnless fuel [.blockEntry, .key, .value, .blockEnd] true false
      let rest ← indentlessItems fuel
      pure (item :: rest)
    | _ => pure []

/-- The value of an entry of a block mapping. -/
def blockValue : Nat → Parse Node
  | 0 => fail
  | fuel + 1 => do
    match ← peek with
    | .value => do
      drop
      nodeUnless fuel [.key, .value, .blockEnd] true true
    | _ => pure emptyScalar

/-- The entries of a block mapping, after its start. -/
def blockEntries : Nat → Parse (List (Node × Node))
  | 0 => fail
  | fuel + 1 => do
    match ← peek with
    | .key => do
      drop
      let key ← nodeUnless fuel [.key, .value, .blockEnd] true true
      let value ← blockValue fuel
      let rest ← blockEntries fuel
      pure ((key, value) :: rest)
    | .blockEnd => do
      drop
      pure []
    | _ => fail

/-- The value of an entry inside brackets that end with a token. -/
def flowValue : Nat → Token → Parse Node
  | 0, _ => fail
  | fuel + 1, last => do
    match ← peek with
    | .value => do
      drop
      nodeUnless fuel [.flowEntry, last] false false
    | _ => pure emptyScalar

/-- The items of a sequence inside brackets, after the opening one or after an item. -/
def flowItems : Nat → (first : Bool) → Parse (List Node)
  | 0, _ => fail
  | fuel + 1, first => do
    match ← peek with
    | .flowSequenceEnd => do
      drop
      pure []
    | token => do
      if !first then
        -- a comma has to come between two items, and may come after the last
        if token == .flowEntry then drop else fail
      match ← peek with
      | .key => do
        drop
        let key ← nodeUnless fuel [.value, .flowEntry, .flowSequenceEnd] false false
        let value ← flowValue fuel .flowSequenceEnd
        let rest ← flowItems fuel false
        pure (.mapping .map [(key, value)] :: rest)
      | .flowSequenceEnd => do
        drop
        pure []
      | _ => do
        let item ← node fuel false false
        let rest ← flowItems fuel false
        pure (item :: rest)

/-- The entries of a mapping inside braces, after the opening one or after an entry. -/
def flowEntries : Nat → (first : Bool) → Parse (List (Node × Node))
  | 0, _ => fail
  | fuel + 1, first => do
    match ← peek with
    | .flowMappingEnd => do
      drop
      pure []
    | token => do
      if !first then
        if token == .flowEntry then drop else fail
      match ← peek with
      | .key => do
        drop
        let key ← nodeUnless fuel [.value, .flowEntry, .flowMappingEnd] false false
        let value ← flowValue fuel .flowMappingEnd
        let rest ← flowEntries fuel false
        pure ((key, value) :: rest)
      | .flowMappingEnd => do
        drop
        pure []
      | _ => do
        let key ← node fuel false false
        let rest ← flowEntries fuel false
        pure ((key, emptyScalar) :: rest)

end

/-- The directives before a document: at most one version, which is one of YAML 1, and handles that
differ. -/
def directives : Nat → (versioned : Bool) → Parse Bool
  | 0, versioned => pure versioned
  | fuel + 1, versioned => do
    match ← peek with
    | .directive d => do
      drop
      match d with
      | .version major _ => do
        if versioned || major != 1 then fail
        directives fuel true
      | .handle name replacement => do
        let p ← get
        if p.handles.any fun h => h.1 == name then fail
        set { p with handles := (name, replacement) :: p.handles }
        directives fuel versioned
      | .other => directives fuel versioned
    | _ => pure versioned

/-- The handles that stand for something in every document. -/
def defaultHandles : List (String × String) := [("!", "!"), ("!!", "tag:yaml.org,2002:")]

/-- Goes on past ends of documents. -/
def skipEnds : Nat → Parse Unit
  | 0 => pure ()
  | fuel + 1 => do
    if (← peek) == .documentEnd then
      drop
      skipEnds fuel

/-- The content of a document. -/
def content (fuel : Nat) : Parse Node := do
  match ← peek with
  | .directive _ => pure emptyScalar
  | .documentStart => pure emptyScalar
  | .documentEnd => pure emptyScalar
  | .streamEnd => pure emptyScalar
  | _ => node fuel true false

/-- The start of a document that is marked, if there is another document. -/
def documentStarts (fuel : Nat) : Parse Bool := do
  skipEnds fuel
  if (← peek) == .streamEnd then pure false
  else do
    -- neither handles nor anchors are carried over to another document
    modify fun p => { p with handles := [], anchors := [] }
    let _ ← directives fuel false
    if (← peek) == .documentStart then
      drop
      modify fun p => { p with handles := p.handles ++ defaultHandles }
      pure true
    else fail

/-- The only document of a text, if there is one. -/
def document (fuel : Nat) : Parse (Option Node) := do
  let root ← match ← peek with
    | .streamEnd => pure none
    | .directive _ | .documentStart => do
      if ← documentStarts fuel then some <$> content fuel else pure none
    | _ => do
      modify fun p => { p with handles := defaultHandles }
      some <$> node fuel true false
  if (← peek) == .documentEnd then drop
  -- a second document is refused
  if ← documentStarts fuel then fail
  pure root

end Parse

/-- The only document of a text. -/
def Node.read (text : String) : Outcome (Option Node) := do
  let tokens := Token.scan text
  let (node, _) ← (Parse.document (4 * tokens.length + 8)).run { tokens := tokens }
  pure node

end TreeScript.Yaml
