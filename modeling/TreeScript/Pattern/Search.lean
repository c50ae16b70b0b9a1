import TreeScript.Pattern.Match

/-!
# Searching

A pattern is looked for in a text from left to right: the first position from which it matches
counts. Positions from which it cannot match are left out beforehand: those too close to the end for
the least width of the pattern, and those whose character cannot be the first one.

Which characters can be the first one is found out under the flags of the whole pattern.
-/

namespace TreeScript.Pattern

/-! ## First characters -/

mutual

/-- Whether a node starts with a character that is compared as it is; a node that is empty does not
say. -/
def Node.startsPlainly? : Node → Option Bool
  | .literal _ false .exact => some true
  | .group _ body => startPlainly? body
  | _ => some false
termination_by structural n => n

/-- Whether nodes start with a character that is compared as it is; empty nodes do not say. -/
def startPlainly? : List Node → Option Bool
  | [] => none
  | node :: rest =>
    match Node.startsPlainly? node with
    | some plainly => some plainly
    | none => startPlainly? rest
termination_by structural ns => ns

end

mutual

/-- The node inside of groups with which a node starts. -/
def Node.opening? : Node → Option Node
  | .group _ body => openingOf? body
  | node => some node
termination_by structural n => n

/-- The node inside of groups with which nodes start. -/
def openingOf? : List Node → Option Node
  | [] => none
  | node :: _ => Node.opening? node
termination_by structural ns => ns

end

/-- The code of the character with which an alternative starts, if it is compared as it is. -/
def plainStart? : List Node → Option SetItem
  | .literal c false .exact :: _ => some (.code c)
  | _ => none

/-- The set of characters with which nodes can start, if it is known. -/
def firstSet? (ascii : Bool) (nodes : List Node) : Option Node :=
  match openingOf? nodes with
  | some (.set negated items case _) =>
    if case == .exact || items.all (SetItem.isCaseless case) then
      some (.set negated items .exact ascii)
    else none
  | some (.branch alternatives) =>
    (alternatives.mapM plainStart?).map fun items => .set false items .exact ascii
  | _ => none

/-- The positions in a text from which a match of a pattern is tried. -/
def starts (pattern : Pattern) (text : Array Glyph) : List Nat :=
  if text.size < pattern.least then []
  else if pattern.least == 0 then List.range (text.size + 1)
  else if startPlainly? pattern.nodes == some true then List.range text.size
  else
    match firstSet? pattern.ascii pattern.nodes with
    | some first => (List.range text.size).filter fun position => first.acceptsAt text position
    | none => List.range (text.size - (pattern.least - 1) + 1)

/-- The greatest number of frames that a search works off one after the other. -/
def maxFuel : Nat := Nat.pow 2 60

/-- The trace of the first match of a pattern in a text. -/
def firstMatch? (pattern : Pattern) (text : Array Glyph) : Option Trace :=
  let fuel := min (weightAll text.size pattern.nodes + 3) maxFuel
  (starts pattern text).findSome? fun position =>
    match run text fuel [.nodes pattern.nodes] [] position ⟨position, #[]⟩ with
    | (true, trace) => some trace
    | (false, _) => none

/-- Whether a pattern matches somewhere in a line. A match in which the end of a group lies before
its start is no use. -/
def search (pattern : Pattern) (line : String) : Result Bool :=
  match firstMatch? pattern (line.toList.map Glyph.ofChar).toArray with
  | none => pure false
  | some trace =>
    if trace.isCrossed then
      throw (.raised "SystemError"
        "The span of capturing group is wrong, please report a bug for the re module.")
    else pure true

end TreeScript.Pattern
