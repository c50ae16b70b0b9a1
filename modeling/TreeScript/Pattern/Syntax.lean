/-!
# Search patterns

The syntax of search patterns as a tree. What a flag changes is noted at the nodes that it changes,
so that the meaning of a node does not depend on where it stands.

Characters are given by their codes, since a pattern can name codes that no text has.
-/

namespace TreeScript.Pattern

/-- Whether and how case is disregarded. -/
inductive Case where
  /-- Case counts. -/
  | exact
  /-- Case does not count, in all scripts. -/
  | folded
  /-- Case does not count for ASCII letters. -/
  | foldedAscii
  deriving DecidableEq, Repr, Inhabited

/-- The kinds of characters that have names in patterns. -/
inductive Category where
  /-- Decimal digits. -/
  | digit
  /-- White space. -/
  | space
  /-- Letters, digits and the underscore. -/
  | word
  deriving DecidableEq, Repr

/-- An element of a set of characters. -/
inductive SetItem where
  /-- A character. -/
  | code (code : Nat)
  /-- The characters between two codes. -/
  | range (first last : Nat)
  /-- The characters of a kind, or all others. -/
  | category (kind : Category) (negated : Bool)
  deriving DecidableEq, Repr

/-- How a repetition tries its counts. -/
inductive Greed where
  /-- As many as possible first. -/
  | greedy
  /-- As few as possible first. -/
  | lazy
  /-- As many as possible only. -/
  | possessive
  deriving DecidableEq, Repr

/-- Places in a text. -/
inductive Anchor where
  /-- The start of the text, or of a line. -/
  | start (ofLine : Bool)
  /-- The start of the text. -/
  | textStart
  /-- The end of the text or of its last line, or of a line. -/
  | finish (ofLine : Bool)
  /-- The end of the text. -/
  | textEnd
  /-- Between a word and something else, or elsewhere. -/
  | boundary (ascii negated : Bool)
  deriving DecidableEq, Repr

/-- The least and the greatest number of characters that something matches. -/
structure Width where
  /-- The least number. -/
  least : Nat
  /-- The greatest number, or one that stands for no bound. -/
  most : Nat
  deriving DecidableEq, Repr

/-- A node of a pattern. -/
inductive Node where
  /-- A character, or any other one. Case is disregarded only for a character that has case. -/
  | literal (code : Nat) (negated : Bool) (case : Case)
  /-- Any character, a line feed maybe excepted. -/
  | any (withLineFeed : Bool)
  /-- A character of a set, or of none of it. Case is disregarded only for a set that has case. -/
  | set (negated : Bool) (items : List SetItem) (case : Case) (ascii : Bool)
  /-- A place. -/
  | anchor (anchor : Anchor)
  /-- Some nodes, remembered under a number; without one, nodes with flags of their own. -/
  | group (number : Option Nat) (body : List Node)
  /-- One of several lists of nodes. -/
  | branch (alternatives : List (List Node))
  /-- Nodes repeated. -/
  | repetition (greed : Greed) (least : Nat) (most : Option Nat) (body : List Node)
  /-- Nodes of which only the first way to match counts. -/
  | atomic (body : List Node)
  /-- What a group matched, once more. -/
  | reference (number : Nat) (case : Case)
  /-- One of two lists of nodes, by whether a group has matched. -/
  | condition (number : Nat) (onMatch otherwise : List Node)
  /-- Nodes that match from here, or before here if they have a width, or do not. -/
  | look (behind : Option Width) (negated : Bool) (body : List Node)
  deriving Repr, Inhabited

/-- Whether two nodes are the same one-character node, place or reference. Nodes with parts are
never the same. -/
def Node.same : Node → Node → Bool
  | .literal a m _, .literal b n _ => a == b && m == n
  | .any _, .any _ => true
  | .set m a _ _, .set n b _ _ => m == n && a == b
  | .anchor a, .anchor b => a == b
  | .reference a _, .reference b _ => a == b
  | _, _ => false

/-- Whether a node matches exactly one character. -/
def Node.isSingle : Node → Bool
  | .literal .. | .any _ | .set .. => true
  | _ => false

mutual

/-- The first node that does something: a group with flags of its own does nothing itself. -/
def Node.first? : Node → Option Node
  | .group none body => firstOf? body
  | node => some node
termination_by structural n => n

/-- The first of some nodes that does something. -/
def firstOf? : List Node → Option Node
  | [] => none
  | node :: rest =>
    match Node.first? node with
    | some first => some first
    | none => firstOf? rest
termination_by structural ns => ns

end

mutual

/-- The one-character node that a node is, if it is one, maybe with flags of its own. -/
def Node.single? : Node → Option Node
  | .group none body => singleOf? body
  | node => if node.isSingle then some node else none
termination_by structural n => n

/-- The one-character node that a list of nodes consists of, if it does. -/
def singleOf? : List Node → Option Node
  | [] => none
  | node :: rest => if rest.isEmpty then Node.single? node else none
termination_by structural ns => ns

end

end TreeScript.Pattern
