import TreeScript.Failure
import TreeScript.Files.Tree
import TreeScript.Value.Elements

/-!
# Wildcards and listings

A wildcard pattern is a sequence of pieces: a star stands for any characters, a question mark for
one, and every other character for itself. A name is selected if some part of it can be cut into the
pieces of the pattern; stars and question marks do not reach over a line feed.

`FileTree.listing` goes through a tree, depth first and by the order of names, and lists the
selected files until it has enough of them.
-/

namespace TreeScript

/-- A piece of a pattern for names. -/
inductive Wildcard where
  /-- Any characters. -/
  | any
  /-- One character. -/
  | one
  /-- The character itself. -/
  | exactly (c : Char)
  deriving DecidableEq, Repr, Inhabited

namespace Wildcard

/-- The piece that a character of a pattern means. -/
def ofChar (c : Char) : Wildcard :=
  if c == '*' then .any else if c == '?' then .one else .exactly c

/-- The pieces of a pattern. -/
def ofText (s : String) : List Wildcard := s.toList.map ofChar

/-- What is left of a text after any number of its first characters, as far as the first line feed.
-/
def reach : List Char → List (List Char)
  | [] => [[]]
  | c :: rest => if c == '\n' then [c :: rest] else (c :: rest) :: reach rest

/-- Whether a text starts with the pieces. -/
def matchesStart : List Wildcard → List Char → Bool
  | [], _ => true
  | .any :: pieces, s => (reach s).any fun rest => matchesStart pieces rest
  | .one :: pieces, c :: rest => c != '\n' && matchesStart pieces rest
  | .exactly d :: pieces, c :: rest => c == d && matchesStart pieces rest
  | _ :: _, [] => false

/-- Whether the pieces are found anywhere in a text. -/
def isFoundIn (pieces : List Wildcard) : List Char → Bool
  | [] => matchesStart pieces []
  | c :: rest => matchesStart pieces (c :: rest) || isFoundIn pieces rest

/-- Whether the pieces are found in a name. -/
def selects (pieces : List Wildcard) (name : String) : Bool := isFoundIn pieces name.toList

/-- The pieces that an element of a pattern means. An element that is longer than a character means
itself, and one that is no text is refused; bytes are refused only when the pattern is put together.
-/
def ofElement (v : Value) : Result (Option (List Wildcard)) :=
  match v with
  | .str "*" => pure (some [.any])
  | .str "?" => pure (some [.one])
  | .str s => pure (some (s.toList.map exactly))
  | .bytes _ => pure none
  | other =>
    let kind := other.qualifiedKindName
    throw (.type (.misfit s!"decoding to str: need a bytes-like object, {kind} found"))

/-- The pieces of a pattern that can be any value with elements (`_glob_regex`). -/
def ofValue (v : Value) : Result (List Wildcard) := do
  let elements ← v.elements
  let pieces ← elements.mapM ofElement
  match pieces.findIdx? Option.isNone with
  | some i => throw (.type (.notAName i "bytes"))
  | none => pure (pieces.flatMap fun p => p.getD [])

end Wildcard

namespace FileTree

mutual

/-- The tree with the names of every folder in order. -/
def sorted : FileTree → FileTree
  | .file content modified => .file content modified
  | .folder entries => .folder ((sortedEntries entries).mergeSort fun a b => a.1 ≤ b.1)
termination_by structural t => t

/-- The entries with the names in every folder in order. -/
def sortedEntries : List (String × FileTree) → List (String × FileTree)
  | [] => []
  | (name, t) :: rest => (name, sorted t) :: sortedEntries rest
termination_by structural es => es

end

mutual

/-- Adds to a list the files of an entry that are selected. A folder with a dot at the start is
passed over. -/
def walkEntry (select : String → Bool) (limit : Nat) (shown name : String) :
    FileTree → List String → List String
  | .file .., found => if select name then found ++ [s!"{shown}/{name}"] else found
  | .folder inner, found =>
    if name.startsWith "." then found else walk select limit s!"{shown}/{name}" inner found
termination_by structural t => t

/-- Adds to a list the files of entries that are selected, until there are as many as the limit
(`_walk`). -/
def walk (select : String → Bool) (limit : Nat) (shown : String) :
    List (String × FileTree) → List String → List String
  | [], found => found
  | (name, t) :: rest, found =>
    if limit ≤ found.length then found
    else walk select limit shown rest (walkEntry select limit shown name t found)
termination_by structural es => es

end

/-- The selected files under a folder, at most as many as the limit; `shown` is the text that stands
for the folder. -/
def listing (select : String → Bool) (limit : Nat) (shown : String) (t : FileTree) : List String :=
  match t.sorted with
  | .file .. => []
  | .folder entries => (walk select limit shown entries []).take limit

end FileTree

end TreeScript
