import TreeScript.Text.Base64
import TreeScript.Text.Hex
import TreeScript.Value.Display
import TreeScript.Yaml.Cursor
import TreeScript.Yaml.Schema

/-!
# Writing YAML

`Yaml.write` is a YAML text of a value: collections in block style with an indentation of two, a
list in a map at the indentation of the map, and scalars without quotes wherever they read back as
what they are. Lines are broken at single spaces after column eighty. Only ASCII is written.

What has been written matters for what comes next only through a few facts, which a `Page` keeps:
the column, whether a space or only indentation stands before the place, and whether the text so far
could go on in the next line.
-/

namespace TreeScript.Yaml

structure Page where
  /-- What is written, the last piece first. -/
  pieces : List String := []
  /-- How many characters are in the last line. -/
  column : Nat := 0
  /-- Whether a space stands before the place. -/
  spaced : Bool := true
  /-- Whether only indentation stands before the place in its line. -/
  indented : Bool := true
  /-- Whether the text could go on in the next line. -/
  openEnded : Bool := false

namespace Page

def width : Nat := 80

/-- The text that is written. -/
def text (p : Page) : String := String.join p.pieces.reverse

def put (p : Page) (s : String) : Page :=
  { p with pieces := s :: p.pieces, column := p.column + s.length }

/-- Writes a mark, after a space if it needs one. It may leave the place as good as spaced, or as
good as only indented. -/
def markWith (p : Page) (s : String) (needsSpace spaced indented : Bool) : Page :=
  let q := p.put (if p.spaced || !needsSpace then s else " " ++ s)
  { q with spaced := spaced, indented := p.indented && indented, openEnded := false }

def mark (p : Page) (s : String) (needsSpace : Bool) : Page := p.markWith s needsSpace false false

/-- Writes an opening bracket. -/
def opening (p : Page) (s : String) : Page := p.markWith s true true false

/-- Writes a mark after which the line may go on as after indentation. -/
def bullet (p : Page) (s : String) : Page := p.markWith s true false true

/-- Ends the line. -/
def breakLine (p : Page) : Page :=
  { p with pieces := "\n" :: p.pieces, column := 0, spaced := true, indented := true }

/-- Goes to a column: in this line if only indentation is before it, else in a new one. -/
def toIndent (p : Page) (indent : Nat) : Page :=
  let q := if !p.indented || p.column > indent || (p.column == indent && !p.spaced) then
      p.breakLine
    else p
  if q.column < indent then
    { q.put (String.ofList (List.replicate (indent - q.column) ' ')) with spaced := true }
  else q

/-- Goes to a column where a scalar goes on. -/
def foldLine (p : Page) (indent : Nat) : Page :=
  { p.toIndent indent with spaced := false, indented := false }

end Page

/-! ## How a scalar can be written -/

/-- What matters about a text for the ways in which it can be written. -/
structure Analysis where
  multiline : Bool
  plain : Bool
  single : Bool
  block : Bool

/-- Whether a character is a line end that YAML writes. -/
def isLineEnd (c : Char) : Bool := c == '\n' || c == '\x85' || c == '\u2028' || c == '\u2029'

/-- Whether a character is written only by an escape. -/
def isSpecial (c : Char) : Bool := !(c == '\n' || (' ' ≤ c && c ≤ '~'))

/-- Whether a text has neighbouring characters of two kinds. -/
def hasPair (first second : Char → Bool) : List Char → Bool
  | a :: b :: rest => (first a && second b) || hasPair first second (b :: rest)
  | _ => false

/-- Whether some character of a text is, at its place, an indicator in a block. The place is given
by the character before it, if there is one, and the one after it. -/
def hasIndicator : Option Char → List Char → Bool
  | _, [] => false
  | before, c :: rest =>
    let gapAfter := match rest with
      | [] => true
      | d :: _ => isGap d
    let here := match before with
      | none =>
        -- what no text without quotes may start with
        "#,[]\x7b\x7d&*!|>'\"%@".toList.contains c || c == '\x60' ||
          ((c == '?' || c == ':' || c == '-') && gapAfter)
      | some b => (c == ':' && gapAfter) || (c == '#' && isGap b)
    here || hasIndicator (some c) rest

/-- Whether a text starts like a document marker. -/
def startsLikeMarker (cs : List Char) : Bool :=
  cs.take 3 == ['-', '-', '-'] || cs.take 3 == ['.', '.', '.']

def analyze (text : String) : Analysis :=
  let cs := text.toList
  if cs.isEmpty then ⟨false, true, true, false⟩
  else
    let isSpace := (· == ' ')
    let edge (test : Char → Bool) : Bool :=
      (cs.head?.map test).getD false || (cs.getLast?.map test).getD false
    let lastSpace := (cs.getLast?.map isSpace).getD false
    let multiline := cs.any isLineEnd
    let breakSpace := hasPair isLineEnd isSpace cs
    let spoiled := hasPair isSpace isLineEnd cs || cs.any isSpecial
    { multiline := multiline
      plain := !(edge isSpace || edge isLineEnd || breakSpace || spoiled || multiline ||
        startsLikeMarker cs || hasIndicator none cs)
      single := !(breakSpace || spoiled)
      block := !(lastSpace || spoiled) }

/-- The ways in which a scalar is written. -/
inductive ScalarStyle where
  | plain
  | single
  | double
  | literal
  deriving DecidableEq

/-- A scalar to be written: its tag, its text, and whether it is to be a block if it can. -/
structure ScalarForm where
  tag : Tag
  text : String
  block : Bool := false

namespace ScalarForm

/-- Whether the text reads back with the tag if it has no quotes. -/
def resolves (form : ScalarForm) : Bool := form.tag == Tag.ofPlain form.text

/-- The way in which a scalar is written, which for a key is in one line. -/
def style (form : ScalarForm) (asKey : Bool) : ScalarStyle :=
  let a := analyze form.text
  if !form.block && form.resolves && !(asKey && (form.text == "" || a.multiline)) && a.plain then
    .plain
  else if form.block && !asKey && a.block then .literal
  else if a.single && !(asKey && a.multiline) then .single
  else .double

/-- The short name of a tag. -/
def tagText : Tag → String
  | .null => "!!null"
  | .bool => "!!bool"
  | .int => "!!int"
  | .float => "!!float"
  | .timestamp => "!!timestamp"
  | .str => "!!str"
  | .binary => "!!binary"
  | .set => "!!set"
  | .seq => "!!seq"
  | .map => "!!map"
  | _ => "!"

/-- Whether the tag has to be written. -/
def needsTag (form : ScalarForm) (style : ScalarStyle) : Bool :=
  if style == .plain then !form.resolves else form.tag != .str

/-- Whether a scalar can be a key in one line with its value. -/
def isSimpleKey (form : ScalarForm) : Bool :=
  -- the length of a key counts with its tag, whether or not it is written
  (tagText form.tag).length + form.text.length < 128 && form.text != "" &&
    !form.text.toList.any isLineEnd

end ScalarForm

/-! ## The ways of writing a scalar -/

/-- A text cut where the class of its characters changes. -/
def runs (classOf : Char → Nat) : List Char → List (List Char)
  | [] => []
  | c :: rest =>
    match runs classOf rest with
    | (d :: ds) :: others =>
      if classOf c == classOf d then (c :: d :: ds) :: others else [c] :: (d :: ds) :: others
    | others => [c] :: others

/-- Classes of characters: spaces, line ends, others. -/
def spaceClass (c : Char) : Nat := if c == ' ' then 1 else if isLineEnd c then 2 else 0

/-- Writes a text without quotes. -/
def Page.plain (p : Page) (indent : Nat) (split root : Bool) (text : String) : Page :=
  let p := if root then { p with openEnded := true } else p
  if text == "" then p
  else
    let p := if p.spaced then p else p.put " "
    let p := { p with spaced := false, indented := false }
    (runs spaceClass text.toList).foldl (fun p run =>
      -- a line is broken only at a single space
      if run == [' '] && p.column > Page.width && split then p.foldLine indent
      else p.put (String.ofList run)) p

/-- Writes line ends inside single quotes: one more than there are. -/
def Page.quotedBreaks (p : Page) (indent : Nat) (run : List Char) : Page :=
  let p := if run.head? == some '\n' then p.breakLine else p
  (run.foldl (fun p _ => p.breakLine) p).toIndent indent

/-- Writes the parts of a text in single quotes. -/
def Page.singleRuns (indent : Nat) (split : Bool) : (first : Bool) → List (List Char) → Page → Page
  | _, [], p => p
  | first, run :: rest, p =>
    let p :=
      if run == [' '] && p.column > Page.width && split && !first && !rest.isEmpty then
        p.toIndent indent
      else if run.head?.map spaceClass == some 2 then p.quotedBreaks indent run
      else p.put (String.join (run.map fun c => if c == '\'' then "''" else c.toString))
    Page.singleRuns indent split false rest p

def Page.single (p : Page) (indent : Nat) (split : Bool) (text : String) : Page :=
  (Page.singleRuns indent split true (runs spaceClass text.toList) (p.mark "'" true)).mark "'" false

/-- The escape of a character in double quotes. -/
def escapeText (c : Char) : String :=
  match c with
  | '\x00' => "\\0"
  | '\x07' => "\\a"
  | '\x08' => "\\b"
  | '\t' => "\\t"
  | '\n' => "\\n"
  | '\x0b' => "\\v"
  | '\x0c' => "\\f"
  | '\r' => "\\r"
  | '\x1b' => "\\e"
  | '"' => "\\\""
  | '\\' => "\\\\"
  | '\x85' => "\\N"
  | '\xa0' => "\\_"
  | '\u2028' => "\\L"
  | '\u2029' => "\\P"
  | _ =>
    let n := c.toNat
    if n ≤ 0xff then "\\x" ++ Text.hexPaddedUpper 2 n
    else if n ≤ 0xffff then "\\u" ++ Text.hexPaddedUpper 4 n
    else "\\U" ++ Text.hexPaddedUpper 8 n

/-- Whether a character is written by an escape in double quotes. -/
def isEscaped (c : Char) : Bool := c == '"' || c == '\\' || !(' ' ≤ c && c ≤ '~')

/-- Breaks a line inside double quotes. If the text goes on with a space, it is escaped. -/
def Page.escapedBreak (p : Page) (indent : Nat) (next : Option Char) : Page :=
  let q := (p.put "\\").foldLine indent
  if next == some ' ' then q.put "\\" else q

/-- Writes characters in double quotes; `held` are those that have been passed and not written yet,
the last one first. A line may be broken before a space and next to an escape, but not at the ends
of the text. -/
def Page.doubleChars (indent : Nat) (split : Bool) :
    (first : Bool) → (held : List Char) → List Char → Page → Page
  | _, held, [], p => if held.isEmpty then p else p.put (String.ofList held.reverse)
  | first, held, c :: rest, p =>
    let inner := !first && !rest.isEmpty && split
    let flushed := if held.isEmpty then p else p.put (String.ofList held.reverse)
    if isEscaped c then
      let p := flushed.put (escapeText c)
      let p :=
        if inner && p.column > Page.width + 1 then p.escapedBreak indent rest.head? else p
      Page.doubleChars indent split false [] rest p
    else if inner && (c == ' ' || held.isEmpty) && p.column + held.length > Page.width then
      Page.doubleChars indent split false [c] rest (flushed.escapedBreak indent (some c))
    else Page.doubleChars indent split false (c :: held) rest p

def Page.double (p : Page) (indent : Nat) (split : Bool) (text : String) : Page :=
  (Page.doubleChars indent split true [] text.toList (p.mark "\"" true)).mark "\"" false

/-- What the header of a block says about its text: an indentation if it starts with a space, and
what becomes of the line ends after it. -/
def blockHints (cs : List Char) : String :=
  let isSpaceOrLineEnd (c : Char) : Bool := c == ' ' || isLineEnd c
  let indentation := if (cs.head?.map isSpaceOrLineEnd).getD false then "2" else ""
  let chomping := match cs.reverse with
    | [] => ""
    | c :: rest =>
      if !isLineEnd c then "-"
      else match rest with
        | [] => "+"
        | d :: _ => if isLineEnd d then "+" else ""
  indentation ++ chomping

/-- Writes the lines of a block. -/
def Page.literalRuns (indent : Nat) : List (List Char) → Page → Page
  | [], p => p
  | run :: rest, p =>
    let p :=
      if run.head?.map isLineEnd == some true then
        let p := run.foldl (fun p _ => p.breakLine) p
        if rest.isEmpty then p else p.toIndent indent
      else
        let p := { p with pieces := String.ofList run :: p.pieces }
        if rest.isEmpty then p.breakLine else p
    Page.literalRuns indent rest p

def Page.literal (p : Page) (indent : Nat) (text : String) : Page :=
  let cs := text.toList
  let hints := blockHints cs
  let p := p.mark ("|" ++ hints) true
  let p := { p with openEnded := hints.endsWith "+" }
  let classOf (c : Char) : Nat := if isLineEnd c then 1 else 0
  let parts := runs classOf cs
  let p := p.breakLine
  let startsInLine := (cs.head?.map fun c => !isLineEnd c).getD false
  Page.literalRuns indent parts (if startsInLine then p.toIndent indent else p)

def Page.scalar (p : Page) (indent : Nat) (root asKey : Bool) (form : ScalarForm) : Page :=
  let style := form.style asKey
  let p := if form.needsTag style then p.mark (ScalarForm.tagText form.tag) true else p
  match style with
  | .plain => p.plain indent (!asKey) root form.text
  | .single => p.single indent (!asKey) form.text
  | .double => p.double indent (!asKey) form.text
  | .literal => p.literal indent form.text

/-! ## Values -/

/-- The text of a binary64 number, which always has a point. -/
def floatText : Binary64 → String
  | .nan _ => ".nan"
  | .infinite negative => if negative then "-.inf" else ".inf"
  | x =>
    let s := x.text
    -- with an exponent but no point it would not be read back as a number
    if s.toList.contains '.' || !s.toList.contains 'e' then s else s.replace "e" ".0e"

/-- The scalar that a value is written as, if it is one. -/
def scalarForm? : Value → Option ScalarForm
  | .null => some { tag := .null, text := "null" }
  | .bool b => some { tag := .bool, text := if b then "true" else "false" }
  | .int i => some { tag := .int, text := intText i }
  | .float x => some { tag := .float, text := floatText x }
  | .str s => some { tag := .str, text := s }
  | .bytes bs => some { tag := .binary, text := Text.Base64.encode bs, block := true }
  | .date d => some { tag := .timestamp, text := d.text }
  | .datetime t => some { tag := .timestamp, text := t.text " " }
  | _ => none

/-- Whether a value is a collection without elements. -/
def isEmptyCollection : Value → Bool
  | .list [] | .tuple [] | .map [] => true
  | _ => false

/-- Whether a value can be a key in one line with its value. -/
def isSimpleKey (v : Value) : Bool :=
  match scalarForm? v with
  | some form => form.isSimpleKey
  | none => isEmptyCollection v

/-- Where a value stands. -/
inductive Place where
  /-- It is the whole document. -/
  | root
  /-- It is an element of a list. -/
  | item
  /-- It is the value of an entry, or its key on lines of its own. -/
  | entry
  /-- It is a key in one line with its value. -/
  | key
  deriving DecidableEq

/-- The indentation of a scalar inside another indentation, if there is one. -/
def scalarIndent : Option Nat → Nat
  | none => 2
  | some n => n + 2

/-- The indentation of a collection inside another indentation, if there is one. -/
def blockIndent : Option Nat → Nat
  | none => 0
  | some n => n + 2

/-- The indentation of a list: that of the map around it if it starts in the line of its key. -/
def listIndent (p : Page) (place : Place) (indent : Option Nat) : Nat :=
  match indent with
  | some n => if (place == .entry || place == .key) && !p.indented then n else n + 2
  | none => 0

mutual

/-- Writes a value at a place inside an indentation. -/
def writeAt : Place → Option Nat → Value → Page → Result Page
  | place, indent, .list items, p =>
    if items.isEmpty then pure ((p.opening "[").mark "]" false)
    else writeItems (listIndent p place indent) items p
  | place, indent, .tuple items, p =>
    if items.isEmpty then pure ((p.opening "[").mark "]" false)
    else writeItems (listIndent p place indent) items p
  | _, indent, .map entries, p =>
    if entries.isEmpty then pure ((p.opening "\x7b").mark "\x7d" false)
    else writeEntries (blockIndent indent) entries p
  | _, indent, .set items, p =>
    let p := p.mark "!!set" true
    if items.isEmpty then pure ((p.opening "\x7b").mark "\x7d" false)
    else writeElements (blockIndent indent) items p
  | place, indent, v, p =>
    match scalarForm? v with
    | some form => pure (p.scalar (scalarIndent indent) (place == .root) (place == .key) form)
    | none => throw .unrepresentable
termination_by structural _ _ v => v

def writeItems : Nat → List Value → Page → Result Page
  | _, [], p => pure p
  | indent, v :: rest, p => do
    let p ← writeAt .item (some indent) v ((p.toIndent indent).bullet "-")
    writeItems indent rest p
termination_by structural _ vs => vs

def writeEntries : Nat → List (Value × Value) → Page → Result Page
  | _, [], p => pure p
  | indent, (k, v) :: rest, p => do
    let p := p.toIndent indent
    let p ← if isSimpleKey k then do
        let p ← writeAt .key (some indent) k p
        pure (p.mark ":" false)
      else do
        let p ← writeAt .entry (some indent) k (p.bullet "?")
        pure ((p.toIndent indent).bullet ":")
    let p ← writeAt .entry (some indent) v p
    writeEntries indent rest p
termination_by structural _ es => es

/-- Writes the elements of a set, as keys of nothing. -/
def writeElements : Nat → List Value → Page → Result Page
  | _, [], p => pure p
  | indent, k :: rest, p => do
    let p := p.toIndent indent
    let p ← if isSimpleKey k then do
        let p ← writeAt .key (some indent) k p
        pure (p.mark ":" false)
      else do
        let p ← writeAt .entry (some indent) k (p.bullet "?")
        pure ((p.toIndent indent).bullet ":")
    writeElements indent rest (p.scalar (scalarIndent (some indent)) false false
      { tag := .null, text := "null" })
termination_by structural _ vs => vs

end

def write (v : Value) : Result String := do
  let p ← writeAt .root none v {}
  let p := p.toIndent 0
  -- without the marker a reader would take what follows for a part of the text
  let p := if p.openEnded then (p.mark "..." true).toIndent 0 else p
  pure p.text

end TreeScript.Yaml
