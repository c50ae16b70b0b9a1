import TreeScript.Yaml.Fault

/-!
# A place in a YAML text

A cursor is the rest of a text together with the line and the column at which it starts. Past the
end it shows the end mark, a character that no YAML text contains.
-/

namespace TreeScript.Yaml

/-- What a cursor shows past the end of the text. -/
def endMark : Char := '\x00'

/-- Whether a character ends a line. -/
def isBreak (c : Char) : Bool :=
  c == '\n' || c == '\r' || c == '\x85' || c == '\u2028' || c == '\u2029'

/-- Whether a character ends a line or the text. -/
def isBreakOrEnd (c : Char) : Bool := isBreak c || c == endMark

/-- Whether a character is a space or ends a line or the text. -/
def isSpaceOrEnd (c : Char) : Bool := c == ' ' || isBreakOrEnd c

/-- Whether a character separates words: a space, a tab, or an end of a line or of the text. -/
def isGap (c : Char) : Bool := c == '\t' || isSpaceOrEnd c

/-- Whether a character may stand in a YAML text at all. -/
def isAllowed (c : Char) : Bool :=
  let n := c.toNat
  n == 0x09 || n == 0x0a || n == 0x0d || (0x20 ≤ n && n ≤ 0x7e) || n == 0x85 ||
    (0xa0 ≤ n && n ≤ 0xfffd) || 0x10000 ≤ n

/-- Whether a character may stand in a name of an anchor or of a handle. -/
def isNameChar (c : Char) : Bool := c.isAlphanum || c == '-' || c == '_'

/-- Whether a character may stand in the text of a tag. -/
def isTagChar (c : Char) : Bool := c.isAlphanum || "-;/?:@&=+$,_.!~*'()[]%".toList.contains c

structure Cursor where
  /-- What is left of the text. -/
  rest : List Char
  /-- How many characters are before it. -/
  index : Nat
  /-- How many lines are before it. -/
  line : Nat
  /-- How many characters of its line are before it. -/
  column : Nat

namespace Cursor

def start (text : String) : Cursor := ⟨text.toList, 0, 0, 0⟩

def peek (c : Cursor) : Char := c.rest.headD endMark

/-- The character some places further. -/
def peekAt (c : Cursor) (n : Nat) : Char := (c.rest.drop n).headD endMark

/-- The cursor after one character. A carriage return before a line feed does not end the line
itself, and a byte order mark takes no column. -/
def advance (c : Cursor) : Cursor :=
  match c.rest with
  | [] => c
  | ch :: rest =>
    -- the carriage return of a pair leaves the line to the line feed
    let ends := ch != '\r' && isBreak ch || ch == '\r' && rest.head? != some '\n'
    if ends then ⟨rest, c.index + 1, c.line + 1, 0⟩
    else ⟨rest, c.index + 1, c.line, if ch == '\ufeff' then c.column else c.column + 1⟩

def skip : Nat → Cursor → Cursor
  | 0, c => c
  | n + 1, c => skip n c.advance

/-- How many characters at the cursor satisfy a test. -/
def span (c : Cursor) (test : Char → Bool) : Nat := (c.rest.takeWhile test).length

/-- The cursor after the characters that satisfy a test. -/
def skipWhile (c : Cursor) (test : Char → Bool) : Cursor := c.skip (c.span test)

/-- The text of the next characters. -/
def ahead (c : Cursor) (n : Nat) : String := String.ofList (c.rest.take n)

/-- Whether a document marker of three equal characters stands at the cursor. -/
def atMarker (c : Cursor) (mark : Char) : Bool :=
  c.rest.take 3 == [mark, mark, mark] && isGap (c.peekAt 3)

/-- Whether a marker that ends a document stands at the cursor. -/
def atSeparator (c : Cursor) : Bool := c.atMarker '-' || c.atMarker '.'

end Cursor

/-- A step that reads from a cursor. -/
abbrev Lex := StateT Cursor Outcome

namespace Lex

/-- The text is not YAML. -/
def fail {α : Type} : Lex α := throw .unreadable

def peek : Lex Char := Cursor.peek <$> get

def peekAt (n : Nat) : Lex Char := (Cursor.peekAt · n) <$> get

def skip (n : Nat) : Lex Unit := modify (Cursor.skip n)

def take (n : Nat) : Lex String := do
  let c ← get
  set (c.skip n)
  pure (c.ahead n)

def takeWhile (test : Char → Bool) : Lex String := do
  let c ← get
  take (c.span test)

def skipWhile (test : Char → Bool) : Lex Unit := modify (Cursor.skipWhile · test)

def skipSpaces : Lex Unit := skipWhile (· == ' ')

/-- Takes characters of which there has to be one. -/
def takeSome (test : Char → Bool) : Lex String := do
  let s ← takeWhile test
  if s == "" then fail else pure s

/-- Accepts the next character if it satisfies a test. -/
def expect (test : Char → Bool) : Lex Unit := do
  if test (← peek) then pure () else fail

/-- Takes an end of line as the text that it stands for, which is empty if there is none. -/
def takeBreak : Lex String := do
  let c ← get
  if c.rest.take 2 == ['\r', '\n'] then
    skip 2
    pure "\n"
  else if c.peek == '\r' || c.peek == '\n' || c.peek == '\x85' then
    skip 1
    pure "\n"
  else if c.peek == '\u2028' || c.peek == '\u2029' then
    skip 1
    pure c.peek.toString
  else pure ""

/-- Goes on past a comment, if there is one. -/
def skipComment : Lex Unit := do
  if (← peek) == '#' then skipWhile (fun c => !isBreak c)

/-- Goes on past what is left of a line, which may only be a comment. -/
def finishLine : Lex Unit := do
  skipSpaces
  skipComment
  expect isBreakOrEnd
  let _ ← takeBreak
  pure ()

end Lex

end TreeScript.Yaml
