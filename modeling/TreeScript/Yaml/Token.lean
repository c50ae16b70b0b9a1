import TreeScript.Text.Hex
import TreeScript.Text.Utf8
import TreeScript.Yaml.Cursor

/-!
# Tokens of YAML

A YAML text is cut into tokens: the indicators, scalars, anchors and tags that are written in it,
and the starts and ends of block collections that its indentation implies.

What comes before a colon is a key, but only the colon shows it. So every place at which a key may
start is remembered, and when the colon comes the key token is put there. A place is forgotten at
the end of its line or after 1024 characters; if a key had to start there, the text is not YAML.

If the text turns out not to be YAML, the tokens before that place are followed by a token that
carries the failure. Who reads the tokens meets it only if the tokens before it are in order. But a
token at which a key may start is not given out before it is known whether one does, so that a
failure until then takes its place.
-/

namespace TreeScript.Yaml

/-- A line that says something about the document after it. -/
inductive Directive where
  /-- The version of YAML. -/
  | version (major minor : Nat)
  /-- What a handle in a tag stands for. -/
  | handle (name replacement : String)
  /-- Any other directive. -/
  | other
  deriving DecidableEq, Repr

inductive Token where
  | directive (directive : Directive)
  | documentStart
  | documentEnd
  | streamEnd
  /-- The start of a list by indentation. -/
  | blockSequenceStart
  /-- The start of a map by indentation. -/
  | blockMappingStart
  /-- The end of a collection by indentation. -/
  | blockEnd
  | flowSequenceStart
  | flowSequenceEnd
  | flowMappingStart
  | flowMappingEnd
  | key
  | value
  | blockEntry
  | flowEntry
  | alias (name : String)
  | anchor (name : String)
  /-- A tag, by its handle and the text after it. -/
  | tag (handle : Option String) (suffix : String)
  /-- A scalar, and whether it is written without quotes. -/
  | scalar (text : String) (plain : Bool)
  /-- The text is not YAML from here on. -/
  | fault (reason : Fault)
  deriving DecidableEq, Repr

namespace Lex

/-! ## Directives, anchors and tags -/

def versionNumber : Lex Nat := do
  let digits ← takeSome Char.isDigit
  pure (digits.toList.foldl (fun n c => 10 * n + (c.toNat - 48)) 0)

/-- The bytes that a run of escapes by percent signs denotes. -/
def escapedBytes : Nat → Lex (List UInt8)
  | 0 => pure []
  | fuel + 1 => do
    if (← peek) == '%' then
      skip 1
      match Text.ofHex? [← peek, ← peekAt 1] with
      | some n => do
        skip 2
        let rest ← escapedBytes fuel
        pure (n.toUInt8 :: rest)
      | none => fail
    else pure []

/-- The text of a tag after its handle. -/
def tagText : Nat → Lex String
  | 0 => pure ""
  | fuel + 1 => do
    let word ← takeWhile (fun c => isTagChar c && c != '%')
    if (← peek) == '%' then
      let c ← get
      let bytes ← escapedBytes c.rest.length
      match Text.decodeUtf8? bytes with
      | some s => do
        let rest ← tagText fuel
        pure (word ++ s ++ rest)
      | none => fail
    else pure word

/-- The text of a tag after its handle, which is not empty. -/
def tagSuffix : Lex String := do
  let c ← get
  let s ← tagText (c.rest.length + 1)
  let after ← get
  -- the place and not the text tells whether anything was there
  if after.index == c.index then fail else pure s

/-- A handle: an exclamation mark, or a name between two. -/
def tagHandle : Lex String := do
  expect (· == '!')
  if (← peekAt 1) == ' ' then take 1
  else do
    skip 1
    let name ← takeWhile isNameChar
    expect (· == '!')
    skip 1
    pure ("!" ++ name ++ "!")

/-- A directive, after its percent sign. -/
def directive : Lex Directive := do
  skip 1
  let name ← takeSome isNameChar
  expect isSpaceOrEnd
  let d ← match name with
    | "YAML" => do
      skipSpaces
      let major ← versionNumber
      expect (· == '.')
      skip 1
      let minor ← versionNumber
      expect isSpaceOrEnd
      pure (Directive.version major minor)
    | "TAG" => do
      skipSpaces
      let name ← tagHandle
      expect (· == ' ')
      skipSpaces
      let replacement ← tagSuffix
      expect isSpaceOrEnd
      pure (Directive.handle name replacement)
    | _ => do
      skipWhile (fun c => !isBreak c)
      pure .other
  finishLine
  pure d

/-- The name of an anchor or of a reference to one, after its sign. -/
def anchorName : Lex String := do
  skip 1
  let name ← takeSome isNameChar
  -- what may follow a name directly
  expect fun c => isGap c || "?:,]\x7d%@".toList.contains c || c == '\x60'
  pure name

/-- Whether an exclamation mark comes before the word at the cursor ends. -/
def handleAhead (c : Cursor) : Bool :=
  (c.rest.drop 1).takeWhile (fun ch => !isSpaceOrEnd ch) |>.contains '!'

def tag : Lex Token := do
  let c ← get
  let next ← peekAt 1
  let token ← if next == '<' then do
      skip 2
      let suffix ← tagSuffix
      expect (· == '>')
      skip 1
      pure (Token.tag none suffix)
    else if isGap next then do
      skip 1
      pure (Token.tag none "!")
    else if handleAhead c then do
      let handle ← tagHandle
      let suffix ← tagSuffix
      pure (Token.tag (some handle) suffix)
    else do
      skip 1
      let suffix ← tagSuffix
      pure (Token.tag (some "!") suffix)
  expect isSpaceOrEnd
  pure token

/-! ## Block scalars -/

/-- What becomes of the line ends after a block scalar. -/
inductive Chomping where
  /-- All are dropped. -/
  | strip
  /-- One is kept. -/
  | clip
  /-- All are kept. -/
  | keep
  deriving DecidableEq

def chomping? : Char → Option Chomping
  | '+' => some .keep
  | '-' => some .strip
  | _ => none

/-- An indentation in the header of a block scalar. -/
def indentDigit? : Lex (Option Nat) := do
  let c ← peek
  if c.isDigit then do
    -- an indentation of zero is not one
    if c == '0' then fail
    skip 1
    pure (some (c.toNat - 48))
  else pure none

/-- A chomping in the header of a block scalar. -/
def chompingSign? : Lex (Option Chomping) := do
  match chomping? (← peek) with
  | some sign => do
    skip 1
    pure (some sign)
  | none => pure none

/-- The header of a block scalar: chomping and indentation, in either order. -/
def blockHeader : Lex (Chomping × Option Nat) := do
  let header ← match ← chompingSign? with
    | some sign => do
      let digit ← indentDigit?
      pure (sign, digit)
    | none => do
      match ← indentDigit? with
      | some digit => do
        let sign ← chompingSign?
        pure (sign.getD .clip, some digit)
      | none => pure (.clip, none)
  expect isSpaceOrEnd
  pure header

/-- The empty lines before the first line of a block scalar and the deepest indentation among them.
-/
def leadingLines : Nat → Nat → Lex (List String × Nat)
  | 0, deepest => pure ([], deepest)
  | fuel + 1, deepest => do
    let c ← peek
    if c == ' ' then
      skip 1
      let here ← get
      leadingLines fuel (max deepest here.column)
    else if isBreak c then
      let b ← takeBreak
      let (breaks, deepest) ← leadingLines fuel deepest
      pure (b :: breaks, deepest)
    else pure ([], deepest)

/-- Goes on past spaces up to a column. -/
def skipIndent (indent : Nat) : Lex Unit := do
  let c ← get
  -- spaces beyond the indentation belong to the text
  skip (min (c.span (· == ' ')) (indent - c.column))

/-- The empty lines before the next line of a block scalar. -/
def emptyLines (indent : Nat) : Nat → Lex (List String)
  | 0 => pure []
  | fuel + 1 => do
    skipIndent indent
    if isBreak (← peek) then
      let b ← takeBreak
      let rest ← emptyLines indent fuel
      pure (b :: rest)
    else pure []

/-- Whether a line of a block scalar starts at the cursor. -/
def atLine (indent : Nat) : Lex Bool := do
  let c ← get
  pure (c.column == indent && !c.rest.isEmpty)

/-- The lines of a block scalar, with the last line end and the empty lines after it. In a folded
scalar a single line end between two lines that start with no space is a space. -/
def blockLines (folded : Bool) (indent : Nat) :
    Nat → List String → Lex (String × String × List String)
  | 0, breaks => pure ("", "", breaks)
  | fuel + 1, breaks => do
    let first ← peek
    let flush := first != ' ' && first != '\t'
    let line ← takeWhile (fun c => !isBreak c)
    let lineEnd ← takeBreak
    let c ← get
    let next ← emptyLines indent (c.rest.length + 1)
    let text := String.join breaks ++ line
    if ← atLine indent then
      let c ← peek
      let joint :=
        -- a line end beside a line that starts with a blank is kept
        if folded && lineEnd == "\n" && flush && c != ' ' && c != '\t' then
          if next.isEmpty then " " else ""
        else lineEnd
      let (rest, lastEnd, lastBreaks) ← blockLines folded indent fuel next
      pure (text ++ joint ++ rest, lastEnd, lastBreaks)
    else pure (text, lineEnd, next)

/-- A block scalar inside a given indentation. -/
def blockScalar (folded : Bool) (outer : Int) : Lex String := do
  skip 1
  let (chomping, digit) ← blockHeader
  finishLine
  let least := (max (outer + 1) 1).toNat
  let c ← get
  let fuel := c.rest.length + 1
  let (breaks, indent) ← match digit with
    | none => do
      let (breaks, deepest) ← leadingLines fuel 0
      -- without a digit the deepest column reached by the spaces decides
      pure (breaks, max least deepest)
    | some n => do
      let breaks ← emptyLines (least + n - 1) fuel
      pure (breaks, least + n - 1)
  let (text, lastEnd, lastBreaks) ←
    if ← atLine indent then blockLines folded indent fuel breaks
    else pure ("", "", breaks)
  match chomping with
  | .strip => pure text
  | .clip => pure (text ++ lastEnd)
  | .keep => pure (text ++ lastEnd ++ String.join lastBreaks)

/-! ## Quoted scalars -/

/-- The character that a letter after a backslash stands for. -/
def escape? : Char → Option Char
  | '0' => some '\x00'
  | 'a' => some '\x07'
  | 'b' => some '\x08'
  | 't' => some '\t'
  | '\t' => some '\t'
  | 'n' => some '\n'
  | 'v' => some '\x0b'
  | 'f' => some '\x0c'
  | 'r' => some '\r'
  | 'e' => some '\x1b'
  | ' ' => some ' '
  | '"' => some '"'
  | '\\' => some '\\'
  | '/' => some '/'
  | 'N' => some '\x85'
  | '_' => some '\xa0'
  | 'L' => some '\u2028'
  | 'P' => some '\u2029'
  | _ => none

/-- How many hexadecimal digits follow a letter after a backslash. -/
def escapeWidth? : Char → Option Nat
  | 'x' => some 2
  | 'u' => some 4
  | 'U' => some 8
  | _ => none

/-- The character with a code, which has to be one. -/
def charOf (code : Nat) : Outcome Char :=
  if code < 0x110000 then pure (Char.ofNat code)
  else if code < 0x80000000 then throw (.value "chr() arg not in range(0x110000)")
  else throw .codeTooLarge

/-- The empty lines inside a quoted scalar; a document marker may not stand there. -/
def quotedBreaks : Nat → Lex String
  | 0 => pure ""
  | fuel + 1 => do
    let c ← get
    if c.atSeparator then fail
    skipWhile (fun c => c == ' ' || c == '\t')
    if isBreak (← peek) then
      let b ← takeBreak
      let rest ← quotedBreaks fuel
      pure (b ++ rest)
    else pure ""

def quotedBreaksHere : Lex String := do
  let c ← get
  quotedBreaks (c.rest.length + 1)

/-- What a backslash stands for, after it. -/
def escaped : Lex String := do
  let c ← peek
  match escape? c, escapeWidth? c with
  | some e, _ => do
    skip 1
    pure e.toString
  | none, some width => do
    skip 1
    let here ← get
    let digits := here.rest.take width
    match Text.ofHex? digits with
    | some code =>
      if digits.length < width then fail
      else do
        let e ← charOf code
        skip width
        pure e.toString
    | none => fail
  | none, none =>
    if isBreak c then do
      let _ ← takeBreak
      quotedBreaksHere
    else fail

/-- Whether a character is an ordinary one inside quotes. -/
def isQuotedWord (c : Char) : Bool := !(isGap c || c == '\'' || c == '"' || c == '\\')

/-- The part of a quoted scalar up to a space, a line end or its end. -/
def quotedWord (double : Bool) : Nat → Lex String
  | 0 => pure ""
  | fuel + 1 => do
    let word ← takeWhile isQuotedWord
    let c ← peek
    -- two single quotes in a row are one of the text
    if !double && c == '\'' && (← peekAt 1) == '\'' then
      skip 2
      let rest ← quotedWord double fuel
      pure (word ++ "'" ++ rest)
    else if (double && c == '\'') || (!double && (c == '"' || c == '\\')) then
      skip 1
      let rest ← quotedWord double fuel
      pure (word ++ c.toString ++ rest)
    else if double && c == '\\' then
      skip 1
      let e ← escaped
      let rest ← quotedWord double fuel
      pure (word ++ e ++ rest)
    else pure word

/-- The space between two words of a quoted scalar. A single line end is a space. -/
def quotedGap : Lex String := do
  let spaces ← takeWhile (fun c => c == ' ' || c == '\t')
  let c ← peek
  if c == endMark then fail
  else if isBreak c then do
    let lineEnd ← takeBreak
    let breaks ← quotedBreaksHere
    -- a line end other than a line feed is never made a space
    if lineEnd != "\n" then pure (lineEnd ++ breaks)
    else if breaks == "" then pure " "
    else pure breaks
  else pure spaces

/-- The rest of a quoted scalar after a word. -/
def quotedRest (double : Bool) (quote : Char) : Nat → Lex String
  | 0 => fail
  | fuel + 1 => do
    if (← peek) == quote then
      skip 1
      pure ""
    else
      let gap ← quotedGap
      let c ← get
      let word ← quotedWord double (c.rest.length + 1)
      let rest ← quotedRest double quote fuel
      pure (gap ++ word ++ rest)

def quoted (quote : Char) : Lex String := do
  let double := quote == '"'
  skip 1
  let c ← get
  let word ← quotedWord double (c.rest.length + 1)
  let rest ← quotedRest double quote (c.rest.length + 1)
  pure (word ++ rest)

/-! ## Plain scalars -/

/-- Whether a plain word ends before the given text. -/
def plainEnds (inFlow : Bool) : List Char → Bool
  | [] => true
  | c :: rest =>
    let next := rest.headD endMark
    -- a colon ends a word only if it can be followed by a value
    isGap c || (c == ':' && (isGap next || (inFlow && ",[]\x7b\x7d".toList.contains next))) ||
      (inFlow && ",?[]\x7b\x7d".toList.contains c)

/-- The length of the plain word at the start of a text. -/
def plainLength (inFlow : Bool) : List Char → Nat
  | [] => 0
  | c :: rest => if plainEnds inFlow (c :: rest) then 0 else plainLength inFlow rest + 1

/-- The space after a plain word: what stands for it in the scalar if the scalar goes on, and
whether a line ended. -/
structure PlainGap where
  /-- The text between the words, or nothing if the scalar ends here. -/
  text : Option String
  /-- Whether a line ended. -/
  lineEnded : Bool

/-- The line ends after the first one, or nothing if a document marker follows one of them. -/
def plainBreaks : Nat → Lex (Option String)
  | 0 => pure (some "")
  | fuel + 1 => do
    let c ← peek
    if c == ' ' then
      skip 1
      plainBreaks fuel
    else if isBreak c then
      let b ← takeBreak
      let here ← get
      if here.atSeparator then pure none
      else do
        let rest ← plainBreaks fuel
        pure (rest.map (b ++ ·))
    else pure (some "")

def plainGap : Lex PlainGap := do
  let spaces ← takeWhile (· == ' ')
  if isBreak (← peek) then
    let lineEnd ← takeBreak
    let c ← get
    if c.atSeparator then pure ⟨none, true⟩
    else do
      match ← plainBreaks (c.rest.length + 1) with
      | none => pure ⟨none, true⟩
      | some breaks =>
        if lineEnd != "\n" then pure ⟨some (lineEnd ++ breaks), true⟩
        else if breaks == "" then pure ⟨some " ", true⟩
        else pure ⟨some breaks, true⟩
  else if spaces == "" then pure ⟨none, false⟩
  else pure ⟨some spaces, false⟩

/-- A plain scalar, and whether a key may start right after it. -/
def plain (inFlow : Bool) (indent : Int) : Nat → Lex (String × Bool)
  | 0 => pure ("", false)
  | fuel + 1 => do
    let c ← get
    let word ← take (plainLength inFlow c.rest)
    let gap ← plainGap
    let here ← get
    match gap.text with
    | none => pure (word, gap.lineEnded)
    | some space =>
      -- a comment, a line that is not deep enough, or nothing more
      if here.peek == '#' || (!inFlow && (here.column : Int) < indent) ||
          plainLength inFlow here.rest == 0 then
        pure (word, gap.lineEnded)
      else do
        let (rest, keyAllowed) ← plain inFlow indent fuel
        pure (word ++ space ++ rest, keyAllowed)

end Lex

/-! ## The scanner -/

structure KeyPlace where
  tokenIndex : Nat
  /-- Whether a key has to start there. -/
  required : Bool
  index : Nat
  line : Nat
  column : Nat

structure Scanner where
  cursor : Cursor
  tokens : Array Token := #[]
  /-- How many brackets are open. -/
  flow : Nat := 0
  /-- The column of the innermost block collection. -/
  indent : Int := -1
  /-- The columns of the block collections around it. -/
  indents : List Int := []
  /-- Whether a key may start here. -/
  keyAllowed : Bool := true
  /-- For each number of open brackets the place at which a key may have started. -/
  keys : List (Nat × KeyPlace) := []
  /-- Whether the end of the text is reached. -/
  done : Bool := false

/-- A step of the scanner. A failure leaves the tokens before it. -/
abbrev Scan := ExceptT Fault (StateM Scanner)

namespace Scan

def fail {α : Type} : Scan α := throw .unreadable

/-- Reads from the cursor. -/
def lex {α : Type} (step : Lex α) : Scan α := do
  let s ← get
  match step.run s.cursor with
  | .ok (a, cursor) => do
    set { s with cursor := cursor }
    pure a
  | .error e => throw e

def emit (token : Token) : Scan Unit := modify fun s => { s with tokens := s.tokens.push token }

/-- Allows a key here, or does not. -/
def allowKey (allowed : Bool) : Scan Unit := modify fun s => { s with keyAllowed := allowed }

/-- Whether a place can no longer be the start of a key. -/
def isStale (cursor : Cursor) (place : KeyPlace) : Bool :=
  place.line != cursor.line || cursor.index - place.index > 1024

/-- Forgets the places that can no longer be the start of a key. -/
def dropStale : Scan Unit := do
  let s ← get
  let (stale, live) := s.keys.partition fun k => isStale s.cursor k.2
  -- where a key had to start there is none
  if stale.any fun k => k.2.required then fail
  else set { s with keys := live }

/-- Forgets the place at which a key may have started inside the open brackets. -/
def dropKey : Scan Unit := do
  let s ← get
  let (here, others) := s.keys.partition fun k => k.1 == s.flow
  if here.any fun k => k.2.required then fail
  else set { s with keys := others }

/-- Remembers that a key may start here. -/
def saveKey : Scan Unit := do
  let s ← get
  if s.keyAllowed then
    dropKey
    let c := s.cursor
    let place : KeyPlace :=
      -- at the column of a block mapping only a key can start
      ⟨s.tokens.size, s.flow == 0 && s.indent == c.column, c.index, c.line, c.column⟩
    modify fun s => { s with keys := s.keys ++ [(s.flow, place)] }

/-- Closes the block collections that are deeper than a column. -/
def unwind (column : Int) : Nat → Scanner → Scanner
  | 0, s => s
  | fuel + 1, s =>
    if s.flow == 0 && s.indent > column then
      unwind column fuel { s with
        indent := s.indents.headD (-1)
        indents := s.indents.tail
        tokens := s.tokens.push .blockEnd }
    else s

/-- Closes the block collections that are deeper than a column. -/
def unwindTo (column : Int) : Scan Unit :=
  modify fun s => unwind column (s.indents.length + 1) s

/-- Opens a block collection at a column if it is deeper than the innermost one; whether it was. -/
def addIndent (column : Int) : Scan Bool := do
  let s ← get
  if s.indent < column then
    set { s with indents := s.indent :: s.indents, indent := column }
    pure true
  else pure false

/-- Goes on to the next token: past spaces, comments and line ends. -/
def toNextToken : Nat → Scan Unit
  | 0 => pure ()
  | fuel + 1 => do
    lex Lex.skipSpaces
    lex Lex.skipComment
    let b ← lex Lex.takeBreak
    if b == "" then pure ()
    else do
      let s ← get
      if s.flow == 0 then allowKey true
      toNextToken fuel

def scanEnd : Scan Unit := do
  unwindTo (-1)
  dropKey
  modify fun s => { s with keyAllowed := false, keys := [], done := true }
  emit .streamEnd

def scanDirective : Scan Unit := do
  unwindTo (-1)
  dropKey
  allowKey false
  let d ← lex Lex.directive
  emit (.directive d)

def scanMarker (token : Token) : Scan Unit := do
  unwindTo (-1)
  dropKey
  allowKey false
  lex (Lex.skip 3)
  emit token

def scanOpening (token : Token) : Scan Unit := do
  saveKey
  modify fun s => { s with flow := s.flow + 1 }
  allowKey true
  lex (Lex.skip 1)
  emit token

def scanClosing (token : Token) : Scan Unit := do
  dropKey
  modify fun s => { s with flow := s.flow - 1 }
  allowKey false
  lex (Lex.skip 1)
  emit token

def scanComma : Scan Unit := do
  allowKey true
  dropKey
  lex (Lex.skip 1)
  emit .flowEntry

/-- Starts a block collection here if there is none at this column. -/
def openBlock (token : Token) : Scan Unit := do
  let s ← get
  if s.flow == 0 then
    if !s.keyAllowed then fail
    if ← addIndent s.cursor.column then emit token

def scanDash : Scan Unit := do
  openBlock .blockSequenceStart
  allowKey true
  dropKey
  lex (Lex.skip 1)
  emit .blockEntry

def scanQuestion : Scan Unit := do
  openBlock .blockMappingStart
  let s ← get
  allowKey (s.flow == 0)
  dropKey
  lex (Lex.skip 1)
  emit .key

def insertToken (index : Nat) (token : Token) : Scan Unit :=
  modify fun s => { s with tokens := s.tokens.insertIdxIfInBounds index token }

/-- A colon. If a key may have started on this line, it did. -/
def scanColon : Scan Unit := do
  let s ← get
  match s.keys.find? fun k => k.1 == s.flow with
  | some (_, place) => do
    set { s with keys := s.keys.filter fun k => k.1 != s.flow }
    -- the key started before the tokens that have been read since
    insertToken place.tokenIndex .key
    if s.flow == 0 then
      if ← addIndent place.column then insertToken place.tokenIndex .blockMappingStart
    allowKey false
  | none => do
    -- without a place a colon starts an entry that has no key
    openBlock .blockMappingStart
    allowKey (s.flow == 0)
    dropKey
  lex (Lex.skip 1)
  emit .value

/-- A token that can be a key. -/
def scanKeyLike (step : Lex Token) : Scan Unit := do
  saveKey
  allowKey false
  let token ← lex step
  emit token

def scanBlock (folded : Bool) : Scan Unit := do
  allowKey true
  dropKey
  let s ← get
  let text ← lex (Lex.blockScalar folded s.indent)
  emit (.scalar text false)

def scanPlain : Scan Unit := do
  saveKey
  allowKey false
  let s ← get
  let (text, lineEnded) ← lex (Lex.plain (s.flow != 0) (s.indent + 1) (s.cursor.rest.length + 1))
  if lineEnded then allowKey true
  emit (.scalar text true)

/-- Whether a plain scalar can start at a cursor. -/
def plainStarts (inFlow : Bool) (c : Cursor) : Bool :=
  let ch := c.peek
  !(isGap ch || "-?:,[]\x7b\x7d#&*!|>'\"%@".toList.contains ch || ch == '\x60') ||
    (!isGap (c.peekAt 1) && (ch == '-' || (!inFlow && (ch == '?' || ch == ':'))))

/-- The next token, and what indentation implies before it. -/
def scanToken : Scan Unit := do
  let s ← get
  -- a byte order mark counts only at the very start
  if s.cursor.index == 0 && s.cursor.peek == '\ufeff' then lex (Lex.skip 1)
  toNextToken (s.cursor.rest.length + 1)
  dropStale
  let s ← get
  unwindTo s.cursor.column
  let s ← get
  let c := s.cursor
  let inFlow := s.flow != 0
  let gapNext := isGap (c.peekAt 1)
  match c.peek with
  | '\x00' => scanEnd
  | ch =>
    if ch == '%' && c.column == 0 then scanDirective
    else if c.column == 0 && c.atMarker '-' then scanMarker .documentStart
    else if c.column == 0 && c.atMarker '.' then scanMarker .documentEnd
    else if ch == '[' then scanOpening .flowSequenceStart
    else if ch == '\x7b' then scanOpening .flowMappingStart
    else if ch == ']' then scanClosing .flowSequenceEnd
    else if ch == '\x7d' then scanClosing .flowMappingEnd
    else if ch == ',' then scanComma
    else if ch == '-' && gapNext then scanDash
    else if ch == '?' && (inFlow || gapNext) then scanQuestion
    else if ch == ':' && (inFlow || gapNext) then scanColon
    else if ch == '*' then scanKeyLike (Token.alias <$> Lex.anchorName)
    else if ch == '&' then scanKeyLike (Token.anchor <$> Lex.anchorName)
    else if ch == '!' then scanKeyLike Lex.tag
    else if ch == '|' && !inFlow then scanBlock false
    else if ch == '>' && !inFlow then scanBlock true
    else if ch == '\'' || ch == '"' then
      scanKeyLike ((Token.scalar · false) <$> Lex.quoted ch)
    else if plainStarts inFlow c then scanPlain
    else fail

/-- The number of tokens that come before all places at which a key may have started. -/
def givenOut (s : Scanner) : Nat :=
  let live := s.keys.filter fun k => !isStale s.cursor k.2
  live.foldl (fun n k => min n k.2.tokenIndex) s.tokens.size

/-- The next token. If there is none, only tokens that have been given out stay. -/
def scanNext : Scan Unit := do
  let s ← get
  tryCatch scanToken fun reason => do
    set { s with tokens := s.tokens.take (givenOut s) }
    throw reason

/-- All tokens from here on. -/
def scanAll : Nat → Scan Unit
  | 0 => pure ()
  | fuel + 1 => do
    scanNext
    let s ← get
    if s.done then pure () else scanAll fuel

end Scan

/-- The tokens of a text. If the text is not YAML, the last one says so. -/
def Token.scan (text : String) : List Token :=
  if text.toList.all isAllowed then
    let start : Scanner := { cursor := Cursor.start text }
    match (Scan.scanAll (text.length + 2)).run.run start with
    | (.ok _, s) => s.tokens.toList
    | (.error reason, s) => s.tokens.toList ++ [.fault reason]
  else [.fault .unreadable]

end TreeScript.Yaml
