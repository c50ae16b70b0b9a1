import TreeScript.Failure
import TreeScript.Number.Decimal
import TreeScript.Pattern.Glyph
import TreeScript.Text.Hex
import TreeScript.Text.Identifier
import TreeScript.Text.Quoted

/-!
# Reading patterns

`Pattern.read` reads the text of a pattern. A fault is reported with its position, and with line and
column where the pattern has several lines. Which characters have names is up to who reads.

A backslash belongs to the character after it. A backslash at the very end is a fault that is met as
soon as it comes next, before anything is said about what stands before it.
-/

namespace TreeScript.Pattern

/-- What is wrong with a pattern, and where. -/
structure Fault where
  /-- What is wrong. -/
  message : String
  /-- The position, if there is one. -/
  position : Option Nat

/-- The wording of a fault of a pattern. -/
def Fault.text (pattern : List Char) (fault : Fault) : String :=
  match fault.position with
  | none => fault.message
  | some position =>
    let located := s!"{fault.message} at position {position}"
    if pattern.contains '\n' then
      let before := pattern.take position
      let line := before.count '\n' + 1
      let column := (before.reverse.takeWhile (· != '\n')).length
      let column := if before.contains '\n' then column + 1 else position + 1
      s!"{located} (line {line}, column {column})"
    else located

/-- Why a pattern cannot be used. -/
inductive Trouble where
  /-- The text is no pattern. -/
  | fault (fault : Fault)
  /-- A count is too large. -/
  | tooLarge
  /-- The flag for ASCII and another one of which only one can be in force are both in force for the
  whole pattern. -/
  | incompatible (other : String)
  /-- Some part cannot be carried out. -/
  | unusable

/-- The width from which on there is no bound. -/
def maxWidth : Nat := Nat.pow 2 64

/-- The count from which on a repetition is too large. -/
def maxRepeat : Nat := 4294967295

/-- Two widths one after the other. -/
def Width.add (a b : Width) : Width :=
  ⟨min (a.least + b.least) maxWidth, min (a.most + b.most) maxWidth⟩

/-- One of two widths. -/
def Width.or (a b : Width) : Width := ⟨min a.least b.least, max a.most b.most⟩

/-- A width repeated. -/
def Width.times (w : Width) (least : Nat) (most : Option Nat) : Width :=
  { least := min (w.least * least) maxWidth
    most := match most with
      | some n => min (w.most * n) maxWidth
      | none => if w.most == 0 then 0 else maxWidth }

/-- The width of nothing. -/
def Width.zero : Width := ⟨0, 0⟩

/-- The width of one character. -/
def Width.one : Width := ⟨1, 1⟩

/-- The letters of flags that are in force. -/
abbrev Flags := List Char

/-- A group that has been opened. -/
structure GroupInfo where
  /-- Its name. -/
  name : Option String
  /-- Its width, if it has been closed. -/
  width : Option Width

/-- The state in which a pattern is read. -/
structure Reader where
  /-- The pattern. -/
  chars : Array Char
  /-- The position of the next token. -/
  position : Nat
  /-- The flags of the whole pattern. -/
  flags : Flags
  /-- The groups opened so far; the number of the first one is one. -/
  groups : List GroupInfo
  /-- The number of groups before the outermost look behind that is being read. -/
  behindFrom : Option Nat
  /-- The groups that conditions ask for, with the positions at which they first do. -/
  conditions : List (Nat × Nat)
  /-- Whether the pattern is one for texts and not for bytes. -/
  ofText : Bool
  /-- The character that has a name. -/
  named? : String → Option Char

/-- A step that reads a pattern. -/
abbrev Read := StateT Reader (Except Trouble)

/-- The nodes of a part of a pattern, each with its width. -/
abbrev Sized := List (Node × Width)

/-- The nodes of a part of a pattern. -/
def Sized.nodes (sized : Sized) : List Node := sized.map Prod.fst

/-- The width of a part of a pattern. -/
def Sized.width (sized : Sized) : Width := sized.foldl (fun w entry => w.add entry.2) .zero

namespace Read

/-- Reports a fault at a position. -/
def failAt {α : Type} (message : String) (position : Nat) : Read α :=
  throw (.fault ⟨message, some position⟩)

/-- Reports a fault so many characters before the next token. -/
def fail {α : Type} (message : String) (offset : Nat) : Read α := do
  let s ← get
  failAt message (s.position - offset)

/-- The next token: a character, or a backslash and a character. -/
def next? : Read (Option String) := do
  let s ← get
  match s.chars[s.position]? with
  | none => pure none
  | some '\\' => pure (some (String.ofList ('\\' :: (s.chars[s.position + 1]?).toList)))
  | some c => pure (some c.toString)

/-- Goes to a position. A backslash at the end of the pattern may not stand there. -/
def seek (position : Nat) : Read Unit := do
  let s ← get
  if s.chars[position]? == some '\\' && s.chars.size ≤ position + 1 then
    failAt "bad escape (end of pattern)" (s.chars.size - 1)
  else set { s with position := position }

/-- Takes the next token. -/
def take? : Read (Option String) := do
  match ← next? with
  | none => pure none
  | some token => do
    let s ← get
    seek (s.position + token.length)
    pure (some token)

/-- Takes the next token if it is a given one; whether it was. -/
def accept (token : String) : Read Bool := do
  if (← next?) == some token then
    let _ ← take?
    pure true
  else pure false

/-- Takes up to so many tokens that satisfy a test. -/
def takeWhile (test : Char → Bool) : Nat → Read String
  | 0 => pure ""
  | n + 1 => do
    match ← next? with
    | some token =>
      match token.toList with
      | [c] =>
        if test c then do
          let _ ← take?
          let rest ← takeWhile test n
          pure (token ++ rest)
        else pure ""
      | _ => pure ""
    | none => pure ""

/-- Takes tokens up to a given one, which is dropped; `what` says what they are. -/
def takeUntil (terminator what : String) : Nat → String → Read String
  | 0, found => pure found
  | fuel + 1, found => do
    match ← take? with
    | none =>
      if found == "" then fail ("missing " ++ what) 0
      else fail s!"missing {terminator}, unterminated name" found.length
    | some token =>
      if token == terminator then
        if found == "" then fail ("missing " ++ what) 1 else pure found
      else takeUntil terminator what fuel (found ++ token)

/-- The position of the next token. -/
def here : Read Nat := Reader.position <$> get

/-- A bound on the number of tokens that are left. -/
def fuelLeft : Read Nat := do
  let s ← get
  pure (s.chars.size + 2)

/-! ## Escapes -/

/-- Whether a character is an octal digit. -/
def isOctal (c : Char) : Bool := '0' ≤ c && c ≤ '7'

/-- Whether a character is a hexadecimal digit. -/
def isHex (c : Char) : Bool := (Text.hexValue? c).isSome

/-- Whether a character is an ASCII letter. -/
def isLetter (c : Char) : Bool := c.isAlpha

/-- The number that octal digits denote. -/
def ofOctal (cs : List Char) : Nat := cs.foldl (fun n c => 8 * n + (c.toNat - 48)) 0

/-- The code of a letter that stands for a control character. -/
def controlCode? : Char → Option Nat
  | 'a' => some 7
  | 'b' => some 8
  | 'f' => some 12
  | 'n' => some 10
  | 'r' => some 13
  | 't' => some 9
  | 'v' => some 11
  | '\\' => some 92
  | _ => none

/-- The kind of characters that a letter stands for, and whether it stands for all others. -/
def category? : Char → Option (Category × Bool)
  | 'd' => some (.digit, false)
  | 'D' => some (.digit, true)
  | 's' => some (.space, false)
  | 'S' => some (.space, true)
  | 'w' => some (.word, false)
  | 'W' => some (.word, true)
  | _ => none

/-- A code by a number of hexadecimal digits. -/
def hexCode (escape : String) (width : Nat) : Read Nat := do
  let digits ← takeWhile isHex width
  let whole := escape ++ digits
  if digits.length != width then fail s!"incomplete escape {whole}" whole.length
  else
    let code := (Text.ofHex? digits.toList).getD 0
    if code < 0x110000 then pure code else fail s!"bad escape {whole}" whole.length

/-- A character by its name. -/
def namedCode : Read Nat := do
  if ← accept "\x7b" then
    let name ← takeUntil "\x7d" "character name" (← fuelLeft) ""
    match (← get).named? name with
    | some c => pure c.toNat
    | none => fail s!"undefined character name {Text.quoted name}" (name.length + 4)
  else fail "missing \x7b" 0

/-- A code by its number, its name or itself, for the escapes that mean the same everywhere. Only
texts have characters with long numbers and names. -/
def commonCode (escape : String) (c : Char) : Read Nat := do
  match c, (← get).ofText with
  | 'x', _ => hexCode escape 2
  | 'u', true => hexCode escape 4
  | 'U', true => hexCode escape 8
  | 'N', true => namedCode
  | _, _ => if isLetter c then fail s!"bad escape {escape}" escape.length else pure c.toNat

/-- What an escape in a set stands for. -/
inductive SetCode where
  /-- A character. -/
  | code (code : Nat)
  /-- A kind of characters. -/
  | category (kind : Category) (negated : Bool)

/-- An escape in a set. -/
def setEscape (escape : String) : Read SetCode := do
  let c := (escape.toList.drop 1).headD '\\'
  match controlCode? c, category? c with
  | some code, _ => pure (.code code)
  | none, some (kind, negated) => pure (.category kind negated)
  | none, none =>
    if isOctal c then do
      let digits ← takeWhile isOctal 2
      let whole := escape ++ digits
      let code := ofOctal (whole.toList.drop 1)
      if code > 0o377 then
        fail s!"octal escape value {whole} outside of range 0-0o377" whole.length
      else pure (.code code)
    else if c.isDigit then fail s!"bad escape {escape}" escape.length
    else SetCode.code <$> commonCode escape c

/-! ## Flags -/

/-- How case is treated under flags. -/
def caseOf (flags : Flags) : Case :=
  if flags.contains 'i' then if flags.contains 'a' then .foldedAscii else .folded
  else .exact

/-- Whether only ASCII counts under flags. -/
def asciiOf (flags : Flags) : Bool := flags.contains 'a'

/-- The letters of all flags. -/
def flagLetters : List Char := ['i', 'L', 'm', 's', 'x', 'a', 't', 'u']

/-- The letters of flags of which only one can be in force. -/
def typeLetters : List Char := ['a', 'L', 'u']

/-- Whether a token is a letter of some script. -/
def isAlphabetic (token : String) : Bool :=
  match token.toList with
  | [c] => Text.isLetter c
  | _ => false

/-- The letter of a flag that a token is. -/
def flagLetter? (token : String) : Option Char :=
  match token.toList with
  | [c] => if flagLetters.contains c then some c else none
  | _ => none

/-- The flags that are turned on, from a letter on, with the token after them. -/
def flagsOn : Nat → Char → Flags → Read (Flags × String)
  | 0, _, on => pure (on, ")")
  | fuel + 1, letter, on => do
    let ofText := (← get).ofText
    if letter == 'L' && ofText then
      fail "bad inline flags: cannot use 'L' flag with a str pattern" 0
    else if letter == 'u' && !ofText then
      fail "bad inline flags: cannot use 'u' flag with a bytes pattern" 0
    else if typeLetters.contains letter &&
        on.any (fun c => typeLetters.contains c && c != letter) then
      fail "bad inline flags: flags 'a', 'u' and 'L' are incompatible" 0
    else do
      let on := letter :: on
      match ← take? with
      | none => fail "missing -, : or )" 0
      | some token =>
        if [")", "-", ":"].contains token then pure (on, token)
        else
          match flagLetter? token with
          | some next => flagsOn fuel next on
          | none =>
            fail (if isAlphabetic token then "unknown flag" else "missing -, : or )") token.length

/-- The flags that are turned off, from a letter on. -/
def flagsOff : Nat → Char → Flags → Read Flags
  | 0, _, off => pure off
  | fuel + 1, letter, off => do
    if typeLetters.contains letter then
      fail "bad inline flags: cannot turn off flags 'a', 'u' and 'L'" 0
    else do
      let off := letter :: off
      match ← take? with
      | none => fail "missing :" 0
      | some ":" => pure off
      | some token =>
        match flagLetter? token with
        | some next => flagsOff fuel next off
        | none => fail (if isAlphabetic token then "unknown flag" else "missing :") token.length

/-- What flags in parentheses do. -/
inductive FlagChange where
  /-- They are turned on for the whole pattern. -/
  | everywhere (on : Flags)
  /-- They are turned on and off for a group. -/
  | inside (on off : Flags)

/-- Flags in parentheses, from the first token of them on. -/
def flagChange (first : String) : Read FlagChange := do
  let fuel ← fuelLeft
  let (on, token) ← match flagLetter? first with
    | some letter => flagsOn fuel letter []
    | none => pure ([], "-")
  if token == ")" then pure (.everywhere on)
  else if on.contains 't' then fail "bad inline flags: cannot turn on global flag" 1
  else do
    let off ← if token == "-" then do
        match ← take? with
        | none => fail "missing flag" 0
        | some token =>
          match flagLetter? token with
          | some letter => flagsOff fuel letter []
          | none =>
            fail (if isAlphabetic token then "unknown flag" else "missing flag") token.length
      else pure []
    if off.contains 't' then fail "bad inline flags: cannot turn off global flag" 1
    else if on.any off.contains then fail "bad inline flags: flag turned on and off" 1
    else pure (.inside on off)

/-- The flags in force inside a group. -/
def changeFlags (flags on off : Flags) : Flags :=
  let kept := if on.any typeLetters.contains then
      flags.filter fun c => !typeLetters.contains c
    else flags
  (on ++ kept).filter fun c => !off.contains c

/-! ## Groups -/

/-- Accepts the name of a group. -/
def checkName (name : String) : Read Unit := do
  if Text.isIdentifier name then pure ()
  else fail s!"bad character in group name {Text.quoted name}" (name.length + 1)

/-- The number of the group with a name. -/
def groupNumber? (name : String) : Read (Option Nat) := do
  let s ← get
  pure ((s.groups.findIdx? fun g => g.name == some name).map (· + 1))

/-- The width of a group that has been closed. -/
def closedWidth? (number : Nat) : Read (Option Width) := do
  let s ← get
  pure ((s.groups[number - 1]?).bind GroupInfo.width)

/-- Accepts a reference to a group from inside a look behind. -/
def checkBehind (number : Nat) : Read Unit := do
  let s ← get
  match s.behindFrom with
  | none => pure ()
  | some bound => do
    if (← closedWidth? number).isNone then fail "cannot refer to an open group" 0
    if bound ≤ number then
      fail "cannot refer to group defined in the same lookbehind subpattern" 0

/-- Opens a group; its number. -/
def openGroup (name : Option String) : Read Nat := do
  let s ← get
  let number := s.groups.length + 1
  match name with
  | none => pure ()
  | some n => do
    match ← groupNumber? n with
    | some other =>
      fail s!"redefinition of group name {Text.quoted n} as group {number}; was group {other}"
        (n.length + 1)
    | none => pure ()
  set { s with groups := s.groups ++ [GroupInfo.mk name none] }
  pure number

/-- Closes a group. -/
def closeGroup (number : Nat) (width : Width) : Read Unit :=
  modify fun s =>
    { s with groups := s.groups.modify (number - 1) fun g => { g with width := some width } }

/-- A reference to a group that has been closed. -/
def referTo (flags : Flags) (number offset : Nat) : Read (Node × Width) := do
  match ← closedWidth? number with
  | none => fail "cannot refer to an open group" offset
  | some width => do
    checkBehind number
    pure (.reference number (caseOf flags), width)

/-- A node that matches one character. -/
def single (node : Node) : Node × Width := (node, .one)

/-- A node for one code, or for any other one. -/
def literal (flags : Flags) (code : Nat) (negated : Bool) : Node × Width :=
  single (.literal code negated ((caseOf flags).forCode code))

/-- A node for a set. -/
def ofSet (flags : Flags) (negated : Bool) (items : List SetItem) : Node × Width :=
  single (.set negated items ((caseOf flags).forItems items) (asciiOf flags))

/-- A node that matches a place. -/
def place (anchor : Anchor) : Node × Width := (.anchor anchor, .zero)

/-- An escape outside of sets. -/
def escape (flags : Flags) (token : String) : Read (Node × Width) := do
  let c := (token.toList.drop 1).headD '\\'
  match c with
  | 'A' => pure (place .textStart)
  | 'b' => pure (place (.boundary (asciiOf flags) false))
  | 'B' => pure (place (.boundary (asciiOf flags) true))
  | 'Z' => pure (place .textEnd)
  | _ =>
    match category? c, controlCode? c with
    | some (kind, negated), _ =>
      pure (ofSet flags false [.category kind negated])
    | none, some code => pure (literal flags code false)
    | none, none =>
      if c == '0' then do
        let digits ← takeWhile isOctal 2
        pure (literal flags (ofOctal digits.toList) false)
      else if c.isDigit then do
        let more ← takeWhile Char.isDigit 1
        let whole := token ++ more
        let octal := more != "" && (whole.toList.drop 1).all isOctal
        let third ← if octal then takeWhile isOctal 1 else pure ""
        if third != "" then
          let whole := whole ++ third
          let code := ofOctal (whole.toList.drop 1)
          if code > 0o377 then
            fail s!"octal escape value {whole} outside of range 0-0o377" whole.length
          else pure (literal flags code false)
        else do
          let number := (readInt? (whole.toList.drop 1)).getD 0 |>.toNat
          let s ← get
          if number ≤ s.groups.length then referTo flags number whole.length
          else fail s!"invalid group reference {number}" (whole.length - 1)
      else (literal flags · false) <$> commonCode token c

/-! ## Sets -/

/-- The element of a set that an escape stands for. -/
def SetCode.item : SetCode → SetItem
  | .code n => .code n
  | .category kind negated => .category kind negated

/-- A token inside a set. -/
def setToken (token : String) : Read SetCode :=
  match token.toList with
  | '\\' :: _ => setEscape token
  | [c] => pure (.code c.toNat)
  | _ => pure (.code 0)

/-- The elements of a set up to its closing bracket. -/
def setItems (start : Nat) : Nat → List SetItem → Read (List SetItem)
  | 0, items => pure items
  | fuel + 1, items => do
    match ← take? with
    | none => failAt "unterminated character set" start
    | some "]" =>
      if items.isEmpty then setItem start fuel items "]" else pure items
    | some token => setItem start fuel items token
where
  /-- An element that starts with a token. -/
  setItem (start : Nat) (fuel : Nat) (items : List SetItem) (token : String) :
      Read (List SetItem) := do
    let first ← setToken token
    if ← accept "-" then
      match ← take? with
      | none => failAt "unterminated character set" start
      | some "]" => pure (items ++ [first.item, .code 45])
      | some other => do
        let last ← setToken other
        match first, last with
        | .code a, .code b =>
          if b < a then badRange token other
          else setItems start fuel (items ++ [.range a b])
        | _, _ => badRange token other
    else setItems start fuel (items ++ [first.item])
  /-- Reports a range that is none. -/
  badRange {α : Type} (first last : String) : Read α :=
    fail s!"bad character range {first}-{last}" (first.length + 1 + last.length)

/-- Some elements, each of them once. -/
def distinct (items : List SetItem) : List SetItem :=
  items.foldl (fun found item => if found.contains item then found else found ++ [item]) []

/-- A set after its opening bracket. A set of one character is that character. -/
def characterSet (flags : Flags) : Read (Node × Width) := do
  let start := (← here) - 1
  let negated ← accept "^"
  let items := distinct (← setItems start (← fuelLeft) [])
  match items with
  | [.code c] => pure (literal flags c negated)
  | _ => pure (ofSet flags negated items)

/-! ## Repetitions -/

/-- The bounds of a repetition. -/
structure Bounds where
  /-- The least count. -/
  least : Nat
  /-- The greatest count, if there is one. -/
  most : Option Nat

/-- The number that digits denote, which must not be too large. -/
def count (digits : String) : Read Nat := do
  let n := (readInt? digits.toList).getD 0 |>.toNat
  if n ≥ maxRepeat then throw .tooLarge else pure n

/-- The bounds in braces after the opening one, or nothing if the brace is a character. -/
def bracedBounds? : Read (Option Bounds) := do
  let start ← here
  if (← next?) == some "\x7d" then pure none
  else do
    let fuel ← fuelLeft
    let low ← takeWhile Char.isDigit fuel
    let high ← if ← accept "," then takeWhile Char.isDigit fuel else pure low
    if ← accept "\x7d" then do
      let least ← if low == "" then pure 0 else count low
      let most ← if high == "" then pure none else some <$> count high
      match most with
      | some n =>
        if n < least then do
          let now ← here
          fail "min repeat greater than max repeat" (now - start)
        else pure (some ⟨least, most⟩)
      | none => pure (some ⟨least, none⟩)
    else do
      seek start
      pure none

/-- A piece of a sequence while it is read. -/
inductive Piece where
  /-- A node. -/
  | node (node : Node) (width : Width)
  /-- What stands between parentheses that only keep it together. -/
  | plain (content : Sized)

/-- The nodes of a piece. -/
def Piece.sized : Piece → Sized
  | .node one width => [(one, width)]
  | .plain content => content

/-- The pieces read so far, the last one first. -/
abbrev Pieces := List Piece

/-- The nodes of pieces in order. -/
def Pieces.sized (pieces : Pieces) : Sized := pieces.reverse.flatMap Piece.sized

/-- Why a piece cannot be repeated. -/
def Piece.unrepeatable? : Piece → Option String
  | .node (.anchor _) _ => some "nothing to repeat"
  | .node (.repetition ..) _ => some "multiple repeat"
  | _ => none

/-- Repeats the last piece. -/
def repeatLast (pieces : Pieces) (bounds : Bounds) (start width : Nat) : Read Pieces := do
  let now ← here
  match pieces with
  | [] => fail "nothing to repeat" (now - start + width)
  | piece :: rest =>
    match piece.unrepeatable? with
    | some message => fail message (now - start + width)
    | none => do
      let greed : Greed ← do
        if ← accept "?" then pure .lazy
        else if ← accept "+" then pure .possessive
        else pure .greedy
      let content := piece.sized
      pure (.node (.repetition greed bounds.least bounds.most content.nodes)
        (content.width.times bounds.least bounds.most) :: rest)

/-! ## Alternatives -/

/-- Takes out of all parts the nodes with which all of them start. -/
def commonStart : Nat → List Sized → Sized × List Sized
  | 0, parts => ([], parts)
  | fuel + 1, parts =>
    match parts with
    | ((node, width) :: _) :: others =>
      let agrees : Sized → Bool
        | (other, _) :: _ => node.same other
        | [] => false
      if others.all agrees then
        let (start, rests) := commonStart fuel (parts.map (List.drop 1))
        ((node, width) :: start, rests)
      else ([], parts)
    | _ => ([], parts)

/-- The elements of the set that a part stands for, if it is one character. -/
def setItemsOf? : Sized → Option (List SetItem)
  | [(.literal c false _, _)] => some [.code c]
  | [(.set false items _ _, _)] => some items
  | _ => none

/-- One of several parts. What all of them start with is read before the choice, and a choice
between characters is a set. -/
def choose (flags : Flags) (parts : List Sized) : Sized :=
  match parts with
  | [part] => part
  | _ =>
    let (start, rests) := commonStart (parts.foldl (fun n part => n + part.length) 0) parts
    match rests.mapM setItemsOf? with
    | some items => start ++ [ofSet flags false (distinct items.flatten)]
    | none =>
      let width := (rests.drop 1).foldl (fun w rest => w.or rest.width)
        ((rests.head?.map Sized.width).getD .zero)
      start ++ [(.branch (rests.map Sized.nodes), width)]

/-- Goes past a comment in a spread-out pattern. -/
def skipLine : Nat → Read Unit
  | 0 => pure ()
  | fuel + 1 => do
    match ← take? with
    | none => pure ()
    | some "\n" => pure ()
    | some _ => skipLine fuel

/-- Goes past a comment in parentheses. -/
def skipComment (start : Nat) : Nat → Read Unit
  | 0 => pure ()
  | fuel + 1 => do
    match ← next? with
    | none => failAt "missing ), unterminated comment" start
    | some token => do
      let _ ← take?
      if token == ")" then pure () else skipComment start fuel

/-- Takes a closing parenthesis. -/
def close (start : Nat) : Read Unit := do
  if ← accept ")" then pure () else failAt "missing ), unterminated subpattern" start

/-- The group that a condition asks for. -/
def conditionGroup : Read Nat := do
  let name ← takeUntil ")" "group name" (← fuelLeft) ""
  let offset := name.length + 1
  if Text.isIdentifier name then
    match ← groupNumber? name with
    | some number => pure number
    | none => fail s!"unknown group name {Text.quoted name}" offset
  else
    match readInt? name.toList with
    | some (.ofNat number) => do
      if number == 0 then fail "bad group number" offset
      else if number ≥ 1073741823 then fail s!"invalid group reference {number}" offset
      else do
        let now ← here
        modify fun s =>
          if s.conditions.any fun c => c.1 == number then s
          else { s with conditions := s.conditions ++ [(number, now - offset)] }
        pure number
    | _ => fail s!"bad character in group name {Text.quoted name}" offset

/-- What is to be done after the start of a group. -/
inductive GroupHead where
  /-- Nothing more: the group was a comment, a reference or flags. -/
  | done (pieces : Pieces)
  /-- The flags of the whole pattern have changed. -/
  | flagged
  /-- The content of a group that is remembered under a number follows. -/
  | remembered (number : Nat)
  /-- The content of a group that only keeps it together follows. -/
  | plain
  /-- The content of an atomic group follows. -/
  | atomic
  /-- The content of a group with flags of its own follows. -/
  | flags (on off : Flags)
  /-- The content of a look follows. -/
  | look (behind negated : Bool)
  /-- The content of a condition follows. -/
  | condition (number : Nat)

/-- The part of a group after `(?P`. -/
def namedHead (flags : Flags) (pieces : Pieces) : Read GroupHead := do
  if ← accept "<" then
    let name ← takeUntil ">" "group name" (← fuelLeft) ""
    checkName name
    let number ← openGroup (some name)
    pure (.remembered number)
  else if ← accept "=" then
    let name ← takeUntil ")" "group name" (← fuelLeft) ""
    checkName name
    match ← groupNumber? name with
    | none => fail s!"unknown group name {Text.quoted name}" (name.length + 1)
    | some number => do
      let (node, width) ← referTo flags number (name.length + 1)
      pure (.done (.node node width :: pieces))
  else
    match ← take? with
    | none => fail "unexpected end of pattern" 0
    | some token => fail ("unknown extension ?P" ++ token) (token.length + 2)

/-- The start of a group after its opening parenthesis. -/
def groupHead (flags : Flags) (start : Nat) (first : Bool) (pieces : Pieces) :
    Read GroupHead := do
  if ← accept "?" then
    match ← take? with
    | none => fail "unexpected end of pattern" 0
    | some "P" => namedHead flags pieces
    | some ":" => pure .plain
    | some "#" => do
      skipComment start (← fuelLeft)
      pure (.done pieces)
    | some "=" => pure (.look false false)
    | some "!" => pure (.look false true)
    | some "<" => do
      match ← take? with
      | none => fail "unexpected end of pattern" 0
      | some "=" => pure (.look true false)
      | some "!" => pure (.look true true)
      | some token => fail ("unknown extension ?<" ++ token) (token.length + 2)
    | some "(" => GroupHead.condition <$> conditionGroup
    | some ">" => pure .atomic
    | some token =>
      if token == "-" || (flagLetter? token).isSome then do
        match ← flagChange token with
        | .everywhere on => do
          if !first || !pieces.isEmpty then
            failAt "global flags not at the start of the expression" start
          modify fun s => { s with flags := on ++ s.flags }
          pure .flagged
        | .inside on off => pure (.flags on off)
      else fail ("unknown extension ?" ++ token) (token.length + 1)
  else do
    let number ← openGroup none
    pure (.remembered number)

/-- Whether a token is white space that a spread-out pattern may hold. -/
def isFiller (token : String) : Bool := [" ", "\t", "\n", "\r", "\x0b", "\x0c"].contains token

/-- The pieces after a token that opens no group. -/
def piecesAfter (flags : Flags) (pieces : Pieces) (token : String) : Read Pieces := do
  let add (found : Node × Width) : Pieces := .node found.1 found.2 :: pieces
  if flags.contains 'x' && isFiller token then pure pieces
  else if flags.contains 'x' && token == "#" then do
    skipLine (← fuelLeft)
    pure pieces
  else if token.startsWith "\\" then add <$> escape flags token
  else
    let itself := literal flags (token.toList.headD ' ').toNat false
    match token with
    | "[" => add <$> characterSet flags
    | "." => pure (add (single (.any (flags.contains 's'))))
    | "^" => pure (add (place (.start (flags.contains 'm'))))
    | "$" => pure (add (place (.finish (flags.contains 'm'))))
    | "?" => repeatLast pieces ⟨0, some 1⟩ (← here) 1
    | "*" => repeatLast pieces ⟨0, none⟩ (← here) 1
    | "+" => repeatLast pieces ⟨1, none⟩ (← here) 1
    | "\x7b" => do
      let start ← here
      match ← bracedBounds? with
      | none => pure (add itself)
      | some bounds => repeatLast pieces bounds start 1
    | _ => pure (add itself)

mutual

/-- Alternatives, up to a closing parenthesis or the end. -/
def alternatives : Nat → Flags → (top : Bool) → Read Sized
  | 0, _, _ => pure []
  | fuel + 1, flags, top => do
    let first ← sequence fuel flags top top []
    let rest ← moreAlternatives fuel flags top
    let s ← get
    pure (choose (if top then s.flags else flags) (first :: rest))

/-- The alternatives after the first one. -/
def moreAlternatives : Nat → Flags → (top : Bool) → Read (List Sized)
  | 0, _, _ => pure []
  | fuel + 1, flags, top => do
    if ← accept "|" then
      let next ← sequence fuel flags top false []
      let rest ← moreAlternatives fuel flags top
      pure (next :: rest)
    else pure []

/-- Nodes one after the other, up to a bar, a closing parenthesis or the end. The flags of the whole
pattern can still change at its start. -/
def sequence : Nat → Flags → (top first : Bool) → Pieces → Read Sized
  | 0, _, _, _, pieces => pure pieces.sized
  | fuel + 1, inherited, top, first, pieces => do
    let s ← get
    let flags := if top then s.flags else inherited
    let goOn (pieces : Pieces) : Read Sized := sequence fuel inherited top first pieces
    let more (found : Node × Width) : Read Sized := goOn (.node found.1 found.2 :: pieces)
    match ← next? with
    | none => pure pieces.sized
    | some "|" => pure pieces.sized
    | some ")" => pure pieces.sized
    | some token => do
      let _ ← take?
      if token == "(" then do
        let start := (← here) - 1
        match ← groupHead flags start first pieces with
        | .done pieces => goOn pieces
        | .flagged => goOn pieces
        | .plain => do
          let body ← alternatives fuel flags false
          close start
          goOn (.plain body :: pieces)
        | .remembered number => do
          let body ← alternatives fuel flags false
          close start
          closeGroup number body.width
          more (.group (some number) body.nodes, body.width)
        | .atomic => do
          let body ← alternatives fuel flags false
          close start
          more (.atomic body.nodes, body.width)
        | .flags on off => do
          let body ← alternatives fuel (changeFlags flags on off) false
          close start
          more (.group none body.nodes, body.width)
        | .look behind negated => do
          let before ← get
          if behind && before.behindFrom.isNone then
            set { before with behindFrom := some (before.groups.length + 1) }
          let body ← alternatives fuel flags false
          if behind && before.behindFrom.isNone then
            modify fun s => { s with behindFrom := none }
          close start
          more (.look (if behind then some body.width else none) negated body.nodes, .zero)
        | .condition number => do
          checkBehind number
          let onMatch ← sequence fuel flags false false []
          let otherwise ← if ← accept "|" then do
              let found ← sequence fuel flags false false []
              if (← next?) == some "|" then
                fail "conditional backref with more than two branches" 0
              else pure found
            else pure []
          close start
          more (.condition number onMatch.nodes otherwise.nodes,
            onMatch.width.or otherwise.width)
      else piecesAfter flags pieces token >>= goOn

end

/-! ## What is refused -/

/-- The greatest number of characters that can be looked behind. -/
def maxBehind : Nat := 4294967295

/-- Why a look behind of a width is refused. -/
def behindRefusal? (width : Width) : Option String :=
  if maxBehind < width.least then some "looks too much behind"
  else if width.least != width.most then some "look-behind requires fixed-width pattern"
  else none

/-- Why a repetition is refused in a pattern that is to have none. -/
def repetitionRefusal (greed : Greed) : String :=
  let name := match greed with
    | .greedy => "MAX_REPEAT"
    | .lazy => "MIN_REPEAT"
    | .possessive => "POSSESSIVE_REPEAT"
  "internal: unsupported template operator " ++ name

mutual

/-- The first reason for which a node is refused; `bare` patterns have no repetitions. -/
def refusal? (bare : Bool) : Node → Option String
  | .group _ body => refusalOf? bare body
  | .branch alternatives => refusalIn? bare alternatives
  | .repetition greed _ _ body =>
    if bare then some (repetitionRefusal greed) else refusalOf? bare body
  | .atomic body => refusalOf? bare body
  | .condition _ onMatch otherwise =>
    match refusalOf? bare onMatch with
    | some reason => some reason
    | none => refusalOf? bare otherwise
  | .look behind _ body =>
    match behind.bind behindRefusal? with
    | some reason => some reason
    | none => refusalOf? bare body
  | _ => none
termination_by structural n => n

/-- The first reason for which nodes are refused. -/
def refusalOf? (bare : Bool) : List Node → Option String
  | [] => none
  | node :: rest =>
    match refusal? bare node with
    | some reason => some reason
    | none => refusalOf? bare rest
termination_by structural ns => ns

/-- The first reason for which lists of nodes are refused. -/
def refusalIn? (bare : Bool) : List (List Node) → Option String
  | [] => none
  | nodes :: rest =>
    match refusalOf? bare nodes with
    | some reason => some reason
    | none => refusalIn? bare rest
termination_by structural ls => ls

end

/-- The elements of a set that are neither listed characters nor ranges of them. -/
def keptApart : List SetItem → List SetItem :=
  List.filter fun
    | .code c => lastListed < c
    | .range _ last => lastListed < last
    | .category .. => true

/-- The listed characters of an element, from the first to the last. -/
def listed? : SetItem → Option (Nat × Nat)
  | .code c => if c ≤ lastListed then some (c, c) else none
  | .range first last => if first ≤ lastListed then some (first, min last lastListed) else none
  | .category .. => none

/-- The number of runs without a gap that the listed characters of a set make up. -/
def runCount (items : List SetItem) : Nat :=
  let spans := items.filterMap listed?
  (spans.map Prod.fst).eraseDups.countP fun first =>
    first == 0 || !spans.any fun span => between span.1 span.2 (first - 1)

/-- The element of a set that is tested last. The listed characters are tested first if that makes
the set shorter, or if case is disregarded. -/
def lastTested? (case : Case) (items : List SetItem) : Option SetItem :=
  let apart := keptApart items
  let runs := runCount items
  if case == .exact && runs ≤ 2 && items.length ≤ runs + apart.length then items.getLast?
  else apart.getLast?

mutual

/-- Whether the last thing that a node tests is that a character stands outside of words. -/
def endsOutsideWords : Node → Bool
  | .set _ items case ascii => !ascii && lastTested? case items == some (.category .word true)
  | .group none body => endOutsideWords body
  | .condition _ _ otherwise => endOutsideWords otherwise
  | _ => false
termination_by structural n => n

/-- Whether the last thing that nodes test is that a character stands outside of words. -/
def endOutsideWords : List Node → Bool
  | [] => false
  | node :: rest =>
    if (firstOf? rest).isSome then endOutsideWords rest else endsOutsideWords node
termination_by structural ns => ns

end

/-- The number of characters from which on a look behind is too wide to be carried out. -/
def tooWide : Nat := Nat.pow 2 31

mutual

/-- Whether a node can be carried out. A look behind can be too wide. A condition with one part that
ends in the test for a character of a text outside of words cannot be told from one with two
parts. -/
def isUsable (ofText : Bool) : Node → Bool
  | .group _ body => areUsable ofText body
  | .branch alternatives => areAllUsable ofText alternatives
  | .repetition _ _ _ body => areUsable ofText body
  | .atomic body => areUsable ofText body
  | .condition _ onMatch otherwise =>
    !(ofText && otherwise.isEmpty && endOutsideWords onMatch) && areUsable ofText onMatch &&
      areUsable ofText otherwise
  | .look behind _ body => (behind.map Width.least).getD 0 < tooWide && areUsable ofText body
  | _ => true
termination_by structural n => n

/-- Whether nodes can be carried out. -/
def areUsable (ofText : Bool) : List Node → Bool
  | [] => true
  | node :: rest => isUsable ofText node && areUsable ofText rest
termination_by structural ns => ns

/-- Whether lists of nodes can be carried out. -/
def areAllUsable (ofText : Bool) : List (List Node) → Bool
  | [] => true
  | nodes :: rest => areUsable ofText nodes && areAllUsable ofText rest
termination_by structural ls => ls

end

/-- The whole pattern. -/
def whole : Read Sized := do
  seek 0
  let fuel ← fuelLeft
  let found ← alternatives (4 * fuel + 8) [] true
  let s ← get
  if s.flags.contains 'a' && s.flags.contains 'u' then throw (.incompatible "UNICODE")
  if s.flags.contains 'a' && s.flags.contains 'L' then throw (.incompatible "LOCALE")
  if (← next?).isSome then fail "unbalanced parenthesis" 0
  match s.conditions.find? fun c => c.1 > s.groups.length with
  | some (number, position) => failAt s!"invalid group reference {number}" position
  | none =>
    match refusalOf? (s.flags.contains 't') found.nodes with
    | some reason => throw (.fault ⟨reason, none⟩)
    | none => if areUsable s.ofText found.nodes then pure found else throw .unusable

end Read

end TreeScript.Pattern

namespace TreeScript

/-- A search pattern. -/
structure Pattern where
  /-- Its nodes. -/
  nodes : List Pattern.Node
  /-- The least number of characters that it matches. -/
  least : Nat
  /-- Whether only ASCII counts, by the flags of the whole pattern. -/
  ascii : Bool

namespace Pattern

/-- A message in ASCII, other characters of one byte being spelled by their codes. -/
def spelledOut (message : String) : String :=
  String.join (message.toList.map fun c =>
    if c.toNat < 128 then c.toString else "\\x" ++ Text.hexPadded 2 c.toNat)

/-- The pattern that characters spell, under flags; `ofText` says whether they are a text or
bytes. -/
def readAs (named? : String → Option Char) (ofText : Bool) (flags : Flags) (text : String) :
    Result Pattern :=
  let start : Reader :=
    { chars := text.toList.toArray, position := 0, flags := flags, groups := [], behindFrom := none,
      conditions := [], ofText := ofText, named? := named? }
  match Read.whole.run start with
  | .ok (found, last) => pure ⟨found.nodes, found.width.least, last.flags.contains 'a'⟩
  | .error (.fault fault) =>
    let message := fault.text text.toList
    throw (.pattern (if ofText then message else spelledOut message))
  | .error .tooLarge => throw (.overflow "the repetition number is too large")
  | .error (.incompatible other) => throw (.value s!"ASCII and {other} flags are incompatible")
  | .error .unusable => throw (.raised "RuntimeError" "invalid SRE code")

/-- The pattern that a text spells, under flags. -/
def read (named? : String → Option Char) (flags : Flags) (text : String) : Result Pattern :=
  readAs named? true flags text

end Pattern

end TreeScript
