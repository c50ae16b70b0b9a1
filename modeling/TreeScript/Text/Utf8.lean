/-!
# UTF-8

Decoding of bytes. `decodeUtf8` says where and why bytes are no text; `decodeLossy` puts a
replacement character for every part that is none. Such a part is as long as bytes could still have
become a character.
-/

namespace TreeScript.Text

/-- What is at the start of a list of bytes. -/
inductive Unit where
  /-- A character, in so many bytes. -/
  | char (c : Char) (width : Nat)
  /-- No character: the first byte cannot start one. -/
  | badStart
  /-- No character: after so many bytes comes one that cannot go on with it. -/
  | badContinuation (width : Nat)
  /-- No character: the bytes end within one, after so many bytes. -/
  | truncated (width : Nat)
  deriving DecidableEq

/-- Whether a byte can go on with a character. -/
def isContinuation (b : UInt8) : Bool := 0x80 ≤ b && b ≤ 0xbf

/-- Whether a second byte can follow a first one: some would start a character that is too small, a
surrogate or too large. -/
def isSecond (first second : UInt8) : Bool :=
  if first == 0xe0 then 0xa0 ≤ second && second ≤ 0xbf
  else if first == 0xed then 0x80 ≤ second && second ≤ 0x9f
  else if first == 0xf0 then 0x90 ≤ second && second ≤ 0xbf
  else if first == 0xf4 then 0x80 ≤ second && second ≤ 0x8f
  else isContinuation second

def payload (b : UInt8) : Nat := b.toNat % 64

/-- What is at the start of bytes that are not empty. -/
def firstUnit (b : UInt8) (rest : List UInt8) : Unit :=
  if b < 0x80 then .char (Char.ofNat b.toNat) 1
  -- the inside of a character, or the start of an overlong form or of a code beyond the last
  else if b < 0xc2 || 0xf4 < b then .badStart
  else if b < 0xe0 then
    match rest with
    | [] => .truncated 1
    | c :: _ =>
      if isSecond b c then .char (Char.ofNat (b.toNat % 32 * 64 + payload c)) 2
      else .badContinuation 1
  else if b < 0xf0 then
    match rest with
    | [] => .truncated 1
    | c :: rest =>
      if !isSecond b c then .badContinuation 1
      else
        match rest with
        | [] => .truncated 2
        | d :: _ =>
          if isContinuation d then
            .char (Char.ofNat ((b.toNat % 16 * 64 + payload c) * 64 + payload d)) 3
          else .badContinuation 2
  else
    match rest with
    | [] => .truncated 1
    | c :: rest =>
      if !isSecond b c then .badContinuation 1
      else
        match rest with
        | [] => .truncated 2
        | d :: rest =>
          if !isContinuation d then .badContinuation 2
          else
            match rest with
            | [] => .truncated 3
            | e :: _ =>
              if isContinuation e then
                .char (Char.ofNat
                  (((b.toNat % 8 * 64 + payload c) * 64 + payload d) * 64 + payload e)) 4
              else .badContinuation 3

/-- Where and why bytes are no text. -/
structure Utf8Fault where
  /-- The first byte of the part that is no character. -/
  byte : UInt8
  position : Nat
  /-- How many bytes the part has. -/
  width : Nat
  reason : String

/-- Decodes bytes from a position on, with fuel for their number. -/
def decodeFrom : Nat → Nat → List UInt8 → Except Utf8Fault (List Char)
  | 0, _, _ => pure []
  | _, _, [] => pure []
  | fuel + 1, position, b :: rest =>
    match firstUnit b rest with
    | .char c width => do
      let cs ← decodeFrom fuel (position + width) (rest.drop (width - 1))
      pure (c :: cs)
    | .badStart => throw ⟨b, position, 1, "invalid start byte"⟩
    | .badContinuation width => throw ⟨b, position, width, "invalid continuation byte"⟩
    | .truncated width => throw ⟨b, position, width, "unexpected end of data"⟩

def decodeUtf8 (bytes : List UInt8) : Except Utf8Fault String :=
  String.ofList <$> decodeFrom bytes.length 0 bytes

/-- The text of bytes, if they are one. -/
def decodeUtf8? (bytes : List UInt8) : Option String := (decodeUtf8 bytes).toOption

/-- Decodes bytes with replacements, with fuel for their number. -/
def decodeLossyFrom : Nat → List UInt8 → List Char
  | 0, _ => []
  | _, [] => []
  | fuel + 1, b :: rest =>
    match firstUnit b rest with
    | .char c width => c :: decodeLossyFrom fuel (rest.drop (width - 1))
    | .badStart => '\ufffd' :: decodeLossyFrom fuel rest
    | .badContinuation width => '\ufffd' :: decodeLossyFrom fuel (rest.drop (width - 1))
    | .truncated width => '\ufffd' :: decodeLossyFrom fuel (rest.drop (width - 1))

/-- The text of bytes, with a replacement character for every part that is no character. -/
def decodeLossy (bytes : List UInt8) : String := String.ofList (decodeLossyFrom bytes.length bytes)

def encodeUtf8 (s : String) : List UInt8 := s.toUTF8.toList

end TreeScript.Text
