import TreeScript.Text.Hex
import TreeScript.Text.Kind

/-!
# Quoted text

How a text is shown inside other text: between quotes, with the characters escaped that do not
print. Single quotes are used unless the text has single quotes and no double quotes.
-/

namespace TreeScript.Text

/-- The quote for a text: a single quote unless only double quotes are free. -/
def quoteFor (hasSingle hasDouble : Bool) : Char := if hasSingle && !hasDouble then '"' else '\''

/-- A code as it is written when it does not print: by the shortest of three escapes. -/
def escapeCode (code : Nat) : String :=
  if code < 0x100 then "\\x" ++ hexPadded 2 code
  else if code < 0x10000 then "\\u" ++ hexPadded 4 code
  else "\\U" ++ hexPadded 8 code

def quotedChar (quote c : Char) : String :=
  if c == quote || c == '\\' then String.ofList ['\\', c]
  else if c == '\n' then "\\n"
  else if c == '\r' then "\\r"
  else if c == '\t' then "\\t"
  else if isPrintable c then c.toString
  else escapeCode c.toNat

def quoted (s : String) : String :=
  let quote := quoteFor (s.toList.contains '\'') (s.toList.contains '"')
  quote.toString ++ String.join (s.toList.map (quotedChar quote)) ++ quote.toString

/-- A byte inside quotes: as a character where it is printable ASCII, else as an escape. -/
def quotedByte (quote : Char) (b : UInt8) : String :=
  if 0x20 ≤ b.toNat && b.toNat < 0x7f || b.toNat ∈ [9, 10, 13] then
    quotedChar quote (Char.ofNat b.toNat)
  else escapeCode b.toNat

/-- Bytes between quotes, marked as bytes. -/
def quotedBytes (bs : List UInt8) : String :=
  let quote := quoteFor (bs.contains 39) (bs.contains 34)
  "b" ++ quote.toString ++ String.join (bs.map (quotedByte quote)) ++ quote.toString

end TreeScript.Text
