/-!
# Base64

The usual alphabet. Encoding breaks lines after 76 characters and ends the last one. Decoding skips
characters outside of the alphabet and stops at a padding that completes a group of four; it fails
if a group is left incomplete.
-/

namespace TreeScript.Text.Base64

/-- The characters of the sixty-four digits. -/
def alphabet : List Char :=
  "ABCDEFGHIJKLMNOPQRSTUVWXYZabcdefghijklmnopqrstuvwxyz0123456789+/".toList

def digit (n : Nat) : Char := alphabet.getD n 'A'

def value? (c : Char) : Option Nat := alphabet.idxOf? c

/-- The digits of bytes, in groups of four. -/
def encodeChars : List UInt8 → List Char
  | [] => []
  | [a] =>
    let n := a.toNat * 16
    [digit (n / 64), digit (n % 64), '=', '=']
  | [a, b] =>
    let n := (a.toNat * 256 + b.toNat) * 4
    [digit (n / 4096), digit (n / 64 % 64), digit (n % 64), '=']
  | a :: b :: c :: rest =>
    let n := (a.toNat * 256 + b.toNat) * 256 + c.toNat
    digit (n / 262144) :: digit (n / 4096 % 64) :: digit (n / 64 % 64) :: digit (n % 64) ::
      encodeChars rest

/-- A text cut into lines of 76 characters, each with its end, with fuel for the number of lines. -/
def lines : Nat → List Char → List Char
  | 0, _ => []
  | _, [] => []
  | fuel + 1, cs => cs.take 76 ++ '\n' :: lines fuel (cs.drop 76)

def encode (bytes : List UInt8) : String :=
  let cs := encodeChars bytes
  String.ofList (lines cs.length cs)

/-- Decodes digits after a group that holds so many digits with the given number, of which so many
paddings have come in a row. -/
def decodeFrom : (held count pads : Nat) → List Char → Option (List UInt8)
  | _, count, _, [] => if count == 0 then some [] else none
  | held, count, pads, c :: rest =>
    if c == '=' then
      -- two or three digits with enough padding complete a group, and what follows is not read
      if count ≥ 2 && count + pads + 1 ≥ 4 then some []
      else decodeFrom held count (if count ≥ 2 then pads + 1 else pads) rest
    else
      match value? c with
      | none => decodeFrom held count pads rest
      | some d =>
        match count with
        | 0 => decodeFrom d 1 0 rest
        | 1 => (decodeFrom (d % 16) 2 0 rest).map ((held * 4 + d / 16).toUInt8 :: ·)
        | 2 => (decodeFrom (d % 4) 3 0 rest).map ((held * 16 + d / 4).toUInt8 :: ·)
        | _ => (decodeFrom 0 0 0 rest).map ((held * 64 + d).toUInt8 :: ·)

def decode? (cs : List Char) : Option (List UInt8) := decodeFrom 0 0 0 cs

end TreeScript.Text.Base64
