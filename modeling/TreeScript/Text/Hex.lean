/-!
# Hexadecimal digits
-/

namespace TreeScript.Text

/-- The value of a hexadecimal digit, which is an ASCII digit or letter. -/
def hexValue? (c : Char) : Option Nat :=
  if c.isDigit then some (c.toNat - 48)
  else if 'a' ≤ c && c ≤ 'f' then some (c.toNat - 87)
  else if 'A' ≤ c && c ≤ 'F' then some (c.toNat - 55)
  else none

/-- The number that hexadecimal digits denote, if all of them are some. -/
def ofHex? (cs : List Char) : Option Nat :=
  cs.foldlM (fun n c => (hexValue? c).map (16 * n + ·)) 0

/-- The lower-case hexadecimal digits of a number, padded with zeros to a width. -/
def hexPadded (width n : Nat) : String :=
  let digits := Nat.toDigits 16 n
  String.ofList (List.replicate (width - digits.length) '0' ++ digits)

/-- The upper-case hexadecimal digits of a number, padded with zeros to a width. -/
def hexPaddedUpper (width n : Nat) : String :=
  String.ofList ((hexPadded width n).toList.map Char.toUpper)

end TreeScript.Text
