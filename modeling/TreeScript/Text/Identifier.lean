import TreeScript.Text.Digit
import TreeScript.Text.Kind
import TreeScript.Text.Range

/-!
# Identifiers

An identifier starts with a letter or an underscore and goes on with letters, digits, marks and
connectors. The standard adds some signs to the letters that can start one and takes out some
letters whose compatibility form could not.
-/

namespace TreeScript.Text

/-- The code points that can start an identifier and are no letters. -/
def startSignRanges : Array (Nat × Nat) :=
  #[
    (95, 95), (5870, 5872), (6277, 6278), (8472, 8472), (8494, 8494), (8544, 8578), (8581, 8584),
    (12295, 12295), (12321, 12329), (12344, 12346), (42726, 42735), (65856, 65908), (66369, 66369),
    (66378, 66378), (66513, 66517), (74752, 74862)]

/-- The code points of letters that cannot start an identifier. -/
def startExceptionRanges : Array (Nat × Nat) :=
  #[
    (890, 890), (3635, 3635), (3763, 3763), (11823, 11823), (64606, 64611), (65018, 65019),
    (65136, 65136), (65138, 65138), (65140, 65140), (65142, 65142), (65144, 65144), (65146, 65146),
    (65148, 65148), (65150, 65150), (65438, 65439)]

/-- The code points of letters and numbers that can go on with an identifier and neither start one
nor are digits. -/
def continuingRanges : Array (Nat × Nat) :=
  #[(3635, 3635), (3763, 3763), (4969, 4977), (6618, 6618), (65438, 65439)]

/-- Whether an identifier can start with a character. -/
def startsIdentifier (c : Char) : Bool :=
  (isLetter c && !inRanges startExceptionRanges c.toNat) || inRanges startSignRanges c.toNat

/-- Whether an identifier can go on with a character. -/
def continuesIdentifier (c : Char) : Bool :=
  startsIdentifier c || isDigit c || kind c == .mark || inRanges continuingRanges c.toNat

/-- Whether a text is an identifier. -/
def isIdentifier (s : String) : Bool :=
  match s.toList with
  | [] => false
  | c :: rest => startsIdentifier c && rest.all continuesIdentifier

end TreeScript.Text
