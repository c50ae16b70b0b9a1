import TreeScript.Pattern.Syntax
import TreeScript.Text.Blank
import TreeScript.Text.Casing
import TreeScript.Text.Digit
import TreeScript.Text.Kind

/-!
# Characters in patterns

What a one-character node accepts. A character of a text is looked at as a `Glyph`, which knows the
other characters that are the same letter, so that this is found out once for each character.

When case is disregarded, a set is compared with the lower case of a character. A set that holds
nothing with case, and a character without case, are compared as they are.
-/

namespace TreeScript.Pattern

/-- The lower case of an ASCII letter. -/
def lowerAscii (code : Nat) : Nat := if 65 ≤ code && code ≤ 90 then code + 32 else code

/-- Whether a code is an ASCII letter. -/
def isAsciiLetter (code : Nat) : Bool := 97 ≤ lowerAscii code && lowerAscii code ≤ 122

/-- The codes that become a given one in lower case. -/
def upperForms (code : Nat) : List Nat :=
  Text.lowerRuns.toList.filterMap fun run =>
    let source := (code : Int) - run.distance
    if 0 ≤ source && run.contains source.toNat then some source.toNat else none

/-- The lower case of a code. -/
def lowerCode (code : Nat) : Nat :=
  match Text.lowerRuns.find? (·.contains code) with
  | some run => ((code : Int) + run.distance).toNat
  | none => code

/-- The upper case of a code; of a spelled-out form it is the first character. -/
def upperCode (code : Nat) : Nat :=
  match Text.upperSpelled.find? (·.1 == code) with
  | some (_, codes) => codes.headD code
  | none =>
    match Text.upperRuns.find? (·.contains code) with
    | some run => ((code : Int) + run.distance).toNat
    | none => code

/-- The lower case forms of the letter that a code in lower case is a form of. -/
def lowerForms (code : Nat) : List Nat :=
  match Text.letterForms.find? (·.contains code) with
  | some forms => forms
  | none => [code]

/-- All codes that are the same letter as a given one. -/
def letterCodes (code : Nat) : List Nat :=
  let forms := lowerForms (lowerCode code)
  forms ++ forms.flatMap upperForms

/-- A character of a text. -/
structure Glyph where
  /-- Its code. -/
  code : Nat
  /-- The code of its lower case. -/
  lower : Nat
  /-- All codes that are the same letter. -/
  same : List Nat

/-- The glyph of a code. -/
def Glyph.compute (code : Nat) : Glyph := ⟨code, lowerCode code, letterCodes code⟩

/-- The glyphs of the ASCII characters. -/
def asciiGlyphs : Array Glyph := ((List.range 128).map Glyph.compute).toArray

/-- The glyph of a character. -/
def Glyph.ofChar (c : Char) : Glyph := (asciiGlyphs[c.toNat]?).getD (Glyph.compute c.toNat)

/-- The code by which a glyph is compared. -/
def Glyph.under (glyph : Glyph) : Case → Nat
  | .exact => glyph.code
  | .folded => glyph.lower
  | .foldedAscii => lowerAscii glyph.code

/-! ## What has case -/

/-- Whether some code between two codes belongs to a run. -/
def meetsRun (first last : Nat) (run : Text.CaseRun) : Bool :=
  let low := max first run.first
  let next := low + (run.stride - (low - run.first) % run.stride) % run.stride
  next ≤ min last run.last

/-- Whether some code between two codes has another case. -/
def Case.meets (case : Case) (first last : Nat) : Bool :=
  match case with
  | .exact => false
  | .folded =>
    Text.lowerRuns.any (meetsRun first last) || Text.upperRuns.any (meetsRun first last) ||
      Text.upperSpelled.any fun entry => first ≤ entry.1 && entry.1 ≤ last
  | .foldedAscii => (max first 65 ≤ min last 90) || (max first 97 ≤ min last 122)

/-- How case is treated for one character. -/
def Case.forCode (case : Case) (code : Nat) : Case := if case.meets code code then case else .exact

/-- The last code of the characters that sets list one by one; further ones are kept apart. -/
def lastListed : Nat := 0xFFFF

/-- Whether an element gives a set case; one beyond the listed characters always does. -/
def SetItem.hasCase (case : Case) : SetItem → Bool
  | .code c => lastListed < c || case.meets c c
  | .range first last => lastListed < last || case.meets first last
  | .category .. => false

/-- How case is treated for a set. -/
def Case.forItems (case : Case) (items : List SetItem) : Case :=
  if items.any (SetItem.hasCase case) then case else .exact

/-- Whether an element holds the same characters whether case counts or not, as far as the listed
characters show. -/
def SetItem.isCaseless (case : Case) : SetItem → Bool
  | .code c => !case.meets c c
  | .range first last => last ≤ lastListed && !case.meets first last
  | .category .. => true

/-! ## What is accepted -/

/-- Whether a code is a character of a kind, in all scripts or in ASCII. -/
def Category.contains (category : Category) (ascii : Bool) (code : Nat) : Bool :=
  let c := Char.ofNat code
  if ascii then
    match category with
    | .digit => c.isDigit
    | .space => code == 32 || (9 ≤ code && code ≤ 13)
    | .word => c.isAlphanum || code == 95
  else
    match category with
    | .digit => Text.isDigit c
    | .space => Text.isBlank c
    | .word => Text.isWord c

/-- Whether a code lies between two codes. -/
def between (first last code : Nat) : Bool := first ≤ code && code ≤ last

/-- Whether a range holds a code in lower case or its upper case. -/
def betweenCases (first last code : Nat) : Bool :=
  between first last code || between first last (upperCode code)

/-- Whether a glyph belongs to an element of a set. Beyond the listed characters, a single one is
compared as it stands in the pattern, and a range in both cases. -/
def SetItem.contains (item : SetItem) (case : Case) (ascii : Bool) (glyph : Glyph) : Bool :=
  match item, case with
  | .category kind negated, _ => kind.contains ascii (glyph.under case) != negated
  | .code c, .exact => c == glyph.code
  | .code c, .folded => if lastListed < c then c == glyph.lower else glyph.same.contains c
  | .code c, .foldedAscii => lowerAscii c == lowerAscii glyph.code
  | .range first last, .exact => between first last glyph.code
  | .range first last, .folded =>
    glyph.same.any (between first (min last lastListed)) ||
      (lastListed < last && betweenCases first last glyph.lower)
  | .range first last, .foldedAscii =>
    let low := lowerAscii glyph.code
    between first (min last lastListed) low ||
      (isAsciiLetter low && between first (min last lastListed) (low - 32)) ||
      (lastListed < last && betweenCases first last low)

/-- Whether a glyph is a character. -/
def Case.agrees (case : Case) (code : Nat) (glyph : Glyph) : Bool :=
  match case with
  | .exact => code == glyph.code
  | .folded => glyph.same.contains code
  | .foldedAscii => lowerAscii code == lowerAscii glyph.code

/-- Whether a node that matches one character accepts a glyph. -/
def Node.accepts (glyph : Glyph) : Node → Bool
  | .literal c negated case => case.agrees c glyph != negated
  | .any withLineFeed => withLineFeed || glyph.code != 10
  | .set negated items case ascii => items.any (·.contains case ascii glyph) != negated
  | _ => false

/-- Whether a one-character node is tried character by character when it is repeated, and not
scanned for in one go. -/
def Node.isTriedSingly : Node → Bool
  | .literal c _ case => case == .folded && (lowerForms (lowerCode c)).length != 1
  | .set _ _ case _ => case != .exact
  | _ => false

end TreeScript.Pattern
