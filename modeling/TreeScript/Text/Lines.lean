/-!
# Lines

A text is cut at a character into one part more than the character occurs. Lines are cut at line
feeds; a text read from a file has its other line ends made line feeds first.
-/

namespace TreeScript.Text

/-- The parts of a text between a character. -/
def parts (separator : Char) : List Char → List (List Char)
  | [] => [[]]
  | c :: rest =>
    if c == separator then [] :: parts separator rest
    else
      match parts separator rest with
      | [] => [[c]]
      | first :: others => (c :: first) :: others

theorem parts_eq_singleton {separator : Char} {cs : List Char} (h : separator ∉ cs) :
    parts separator cs = [cs] := by
  induction cs with
  | nil => rfl
  | cons c cs ih =>
    rw [List.mem_cons, not_or] at h
    rw [parts, beq_eq_false_iff_ne.2 (Ne.symm h.1), ih h.2]
    rfl

def split (separator : Char) (s : String) : List String :=
  (parts separator s.toList).map String.ofList

def lines (s : String) : List String := split '\n' s

def unlines (ls : List String) : String := "\n".intercalate ls

/-- The text with every carriage return, and every pair of one and a line feed, made a line feed. -/
def plainBreaks : List Char → List Char
  | [] => []
  | '\r' :: '\n' :: rest => '\n' :: plainBreaks rest
  | '\r' :: rest => '\n' :: plainBreaks rest
  | c :: rest => c :: plainBreaks rest

/-- A text without a character at its end, as often as it stands there. -/
def dropTrailing (c : Char) (s : String) : String :=
  String.ofList (s.toList.reverse.dropWhile (· == c)).reverse

end TreeScript.Text
