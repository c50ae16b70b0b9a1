import TreeScript.Text.Range

/-!
# Blank characters

A character is blank when the Unicode standard counts it as white space or as a separator of lines,
paragraphs or information units. Trimming a text removes blanks at both ends.

Around a number the separators of information units do not count as blank.
-/

namespace TreeScript.Text

/-- The blank code points. -/
def blankRanges : Array (Nat × Nat) :=
  #[
    (9, 13), (28, 32), (133, 133), (160, 160), (5760, 5760), (8192, 8202), (8232, 8233),
    (8239, 8239),
    (8287, 8287), (12288, 12288)]

def isBlank (c : Char) : Bool := inRanges blankRanges c.toNat

/-- Whether a character is a separator of information units. -/
def isUnitSeparator (c : Char) : Bool := '\x1c' ≤ c && c ≤ '\x1f'

/-- Whether a character may stand before and after a number. -/
def isNumberBlank (c : Char) : Bool := isBlank c && !isUnitSeparator c

/-- A text without its leading characters of a kind. -/
def trimStartBy (test : Char → Bool) (cs : List Char) : List Char := cs.dropWhile test

/-- A text without its trailing characters of a kind. -/
def trimEndBy (test : Char → Bool) (cs : List Char) : List Char :=
  (cs.reverse.dropWhile test).reverse

/-- A text without its leading and trailing characters of a kind. -/
def trimBy (test : Char → Bool) (cs : List Char) : List Char :=
  trimEndBy test (trimStartBy test cs)

/-- A text that neither starts nor ends with a character of the kind. -/
theorem trimBy_eq_self {test : Char → Bool} {cs : List Char}
    (hfirst : ∀ c ∈ cs.head?, test c = false) (hlast : ∀ c ∈ cs.getLast?, test c = false) :
    trimBy test cs = cs := by
  have hdrop : ∀ {ds : List Char}, (∀ c ∈ ds.head?, test c = false) → ds.dropWhile test = ds := by
    intro ds h
    cases ds with
    | nil => rfl
    | cons d ds => simp [h d rfl]
  rw [trimBy, trimStartBy, hdrop hfirst, trimEndBy, hdrop (by simpa using hlast),
    List.reverse_reverse]

theorem trimBy_eq_of_forall {test : Char → Bool} {cs : List Char}
    (h : ∀ c ∈ cs, test c = false) : trimBy test cs = cs :=
  trimBy_eq_self (fun c hc => h c (List.mem_of_head? hc)) fun c hc => h c (List.mem_of_getLast? hc)

/-- A character of another kind at the start stays. -/
theorem trimBy_cons_ne_nil {test : Char → Bool} {c : Char} (h : test c = false) (cs : List Char) :
    trimBy test (c :: cs) ≠ [] := by
  rw [trimBy, trimStartBy, List.dropWhile_cons_of_neg (by simp [h]), trimEndBy, ne_eq,
    List.reverse_eq_nil_iff, List.reverse_cons, List.dropWhile_append]
  split <;> simp [h]

def trimStart (cs : List Char) : List Char := trimStartBy isBlank cs

def trim (cs : List Char) : List Char := trimBy isBlank cs

def trimmed (s : String) : String := String.ofList (trim s.toList)

end TreeScript.Text
