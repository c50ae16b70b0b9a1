/-!
# Tables of character ranges

A property of characters that a standard gives by listing code points is kept as an array of
inclusive ranges in increasing order. Membership is a scan of the table.
-/

namespace TreeScript.Text

/-- Whether a code point lies in one of the inclusive ranges of a table. -/
def inRanges (table : Array (Nat × Nat)) (code : Nat) : Bool :=
  table.any fun range => range.1 ≤ code && code ≤ range.2

end TreeScript.Text
