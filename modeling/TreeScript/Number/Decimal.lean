import TreeScript.Number.Binary64
import TreeScript.Text.Blank
import TreeScript.Text.Digit
import TreeScript.Text.Casing

/-!
# Decimal text of numbers

Integers and binary64 numbers are written and read in decimal.

* `Binary64.shortest` gives the decimal with the fewest digits that reads back as the number, and of
those the nearest one. It looks at the grids of one, two, … decimal places in turn and tests the two
neighbours of the number on each, in exact arithmetic.
* `Binary64.text` lays that decimal out: positionally when the first digit stands for a power of ten
from `10 ^ -4` to `10 ^ 15`, with a mark and at least two digits of exponent otherwise.
* `Binary64.ofDecimal` is the number nearest to `digits · 10 ^ exponent`.
* `readInt?` and `readBinary64?` read a whole text as a number, as a conversion of text does: blanks
at the ends are dropped, digits of any script count, and a single underscore may separate digits.
-/

namespace TreeScript

/-- The number of decimal digits of a natural number. -/
def decimalLength (n : Nat) : Nat := (Nat.toDigits 10 n).length

def intText (i : Int) : String :=
  if i < 0 then "-" ++ toString i.natAbs else toString i.natAbs

/-- The natural number with the given decimal digits, the most significant first. -/
def ofDigits (digits : List Nat) : Nat := digits.foldl (fun n d => 10 * n + d) 0

namespace Binary64

/-! ## The shortest decimal -/

/-- The parts of `num / den · 10 ^ (-shift)` as a quotient of natural numbers. -/
def scaleDecimal (num den : Nat) (shift : Int) : Nat × Nat :=
  if 0 ≤ shift then (num, den * Nat.pow 10 shift.toNat)
  else (num * Nat.pow 10 (-shift).toNat, den)

/-- The least `j ≤ fuel` with `den ≤ num · 10 ^ j`. -/
def leadingZeros (den : Nat) : Nat → Nat → Nat
  | 0, _ => 0
  | fuel + 1, num => if den ≤ num then 0 else leadingZeros den fuel (10 * num) + 1

/-- The integer `k` with `10 ^ (k - 1) ≤ num / den < 10 ^ k`, for positive `num` and `den` whose
quotient is a number of the format. -/
def decimalMagnitude (num den : Nat) : Int :=
  if den ≤ num then (decimalLength (num / den) : Int) else 1 - (leadingZeros den 400 num : Int)

/-- The set of reals that round to one number: the number `value`, the ends `low` and `high`, all
over the denominator `den`, and whether the ends belong to it. -/
structure Cell where
  /-- Numerator of the number itself. -/
  value : Nat
  /-- Numerator of the lower end. -/
  low : Nat
  /-- Numerator of the upper end. -/
  high : Nat
  /-- The common denominator. -/
  den : Nat
  /-- Whether the two ends round to the number too. -/
  closed : Bool

/-- The reals that round to `mantissa · 2 ^ exponent`. Below a power of two the neighbours are
closer by half. -/
def cell (mantissa : Nat) (exponent : Int) : Cell :=
  -- quarter units, so that both ends of the cell are integers
  let below := if mantissa = Nat.pow 2 52 ∧ minExponent < exponent then 1 else 2
  let scale := exponent - 2
  let up := if 0 ≤ scale then Nat.pow 2 scale.toNat else 1
  { value := 4 * mantissa * up
    low := (4 * mantissa - below) * up
    high := (4 * mantissa + 2) * up
    den := if 0 ≤ scale then 1 else Nat.pow 2 (-scale).toNat
    closed := mantissa % 2 == 0 }

/-- Whether `candidate · 10 ^ unit` rounds to the number of the cell. -/
def Cell.contains (c : Cell) (candidate : Nat) (unit : Int) : Bool :=
  let low := scaleDecimal c.low c.den unit
  let high := scaleDecimal c.high c.den unit
  if c.closed then low.1 ≤ candidate * low.2 && candidate * high.2 ≤ high.1
  else low.1 < candidate * low.2 && candidate * high.2 < high.1

/-- The neighbour of the number on the grid of multiples of `10 ^ unit` that reads back as it. When
both do, the nearer one, and the even one when they are equally near. -/
def Cell.neighbour? (c : Cell) (unit : Int) : Option Nat :=
  let parts := scaleDecimal c.value c.den unit
  let below := parts.1 / parts.2
  let nearest := roundQuotient parts.1 parts.2
  let other := if nearest = below then below + 1 else below
  if c.contains nearest unit then some nearest
  else if c.contains other unit then some other
  else none

/-- The first grid, from coarse to fine, with a multiple that reads back: the multiple and the power
of ten of the grid. -/
def Cell.search (c : Cell) (magnitude : Int) : Nat → Nat → Nat × Int
  | places, 0 => (c.value / c.den, magnitude - places)
  | places, fuel + 1 =>
    let unit := magnitude - places
    match c.neighbour? unit with
    | some n => (n, unit)
    | none => c.search magnitude (places + 1) fuel

/-- A number without its trailing decimal zeros, and with as much added to the exponent. -/
def dropZeros : Nat → Nat → Int → Nat × Int
  | 0, n, e => (n, e)
  | fuel + 1, n, e => if n % 10 = 0 ∧ n ≠ 0 then dropZeros fuel (n / 10) (e + 1) else (n, e)

/-- The shortest decimal `digits · 10 ^ exponent` of `mantissa · 2 ^ exponent`, for a mantissa that
is not zero. -/
def shortest (mantissa : Nat) (exponent : Int) : Nat × Int :=
  let c := cell mantissa exponent
  -- seventeen digits always suffice
  let found := c.search (decimalMagnitude c.value c.den) 1 17
  dropZeros 20 found.1 found.2

/-! ## Layout -/

/-- Numbers whose leading digit stands for `10 ^ e` with `least ≤ e < bound` are written
positionally. -/
structure Layout where
  /-- The least power of ten written positionally. -/
  least : Int
  /-- The least power of ten written with an exponent again. -/
  bound : Int

/-- Numbers are written positionally from `10 ^ -4` up to below `10 ^ 16`. -/
def layout : Layout := ⟨-4, 16⟩

/-- An exponent with its sign and at least two digits. -/
def exponentText (e : Int) : String :=
  let digits := toString e.natAbs
  (if e < 0 then "e-" else "e+") ++ (if e.natAbs < 10 then "0" ++ digits else digits)

/-- The text of `digits · 10 ^ exponent`. -/
def decimalText (style : Layout) (digits : Nat) (exponent : Int) : String :=
  let ds := Nat.toDigits 10 digits
  let point : Int := ds.length + exponent
  let leading := point - 1
  -- a point in front of the digits, behind them, or among them
  if style.least ≤ leading ∧ leading < style.bound then
    if point ≤ 0 then
      String.ofList ('0' :: '.' :: List.replicate (-point).toNat '0' ++ ds)
    else if (ds.length : Int) ≤ point then
      String.ofList (ds ++ List.replicate (point.toNat - ds.length) '0' ++ ['.', '0'])
    else
      String.ofList (ds.take point.toNat ++ '.' :: ds.drop point.toNat)
  else
    match ds with
    | [] => exponentText leading
    | d :: [] => String.ofList [d] ++ exponentText leading
    | d :: rest => String.ofList (d :: '.' :: rest) ++ exponentText leading

def text : Binary64 → String
  | .nan _ => "nan"
  | .infinite n => if n then "-inf" else "inf"
  | .finite n m e =>
    let body :=
      if m = 0 then "0.0"
      else
        let short := shortest m e
        decimalText layout short.1 short.2
    if n then "-" ++ body else body

/-! ## Reading -/

/-- The number nearest to `digits · 10 ^ exponent`. Decimals far outside the range of the format are
recognised by their length, so that no large power is computed for them. -/
def ofDecimal (negative : Bool) (digits : Nat) (exponent : Int) : Binary64 :=
  if digits = 0 then zero negative
  else
    let top : Int := decimalLength digits + exponent
    if 400 < top then .infinite negative
    else if top < -400 then zero negative
    else if 0 ≤ exponent then ofRatio negative (digits * Nat.pow 10 exponent.toNat) 1
    else ofRatio negative digits (Nat.pow 10 (-exponent).toNat)

/-- The number written with the given digits before and after the point and the given power of ten.
-/
def ofParts (negative : Bool) (whole fraction : List Nat) (exponent : Int) : Binary64 :=
  ofDecimal negative (ofDigits (whole ++ fraction)) (exponent - fraction.length)

end Binary64

/-! ## Numbers as whole texts -/

/-- An optional sign in front of a text: whether it is a minus, and what follows it. -/
def splitSign : List Char → Bool × List Char
  | '-' :: rest => (true, rest)
  | '+' :: rest => (false, rest)
  | cs => (false, cs)

/-- The digits at the front of a text, of any script, and what follows them. -/
def splitDigits : List Char → List Nat × List Char
  | [] => ([], [])
  | c :: rest =>
    match Text.digitValue? c with
    | some d =>
      let more := splitDigits rest
      (d :: more.1, more.2)
    | none => ([], c :: rest)

/-- The text without underscores, provided each of them stands between two digits. -/
def dropUnderscores? (isDigit : Char → Bool) : Bool → List Char → Option (List Char)
  | _, [] => some []
  | _, '_' :: [] => none
  | afterDigit, '_' :: c :: rest =>
    if afterDigit && isDigit c then (dropUnderscores? isDigit true rest).map (c :: ·) else none
  | _, c :: rest => (dropUnderscores? isDigit (isDigit c) rest).map (c :: ·)

/-- The value of a digit in a base of at most 36, of any script for the ten decimal digits. -/
def digitInBase? (base : Nat) (c : Char) : Option Nat :=
  let value? : Option Nat :=
    match Text.digitValue? c with
    | some d => some d
    | none =>
      if 'a' ≤ c ∧ c ≤ 'z' then some (c.toNat - 87)
      else if 'A' ≤ c ∧ c ≤ 'Z' then some (c.toNat - 55)
      else none
  value?.bind fun d => if d < base then some d else none

/-- The number with the given digits in a base. -/
def ofBaseDigits? (base : Nat) (cs : List Char) : Option Nat :=
  cs.foldlM (fun n c => (digitInBase? base c).map (base * n + ·)) 0

/-- A number in base 2, 8 or 16 may start with the mark of its base. -/
def dropBaseMark (base : Nat) : List Char → List Char
  | '0' :: c :: rest =>
    let mark := Text.lower c
    if (base == 2 && mark == 'b') || (base == 8 && mark == 'o') || (base == 16 && mark == 'x') then
      -- an underscore may follow the mark of the base
      match rest with
      | '_' :: more => more
      | _ => rest
    else '0' :: c :: rest
  | cs => cs

/-- The integer a text denotes in a base. Blanks at the ends are dropped, a sign may stand in front,
and an underscore may stand between two digits. -/
def readIntBase? (base : Nat) (cs : List Char) : Option Int :=
  let signed := splitSign (Text.trimBy Text.isNumberBlank cs)
  let body := dropBaseMark base signed.2
  match dropUnderscores? (fun c => (digitInBase? base c).isSome) false body with
  | none => none
  | some [] => none
  | some digits =>
    (ofBaseDigits? base digits).map fun n => if signed.1 then -(n : Int) else n

def readInt? (cs : List Char) : Option Int := readIntBase? 10 cs

/-- The power of ten after an exponent mark: nothing at all, or a mark, an optional sign and digits.
-/
def readExponent? : List Char → Option Int
  | [] => some 0
  | c :: rest =>
    if c == 'e' || c == 'E' then
      let signed := splitSign rest
      match splitDigits signed.2 with
      | ([], _) => none
      | (digits, []) =>
        let n : Int := ofDigits digits
        some (if signed.1 then -n else n)
      | (_, _ :: _) => none
    else none

/-- The number an unsigned decimal numeral denotes: digits with an optional point among or around
them, and an optional exponent. -/
def readUnsigned? (negative : Bool) (cs : List Char) : Option Binary64 :=
  let whole := splitDigits cs
  let after :=
    match whole.2 with
    | '.' :: rest => splitDigits rest
    | rest => ([], rest)
  if whole.1.isEmpty && after.1.isEmpty then none
  else (readExponent? after.2).map (Binary64.ofParts negative whole.1 after.1)

/-- The number a text denotes. Besides numerals, the words for infinity and for what is not a number
are read in any letter case. -/
def readBinary64? (cs : List Char) : Option Binary64 :=
  match dropUnderscores? Text.isDigit false (Text.trimBy Text.isNumberBlank cs) with
  | none => none
  | some plain =>
    let signed := splitSign plain
    let word := String.ofList (signed.2.map Char.toLower)
    if word == "inf" || word == "infinity" then some (.infinite signed.1)
    else if word == "nan" then some .undefined
    else readUnsigned? signed.1 signed.2

end TreeScript
