import Mathlib
import TreeScript.Json.Reader
import TreeScript.Json.Writer

/-!
# The tokens of JSON

What the readers of JSON do with the characters of a string and the digits of a number, and how
characters and integers are written.

A character is written as itself, as an escape by one letter, or as the escapes of its UTF-16 units;
in each case reading takes one step. A number has no mark at its end, so that its reader has to be
told that what follows belongs to no number (`Json.endsNumber`).
-/

namespace TreeScript

namespace Text

/-! ## Hexadecimal digits -/

theorem hexValue?_digitChar : ∀ d < 16, hexValue? (Nat.digitChar d) = some d := by
  decide

theorem ofHex?_append (cs ds : List Char) :
    ofHex? (cs ++ ds) =
      (ofHex? cs).bind fun n => ds.foldlM (fun n c => (hexValue? c).map (16 * n + ·)) n := by
  simp [ofHex?, List.foldlM_append]

theorem ofHex?_toDigits (n : Nat) : ofHex? (Nat.toDigits 16 n) = some n := by
  induction n using Nat.strongRecOn with
  | ind n ih =>
    by_cases h : n < 16
    · simp [Nat.toDigits_of_lt_base h, ofHex?, hexValue?_digitChar n h]
    · rw [Nat.toDigits_of_base_le (by decide) (by omega), ofHex?_append, ih (n / 16) (by omega)]
      simp [hexValue?_digitChar (n % 16) (by omega)]
      omega

theorem ofHex?_replicate_zero (k : Nat) : ofHex? (List.replicate k '0') = some 0 := by
  induction k with
  | zero => rfl
  | succ k ih =>
    rw [List.replicate_succ', ofHex?_append, ih]
    rfl

theorem ofHex?_hexPadded (width n : Nat) : ofHex? (hexPadded width n).toList = some n := by
  rw [hexPadded, String.toList_ofList, ofHex?_append, ofHex?_replicate_zero]
  exact ofHex?_toDigits n

theorem length_hexPadded {width n : Nat} (hwidth : 0 < width) (h : n < 16 ^ width) :
    (hexPadded width n).toList.length = width := by
  have hlen := (Nat.length_toDigits_le_iff (b := 16) (by decide) hwidth).2 h
  simp [hexPadded]
  omega

theorem mem_toDigits_hex {n : Nat} {c : Char} (hc : c ∈ Nat.toDigits 16 n) :
    ∃ d < 16, c = Nat.digitChar d := by
  induction n using Nat.strongRecOn with
  | ind n ih =>
    by_cases h : n < 16
    · rw [Nat.toDigits_of_lt_base h, List.mem_singleton] at hc
      exact ⟨n, h, hc⟩
    · rw [Nat.toDigits_of_base_le (by decide) (by omega), List.mem_append, List.mem_singleton] at hc
      rcases hc with hc | hc
      · exact ih (n / 16) (by omega) hc
      · exact ⟨n % 16, by omega, hc⟩

theorem mem_hexPadded {width n : Nat} {c : Char} (hc : c ∈ (hexPadded width n).toList) :
    ∃ d < 16, c = Nat.digitChar d := by
  rw [hexPadded, String.toList_ofList, List.mem_append] at hc
  rcases hc with hc | hc
  · exact ⟨0, by decide, List.eq_of_mem_replicate hc⟩
  · exact mem_toDigits_hex hc

/-- Digits that denote a number are hexadecimal digits. -/
theorem hexValue?_of_ofHex? {cs : List Char} {n : Nat} (h : ofHex? cs = some n) :
    ∀ ch ∈ cs, hexValue? ch ≠ none := by
  unfold ofHex? at h
  generalize 0 = start at h
  induction cs generalizing start with
  | nil => nofun
  | cons ch cs ih =>
    rw [List.foldlM_cons] at h
    obtain ⟨next, hnext, hrest⟩ := Option.bind_eq_some_iff.1 h
    rintro c (_ | ⟨_, hc⟩)
    · intro hnone
      rw [hnone] at hnext
      cases hnext
    · exact ih next hrest c hc

/-- No digit ends a text in quotes or starts an escape. -/
theorem ofHex?_inside {digits : List Char} {n : Nat} (h : ofHex? digits = some n) :
    ∀ c ∈ digits, c ≠ '"' ∧ c ≠ '\\' := by
  intro c hc
  have hhex := hexValue?_of_ofHex? h c hc
  constructor
  · rintro rfl
    exact hhex rfl
  · rintro rfl
    exact hhex rfl

end Text

namespace Json

/-! ## Strings -/

theorem toList_unitEscape (unit : Nat) :
    (unitEscape unit).toList = '\\' :: 'u' :: (Text.hexPadded 4 unit).toList := by
  simp [unitEscape, String.toList_append]

/-- No character is a surrogate. -/
theorem toNat_valid (c : Char) : c.toNat < 0xd800 ∨ 0xdfff < c.toNat ∧ c.toNat < 0x110000 := by
  have h := c.valid
  rwa [UInt32.isValidChar, Nat.isValidChar] at h

/-- A code point above the basic plane is split into two surrogates. -/
theorem utf16Escape_pair {code : Nat} (habove : ¬code < 0x10000) (hmax : code < 0x110000) :
    ∃ high low, utf16Escape code = unitEscape high ++ unitEscape low ∧
      (0xd800 ≤ high ∧ high ≤ 0xdbff) ∧ (0xdc00 ≤ low ∧ low ≤ 0xdfff) ∧
      0x10000 + (high - 0xd800) * 0x400 + (low - 0xdc00) = code := by
  refine ⟨_, _, if_neg habove, ?_, ?_, ?_⟩
  · omega
  · omega
  · omega

theorem readChars?_units {units : List Char} {c : Char} {rest : List Char} (fuel : Nat)
    (h : readUnits? units = some (c, rest)) :
    readChars? (fuel + 1) ('\\' :: 'u' :: units) =
      (readChars? fuel rest).map fun read => (c :: read.1, read.2) := by
  simp only [readChars?, h, Option.bind_eq_bind, Option.bind_some]
  cases readChars? fuel rest <;> rfl

theorem readChars?_simple {e c : Char} (fuel : Nat) (he : e ≠ 'u') (h : simpleEscape? e = some c)
    (rest : List Char) :
    readChars? (fuel + 1) ('\\' :: e :: rest) =
      (readChars? fuel rest).map fun read => (c :: read.1, read.2) := by
  rw [readChars?, h]
  · cases readChars? fuel rest <;> rfl
  · simpa using he

theorem readChars?_plain {c : Char} (fuel : Nat) (hquote : c ≠ '"') (hslash : c ≠ '\\')
    (hcontrol : ¬c.toNat < 0x20) (rest : List Char) :
    readChars? (fuel + 1) (c :: rest) =
      (readChars? fuel rest).map fun read => (c :: read.1, read.2) := by
  rw [readChars?]
  · simp [hslash, hcontrol]
    cases readChars? fuel rest <;> rfl
  all_goals simp_all

/-! ## Integers -/

/-- Whether a text does not go on with a number that ends in front of it. -/
def endsNumber (rest : List Char) : Bool :=
  rest.head?.all fun c => !(c.isDigit || c == '.' || c == 'e' || c == 'E')

theorem readFraction?_endsNumber {rest : List Char} (h : endsNumber rest = true) :
    readFraction? rest = none := by
  unfold readFraction?
  split
  · simp [endsNumber] at h
  · rfl

theorem readExponent?_endsNumber {rest : List Char} (h : endsNumber rest = true) :
    readExponent? rest = none := by
  unfold readExponent?
  split
  · simp [endsNumber] at h
    simp [h]
  · rfl

/-- Whether a text does not go on with digits that end in front of it. -/
def endsDigits (rest : List Char) : Bool := rest.head?.all fun c => !c.isDigit

theorem endsDigits_of_endsNumber {rest : List Char} (h : endsNumber rest = true) :
    endsDigits rest = true := by
  cases rest with
  | nil => rfl
  | cons c cs =>
    simp only [endsNumber, List.head?_cons, Option.all_some, Bool.not_eq_true',
      Bool.or_eq_false_iff] at h
    simp only [endsDigits, List.head?_cons, Option.all_some, h, Bool.not_false]

theorem takeDigits_append {digits rest : List Char} (hdigits : ∀ c ∈ digits, c.isDigit = true)
    (h : endsDigits rest = true) :
    takeDigits (digits ++ rest) = (digits.map fun c => c.toNat - 48, rest) := by
  have hrest : rest.takeWhile Char.isDigit = [] ∧ rest.dropWhile Char.isDigit = rest := by
    cases rest with
    | nil => simp
    | cons c cs =>
      simp [endsDigits] at h
      simp [h]
  rw [takeDigits, List.takeWhile_append_of_pos hdigits, List.dropWhile_append_of_pos hdigits,
    hrest.1, hrest.2, List.append_nil]

theorem ofDigits_map_toNat (cs : List Char) :
    ofDigits (cs.map fun c => c.toNat - 48) = Nat.ofDigitChars 10 cs 0 := by
  rw [ofDigits, List.foldl_map, Nat.ofDigitChars_eq_foldl]
  rfl

/-- Only zero is written with a leading zero. -/
theorem toDigits_eq_cons (n : Nat) :
    ∃ d ds, Nat.toDigits 10 n = d :: ds ∧ (d = '0' → n = 0) := by
  have hdigit : ∀ n < 10, Nat.digitChar n = '0' → n = 0 := by decide
  induction n using Nat.strongRecOn with
  | ind n ih =>
    by_cases h : n < 10
    · exact ⟨_, [], Nat.toDigits_of_lt_base h, hdigit n h⟩
    · obtain ⟨d, ds, heq, hzero⟩ := ih (n / 10) (by omega)
      refine ⟨d, ds ++ [Nat.digitChar (n % 10)], ?_, fun hd => ?_⟩
      · rw [Nat.toDigits_of_base_le (by decide) (by omega), heq]
        rfl
      · have := hzero hd
        omega

theorem isDigit_toDigits {n : Nat} : ∀ c ∈ Nat.toDigits 10 n, c.isDigit = true :=
  fun _ => Nat.isDigit_of_mem_toDigits (by decide) (by decide)

theorem readWord?_digit {d : Char} (hd : d.isDigit = true) (rest : List Char) :
    readWord? (d :: rest) = readUnsigned? false (d :: rest) := by
  unfold readWord?
  split
  case h_8 => rfl
  all_goals
    rename_i heq
    cases heq
    cases hd

theorem readWord?_minus {d : Char} (hd : d.isDigit = true) (rest : List Char) :
    readWord? ('-' :: d :: rest) = readUnsigned? true (d :: rest) := by
  unfold readWord?
  split
  case h_7 heq =>
    cases heq
    rfl
  case h_8 hminus => exact absurd rfl (hminus (d :: rest))
  all_goals
    rename_i heq
    cases heq
    try cases hd

theorem toList_intText (i : Int) : ∃ d ds, Nat.toDigits 10 i.natAbs = d :: ds ∧
    d.isDigit = true ∧ (intText i).toList = if i < 0 then '-' :: d :: ds else d :: ds := by
  obtain ⟨d, ds, heq, -⟩ := toDigits_eq_cons i.natAbs
  refine ⟨d, ds, heq, isDigit_toDigits d (by rw [heq]; exact List.mem_cons_self), ?_⟩
  have htext : (toString i.natAbs).toList = d :: ds := by
    rw [Nat.toString_eq_ofList_toDigits, String.toList_ofList, heq]
  unfold intText
  split
  · rw [String.toList_append, htext]
    rfl
  · exact htext

/-! ## Words -/

/-- A letter with which none of the words of JSON starts does not start a JSON text. -/
theorem read?_eq_none {text : String} {c : Char} {more : List Char} (h : text.toList = c :: more)
    (hc : c.isAlpha = true) (hwords : c ∉ ['n', 't', 'f', 'N', 'I']) : read? text = none := by
  have hspace : isSpace c = false := by
    rw [← Bool.not_eq_true]
    intro hspace
    simp only [isSpace, Bool.or_eq_true, beq_iff_eq] at hspace
    rcases hspace with ((rfl | rfl) | rfl) | rfl <;> cases hc
  have hdigit : c.isDigit = false := by
    simp only [Char.isAlpha, Char.isUpper, Char.isLower, Bool.or_eq_true, Bool.and_eq_true,
      decide_eq_true_eq, ge_iff_le] at hc
    simp only [Char.isDigit, Bool.and_eq_false_iff, decide_eq_false_iff_not]
    grind
  have hword : readWord? (c :: more) = none := by
    have hwhole : readWhole? (c :: more) = none := by
      rw [readWhole?, takeDigits, List.takeWhile_cons_of_neg (by simp [hdigit])]
      · rfl
      · rintro _ ⟨⟩
        cases hc
    unfold readWord?
    split
    case h_6 heq | h_7 heq =>
      cases heq
      cases hc
    case h_8 =>
      rw [readUnsigned?, hwhole]
      rfl
    all_goals
      rename_i heq
      cases heq
      exact absurd (by decide) hwords
  have hskip : skipSpace text.toList = c :: more := by
    rw [h, skipSpace, List.dropWhile_cons_of_neg (by simp [hspace])]
  rw [read?, hskip]
  dsimp only
  rw [readValue?, hword]
  · rfl
  all_goals
    rintro _ ⟨⟩
    cases hc

end Json

end TreeScript
