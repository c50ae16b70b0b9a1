import Mathlib
import TreeScript.Proofs.JsonGrammar
import TreeScript.Proofs.LowerCase
import TreeScript.Proofs.YamlValues

/-!
# Numerals of YAML

A numeral of JSON is an integer, or has digits after a point, and may end with a power of ten. With
a point, and a sign in front of the power, it is a numeral of YAML too, and denotes the same number
(`Yaml.plain_int`, `Yaml.plain_float`). Without them YAML takes it for a text (`Yaml.plain_text`).
-/

namespace TreeScript

/-! ## Digits -/

theorem digitValue?_digit {c : Char} (h : c.isDigit = true) :
    Text.digitValue? c = some (c.toNat - 48) :=
  of_isDigit (P := fun c => Text.digitValue? c = some (c.toNat - 48)) (by decide +kernel) h

theorem digitInBase?_digit {c : Char} (h : c.isDigit = true) :
    digitInBase? 10 c = some (c.toNat - 48) :=
  of_isDigit (P := fun c => digitInBase? 10 c = some (c.toNat - 48)) (by decide +kernel) h

/-! ## Numbers as whole texts -/

/-- The digits at the front of a text that goes on with something else. -/
theorem splitDigits_append {digits rest : List Char} (h : ∀ c ∈ digits, c.isDigit = true)
    (hrest : ∀ c ∈ rest.head?, Text.digitValue? c = none) :
    splitDigits (digits ++ rest) = (digitValues digits, rest) := by
  induction digits with
  | nil =>
    cases rest with
    | nil => rfl
    | cons c rest =>
      show splitDigits (c :: rest) = _
      rw [splitDigits, hrest c rfl]
      rfl
  | cons d digits ih =>
    obtain ⟨hd, hdigits⟩ := List.forall_mem_cons.1 h
    rw [List.cons_append, splitDigits, digitValue?_digit hd, ih hdigits]
    rfl

theorem dropUnderscores?_eq {isDigit : Char → Bool} {cs : List Char} (h : '_' ∉ cs) (after : Bool) :
    dropUnderscores? isDigit after cs = some cs := by
  induction cs generalizing after with
  | nil => rfl
  | cons c cs ih =>
    rw [List.mem_cons, not_or] at h
    rw [dropUnderscores?, ih h.2]
    · rfl
    · rintro rfl
      exact absurd rfl h.1
    · rintro _ _ rfl
      exact absurd rfl h.1

theorem ofBaseDigits?_digits {digits : List Char} (h : ∀ c ∈ digits, c.isDigit = true) :
    ofBaseDigits? 10 digits = some (ofDigits (digitValues digits)) := by
  unfold ofBaseDigits? ofDigits digitValues
  generalize 0 = start
  induction digits generalizing start with
  | nil => rfl
  | cons d digits ih =>
    obtain ⟨hd, hdigits⟩ := List.forall_mem_cons.1 h
    rw [List.foldlM_cons, digitInBase?_digit hd, List.map_cons, List.foldl_cons]
    exact ih hdigits _

/-- A text without a sign. -/
theorem splitSign_digit {c : Char} (hc : c.isDigit = true) (cs : List Char) :
    splitSign (c :: cs) = (false, c :: cs) := by
  unfold splitSign
  split
  · rename_i heq
    cases heq
    cases hc
  · rename_i heq
    cases heq
    cases hc
  · rfl

/-- Digits are read as an integer. -/
theorem readIntBase?_digits {digits : List Char} (h : Digits digits)
    (hzero : digits.head? ≠ some '0') :
    readIntBase? 10 digits = some (ofDigits (digitValues digits) : Int) := by
  obtain ⟨hne, hall⟩ := h
  have hblank : ∀ c ∈ digits, Text.isNumberBlank c = false := fun c hc =>
    of_isDigit (P := fun c => Text.isNumberBlank c = false) (by decide +kernel) (hall c hc)
  have hline : '_' ∉ digits := by
    intro hmem
    cases hall '_' hmem
  cases digits with
  | nil => exact absurd rfl hne
  | cons d digits =>
    have hmark : dropBaseMark 10 (d :: digits) = d :: digits := by
      unfold dropBaseMark
      split
      · rename_i heq
        cases heq
        exact absurd rfl hzero
      · rfl
    rw [readIntBase?, Text.trimBy_eq_of_forall hblank, splitSign_digit (hall d List.mem_cons_self)]
    dsimp only
    rw [hmark, dropUnderscores?_eq hline]
    dsimp only
    rw [ofBaseDigits?_digits hall]
    rfl

/-- The end of a numeral: nothing, or a power of ten with a sign. -/
inductive Exponent : List Char → Int → Prop where
  | nil : Exponent [] 0
  | power {mark : Char} {digits : List Char} (hmark : mark = 'e' ∨ mark = 'E') (negative : Bool)
    (h : Digits digits) :
    Exponent (mark :: (if negative then '-' else '+') :: digits)
      (if negative then -(ofDigits (digitValues digits) : Int) else ofDigits (digitValues digits))

/-- A power of ten after a numeral is read. -/
theorem Exponent.read {cs : List Char} {power : Int} (h : Exponent cs power) :
    readExponent? cs = some power := by
  cases h with
  | nil => rfl
  | @power mark digits hmark negative h =>
    have hmark' : (mark == 'e' || mark == 'E') = true := by
      rcases hmark with rfl | rfl <;> rfl
    have hdigits : splitDigits digits = (digitValues digits, []) := by
      have hall := splitDigits_append h.all (nofun : ∀ c ∈ ([] : List Char).head?, _)
      rwa [List.append_nil] at hall
    have hsign : splitSign ((if negative then '-' else '+') :: digits) = (negative, digits) := by
      cases negative <;> rfl
    rw [readExponent?, if_pos hmark', hsign]
    dsimp only
    rw [hdigits]
    cases digits with
    | nil => exact absurd rfl h.nonempty
    | cons d digits => rfl

theorem digitValue?_sign {c : Char} (h : c ∈ ['+', '-', '.', 'e', 'E']) :
    Text.digitValue? c = none := by
  have hall : (['+', '-', '.', 'e', 'E'].all fun c => (Text.digitValue? c).isNone) = true := by
    decide +kernel
  exact Option.isNone_iff_eq_none.1 (List.all_eq_true.1 hall c h)

theorem Exponent.head {cs : List Char} {power : Int} (h : Exponent cs power) :
    ∀ c ∈ cs.head?, Text.digitValue? c = none := by
  cases h with
  | nil => nofun
  | power hmark negative h =>
    rintro _ ⟨⟩
    rcases hmark with rfl | rfl <;> exact digitValue?_sign (by decide)

/-- The characters of a power of ten. -/
theorem Exponent.mem {cs : List Char} {power : Int} (h : Exponent cs power) :
    ∀ c ∈ cs, c ∈ numeralChars := by
  cases h with
  | nil => nofun
  | @power mark digits hmark negative h =>
    refine List.forall_mem_cons.2 ⟨?_, List.forall_mem_cons.2 ⟨?_, fun c hc => ?_⟩⟩
    · rcases hmark with rfl | rfl <;> decide
    · cases negative <;> decide
    · exact mem_numeralChars_digit (h.all c hc)

/-- A text is not another one that starts with something else. -/
theorem ofList_beq_eq_false {c : Char} {cs : List Char} {text : String}
    (h : text.toList.head? ≠ some c) : (String.ofList (c :: cs) == text) = false := by
  rw [beq_eq_false_iff_ne]
  rintro rfl
  rw [String.toList_ofList] at h
  exact h rfl

/-- The characters of a numeral. -/
theorem mem_numeral {whole fraction exponent : List Char} (hwhole : Digits whole)
    (hfraction : Digits fraction) (hexponent : ∀ c ∈ exponent, c ∈ numeralChars) :
    ∀ c ∈ whole ++ '.' :: (fraction ++ exponent), c ∈ numeralChars := by
  intro c hc
  rcases List.mem_append.1 hc with hc | hc
  · exact mem_numeralChars_digit (hwhole.all c hc)
  · rcases List.mem_cons.1 hc with rfl | hc
    · decide
    · rcases List.mem_append.1 hc with hc | hc
      · exact mem_numeralChars_digit (hfraction.all c hc)
      · exact hexponent c hc

/-- Digits with a point among them, and a power of ten, are read as a number. -/
theorem readBinary64?_digits {whole fraction exponent : List Char} {power : Int}
    (hwhole : Digits whole) (hfraction : Digits fraction) (hexponent : Exponent exponent power) :
    readBinary64? (whole ++ '.' :: (fraction ++ exponent)) =
      some (.ofParts false (digitValues whole) (digitValues fraction) power) := by
  have hchars := mem_numeral hwhole hfraction hexponent.mem
  have hblank : (numeralChars.all fun c => !Text.isNumberBlank c) = true := by decide +kernel
  have hline : '_' ∉ whole ++ '.' :: (fraction ++ exponent) := by
    intro hmem
    exact absurd (hchars _ hmem) (by decide)
  rw [readBinary64?, Text.trimBy_eq_of_forall fun c hc =>
    Bool.not_eq_true' _ ▸ List.all_eq_true.1 hblank c (hchars c hc), dropUnderscores?_eq hline]
  cases whole with
  | nil => exact absurd rfl hwhole.nonempty
  | cons d whole =>
    have hd := hwhole.all d List.mem_cons_self
    have hword (text : String)
        (h : ∀ n < 10, text.toList.head? ≠ some (Char.ofNat (48 + n)).toLower) :
        (String.ofList ((d :: (whole ++ '.' :: (fraction ++ exponent))).map Char.toLower) == text) =
          false :=
      ofList_beq_eq_false (of_isDigit (P := fun c => text.toList.head? ≠ some c.toLower) h hd)
    have hsplit : splitDigits (d :: whole ++ '.' :: (fraction ++ exponent)) =
        (digitValues (d :: whole), '.' :: (fraction ++ exponent)) := by
      refine splitDigits_append hwhole.all ?_
      rintro _ ⟨⟩
      exact digitValue?_sign (by decide)
    dsimp only
    rw [List.cons_append, splitSign_digit hd]
    dsimp only
    rw [hword "inf" (by decide), hword "infinity" (by decide), hword "nan" (by decide),
      readUnsigned?, ← List.cons_append, hsplit]
    show (readExponent? (splitDigits (fraction ++ exponent)).2).map
      (Binary64.ofParts false (digitValues (d :: whole)) (splitDigits (fraction ++ exponent)).1) = _
    rw [splitDigits_append hfraction.all hexponent.head, hexponent.read]
    rfl

namespace Binary64

theorem neg_settle (mantissa : Nat) (exponent : Int) :
    (settle false mantissa exponent).neg = settle true mantissa exponent := by
  rw [settle, settle]
  generalize (if decide (2 ^ precision ≤ mantissa) = true then exponent + 1 else exponent) = e
  split <;> rfl

theorem neg_ofRatio (num den : Nat) : (ofRatio false num den).neg = ofRatio true num den := by
  rw [ofRatio, ofRatio]
  split
  · rfl
  · exact neg_settle _ _

/-- The number that digits denote, with the other sign. -/
theorem neg_ofParts (whole fraction : List Nat) (power : Int) :
    (ofParts false whole fraction power).neg = ofParts true whole fraction power := by
  rw [ofParts, ofParts, ofDecimal, ofDecimal]
  dsimp only
  split
  · rfl
  · split
    · rfl
    · split
      · rfl
      · split <;> exact neg_ofRatio _ _

end Binary64

namespace Yaml

/-! ## Numerals of YAML -/

theorem afterSign_digit {c : Char} (hc : c.isDigit = true) (negative : Bool) (cs : List Char) :
    Plain.afterSign (signText negative ++ c :: cs) = c :: cs := by
  cases negative with
  | true => rfl
  | false =>
    show Plain.afterSign (c :: cs) = _
    unfold Plain.afterSign
    split
    · rename_i heq
      cases heq
      cases hc
    · rename_i heq
      cases heq
      cases hc
    · rfl

/-- A numeral is not one of the words of YAML. -/
theorem ofList_sign_beq {c : Char} (hc : c.isDigit = true) (negative : Bool) (cs : List Char)
    {text : String} (hminus : text.toList.head? ≠ some '-')
    (hdigit : ∀ n < 10, text.toList.head? ≠ some (Char.ofNat (48 + n))) :
    (String.ofList (signText negative ++ c :: cs) == text) = false := by
  cases negative with
  | true => exact ofList_beq_eq_false hminus
  | false =>
    exact ofList_beq_eq_false (of_isDigit (P := fun c => text.toList.head? ≠ some c) hdigit hc)

section

variable {c : Char} {cs : List Char}

theorem mem_signed (hchars : ∀ ch ∈ c :: cs, ch ∈ numeralChars) (negative : Bool) :
    ∀ ch ∈ signText negative ++ c :: cs, ch ∈ numeralChars :=
  List.forall_mem_append.2 ⟨fun _ hch => mem_numeralChars_sign hch, hchars⟩

theorem withoutLastBreak_numeral (hchars : ∀ ch ∈ c :: cs, ch ∈ numeralChars) (negative : Bool) :
    withoutLastBreak (signText negative ++ c :: cs) = signText negative ++ c :: cs := by
  rw [withoutLastBreak, if_neg]
  rw [beq_iff_eq]
  intro hlast
  exact absurd (mem_signed hchars negative '\n' (List.mem_of_getLast? hlast)) (by decide)

/-- A numeral is none of the words that start with neither a minus nor a digit. -/
theorem words_numeral (hc : c.isDigit = true) (negative : Bool) {words : List String}
    (h : ∀ text ∈ words, text.toList.head? ≠ some '-' ∧
      ∀ n < 10, text.toList.head? ≠ some (Char.ofNat (48 + n))) :
    words.contains (String.ofList (signText negative ++ c :: cs)) = false := by
  rw [← Bool.not_eq_true, List.contains_iff_mem]
  intro hmem
  obtain ⟨hminus, hdigit⟩ := h _ hmem
  have hself := ofList_sign_beq hc negative cs hminus hdigit
  rw [beq_self_eq_true] at hself
  cases hself

/-- A numeral with a point has the tag of numbers with a point. -/
theorem ofPlain_float (hc : c.isDigit = true) (hchars : ∀ ch ∈ c :: cs, ch ∈ numeralChars)
    (negative : Bool) (hfloat : Plain.isFloat (signText negative ++ c :: cs) = true) :
    Tag.ofPlain (String.ofList (signText negative ++ c :: cs)) = .float := by
  rw [Tag.ofPlain, String.toList_ofList, withoutLastBreak_numeral hchars negative,
    words_numeral hc negative (by decide), hfloat]
  rfl

/-- An integer has the tag of integers. -/
theorem ofPlain_int (hc : c.isDigit = true) (hchars : ∀ ch ∈ c :: cs, ch ∈ numeralChars)
    (negative : Bool) (hfloat : Plain.isFloat (signText negative ++ c :: cs) = false)
    (hint : Plain.isInt (signText negative ++ c :: cs) = true) :
    Tag.ofPlain (String.ofList (signText negative ++ c :: cs)) = .int := by
  rw [Tag.ofPlain, String.toList_ofList, withoutLastBreak_numeral hchars negative,
    words_numeral hc negative (by decide), hfloat, hint]
  rfl

theorem withoutLines_numeral (hchars : ∀ ch ∈ c :: cs, ch ∈ numeralChars) (negative : Bool) :
    withoutLines (String.ofList (signText negative ++ c :: cs)) =
      String.ofList (signText negative ++ c :: cs) := by
  rw [withoutLines, String.toList_ofList, List.filter_eq_self.2]
  intro ch hch
  have hlines : numeralChars.all (· != '_') = true := by decide
  exact List.all_eq_true.1 hlines ch (mem_signed hchars negative ch hch)

end

theorem takeSign_numeral {c : Char} (hc : c.isDigit = true) (negative : Bool) (cs : List Char) :
    takeSign (String.ofList (signText negative ++ c :: cs)) =
      .ok (negative, String.ofList (c :: cs)) := by
  rw [takeSign, String.toList_ofList]
  cases negative with
  | true => rfl
  | false =>
    rw [show signText false ++ c :: cs = c :: cs from rfl]
    split
    · rename_i heq
      cases heq
    · rename_i heq
      cases heq
      cases hc
    · rename_i heq
      cases heq
      cases hc
    · rfl

theorem isInt_whole {c : Char} {cs : List Char} (h : Whole (c :: cs)) (negative : Bool) :
    Plain.isInt (signText negative ++ c :: cs) = true := by
  obtain ⟨hc, hcs⟩ := List.forall_mem_cons.1 h.all
  rw [Plain.isInt, afterSign_digit hc]
  by_cases hfirst : c = '0'
  · subst hfirst
    cases h.zero rfl
    rfl
  · have hlines : ∀ ch ∈ cs, Plain.isDigitOrLine ch = true := fun ch hch => by
      rw [Plain.isDigitOrLine, hcs ch hch]
      rfl
    have hdecimal : Plain.isDecimal (c :: cs) = true := by
      rw [Plain.isDecimal, hc, bne_iff_ne.2 hfirst, List.all_eq_true.2 hlines]
      rfl
    split
    case h_5 =>
      rw [hdecimal]
      rfl
    all_goals
      rename_i heq
      cases heq
      exact absurd rfl hfirst

theorem unsignedInt_whole {c : Char} {cs : List Char} (h : Whole (c :: cs)) :
    unsignedInt (String.ofList (c :: cs)) = .ok (ofDigits (digitValues (c :: cs)) : Int) := by
  have hcolon : (c :: cs).contains ':' = false := by
    rw [← Bool.not_eq_true, List.contains_iff_mem]
    intro hmem
    cases h.all ':' hmem
  rw [unsignedInt, String.toList_ofList]
  by_cases hfirst : c = '0'
  · subst hfirst
    cases h.zero rfl
    rfl
  · have hread : digitsInt 10 (String.ofList (c :: cs)) =
        .ok (ofDigits (digitValues (c :: cs)) : Int) := by
      rw [digitsInt, intOfText, String.toList_ofList,
        readIntBase?_digits h.toDigits fun hzero => hfirst (Option.some.inj hzero)]
      rfl
    split
    case h_6 =>
      rw [hcolon, hread]
      rfl
    case h_1 heq => cases heq
    all_goals
      rename_i heq
      cases heq
      exact absurd rfl hfirst

/-- An integer of JSON is one of YAML. -/
theorem plain_int {whole : List Char} (h : Whole whole) (negative : Bool) :
    Tag.ofPlain (String.ofList (signText negative ++ whole)) = .int ∧
      readInt (String.ofList (signText negative ++ whole)) =
        .ok (.int (if negative then -(ofDigits (digitValues whole) : Int)
          else ofDigits (digitValues whole))) := by
  cases whole with
  | nil => exact absurd rfl h.nonempty
  | cons c cs =>
    have hc := h.all c List.mem_cons_self
    have hchars : ∀ ch ∈ c :: cs, ch ∈ numeralChars := fun ch hch =>
      mem_numeralChars_digit (h.all ch hch)
    have hfloat : Plain.isFloat (signText negative ++ c :: cs) = false := by
      have hdrop : (c :: cs).dropWhile (· != '.') = [] := by
        rw [List.dropWhile_eq_nil_iff]
        intro ch hch
        rw [bne_iff_ne]
        rintro rfl
        cases h.all '.' hch
      rw [Plain.isFloat, afterSign_digit hc, hdrop]
    refine ⟨ofPlain_int hc hchars negative hfloat (isInt_whole h negative), ?_⟩
    rw [readInt, withoutLines_numeral hchars, takeSign_numeral hc]
    show (unsignedInt (String.ofList (c :: cs)) >>= fun n =>
      pure (.int (if negative then -n else n)) : Outcome Value) = _
    rw [unsignedInt_whole h]
    rfl

/-! ## Numerals with a point -/

section

variable {whole fraction exponent : List Char} {power : Int}

theorem isExponent_exponent (h : Exponent exponent power) : Plain.isExponent exponent = true := by
  cases h with
  | nil => rfl
  | @power mark digits hmark negative h =>
    have hall : Plain.allOf Char.isDigit digits = true := by
      rw [Plain.allOf, List.all_eq_true.2 h.all, Bool.and_true, Bool.not_eq_true',
        List.isEmpty_eq_false_iff]
      exact h.nonempty
    rw [Plain.isExponent, hall]
    rcases hmark with rfl | rfl <;> cases negative <;> rfl

theorem isFloat_numeral {c : Char} (hwhole : Digits (c :: whole)) (hfraction : Digits fraction)
    (hexponent : Exponent exponent power) (negative : Bool) :
    Plain.isFloat (signText negative ++ c :: (whole ++ '.' :: (fraction ++ exponent))) = true := by
  obtain ⟨hc, hcs⟩ := List.forall_mem_cons.1 hwhole.all
  have hpoint : ∀ ch ∈ c :: whole, (ch != '.') = true := by
    intro ch hch
    rw [bne_iff_ne]
    rintro rfl
    cases hwhole.all '.' hch
  have hlines {digits : List Char} (h : ∀ ch ∈ digits, ch.isDigit = true) :
      ∀ ch ∈ digits, Plain.isDigitOrLine ch = true := fun ch hch => by
    rw [Plain.isDigitOrLine, h ch hch]
    rfl
  have hfraction' : Plain.isFraction (fraction ++ exponent) = true := by
    have hdrop : exponent.dropWhile Plain.isDigitOrLine = exponent := by
      cases hexponent with
      | nil => rfl
      | power hmark => rcases hmark with rfl | rfl <;> rfl
    rw [Plain.isFraction, List.dropWhile_append_of_pos (hlines hfraction.all), hdrop,
      isExponent_exponent hexponent]
  have hdigits : Plain.isDigits (c :: whole) = true := by
    rw [Plain.isDigits, hc, List.all_eq_true.2 (hlines hcs)]
    rfl
  rw [Plain.isFloat, afterSign_digit hc, ← List.cons_append, List.takeWhile_append_of_pos hpoint,
    List.dropWhile_append_of_pos hpoint]
  show (Plain.isDigits (c :: whole ++ []) && Plain.isFraction (fraction ++ exponent) ||
    _ || _ || _ || _) = true
  rw [List.append_nil, hdigits, hfraction']
  rfl

theorem lowerSpelled_digits {digits : List Char} (h : Digits digits) :
    digits.flatMap Text.lowerSpelled = digits :=
  Text.flatMap_lowerSpelled fun c hc => Text.lowerSpelled_of_lt
    (of_isDigit (P := fun c => c.toNat < 'A'.toNat) (by decide) (h.all c hc))

/-- The letter of a power of ten may be a capital. -/
theorem exponent_lowered (h : Exponent exponent power) :
    Exponent (exponent.flatMap Text.lowerSpelled) power := by
  cases h with
  | nil => exact .nil
  | @power mark digits hmark negative h =>
    have hmark' : Text.lowerSpelled mark = ['e'] := by
      rcases hmark with rfl | rfl
      · rw [Text.lowerSpelled, Text.lower_of_isLower (by decide)]
        rfl
      · decide +kernel
    have hsign : Text.lowerSpelled (if negative then '-' else '+') =
        [if negative then '-' else '+'] :=
      Text.lowerSpelled_of_lt (by cases negative <;> decide)
    rw [List.flatMap_cons, List.flatMap_cons, hmark', hsign, lowerSpelled_digits h]
    exact .power (.inl rfl) negative h

theorem lowered_numeral (hwhole : Digits whole) (hfraction : Digits fraction) (negative : Bool) :
    Text.lowered (String.ofList (signText negative ++ (whole ++ '.' :: (fraction ++ exponent)))) =
      String.ofList (signText negative ++
        (whole ++ '.' :: (fraction ++ exponent.flatMap Text.lowerSpelled))) := by
  have hsign : (signText negative).flatMap Text.lowerSpelled = signText negative :=
    Text.flatMap_lowerSpelled fun c hc => by
      cases negative with
      | true =>
        rw [List.mem_singleton.1 hc]
        exact Text.lowerSpelled_of_lt (by decide)
      | false => cases hc
  have hpoint : Text.lowerSpelled '.' = ['.'] := Text.lowerSpelled_of_lt (by decide)
  rw [Text.lowered, String.toList_ofList, List.flatMap_append, List.flatMap_append,
    List.flatMap_cons, List.flatMap_append, hsign, lowerSpelled_digits hwhole,
    lowerSpelled_digits hfraction, hpoint]
  rfl

/-- A number that is neither infinite nor in base sixty. -/
theorem readFloat_spelled {text body : String} {negative : Bool} {x : Binary64}
    (hsign : takeSign (Text.lowered (withoutLines text)) = .ok (negative, body))
    (hinf : (body == ".inf") = false) (hnan : (body == ".nan") = false)
    (hcolon : body.toList.contains ':' = false) (hspelled : spelledFloat body = .ok x) :
    readFloat text = .ok (.float (if negative then x.neg else x)) := by
  rw [readFloat, hsign]
  show (if (body == ".inf") = true then _ else if (body == ".nan") = true then _ else _) = _
  rw [hinf, hnan, hcolon, hspelled]
  rfl

/-- A number of JSON with a point is one of YAML, if a power of ten has a sign. -/
theorem plain_float (hwhole : Digits whole) (hfraction : Digits fraction)
    (hexponent : Exponent exponent power) (negative : Bool) :
    Tag.ofPlain (String.ofList (signText negative ++ (whole ++ '.' :: (fraction ++ exponent)))) =
        .float ∧
      readFloat (String.ofList (signText negative ++ (whole ++ '.' :: (fraction ++ exponent)))) =
        .ok (.float (.ofParts negative (digitValues whole) (digitValues fraction) power)) := by
  cases whole with
  | nil => exact absurd rfl hwhole.nonempty
  | cons c whole =>
    have hc := hwhole.all c List.mem_cons_self
    have hchars := mem_numeral hwhole hfraction hexponent.mem
    have hlower := exponent_lowered hexponent
    have hword (text : String) (h : text.toList.head? = some '.') (cs : List Char) :
        (String.ofList (c :: cs) == text) = false :=
      ofList_beq_eq_false (h ▸ of_isDigit (P := fun c => some '.' ≠ some c) (by decide) hc)
    have hcolon : (c :: whole ++ '.' :: (fraction ++ exponent.flatMap Text.lowerSpelled)).contains
        ':' = false := by
      rw [← Bool.not_eq_true, List.contains_iff_mem]
      intro hmem
      exact absurd (mem_numeral hwhole hfraction hlower.mem _ hmem) (by decide)
    have hspelled : spelledFloat (String.ofList (c :: whole ++
        '.' :: (fraction ++ exponent.flatMap Text.lowerSpelled))) =
        .ok (.ofParts false (digitValues (c :: whole)) (digitValues fraction) power) := by
      rw [spelledFloat, floatOfText, String.toList_ofList,
        readBinary64?_digits hwhole hfraction hlower]
      rfl
    refine ⟨ofPlain_float hc hchars negative
      (isFloat_numeral hwhole hfraction hexponent negative), ?_⟩
    have hlines : withoutLines (String.ofList
        (signText negative ++ (c :: whole ++ '.' :: (fraction ++ exponent)))) = _ :=
      withoutLines_numeral hchars negative
    have hsign : takeSign (Text.lowered (withoutLines (String.ofList
        (signText negative ++ (c :: whole ++ '.' :: (fraction ++ exponent)))))) =
        .ok (negative, String.ofList (c :: whole ++
          '.' :: (fraction ++ exponent.flatMap Text.lowerSpelled))) := by
      rw [hlines]
      show takeSign (Text.lowered (String.ofList
        (signText negative ++ (c :: whole ++ '.' :: (fraction ++ exponent))))) = _
      rw [lowered_numeral hwhole hfraction]
      exact takeSign_numeral hc negative _
    have hread := readFloat_spelled hsign (hword ".inf" (by decide) _) (hword ".nan" (by decide) _)
      ((congrArg _ String.toList_ofList).trans hcolon) hspelled
    rw [hread]
    cases negative with
    | true => rw [if_pos rfl, Binary64.neg_ofParts]
    | false => rw [if_neg Bool.false_ne_true]

/-! ## Powers of ten that YAML does not know -/

theorem digitsUpTo_eq (n : Nat) (cs : List Char) :
    cs = (Stamp.digitsUpTo n cs).1 ++ (Stamp.digitsUpTo n cs).2 ∧
      ∀ c ∈ (Stamp.digitsUpTo n cs).1, c.isDigit = true :=
  ⟨(List.prefix_iff_eq_append.1
    ((List.takeWhile_prefix _).trans (List.take_prefix n cs))).symm,
    fun _ hc => List.mem_takeWhile_imp hc⟩

/-- A time starts with the digits of its year and a hyphen. -/
theorem stamp_starts {cs : List Char} {stamp : Stamp} (h : Stamp.read? cs = some stamp) :
    ∃ year rest, cs = year ++ '-' :: rest ∧ Digits year := by
  unfold Stamp.read? at h
  obtain ⟨⟨year, after⟩, hyear, h⟩ := Option.bind_eq_some_iff.1 h
  obtain ⟨rest, hafter, -⟩ := Option.bind_eq_some_iff.1 h
  obtain ⟨hcs, hdigits⟩ := digitsUpTo_eq 4 cs
  unfold Stamp.digits? at hyear
  dsimp only at hyear
  split at hyear
  · cases hyear
  rename_i hlength
  obtain ⟨hyear, hrest⟩ := Prod.mk.inj (Option.some.inj hyear)
  rw [hyear, hrest] at hcs
  rw [hyear] at hdigits hlength
  unfold Stamp.after? at hafter
  split at hafter
  · split at hafter
    · rename_i hminus
      cases hafter
      rw [← beq_iff_eq.1 hminus] at hcs
      refine ⟨year, rest, hcs, ?_, hdigits⟩
      rintro rfl
      exact hlength (by decide)
    · cases hafter
  · cases hafter

/-- What may follow the first digits of a numeral with a power of ten, where the point or the sign
of the power is missing. -/
structure LoosePower (fraction : List Char) (mark : Char) (sign digits : List Char) : Prop where
  point : fraction = [] ∨ ∃ ds, fraction = '.' :: ds ∧ Digits ds
  letter : mark = 'e' ∨ mark = 'E'
  signed : sign ∈ [[], ['+'], ['-']]
  power : Digits digits
  lacks : fraction = [] ∨ sign = []

section

variable {c mark : Char} {whole fraction sign digits : List Char}

theorem LoosePower.mem (h : LoosePower fraction mark sign digits) :
    ∀ ch ∈ fraction ++ mark :: (sign ++ digits), ch ∈ numeralChars := by
  have hsigns : (([[], ['+'], ['-']] : List (List Char)).all (·.all (numeralChars.contains ·))) =
      true := by decide
  refine List.forall_mem_append.2
    ⟨?_, List.forall_mem_cons.2 ⟨?_, List.forall_mem_append.2 ⟨?_, ?_⟩⟩⟩
  · rcases h.point with rfl | ⟨ds, rfl, hds⟩
    · nofun
    · exact List.forall_mem_cons.2
        ⟨by decide, hds.mem⟩
  · rcases h.letter with rfl | rfl <;> decide
  · exact fun ch hch => List.contains_iff_mem.1
      (List.all_eq_true.1 (List.all_eq_true.1 hsigns sign h.signed) ch hch)
  · exact h.power.mem

/-- The first digits end with a point or the letter of the power. -/
theorem LoosePower.starts (h : LoosePower fraction mark sign digits) :
    ∃ ch rest, fraction ++ mark :: (sign ++ digits) = ch :: rest ∧
      (ch = '.' ∨ ch = 'e' ∨ ch = 'E') := by
  rcases h.point with rfl | ⟨ds, rfl, -⟩
  · exact ⟨mark, _, rfl, .inr h.letter⟩
  · exact ⟨'.', _, rfl, .inl rfl⟩

/-- A test that the letter of the power fails. -/
theorem LoosePower.all_eq_false (h : LoosePower fraction mark sign digits) {test : Char → Bool}
    (htest : test 'e' = false ∧ test 'E' = false) {cs : List Char} (hcs : mark ∈ cs) :
    cs.all test = false := by
  rw [← Bool.not_eq_true, List.all_eq_true]
  intro hall
  have hmark := hall mark hcs
  rcases h.letter with rfl | rfl
  · rw [htest.1] at hmark
    cases hmark
  · rw [htest.2] at hmark
    cases hmark

/-- A numeral starts with no year, after which there would be a hyphen. -/
theorem ne_year (hwhole : Digits (c :: whole)) (h : LoosePower fraction mark sign digits)
    {negative : Bool} {year : List Char} (hyear : Digits year) (rest : List Char) :
    signText negative ++ c :: (whole ++ (fraction ++ mark :: (sign ++ digits))) ≠
      year ++ '-' :: rest := by
  intro heq
  cases negative with
  | true =>
    cases year with
    | nil => exact hyear.nonempty rfl
    | cons d year =>
      obtain ⟨rfl, -⟩ := List.cons.inj heq
      cases hyear.all '-' List.mem_cons_self
  | false =>
    obtain ⟨ch, tail, htail, hch⟩ := h.starts
    have hdrop := congrArg (List.dropWhile Char.isDigit) heq
    have hch' : ¬ch.isDigit = true := by
      rcases hch with rfl | rfl | rfl <;> decide
    have hshape : signText false ++ c :: (whole ++ ch :: tail) = c :: whole ++ ch :: tail := rfl
    rw [htail, hshape,
      List.dropWhile_append_of_pos hwhole.all, List.dropWhile_append_of_pos hyear.all,
      List.dropWhile_cons_of_neg hch', List.dropWhile_cons_of_neg (by decide)] at hdrop
    obtain ⟨rfl, -⟩ := List.cons.inj hdrop
    rcases hch with hch | hch | hch <;> cases hch

theorem isFloat_loose (hwhole : Digits (c :: whole)) (h : LoosePower fraction mark sign digits)
    (negative : Bool) :
    Plain.isFloat (signText negative ++ c :: (whole ++ (fraction ++ mark :: (sign ++ digits)))) =
      false := by
  have hc := hwhole.all c List.mem_cons_self
  have hpoint : ∀ ch ∈ c :: whole, (ch != '.') = true := by
    intro ch hch
    rw [bne_iff_ne]
    rintro rfl
    cases hwhole.all '.' hch
  rw [Plain.isFloat, afterSign_digit hc, ← List.cons_append, List.takeWhile_append_of_pos hpoint,
    List.dropWhile_append_of_pos hpoint]
  rcases h.point with rfl | ⟨ds, rfl, hds⟩
  · -- there is no point at all
    have hdrop : (mark :: (sign ++ digits)).dropWhile (· != '.') = [] := by
      have hsigns : ∀ s ∈ ([[], ['+'], ['-']] : List (List Char)), '.' ∉ s := by decide
      rw [List.dropWhile_eq_nil_iff]
      intro ch hch
      rw [bne_iff_ne]
      rintro rfl
      rcases List.mem_cons.1 hch with heq | hch
      · rcases h.letter with rfl | rfl <;> cases heq
      · rcases List.mem_append.1 hch with hch | hch
        · exact hsigns sign h.signed hch
        · cases h.power.all '.' hch
    rw [List.nil_append, hdrop]
  · -- after the point, a digit stands where the sign of the power would
    obtain rfl : sign = [] := h.lacks.resolve_left nofun
    have hfraction : Plain.isFraction (ds ++ mark :: digits) = false := by
      have hlines : ∀ ch ∈ ds, Plain.isDigitOrLine ch = true := fun ch hch => by
        rw [Plain.isDigitOrLine, hds.all ch hch]
        rfl
      have hmark : ¬Plain.isDigitOrLine mark = true := by
        rcases h.letter with rfl | rfl <;> decide
      rw [Plain.isFraction, List.dropWhile_append_of_pos hlines, List.dropWhile_cons_of_neg hmark]
      cases digits with
      | nil => exact absurd rfl h.power.nonempty
      | cons d digits =>
        have hd : (d == '+' || d == '-') = false :=
          of_isDigit (P := fun d => (d == '+' || d == '-') = false) (by decide)
            (h.power.all d List.mem_cons_self)
        rw [Plain.isExponent, hd, Bool.and_false, Bool.false_and]
    have hrest : (ds ++ mark :: digits).all Plain.isDigitOrLine = false :=
      h.all_eq_false ⟨rfl, rfl⟩ (by simp)
    have hhead : ((signText negative ++
        (c :: whole ++ ('.' :: ds ++ mark :: ([] ++ digits)))).head? == some '.') = false := by
      cases negative with
      | true => rfl
      | false =>
        rw [beq_eq_false_iff_ne]
        rintro ⟨⟩
        cases hc
    show (Plain.isDigits (c :: whole ++ []) && Plain.isFraction (ds ++ mark :: digits) ||
      (_ == some '.') && _ && _ || _ && (ds ++ mark :: digits).all Plain.isDigitOrLine ||
      (c :: whole ++ []).isEmpty && _ || (_ == some '.') && _) = false
    rw [hfraction, hhead, hrest]
    simp

theorem isInt_loose (hwhole : Whole (c :: whole)) (h : LoosePower fraction mark sign digits)
    (negative : Bool) :
    Plain.isInt (signText negative ++ c :: (whole ++ (fraction ++ mark :: (sign ++ digits)))) =
      false := by
  have hc := hwhole.all c List.mem_cons_self
  rw [Plain.isInt, afterSign_digit hc]
  by_cases hzero : c = '0'
  · -- a zero is alone, and neither a mark of a base nor an octal digit follows it
    subst hzero
    obtain ⟨ch, rest, htail, hch⟩ := h.starts
    cases hwhole.zero rfl
    rw [List.nil_append, htail]
    rcases hch with rfl | rfl | rfl <;> rfl
  · have hdecimal :
        Plain.isDecimal (c :: (whole ++ (fraction ++ mark :: (sign ++ digits)))) = false := by
      have hrest : (whole ++ (fraction ++ mark :: (sign ++ digits))).all Plain.isDigitOrLine =
          false := h.all_eq_false ⟨rfl, rfl⟩ (by simp)
      rw [Plain.isDecimal, hrest, Bool.and_false]
    have hcolon : ':' ∉ c :: (whole ++ (fraction ++ mark :: (sign ++ digits))) := by
      rw [← List.cons_append, List.mem_append, not_or]
      refine ⟨fun hmem => ?_, fun hmem => absurd (h.mem _ hmem) (by decide)⟩
      cases hwhole.all ':' hmem
    split
    case h_5 =>
      rw [hdecimal, Plain.isSexagesimal, Text.parts_eq_singleton hcolon]
      rfl
    all_goals
      rename_i heq
      exact absurd (List.cons.inj heq).1 hzero

/-- A number of JSON with a power of ten that lacks its point or its sign is a text. -/
theorem plain_text (hwhole : Whole whole) (h : LoosePower fraction mark sign digits)
    (negative : Bool) :
    Tag.ofPlain (String.ofList
      (signText negative ++ (whole ++ (fraction ++ mark :: (sign ++ digits))))) = .str := by
  cases whole with
  | nil => exact absurd rfl hwhole.nonempty
  | cons c whole =>
    have hc := hwhole.all c List.mem_cons_self
    have hchars : ∀ ch ∈ c :: (whole ++ (fraction ++ mark :: (sign ++ digits))),
        ch ∈ numeralChars := by
      rw [← List.cons_append]
      exact List.forall_mem_append.2
        ⟨hwhole.mem, h.mem⟩
    have hstamp : Stamp.read?
        (signText negative ++ c :: (whole ++ (fraction ++ mark :: (sign ++ digits)))) = none := by
      cases hread : Stamp.read?
          (signText negative ++ c :: (whole ++ (fraction ++ mark :: (sign ++ digits)))) with
      | none => rfl
      | some stamp =>
        obtain ⟨year, rest, hcs, hyear⟩ := stamp_starts hread
        exact absurd hcs (ne_year hwhole.toDigits h hyear rest)
    have hword (text : String) (htext : text.toList.head? ≠ some '-' ∧
        ∀ n < 10, text.toList.head? ≠ some (Char.ofNat (48 + n))) :=
      ofList_sign_beq hc negative (whole ++ (fraction ++ mark :: (sign ++ digits))) htext.1 htext.2
    have hwords (words : List String) (h : ∀ text ∈ words, text.toList.head? ≠ some '-' ∧
        ∀ n < 10, text.toList.head? ≠ some (Char.ofNat (48 + n))) :
        words.contains (String.ofList
          (signText negative ++ c :: (whole ++ (fraction ++ mark :: (sign ++ digits))))) = false :=
      words_numeral hc negative h
    rw [List.cons_append, Tag.ofPlain, String.toList_ofList,
      withoutLastBreak_numeral hchars negative, hwords Plain.boolTexts (by decide),
      isFloat_loose hwhole.toDigits h, isInt_loose hwhole h, hword "<<" (by decide),
      hwords Plain.nullTexts (by decide), hstamp, hword "=" (by decide),
      hwords ["!", "&", "*"] (by decide)]
    rfl

end

end

end Yaml

end TreeScript
