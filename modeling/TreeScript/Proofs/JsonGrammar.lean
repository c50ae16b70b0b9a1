import TreeScript.Proofs.FlowStyle
import TreeScript.Proofs.JsonTokens

/-!
# The texts of JSON

JSON as a flow style (`Json.style`): which texts are numbers, words, strings and keys, without
saying how they are read. For each of these the reader and the texts agree. What is read from the
front of a text is one of its kind (`readUnsigned?_sound`, `readWord?_sound`, `readString?_sound`),
and a text of the kind is read wherever it stands, as long as no number goes on after it
(`NumberText.read`, `WordText.read`, `CharsText.readString?`).
-/

namespace TreeScript

/-! ## Digits -/

/-- A text of ASCII digits, at least one. -/
structure Digits (cs : List Char) : Prop where
  /-- There is one. -/
  nonempty : cs ≠ []
  /-- All of them are digits. -/
  all : ∀ c ∈ cs, c.isDigit = true

/-- The digits of an integer: a zero, or no zero in front. -/
structure Whole (cs : List Char) : Prop extends Digits cs where
  /-- A zero in front is alone. -/
  zero : cs.head? = some '0' → cs = ['0']

theorem Whole.starts {whole : List Char} (h : Whole whole) (rest : List Char) :
    ∃ c ∈ (whole ++ rest).head?, c.isDigit = true := by
  cases whole with
  | nil => exact absurd rfl h.nonempty
  | cons c whole => exact ⟨c, rfl, h.all c List.mem_cons_self⟩

/-- The values of digits. -/
def digitValues (cs : List Char) : List Nat := cs.map fun c => c.toNat - 48

/-- The sign in front of a numeral. -/
def signText (negative : Bool) : List Char := if negative then ['-'] else []

/-- The characters of numerals. -/
def numeralChars : List Char := "0123456789+-.eE".toList

/-- What holds of the ten digits holds of every digit. -/
theorem of_isDigit {P : Char → Prop} (h : ∀ d < 10, P (Char.ofNat (48 + d))) {c : Char}
    (hc : c.isDigit = true) : P c := by
  simp only [Char.isDigit, Bool.and_eq_true, decide_eq_true_eq] at hc
  have hlow : 48 ≤ c.toNat := hc.1
  have hhigh : c.toNat ≤ 57 := hc.2
  have hcode : Char.ofNat (48 + (c.toNat - 48)) = c := by
    rw [Nat.add_sub_cancel' hlow, Char.ofNat_toNat]
  rw [← hcode]
  exact h _ (by omega)

theorem mem_numeralChars_digit {c : Char} (h : c.isDigit = true) : c ∈ numeralChars :=
  of_isDigit (P := (· ∈ numeralChars)) (by decide) h

theorem Digits.mem {cs : List Char} (h : Digits cs) : ∀ c ∈ cs, c ∈ numeralChars :=
  fun c hc => mem_numeralChars_digit (h.all c hc)

theorem mem_numeralChars_sign {c : Char} {negative : Bool} (h : c ∈ signText negative) :
    c ∈ numeralChars := by
  cases negative with
  | true =>
    obtain rfl : c = '-' := List.mem_singleton.1 h
    decide
  | false => cases h

namespace Json

theorem takeDigits_sound {cs rest : List Char} {value : Nat} {values : List Nat}
    (h : takeDigits cs = (value :: values, rest)) :
    ∃ digits, cs = digits ++ rest ∧ Digits digits ∧ value :: values = digitValues digits := by
  obtain ⟨hvalues, rfl⟩ := Prod.mk.inj h
  refine ⟨cs.takeWhile Char.isDigit, List.takeWhile_append_dropWhile.symm, ⟨?_, ?_⟩, hvalues.symm⟩
  · intro hnil
    rw [hnil] at hvalues
    cases hvalues
  · exact fun c hc => List.mem_takeWhile_imp hc

theorem takeDigits_digits {digits rest : List Char} (h : Digits digits)
    (hrest : endsDigits rest = true) : ∃ value values,
      Json.takeDigits (digits ++ rest) = (value :: values, rest) ∧
        value :: values = digitValues digits := by
  rw [takeDigits_append h.all hrest]
  cases digits with
  | nil => exact absurd rfl h.nonempty
  | cons d digits => exact ⟨_, _, rfl, rfl⟩

/-! ## Numbers -/

/-- The digits after a point, if there are any. -/
inductive FractionText : List Char → Option (List Nat) → Prop where
  | absent : FractionText [] none
  | point {digits : List Char} (h : Digits digits) :
    FractionText ('.' :: digits) (some (digitValues digits))

/-- The signs of a power of ten. -/
def powerSigns : List (List Char × Bool) := [([], false), (['+'], false), (['-'], true)]

/-- A power of ten, if there is one. -/
inductive PowerText : List Char → Option Int → Prop where
  | absent : PowerText [] none
  | power {mark : Char} {sign digits : List Char} {negative : Bool}
    (hmark : mark = 'e' ∨ mark = 'E') (hsign : (sign, negative) ∈ powerSigns) (h : Digits digits) :
    PowerText (mark :: (sign ++ digits))
      (some (if negative then -(ofDigits (digitValues digits) : Int)
        else ofDigits (digitValues digits)))

/-- The number of the digits before the point, those after it and the power of ten. -/
def numeral (negative : Bool) (whole : List Nat) (fraction : Option (List Nat))
    (power : Option Int) : Value :=
  if fraction.isNone && power.isNone then
    .int (if negative then -(ofDigits whole : Int) else ofDigits whole)
  else .float (Binary64.ofParts negative whole (fraction.getD []) (power.getD 0))

/-- A number without its sign. -/
inductive NumberText (negative : Bool) : List Char → Value → Prop where
  | intro {whole fraction power : List Char} {digits : Option (List Nat)} {exponent : Option Int}
    (hwhole : Whole whole) (hfraction : FractionText fraction digits)
    (hpower : PowerText power exponent) :
    NumberText negative (whole ++ (fraction ++ power))
      (numeral negative (digitValues whole) digits exponent)

/-- A value that is written without quotes and brackets. -/
inductive WordText : List Char → Value → Prop where
  | null : WordText ['n', 'u', 'l', 'l'] .null
  | yes : WordText ['t', 'r', 'u', 'e'] (.bool true)
  | no : WordText ['f', 'a', 'l', 's', 'e'] (.bool false)
  | nan : WordText ['N', 'a', 'N'] (.float .jsonNaN)
  | infinity (negative : Bool) :
    WordText (signText negative ++ ['I', 'n', 'f', 'i', 'n', 'i', 't', 'y'])
      (.float (.infinite negative))
  | number {negative : Bool} {text : List Char} {v : Value} (h : NumberText negative text v) :
    WordText (signText negative ++ text) v

theorem readWhole?_sound {cs rest : List Char} {values : List Nat}
    (h : readWhole? cs = some (values, rest)) :
    ∃ whole, cs = whole ++ rest ∧ Whole whole ∧ values = digitValues whole := by
  unfold readWhole? at h
  split at h
  · cases h
    refine ⟨['0'], rfl, ⟨⟨nofun, fun c hc => ?_⟩, fun _ => rfl⟩, rfl⟩
    obtain rfl : c = '0' := List.mem_singleton.1 hc
    rfl
  · rename_i hzero
    rcases hvalues : takeDigits cs with ⟨_ | ⟨value, values⟩, rest'⟩
    · rw [hvalues] at h
      cases h
    · rw [hvalues] at h
      cases h
      obtain ⟨digits, rfl, hdigits, hvalues⟩ := takeDigits_sound hvalues
      refine ⟨digits, rfl, ⟨hdigits, fun hhead => ?_⟩, hvalues⟩
      cases digits with
      | nil => cases hhead
      | cons d digits =>
        cases hhead
        exact absurd rfl (hzero (digits ++ rest))

theorem readWhole?_whole {whole rest : List Char} (h : Whole whole)
    (hrest : endsDigits rest = true) :
    readWhole? (whole ++ rest) = some (digitValues whole, rest) := by
  obtain ⟨value, values, htake, hvalues⟩ := takeDigits_digits h.toDigits hrest
  by_cases hzero : whole.head? = some '0'
  · rw [h.zero hzero]
    rfl
  · rw [readWhole?, htake, ← hvalues]
    rintro after heq
    cases whole with
    | nil => exact h.nonempty rfl
    | cons d whole =>
      cases heq
      exact hzero rfl

/-- A part of a number that may be missing, with the text after it. -/
def optional {α : Type} (read : List Char → Option (α × List Char)) (cs : List Char) :
    Option α × List Char :=
  ((read cs).map Prod.fst, ((read cs).map Prod.snd).getD cs)

theorem readFraction?_sound {cs rest : List Char} {fraction : Option (List Nat)}
    (h : optional readFraction? cs = (fraction, rest)) :
    ∃ text, cs = text ++ rest ∧ FractionText text fraction := by
  unfold optional readFraction? at h
  split at h
  · rename_i after
    rcases hvalues : takeDigits after with ⟨_ | ⟨value, values⟩, rest'⟩
    · rw [hvalues] at h
      cases h
      exact ⟨[], rfl, .absent⟩
    · rw [hvalues] at h
      obtain ⟨rfl, rfl⟩ : some (value :: values) = fraction ∧ rest' = rest := Prod.mk.inj h
      obtain ⟨digits, rfl, hdigits, hvalues⟩ := takeDigits_sound hvalues
      rw [hvalues]
      exact ⟨'.' :: digits, rfl, .point hdigits⟩
  · cases h
    exact ⟨[], rfl, .absent⟩

theorem FractionText.read {text rest : List Char} {fraction : Option (List Nat)}
    (h : FractionText text fraction) (hrest : endsDigits rest = true)
    (hnone : readFraction? rest = none) :
    optional readFraction? (text ++ rest) = (fraction, rest) ∧
      endsDigits (text ++ rest) = true := by
  cases h with
  | absent => exact ⟨by rw [List.nil_append, optional, hnone]; rfl, hrest⟩
  | @point digits h =>
    obtain ⟨value, values, htake, hvalues⟩ := takeDigits_digits h hrest
    refine ⟨?_, rfl⟩
    rw [List.cons_append, optional, readFraction?, htake, ← hvalues]
    rfl

theorem exponentSign_sound {cs digits : List Char} {negative : Bool}
    (h : exponentSign cs = (negative, digits)) :
    ∃ sign, cs = sign ++ digits ∧ (sign, negative) ∈ powerSigns := by
  unfold exponentSign at h
  split at h
  · cases h
    exact ⟨['-'], rfl, by decide⟩
  · cases h
    exact ⟨['+'], rfl, by decide⟩
  · cases h
    exact ⟨[], rfl, by decide⟩

theorem exponentSign_sign {sign digits : List Char} {negative : Bool}
    (hsign : (sign, negative) ∈ powerSigns) (hdigits : Digits digits) (rest : List Char) :
    exponentSign (sign ++ (digits ++ rest)) = (negative, digits ++ rest) := by
  simp only [powerSigns, List.mem_cons, Prod.mk.injEq, List.not_mem_nil, or_false] at hsign
  rcases hsign with ⟨rfl, rfl⟩ | ⟨rfl, rfl⟩ | ⟨rfl, rfl⟩
  · cases digits with
    | nil => exact absurd rfl hdigits.nonempty
    | cons d digits =>
      have hd := hdigits.all d List.mem_cons_self
      rw [List.nil_append, List.cons_append, exponentSign]
      · rintro _ ⟨⟩
        cases hd
      · rintro _ ⟨⟩
        cases hd
  · rfl
  · rfl

theorem readExponent?_sound {cs rest : List Char} {power : Option Int}
    (h : optional readExponent? cs = (power, rest)) :
    ∃ text, cs = text ++ rest ∧ PowerText text power := by
  unfold optional readExponent? at h
  split at h
  · rename_i mark after
    split at h
    · rename_i hmark
      rcases hsign : exponentSign after with ⟨negative, text⟩
      rw [hsign] at h
      dsimp only at h
      rcases hvalues : takeDigits text with ⟨_ | ⟨value, values⟩, rest'⟩
      · rw [hvalues] at h
        cases h
        exact ⟨[], rfl, .absent⟩
      · rw [hvalues] at h
        obtain ⟨rfl, rfl⟩ :
            some (if negative then -(ofDigits (value :: values) : Int)
              else ofDigits (value :: values)) = power ∧ rest' = rest := Prod.mk.inj h
        obtain ⟨digits, rfl, hdigits, hvalues⟩ := takeDigits_sound hvalues
        obtain ⟨sign, rfl, hsign'⟩ := exponentSign_sound hsign
        rw [hvalues]
        exact ⟨mark :: (sign ++ digits), by simp, .power (by simpa using hmark) hsign' hdigits⟩
    · cases h
      exact ⟨[], rfl, .absent⟩
  · cases h
    exact ⟨[], rfl, .absent⟩

theorem PowerText.read {text rest : List Char} {power : Option Int} (h : PowerText text power)
    (hrest : endsNumber rest = true) :
    optional readExponent? (text ++ rest) = (power, rest) ∧ endsDigits (text ++ rest) = true ∧
      readFraction? (text ++ rest) = none := by
  cases h with
  | absent =>
    refine ⟨?_, endsDigits_of_endsNumber hrest, readFraction?_endsNumber hrest⟩
    rw [List.nil_append, optional, readExponent?_endsNumber hrest]
    rfl
  | @power mark sign digits negative hmark hsign h =>
    obtain ⟨value, values, htake, hvalues⟩ :=
      takeDigits_digits h (endsDigits_of_endsNumber hrest)
    have hmark' : (mark == 'e' || mark == 'E') = true ∧
        ∀ rest, endsDigits (mark :: rest) = true ∧ readFraction? (mark :: rest) = none := by
      rcases hmark with rfl | rfl <;> exact ⟨rfl, fun _ => ⟨rfl, rfl⟩⟩
    refine ⟨?_, hmark'.2 _⟩
    rw [List.cons_append, List.append_assoc, optional, readExponent?, if_pos hmark'.1,
      exponentSign_sign hsign h]
    dsimp only
    rw [htake, ← hvalues]
    rfl

theorem readUnsigned?_eq (negative : Bool) (cs : List Char) :
    readUnsigned? negative cs = (readWhole? cs).map fun whole =>
      let fraction := optional readFraction? whole.2
      let power := optional readExponent? fraction.2
      (numeral negative whole.1 fraction.1 power.1, power.2) := by
  unfold readUnsigned?
  cases readWhole? cs with
  | none => rfl
  | some whole =>
    simp only [Option.bind_eq_bind, Option.bind_some, Option.map_some, numeral, optional,
      Option.isNone_map]
    split <;> rfl

theorem readUnsigned?_sound {negative : Bool} {cs rest : List Char} {v : Value}
    (h : readUnsigned? negative cs = some (v, rest)) :
    ∃ text, cs = text ++ rest ∧ NumberText negative text v := by
  rw [readUnsigned?_eq] at h
  obtain ⟨⟨values, after⟩, hwhole, hnumber⟩ := Option.map_eq_some_iff.1 h
  rcases hfraction : optional readFraction? after with ⟨digits, middle⟩
  rcases hpower : optional readExponent? middle with ⟨exponent, rest'⟩
  simp only [hfraction, hpower] at hnumber
  cases hnumber
  obtain ⟨power, rfl, hpower'⟩ := readExponent?_sound hpower
  obtain ⟨fraction, rfl, hfraction'⟩ := readFraction?_sound hfraction
  obtain ⟨whole, rfl, hwhole', rfl⟩ := readWhole?_sound hwhole
  exact ⟨whole ++ (fraction ++ power), by simp, .intro hwhole' hfraction' hpower'⟩

theorem NumberText.read {negative : Bool} {text rest : List Char} {v : Value}
    (h : NumberText negative text v) (hrest : endsNumber rest = true) :
    readUnsigned? negative (text ++ rest) = some (v, rest) := by
  obtain ⟨hwhole, hfraction, hpower⟩ := h
  obtain ⟨hpower, hends, hnone⟩ := hpower.read hrest
  obtain ⟨hfraction, hends⟩ := hfraction.read hends hnone
  rw [List.append_assoc, List.append_assoc, readUnsigned?_eq, readWhole?_whole hwhole hends]
  simp only [Option.map_some, hfraction, hpower]

/-- A number starts with a digit. -/
theorem NumberText.starts {negative : Bool} {text : List Char} {v : Value}
    (h : NumberText negative text v) : ∃ d rest, text = d :: rest ∧ d.isDigit = true := by
  obtain @⟨whole, _, _, _, _, hwhole, -, -⟩ := h
  cases whole with
  | nil => exact absurd rfl hwhole.nonempty
  | cons d whole => exact ⟨d, _, rfl, hwhole.all d List.mem_cons_self⟩

theorem NumberText.mem {negative : Bool} {text : List Char} {v : Value}
    (h : NumberText negative text v) : ∀ c ∈ text, c ∈ numeralChars := by
  obtain ⟨hwhole, hfraction, hpower⟩ := h
  refine List.forall_mem_append.2 ⟨hwhole.mem, List.forall_mem_append.2 ⟨?_, ?_⟩⟩
  · cases hfraction with
    | absent => nofun
    | point h => exact List.forall_mem_cons.2 ⟨by decide, h.mem⟩
  · cases hpower with
    | absent => nofun
    | power hmark hsign h =>
      refine List.forall_mem_cons.2 ⟨?_, List.forall_mem_append.2 ⟨?_, h.mem⟩⟩
      · rcases hmark with rfl | rfl <;> decide
      · have hsigns : (powerSigns.all fun s => s.1.all numeralChars.contains) = true := by decide
        intro c hc
        exact List.contains_iff_mem.1 (List.all_eq_true.1 (List.all_eq_true.1 hsigns _ hsign) c hc)

/-- The characters of words: those of numerals and the letters of the other words. -/
def wordChars : List Char := numeralChars ++ "nultrefasNInity".toList

/-- What holds of the characters of words holds of those of every word. -/
theorem WordText.all {p : Char → Bool} (hp : wordChars.all p = true) {text : List Char} {v : Value}
    (h : WordText text v) : text.all p = true := by
  have hmem : text.all wordChars.contains = true := by
    cases h with
    | null | yes | no | nan => decide
    | infinity negative => cases negative <;> decide
    | @number negative text v h =>
      have hchars : ∀ c ∈ signText negative ++ text, c ∈ numeralChars :=
        List.forall_mem_append.2 ⟨fun _ => mem_numeralChars_sign, h.mem⟩
      exact List.all_eq_true.2 fun c hc =>
        List.contains_iff_mem.2 (List.mem_append_left _ (hchars c hc))
  refine List.all_eq_true.2 fun c hc => List.all_eq_true.1 hp c ?_
  exact List.contains_iff_mem.1 (List.all_eq_true.1 hmem c hc)

theorem readWord?_sound {cs rest : List Char} {v : Value} (h : readWord? cs = some (v, rest)) :
    ∃ text, cs = text ++ rest ∧ WordText text v := by
  unfold readWord? at h
  split at h
  · cases h
    exact ⟨_, rfl, .null⟩
  · cases h
    exact ⟨_, rfl, .yes⟩
  · cases h
    exact ⟨_, rfl, .no⟩
  · cases h
    exact ⟨_, rfl, .nan⟩
  · cases h
    exact ⟨_, rfl, .infinity false⟩
  · cases h
    exact ⟨_, rfl, .infinity true⟩
  · obtain ⟨text, rfl, htext⟩ := readUnsigned?_sound h
    exact ⟨'-' :: text, rfl, .number htext⟩
  · obtain ⟨text, rfl, htext⟩ := readUnsigned?_sound h
    exact ⟨text, rfl, .number htext⟩

theorem WordText.read {text rest : List Char} {v : Value} (h : WordText text v)
    (hrest : endsNumber rest = true) : readWord? (text ++ rest) = some (v, rest) := by
  cases h with
  | null | yes | no | nan => rfl
  | infinity negative => cases negative <;> rfl
  | @number negative text v h =>
    obtain ⟨d, more, rfl, hd⟩ := h.starts
    cases negative with
    | true => exact (readWord?_minus hd _).trans (h.read hrest)
    | false => exact (readWord?_digit hd _).trans (h.read hrest)

/-! ## Strings -/

/-- Four hexadecimal digits. -/
structure UnitText (digits : List Char) (unit : Nat) : Prop where
  length : digits.length = 4
  code : Text.ofHex? digits = some unit

/-- The characters of a string up to its closing quote, and what they stand for. -/
inductive CharsText : List Char → List Char → Prop where
  | nil : CharsText [] []
  -- Of a pair of surrogates that are escaped one after the other, the first does not stand alone.
  | unit {digits body chars : List Char} {unit : Nat} (hunit : UnitText digits unit)
    (hlone : (0xd800 ≤ unit && unit ≤ 0xdbff) = true → readLowUnit? (body ++ ['"']) = none)
    (h : CharsText body chars) :
    CharsText ('\\' :: 'u' :: (digits ++ body)) (Char.ofNat unit :: chars)
  | pair {digits digits' body chars : List Char} {high low : Nat} (hunit : UnitText digits high)
    (hhigh : (0xd800 ≤ high && high ≤ 0xdbff) = true) (hunit' : UnitText digits' low)
    (hlow : (0xdc00 ≤ low && low ≤ 0xdfff) = true) (h : CharsText body chars) :
    CharsText ('\\' :: 'u' :: (digits ++ '\\' :: 'u' :: (digits' ++ body)))
      (Char.ofNat (0x10000 + (high - 0xd800) * 0x400 + (low - 0xdc00)) :: chars)
  | escape {e c : Char} {body chars : List Char} (hescape : simpleEscape? e = some c)
    (h : CharsText body chars) : CharsText ('\\' :: e :: body) (c :: chars)
  | char {c : Char} {body chars : List Char} (hquote : c ≠ '"') (hslash : c ≠ '\\')
    (hcontrol : ¬c.toNat < 0x20) (h : CharsText body chars) : CharsText (c :: body) (c :: chars)

theorem UnitText.read {digits : List Char} {unit : Nat} (h : UnitText digits unit)
    (rest : List Char) : readUnit? (digits ++ rest) = some (unit, rest) := by
  have hlength := h.length
  rw [readUnit?, List.take_left' hlength, List.drop_left' hlength, if_neg (by omega), h.code]
  rfl

theorem readUnit?_sound {cs rest : List Char} {unit : Nat} (h : readUnit? cs = some (unit, rest)) :
    ∃ digits, cs = digits ++ rest ∧ UnitText digits unit := by
  unfold readUnit? at h
  dsimp only at h
  split at h
  · cases h
  · rename_i hlength
    obtain ⟨code, hcode, hpair⟩ := Option.map_eq_some_iff.1 h
    cases hpair
    have hfour : (cs.take 4).length = 4 := by
      have := List.length_take_le 4 cs
      omega
    exact ⟨cs.take 4, (List.take_append_drop 4 cs).symm, hfour, hcode⟩

theorem readLowUnit?_low {digits : List Char} {unit : Nat} (h : UnitText digits unit)
    (hlow : (0xdc00 ≤ unit && unit ≤ 0xdfff) = true) (rest : List Char) :
    readLowUnit? ('\\' :: 'u' :: (digits ++ rest)) = some (unit, rest) := by
  rw [readLowUnit?, h.read rest]
  exact if_pos hlow

theorem readLowUnit?_sound {cs rest : List Char} {unit : Nat}
    (h : readLowUnit? cs = some (unit, rest)) :
    ∃ digits, cs = '\\' :: 'u' :: (digits ++ rest) ∧ UnitText digits unit ∧
      (0xdc00 ≤ unit && unit ≤ 0xdfff) = true := by
  unfold readLowUnit? at h
  split at h
  · obtain ⟨⟨low, after⟩, hunit, h⟩ := Option.bind_eq_some_iff.1 h
    dsimp only at h
    split at h
    · rename_i hlow
      cases h
      obtain ⟨digits, rfl, hdigits⟩ := readUnit?_sound hunit
      exact ⟨digits, rfl, hdigits, hlow⟩
    · cases h
  · cases h

/-- Whether a second unit follows is decided in front of the quote that ends the string. -/
theorem readLowUnit?_quote {body rest : List Char} (h : readLowUnit? (body ++ '"' :: rest) = none)
    (rest' : List Char) : readLowUnit? (body ++ '"' :: rest') = none := by
  cases hread : readLowUnit? (body ++ '"' :: rest') with
  | none => rfl
  | some found =>
    obtain ⟨digits, heq, hunit, hlow⟩ := readLowUnit?_sound hread
    have hquote : '"' ∉ '\\' :: 'u' :: digits := by
      simp only [List.mem_cons, not_or]
      exact ⟨by decide, by decide, fun hc => (Text.ofHex?_inside hunit.code _ hc).1 rfl⟩
    rw [← List.cons_append, ← List.cons_append] at heq
    obtain ⟨more, rfl⟩ : ∃ more, body = '\\' :: 'u' :: digits ++ more := by
      rcases List.append_eq_append_iff.1 heq with ⟨more, hmore, hrest⟩ | ⟨more, hmore, -⟩
      · cases more with
        | nil => exact ⟨[], by rw [hmore, List.append_nil, List.append_nil]⟩
        | cons c more =>
          cases hrest
          exact absurd (by rw [hmore]; simp) hquote
      · exact ⟨more, hmore⟩
    rw [List.append_assoc, List.cons_append, List.cons_append, readLowUnit?_low hunit hlow] at h
    cases h

theorem readUnits?_unit {digits rest : List Char} {unit : Nat} (h : UnitText digits unit)
    (hlone : (0xd800 ≤ unit && unit ≤ 0xdbff) = true → readLowUnit? rest = none) :
    readUnits? (digits ++ rest) = some (Char.ofNat unit, rest) := by
  rw [readUnits?, h.read]
  simp only [Option.bind_eq_bind, Option.bind_some]
  split
  · rename_i hhigh
    rw [hlone hhigh]
  · rfl

theorem readUnits?_surrogates {digits digits' : List Char} {high low : Nat}
    (h : UnitText digits high) (hhigh : (0xd800 ≤ high && high ≤ 0xdbff) = true)
    (h' : UnitText digits' low) (hlow : (0xdc00 ≤ low && low ≤ 0xdfff) = true) (rest : List Char) :
    readUnits? (digits ++ '\\' :: 'u' :: (digits' ++ rest)) =
      some (Char.ofNat (0x10000 + (high - 0xd800) * 0x400 + (low - 0xdc00)), rest) := by
  rw [readUnits?, h.read]
  simp only [Option.bind_eq_bind, Option.bind_some, if_pos hhigh, readLowUnit?_low h' hlow]

/-- An escape by code in front of the rest of a string. -/
theorem readUnits?_sound {cs rest : List Char} {c : Char} (h : readUnits? cs = some (c, rest)) :
    ∃ units, cs = units ++ rest ∧ ∀ {body chars after : List Char}, rest = body ++ '"' :: after →
      CharsText body chars → CharsText ('\\' :: 'u' :: (units ++ body)) (c :: chars) := by
  unfold readUnits? at h
  obtain ⟨⟨unit, middle⟩, hunit, hchar⟩ := Option.bind_eq_some_iff.1 h
  obtain ⟨digits, rfl, hdigits⟩ := readUnit?_sound hunit
  dsimp only at hchar
  split at hchar
  · rename_i hhigh
    cases hlow : readLowUnit? middle with
    | some found =>
      obtain ⟨low, after⟩ := found
      rw [hlow] at hchar
      obtain ⟨rfl, rfl⟩ := Prod.mk.inj (Option.some.inj hchar)
      obtain ⟨digits', rfl, hdigits', hrange⟩ := readLowUnit?_sound hlow
      refine ⟨digits ++ '\\' :: 'u' :: digits', by simp, fun _ hbody => ?_⟩
      rw [List.append_assoc]
      exact .pair hdigits hhigh hdigits' hrange hbody
    | none =>
      rw [hlow] at hchar
      cases hchar
      refine ⟨digits, rfl, ?_⟩
      rintro body chars after rfl hbody
      exact .unit hdigits (fun _ => readLowUnit?_quote hlow []) hbody
  · rename_i hhigh
    cases hchar
    exact ⟨digits, rfl, fun _ hbody => .unit hdigits (fun h => absurd h hhigh) hbody⟩

theorem readChars?_sound {fuel : Nat} {cs chars rest : List Char}
    (h : readChars? fuel cs = some (chars, rest)) :
    ∃ body, cs = body ++ '"' :: rest ∧ CharsText body chars := by
  induction fuel generalizing cs chars with
  | zero => cases h
  | succ fuel ih =>
    rw [readChars?.eq_def] at h
    split at h
    · cases ‹fuel + 1 = 0›
    · cases h
    · cases h
      exact ⟨[], rfl, .nil⟩
    · -- An escape by code.
      rename_i after heq
      cases heq
      obtain ⟨⟨c, after'⟩, hunits, h⟩ := Option.bind_eq_some_iff.1 h
      obtain ⟨⟨chars', rest'⟩, hrest, h⟩ := Option.bind_eq_some_iff.1 h
      cases h
      obtain ⟨units, rfl, hunits'⟩ := readUnits?_sound hunits
      obtain ⟨body, rfl, hbody⟩ := ih hrest
      exact ⟨'\\' :: 'u' :: (units ++ body), by simp, hunits' rfl hbody⟩
    · -- An escape by letter.
      rename_i e after hletter heq
      cases heq
      obtain ⟨c, hescape, h⟩ := Option.bind_eq_some_iff.1 h
      obtain ⟨⟨chars', rest'⟩, hrest, h⟩ := Option.bind_eq_some_iff.1 h
      cases h
      obtain ⟨body, rfl, hbody⟩ := ih hrest
      exact ⟨'\\' :: e :: body, rfl, .escape hescape hbody⟩
    · -- A character that stands for itself.
      rename_i c after hquote hcode hletter heq
      cases heq
      split at h
      · cases h
      rename_i hplain
      obtain ⟨⟨chars', rest'⟩, hrest, h⟩ := Option.bind_eq_some_iff.1 h
      cases h
      simp only [Bool.or_eq_true, beq_iff_eq, decide_eq_true_eq, not_or] at hplain
      obtain ⟨body, rfl, hbody⟩ := ih hrest
      exact ⟨c :: body, rfl, .char hquote hplain.1 hplain.2 hbody⟩

theorem CharsText.read {body chars : List Char} (h : CharsText body chars) {fuel : Nat}
    (hfuel : body.length < fuel) (rest : List Char) :
    readChars? fuel (body ++ '"' :: rest) = some (chars, rest) := by
  -- every character, however it is written, takes one unit of fuel
  induction h generalizing fuel with
  | nil =>
    obtain ⟨fuel, rfl⟩ : ∃ n, fuel = n + 1 := ⟨fuel - 1, by omega⟩
    rfl
  | @unit digits body chars unit hunit hlone h ih =>
    obtain ⟨fuel, rfl⟩ : ∃ n, fuel = n + 1 := ⟨fuel - 1, by omega⟩
    simp only [List.length_cons, List.length_append] at hfuel
    rw [List.cons_append, List.cons_append, List.append_assoc, readChars?_units fuel
      (readUnits?_unit hunit fun hhigh => readLowUnit?_quote (hlone hhigh) rest), ih (by omega)]
    rfl
  | @pair digits digits' body chars high low hunit hhigh hunit' hlow h ih =>
    obtain ⟨fuel, rfl⟩ : ∃ n, fuel = n + 1 := ⟨fuel - 1, by omega⟩
    simp only [List.length_cons, List.length_append] at hfuel
    rw [List.cons_append, List.cons_append, List.append_assoc, List.cons_append, List.cons_append,
      List.append_assoc, readChars?_units fuel
      (readUnits?_surrogates hunit hhigh hunit' hlow _), ih (by omega)]
    rfl
  | @escape e c body chars hescape h ih =>
    obtain ⟨fuel, rfl⟩ : ∃ n, fuel = n + 1 := ⟨fuel - 1, by omega⟩
    have he : e ≠ 'u' := by
      rintro rfl
      cases hescape
    simp only [List.length_cons] at hfuel
    rw [List.cons_append, List.cons_append, readChars?_simple fuel he hescape, ih (by omega)]
    rfl
  | @char c body chars hquote hslash hcontrol h ih =>
    obtain ⟨fuel, rfl⟩ : ∃ n, fuel = n + 1 := ⟨fuel - 1, by omega⟩
    simp only [List.length_cons] at hfuel
    rw [List.cons_append, readChars?_plain fuel hquote hslash hcontrol, ih (by omega)]
    rfl

theorem readString?_sound {cs rest : List Char} {s : String} (h : readString? cs = some (s, rest)) :
    ∃ body chars, cs = body ++ '"' :: rest ∧ CharsText body chars ∧ s = String.ofList chars := by
  obtain ⟨⟨chars, after⟩, hread, hpair⟩ := Option.bind_eq_some_iff.1 h
  cases hpair
  obtain ⟨body, rfl, hbody⟩ := readChars?_sound hread
  exact ⟨body, chars, rfl, hbody, rfl⟩

theorem CharsText.readString? {body chars : List Char} (h : CharsText body chars)
    (rest : List Char) :
    Json.readString? (body ++ '"' :: rest) = some (String.ofList chars, rest) := by
  rw [Json.readString?, h.read (by rw [List.length_append]; omega)]
  rfl

/-! ## Values -/

/-- A value without parts. -/
inductive ScalarText : List Char → Value → Prop where
  | word {text : List Char} {v : Value} (h : WordText text v) : ScalarText text v
  | quoted {body chars : List Char} (h : CharsText body chars) :
    ScalarText ('"' :: (body ++ ['"'])) (.str (String.ofList chars))

/-- A key with the space in front of its colon. -/
inductive KeyText : List Char → String → Prop where
  | intro {body chars gap : List Char} (h : CharsText body chars) (hgap : gap.all isSpace = true) :
    KeyText ('"' :: (body ++ '"' :: gap)) (String.ofList chars)

/-- JSON as a flow style. -/
def style : FlowStyle where
  isGap := isSpace
  Scalar := ScalarText
  Key := KeyText

end Json

end TreeScript
