import Mathlib
import TreeScript.Document
import TreeScript.Proofs.JsonNesting
import TreeScript.Proofs.YamlFlowTexts

/-!
# JSON texts that YAML reads alike

Most JSON texts are YAML texts with the same value, but not all of them. A text is shared
(`isShared`) if

* it has only characters that a YAML text may contain, no tabs, and no line ends of Unicode;
* a number with a power of ten has a point and a sign in front of the power, an integer is not
  longer than libraries read, and there are no words beside `null`, `true` and `false`;
* no surrogate is escaped;
* a key stands in one line with its colon, and there are at most 1024 characters up to the colon.

A shared text that is JSON has the same value in each format, with every library that reads flow
texts that are as deep as the text (`read_shared`). Both formats are flow styles. So the texts of
values in the one are followed, part by part, into the other (`transfers_text`). Of the texts that
are numerals the shared ones are the only ones with the same value.
-/

namespace TreeScript.Document

open FlowStyle (Parts Bracketed)
open Yaml Yaml.Lex

/-! ## Shared texts -/

/-- Whether a character may stand in a shared text. -/
def isSharedChar (c : Char) : Bool :=
  isAllowed c && !(['\t', '\x85', '\u2028', '\u2029'].contains c)

/-- Whether a character stands in words. -/
def isWordChar (c : Char) : Bool := c.isAlphanum || c == '+' || c == '-' || c == '.'

/-- Whether a character may come before the power of ten of a number. -/
def isStartChar (c : Char) : Bool := c.isDigit || c == '-' || c == '.'

/-- Whether a word is an integer that is not too long, or a number with a point in which a power of
ten has a sign. -/
def isSharedNumeral (word : List Char) : Bool :=
  let start := word.takeWhile isStartChar
  match word.drop start.length with
  | [] => start.contains '.' || start.length ≤ maxDigits
  | mark :: power =>
    (mark == 'e' || mark == 'E') && start.contains '.' &&
      (power.head? == some '+' || power.head? == some '-')

/-- Whether a word means the same in both formats. -/
def isSharedWord (word : List Char) : Bool :=
  ["null", "true", "false"].contains (String.ofList word) || isSharedNumeral word

/-- Whether a surrogate is escaped in front of a text, of which the text has the digits. -/
def isSurrogate (cs : List Char) : Bool :=
  match Text.ofHex? (cs.take 4) with
  | some unit => 0xd800 ≤ unit && unit ≤ 0xdfff
  | none => false

/-- The number of characters up to a closing quote, and what comes after it. -/
def closing : List Char → Nat × List Char
  | [] => (0, [])
  | '"' :: rest => (0, rest)
  | '\\' :: _ :: rest => ((closing rest).1 + 2, (closing rest).2)
  | _ :: rest => ((closing rest).1 + 1, (closing rest).2)

/-- Whether a text in quotes, after the opening one, is no key that YAML takes for none. -/
def keyFits (cs : List Char) : Bool :=
  let after := (closing cs).2
  match after.dropWhile isLayout with
  | ':' :: _ =>
    let gap := after.takeWhile isLayout
    gap.all (· == ' ') && (closing cs).1 + 2 + gap.length ≤ 1024
  | _ => true

/-- A place in a text: outside of quotes and words, in a word, or inside quotes. -/
inductive Place where
  /-- Outside of quotes and words. -/
  | outside
  /-- In a word. -/
  | word
  /-- Inside quotes. -/
  | inside
  deriving DecidableEq, Repr

/-- Whether the words, escapes and keys of a text from a place on are shared. -/
def sharedFrom : Place → List Char → Bool
  | _, [] => true
  | .inside, '"' :: rest => sharedFrom .outside rest
  | .inside, '\\' :: e :: rest => !(e == 'u' && isSurrogate rest) && sharedFrom .inside rest
  | .inside, _ :: rest => sharedFrom .inside rest
  | place, c :: rest =>
    if c == '"' then keyFits rest && sharedFrom .inside rest
    else if isWordChar c then
      (place == .word || isSharedWord ((c :: rest).takeWhile isWordChar)) && sharedFrom .word rest
    else sharedFrom .outside rest

/-- Whether a text means the same in both formats, if it is JSON. -/
def isShared (text : String) : Bool :=
  text.toList.all isSharedChar && sharedFrom .outside text.toList

/-! ## Quoted texts -/

theorem sharedFrom_inside_char {c : Char} (hquote : c ≠ '"') (hback : c ≠ '\\') (rest : List Char) :
    sharedFrom .inside (c :: rest) = sharedFrom .inside rest := by
  rw [sharedFrom]
  · exact hquote
  · rintro _ _ rfl
    exact absurd rfl hback

theorem closing_char {c : Char} (hquote : c ≠ '"') (hback : c ≠ '\\') (rest : List Char) :
    closing (c :: rest) = ((closing rest).1 + 1, (closing rest).2) := by
  rw [closing]
  · exact hquote
  · rintro _ _ rfl
    exact absurd rfl hback

/-- Digits inside quotes are passed. -/
theorem sharedFrom_inside_append {digits : List Char} (h : ∀ c ∈ digits, c ≠ '"' ∧ c ≠ '\\')
    (rest : List Char) : sharedFrom .inside (digits ++ rest) = sharedFrom .inside rest := by
  induction digits with
  | nil => rfl
  | cons c digits ih =>
    obtain ⟨⟨hquote, hback⟩, hdigits⟩ := List.forall_mem_cons.1 h
    rw [List.cons_append, sharedFrom_inside_char hquote hback, ih hdigits]

theorem closing_append {digits : List Char} (h : ∀ c ∈ digits, c ≠ '"' ∧ c ≠ '\\')
    (rest : List Char) :
    closing (digits ++ rest) = ((closing rest).1 + digits.length, (closing rest).2) := by
  induction digits with
  | nil => rfl
  | cons c digits ih =>
    obtain ⟨⟨hquote, hback⟩, hdigits⟩ := List.forall_mem_cons.1 h
    rw [List.cons_append, closing_char hquote hback, ih hdigits]
    rfl

/-- A character inside quotes that stands for itself in JSON does so in YAML. -/
theorem isQuotedWord_shared {c : Char} (hshared : isSharedChar c = true) (hquote : c ≠ '"')
    (hback : c ≠ '\\') (hcontrol : 0x20 ≤ c.toNat) :
    c = ' ' ∨ c = '\'' ∨ isQuotedWord c = true := by
  by_cases hspace : c = ' '
  · exact .inl hspace
  by_cases happos : c = '\''
  · exact .inr (.inl happos)
  refine .inr (.inr ?_)
  have hgap : isGap c = false := by
    rw [← Bool.not_eq_true]
    intro hgap
    simp only [isGap, isSpaceOrEnd, isBreakOrEnd, Bool.or_eq_true, beq_iff_eq] at hgap
    rcases hgap with rfl | rfl | hbreak | rfl
    · exact absurd hshared (by decide)
    · exact hspace rfl
    · rcases isBreak_cases hbreak with rfl | rfl | rfl | rfl | rfl
      · exact absurd hcontrol (by decide)
      · exact absurd hcontrol (by decide)
      all_goals exact absurd hshared (by decide)
    · exact absurd hcontrol (by decide)
  rw [isQuotedWord, hgap, beq_eq_false_iff_ne.2 happos, beq_eq_false_iff_ne.2 hquote,
    beq_eq_false_iff_ne.2 hback]
  rfl

/-- The letters that JSON escapes by stand for the same characters in YAML. -/
theorem escape?_of_simpleEscape? {e c : Char} (h : Json.simpleEscape? e = some c) :
    Lex.escape? e = some c := by
  unfold Json.simpleEscape? at h
  split at h
  case h_9 => cases h
  all_goals exact h

theorem hexValue?_lt {c : Char} {n : Nat} (h : Text.hexValue? c = some n) : n < 16 := by
  unfold Text.hexValue? at h
  split at h
  · rename_i hdigit
    cases h
    simp only [Char.isDigit, Bool.and_eq_true, decide_eq_true_eq] at hdigit
    have hhigh : c.toNat ≤ 57 := hdigit.2
    omega
  · split at h
    · rename_i hlower
      cases h
      simp only [Bool.and_eq_true, decide_eq_true_eq] at hlower
      have hhigh : c.toNat ≤ 102 := hlower.2
      omega
    · split at h
      · rename_i hupper
        cases h
        simp only [Bool.and_eq_true, decide_eq_true_eq] at hupper
        have hhigh : c.toNat ≤ 70 := hupper.2
        omega
      · cases h

theorem ofHex?_lt {digits : List Char} {n : Nat} (h : Text.ofHex? digits = some n) :
    n < 16 ^ digits.length := by
  have hfold : ∀ (digits : List Char) (start : Nat),
      (digits.foldlM (fun n c => (Text.hexValue? c).map (16 * n + ·)) start) = some n →
        n < (start + 1) * 16 ^ digits.length := by
    intro digits
    induction digits with
    | nil =>
      rintro start ⟨⟩
      rw [List.length_nil, Nat.pow_zero]
      omega
    | cons c digits ih =>
      intro start h
      rw [List.foldlM_cons] at h
      obtain ⟨next, hnext, hrest⟩ := Option.bind_eq_some_iff.1 h
      obtain ⟨value, hvalue, rfl⟩ := Option.map_eq_some_iff.1 hnext
      have hlt := hexValue?_lt hvalue
      calc n < (16 * start + value + 1) * 16 ^ digits.length := ih _ hrest
        _ ≤ ((start + 1) * 16) * 16 ^ digits.length := Nat.mul_le_mul_right _ (by omega)
        _ = (start + 1) * 16 ^ (c :: digits).length := by
          rw [List.length_cons, Nat.pow_succ', Nat.mul_assoc]
  have hlt := hfold digits 0 h
  rwa [Nat.zero_add, Nat.one_mul] at hlt

/-- A unit that is no surrogate is a character. -/
theorem isValidChar_of_isSurrogate {digits rest : List Char} {unit : Nat}
    (h : Json.UnitText digits unit) (hsurrogate : isSurrogate (digits ++ rest) = false) :
    unit.isValidChar := by
  have hlt := ofHex?_lt h.code
  rw [h.length] at hlt
  rw [isSurrogate, List.take_left' h.length, h.code] at hsurrogate
  simp only [Bool.and_eq_false_iff, decide_eq_false_iff_not] at hsurrogate
  rw [Nat.isValidChar]
  omega

/-- What is a text in quotes for JSON is one for YAML. -/
theorem quotedBody_of_shared {body chars rest : List Char} (h : Json.CharsText body chars)
    (hchars : (body ++ '"' :: rest).all isSharedChar = true)
    (hshared : sharedFrom .inside (body ++ '"' :: rest) = true) :
    QuotedBody body chars ∧ closing (body ++ '"' :: rest) = (body.length, rest) ∧
      sharedFrom .outside rest = true := by
  induction h with
  | nil => exact ⟨.nil, rfl, hshared⟩
  | @unit digits body chars unit hunit hlone h ih =>
    have hdigits := Text.ofHex?_inside hunit.code
    simp only [List.cons_append, List.append_assoc, List.all_cons, List.all_append,
      Bool.and_eq_true] at hchars ih
    simp only [List.cons_append, List.append_assoc] at hshared ⊢
    rw [sharedFrom, Bool.and_eq_true, Bool.not_eq_true', beq_self_eq_true, Bool.true_and,
      sharedFrom_inside_append hdigits] at hshared
    obtain ⟨hbody, hclosing, hrest⟩ := ih hchars.2.2.2 hshared.2
    refine ⟨.code hunit.length hunit.code (isValidChar_of_isSurrogate hunit hshared.1) hbody, ?_,
      hrest⟩
    rw [closing, closing_append hdigits, hclosing]
    simp only [List.length_cons, List.length_append, Prod.mk.injEq, and_true]
    omega
  | @pair digits digits' body chars high low hunit hhigh hunit' hlow h ih =>
    -- the first of the two units is a surrogate
    simp only [List.cons_append, List.append_assoc] at hshared
    rw [sharedFrom, Bool.and_eq_true, Bool.not_eq_true', beq_self_eq_true, Bool.true_and] at hshared
    have hvalid := isValidChar_of_isSurrogate hunit hshared.1
    rw [Nat.isValidChar] at hvalid
    simp only [Bool.and_eq_true, decide_eq_true_eq] at hhigh
    omega
  | @escape e c body chars hescape h ih =>
    simp only [List.cons_append, List.all_cons, Bool.and_eq_true] at hchars
    simp only [List.cons_append] at hshared ⊢
    rw [sharedFrom, Bool.and_eq_true] at hshared
    obtain ⟨hbody, hclosing, hrest⟩ := ih hchars.2.2 hshared.2
    refine ⟨.escape (escape?_of_simpleEscape? hescape) hbody, ?_, hrest⟩
    rw [closing, hclosing]
    rfl
  | @char c body chars hquote hslash hcontrol h ih =>
    simp only [List.cons_append, List.all_cons, Bool.and_eq_true] at hchars
    simp only [List.cons_append] at hshared ⊢
    rw [sharedFrom_inside_char hquote hslash] at hshared
    obtain ⟨hbody, hclosing, hrest⟩ := ih hchars.2 hshared
    refine ⟨.char (isQuotedWord_shared hchars.1 hquote hslash (Nat.not_lt.1 hcontrol)) hbody, ?_,
      hrest⟩
    rw [closing_char hquote hslash, hclosing]
    rfl

/-! ## Words -/

/-- Whether a text goes on with a word. -/
def startsWithWord : List Char → Bool
  | [] => false
  | c :: _ => isWordChar c

theorem takeWhile_word {word rest : List Char} (hword : word.all isWordChar = true)
    (hrest : startsWithWord rest = false) : (word ++ rest).takeWhile isWordChar = word := by
  rw [List.takeWhile_append_of_pos (List.all_eq_true.1 hword)]
  cases rest with
  | nil => exact List.append_nil word
  | cons c rest =>
    rw [List.takeWhile_cons_of_neg (Bool.not_eq_true _ ▸ hrest), List.append_nil]

/-- Outside of quotes. -/
theorem sharedFrom_cons (place : Place) (h : place ≠ .inside) (c : Char) (rest : List Char) :
    sharedFrom place (c :: rest) =
      if c == '"' then keyFits rest && sharedFrom .inside rest
      else if isWordChar c then
        (place == .word || isSharedWord ((c :: rest).takeWhile isWordChar)) && sharedFrom .word rest
      else sharedFrom .outside rest := by
  rw [sharedFrom]
  · exact fun hplace => absurd hplace h
  · exact fun _ _ hplace => absurd hplace h
  · exact h

theorem quote_of_isWordChar {c : Char} (h : isWordChar c = true) : (c == '"') = false := by
  rw [beq_eq_false_iff_ne]
  rintro rfl
  exact absurd h (by decide)

theorem sharedFrom_word {word rest : List Char} (hword : word.all isWordChar = true)
    (hrest : startsWithWord rest = false) :
    sharedFrom .word (word ++ rest) = sharedFrom .outside rest := by
  induction word with
  | nil =>
    cases rest with
    | nil => rfl
    | cons c rest =>
      have hc : isWordChar c = false := hrest
      rw [List.nil_append, sharedFrom_cons .word nofun, sharedFrom_cons .outside nofun, hc]
      rfl
  | cons c word ih =>
    rw [List.all_cons, Bool.and_eq_true] at hword
    rw [List.cons_append, sharedFrom_cons .word nofun, quote_of_isWordChar hword.1, hword.1,
      ← ih hword.2]
    rfl

/-- A word in front of what is no word. -/
theorem sharedFrom_append {word rest : List Char} (hne : word ≠ [])
    (hword : word.all isWordChar = true) (hrest : startsWithWord rest = false) :
    sharedFrom .outside (word ++ rest) = (isSharedWord word && sharedFrom .outside rest) := by
  obtain ⟨c, tail, rfl⟩ := List.exists_cons_of_ne_nil hne
  have hall := hword
  rw [List.all_cons, Bool.and_eq_true] at hword
  rw [List.cons_append, sharedFrom_cons .outside nofun, quote_of_isWordChar hword.1, hword.1,
    ← List.cons_append, takeWhile_word hall hrest, sharedFrom_word hword.2 hrest]
  rfl

theorem isSharedNumeral_start {start : List Char} (hstart : ∀ c ∈ start, isStartChar c = true) :
    isSharedNumeral start = (start.contains '.' || start.length ≤ maxDigits) := by
  have htake : start.takeWhile isStartChar = start := by
    have happend : (start ++ []).takeWhile isStartChar = start ++ [].takeWhile isStartChar :=
      List.takeWhile_append_of_pos hstart
    simpa using happend
  rw [isSharedNumeral, htake, List.drop_length]

/-- A power of ten is shared if it comes after a point and has a sign. -/
theorem isSharedNumeral_append {start power : List Char} {mark : Char}
    (hstart : ∀ c ∈ start, isStartChar c = true) (hmark : mark = 'e' ∨ mark = 'E') :
    isSharedNumeral (start ++ mark :: power) =
      (start.contains '.' && (power.head? == some '+' || power.head? == some '-')) := by
  have htake : (start ++ mark :: power).takeWhile isStartChar = start := by
    rw [List.takeWhile_append_of_pos hstart, List.takeWhile_cons_of_neg, List.append_nil]
    rcases hmark with rfl | rfl <;> decide
  have hmark' : (mark == 'e' || mark == 'E') = true := by
    rcases hmark with rfl | rfl <;> rfl
  rw [isSharedNumeral, htake, List.drop_left]
  dsimp only
  rw [hmark', Bool.true_and]

theorem isStartChar_digits {digits : List Char} (h : Digits digits) :
    ∀ c ∈ digits, isStartChar c = true := fun c hc => by
  rw [isStartChar, h.all c hc]
  rfl

theorem isStartChar_sign (negative : Bool) : ∀ c ∈ signText negative, isStartChar c = true := by
  cases negative with
  | true => exact List.forall_mem_singleton.2 rfl
  | false => nofun

theorem point_not_mem {whole : List Char} (h : Digits whole) (negative : Bool) :
    (signText negative ++ whole).contains '.' = false := by
  rw [← Bool.not_eq_true, List.contains_iff_mem, List.mem_append, not_or]
  refine ⟨by cases negative <;> decide, fun hmem => ?_⟩
  cases h.all '.' hmem

/-- A number of JSON is shared and has its value in YAML too; or it is too long; or it is a text in
YAML. -/
theorem number_cases {negative : Bool} {text : List Char} {v : Value}
    (h : Json.NumberText negative text v) :
    (isSharedNumeral (signText negative ++ text) = true ∧
      FlowScalar (signText negative ++ text) v) ∨
    (isSharedNumeral (signText negative ++ text) = false ∧
      ((signText negative ++ text).length ≤ maxDigits →
        FlowScalar (signText negative ++ text)
          (.str (String.ofList (signText negative ++ text))) ∧ ∃ x, v = .float x)) := by
  obtain @⟨whole, fraction, power, digits, exponent, hwhole, hfraction, hpower⟩ := h
  have hstart : ∀ c ∈ signText negative ++ whole, isStartChar c = true :=
    List.forall_mem_append.2 ⟨isStartChar_sign negative, isStartChar_digits hwhole.toDigits⟩
  cases hfraction with
  | absent =>
    have hpoint := point_not_mem hwhole.toDigits negative
    cases hpower with
    | absent =>
      rw [List.append_nil, List.append_nil, isSharedNumeral_start hstart, hpoint, Bool.false_or]
      by_cases hlength : (signText negative ++ whole).length ≤ maxDigits
      · rw [List.length_append] at hlength
        exact .inl ⟨by simpa using hlength, .int negative hwhole (by omega)⟩
      · exact .inr ⟨decide_eq_false hlength, fun hle => absurd hle hlength⟩
    | @power mark sign digits negative' hmark hsign h =>
      have hsign' : sign ∈ [[], ['+'], ['-']] := List.mem_map_of_mem (f := Prod.fst) hsign
      rw [List.nil_append, ← List.append_assoc, isSharedNumeral_append hstart hmark, hpoint,
        List.append_assoc]
      exact .inr ⟨rfl, fun _ => ⟨.loose negative hwhole ⟨.inl rfl, hmark, hsign', h, .inl rfl⟩,
        _, rfl⟩⟩
  | @point ds hds =>
    have hstart' : ∀ c ∈ signText negative ++ (whole ++ '.' :: ds), isStartChar c = true := by
      rw [← List.append_assoc]
      exact List.forall_mem_append.2
        ⟨hstart, List.forall_mem_cons.2 ⟨rfl, isStartChar_digits hds⟩⟩
    have hpoint : (signText negative ++ (whole ++ '.' :: ds)).contains '.' = true :=
      List.contains_iff_mem.2 (by simp)
    cases hpower with
    | absent =>
      have hfloat := FlowScalar.float negative hwhole hds .nil
      rw [List.append_nil] at hfloat ⊢
      rw [isSharedNumeral_start hstart', hpoint]
      exact .inl ⟨rfl, hfloat⟩
    | @power mark sign digits negative' hmark hsign h =>
      have hshape : signText negative ++ (whole ++ ('.' :: ds ++ mark :: (sign ++ digits))) =
          signText negative ++ (whole ++ '.' :: ds) ++ mark :: (sign ++ digits) := by simp
      rw [hshape, isSharedNumeral_append hstart' hmark, hpoint, Bool.true_and, ← hshape]
      simp only [Json.powerSigns, List.mem_cons, Prod.mk.injEq, List.not_mem_nil, or_false] at hsign
      rcases hsign with ⟨rfl, rfl⟩ | ⟨rfl, rfl⟩ | ⟨rfl, rfl⟩
      · -- The power has no sign.
        have hhead : (([] ++ digits).head? == some '+' || ([] ++ digits).head? == some '-') =
            false := by
          cases digits with
          | nil => exact absurd rfl h.nonempty
          | cons d digits =>
            exact of_isDigit (P := fun d => (some d == some '+' || some d == some '-') = false)
              (by decide) (h.all d List.mem_cons_self)
        rw [hhead]
        exact .inr ⟨rfl, fun _ => ⟨.loose negative hwhole
          ⟨.inr ⟨ds, rfl, hds⟩, hmark, List.mem_cons_self, h, .inr rfl⟩, _, rfl⟩⟩
      · exact .inl ⟨rfl, FlowScalar.float negative hwhole hds (.power hmark false h)⟩
      · exact .inl ⟨rfl, FlowScalar.float negative hwhole hds (.power hmark true h)⟩

/-- A numeral is none of the words that are not numerals. -/
theorem isSharedWord_numeral {negative : Bool} {text : List Char} {v : Value}
    (h : Json.NumberText negative text v) :
    isSharedWord (signText negative ++ text) = isSharedNumeral (signText negative ++ text) := by
  obtain ⟨d, more, rfl, hd⟩ := h.starts
  rw [isSharedWord, words_numeral hd negative (by decide), Bool.false_or]

/-- A shared word of JSON is one of YAML with the same value. -/
theorem flowScalar_of_word {word : List Char} {v : Value} (h : Json.WordText word v)
    (hshared : isSharedWord word = true) : FlowScalar word v := by
  cases h with
  | null => exact .null
  | yes => exact .yes
  | no => exact .no
  | nan => exact absurd hshared (by decide)
  | infinity negative => exact absurd hshared (by cases negative <;> decide)
  | number h =>
    rw [isSharedWord_numeral h] at hshared
    rcases number_cases h with ⟨-, hscalar⟩ | ⟨hnot, -⟩
    · exact hscalar
    · rw [hshared] at hnot
      cases hnot

theorem isWordChar_word {word : List Char} {v : Value} (h : Json.WordText word v) :
    word ≠ [] ∧ word.all isWordChar = true := by
  obtain ⟨c, rest, hword, -⟩ := h.starts
  exact ⟨by rw [hword]; nofun, h.all (by decide)⟩

/-! ## Parts of a shared text -/

theorem sharedFrom_gap {gap : List Char} (hgap : gap.all isLayout = true) (rest : List Char) :
    sharedFrom .outside (gap ++ rest) = sharedFrom .outside rest := by
  induction gap with
  | nil => rfl
  | cons c gap ih =>
    rw [List.all_cons, Bool.and_eq_true] at hgap
    have hc : (c == '"') = false ∧ isWordChar c = false := by
      rcases eq_of_isLayout hgap.1 with rfl | rfl | rfl <;> exact ⟨rfl, rfl⟩
    rw [List.cons_append, sharedFrom_cons .outside nofun, hc.1, hc.2, ← ih hgap.2]
    rfl

/-- What is left of a shared text at a place outside of quotes and words. -/
structure Outside (cs : List Char) : Prop where
  /-- All its characters may stand in a shared text. -/
  chars : cs.all isSharedChar = true
  /-- Its words, escapes and keys are shared. -/
  shared : sharedFrom .outside cs = true

/-- The signs of lists and maps. -/
def signs : List Char := ['[', ']', '\x7b', '\x7d', ',', ':']

namespace Outside

theorem of_append (text : List Char) {rest : List Char} (h : Outside (text ++ rest))
    (hrest : sharedFrom .outside rest = true) : Outside rest := by
  have hchars := h.chars
  rw [List.all_append, Bool.and_eq_true] at hchars
  exact ⟨hchars.2, hrest⟩

/-- Space in a shared text is layout. -/
theorem gap {gap rest : List Char} (h : Outside (gap ++ rest))
    (hgap : gap.all Json.isSpace = true) : gap.all isLayout = true ∧ Outside rest := by
  have hlayout : gap.all isLayout = true := by
    refine List.all_eq_true.2 fun c hc => ?_
    have hspace := List.all_eq_true.1 hgap c hc
    have hshared := List.all_eq_true.1 h.chars c (List.mem_append_left _ hc)
    simp only [Json.isSpace, Bool.or_eq_true, beq_iff_eq] at hspace
    rcases hspace with ((rfl | rfl) | rfl) | rfl
    · rfl
    · exact absurd hshared (by decide)
    · rfl
    · rfl
  have hshared := h.shared
  rw [sharedFrom_gap hlayout] at hshared
  exact ⟨hlayout, of_append gap h hshared⟩

theorem tail {c : Char} {rest : List Char} (h : Outside (c :: rest)) (hc : c ∈ signs) :
    Outside rest := by
  have hsign : (c == '"') = false ∧ isWordChar c = false := by
    simp only [signs, List.mem_cons, List.not_mem_nil, or_false] at hc
    rcases hc with rfl | rfl | rfl | rfl | rfl | rfl <;> exact ⟨rfl, rfl⟩
  have hshared := h.shared
  rw [sharedFrom_cons .outside nofun, hsign.1, hsign.2] at hshared
  exact of_append [c] h hshared

/-- A text in quotes is one of YAML, and if it is a key then it fits. -/
theorem quoted {body chars rest : List Char} (h : Outside ('"' :: (body ++ '"' :: rest)))
    (hbody : Json.CharsText body chars) :
    QuotedBody body chars ∧ closing (body ++ '"' :: rest) = (body.length, rest) ∧
      keyFits (body ++ '"' :: rest) = true ∧ Outside rest := by
  have hchars := h.chars
  rw [List.all_cons, Bool.and_eq_true] at hchars
  have hshared := h.shared
  rw [sharedFrom_cons .outside nofun, beq_self_eq_true, if_pos rfl, Bool.and_eq_true] at hshared
  obtain ⟨hquoted, hclosing, hrest⟩ := quotedBody_of_shared hbody hchars.2 hshared.2
  refine ⟨hquoted, hclosing, hshared.1, of_append ('"' :: (body ++ ['"'])) ?_ hrest⟩
  rw [List.cons_append, List.append_assoc]
  exact h

end Outside

/-- No word goes on where space is next. -/
theorem startsWithWord_gap {gap rest : List Char} (hgap : gap.all Json.isSpace = true)
    (hrest : startsWithWord rest = false) : startsWithWord (gap ++ rest) = false := by
  cases gap with
  | nil => exact hrest
  | cons c gap =>
    rw [List.all_cons, Bool.and_eq_true] at hgap
    have hc := hgap.1
    simp only [Json.isSpace, Bool.or_eq_true, beq_iff_eq] at hc
    rcases hc with ((rfl | rfl) | rfl) | rfl <;> rfl

theorem startsWithWord_sign {c : Char} (hc : c ∈ signs) (rest : List Char) :
    startsWithWord (c :: rest) = false := by
  simp only [signs, List.mem_cons, List.not_mem_nil, or_false] at hc
  rcases hc with rfl | rfl | rfl | rfl | rfl | rfl <;> rfl

/-- A key that fits stands in one line with its colon, and not too far from it. -/
theorem keyFits_gap {cs body gap rest : List Char} (hfits : keyFits cs = true)
    (hclosing : closing cs = (body.length, gap ++ ':' :: rest)) (hgap : gap.all isLayout = true) :
    gap.all (· == ' ') = true ∧ body.length + 2 + gap.length ≤ 1024 := by
  have hlayout : ∀ c ∈ gap, isLayout c = true := List.all_eq_true.1 hgap
  have htake : (gap ++ ':' :: rest).takeWhile isLayout = gap := by
    rw [List.takeWhile_append_of_pos hlayout, List.takeWhile_cons_of_neg (by decide),
      List.append_nil]
  have hdrop : (gap ++ ':' :: rest).dropWhile isLayout = ':' :: rest := by
    rw [List.dropWhile_append_of_pos hlayout, List.dropWhile_cons_of_neg (by decide)]
  rw [keyFits, hclosing] at hfits
  dsimp only at hfits
  rw [hdrop, htake] at hfits
  change (gap.all (· == ' ') && decide (body.length + 2 + gap.length ≤ 1024)) = true at hfits
  rw [Bool.and_eq_true, decide_eq_true_eq] at hfits
  exact hfits

/-! ## From one style to the other -/

/-- What has a text in one style has it in another, where the text is a part of a shared one. -/
def Transfers {α : Type} (P Q : List Char → α → Prop) : Prop :=
  ∀ {text rest a}, P text a → Outside (text ++ rest) → startsWithWord rest = false →
    Q text a ∧ Outside rest

section

variable {α : Type} {opening closing : Char} {P Q : List Char → α → Prop}

theorem transfers_parts (hclosing : closing ∈ signs) (hpart : Transfers P Q) {text rest : List Char}
    {as : List α} (h : Parts Json.isSpace closing P text as) (hout : Outside (text ++ rest)) :
    Parts isLayout closing Q text as ∧ Outside rest := by
  induction h with
  | @last text gap a h hgap =>
    rw [List.append_assoc, List.append_assoc, List.singleton_append] at hout
    obtain ⟨htext, hout⟩ :=
      hpart h hout (startsWithWord_gap hgap (startsWithWord_sign hclosing rest))
    obtain ⟨hlayout, hout⟩ := hout.gap hgap
    exact ⟨.last htext hlayout, hout.tail hclosing⟩
  | @more text gap gap' others a as h hgap hgap' hothers ih =>
    rw [List.append_assoc, List.append_assoc, List.cons_append, List.append_assoc] at hout
    have hcomma : ',' ∈ signs := by decide
    obtain ⟨htext, hout⟩ := hpart h hout (startsWithWord_gap hgap (startsWithWord_sign hcomma _))
    obtain ⟨hlayout, hout⟩ := hout.gap hgap
    obtain ⟨hlayout', hout⟩ := (hout.tail hcomma).gap hgap'
    obtain ⟨hparts, hout⟩ := ih hout
    exact ⟨.more htext hlayout hlayout' hparts, hout⟩

theorem transfers_bracketed (hopening : opening ∈ signs) (hclosing : closing ∈ signs)
    (hpart : Transfers P Q) {text rest : List Char} {as : List α}
    (h : Bracketed Json.isSpace opening closing P text as) (hout : Outside (text ++ rest)) :
    Bracketed isLayout opening closing Q text as ∧ Outside rest := by
  cases h with
  | nil hgap =>
    rw [List.cons_append, List.append_assoc, List.singleton_append] at hout
    obtain ⟨hlayout, hout⟩ := (hout.tail hopening).gap hgap
    exact ⟨.nil hlayout, hout.tail hclosing⟩
  | parts hgap h =>
    rw [List.cons_append, List.append_assoc] at hout
    obtain ⟨hlayout, hout⟩ := (hout.tail hopening).gap hgap
    obtain ⟨hparts, hout⟩ := transfers_parts hclosing hpart h hout
    exact ⟨.parts hlayout hparts, hout⟩

end

theorem transfers_entry {P Q : List Char → Value → Prop} (hvalue : Transfers P Q) :
    Transfers (Json.style.Entry P) (flowStyle.Entry Q) := by
  intro text rest e h hout hrest
  obtain @⟨_, gap', text, _, v, @⟨body, chars, gap, hbody, hgap⟩, hgap', h⟩ := h
  have hshape : '"' :: (body ++ '"' :: gap) ++ ':' :: (gap' ++ text) ++ rest =
      '"' :: (body ++ '"' :: (gap ++ ':' :: (gap' ++ (text ++ rest)))) := by simp
  rw [hshape] at hout
  obtain ⟨hquoted, hclosing, hfits, hout⟩ := hout.quoted hbody
  obtain ⟨hlayout, hout⟩ := hout.gap hgap
  obtain ⟨hspaces, hlength⟩ := keyFits_gap hfits hclosing hlayout
  obtain ⟨hlayout', hout⟩ := (hout.tail (by decide)).gap hgap'
  obtain ⟨htext, hout⟩ := hvalue h hout hrest
  exact ⟨.intro (.intro hquoted hspaces hlength) hlayout' htext, hout⟩

theorem transfers_text (depth : Nat) :
    Transfers (Json.style.Text depth) (flowStyle.Text depth) := by
  induction depth with
  | zero => exact nofun
  | succ depth ih =>
    intro text rest v h hout hrest
    cases h with
    | scalar h =>
      cases h with
      | word h =>
        obtain ⟨hne, hword⟩ := isWordChar_word h
        have hshared := hout.shared
        rw [sharedFrom_append hne hword hrest, Bool.and_eq_true] at hshared
        exact ⟨.scalar (flowScalar_of_word h hshared.1), .of_append text hout hshared.2⟩
      | quoted h =>
        rw [List.cons_append, List.append_assoc, List.singleton_append] at hout
        obtain ⟨hquoted, -, -, hout⟩ := hout.quoted h
        exact ⟨.scalar (.quoted hquoted), hout⟩
    | list h =>
      obtain ⟨hlist, hout⟩ := transfers_bracketed (by decide) (by decide) ih h hout
      exact ⟨.list hlist, hout⟩
    | map h =>
      obtain ⟨hmap, hout⟩ := transfers_bracketed (by decide) (by decide) (transfers_entry ih) h hout
      exact ⟨.map hmap, hout⟩

/-! ## Both formats -/

theorem readAs_json {yaml : Library} {text : String} {v : Value} (h : Json.read? text = some v) :
    readAs yaml true text = .ok v := by
  rw [readAs, if_pos rfl, h]
  rfl

theorem readAs_yaml {yaml : Library} {text : String} {v : Value} (h : yaml.load text = .ok v) :
    readAs yaml false text = .ok v := by
  rw [readAs, if_neg Bool.false_ne_true, h]
  rfl

/-- A shared text that is JSON has the same value as a YAML text. -/
theorem load_shared {yaml : Library} {depth : Nat} (hyaml : yaml.ReadsFlow depth) {text : String}
    {v : Value} (h : Json.read? text = some v) (hdepth : Json.nesting text < depth)
    (hshared : isShared text = true) : yaml.load text = .ok v := by
  rw [isShared, Bool.and_eq_true] at hshared
  obtain ⟨before, inner, after, htext, hbefore, hinner, hafter⟩ := Json.exists_text_of_read? h
  have hout : Outside (before ++ (inner ++ after)) := htext ▸ ⟨hshared.1, hshared.2⟩
  obtain ⟨hlayout, hout⟩ := hout.gap hbefore
  have hend : startsWithWord after = false := by
    rw [← List.append_nil after]
    exact startsWithWord_gap hafter rfl
  obtain ⟨hflow, hout⟩ := transfers_text _ hinner hout hend
  have hlayout' : after.all isLayout = true := by
    rw [← List.append_nil after] at hout
    exact (hout.gap hafter).1
  have hallowed : text.toList.all isAllowed = true := by
    refine List.all_eq_true.2 fun c hc => ?_
    have hc := List.all_eq_true.1 hshared.1 c hc
    rw [isSharedChar, Bool.and_eq_true] at hc
    exact hc.1
  exact hyaml.load_eq htext hallowed hlayout (hflow.of_le hdepth) hlayout'

/-! ## Numerals -/

/-- A text of the characters of numerals that is JSON is a number. -/
theorem exists_number {text : String} {v : Value} (h : Json.read? text = some v)
    (hchars : ∀ c ∈ text.toList, c ∈ numeralChars) :
    ∃ negative number, text.toList = signText negative ++ number ∧
      Json.NumberText negative number v := by
  obtain ⟨before, inner, after, htext, hbefore, hinner, hafter⟩ := Json.exists_text_of_read? h
  have hgap {gap : List Char} (hgap : gap.all Json.isSpace = true)
      (hmem : ∀ c ∈ gap, c ∈ text.toList) : gap = [] := by
    cases gap with
    | nil => rfl
    | cons c gap =>
      have hspaces : (numeralChars.all fun c => !Json.isSpace c) = true := by decide
      have hc := List.all_eq_true.1 hspaces c (hchars c (hmem c List.mem_cons_self))
      rw [List.all_cons, Bool.and_eq_true] at hgap
      rw [hgap.1] at hc
      cases hc
  obtain rfl := hgap hbefore fun c hc => by rw [htext]; exact List.mem_append_left _ hc
  obtain rfl := hgap hafter fun c hc => by
    rw [htext]
    exact List.mem_append_right _ (List.mem_append_right _ hc)
  rw [List.nil_append, List.append_nil] at htext
  rw [htext] at hchars ⊢
  have hnone {c : Char} (hc : c ∈ inner) (hc' : c ∉ numeralChars) : False := hc' (hchars c hc)
  cases hinner with
  | scalar h =>
    cases h with
    | word h =>
      cases h with
      | null => exact (hnone (c := 'n') (by simp) (by decide)).elim
      | yes => exact (hnone (c := 't') (by simp) (by decide)).elim
      | no => exact (hnone (c := 'f') (by simp) (by decide)).elim
      | nan => exact (hnone (c := 'N') (by simp) (by decide)).elim
      | infinity => exact (hnone (c := 'I') (by simp) (by decide)).elim
      | @number negative number _ h => exact ⟨negative, number, rfl, h⟩
    | quoted => exact (hnone (c := '"') (by simp) (by decide)).elim
  | list hlist => cases hlist <;> exact (hnone (c := '[') (by simp) (by decide)).elim
  | map hmap => cases hmap <;> exact (hnone (c := '\x7b') (by simp) (by decide)).elim

/-- A numeral that is not shared is a text for YAML. -/
theorem load_numeral {yaml : Library} {depth : Nat} (hyaml : yaml.ReadsFlow depth) {text : String}
    {v : Value} (h : Json.read? text = some v) (hdepth : 0 < depth)
    (hchars : ∀ c ∈ text.toList, c ∈ numeralChars) (hlength : text.toList.length ≤ maxDigits)
    (hshared : isShared text = false) : yaml.load text = .ok (.str text) ∧ ∃ x, v = .float x := by
  obtain ⟨negative, number, htext, hnumber⟩ := exists_number h hchars
  have hnumeral : isSharedNumeral (signText negative ++ number) = false := by
    have hall : numeralChars.all isSharedChar = true := by decide
    have hchars' : text.toList.all isSharedChar = true :=
      List.all_eq_true.2 fun c hc => List.all_eq_true.1 hall c (hchars c hc)
    obtain ⟨hne, hword⟩ := isWordChar_word (.number hnumber)
    have hwhole := sharedFrom_append hne hword (rfl : startsWithWord [] = false)
    rw [List.append_nil, isSharedWord_numeral hnumber, sharedFrom, Bool.and_true] at hwhole
    rwa [isShared, hchars', Bool.true_and, htext, hwhole] at hshared
  rcases number_cases hnumber with ⟨hyes, -⟩ | ⟨-, hloose⟩
  · rw [hnumeral] at hyes
    cases hyes
  · obtain ⟨hscalar, hfloat⟩ := hloose (htext ▸ hlength)
    have hallowed : text.toList.all isAllowed = true := by
      have hall : numeralChars.all isAllowed = true := by decide
      exact List.all_eq_true.2 fun c hc => List.all_eq_true.1 hall c (hchars c hc)
    have hflow : flowStyle.Text 1 text.toList (.str text) := by
      rw [← htext, String.ofList_toList] at hscalar
      exact .scalar hscalar
    have htext' : text.toList = [] ++ (text.toList ++ []) := by simp
    exact ⟨hyaml.load_eq htext' hallowed rfl (hflow.of_le hdepth) rfl, hfloat⟩

/-- Let a text be JSON, and let a library read flow texts that are as deep as it. If the text is
shared, then it means the same whichever format is named or detected. If it is a numeral of no more
digits than an integer may have, then it means the same in both formats only if it is shared. -/
theorem read_shared {yaml : Library} {depth : Nat} (hyaml : yaml.ReadsFlow depth) {text : String}
    {v : Value} (h : Json.read? text = some v) (hdepth : Json.nesting text < depth) :
    (isShared text = true → (∀ asJson, readAs yaml asJson text = .ok v) ∧
      ∀ format, readNamed yaml format text = .ok v) ∧
    (text.toList.all numeralChars.contains = true → text.toList.length ≤ maxDigits →
      (readNamed yaml (.str "yaml") text = readNamed yaml (.str "json") text ↔
        isShared text = true)) := by
  have hshared (hshared : isShared text = true) : (∀ asJson, readAs yaml asJson text = .ok v) ∧
      ∀ format, readNamed yaml format text = .ok v := by
    have hboth (asJson : Bool) : readAs yaml asJson text = .ok v := by
      cases asJson with
      | true => exact readAs_json h
      | false => exact readAs_yaml (load_shared hyaml h hdepth hshared)
    refine ⟨hboth, fun format => ?_⟩
    rw [readNamed]
    split
    · exact hboth _
    · exact hboth _
  refine ⟨hshared, fun hchars hlength => ⟨fun hsame => ?_, fun h => ?_⟩⟩
  · rw [← Bool.not_eq_false]
    intro hnot
    have hnumeral (c : Char) (hc : c ∈ text.toList) : c ∈ numeralChars :=
      List.contains_iff_mem.1 (List.all_eq_true.1 hchars c hc)
    obtain ⟨hload, x, rfl⟩ := load_numeral hyaml h (by omega) hnumeral hlength hnot
    have hyamlRead : readNamed yaml (.str "yaml") text = .ok (.str text) := readAs_yaml hload
    have hjsonRead : readNamed yaml (.str "json") text = .ok (.float x) := readAs_json h
    rw [hyamlRead, hjsonRead] at hsame
    cases hsame
  · rw [(hshared h).2, (hshared h).2]

/-- A text with a number, an escape, a key that is given twice and lines of its own. -/
def nestedText : String :=
  "\n\x7b\"a b\" : [1, -0.0e+7, \"\\u00e9\\n\", null],\n \"k\": \x7b\"t\": true, \"t\": [ ]\x7d\x7d"

/-- What the text means. -/
def nestedValue : Value :=
  .map [(.str "a b", .list [.int 1, .float (.finite true 0 (-1074)), .str "é\n", .null]),
    (.str "k", .map [(.str "t", .list [])])]

/-- Neither the key that is given twice nor the zero with a sign makes a difference, while a power
of ten without a point does. -/
theorem read_shared_nestedText :
    Json.read? nestedText = some nestedValue ∧ isShared nestedText = true ∧
      readNamed .bundled (.str "yaml") nestedText = .ok nestedValue ∧
      readNamed .bundled (.str "json") nestedText = .ok nestedValue ∧
      Json.read? "1e3" = some (.float (.ofParts false [1] [] 3)) ∧ isShared "1e3" = false ∧
      readNamed .bundled (.str "yaml") "1e3" ≠ readNamed .bundled (.str "json") "1e3" := by
  have hread : Json.read? nestedText = some nestedValue := by cbv
  have hnesting : Json.nesting nestedText < 4 := by decide +kernel
  have hshared : isShared nestedText = true := by decide +kernel
  have hboth := ((read_shared (bundled_readsFlow 4) hread hnesting).1 hshared).2
  have hread' : Json.read? "1e3" = some (.float (.ofParts false [1] [] 3)) := rfl
  have hnot : isShared "1e3" = false := by decide +kernel
  have hiff := (read_shared (bundled_readsFlow 1) hread' (by decide +kernel)).2
    (by decide +kernel) (by decide +kernel)
  refine ⟨hread, hshared, hboth _, hboth _, hread', hnot, fun hsame => ?_⟩
  rw [hiff.1 hsame] at hnot
  cases hnot

end TreeScript.Document
