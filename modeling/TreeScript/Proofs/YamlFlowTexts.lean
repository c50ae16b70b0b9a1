import Mathlib
import TreeScript.Proofs.FlowStyle
import TreeScript.Proofs.YamlFlow
import TreeScript.Proofs.YamlScanning
import TreeScript.Proofs.YamlWords
import TreeScript.Yaml.Bundled

/-!
# The texts of YAML between brackets

YAML between brackets as a flow style (`Yaml.flowStyle`), as far as JSON has texts of the same form:
words and numerals, texts in double quotes that are on one line, and keys in double quotes in front
of their colon. A library reads flow texts up to a depth (`Yaml.Library.ReadsFlow`) if a text that
is one of them, with layout around it, has its value. How deep a library goes is up to its stack.
The bundled one goes as deep as one likes (`Yaml.bundled_readsFlow`): each part of a text is
scanned, put together and given a value wherever it stands (`Yaml.Carries`).
-/

namespace TreeScript.Yaml

open TreeScript.Yaml.Lex TreeScript.Yaml.Scan

/-! ## Flow texts -/

/-- The largest number of digits that an integer may be written with. -/
def maxDigits : Nat := 4300

/-- A value without parts. -/
inductive FlowScalar : List Char → Value → Prop where
  | null : FlowScalar ['n', 'u', 'l', 'l'] .null
  | yes : FlowScalar ['t', 'r', 'u', 'e'] (.bool true)
  | no : FlowScalar ['f', 'a', 'l', 's', 'e'] (.bool false)
  | int {whole : List Char} (negative : Bool) (h : Whole whole)
    (hlength : whole.length ≤ maxDigits) :
    FlowScalar (signText negative ++ whole)
      (.int (if negative then -(ofDigits (digitValues whole) : Int)
        else ofDigits (digitValues whole)))
  | float {whole fraction exponent : List Char} {power : Int} (negative : Bool)
    (hwhole : Whole whole) (hfraction : Digits fraction) (hexponent : Exponent exponent power) :
    FlowScalar (signText negative ++ (whole ++ '.' :: (fraction ++ exponent)))
      (.float (.ofParts negative (digitValues whole) (digitValues fraction) power))
  -- A power of ten that lacks its point or its sign makes the word a text.
  | loose {whole fraction sign digits : List Char} {mark : Char} (negative : Bool)
    (hwhole : Whole whole) (h : LoosePower fraction mark sign digits) :
    FlowScalar (signText negative ++ (whole ++ (fraction ++ mark :: (sign ++ digits))))
      (.str (String.ofList
        (signText negative ++ (whole ++ (fraction ++ mark :: (sign ++ digits))))))
  | quoted {body chars : List Char} (h : QuotedBody body chars) :
    FlowScalar ('"' :: (body ++ ['"'])) (.str (String.ofList chars))

/-- A key in one line with its colon, and not too far from it. -/
inductive FlowKey : List Char → String → Prop where
  | intro {body chars spaces : List Char} (h : QuotedBody body chars)
    (hspaces : spaces.all (· == ' ') = true) (hlength : body.length + 2 + spaces.length ≤ 1024) :
    FlowKey ('"' :: (body ++ '"' :: spaces)) (String.ofList chars)

/-- YAML between brackets. -/
def flowStyle : FlowStyle where
  isGap := isLayout
  Scalar := FlowScalar
  Key := FlowKey

/-- A library reads the flow texts up to a depth. -/
structure Library.ReadsFlow (yaml : Library) (depth : Nat) : Prop where
  load_eq : ∀ {text : String} {before inner after : List Char} {v : Value},
    text.toList = before ++ (inner ++ after) → text.toList.all isAllowed = true →
    before.all isLayout = true → flowStyle.Text depth inner v → after.all isLayout = true →
    yaml.load text = .ok v

/-! ## What YAML makes of a text -/

/-- YAML gives a text a value, wherever it stands. -/
def Carries (text : List Char) (v : Value) : Prop :=
  ∃ tokens n, Scanned text tokens ∧ Parses tokens n ∧ n.plainValue? = some v

/-! ## Words -/

/-- The value of a word for YAML. -/
def wordValue? (word : List Char) : Option Value :=
  (readScalar (Tag.ofPlain (String.ofList word)) (String.ofList word)).toOption

/-- The value of a word with the tag of truth values. -/
theorem wordValue?_bool {word : List Char} {text : String}
    (htag : Tag.ofPlain (String.ofList word) = .bool)
    (hlower : Text.lowered (String.ofList word) = text) :
    wordValue? word =
      (if ["yes", "true", "on"].contains text then pure (.bool true)
      else if ["no", "false", "off"].contains text then pure (.bool false)
      else throw (.truthWord text) : Outcome Value).toOption := by
  rw [wordValue?, htag, readScalar, readBool, hlower]

theorem wordValue?_true : wordValue? ['t', 'r', 'u', 'e'] = some (.bool true) := by
  rw [wordValue?_bool (by decide +kernel) (Text.lowered_of_isLower (by decide))]
  rfl

theorem wordValue?_false : wordValue? ['f', 'a', 'l', 's', 'e'] = some (.bool false) := by
  rw [wordValue?_bool (by decide +kernel) (Text.lowered_of_isLower (by decide))]
  rfl

namespace Carries

theorem word {word : List Char} {v : Value} (hstart : startsWord word = true)
    (hword : word.all isPlainWord = true) (hvalue : wordValue? word = some v) : Carries word v :=
  ⟨_, _, Scanned.word hstart hword, .scalar (String.ofList word) true, hvalue⟩

/-- A word of the characters of numerals that starts with a digit, maybe after a minus. -/
theorem numeral {negative : Bool} {cs : List Char} {v : Value}
    (hdigit : ∃ c ∈ cs.head?, c.isDigit = true) (hchars : ∀ c ∈ cs, c ∈ numeralChars)
    (hvalue : wordValue? (signText negative ++ cs) = some v) :
    Carries (signText negative ++ cs) v := by
  obtain ⟨c, hhead, hc⟩ := hdigit
  cases cs with
  | nil => cases hhead
  | cons d cs =>
    obtain rfl : d = c := Option.some.inj hhead
    have hplain : numeralChars.all isPlainWord = true := by decide
    have hletter : d.isAlphanum = true := by
      rw [Char.isAlphanum, hc, Bool.or_true]
    refine .word ?_ (List.all_eq_true.2 fun ch hch =>
      List.all_eq_true.1 hplain ch (mem_signed hchars negative ch hch)) hvalue
    cases negative with
    | true => exact hletter
    | false =>
      show startsWord (d :: cs) = true
      rw [startsWord]
      · exact hletter
      · rintro _ _ rfl
        cases hc

theorem quoted {body chars : List Char} (h : QuotedBody body chars) :
    Carries ('"' :: (body ++ ['"'])) (.str (String.ofList chars)) :=
  ⟨_, _, Scanned.quoted h, .scalar (String.ofList chars) false, rfl⟩

end Carries

theorem FlowScalar.carries {text : List Char} {v : Value} (h : FlowScalar text v) :
    Carries text v := by
  cases h with
  | null => exact .word rfl rfl rfl
  | yes => exact .word rfl rfl wordValue?_true
  | no => exact .word rfl rfl wordValue?_false
  | @int whole negative h hlength =>
    obtain ⟨htag, hread⟩ := plain_int h negative
    refine .numeral (by simpa using h.starts []) h.mem ?_
    rw [wordValue?, htag]
    show (readInt _).toOption = _
    rw [hread]
    rfl
  | @float whole fraction exponent power negative hwhole hfraction hexponent =>
    obtain ⟨htag, hread⟩ := plain_float hwhole.toDigits hfraction hexponent negative
    refine .numeral (hwhole.starts _) (mem_numeral hwhole.toDigits hfraction hexponent.mem) ?_
    rw [wordValue?, htag]
    show (readFloat _).toOption = _
    rw [hread]
    rfl
  | loose negative hwhole h =>
    refine .numeral (hwhole.starts _) (List.forall_mem_append.2 ⟨hwhole.mem, h.mem⟩) ?_
    rw [wordValue?, plain_text hwhole h]
    rfl
  | quoted h => exact .quoted h

/-! ## Collections -/

section

open FlowStyle (Parts Bracketed)

variable {α β : Type} (K : PartsParser α) (values? : List α → Option (List β))
  {P : List Char → β → Prop} {opening closing : Char} {text : List Char} {bs : List β}

/-- YAML gives the parts of a collection up to its closing bracket their values. -/
def CarriesParts (text : List Char) (bs : List β) : Prop :=
  ∃ tokens as, ScannedTail text tokens ∧ K.ParsesAll tokens as ∧ values? as = some bs

/-- YAML gives a part of a collection its value, before those of the parts after it. -/
def CarriesPart (text : List Char) (b : β) : Prop :=
  ∃ tokens a, ScannedPart text tokens ∧ K.Part tokens a ∧
    ∀ {as bs}, values? as = some bs → values? (a :: as) = some (b :: bs)

theorem carries_parts (hnil : values? [] = some []) (hclosing : (closing, K.closing) ∈ closings)
    (hP : ∀ {text b}, P text b → CarriesPart K values? text b)
    (h : Parts isLayout closing P text bs) : CarriesParts K values? text bs := by
  induction h with
  | @last text gap b h hgap =>
    obtain ⟨tokens, a, hscan, hpart, hvalue⟩ := hP h
    exact ⟨_, _, ScannedTail.last hscan hgap hclosing, .last hpart, hvalue hnil⟩
  | @more text gap gap' others b bs h hgap hgap' hothers ih =>
    obtain ⟨tokens, a, hscan, hpart, hvalue⟩ := hP h
    obtain ⟨tokens', as, hscan', hparts, hvalues⟩ := ih
    exact ⟨_, _, ScannedTail.more hscan hgap hgap' hscan', .more hpart hparts, hvalue hvalues⟩

theorem carries_bracketed (hnil : values? [] = some []) (hclosing : (closing, K.closing) ∈ closings)
    (hP : ∀ {text b}, P text b → CarriesPart K values? text b)
    (h : Bracketed isLayout opening closing P text bs) :
    ∃ inner, text = opening :: inner ∧ CarriesParts K values? inner bs := by
  cases h with
  | nil hgap => exact ⟨_, rfl, _, _, ScannedTail.nil hgap hclosing, .nil, hnil⟩
  | parts hgap h =>
    obtain ⟨tokens, as, hscan, hparts, hvalues⟩ := carries_parts K values? hnil hclosing hP h
    exact ⟨_, rfl, tokens, as, ScannedTail.after_gap hgap hscan, hparts, hvalues⟩

end

section

open FlowStyle (Bracketed)

variable {P : List Char → Value → Prop} {text : List Char}

theorem Carries.item {v : Value} (h : Carries text v) :
    CarriesPart listItems plainItems? text v := by
  obtain ⟨tokens, n, hscan, hparse, hvalue⟩ := h
  refine ⟨tokens, n, ScannedPart.of_scanned hscan, hparse, fun {ns vs} hvalues => ?_⟩
  rw [plainItems?, hvalue, hvalues]
  rfl

theorem carries_list {vs : List Value} (hP : ∀ {text v}, P text v → Carries text v)
    (h : Bracketed isLayout '[' ']' P text vs) : Carries text (.list vs) := by
  obtain ⟨inner, rfl, tokens, ns, hscan, hparse, hvalues⟩ :=
    carries_bracketed listItems plainItems? rfl List.mem_cons_self (fun h => (hP h).item) h
  refine ⟨_, _, Scanned.bracketed List.mem_cons_self hscan, .list hparse, ?_⟩
  rw [Node.plainValue?, if_pos rfl, hvalues]
  rfl

theorem carries_entry {e : Value × Value} (hP : ∀ {text v}, P text v → Carries text v)
    (h : flowStyle.Entry P text e) : CarriesPart mapEntries plainEntries? text e := by
  obtain @⟨_, gap, text, _, v, @⟨body, chars, spaces, hbody, hspaces, hlength⟩, hgap, h⟩ := h
  obtain ⟨tokens, n, hscan, hparse, hvalue⟩ := hP h
  have hshape : '"' :: (body ++ '"' :: spaces) ++ ':' :: (gap ++ text) =
      '"' :: (body ++ '"' :: (spaces ++ ':' :: (gap ++ text))) := by simp
  rw [hshape]
  refine ⟨_, _, ScannedPart.entry hbody hspaces hlength hgap hscan, .intro _ hparse,
    fun {ns es} hvalues => ?_⟩
  rw [plainEntries?, hvalue, hvalues]
  rfl

theorem carries_map {es : List (Value × Value)} (hP : ∀ {text v}, P text v → Carries text v)
    (h : Bracketed isLayout '\x7b' '\x7d' (flowStyle.Entry P) text es) :
    Carries text (.map (Bindings.ofPairs es)) := by
  obtain ⟨inner, rfl, tokens, ns, hscan, hparse, hvalues⟩ :=
    carries_bracketed mapEntries plainEntries? rfl (List.mem_cons_of_mem _ List.mem_cons_self)
      (carries_entry hP) h
  refine ⟨_, _, Scanned.bracketed (List.mem_cons_of_mem _ List.mem_cons_self) hscan, .map hparse,
    ?_⟩
  rw [Node.plainValue?, if_pos rfl, hvalues]
  rfl

end

/-! ## The bundled library -/

theorem carries_text {depth : Nat} {text : List Char} {v : Value}
    (h : flowStyle.Text depth text v) : Carries text v := by
  induction depth generalizing text v with
  | zero => cases h
  | succ depth ih =>
    cases h with
    | scalar h => exact FlowScalar.carries h
    | list h => exact carries_list ih h
    | map h => exact carries_map ih h

/-- The bundled library reads flow texts of any depth. -/
theorem bundled_readsFlow (depth : Nat) : Library.bundled.ReadsFlow depth where
  load_eq {text before inner after v} htext hallowed hbefore hinner hafter := by
    obtain ⟨tokens, n, hscan, hparse, hplain⟩ := carries_text hinner
    have htokens := hscan.scan htext hallowed hbefore hafter
    exact read_of_plainValue? (hparse.read htokens) hplain

end TreeScript.Yaml
