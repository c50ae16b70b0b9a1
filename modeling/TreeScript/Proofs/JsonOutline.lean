import TreeScript.Model.Answer
import TreeScript.Proofs.JsonRoundTrip

/-!
# What the bracket scan sees of a JSON text

The bracket scan looks for the first bracket and follows the text to where the brackets are
balanced, without reading what is between them. It passes over the text of everything inside it
(`Model.Passed`): a word has neither quotes nor brackets, a string is left where it was entered, and
brackets around what is passed over are passed over themselves.

In a string the scan has to tell a quote that ends it from one that does not. It takes what follows
a backslash for an ordinary character, and this is in step with the escapes of JSON: an escape is a
backslash and a letter, maybe with hexadecimal digits after it (`Model.Inside`).

So the scan sees less of a text than the reader of JSON, but enough: the text of a value is a word
without quotes and brackets, a text in quotes, or brackets around what the scan passes over
(`Json.Outline`, `Json.exists_outline_of_read?`).
-/

namespace TreeScript

namespace Model

/-! ## Inside of quotes -/

/-- The scan goes from one place between quotes to another, over a text that has been passed. -/
def Inside (cs : List Char) : Prop :=
  ∀ expected rest, balancedFrom expected .inside (cs ++ rest) =
    (balancedFrom expected .inside rest).map (cs ++ ·)

namespace Inside

theorem nil : Inside [] := by
  intro expected rest
  simp

theorem append {cs ds : List Char} (hcs : Inside cs) (hds : Inside ds) : Inside (cs ++ ds) := by
  intro expected rest
  rw [List.append_assoc, hcs, hds, Option.map_map]
  simp [Function.comp_def]

theorem cons {c : Char} {cs : List Char} (hquote : c ≠ '"') (hslash : c ≠ '\\') (hcs : Inside cs) :
    Inside (c :: cs) := by
  intro expected rest
  rw [List.cons_append, balancedFrom]
  simp only [beq_iff_eq, if_neg hquote, if_neg hslash]
  rw [hcs, Option.map_map]
  rfl

/-- Whatever follows a backslash does not end the string. -/
theorem escape (e : Char) {cs : List Char} (hcs : Inside cs) : Inside ('\\' :: e :: cs) := by
  intro expected rest
  rw [List.cons_append, List.cons_append, balancedFrom]
  simp only [beq_self_eq_true, if_true]
  rw [balancedFrom, hcs, Option.map_map, Option.map_map]
  rfl

theorem of_forall {cs : List Char} (h : ∀ c ∈ cs, c ≠ '"' ∧ c ≠ '\\') : Inside cs := by
  induction cs with
  | nil => exact nil
  | cons c cs ih =>
    obtain ⟨⟨hquote, hslash⟩, hrest⟩ := List.forall_mem_cons.1 h
    exact cons hquote hslash (ih hrest)

end Inside

/-! ## Between brackets -/

/-- The scan passes over a text that stands between brackets, and is again where it was. -/
def Passed (cs : List Char) : Prop :=
  ∀ closing expected rest, balancedFrom (closing :: expected) .outside (cs ++ rest) =
    (balancedFrom (closing :: expected) .outside rest).map (cs ++ ·)

/-- Whether a character means nothing to the scan outside of quotes. -/
def isIdle (c : Char) : Bool := !(c == '"' || isOpening c || isClosing c)

namespace Passed

theorem nil : Passed [] := by
  intro closing expected rest
  simp

theorem append {cs ds : List Char} (hcs : Passed cs) (hds : Passed ds) : Passed (cs ++ ds) := by
  intro closing expected rest
  rw [List.append_assoc, hcs, hds, Option.map_map]
  simp [Function.comp_def]

theorem cons {c : Char} {cs : List Char} (hc : isIdle c = true) (hcs : Passed cs) :
    Passed (c :: cs) := by
  intro closing expected rest
  simp only [isIdle, Bool.not_eq_true', Bool.or_eq_false_iff] at hc
  obtain ⟨⟨hquote, hopening⟩, hclosing⟩ := hc
  rw [List.cons_append, balancedFrom]
  simp only [hquote, hopening, hclosing, Bool.false_eq_true, if_false]
  rw [hcs, Option.map_map]
  rfl

theorem of_all {cs : List Char} (h : cs.all isIdle = true) : Passed cs := by
  induction cs with
  | nil => exact nil
  | cons c cs ih =>
    rw [List.all_cons, Bool.and_eq_true] at h
    exact cons h.1 (ih h.2)

/-- A string is passed over from its opening quote to its closing one. -/
theorem quoted {cs : List Char} (hcs : Inside cs) : Passed ('"' :: (cs ++ ['"'])) := by
  intro closing expected rest
  rw [List.cons_append, List.append_assoc, List.singleton_append, balancedFrom]
  simp only [beq_self_eq_true, if_true]
  rw [hcs, balancedFrom]
  simp [Function.comp_def]

end Passed

/-- The scan goes on between brackets after an opening one. -/
theorem balancedFrom_opening {c : Char} (hc : isOpening c = true) (expected rest : List Char) :
    balancedFrom expected .outside (c :: rest) =
      (balancedFrom (closingOf c :: expected) .outside rest).map (c :: ·) := by
  have hquote : c ≠ '"' := by
    rintro rfl
    exact absurd hc (by decide)
  rw [balancedFrom.eq_def]
  simp [hquote, hc]

/-- The bracket that closes the last open one ends the scan. -/
theorem balancedFrom_last {c : Char} (hc : isOpening c = true) (rest : List Char) :
    balancedFrom [closingOf c] .outside (closingOf c :: rest) = some [closingOf c] := by
  have hcases : c = '\x7b' ∨ c = '[' := by simpa [isOpening] using hc
  rcases hcases with rfl | rfl <;> rfl

/-- A bracket that closes an inner one is passed. -/
theorem balancedFrom_closing {c : Char} (hc : isOpening c = true) (closing : Char)
    (expected rest : List Char) :
    balancedFrom (closingOf c :: closing :: expected) .outside (closingOf c :: rest) =
      (balancedFrom (closing :: expected) .outside rest).map (closingOf c :: ·) := by
  have hcases : c = '\x7b' ∨ c = '[' := by simpa [isOpening] using hc
  rcases hcases with rfl | rfl <;> rfl

/-- Brackets around what is passed over are passed over where they stand between others. -/
theorem Passed.bracketed {c : Char} (hc : isOpening c = true) {cs : List Char} (hcs : Passed cs) :
    Passed (c :: (cs ++ [closingOf c])) := by
  intro closing expected rest
  rw [List.cons_append, List.append_assoc, List.singleton_append, balancedFrom_opening hc, hcs,
    balancedFrom_closing hc]
  simp [Function.comp_def]

/-- Where no bracket is open they are what the scan finds. -/
theorem balancedFrom_bracketed {c : Char} (hc : isOpening c = true) {cs : List Char}
    (hcs : Passed cs) (rest : List Char) :
    balancedFrom [] .outside (c :: (cs ++ closingOf c :: rest)) =
      some (c :: (cs ++ [closingOf c])) := by
  rw [balancedFrom_opening hc, hcs, balancedFrom_last hc]
  rfl

end Model

/-- Whether a value is written as a word, with neither quotes nor brackets. -/
def Value.isWord : Value → Bool
  | .null | .bool _ | .int _ | .float _ => true
  | _ => false

namespace Json

open FlowStyle (Parts Bracketed)
open Model (Inside Passed isIdle isOpening isClosing closingOf)

/-- What the text of a value is for the bracket scan. -/
inductive Outline : List Char → Value → Prop where
  | word {text : List Char} {v : Value} (hidle : text.all isIdle = true) (hv : v.isWord = true) :
    Outline text v
  | quoted {body : List Char} (hbody : Inside body) (s : String) :
    Outline ('"' :: (body ++ ['"'])) (.str s)
  | bracketed {c : Char} {inner : List Char} {v : Value} (hc : isOpening c = true)
    (hinner : Passed inner) (hv : v.isContainer = true) : Outline (c :: (inner ++ [closingOf c])) v

theorem Outline.passed {text : List Char} {v : Value} (h : Outline text v) : Passed text := by
  cases h with
  | word hidle hv => exact .of_all hidle
  | quoted hbody s => exact .quoted hbody
  | bracketed hc hinner hv => exact hinner.bracketed hc

/-- The text of a list or a map is between brackets. -/
theorem Outline.exists_brackets {text : List Char} {v : Value} (h : Outline text v)
    (hv : v.isContainer = true) :
    ∃ c inner, isOpening c = true ∧ text = c :: (inner ++ [closingOf c]) ∧ Passed inner := by
  cases h with
  | word hidle hword =>
    cases v with
    | list | map => cases hword
    | _ => cases hv
  | quoted hbody s => cases hv
  | @bracketed c inner _ hc hinner _ => exact ⟨c, inner, hc, rfl, hinner⟩

/-! ## Words and strings -/

theorem WordText.outline {text : List Char} {v : Value} (h : WordText text v) :
    Outline text v := by
  refine .word (h.all (by decide)) ?_
  cases h with
  | null | yes | no | nan | infinity => rfl
  | number h =>
    obtain ⟨hwhole, hfraction, hpower⟩ := h
    unfold numeral
    split <;> rfl

theorem CharsText.inside {body chars : List Char} (h : CharsText body chars) : Inside body := by
  induction h with
  | nil => exact .nil
  | unit hunit _ _ ih =>
    exact .escape 'u' ((Inside.of_forall (Text.ofHex?_inside hunit.code)).append ih)
  | pair hunit _ hunit' _ _ ih =>
    exact .escape 'u' ((Inside.of_forall (Text.ofHex?_inside hunit.code)).append
      (.escape 'u' ((Inside.of_forall (Text.ofHex?_inside hunit'.code)).append ih)))
  | @escape e _ _ _ _ _ ih => exact .escape e ih
  | char hquote hslash _ _ ih => exact .cons hquote hslash ih

/-! ## Collections -/

theorem passed_gap {gap : List Char} (h : gap.all isSpace = true) : Passed gap := by
  refine .of_all (List.all_eq_true.2 fun c hc => ?_)
  have hspace := List.all_eq_true.1 h c hc
  simp only [isSpace, Bool.or_eq_true, beq_iff_eq] at hspace
  rcases hspace with ((rfl | rfl) | rfl) | rfl <;> rfl

section

variable {α : Type} {opening closing : Char} {P : List Char → α → Prop} {text : List Char}
  {as : List α}

/-- The scan passes over the parts of a collection if it passes over each of them. -/
theorem passed_parts (hP : ∀ {text a}, P text a → Passed text)
    (h : Parts isSpace closing P text as) : ∃ inner, text = inner ++ [closing] ∧ Passed inner := by
  induction h with
  | @last text gap a h hgap => exact ⟨text ++ gap, by simp, (hP h).append (passed_gap hgap)⟩
  | @more text gap gap' others a as h hgap hgap' hothers ih =>
    obtain ⟨inner, rfl, hinner⟩ := ih
    refine ⟨text ++ (gap ++ ',' :: (gap' ++ inner)), by simp, ?_⟩
    exact (hP h).append ((passed_gap hgap).append (.cons rfl ((passed_gap hgap').append hinner)))

theorem outline_bracketed (hP : ∀ {text a}, P text a → Passed text)
    (h : Bracketed isSpace opening (closingOf opening) P text as)
    (hopening : isOpening opening = true) {v : Value} (hv : v.isContainer = true) :
    Outline text v := by
  cases h with
  | nil hgap => exact .bracketed hopening (passed_gap hgap) hv
  | parts hgap h =>
    obtain ⟨inner, rfl, hinner⟩ := passed_parts hP h
    rw [← List.append_assoc]
    exact .bracketed hopening ((passed_gap hgap).append hinner) hv

end

theorem passed_entry {P : List Char → Value → Prop} (hP : ∀ {text v}, P text v → Passed text)
    {text : List Char} {e : Value × Value} (h : style.Entry P text e) : Passed text := by
  obtain @⟨_, gap', text, _, v, @⟨body, chars, gap, hbody, hgap⟩, hgap', h⟩ := h
  have hshape : '"' :: (body ++ '"' :: gap) ++ ':' :: (gap' ++ text) =
      '"' :: (body ++ ['"']) ++ (gap ++ ':' :: (gap' ++ text)) := by simp
  rw [hshape]
  exact (Passed.quoted hbody.inside).append
    ((passed_gap hgap).append (.cons rfl ((passed_gap hgap').append (hP h))))

theorem outline_of_text {depth : Nat} {text : List Char} {v : Value} (h : style.Text depth text v) :
    Outline text v := by
  induction depth generalizing text v with
  | zero => cases h
  | succ depth ih =>
    have hpassed {text : List Char} {v : Value} (h : style.Text depth text v) : Passed text :=
      (ih h).passed
    cases h with
    | scalar h =>
      cases h with
      | word h => exact h.outline
      | quoted h => exact .quoted h.inside _
    | list h => exact outline_bracketed hpassed h rfl rfl
    | map h => exact outline_bracketed (passed_entry hpassed) h rfl rfl

theorem Denotes.outline {text : String} {v : Value} (h : Denotes text v) :
    Outline text.toList v := by
  obtain ⟨depth, h⟩ := h
  exact outline_of_text h

/-- A text that is JSON as a whole is the text of its value between space. -/
theorem exists_outline_of_read? {text : String} {v : Value} (h : read? text = some v) :
    ∃ before inner after, text.toList = before ++ (inner ++ after) ∧ Outline inner v ∧
      read? (String.ofList inner) = some v ∧
      (∀ c ∈ before, isSpace c = true) ∧ ∀ c ∈ after, isSpace c = true := by
  obtain ⟨before, inner, after, depth, htext, hbefore, hinner, hafter⟩ := read?_eq_some_iff.1 h
  refine ⟨before, inner, after, htext, outline_of_text hinner, ?_, List.all_eq_true.1 hbefore,
    List.all_eq_true.1 hafter⟩
  exact read?_eq_some_iff.2 ⟨[], inner, [], depth, by simp, rfl, hinner, rfl⟩

end Json

end TreeScript
