import Mathlib
import TreeScript.Proofs.JsonInProse

/-!
# Balanced brackets

The bracket scan goes through a text once, with the brackets that are yet to be closed on a stack.
What it looks for can be said without the scan: `WellNested` is the grammar of texts in which every
bracket is closed by its counterpart, where quotes hide what is between them and a backslash hides a
quote, and a `Group` is such a text whose first bracket is closed by its last character.

A text from a bracket on starts with at most one group. The scan finds this group
(`balancedFrom_eq_some_iff`): it passes over everything well nested, and conversely what it has read
until the stack is empty is, bracket by bracket, a well-nested text before each character of the
stack (`Closes`). Since every well-nested text that starts with a bracket starts with a group, the
group is the shortest of them.
-/

namespace TreeScript.Model

/-! ## The grammar -/

/-- An opening bracket and its counterpart. -/
inductive Counterpart : Char → Char → Prop where
  | braces : Counterpart '\x7b' '\x7d'
  | squares : Counterpart '[' ']'

/-- What can stand between two quotes. A backslash takes along the character after it. -/
inductive QuotedText : List Char → Prop where
  | nil : QuotedText []
  | plain {c : Char} {cs : List Char} :
    c ≠ '"' → c ≠ '\\' → QuotedText cs → QuotedText (c :: cs)
  | escape (c : Char) {cs : List Char} : QuotedText cs → QuotedText ('\\' :: c :: cs)

/-- A text in which each bracket is closed by its counterpart and each quote that opens a string by
another one. Brackets in strings do not count. -/
inductive WellNested : List Char → Prop where
  | nil : WellNested []
  | plain {c : Char} {cs : List Char} :
    c ∉ ['"', '\x7b', '\x7d', '[', ']'] → WellNested cs → WellNested (c :: cs)
  | quoted {text cs : List Char} :
    QuotedText text → WellNested cs → WellNested ('"' :: (text ++ '"' :: cs))
  | bracketed {l r : Char} {inner cs : List Char} :
    Counterpart l r → WellNested inner → WellNested cs → WellNested (l :: (inner ++ r :: cs))

/-- A well-nested text that closes its first bracket with its last character. -/
def Group (cs : List Char) : Prop :=
  ∃ l r inner, Counterpart l r ∧ WellNested inner ∧ cs = l :: (inner ++ [r])

namespace Counterpart

variable {l r : Char}

theorem isOpening (h : Counterpart l r) : isOpening l = true := by
  cases h <;> rfl

theorem closingOf_eq (h : Counterpart l r) : closingOf l = r := by
  cases h <;> rfl

theorem of_isOpening {c : Char} (h : Model.isOpening c = true) : Counterpart c (closingOf c) := by
  have hcases : c = '\x7b' ∨ c = '[' := by simpa [Model.isOpening] using h
  rcases hcases with rfl | rfl
  · exact .braces
  · exact .squares

end Counterpart

theorem isIdle_iff {c : Char} : isIdle c = true ↔ c ∉ ['"', '\x7b', '\x7d', '[', ']'] := by
  simp only [isIdle, isOpening, isClosing, Bool.not_eq_true', Bool.or_eq_false_iff,
    beq_eq_false_iff_ne, List.mem_cons, List.not_mem_nil, or_false, not_or]
  tauto

theorem Group.wellNested {cs : List Char} (h : Group cs) : WellNested cs := by
  obtain ⟨l, r, inner, hlr, hinner, rfl⟩ := h
  exact .bracketed hlr hinner .nil

/-! ## Well-nested texts are passed over -/

theorem QuotedText.inside {cs : List Char} (h : QuotedText cs) : Inside cs := by
  induction h with
  | nil => exact .nil
  | plain hquote hslash _ ih => exact .cons hquote hslash ih
  | escape c _ ih => exact .escape c ih

theorem WellNested.passed {cs : List Char} (h : WellNested cs) : Passed cs := by
  induction h with
  | nil => exact .nil
  | plain hc _ ih => exact .cons (isIdle_iff.2 hc) ih
  | @quoted text cs htext _ ih =>
    have happend := (Passed.quoted htext.inside).append ih
    simpa using happend
  | @bracketed l r inner cs hlr _ _ ihinner ih =>
    have happend := (ihinner.bracketed hlr.isOpening).append ih
    simpa [hlr.closingOf_eq] using happend

/-! ## What has been read when all brackets are closed -/

/-- A text that closes brackets one after the other, each after a well-nested text. -/
inductive Closes : List Char → List Char → Prop where
  | last {r : Char} {inner : List Char} : WellNested inner → Closes [r] (inner ++ [r])
  | more {r : Char} {expected inner cs : List Char} :
    WellNested inner → Closes expected cs → Closes (r :: expected) (inner ++ r :: cs)

namespace Closes

variable {expected cs : List Char}

/-- What may stand before every well-nested text may stand before the first closing bracket. -/
theorem prepend {text : List Char} (htext : ∀ inner, WellNested inner → WellNested (text ++ inner))
    (h : Closes expected cs) : Closes expected (text ++ cs) := by
  cases h with
  | last hinner =>
    rw [← List.append_assoc]
    exact .last (htext _ hinner)
  | more hinner hrest =>
    rw [← List.append_assoc]
    exact .more (htext _ hinner) hrest

/-- A bracket is closed before the brackets around it are. -/
theorem opening {l r : Char} (hlr : Counterpart l r) (hne : expected ≠ [])
    (h : Closes (r :: expected) cs) : Closes expected (l :: cs) := by
  cases h with
  | last => exact absurd rfl hne
  | @more _ _ inner rest hinner hrest =>
    have htext : ∀ later, WellNested later → WellNested ((l :: (inner ++ [r])) ++ later) := by
      intro later hlater
      simpa using WellNested.bracketed hlr hinner hlater
    simpa using hrest.prepend htext

end Closes

/-- What a scan has read until all brackets are closed, by where it has started. -/
def Reads (expected : List Char) : Quoting → List Char → Prop
  | .outside, cs => Closes expected cs
  | .inside, cs => ∃ text rest, QuotedText text ∧ Closes expected rest ∧ cs = text ++ '"' :: rest
  | .escaped, cs => ∃ c text rest,
      QuotedText text ∧ Closes expected rest ∧ cs = c :: (text ++ '"' :: rest)

/-- What a scan that ends does with a character outside of quotes: it enters a string, has another
bracket to close, has closed the last one or an inner one, or passes the character over. -/
theorem balancedFrom_outside {c d : Char} {others rest found : List Char}
    (h : balancedFrom (d :: others) .outside (c :: rest) = some found) :
    c = d ∧ others = [] ∧ found = [c] ∨ ∃ later, found = c :: later ∧
      (c = '"' ∧ balancedFrom (d :: others) .inside rest = some later ∨
        isOpening c = true ∧ balancedFrom (closingOf c :: d :: others) .outside rest = some later ∨
        c = d ∧ others ≠ [] ∧ balancedFrom others .outside rest = some later ∨
        isIdle c = true ∧ balancedFrom (d :: others) .outside rest = some later) := by
  rw [balancedFrom] at h
  split_ifs at h with hquote hopening hclosing hd hothers
  · obtain ⟨later, hlater, rfl⟩ := Option.map_eq_some_iff.1 h
    exact .inr ⟨later, rfl, .inl ⟨beq_iff_eq.1 hquote, hlater⟩⟩
  · obtain ⟨later, hlater, rfl⟩ := Option.map_eq_some_iff.1 h
    exact .inr ⟨later, rfl, .inr (.inl ⟨hopening, hlater⟩)⟩
  · cases h
    exact .inl ⟨by simpa using hd, List.isEmpty_iff.1 hothers, rfl⟩
  · obtain ⟨later, hlater, rfl⟩ := Option.map_eq_some_iff.1 h
    exact .inr ⟨later, rfl, .inr (.inr (.inl ⟨by simpa using hd, by simpa using hothers, hlater⟩))⟩
  · obtain ⟨later, hlater, rfl⟩ := Option.map_eq_some_iff.1 h
    have hidle : isIdle c = true := by simp_all [isIdle]
    exact .inr ⟨later, rfl, .inr (.inr (.inr ⟨hidle, hlater⟩))⟩

/-- A scan that ends has read the start of the text up to where the brackets are closed. The
induction is on the text, for all stacks and places at once. -/
theorem reads_of_balancedFrom {cs expected found : List Char} {place : Quoting}
    (hne : expected ≠ []) (h : balancedFrom expected place cs = some found) :
    Reads expected place found ∧ found <+: cs := by
  induction cs generalizing expected place found with
  | nil =>
    rw [balancedFrom] at h
    cases h
  | cons c rest ih =>
    have hcons : ∀ {later : List Char}, later <+: rest → c :: later <+: c :: rest :=
      fun hlater => List.cons_prefix_cons.2 ⟨rfl, hlater⟩
    cases place with
    | escaped =>
      rw [balancedFrom] at h
      obtain ⟨later, hlater, rfl⟩ := Option.map_eq_some_iff.1 h
      obtain ⟨⟨text, after, htext, hafter, rfl⟩, hstart⟩ := ih hne hlater
      exact ⟨⟨c, text, after, htext, hafter, rfl⟩, hcons hstart⟩
    | inside =>
      rw [balancedFrom] at h
      obtain ⟨later, hlater, rfl⟩ := Option.map_eq_some_iff.1 h
      obtain ⟨hreads, hstart⟩ := ih hne hlater
      refine ⟨?_, hcons hstart⟩
      by_cases hslash : c = '\\'
      · rw [if_pos (beq_iff_eq.2 hslash)] at hreads
        obtain ⟨e, text, after, htext, hafter, rfl⟩ := hreads
        exact ⟨c :: e :: text, after, hslash ▸ .escape e htext, hafter, rfl⟩
      rw [if_neg (by simpa using hslash)] at hreads
      by_cases hquote : c = '"'
      · rw [if_pos (beq_iff_eq.2 hquote)] at hreads
        exact ⟨[], later, .nil, hreads, hquote ▸ rfl⟩
      · rw [if_neg (by simpa using hquote)] at hreads
        obtain ⟨text, after, htext, hafter, rfl⟩ := hreads
        exact ⟨c :: text, after, .plain hquote hslash htext, hafter, rfl⟩
    | outside =>
      obtain ⟨d, others, rfl⟩ := List.exists_cons_of_ne_nil hne
      obtain ⟨rfl, rfl, rfl⟩ | ⟨later, rfl, hstep⟩ := balancedFrom_outside h
      · exact ⟨.last .nil, hcons List.nil_prefix⟩
      obtain ⟨rfl, hlater⟩ | ⟨hopening, hlater⟩ | ⟨rfl, hothers, hlater⟩ | ⟨hidle, hlater⟩ := hstep
      · obtain ⟨⟨text, after, htext, hafter, rfl⟩, hstart⟩ := ih hne hlater
        have hquoted : ∀ inner, WellNested inner →
            WellNested (('"' :: (text ++ ['"'])) ++ inner) := by
          intro inner hinner
          simpa using WellNested.quoted htext hinner
        exact ⟨by simpa [Reads] using hafter.prepend hquoted, hcons hstart⟩
      · obtain ⟨hreads, hstart⟩ := ih (List.cons_ne_nil _ _) hlater
        exact ⟨Closes.opening (.of_isOpening hopening) hne hreads, hcons hstart⟩
      · obtain ⟨hreads, hstart⟩ := ih hothers hlater
        exact ⟨.more .nil hreads, hcons hstart⟩
      · obtain ⟨hreads, hstart⟩ := ih hne hlater
        have hplain : ∀ inner, WellNested inner → WellNested ([c] ++ inner) :=
          fun _ => .plain (isIdle_iff.1 hidle)
        exact ⟨Closes.prepend hplain hreads, hcons hstart⟩

/-- From a bracket on the scan finds the group with which the text starts. -/
theorem balancedFrom_eq_some_iff {c : Char} (hc : isOpening c = true) {rest found : List Char} :
    balancedFrom [] .outside (c :: rest) = some found ↔ Group found ∧ found <+: c :: rest := by
  constructor
  · intro h
    rw [balancedFrom_opening hc] at h
    obtain ⟨later, hlater, rfl⟩ := Option.map_eq_some_iff.1 h
    obtain ⟨hreads, hstart⟩ := reads_of_balancedFrom (List.cons_ne_nil _ _) hlater
    refine ⟨?_, List.cons_prefix_cons.2 ⟨rfl, hstart⟩⟩
    cases hreads with
    | last hinner => exact ⟨c, _, _, .of_isOpening hc, hinner, rfl⟩
    | more _ hnone => cases hnone
  · rintro ⟨⟨l, r, inner, hlr, hinner, rfl⟩, after, hafter⟩
    rw [← hafter, ← hlr.closingOf_eq, List.cons_append, List.append_assoc]
    exact balancedFrom_bracketed hlr.isOpening hinner.passed after

/-- A well-nested text that starts with a bracket starts with a group. -/
theorem WellNested.exists_group {c : Char} (hc : isOpening c = true) {cs : List Char}
    (h : WellNested (c :: cs)) : ∃ found, Group found ∧ found <+: c :: cs := by
  cases h with
  | plain hplain _ =>
    have hidle := isIdle_iff.2 hplain
    simp [isIdle, hc] at hidle
  | quoted => cases hc
  | @bracketed _ r inner rest hlr hinner _ =>
    exact ⟨_, ⟨c, r, inner, hlr, hinner, rfl⟩, rest, by simp⟩

/-! ## The first group of a text -/

/-- The scan starts at the first bracket and finds the group there. -/
theorem firstBalanced?_eq_some_iff {text : String} {i : Nat}
    (hfirst : text.toList.findIdx? isOpening = some i) {found : List Char} :
    firstBalanced? text = some (String.ofList found) ↔
      Group found ∧ found <+: text.toList.drop i := by
  obtain ⟨hlt, rfl⟩ := List.findIdx?_eq_some_iff_findIdx_eq.1 hfirst
  have hskip : text.toList.dropWhile (fun c => !isOpening c) =
      text.toList.drop (text.toList.findIdx isOpening) := by
    simp [List.dropWhile_eq_drop_findIdx_not]
  have hopening : isOpening text.toList[text.toList.findIdx isOpening] = true :=
    List.findIdx_getElem
  rw [firstBalanced?, hskip, List.drop_eq_getElem_cons hlt, ← balancedFrom_eq_some_iff hopening]
  simp [String.ofList_inj]

/-- The scan finds nothing without a bracket. -/
theorem firstBalanced?_eq_none {text : String} (h : text.toList.findIdx? isOpening = none) :
    firstBalanced? text = none := by
  have hskip : text.toList.dropWhile (fun c => !isOpening c) = [] := by
    rw [List.dropWhile_eq_nil_iff]
    simpa using List.findIdx?_eq_none_iff.1 h
  rw [firstBalanced?, hskip, balancedFrom]
  rfl

/-- Let the first opening bracket of a text stand at `i`. What is found is a start of the text from
`i` on, namely the one that is well nested and closes its first bracket with its last character. It
is the shortest well-nested start that is not empty, since all others start with it. Nothing is
found exactly if there is no opening bracket, or no such start from the first one on. -/
theorem firstBalanced?_iff_group (text : String) :
    (∀ i, text.toList.findIdx? isOpening = some i → ∀ found,
      (firstBalanced? text = some (String.ofList found) ↔
        Group found ∧ found <+: text.toList.drop i) ∧
      (firstBalanced? text = some (String.ofList found) → WellNested found ∧
        ∀ cs, WellNested cs → cs ≠ [] → cs <+: text.toList.drop i → found <+: cs)) ∧
    (firstBalanced? text = none ↔ text.toList.findIdx? isOpening = none ∨
      ∃ i, text.toList.findIdx? isOpening = some i ∧
        ∀ found, found <+: text.toList.drop i → ¬ Group found) := by
  refine ⟨fun i hfirst found => ⟨firstBalanced?_eq_some_iff hfirst, fun hfound => ⟨?_, ?_⟩⟩, ?_⟩
  · exact ((firstBalanced?_eq_some_iff hfirst).1 hfound).1.wellNested
  · intro cs hcs hne hstart
    obtain ⟨c, rest, rfl⟩ := List.exists_cons_of_ne_nil hne
    obtain ⟨hlt, hopening, -⟩ := List.findIdx?_eq_some_iff_getElem.1 hfirst
    have hc : c = text.toList[i] := by
      rw [List.drop_eq_getElem_cons hlt, List.cons_prefix_cons] at hstart
      exact hstart.1
    obtain ⟨group, hgroup, hin⟩ := hcs.exists_group (hc ▸ hopening)
    have hsame := (firstBalanced?_eq_some_iff hfirst).2 ⟨hgroup, hin.trans hstart⟩
    rw [hfound, Option.some_inj, String.ofList_inj] at hsame
    exact hsame ▸ hin
  · cases hfirst : text.toList.findIdx? isOpening with
    | none => simp [firstBalanced?_eq_none hfirst]
    | some i =>
      constructor
      · intro hnone
        refine .inr ⟨i, rfl, fun found hstart hgroup => ?_⟩
        rw [(firstBalanced?_eq_some_iff hfirst).2 ⟨hgroup, hstart⟩] at hnone
        cases hnone
      · intro hno
        obtain hnone | ⟨_, hi, hno⟩ := hno
        · cases hnone
        cases hi
        rw [Option.eq_none_iff_forall_ne_some]
        intro found hfound
        rw [← String.ofList_toList (s := found), firstBalanced?_eq_some_iff hfirst] at hfound
        exact hno found.toList hfound.2 hfound.1

end TreeScript.Model
